import WasmCore.Proofs.Exec.Typing

/-!
# `Exec.Soundness` — checked code never goes wrong

A typed machine stays typed from turn to turn, and what stops it is never a fault of its own. A call
from outside starts with a typed machine, so that none of it can go wrong.

* `Exec.Reaches`: several turns;
* `Machine.Typed.turn`, `Machine.Typed.run`: **progress and preservation**, for a turn and for any number
  of them;
* `Machine.Typed.height_at_end`: the operands at the end of a body;
* `Store.WellFormed.invoke_of_types`, `Store.WellFormed.invoke`: calls from outside.
-/

namespace WasmCore

/-! ## Turns -/

/-- `n` turns lead from one machine to another. -/
inductive Exec.Reaches : Nat → Machine → Machine → Prop where
  | refl (m : Machine) : Reaches 0 m m
  | step {n : Nat} {m m' m'' : Machine} :
      Exec.turn m = .ok true m' → Reaches n m' m'' → Reaches (n + 1) m m''

theorem Exec.andTrue_ne_false {f : Exec Unit} {m m' : Machine} :
    (do f; return true : Exec Bool) m ≠ .ok false m' := by
  intro h
  cases hf : f m with
  | ok _ _ => rw [Move.bind_of_ok hf] at h; cases h
  | error _ _ => rw [Move.bind_of_error hf] at h; cases h

/-- A turn that finds nothing to do leaves the machine as it is. -/
theorem Exec.turn_eq_false {m m' : Machine} (h : Exec.turn m = .ok false m') :
    m' = m ∧ m.code = [] ∧ m.labels = ∅ := by
  obtain ⟨store, fuel, stack, code, ⟨labels, height, hheight⟩, frames⟩ := m
  cases code with
  | cons i rest => exact absurd h Exec.andTrue_ne_false
  | nil =>
    cases labels with
    | cons label outer => exact absurd h Exec.andTrue_ne_false
    | nil => cases h; exact ⟨rfl, rfl, Stack.ext rfl⟩

namespace Sound

variable {s s' : Store} {origins : List (Option Module)} {results : List ValType} {α β : Type}

/-- What follows a move that cannot change the machine any more. -/
theorem map {f : Exec α} {m : Machine} (b : β) (h : Sound s origins results (f m)) :
    Sound s origins results ((do let _ ← f; return b : Exec β) m) := by
  cases hf : f m with
  | ok x m' => rw [Move.bind_of_ok hf]; rw [hf] at h; exact h
  | error t m' => rw [Move.bind_of_error hf]; rw [hf] at h; exact h

/-- What a store has lost nothing since, an earlier one has not either. -/
theorem mono {r : EStateM.Result Trap Machine α} (hs : s.Persists s')
    (h : Sound s' origins results r) : Sound s origins results r := by
  cases r with
  | ok x m => exact ⟨h.1, hs.trans h.2⟩
  | error t m => exact ⟨h.1, h.2.1, hs.trans h.2.2⟩

end Sound

namespace Machine.Typed

variable {m : Machine} {origins : List (Option Module)} {results : List ValType}

theorem wellFormed (h : m.Typed origins results) : m.store.WellFormed origins := by
  cases h with
  | running ha => exact ha.store
  | finished hs => exact hs

/-- **At the end of a body** there are exactly the values that it leaves above the operands that it
    did not see. -/
theorem height_at_end (h : m.Typed origins results) (hcode : m.code = []) {label : Label}
    {outer : Stack Label} (hl : m.labels.pop? = some (label, outer)) :
    m.stack.height = label.height + label.endArity := by
  cases h with
  | @running a k C ins ends ha hk hops htype =>
    have hlength : a.operands.length = ends.length := by
      rw [show k.code = [] from hcode] at htype
      rw [length_of_types hops, htype.inv_nil]
    show k.under.height + a.operands.length = _
    rw [hlength]
    cases hk with
    | entry => cases hl; rfl
    | block => cases hl; rfl
    | loop => cases hl; rfl
    | call => cases hl; rfl
  | finished _ _ hlabels => rw [hlabels] at hl; cases hl

/-- The end of a body. -/
theorem turn_of_nil {a : Activation} {k : Surroundings} {C : Scope} {ends : List ValType}
    (ha : a.Typed origins C) (hk : k.Typed a.store results C ends) (hcode : k.code = [])
    (hops : a.operands.map Value.type = ends.reverse) :
    Sound a.store origins results (Exec.turn (a.on k)) := by
  have hlength : ends.length = a.operands.length := (length_of_types hops).symm
  cases hk with
  | entry =>
    obtain rfl := hcode
    rw [hlength, Activation.turn_end_entry]
    exact ⟨.finished ha.store rfl rfl hops, .refl _⟩
  | @block k C ends below ts vs code hk hvs hrest =>
    obtain rfl : code = [] := hcode
    rw [hlength, Activation.turn_end_enter (by simp)]
    refine ⟨.running (C := C) ⟨ha.store, ha.inst, ha.locals⟩ hk ?_ hrest, .refl _⟩
    rw [List.map_append, hops, hvs, List.reverse_append]
  | @loop k C ends below ts vs body code hk hvs hrest hbody =>
    obtain rfl : code = [] := hcode
    rw [hlength, Activation.turn_end_enter (by simp)]
    refine ⟨.running (C := C) ⟨ha.store, ha.inst, ha.locals⟩ hk ?_ hrest, .refl _⟩
    rw [List.map_append, hops, hvs, List.reverse_append]
  | @call k C ends below ts locals caller c code hk hinst hlocals hvs hrest =>
    obtain rfl : code = [] := hcode
    rw [hlength, Activation.turn_end_call]
    refine ⟨.running ⟨ha.store, hinst, hlocals⟩ hk ?_ hrest, .refl _⟩
    rw [List.map_append, hops, hvs, List.reverse_append]

theorem charge_some {a b : Activation} (h : a.charge = some b) : ∃ fuel, b = { a with fuel } := by
  unfold Activation.charge at h
  split at h
  · cases h; exact ⟨a.fuel, rfl⟩
  · cases h
  · cases h; exact ⟨_, rfl⟩

/-- The next instruction of a body. -/
theorem turn_of_cons {a : Activation} {k : Surroundings} {C : Scope} {ins ends : List ValType}
    {i : Instr} {rest : List Instr} (ha : a.Typed origins C) (hk : k.Typed a.store results C ends)
    (hcode : k.code = i :: rest) (hops : a.operands.map Value.type = ins.reverse)
    (htype : Expr.HasType C (i :: rest) ins ends) :
    Sound a.store origins results (Exec.turn (a.on k)) := by
  obtain ⟨below, ins', mid, rfl, hi, hrest⟩ := htype.inv_cons
  obtain ⟨vs, lower, hvs, htop, hlower⟩ := values_above hops
  rw [Activation.turn_step hcode]
  cases hcharge : a.charge with
  | none => exact ⟨rfl, ha.store, .refl _⟩
  | some b =>
    obtain ⟨fuel, rfl⟩ := charge_some hcharge
    exact (Activation.sound_step (ha.setFuel fuel) (hk.setCode rest) hi hvs htop hlower hrest).map true

/-- **Progress and preservation.** A turn keeps a machine typed, or traps without a fault of the
    machine. -/
theorem turn (h : m.Typed origins results) : Sound m.store origins results (Exec.turn m) := by
  cases h with
  | @running a k C ins ends ha hk hops htype =>
    cases hcode : k.code with
    | nil =>
      rw [hcode] at htype
      rw [htype.inv_nil] at hops
      exact turn_of_nil ha hk hcode hops
    | cons i rest =>
      rw [hcode] at htype
      exact turn_of_cons ha hk hcode hops htype
  | finished hs hcode hlabels hstack =>
    obtain ⟨store, fuel, stack, code, labels, frames⟩ := m
    subst hcode hlabels
    exact ⟨.finished hs rfl rfl hstack, .refl _⟩

/-- A machine that has nothing left to do holds the results. -/
theorem types_at_end (h : m.Typed origins results) (hcode : m.code = []) (hlabels : m.labels = ∅) :
    m.stack.toList.map Value.type = results.reverse := by
  cases h with
  | @running a k C ins ends ha hk hops htype =>
    obtain ⟨hheight, hpos, -⟩ := hk.labels
    have hzero : k.labels.height = 0 := congrArg Stack.height hlabels
    omega
  | finished _ _ _ hstack => exact hstack

/-- Any number of turns leads from typed machines to typed machines. -/
theorem reaches (h : m.Typed origins results) {n : Nat} {m' : Machine} (hm : Exec.Reaches n m m') :
    m'.Typed origins results ∧ m.store.Persists m'.store := by
  induction hm with
  | refl m => exact ⟨h, .refl _⟩
  | step hturn _ ih =>
    have hsound := h.turn
    rw [hturn] at hsound
    obtain ⟨h', hp⟩ := ih hsound.1
    exact ⟨h', hsound.2.trans hp⟩

/-- **A bounded run** of a typed machine either traps without a fault of the machine or keeps it
    typed; if it came to the end, the results are there. -/
theorem run (h : m.Typed origins results) (turns : Nat) :
    Sound m.store origins results (Exec.run turns m) ∧
      ∀ m', Exec.run turns m = .ok true m' → m'.stack.toList.map Value.type = results.reverse := by
  induction turns generalizing m with
  | zero =>
    -- Out of turns, a run only looks whether the machine is at its end.
    have hrun : Exec.run 0 m = .ok (m.code.isEmpty && m.labels.height == 0) m := rfl
    rw [hrun]
    refine ⟨⟨h, .refl _⟩, fun m' hm' => ?_⟩
    cases hend : (m.code.isEmpty && m.labels.height == 0) with
    | false => rw [hend] at hm'; cases hm'
    | true =>
      rw [hend] at hm'
      cases hm'
      simp only [Bool.and_eq_true, List.isEmpty_iff, beq_iff_eq] at hend
      exact h.types_at_end hend.1 (Stack.ext (List.length_eq_zero_iff.mp (by simp [hend.2])))
  | succ turns ih =>
    have hturn := h.turn
    cases ht : Exec.turn m with
    | error t m' =>
      rw [ht] at hturn
      have hrun : Exec.run (turns + 1) m = .error t m' := Move.bind_of_error ht
      rw [hrun]
      exact ⟨hturn, nofun⟩
    | ok more m' =>
      rw [ht] at hturn
      cases more with
      | true =>
        have hrun : Exec.run (turns + 1) m = Exec.run turns m' := Move.bind_of_ok ht
        rw [hrun]
        obtain ⟨hsound, hend⟩ := ih hturn.1
        exact ⟨hsound.mono hturn.2, hend⟩
      | false =>
        have hrun : Exec.run (turns + 1) m = .ok true m' := Move.bind_of_ok ht
        rw [hrun]
        refine ⟨hturn, fun m'' hm'' => ?_⟩
        cases hm''
        -- Only a machine without code and labels takes no further turn.
        obtain ⟨rfl, hcode, hlabels⟩ := Exec.turn_eq_false ht
        exact h.types_at_end hcode hlabels

end Machine.Typed

/-! ## Calls from outside -/

namespace Store

variable {s : Store} {a : FuncAddr} {args : List Value} {type : FuncType}
  {origins : List (Option Module)}

/-- Arguments are accepted exactly if there is a function that takes them. -/
theorem acceptsArgs_eq_ok_iff : s.acceptsArgs a args = .ok () ↔
    ∃ type, s.funcType? a = some type ∧ args.map Value.type = type.params := by
  unfold acceptsArgs Store.funcType
  cases s.funcType? a with
  | none =>
    constructor
    · intro h; cases h
    · rintro ⟨_, h, -⟩; cases h
  | some type =>
    simp only [bind, Except.bind]
    by_cases hlength : args.length = type.params.length
    · have hiff := mismatch?_eq_none_iff hlength
      rw [if_neg (not_not.mpr hlength)]
      cases hm : mismatch? type.params args with
      | some m =>
        constructor
        · intro h; cases h
        · rintro ⟨_, h, htypes⟩
          cases h
          rw [hiff.mpr htypes] at hm
          cases hm
      | none => exact ⟨fun _ => ⟨type, rfl, hiff.mp hm⟩, fun _ => rfl⟩
    · rw [if_pos hlength]
      constructor
      · intro h; cases h
      · rintro ⟨_, h, htypes⟩
        cases h
        rw [← htypes, List.length_map] at hlength
        exact absurd rfl hlength

/-- **The call from outside** leads to a typed machine. -/
theorem WellFormed.call (hs : s.WellFormed origins) (hf : s.funcType? a = some type)
    (hargs : args.map Value.type = type.params) :
    Sound s origins type.results (Exec.call a (s.machine args)) := by
  have hlength : args.length = type.params.length := by rw [← hargs, List.length_map]
  obtain ⟨f, hfunc, hft⟩ := Option.map_eq_some_iff.mp hf
  cases f with
  | defined type' inst code =>
    obtain rfl : type' = type := hft
    obtain ⟨m, -, hm⟩ := hs.funcs a type' inst code hfunc
    rw [Activation.call_machine hfunc hlength]
    by_cases hdepth : s.config.maxCallDepth ≤ 0
    · rw [if_pos hdepth]; exact ⟨rfl, hs, .refl _⟩
    · rw [if_neg hdepth]
      refine ⟨?_, .refl _⟩
      exact .running (C := .ofFunc (.ofModule m) (type'.params ++ code.localTypes) type'.results)
        ⟨hs, hm.implements, Activation.types_startLocals code hargs⟩ .entry Activation.types_nil
        (hasType_of_checkFunc hm.body)
  | host type' run =>
    obtain rfl : type' = type := hft
    obtain ⟨hp, hwf, hres⟩ := Activation.callHost_sound hs a type' run args
    rw [Activation.call_machine_host hfunc hlength]
    generalize s.callHost a type' run args = outcome at hp hwf hres ⊢
    rcases outcome with ⟨t | given, store⟩
    · exact ⟨hres, hwf, hp⟩
    · refine ⟨.finished hwf rfl rfl ?_, hp⟩
      show (given.reverse ++ []).map Value.type = type'.results.reverse
      rw [List.append_nil, List.map_reverse, hres]

/-- What a run of a machine comes to for the caller outside. -/
def outcome : EStateM.Result Trap Machine Bool → Outcome Trap (List Value) × Store
  | .ok true m => (.done m.stack.toList.reverse, m.store)
  | .ok false m => (.unfinished, m.store)
  | .error t m => (.failed t, m.store)

/-- A call from outside that was accepted. -/
theorem invoke_eq (turns : Nat) (h : s.acceptsArgs a args = .ok ()) :
    s.invoke turns a args =
      outcome ((do Exec.call a; Exec.run turns : Exec Bool) (s.machine args)) := by
  rw [invoke, h]; rfl

/-- **A call with arguments of the right types** is safe, whatever the number of turns. -/
theorem WellFormed.invoke_of_types (hs : s.WellFormed origins) (hf : s.funcType? a = some type)
    (hargs : args.map Value.type = type.params) (turns : Nat) :
    s.Persists (s.invoke turns a args).2 ∧ (s.invoke turns a args).2.WellFormed origins ∧
      match (s.invoke turns a args).1 with
      | .done vs => vs.map Value.type = type.results
      | .failed t => t.internal = false
      | .unfinished => True := by
  have hcall := hs.call hf hargs
  rw [invoke_eq turns (acceptsArgs_eq_ok_iff.mpr ⟨type, hf, hargs⟩)]
  -- The call may trap before the first turn, and a host function may be done by then.
  cases hc : Exec.call a (s.machine args) with
  | error t m =>
    rw [hc] at hcall
    rw [Move.bind_of_error hc]
    exact ⟨hcall.2.2, hcall.2.1, hcall.1⟩
  | ok u m =>
    rw [hc] at hcall
    obtain ⟨hsound, hend⟩ := hcall.1.run turns
    rw [Move.bind_of_ok hc]
    cases hrun : Exec.run turns m with
    | error t m' =>
      rw [hrun] at hsound
      exact ⟨hcall.2.trans hsound.2.2, hsound.2.1, hsound.1⟩
    | ok done m' =>
      rw [hrun] at hsound
      cases done with
      | false => exact ⟨hcall.2.trans hsound.2, hsound.1.wellFormed, trivial⟩
      | true =>
        refine ⟨hcall.2.trans hsound.2, hsound.1.wellFormed, ?_⟩
        show m'.stack.toList.reverse.map Value.type = type.results
        rw [List.map_reverse, hend m' hrun, List.reverse_reverse]

/-- Every call from outside keeps a store in order. -/
theorem WellFormed.invoke (hs : s.WellFormed origins) (turns : Nat) (a : FuncAddr)
    (args : List Value) :
    s.Persists (s.invoke turns a args).2 ∧ (s.invoke turns a args).2.WellFormed origins := by
  cases h : s.acceptsArgs a args with
  | error t =>
    have hinvoke : s.invoke turns a args = (.failed t, s) := by rw [Store.invoke, h]
    rw [hinvoke]
    exact ⟨.refl s, hs⟩
  | ok u =>
    obtain ⟨type, hf, hargs⟩ := acceptsArgs_eq_ok_iff.mp h
    obtain ⟨hp, hwf, -⟩ := hs.invoke_of_types hf hargs turns
    exact ⟨hp, hwf⟩

end Store

end WasmCore
