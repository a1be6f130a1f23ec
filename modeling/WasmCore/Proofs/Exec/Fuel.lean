import WasmCore.Proofs.Exec.Footprint
import WasmCore.Proofs.Exec.Refinement

/-!
# `Exec.Fuel` — fuel only cuts a run short

Fuel is looked at in one place only, before an instruction is executed. A run with fuel therefore goes
along with the run without a limit, turn by turn, until it has to pay for an instruction and cannot.
Turns that close a block are free, but each of them takes away a label that the call itself or an
instruction has put there, so a run cannot go on for ever without executing instructions.

* `Exec.executed`, `Store.executed`: the instructions that are executed in a number of turns;
* `turn_refuel`, `turn_refuel_zero`: **one turn**, with fuel and without;
* `run_refuel`, `run_outOfFuel`: **a run**, with enough fuel and with too little;
* `store_of_executed`: the store depends only on the instructions that were executed;
* `turns_le`: a run without an end executes any number of instructions;
* `Store.invoke_withFuel`: **fuel only cuts a call short**, and the next call starts anew.
-/

namespace WasmCore

/-- The number of instructions that the next turn executes: none if it closes a block or there is no
    fuel left. -/
def Machine.cost (m : Machine) : Nat := if m.code = [] ∨ m.fuel = some 0 then 0 else 1

namespace Exec

open Machine (refuel openBlocks)
open Move (Ignores Raises)

variable {α : Type} {left configured : Option Nat}

/-! ## One turn -/

variable {m m' : Machine} {i : Instr} {rest : List Instr} {n : Nat}

/-- A turn that executes an instruction. -/
theorem turn_cons (h : m.code = i :: rest) :
    turn m = (do advance i rest; return true : Exec Bool) m := by
  rw [turn, Move.get_bind, h]

/-- A turn that closes a block, or finds that nothing is left. -/
theorem turn_nil (h : m.code = []) :
    turn m = (match m.labels.pop? with
      | none => return false
      | some (label, outer) => do close label outer; return true : Exec Bool) m := by
  rw [turn, Move.get_bind, h]
  rfl

/-- **A turn that closes a block** does not look at fuel. -/
theorem turn_refuel_nil (h : m.code = []) :
    turn (m.refuel left configured) = Move.inState (refuel left configured) (turn m) := by
  have h' : (m.refuel left configured).code = [] := h
  rw [turn_nil h, turn_nil h']
  show (match m.labels.pop? with | none => _ | some (label, outer) => _ : Exec Bool) _ = _
  cases m.labels.pop? with
  | none => rfl
  | some p =>
    have hclose : Ignores (refuel left configured) (do close p.1 p.2; return true : Exec Bool) :=
      .bind (ignores_close p.1 p.2) fun _ => .pure _
    exact hclose m

/-- An instruction that can be paid for. -/
theorem turn_charged (h : m.code = i :: rest) (hm : m.fuel ≠ some 0) :
    turn m =
      (do step i; return true : Exec Bool) { m with code := rest, fuel := m.fuel.map Nat.pred } := by
  have hadvance : advance i rest m = step i { m with code := rest, fuel := m.fuel.map Nat.pred } := by
    rw [advance]
    split
    · next hnone => rw [hnone, Option.map_none]
    · next hzero => exact absurd hzero hm
    · next hsucc => rw [hsucc, Option.map_some, Nat.pred_succ]
  rw [turn_cons h]
  show EStateM.bind _ _ _ = EStateM.bind _ _ _
  simp only [EStateM.bind, hadvance]

/-- An instruction that cannot be paid for. -/
theorem turn_unpaid (h : m.code = i :: rest) (hm : m.fuel = some 0) :
    turn m = .error .outOfFuel m := by
  have hadvance : advance i rest m = .error .outOfFuel m := by rw [advance, hm]
  rw [turn_cons h, Move.bind_of_error hadvance]

/-- An instruction, where fuel is not limited. -/
theorem turn_unlimited (h : m.code = i :: rest) (hm : m.fuel = none) :
    turn m = (do step i; return true : Exec Bool) { m with code := rest } := by
  rw [turn_charged h (by simp [hm]), hm, Option.map_none, ← hm]

/-- **A turn that executes an instruction** uses up a unit of fuel, and is the same otherwise. -/
theorem turn_refuel_cons (h : m.code = i :: rest) (hm : m.fuel = none) :
    turn (m.refuel (some (n + 1)) configured) =
      Move.inState (refuel (some n) configured) (turn m) := by
  have hadvance : advance i rest (m.refuel (some (n + 1)) configured) =
      step i (refuel (some n) configured { m with code := rest }) := rfl
  have hstep : Ignores (refuel (some n) configured) (do step i; return true : Exec Bool) :=
    .bind (ignores_step i) fun _ => .pure _
  have h' : (m.refuel (some (n + 1)) configured).code = i :: rest := h
  rw [turn_unlimited h hm, ← hstep, turn_cons h']
  show EStateM.bind _ _ _ = EStateM.bind _ _ _
  simp only [EStateM.bind, hadvance]

/-- Without fuel no instruction is executed. -/
theorem turn_refuel_zero (h : m.code = i :: rest) :
    turn (m.refuel (some 0) configured) = .error .outOfFuel (m.refuel (some 0) configured) :=
  turn_unpaid (m := m.refuel (some 0) configured) h rfl

/-- **What a turn does to fuel.** It uses up what its instruction costs. -/
theorem fuel_after_turn (m : Machine) :
    (Move.after (turn m)).fuel = m.fuel.map (· - m.cost) := by
  cases h : m.code with
  | cons i rest =>
    by_cases hm : m.fuel = some 0
    · rw [turn_unpaid h hm]
      simp [Move.after, hm]
    · have hstep : ∀ left configured,
          Ignores (refuel left configured) (do step i; return true : Exec Bool) :=
        fun left configured => .bind (ignores_step i) fun _ => .pure _
      have hcost : m.cost = 1 := by simp [Machine.cost, h, hm]
      rw [turn_charged h hm, fuel_of_ignores hstep, hcost]
      rfl
  | nil =>
    have hcost : m.cost = 0 := by simp [Machine.cost, h]
    have hsame : m.fuel = m.fuel.map (· - m.cost) := by simp [hcost]
    rw [turn_nil h]
    cases m.labels.pop? with
    | none => exact hsame
    | some p =>
      have hclose : ∀ left configured,
          Ignores (refuel left configured) (do close p.1 p.2; return true : Exec Bool) :=
        fun left configured => .bind (ignores_close p.1 p.2) fun _ => .pure _
      exact (fuel_of_ignores hclose m).trans hsame

/-- Where fuel is not limited it stays so. -/
theorem fuel_turn (hm : m.fuel = none) : (Move.after (turn m)).fuel = none := by
  rw [fuel_after_turn, hm, Option.map_none]

/-- **A turn with fuel.** Where there is enough of it for the turn, it is as without a limit. -/
theorem turn_refuel (configured : Option Nat) (hm : m.fuel = none) (hn : m.cost ≤ n) :
    turn (m.refuel (some n) configured) =
      Move.inState (refuel (some (n - m.cost)) configured) (turn m) := by
  cases h : m.code with
  | nil =>
    have hcost : m.cost = 0 := by simp [Machine.cost, h]
    rw [hcost, Nat.sub_zero]
    exact turn_refuel_nil h
  | cons i rest =>
    have hcost : m.cost = 1 := by simp [Machine.cost, h, hm]
    rw [hcost] at hn
    obtain ⟨n, rfl⟩ := Nat.exists_eq_add_of_le' hn
    rw [hcost, Nat.add_sub_cancel]
    exact turn_refuel_cons h hm

/-! ## Runs -/

/-- **The number of instructions that are executed** in a number of turns. One that traps counts. -/
def executed : (turns : Nat) → Machine → Nat
  | 0, _ => 0
  | turns + 1, m =>
    match turn m with
    | .ok true m' => m.cost + executed turns m'
    | _ => m.cost

theorem executed_succ_of_ok (h : turn m = .ok true m') (turns : Nat) :
    executed (turns + 1) m = m.cost + executed turns m' := by
  rw [executed, h]

theorem executed_succ_of_error {t : Trap} (h : turn m = .error t m') (turns : Nat) :
    executed (turns + 1) m = m.cost := by
  rw [executed, h]

theorem executed_succ_of_end (h : turn m = .ok false m') (turns : Nat) :
    executed (turns + 1) m = m.cost := by
  rw [executed, h]

theorem run_succ_of_end (h : turn m = .ok false m') (turns : Nat) :
    run (turns + 1) m = .ok true m' :=
  Move.bind_of_ok h

/-- **A run with enough fuel** is as without a limit, and what is not used up is left. -/
theorem run_refuel {turns : Nat} (configured : Option Nat) (hm : m.fuel = none)
    (hn : executed turns m ≤ n) :
    run turns (m.refuel (some n) configured) =
      Move.inState (refuel (some (n - executed turns m)) configured) (run turns m) := by
  induction turns generalizing m n with
  | zero => rfl
  | succ turns ih =>
    have hfuel := fuel_turn hm
    cases hturn : turn m with
    | error t m' =>
      rw [executed_succ_of_error hturn] at hn ⊢
      have hlimited := turn_refuel configured hm hn
      rw [hturn] at hlimited
      rw [run_succ_of_error hturn, run_succ_of_error hlimited]
      rfl
    | ok more m' =>
      rw [hturn] at hfuel
      replace hfuel : m'.fuel = none := hfuel
      cases more with
      | false =>
        rw [executed_succ_of_end hturn] at hn ⊢
        have hlimited := turn_refuel configured hm hn
        rw [hturn] at hlimited
        rw [run_succ_of_end hturn, run_succ_of_end hlimited]
        rfl
      | true =>
        rw [executed_succ_of_ok hturn] at hn ⊢
        have hlimited := turn_refuel configured hm (Nat.le_of_add_right_le hn)
        rw [hturn] at hlimited
        rw [run_succ_of_ok hturn, run_succ_of_ok hlimited, ih hfuel (by omega), Nat.sub_sub]

/-- **A run with too little fuel** goes as far as without a limit until its fuel is used up, and ends
    there. -/
theorem run_outOfFuel {turns : Nat} (hm : m.fuel = none) (hn : n < executed turns m)
    (configured : Option Nat) :
    ∃ j m', j < turns ∧ Reaches j m m' ∧ executed j m = n ∧
      run (j + 1) (m.refuel (some n) configured) =
        .error .outOfFuel (m'.refuel (some 0) configured) := by
  induction turns generalizing m n with
  | zero => exact absurd hn (Nat.not_lt_zero n)
  | succ turns ih =>
    by_cases hcost : m.cost ≤ n
    · -- This turn can be paid for, so the fuel runs out in a later one.
      have hlimited := turn_refuel configured hm hcost
      have hfuel := fuel_turn hm
      cases hturn : turn m with
      | error t m' =>
        rw [executed_succ_of_error hturn] at hn
        exact absurd hcost (Nat.not_le_of_lt hn)
      | ok more m' =>
        rw [hturn] at hfuel hlimited
        replace hfuel : m'.fuel = none := hfuel
        cases more with
        | false =>
          rw [executed_succ_of_end hturn] at hn
          exact absurd hcost (Nat.not_le_of_lt hn)
        | true =>
          rw [executed_succ_of_ok hturn] at hn
          have hn' : n - m.cost < executed turns m' := by omega
          obtain ⟨j, m'', hj, hreach, hexecuted, hrun⟩ := ih hfuel hn'
          refine ⟨j + 1, m'', by omega, .step hturn hreach, ?_, ?_⟩
          · rw [executed_succ_of_ok hturn, hexecuted]
            omega
          · rw [run_succ_of_ok hlimited]
            exact hrun
    · cases hcode : m.code with
      | nil => exact absurd (by simp [Machine.cost, hcode]) hcost
      | cons i rest =>
        have hone : m.cost = 1 := by simp [Machine.cost, hcode, hm]
        obtain rfl : n = 0 := by omega
        refine ⟨0, m, Nat.succ_pos _, .refl m, rfl, ?_⟩
        rw [run_succ_of_error (turn_refuel_zero hcode)]

/-! ## Turns without an instruction -/

theorem code_of_cost (hm : m.fuel = none) (h : m.cost = 0) : m.code = [] := by
  by_contra hcode
  simp [Machine.cost, hcode, hm] at h

/-- A turn that executes nothing leaves the store alone. -/
theorem store_of_idle_turn (hm : m.fuel = none) (h : m.cost = 0) :
    (Move.after (turn m)).store = m.store := by
  rw [turn_nil (code_of_cost hm h)]
  cases m.labels.pop? with
  | none => rfl
  | some p =>
    show (Move.after ((do close p.1 p.2; return true : Exec Bool) m)).store = m.store
    rw [Move.after_bind_pure]
    exact (keeps_close (R := Eq) p.1 p.2 m).symm

/-- Without an instruction the store stays as it is, however many turns are taken. -/
theorem store_of_idle {turns : Nat} (hm : m.fuel = none) (h : executed turns m = 0) :
    (Move.after (run turns m)).store = m.store := by
  induction turns generalizing m with
  | zero => rfl
  | succ turns ih =>
    have hfuel := fuel_turn hm
    have hidle := store_of_idle_turn hm
    cases hturn : turn m with
    | error t m' =>
      rw [executed_succ_of_error hturn] at h
      rw [hturn] at hidle
      rw [run_succ_of_error hturn]
      exact hidle h
    | ok more m' =>
      rw [hturn] at hfuel hidle
      replace hfuel : m'.fuel = none := hfuel
      cases more with
      | false =>
        rw [executed_succ_of_end hturn] at h
        rw [run_succ_of_end hturn]
        exact hidle h
      | true =>
        rw [executed_succ_of_ok hturn] at h
        obtain ⟨hcost, hrest⟩ := Nat.add_eq_zero_iff.mp h
        rw [run_succ_of_ok hturn, ih hfuel hrest]
        exact hidle hcost

/-- **The store depends only on the instructions that were executed**, not on the turns between
    them. -/
theorem store_of_executed {turns turns' : Nat} (hm : m.fuel = none)
    (h : executed turns m = executed turns' m) :
    (Move.after (run turns m)).store = (Move.after (run turns' m)).store := by
  induction turns generalizing m turns' with
  | zero => rw [store_of_idle hm rfl, store_of_idle hm h.symm]
  | succ turns ih =>
    cases turns' with
    | zero => rw [store_of_idle hm h, store_of_idle hm rfl]
    | succ turns' =>
      have hfuel := fuel_turn hm
      cases hturn : turn m with
      | error t m' => rw [run_succ_of_error hturn, run_succ_of_error hturn]
      | ok more m' =>
        rw [hturn] at hfuel
        replace hfuel : m'.fuel = none := hfuel
        cases more with
        | false => rw [run_succ_of_end hturn, run_succ_of_end hturn]
        | true =>
          rw [executed_succ_of_ok hturn, executed_succ_of_ok hturn] at h
          rw [run_succ_of_ok hturn, run_succ_of_ok hturn]
          exact ih hfuel (Nat.add_left_cancel h)

/-! ## Runs without an end -/

/-- Closing a block leaves the blocks around it. -/
theorem openBlocks_close (label : Label) (outer : Stack Label) (m : Machine) :
    (Move.after (close label outer m)).openBlocks ≤ outer.height := by
  have hstart : (modify fun m : Machine => { m with code := label.rest, labels := outer } : Exec Unit) m =
      .ok () { m with code := label.rest, labels := outer } := rfl
  rw [close, Move.bind_of_ok hstart]
  refine (Raises.bind (k := 0) (raises_onStack _) fun _ => ?_ : Raises openBlocks 0 _) _
  split
  · exact .modify fun m => Nat.le_refl _
  · exact .pure _

/-- **What a turn does to the blocks.** An instruction may enter one, and any other turn closes one. -/
theorem openBlocks_turn (h : turn m = .ok true m') :
    m'.openBlocks + 1 ≤ m.openBlocks + 2 * m.cost := by
  cases hcode : m.code with
  | cons i rest =>
    have hm : m.fuel ≠ some 0 := by
      intro hzero
      rw [turn_unpaid hcode hzero] at h
      cases h
    have hcost : m.cost = 1 := by simp [Machine.cost, hcode, hm]
    have hraised := raises_step i { m with code := rest, fuel := m.fuel.map Nat.pred }
    rw [turn_charged hcode hm] at h
    rw [← Move.after_bind_pure (step i) true, h] at hraised
    rw [hcost]
    exact Nat.succ_le_succ hraised
  | nil =>
    rw [turn_nil hcode] at h
    cases hpop : m.labels.pop? with
    | none => rw [hpop] at h; cases h
    | some p =>
      rw [hpop] at h
      replace h : (do close p.1 p.2; return true : Exec Bool) m = .ok true m' := h
      have hclosed := openBlocks_close p.1 p.2 m
      rw [← Move.after_bind_pure (close p.1 p.2) true, h] at hclosed
      have hheight : m.openBlocks = p.2.height + 1 := by
        rw [openBlocks, (Stack.pop?_eq_some_iff _ _ _).mp hpop, Stack.height_push]
      rw [hheight]
      exact Nat.le_add_right_of_le (Nat.succ_le_succ hclosed)

/-- **A run that has not come to its end has executed instructions.** At most every second of its turns
    was free, the blocks apart that it started in. -/
theorem turns_le {turns : Nat} (h : run turns m = .ok false m') :
    turns ≤ 2 * executed turns m + m.openBlocks := by
  induction turns generalizing m with
  | zero => exact Nat.zero_le _
  | succ turns ih =>
    cases hturn : turn m with
    | error t m₁ => rw [run_succ_of_error hturn] at h; cases h
    | ok more m₁ =>
      cases more with
      | false => rw [run_succ_of_end hturn] at h; cases h
      | true =>
        rw [run_succ_of_ok hturn] at h
        have hrest := ih h
        have hblocks := openBlocks_turn hturn
        rw [executed_succ_of_ok hturn]
        omega

end Exec

/-! ## Calls from outside -/

namespace Store

variable {s : Store} {a : FuncAddr} {args : List Value}

/-- **The number of instructions that a call executes** in a number of turns: none if it is refused or
    fails before the first turn. -/
def executed (turns : Nat) (s : Store) (a : FuncAddr) (args : List Value) : Nat :=
  match s.acceptsArgs a args with
  | .error _ => 0
  | .ok () =>
    match Exec.call a (s.machine args) with
    | .error _ _ => 0
    | .ok () m => Exec.executed turns m

/-- The configuration is the same, and the calls to the host so far are not forgotten. -/
structure Continues (s s' : Store) : Prop where
  config : s'.config = s.config
  hostCalls : s.hostCalls.toList <+: s'.hostCalls.toList

instance : IsPreorder Store Continues where
  refl _ := ⟨rfl, List.prefix_rfl⟩
  trans _ _ _ h h' := ⟨h'.config.trans h.config, h.hostCalls.trans h'.hostCalls⟩

theorem Effect.continues {s s' : Store} (h : s.Effect s') : s.Continues s' := by
  cases h with
  | hostCall c =>
    refine ⟨rfl, ?_⟩
    rw [Array.toList_push]
    exact List.prefix_append _ _
  | write a start bytes => exact ⟨rfl, List.prefix_rfl⟩
  | grow ha hdelta => exact ⟨rfl, List.prefix_rfl⟩

/-- A run goes on from the store that it has. -/
theorem continues_run (turns : Nat) (m : Machine) :
    m.store.Continues (Move.after (Exec.run turns m)).store :=
  Exec.keeps_run Effect.continues (fun _ _ _ => ⟨rfl, List.prefix_rfl⟩) turns m

/-- A call leaves the configuration alone. -/
theorem config_invoke (turns : Nat) (s : Store) (a : FuncAddr) (args : List Value) :
    (s.invoke turns a args).2.config = s.config :=
  (keeps_invoke Effect.continues (fun _ _ _ => ⟨rfl, List.prefix_rfl⟩) turns s a args).config

theorem outcome_inState (left configured : Option Nat) (r : EStateM.Result Trap Machine Bool) :
    outcome (Move.inState (Machine.refuel left configured) r) =
      ((outcome r).1, (outcome r).2.withFuel configured) := by
  cases r with
  | ok done m => cases done <;> rfl
  | error t m => rfl

/-- **The beginning of a call.** Either it fails before the first turn, or it gets under way; which of
    the two, and how, does not depend on fuel. -/
theorem begin_cases (s : Store) (a : FuncAddr) (args : List Value) :
    (∃ (t : Trap) (s' : Store), ∀ fuel turns, (s.withFuel fuel).executed turns a args = 0 ∧
      (s.withFuel fuel).invoke turns a args = (.failed t, s'.withFuel fuel)) ∨
    (∃ m : Machine, ∀ fuel turns,
      (s.withFuel fuel).executed turns a args = Exec.executed turns (m.refuel fuel fuel) ∧
      (s.withFuel fuel).invoke turns a args = outcome (Exec.run turns (m.refuel fuel fuel))) := by
  cases hargs : s.acceptsArgs a args with
  | error t =>
    refine .inl ⟨t, s, fun fuel turns => ?_⟩
    have hargs' : (s.withFuel fuel).acceptsArgs a args = .error t := hargs
    constructor
    · rw [executed, hargs']
    · rw [invoke, hargs']
  | ok u =>
    have hcall' : ∀ fuel, Exec.call a ((s.withFuel fuel).machine args) =
        Move.inState (Machine.refuel fuel fuel) (Exec.call a (s.machine args)) :=
      fun fuel => Exec.ignores_call a (s.machine args)
    cases hcall : Exec.call a (s.machine args) with
    | error t m =>
      refine .inl ⟨t, m.store, fun fuel turns => ?_⟩
      have hargs' : (s.withFuel fuel).acceptsArgs a args = .ok () := hargs
      have hfailed := hcall' fuel
      rw [hcall] at hfailed
      constructor
      · rw [executed, hargs', hfailed]
        rfl
      · rw [invoke_eq turns hargs', Move.bind_of_error hfailed]
        rfl
    | ok u m =>
      refine .inr ⟨m, fun fuel turns => ?_⟩
      have hargs' : (s.withFuel fuel).acceptsArgs a args = .ok () := hargs
      have hstarted := hcall' fuel
      rw [hcall] at hstarted
      constructor
      · rw [executed, hargs', hstarted]
        rfl
      · exact invoke_of_call hargs' hstarted turns

/-- **The call ends for want of fuel** where the call without a limit has executed as many instructions
    as there were units of fuel: then and there its store is the one that is left. -/
def EndsOutOfFuel (s : Store) (a : FuncAddr) (args : List Value) (n : Nat) (s' : Store) : Prop :=
  (∃ turns, (s.withFuel (some n)).invoke turns a args =
    (.failed .outOfFuel, s'.withFuel (some n))) ∧
  (∃ turns, (s.withFuel none).executed turns a args = n) ∧
  (∀ turns, (s.withFuel none).executed turns a args = n →
    ((s.withFuel none).invoke turns a args).2 = s')

/-- **Enough fuel** is as good as fuel without a limit. -/
theorem invoke_of_enough {turns n : Nat} (hn : (s.withFuel none).executed turns a args ≤ n) :
    (s.withFuel (some n)).invoke turns a args =
      (((s.withFuel none).invoke turns a args).1,
        ((s.withFuel none).invoke turns a args).2.withFuel (some n)) := by
  rcases begin_cases s a args with ⟨t, s', hfails⟩ | ⟨m, hruns⟩
  · rw [(hfails (some n) turns).2, (hfails none turns).2]
    rfl
  · rw [(hruns none turns).1] at hn
    have hrun := Exec.run_refuel (m := m.refuel none none) (some n) rfl hn
    rw [(hruns (some n) turns).2, (hruns none turns).2, ← outcome_inState, ← hrun]
    rfl

/-- **Too little fuel** cuts the call short. The calls to the host up to there are the first of those
    that the call makes without a limit. -/
theorem endsOutOfFuel_of_less {turns n : Nat} (hn : n < (s.withFuel none).executed turns a args) :
    ∃ s', s.EndsOutOfFuel a args n s' ∧
      s'.hostCalls.toList <+: ((s.withFuel none).invoke turns a args).2.hostCalls.toList := by
  rcases begin_cases s a args with ⟨t, s', hfails⟩ | ⟨m, hruns⟩
  · rw [(hfails none turns).1] at hn
    exact absurd hn (Nat.not_lt_zero n)
  · rw [(hruns none turns).1] at hn
    obtain ⟨j, m', hj, hreach, hexecuted, hrun⟩ :=
      Exec.run_outOfFuel (m := m.refuel none none) rfl hn (some n)
    have hstop : Exec.run j (m.refuel none none) = Exec.run 0 m' := by
      have := Exec.run_of_reaches hreach 0
      rwa [Nat.add_zero] at this
    refine ⟨m'.store, ⟨⟨j + 1, ?_⟩, ⟨j, ?_⟩, ?_⟩, ?_⟩
    · rw [(hruns (some n) (j + 1)).2]
      exact congrArg outcome hrun
    · rw [(hruns none j).1, hexecuted]
    · intro turns' hturns'
      rw [(hruns none turns').1, ← hexecuted] at hturns'
      rw [(hruns none turns').2, outcome_store, Exec.store_of_executed rfl hturns', hstop]
      rfl
    · -- From there the call without a limit goes on.
      obtain ⟨more, rfl⟩ := Nat.exists_eq_add_of_le (Nat.le_of_lt hj)
      rw [(hruns none (j + more)).2, outcome_store, Exec.run_of_reaches hreach]
      exact (continues_run more m').hostCalls

/-- A call that never ends executes any number of instructions. -/
theorem executed_unbounded
    (h : ∀ turns, ((s.withFuel none).invoke turns a args).1 = .unfinished) (n : Nat) :
    ∃ turns, n < (s.withFuel none).executed turns a args := by
  rcases begin_cases s a args with ⟨t, s', hfails⟩ | ⟨m, hruns⟩
  · have hfailed := h 0
    rw [(hfails none 0).2] at hfailed
    cases hfailed
  · refine ⟨2 * n + m.openBlocks + 1, ?_⟩
    have hgoes := h (2 * n + m.openBlocks + 1)
    rw [(hruns none _).2] at hgoes
    rw [(hruns none _).1]
    cases hrun : Exec.run (2 * n + m.openBlocks + 1) (m.refuel none none) with
    | error t m' => rw [hrun] at hgoes; cases hgoes
    | ok ended m' =>
      cases ended with
      | true => rw [hrun] at hgoes; cases hgoes
      | false =>
        have hturns := Exec.turns_le hrun
        have hblocks : (m.refuel none none).openBlocks = m.openBlocks := rfl
        omega

/-- **Fuel only cuts a call short.** Take any store, any of its functions and any arguments. Whatever the
    call comes to without a limit on fuel, with as many units as it executes instructions, or more, it
    comes to the same and leaves the same store; with fewer it ends for want of fuel, and leaves the
    store that the call without a limit has after that many instructions, with the first of its calls to
    the host. If the call does not end without a limit, any fuel runs out. And whatever becomes of the
    fuel of a call, the next one starts with all of it. -/
theorem invoke_withFuel (s : Store) (a : FuncAddr) (args : List Value) :
    (∀ turns r s', (s.withFuel none).invoke turns a args = (r, s') →
      (∀ n, (s.withFuel none).executed turns a args ≤ n →
        (s.withFuel (some n)).invoke turns a args = (r, s'.withFuel (some n))) ∧
      (∀ n, n < (s.withFuel none).executed turns a args →
        ∃ cut, s.EndsOutOfFuel a args n cut ∧
          cut.hostCalls.toList <+: s'.hostCalls.toList)) ∧
    ((∀ turns, ((s.withFuel none).invoke turns a args).1 = .unfinished) →
      ∀ n, ∃ cut, s.EndsOutOfFuel a args n cut) ∧
    (∀ fuel turns args',
      (((s.withFuel fuel).invoke turns a args).2.machine args').fuel = fuel) := by
  refine ⟨fun turns r s' hends => ⟨fun n hn => ?_, fun n hn => ?_⟩, fun hgoes n => ?_,
    fun fuel turns args' => ?_⟩
  · have henough := invoke_of_enough hn
    rw [hends] at henough
    exact henough
  · have hcut := endsOutOfFuel_of_less hn
    rw [hends] at hcut
    exact hcut
  · obtain ⟨turns, hturns⟩ := executed_unbounded hgoes n
    obtain ⟨cut, hcut, -⟩ := endsOutOfFuel_of_less hturns
    exact ⟨cut, hcut⟩
  · show ((s.withFuel fuel).invoke turns a args).2.config.fuel = fuel
    rw [config_invoke]
    rfl

/-- Counting down from three takes seventeen instructions: with seventeen units of fuel it ends at zero,
    with one less it runs out. -/
theorem counting_withFuel :
    ((counting.withFuel (some 17)).invoke 40 0 [.i32 3]).1 = .done [.i32 0] ∧
      ∃ cut, counting.EndsOutOfFuel 0 [.i32 3] 16 cut := by
  have hexecuted : (counting.withFuel none).executed 40 0 [.i32 3] = 17 := by decide +kernel
  have hdone : ((counting.withFuel none).invoke 40 0 [.i32 3]).1 = .done [.i32 0] := by
    decide +kernel
  obtain ⟨hlimited, -, -⟩ := invoke_withFuel counting 0 [.i32 3]
  obtain ⟨henough, hless⟩ := hlimited 40 _ _ rfl
  obtain ⟨cut, hcut, -⟩ := hless 16 (by rw [hexecuted]; decide)
  refine ⟨?_, cut, hcut⟩
  rw [henough 17 (Nat.le_of_eq hexecuted)]
  exact hdone

end Store

end WasmCore
