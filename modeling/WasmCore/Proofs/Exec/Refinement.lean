import WasmCore.Proofs.Exec.Safety
import WasmCore.Proofs.Exec.Simulation

/-!
# `Exec.Refinement` — the machine implements structured control flow

A call from outside has the same outcome on the machine, with its one stack of labels for all
functions, as when it is evaluated along the structure of the code: the same results or the same trap,
and the same store, which includes the calls that were made to the host. If one of them goes on for
ever, so does the other.

* `Exec.run_of_reaches`, `Exec.run_stable`, `Exec.run_of_longer`: bounded runs;
* `Finishes`, `Follows.finish`: from the body of the function to the end of the call;
* `Store.Reachable.invoke_iff_evaluate`: **the refinement**.
-/

namespace WasmCore

/-! ## Bounded runs -/

namespace Exec

variable {m m' : Machine} {t : Trap} {i j n : Nat}

theorem run_succ_of_ok (h : turn m = .ok true m') (n : Nat) : run (n + 1) m = run n m' :=
  Move.bind_of_ok h

theorem run_succ_of_error (h : turn m = .error t m') (n : Nat) : run (n + 1) m = .error t m' :=
  Move.bind_of_error h

/-- The turns of a run that have been taken. -/
theorem run_of_reaches (h : Reaches j m m') (n : Nat) : run (j + n) m = run n m' := by
  induction h with
  | refl m => rw [Nat.zero_add]
  | step hturn _ ih => rw [Nat.add_right_comm, run_succ_of_ok hturn]; exact ih

/-- A machine at its end takes no turn. -/
theorem turn_at_end (h : (m.code.isEmpty && m.labels.height == 0) = true) :
    turn m = .ok false m := by
  obtain ⟨store, fuel, stack, code, ⟨labels, height, hheight⟩, frames⟩ := m
  simp only [Bool.and_eq_true, List.isEmpty_iff, beq_iff_eq] at h
  obtain ⟨rfl, rfl⟩ := h
  obtain rfl := List.length_eq_zero_iff.mp hheight.symm
  rfl

/-- A machine that has taken more turns was not at its end before. -/
theorem run_of_longer (h : Reaches j m m') (hn : n < j) : ∃ m'', run n m = .ok false m'' := by
  induction h generalizing n with
  | refl m => exact absurd hn (Nat.not_lt_zero n)
  | @step j m m₁ m' hturn _ ih =>
    cases n with
    | succ n =>
      rw [run_succ_of_ok hturn]
      exact ih (Nat.lt_of_succ_lt_succ hn)
    | zero =>
      refine ⟨m, ?_⟩
      show EStateM.Result.ok (m.code.isEmpty && m.labels.height == 0) m = _
      cases hend : (m.code.isEmpty && m.labels.height == 0) with
      | false => rfl
      | true => cases hturn.symm.trans (turn_at_end hend)

/-- A run that came to an end does not change with more turns. -/
theorem run_stable {r : EStateM.Result Trap Machine Bool} (h : run n m = r)
    (hr : ∀ m', r ≠ .ok false m') (i : Nat) : run (n + i) m = r := by
  induction n generalizing m with
  | zero =>
    have hzero : r = .ok (m.code.isEmpty && m.labels.height == 0) m := h.symm
    -- No turn was needed, so the machine is at its end, where further turns do nothing.
    cases hend : (m.code.isEmpty && m.labels.height == 0) with
    | false => rw [hend] at hzero; exact absurd hzero (hr m)
    | true =>
      rw [hend] at hzero
      rw [hzero, Nat.zero_add]
      cases i with
      | zero => exact h.trans hzero
      | succ i => exact Move.bind_of_ok (turn_at_end hend)
  | succ n ih =>
    rw [Nat.add_right_comm]
    cases hturn : turn m with
    | error t m' =>
      rw [run_succ_of_error hturn] at h ⊢
      exact h
    | ok more m' =>
      cases more with
      | true =>
        rw [run_succ_of_ok hturn] at h ⊢
        exact ih h
      | false =>
        have hlast : ∀ n, run (n + 1) m = .ok true m' := fun n => Move.bind_of_ok hturn
        rw [hlast] at h ⊢
        exact h

end Exec

/-! ## The end of a call -/

/-- How the machine of a call from outside comes to the completion of the call. No branch and no return
    leaves a function. -/
def Finishes (m : Machine) (bound : Nat) : Completion → Prop
  | .next b => ∃ j a, Exec.Reaches j m (Activation.finished a) ∧ a.operands = b.operands ∧
      a.store = b.store
  | .trapped t s' => ∃ j m' m'', Exec.Reaches j m m' ∧ Exec.turn m' = .error t m'' ∧ m''.store = s'
  | .unfinished => ∃ j m', bound ≤ 4 * j ∧ Exec.Reaches j m m'
  | .branch _ _ | .returned _ => False

/-- **From the body of the function that was called to the end of the call.** -/
theorem Follows.finish {origins : List (Option Module)} {ctx : Context} {locals ts : List ValType}
    {s : Store} {m : Machine} {least bound : Nat} {c : Completion} (caller : Activation)
    (hcaller : caller.operands = [])
    (h : Follows origins (.ofFunc ctx locals ts) ts s m (.entry ts.length []) least bound c) :
    Finishes m bound (c.resume ts.length caller) := by
  rcases h.completes (Activation.lands_entry ts.length) with
    ⟨a, top, rest, j, hc, -, -, hops, htop, hreach⟩ | ⟨t, s', rfl, htrap⟩ | ⟨rfl, hcut⟩
  · have hlength := length_of_types htop
    have hturn : Exec.turn ({ a with operands := top }.on (.entry top.length [])) =
        .ok true (Activation.finished { a with operands := top }) :=
      Activation.turn_end_entry (a := { a with operands := top })
    rw [hlength] at hturn
    rw [resume_of_completed caller hc hops hlength]
    refine ⟨j + 1, { a with operands := top }, hreach.trans (Exec.reaches_one hturn), ?_, rfl⟩
    show top = top ++ caller.operands
    rw [hcaller, List.append_nil]
  · exact htrap
  · exact hcut

namespace Store

variable {s : Store} {a : FuncAddr} {args : List Value} {type : FuncType}
  {origins : List (Option Module)}

/-- A call whose machine gets under way runs as its machine does. -/
theorem invoke_of_call {m : Machine} (hargs : s.acceptsArgs a args = .ok ())
    (hcall : Exec.call a (s.machine args) = .ok () m) (turns : Nat) :
    s.invoke turns a args = outcome (Exec.run turns m) := by
  rw [invoke_eq turns hargs, Move.bind_of_ok hcall]

/-- A call that came to an end does not change with more turns. -/
theorem invoke_stable {turns : Nat} (h : (s.invoke turns a args).1 ≠ .unfinished) (i : Nat) :
    s.invoke (turns + i) a args = s.invoke turns a args := by
  cases hargs : s.acceptsArgs a args with
  | error t => simp only [invoke, hargs]
  | ok u =>
    cases hcall : Exec.call a (s.machine args) with
    | error t m =>
      rw [invoke_eq _ hargs, invoke_eq _ hargs, Move.bind_of_error hcall, Move.bind_of_error hcall]
    | ok u m =>
      rw [invoke_of_call hargs hcall] at h ⊢
      rw [invoke_of_call hargs hcall]
      have hend : ∀ m', Exec.run turns m ≠ .ok false m' := by
        intro m' hm'
        rw [hm'] at h
        exact h rfl
      rw [Exec.run_stable rfl hend i]

/-- What a call from outside comes to, by how the machine gets on. -/
theorem invoke_of_reaches {m m' : Machine} (hargs : s.acceptsArgs a args = .ok ())
    (hcall : Exec.call a (s.machine args) = .ok () m) {j : Nat} (hreach : Exec.Reaches j m m') :
    (∀ b : Activation, m' = b.finished → s.invoke j a args = (.done b.operands.reverse, b.store)) ∧
    (∀ t m'', Exec.turn m' = .error t m'' → s.invoke (j + 1) a args = (.failed t, m''.store)) ∧
    (∀ turns, turns < j → (s.invoke turns a args).1 = .unfinished) := by
  refine ⟨?_, ?_, ?_⟩
  · rintro b rfl
    rw [invoke_of_call hargs hcall, ← Nat.add_zero j, Exec.run_of_reaches hreach]
    rfl
  · intro t m'' hturn
    rw [invoke_of_call hargs hcall, Exec.run_of_reaches hreach, Exec.run_succ_of_error hturn]
    rfl
  · intro turns hturns
    obtain ⟨m'', hrun⟩ := Exec.run_of_longer hreach hturns
    rw [invoke_of_call hargs hcall, hrun]; rfl

/-- **What an evaluation says of the machine.** If it comes to an end, it has the outcome of the call;
    if it is cut off, the call takes longer than a number of turns that grows with the index. -/
def Settles (s : Store) (a : FuncAddr) (args : List Value) (n : Nat) : Prop :=
  ((s.evaluate n a args).1 ≠ .unfinished → ∃ turns, s.invoke turns a args = s.evaluate n a args) ∧
  ((s.evaluate n a args).1 = .unfinished →
    ∀ turns, 4 * turns + 8 ≤ n → (s.invoke turns a args).1 = .unfinished)

/-- A call with an outcome that the evaluation has as well. -/
theorem settles_of_eq {n turns : Nat} {r : Outcome Trap (List Value)} {s' : Store}
    (hinvoke : s.invoke turns a args = (r, s')) (heval : s.evaluate n a args = (r, s'))
    (hr : r ≠ .unfinished) : s.Settles a args n := by
  unfold Settles
  rw [heval]
  exact ⟨fun _ => ⟨turns, hinvoke⟩, fun h => absurd h hr⟩

/-- The evaluation of a call from outside of a function of a module. -/
theorem evalCall_outside {inst : ModuleInst} {code : Func} {n : Nat}
    (hfunc : s.funcs[a]? = some (.defined type inst code))
    (hargs : args.length = type.params.length) :
    evalCall (n + 1) 0 (.outside s args) a =
      if s.config.maxCallDepth ≤ 0 then .trapped .callStackExhausted s
      else (evalCode n 1 (Activation.start s inst code args) code.body).resume
        type.results.length { Activation.outside s args with operands := [] } := by
  have hops : (Activation.outside s args).operands = args.reverse ++ [] := (List.append_nil _).symm
  have hlength : args.reverse.length = type.params.length := by rw [List.length_reverse, hargs]
  rw [evalCall_defined hfunc hops hlength, List.reverse_reverse]; rfl

/-- The evaluation of a call from outside of a host function. -/
theorem evalCall_outside_host {run : HostFunc} {n : Nat}
    (hfunc : s.funcs[a]? = some (.host type run)) (hargs : args.length = type.params.length) :
    evalCall (n + 1) 0 (.outside s args) a =
      match s.callHost a type run args with
      | (.error t, store) => .trapped t store
      | (.ok results, store) =>
        .next { Activation.outside s args with store, operands := results.reverse ++ [] } := by
  have hops : (Activation.outside s args).operands = args.reverse ++ [] := (List.append_nil _).symm
  have hlength : args.reverse.length = type.params.length := by rw [List.length_reverse, hargs]
  rw [evalCall_host hfunc hops hlength, List.reverse_reverse]; rfl

theorem WellFormed.settles_defined (hs : s.WellFormed origins) {inst : ModuleInst} {code : Func}
    (hfunc : s.funcs[a]? = some (.defined type inst code))
    (hargs : args.map Value.type = type.params) (n : Nat) : s.Settles a args (n + 1) := by
  have haccepts : s.acceptsArgs a args = .ok () :=
    acceptsArgs_eq_ok_iff.mpr ⟨type, by rw [funcType?, hfunc]; rfl, hargs⟩
  have hlength : args.length = type.params.length := by rw [← hargs, List.length_map]
  have hcall := Activation.call_machine hfunc hlength
  have heval := evalCall_outside (n := n) hfunc hlength
  by_cases hdepth : s.config.maxCallDepth ≤ 0
  · rw [if_pos hdepth] at hcall heval
    have hevaluate : s.evaluate (n + 1) a args = (.failed .callStackExhausted, s) := by
      rw [evaluate, heval]
    have hinvoke : s.invoke 0 a args = (.failed .callStackExhausted, s) := by
      rw [invoke_eq 0 haccepts, Move.bind_of_error hcall]; rfl
    exact settles_of_eq hinvoke hevaluate (by simp)
  · rw [if_neg hdepth] at hcall heval
    obtain ⟨origin, -, horigin⟩ := hs.funcs a type inst code hfunc
    obtain ⟨hcode, -⟩ := follows_all n
    have hbody := hcode (a := Activation.start s inst code args)
      (k := .entry type.results.length code.body)
      (C := .ofFunc (.ofModule origin) (type.params ++ code.localTypes) type.results)
      ⟨hs, horigin.implements, Activation.types_startLocals code hargs⟩ .entry
      Activation.types_nil (hasType_of_checkFunc horigin.body)
    -- The simulation follows the body from the entry of the function to its end.
    have hfinish : Finishes ((Activation.start s inst code args).on
        (.entry type.results.length code.body)) (n - 3) (evalCall (n + 1) 0 (.outside s args) a) := by
      rw [heval]
      exact Follows.finish { Activation.outside s args with operands := [] } rfl hbody
    cases hc : evalCall (n + 1) 0 (.outside s args) a with
    | next b =>
      rw [hc] at hfinish
      obtain ⟨j, b', hreach, hb, hstore⟩ := hfinish
      have hdone := (invoke_of_reaches haccepts hcall hreach).1 b' rfl
      rw [hb, hstore] at hdone
      exact settles_of_eq hdone (by rw [evaluate, hc]) (by simp)
    | branch d b => rw [hc] at hfinish; exact hfinish.elim
    | returned b => rw [hc] at hfinish; exact hfinish.elim
    | trapped t s' =>
      rw [hc] at hfinish
      obtain ⟨j, m', m'', hreach, hturn, hstore⟩ := hfinish
      have hfailed := (invoke_of_reaches haccepts hcall hreach).2.1 t m'' hturn
      rw [hstore] at hfailed
      exact settles_of_eq hfailed (by rw [evaluate, hc]) (by simp)
    | unfinished =>
      rw [hc] at hfinish
      obtain ⟨j, m', hj, hreach⟩ := hfinish
      -- The machine has taken at least a quarter of the turns that the index counts, and is not done.
      have hevaluate : s.evaluate (n + 1) a args = (.unfinished, s) := by rw [evaluate, hc]
      refine ⟨fun h => absurd (congrArg Prod.fst hevaluate) h, fun _ turns hturns => ?_⟩
      exact (invoke_of_reaches haccepts hcall hreach).2.2 turns (by omega)

theorem settles_host {run : HostFunc} (hfunc : s.funcs[a]? = some (.host type run))
    (hargs : args.map Value.type = type.params) (n : Nat) : s.Settles a args (n + 1) := by
  have haccepts : s.acceptsArgs a args = .ok () :=
    acceptsArgs_eq_ok_iff.mpr ⟨type, by rw [funcType?, hfunc]; rfl, hargs⟩
  have hlength : args.length = type.params.length := by rw [← hargs, List.length_map]
  have hcall := Activation.call_machine_host hfunc hlength
  have heval := evalCall_outside_host (n := n) hfunc hlength
  generalize s.callHost a type run args = outcome at hcall heval
  rcases outcome with ⟨t | given, store⟩
  · have hinvoke : s.invoke 0 a args = (.failed t, store) := by
      rw [invoke_eq 0 haccepts, Move.bind_of_error hcall]; rfl
    exact settles_of_eq hinvoke (by rw [evaluate, heval]) (by simp)
  · have hinvoke : s.invoke 0 a args = (.done (given.reverse ++ []).reverse, store) := by
      rw [invoke_eq 0 haccepts, Move.bind_of_ok hcall]; rfl
    exact settles_of_eq hinvoke (by rw [evaluate, heval]) (by simp)

/-- Every index settles something. -/
theorem WellFormed.settles (hs : s.WellFormed origins) (hf : s.funcType? a = some type)
    (hargs : args.map Value.type = type.params) (n : Nat) : s.Settles a args n := by
  cases n with
  | zero => exact ⟨fun h => absurd rfl h, fun _ turns hturns => by omega⟩
  | succ n =>
    obtain ⟨f, hfunc, rfl⟩ := Option.map_eq_some_iff.mp hf
    cases f with
    | defined type inst code => exact hs.settles_defined hfunc hargs n
    | host type run => exact settles_host hfunc hargs n

/-- **The machine implements structured control flow.** Take any store that can be reached, any limits
    on fuel and calls, and any of its functions with arguments of the right types. The machine comes to
    an outcome — results or a trap, and with them a store — exactly if the evaluation along the structure
    of the code does. -/
theorem Reachable.invoke_iff_evaluate (hs : s.Reachable) (fuel : Option Nat) (depth : Nat)
    (hf : s.funcType? a = some type) (hargs : args.map Value.type = type.params)
    {r : Outcome Trap (List Value)} (hr : r ≠ .unfinished) (s' : Store) :
    (∃ turns, (s.withLimits fuel depth).invoke turns a args = (r, s')) ↔
      ∃ n, (s.withLimits fuel depth).evaluate n a args = (r, s') := by
  obtain ⟨origins, hwf⟩ := hs.wellFormed
  have hsettles := (hwf.withLimits fuel depth).settles (a := a) hf hargs
  constructor
  · rintro ⟨turns, hturns⟩
    have hend : ((s.withLimits fuel depth).invoke turns a args).1 ≠ .unfinished := by
      rw [hturns]; exact hr
    obtain ⟨hdone, hcut⟩ := hsettles (4 * turns + 8)
    have hevalEnd : ((s.withLimits fuel depth).evaluate (4 * turns + 8) a args).1 ≠ .unfinished :=
      fun h => hend (hcut h turns (Nat.le_refl _))
    obtain ⟨turns', hturns'⟩ := hdone hevalEnd
    -- Both calls came to an end, so with the turns of both together they are the same.
    have hboth := invoke_stable hend turns'
    have hboth' := invoke_stable (hturns' ▸ hevalEnd) turns
    rw [Nat.add_comm] at hboth'
    exact ⟨_, hturns'.symm.trans (hboth'.symm.trans (hboth.trans hturns))⟩
  · rintro ⟨n, hn⟩
    obtain ⟨turns, hturns⟩ := (hsettles n).1 (by rw [hn]; exact hr)
    exact ⟨turns, hturns.trans hn⟩

/-- Counting down from three ends at zero. -/
theorem counting_evaluates :
    ∃ n, ((counting.withLimits (some 30) 1).evaluate n 0 [.i32 3]).1 = .done [.i32 0] := by
  have hinvoke : ((counting.withLimits (some 30) 1).invoke 40 0 [.i32 3]).1 = .done [.i32 0] := by
    decide +kernel
  have hended : ((counting.withLimits (some 30) 1).invoke 40 0 [.i32 3]).1 ≠ .unfinished := by
    simp [hinvoke]
  obtain ⟨n, hn⟩ := (reachable_counting.invoke_iff_evaluate (some 30) 1 funcType?_counting rfl hended
    _).mp ⟨40, rfl⟩
  exact ⟨n, hn ▸ hinvoke⟩

end Store

end WasmCore
