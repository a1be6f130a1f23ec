import WasmCore.Proofs.Exec.Fuel

/-!
# `Exec.Termination` — with fuel every call ends

A turn either executes an instruction, and pays for it, or closes a block. Closing is free, but a block
is closed once only, and it was entered by the call itself or by an instruction that was paid for. So
the turns of a call are bounded by its fuel, whatever the bodies of the functions are: nothing here asks
that a store has come about by linking valid modules.

* `Exec.closings`, `Exec.turnsTaken`: the turns of a run that close a block, and all that it takes;
* `executed_le`: **no more instructions than units of fuel**;
* `closings_le`: **no more blocks are closed than were entered**;
* `turnsTaken_le`: every turn does one or the other, but for one that finds no fuel;
* `Store.invoke_ends`: **with fuel every call ends**, and within how many turns.
-/

namespace WasmCore

/-- The number of blocks that the next turn closes, if it takes one. -/
def Machine.closes (m : Machine) : Nat := if m.code = [] then 1 else 0

namespace Exec

open Machine (openBlocks)

variable {m m' : Machine} {turns n : Nat}

/-! ## The turns of a run -/

/-- **The number of turns that close a block**, of a number of turns. A turn that fails to clear the
    operands of its block away counts. -/
def closings : (turns : Nat) → Machine → Nat
  | 0, _ => 0
  | turns + 1, m =>
    match turn m with
    | .ok true m' => m.closes + closings turns m'
    | .ok false _ => 0
    | .error _ _ => m.closes

/-- **The number of turns that a run takes** until it ends, at most the given number. One that traps
    counts, and to find that nothing is left is not a turn. -/
def turnsTaken : (turns : Nat) → Machine → Nat
  | 0, _ => 0
  | turns + 1, m =>
    match turn m with
    | .ok true m' => 1 + turnsTaken turns m'
    | .ok false _ => 0
    | .error _ _ => 1

/-- A turn that succeeds executes an instruction or closes a block. -/
theorem cost_add_closes (h : turn m = .ok true m') : m.cost + m.closes = 1 := by
  cases hcode : m.code with
  | nil => simp [Machine.cost, Machine.closes, hcode]
  | cons i rest =>
    have hfuel : m.fuel ≠ some 0 := by
      intro hzero
      rw [turn_unpaid hcode hzero] at h
      cases h
    simp [Machine.cost, Machine.closes, hcode, hfuel]

/-- A block that fails to close was open. -/
theorem closes_le_of_error {t : Trap} (h : turn m = .error t m') : m.closes ≤ m.openBlocks := by
  unfold Machine.closes
  split
  · next hcode =>
    rw [turn_nil hcode] at h
    cases hpop : m.labels.pop? with
    | none => rw [hpop] at h; cases h
    | some p =>
      rw [openBlocks, (Stack.pop?_eq_some_iff _ _ _).mp hpop, Stack.height_push]
      exact Nat.le_add_left _ _
  · exact Nat.zero_le _

/-! ## What bounds them -/

/-- What a turn costs is there. -/
theorem cost_le (hm : m.fuel = some n) : m.cost ≤ n := by
  unfold Machine.cost
  split
  · exact Nat.zero_le n
  · next h =>
    rw [hm] at h
    have hn : n ≠ 0 := fun hzero => h (.inr (congrArg some hzero))
    exact Nat.one_le_iff_ne_zero.mpr hn

/-- **No more instructions are executed than there are units of fuel.** -/
theorem executed_le (turns : Nat) (hm : m.fuel = some n) : executed turns m ≤ n := by
  induction turns generalizing m n with
  | zero => exact Nat.zero_le n
  | succ turns ih =>
    have hcost := cost_le hm
    have hfuel := fuel_after_turn m
    rw [hm, Option.map_some] at hfuel
    cases hturn : turn m with
    | error t m' => rwa [executed_succ_of_error hturn]
    | ok more m' =>
      rw [hturn] at hfuel
      cases more with
      | false => rwa [executed_succ_of_end hturn]
      | true =>
        have hrest : executed turns m' ≤ n - m.cost := ih hfuel
        rw [executed_succ_of_ok hturn]
        omega

/-- **No more blocks are closed than were entered**: those that the run started in, and at most one for
    each instruction. -/
theorem closings_le (turns : Nat) (m : Machine) :
    closings turns m ≤ executed turns m + m.openBlocks := by
  induction turns generalizing m with
  | zero => exact Nat.zero_le _
  | succ turns ih =>
    cases hturn : turn m with
    | error t m' =>
      rw [closings, hturn]
      exact Nat.le_add_left_of_le (closes_le_of_error hturn)
    | ok more m' =>
      cases more with
      | false => rw [closings, hturn]; exact Nat.zero_le _
      | true =>
        have hrest := ih m'
        have hblocks := openBlocks_turn hturn
        have hone := cost_add_closes hturn
        rw [closings, hturn, executed_succ_of_ok hturn]
        dsimp only
        omega

/-- **Every turn executes an instruction or closes a block**, but for one that finds no fuel. -/
theorem turnsTaken_le (turns : Nat) (m : Machine) :
    turnsTaken turns m ≤ executed turns m + closings turns m + 1 := by
  induction turns generalizing m with
  | zero => exact Nat.zero_le _
  | succ turns ih =>
    cases hturn : turn m with
    | error t m' => rw [turnsTaken, hturn]; exact Nat.le_add_left _ _
    | ok more m' =>
      cases more with
      | false => rw [turnsTaken, hturn]; exact Nat.zero_le _
      | true =>
        have hrest := ih m'
        have hone := cost_add_closes hturn
        rw [turnsTaken, closings, hturn, executed_succ_of_ok hturn]
        dsimp only
        omega

/-- **A run with fuel comes to its end.** -/
theorem run_ends (hm : m.fuel = some n) (hblocks : m.openBlocks ≤ 1) :
    run (2 * n + 2) m ≠ .ok false m' := by
  intro hrun
  have hturns := turns_le hrun
  have hexecuted := executed_le (2 * n + 2) hm
  omega

end Exec

/-! ## Calls from outside -/

namespace Store

/-- What is counted of the run of a call, from the machine that it gets under way: nothing, if it is
    refused or fails before the first turn. -/
def during (count : Machine → Nat) (s : Store) (a : FuncAddr) (args : List Value) : Nat :=
  match s.acceptsArgs a args with
  | .error _ => 0
  | .ok () =>
    match Exec.call a (s.machine args) with
    | .error _ _ => 0
    | .ok () m => count m

/-- **The number of turns of a call that close a block.** -/
def closings (turns : Nat) : Store → FuncAddr → List Value → Nat := during (Exec.closings turns)

/-- **The number of turns that a call takes.** -/
def turnsTaken (turns : Nat) : Store → FuncAddr → List Value → Nat := during (Exec.turnsTaken turns)

/-- The instructions of a call are those of its run. -/
theorem executed_eq_during (turns : Nat) (s : Store) (a : FuncAddr) (args : List Value) :
    s.executed turns a args = s.during (Exec.executed turns) a args := rfl

/-- **The run of a call.** Either there is none, or it starts with all of the fuel and in one block at
    most. -/
theorem during_cases (s : Store) (a : FuncAddr) (args : List Value) :
    (∃ r, (∀ count, s.during count a args = 0) ∧ r.1 ≠ .unfinished ∧
      ∀ turns, s.invoke turns a args = r) ∨
    ∃ m : Machine, (∀ count, s.during count a args = count m) ∧ m.fuel = s.config.fuel ∧
      m.openBlocks ≤ 1 ∧ ∀ turns, s.invoke turns a args = outcome (Exec.run turns m) := by
  cases hargs : s.acceptsArgs a args with
  | error t =>
    refine .inl ⟨(.failed t, s), fun count => ?_, by simp, fun turns => ?_⟩
    · rw [during, hargs]
    · rw [invoke, hargs]
  | ok u =>
    cases hcall : Exec.call a (s.machine args) with
    | error t m =>
      refine .inl ⟨(.failed t, m.store), fun count => ?_, by simp, fun turns => ?_⟩
      · rw [during, hargs, hcall]
      · rw [invoke_eq turns hargs, Move.bind_of_error hcall]
        rfl
    | ok u m =>
      have hfuel := Exec.fuel_of_ignores (fun _ _ => Exec.ignores_call a) (s.machine args)
      have hblocks := Exec.raises_call a (s.machine args)
      rw [hcall] at hfuel hblocks
      refine .inr ⟨m, fun count => ?_, hfuel, hblocks, invoke_of_call hargs hcall⟩
      rw [during, hargs, hcall]

/-- **With fuel every call ends.** Take any store, whatever the bodies of its functions are, any address
    and any arguments, and n units of fuel. The call comes to an end within 2n + 2 turns. However many
    turns it may take, it executes at most n instructions; the turns that only close a block are at most
    one more than those, since each block was entered by the call itself or by an instruction; all other
    turns but the last execute an instruction; and so it takes 2n + 2 turns at most. -/
theorem invoke_ends (s : Store) (a : FuncAddr) (args : List Value) (n : Nat) :
    (∃ r s', r ≠ .unfinished ∧
      ∀ turns, 2 * n + 2 ≤ turns → (s.withFuel (some n)).invoke turns a args = (r, s')) ∧
    ∀ turns,
      (s.withFuel (some n)).executed turns a args ≤ n ∧
      (s.withFuel (some n)).closings turns a args ≤
        (s.withFuel (some n)).executed turns a args + 1 ∧
      (s.withFuel (some n)).turnsTaken turns a args ≤
        (s.withFuel (some n)).executed turns a args +
          (s.withFuel (some n)).closings turns a args + 1 ∧
      (s.withFuel (some n)).turnsTaken turns a args ≤ 2 * n + 2 := by
  rcases during_cases (s.withFuel (some n)) a args with
    ⟨r, hnone, hr, hfails⟩ | ⟨m, hcount, hfuel, hblocks, hruns⟩
  · refine ⟨⟨r.1, r.2, hr, fun turns _ => hfails turns⟩, fun turns => ?_⟩
    simp only [executed_eq_during, closings, turnsTaken, hnone]
    omega
  · constructor
    · have hends : ((s.withFuel (some n)).invoke (2 * n + 2) a args).1 ≠ .unfinished := by
        rw [hruns]
        intro hunfinished
        cases hrun : Exec.run (2 * n + 2) m with
        | error t m' => rw [hrun] at hunfinished; cases hunfinished
        | ok done m' =>
          cases done with
          | true => rw [hrun] at hunfinished; cases hunfinished
          | false => exact Exec.run_ends hfuel hblocks hrun
      refine ⟨_, ((s.withFuel (some n)).invoke (2 * n + 2) a args).2, hends, fun turns hturns => ?_⟩
      obtain ⟨more, rfl⟩ := Nat.exists_eq_add_of_le hturns
      exact invoke_stable hends more
    · intro turns
      have hexecuted : Exec.executed turns m ≤ n := Exec.executed_le turns hfuel
      have hclosings := Exec.closings_le turns m
      have htaken := Exec.turnsTaken_le turns m
      simp only [executed_eq_during, closings, turnsTaken, hcount]
      omega

end Store

end WasmCore
