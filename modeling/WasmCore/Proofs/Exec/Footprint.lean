import WasmCore.Proofs.Exec.Effects

/-!
# `Exec.Footprint` — what instructions do not look at

Facts about single instructions, whatever code they stand in. No instruction looks at the fuel that is
left or changes it: fuel is a matter of whether an instruction is executed at all. The limit on calls is
looked at in one place only, where a function is entered, and more room is seen only by what has none left.
And no instruction puts more than one label on the stack of labels, calls included.

* `Store.withFuel`, `Machine.refuel`: other fuel;
* `Machine.retune`, `Config.Hidden`: other limits, and which of them cannot be seen;
* `ignoresUnless_step`, `ignores_step`: **no instruction looks at limits**, nor at fuel;
* `raises_step`: **an instruction enters at most one block**.
-/

namespace WasmCore

/-- The store whose calls start with other fuel. -/
def Store.withFuel (s : Store) (fuel : Option Nat) : Store :=
  { s with config := { s.config with fuel } }

/-- The machine with other fuel left, in a store whose calls start with other fuel. -/
def Machine.refuel (left configured : Option Nat) (m : Machine) : Machine :=
  { m with store := m.store.withFuel configured, fuel := left }

/-- The machine in a store with other limits, with other fuel left. -/
def Machine.retune (limits : Config → Config) (left : Option Nat → Option Nat) (m : Machine) : Machine :=
  { m with store := { m.store with config := limits m.store.config }, fuel := left m.fuel }

/-- **Other limits that instructions do not see** unless they fail as `Q` says: memories may have as many
    pages, and as many calls may be under way, or more if `Q` is to run out of them. -/
structure Config.Hidden (Q : Trap → Prop) (limits : Config → Config) : Prop where
  pages : ∀ c, (limits c).maxMemoryPages = c.maxMemoryPages
  room : ∀ c, c.maxCallDepth ≤ (limits c).maxCallDepth
  full : Q .callStackExhausted ∨ ∀ c, (limits c).maxCallDepth ≤ c.maxCallDepth

/-- The number of blocks that have been entered. -/
def Machine.openBlocks (m : Machine) : Nat := m.labels.height

namespace Exec

open Machine (refuel retune openBlocks)
open Move (Ignores IgnoresUnless Raises)

variable {α : Type}

/-! ## Instructions do not look at limits -/

section Limits

variable {Q : Trap → Prop} {limits : Config → Config} {left : Option Nat → Option Nat}

theorem ignoresUnless_onStack (f : OperandM α) :
    IgnoresUnless Q (retune limits left) (onStack f) := by
  refine fun m => .inr ?_
  cases h : f m.stack with
  | ok a stack =>
    have h' : f (m.retune limits left).stack = .ok a stack := h
    rw [onStack_of_ok h, onStack_of_ok h']
    rfl
  | error t stack =>
    have h' : f (m.retune limits left).stack = .error t stack := h
    rw [onStack_of_error h, onStack_of_error h']
    rfl

theorem ignoresUnless_ofExcept (x : Except Trap α) :
    IgnoresUnless Q (retune limits left) (ofExcept x) := by
  cases x with
  | ok a => exact .pure a
  | error t => exact .throw t

theorem ignoresUnless_inst : IgnoresUnless Q (retune limits left) inst := by
  rintro ⟨store, fuel, stack, code, labels, ⟨frames, height, h⟩⟩
  cases frames <;> exact .inr rfl

theorem ignoresUnless_getLocal (x : LocalIdx) :
    IgnoresUnless Q (retune limits left) (getLocal x) := by
  rintro ⟨store, fuel, stack, code, labels, ⟨frames, height, h⟩⟩
  refine .inr ?_
  cases frames with
  | nil => rfl
  | cons frame outer =>
    simp only [getLocal, retune]
    cases frame.locals[x.toNat]? <;> rfl

theorem ignoresUnless_setLocal (x : LocalIdx) (v : Value) :
    IgnoresUnless Q (retune limits left) (setLocal x v) := by
  rintro ⟨store, fuel, stack, code, labels, ⟨frames, height, h⟩⟩
  refine .inr ?_
  cases frames with
  | nil => rfl
  | cons frame outer =>
    obtain ⟨locals, inst, labelBase⟩ := frame
    simp only [setLocal, retune]
    split <;> rfl

theorem ignoresUnless_enter (kind : LabelKind) (t : BlockType) (body : List Instr) :
    IgnoresUnless Q (retune limits left) (enter kind t body) := .modify fun _ => rfl

theorem ignoresUnless_branch (depth : Nat) : IgnoresUnless Q (retune limits left) (branch depth) := by
  refine .get_bind (fun _ => rfl) fun m => ?_
  dsimp only
  split
  · exact .throw _
  · exact .bind (ignoresUnless_onStack _) fun _ => .modify fun _ => rfl

theorem ignoresUnless_branchToFunc : IgnoresUnless Q (retune limits left) branchToFunc := by
  refine .get_bind (fun _ => rfl) fun m => ?_
  split
  · exact .throw _
  · split
    · exact ignoresUnless_branch _
    · exact .throw _

theorem ignoresUnless_close (label : Label) (outer : Stack Label) :
    IgnoresUnless Q (retune limits left) (close label outer) := by
  refine .bind (.modify fun _ => rfl) fun _ => .bind (ignoresUnless_onStack _) fun _ => ?_
  split
  · exact .modify fun _ => rfl
  · exact .pure _

theorem ignoresUnless_callHost (a : FuncAddr) (type : FuncType) (run : HostFunc) :
    IgnoresUnless Q (retune limits left) (callHost a type run) := by
  refine .bind (ignoresUnless_onStack _) fun args => .get_bind (fun _ => rfl) fun m => ?_
  refine .bind (.modify fun _ => rfl) fun _ => ?_
  split
  · exact .throw _
  · dsimp only
    split
    · exact .throw _
    · exact .modify fun _ => rfl

theorem ignoresUnless_memAddr : IgnoresUnless Q (retune limits left) memAddr :=
  .bind ignoresUnless_inst fun _ => ignoresUnless_ofExcept _

theorem ignoresUnless_memoryAt (a : MemAddr) : IgnoresUnless Q (retune limits left) (memoryAt a) := by
  refine .get_bind (fun _ => rfl) fun m => ?_
  split
  · exact .throw _
  · exact .pure _

theorem ignoresUnless_load (op : LoadOp) (arg : MemArg) :
    IgnoresUnless Q (retune limits left) (load op arg) := by
  refine .bind (ignoresUnless_onStack _) fun base => .bind ignoresUnless_memAddr fun a => ?_
  refine .bind (ignoresUnless_memoryAt a) fun memory => ?_
  dsimp only
  split
  · exact ignoresUnless_onStack _
  · exact .throw _

theorem ignoresUnless_store (op : StoreOp) (arg : MemArg) :
    IgnoresUnless Q (retune limits left) (store op arg) := by
  refine .bind (ignoresUnless_onStack _) fun v => .bind (ignoresUnless_onStack _) fun base => ?_
  refine .bind ignoresUnless_memAddr fun a => .bind (ignoresUnless_memoryAt a) fun memory => ?_
  split
  · exact .modify fun _ => rfl
  · exact .throw _

theorem ignoresUnless_memorySize : IgnoresUnless Q (retune limits left) memorySize :=
  .bind ignoresUnless_memAddr fun a => .bind (ignoresUnless_memoryAt a) fun _ => ignoresUnless_onStack _

theorem ignoresUnless_globalAt (g : GlobalIdx) : IgnoresUnless Q (retune limits left) (globalAt g) := by
  refine .bind ignoresUnless_inst fun i => .bind (ignoresUnless_ofExcept _) fun a => ?_
  refine .get_bind (fun _ => rfl) fun m => ?_
  split
  · exact .throw _
  · exact .pure _

variable (hlimits : Config.Hidden Q limits)

include hlimits

/-- **More room for calls** is seen only where there is none left. -/
theorem ignoresUnless_enterFunc (type : FuncType) (inst : ModuleInst) (code : Func) :
    IgnoresUnless Q (retune limits left) (enterFunc type inst code) := by
  intro m
  rw [enterFunc, Move.get_bind, Move.get_bind]
  by_cases hfull : m.store.config.maxCallDepth ≤ m.frames.height
  · rcases hlimits.full with hQ | hsame
    · rw [if_pos hfull]
      exact .inl ⟨_, m, rfl, hQ⟩
    · have hfull' : (m.retune limits left).store.config.maxCallDepth ≤
          (m.retune limits left).frames.height := Nat.le_trans (hsame _) hfull
      rw [if_pos hfull, if_pos hfull']
      exact .inr rfl
  · have hroom : ¬ (m.retune limits left).store.config.maxCallDepth ≤
        (m.retune limits left).frames.height :=
      fun hfull' => hfull (Nat.le_trans (hlimits.room _) hfull')
    rw [if_neg hfull, if_neg hroom]
    refine IgnoresUnless.bind (ignoresUnless_onStack _) (fun args => ?_) m
    exact .modify fun _ => rfl

theorem ignoresUnless_call (a : FuncAddr) : IgnoresUnless Q (retune limits left) (call a) := by
  refine .get_bind (fun _ => rfl) fun m => ?_
  split
  · exact .throw _
  · exact ignoresUnless_enterFunc hlimits _ _ _
  · exact ignoresUnless_callHost _ _ _

theorem ignoresUnless_callIndirect (t : TypeIdx) :
    IgnoresUnless Q (retune limits left) (callIndirect t) := by
  refine .bind ignoresUnless_inst fun i => .bind (ignoresUnless_ofExcept _) fun expected => ?_
  refine .bind (ignoresUnless_ofExcept _) fun tableAddr => ?_
  refine .bind (ignoresUnless_onStack _) fun slot => .get_bind (fun _ => rfl) fun m => ?_
  split
  · exact .throw _
  · refine .bind (ignoresUnless_ofExcept _) fun a => .get_bind (fun _ => rfl) fun m => ?_
    refine .bind (ignoresUnless_ofExcept _) fun found => ?_
    split
    · exact ignoresUnless_call hlimits a
    · exact .throw _

theorem ignoresUnless_grow : IgnoresUnless Q (retune limits left) grow := by
  refine .bind (ignoresUnless_onStack _) fun delta => .get_bind (fun m => ?_) fun m => ?_
  · simp only [retune, hlimits.pages]
  refine .bind ignoresUnless_memAddr fun a => .bind (ignoresUnless_memoryAt a) fun memory => ?_
  split
  · exact .bind (.modify fun _ => rfl) fun _ => ignoresUnless_onStack _
  · exact ignoresUnless_onStack _

/-- **No instruction looks at limits.** -/
theorem ignoresUnless_step (i : Instr) : IgnoresUnless Q (retune limits left) (step i) := by
  cases i with
  | unreachable => exact .throw _
  | nop => exact .pure _
  | block t body => exact ignoresUnless_enter _ _ _
  | loop t body => exact ignoresUnless_enter _ _ _
  | ifThen t body =>
    refine .bind (ignoresUnless_onStack _) fun condition => ?_
    split
    · exact ignoresUnless_enter _ _ _
    · exact .pure _
  | ifElse t body alternate =>
    exact .bind (ignoresUnless_onStack _) fun condition => ignoresUnless_enter _ _ _
  | br l => exact ignoresUnless_branch _
  | brIf l =>
    refine .bind (ignoresUnless_onStack _) fun condition => ?_
    split
    · exact ignoresUnless_branch _
    · exact .pure _
  | brTable ls default => exact .bind (ignoresUnless_onStack _) fun i => ignoresUnless_branch _
  | ret => exact ignoresUnless_branchToFunc
  | call f =>
    refine .bind ignoresUnless_inst fun i => .bind (ignoresUnless_ofExcept _) fun a => ?_
    exact ignoresUnless_call hlimits a
  | callIndirect t => exact ignoresUnless_callIndirect hlimits t
  | drop => exact .bind (ignoresUnless_onStack _) fun _ => .pure _
  | select =>
    refine .bind (ignoresUnless_onStack _) fun condition => ?_
    refine .bind (ignoresUnless_onStack _) fun second => ?_
    exact .bind (ignoresUnless_onStack _) fun first => ignoresUnless_onStack _
  | localGet x => exact .bind (ignoresUnless_getLocal x) fun v => ignoresUnless_onStack _
  | localSet x => exact .bind (ignoresUnless_onStack _) fun v => ignoresUnless_setLocal x v
  | localTee x =>
    refine .bind (ignoresUnless_onStack _) fun v => ?_
    exact .bind (ignoresUnless_setLocal x v) fun _ => ignoresUnless_onStack _
  | globalGet g => exact .bind (ignoresUnless_globalAt g) fun _ => ignoresUnless_onStack _
  | globalSet g =>
    refine .bind (ignoresUnless_onStack _) fun v => .bind (ignoresUnless_globalAt g) fun found => ?_
    exact .modify fun _ => rfl
  | load op arg => exact ignoresUnless_load op arg
  | store op arg => exact ignoresUnless_store op arg
  | memorySize => exact ignoresUnless_memorySize
  | memoryGrow => exact ignoresUnless_grow hlimits
  | const v => exact ignoresUnless_onStack (OperandM.push v)
  | numeric op => exact ignoresUnless_onStack _

end Limits

/-! ## Instructions do not look at fuel -/

variable {left configured : Option Nat}

/-- Fuel cannot be seen in the configuration. -/
theorem hidden_fuel (configured : Option Nat) :
    Config.Hidden (fun _ => False) fun c => { c with fuel := configured } :=
  ⟨fun _ => rfl, fun _ => Nat.le_refl _, .inr fun _ => Nat.le_refl _⟩

/-- Other fuel is a matter of limits. -/
theorem ignores_refuel {x : Exec α} (hx : IgnoresUnless (fun _ => False)
      (retune (fun c => { c with fuel := configured }) fun _ => left) x) :
    Ignores (refuel left configured) x := hx.ignores

theorem ignores_close (label : Label) (outer : Stack Label) :
    Ignores (refuel left configured) (close label outer) :=
  ignores_refuel (ignoresUnless_close label outer)

theorem ignores_call (a : FuncAddr) : Ignores (refuel left configured) (call a) :=
  ignores_refuel (ignoresUnless_call (hidden_fuel configured) a)

/-- **No instruction looks at fuel.** -/
theorem ignores_step (i : Instr) : Ignores (refuel left configured) (step i) :=
  ignores_refuel (ignoresUnless_step (hidden_fuel configured) i)

/-- What does not look at fuel does not change it either. -/
theorem fuel_of_ignores {x : Exec α} (hx : ∀ left configured, Ignores (refuel left configured) x)
    (m : Machine) : (Move.after (x m)).fuel = m.fuel := by
  have hsame : m.refuel m.fuel m.store.config.fuel = m := rfl
  have hm := hx m.fuel m.store.config.fuel m
  rw [hsame] at hm
  rw [hm, Move.after_inState]
  rfl

/-! ## Instructions enter at most one block -/

section Blocks

variable {k : Nat}

theorem raises_onStack (f : OperandM α) : Raises openBlocks k (onStack f) := by
  intro m
  cases h : f m.stack with
  | ok a stack => rw [onStack_of_ok h]; exact Nat.le_add_right _ _
  | error t stack => rw [onStack_of_error h]; exact Nat.le_add_right _ _

theorem raises_ofExcept (x : Except Trap α) : Raises openBlocks k (ofExcept x) := by
  cases x with
  | ok a => exact .pure a
  | error t => exact .throw t

theorem raises_inst : Raises openBlocks k inst := by
  intro m
  unfold inst
  split <;> exact Nat.le_add_right _ _

theorem raises_getLocal (x : LocalIdx) : Raises openBlocks k (getLocal x) := by
  intro m
  unfold getLocal
  split
  · exact Nat.le_add_right _ _
  · split <;> exact Nat.le_add_right _ _

theorem raises_setLocal (x : LocalIdx) (v : Value) : Raises openBlocks k (setLocal x v) := by
  intro m
  unfold setLocal
  split
  · dsimp only
    split <;> exact Nat.le_add_right _ _
  · exact Nat.le_add_right _ _

theorem raises_enter (kind : LabelKind) (t : BlockType) (body : List Instr) :
    Raises openBlocks 1 (enter kind t body) :=
  .modify fun m => Nat.le_of_eq (Stack.height_push _ m.labels)

/-- A branch leaves blocks and enters none. -/
theorem raises_branch (depth : Nat) : Raises openBlocks k (branch depth) := by
  intro m
  rw [branch, Move.get_bind]
  cases (m.labels.drop depth).toList with
  | nil => exact Nat.le_add_right _ _
  | cons label outer =>
    have hunwind := raises_onStack (k := k) (OperandM.unwind label.height label.branchArity) m
    cases h : unwind label.height label.branchArity m with
    | ok u m₁ =>
      have hdrop : (m.labels.drop depth).height ≤ m.labels.height + k := by
        rw [Stack.height_drop]
        omega
      dsimp only
      rw [Move.bind_of_ok h]
      exact hdrop
    | error t m₁ =>
      rw [show onStack _ m = _ from h] at hunwind
      dsimp only
      rw [Move.bind_of_error h]
      exact hunwind

theorem raises_branchToFunc : Raises openBlocks k branchToFunc := by
  refine .get_bind fun m => ?_
  split
  · exact .throw _
  · split
    · exact raises_branch _
    · exact .throw _

theorem raises_callHost (a : FuncAddr) (type : FuncType) (run : HostFunc) :
    Raises openBlocks k (callHost a type run) := by
  refine .bind (raises_onStack _) fun args => .get_bind fun m => ?_
  refine .bind (.modify fun m => Nat.le_refl _) fun _ => ?_
  split
  · exact .throw _
  · dsimp only
    split
    · exact .throw _
    · exact .modify fun m => Nat.le_add_right _ _

theorem raises_call (a : FuncAddr) : Raises openBlocks 1 (call a) := by
  refine .get_bind fun m => ?_
  split
  · exact .throw _
  · refine .get_bind fun m => ?_
    split
    · exact .throw _
    · refine .bind (raises_onStack _) fun args => .modify fun m => ?_
      exact Nat.le_of_eq (Stack.height_push _ m.labels)
  · exact raises_callHost _ _ _

theorem raises_callIndirect (t : TypeIdx) : Raises openBlocks 1 (callIndirect t) := by
  refine .bind raises_inst fun i => .bind (raises_ofExcept _) fun expected => ?_
  refine .bind (raises_ofExcept _) fun tableAddr => .bind (raises_onStack _) fun slot => ?_
  refine .get_bind fun m => ?_
  split
  · exact .throw _
  · refine .bind (raises_ofExcept _) fun a => .get_bind fun m => ?_
    refine .bind (raises_ofExcept _) fun found => ?_
    split
    · exact raises_call a
    · exact .throw _

theorem raises_memAddr : Raises openBlocks k memAddr :=
  .bind raises_inst fun _ => raises_ofExcept _

theorem raises_memoryAt (a : MemAddr) : Raises openBlocks k (memoryAt a) := by
  refine .get_bind fun m => ?_
  split
  · exact .throw _
  · exact .pure _

theorem raises_load (op : LoadOp) (arg : MemArg) : Raises openBlocks k (load op arg) := by
  refine .bind (raises_onStack _) fun base => .bind raises_memAddr fun a => ?_
  refine .bind (raises_memoryAt a) fun memory => ?_
  dsimp only
  split
  · exact raises_onStack _
  · exact .throw _

theorem raises_store (op : StoreOp) (arg : MemArg) : Raises openBlocks k (store op arg) := by
  refine .bind (raises_onStack _) fun v => .bind (raises_onStack _) fun base => ?_
  refine .bind raises_memAddr fun a => .bind (raises_memoryAt a) fun memory => ?_
  split
  · exact .modify fun m => Nat.le_add_right _ _
  · exact .throw _

theorem raises_grow : Raises openBlocks k grow := by
  refine .bind (raises_onStack _) fun delta => .get_bind fun m => ?_
  refine .bind raises_memAddr fun a => .bind (raises_memoryAt a) fun memory => ?_
  split
  · exact .bind (.modify fun m => Nat.le_refl _) fun _ => raises_onStack _
  · exact raises_onStack _

theorem raises_globalAt (g : GlobalIdx) : Raises openBlocks k (globalAt g) := by
  refine .bind raises_inst fun i => .bind (raises_ofExcept _) fun a => .get_bind fun m => ?_
  split
  · exact .throw _
  · exact .pure _

/-- **An instruction enters at most one block**, that of a function it calls included. -/
theorem raises_step (i : Instr) : Raises openBlocks 1 (step i) := by
  cases i with
  | unreachable => exact .throw _
  | nop => exact .pure _
  | block t body => exact raises_enter _ _ _
  | loop t body => exact raises_enter _ _ _
  | ifThen t body =>
    refine .bind (raises_onStack _) fun condition => ?_
    split
    · exact raises_enter _ _ _
    · exact .pure _
  | ifElse t body alternate => exact .bind (raises_onStack _) fun condition => raises_enter _ _ _
  | br l => exact raises_branch _
  | brIf l =>
    refine .bind (raises_onStack _) fun condition => ?_
    split
    · exact raises_branch _
    · exact .pure _
  | brTable ls default => exact .bind (raises_onStack _) fun i => raises_branch _
  | ret => exact raises_branchToFunc
  | call f => exact .bind raises_inst fun i => .bind (raises_ofExcept _) fun a => raises_call a
  | callIndirect t => exact raises_callIndirect t
  | drop => exact .bind (raises_onStack _) fun _ => .pure _
  | select =>
    refine .bind (raises_onStack _) fun condition => .bind (raises_onStack _) fun second => ?_
    exact .bind (raises_onStack _) fun first => raises_onStack _
  | localGet x => exact .bind (raises_getLocal x) fun v => raises_onStack _
  | localSet x => exact .bind (raises_onStack _) fun v => raises_setLocal x v
  | localTee x =>
    refine .bind (raises_onStack _) fun v => ?_
    exact .bind (raises_setLocal x v) fun _ => raises_onStack _
  | globalGet g => exact .bind (raises_globalAt g) fun _ => raises_onStack _
  | globalSet g =>
    refine .bind (raises_onStack _) fun v => .bind (raises_globalAt g) fun found => ?_
    exact .modify fun m => Nat.le_add_right _ _
  | load op arg => exact raises_load op arg
  | store op arg => exact raises_store op arg
  | memorySize =>
    exact .bind raises_memAddr fun a => .bind (raises_memoryAt a) fun _ => raises_onStack _
  | memoryGrow => exact raises_grow
  | const v => exact raises_onStack (OperandM.push v)
  | numeric op => exact raises_onStack _

end Blocks

end Exec

end WasmCore
