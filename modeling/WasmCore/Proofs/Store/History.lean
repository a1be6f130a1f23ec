import WasmCore.Link.Instantiate

/-!
# `Store.History` — what can be done to a store from outside

A store starts empty, and everything that ever happens to it is one of a few operations. A history is
a list of them. Operations that fail or trap are part of a history like any other, and so is a call
that was given too few turns to come to its end: what holds after every history also holds in the
middle of a call.

* `Operation`, `Store.perform`, `Store.performAll`: one operation, and a history;
* `Store.Reachable`: the stores that some history leads to;
* `Store.origins`: the module that defined each function of a store.
-/

namespace WasmCore

/-- An operation on a store from outside. -/
inductive Operation where
  | allocHost (type : FuncType) (run : HostFunc)
  | allocTable (t : TableType)
  | allocMemory (t : MemType)
  | allocGlobal (type : GlobalType) (value : Value)
  | instantiate (turns : Nat) (m : Module) (given : List External)
  | invoke (turns : Nat) (a : FuncAddr) (args : List Value)
  | writeMemory (a : MemAddr) (start : Nat) (bytes : List UInt8)

namespace Store

/-- The store that nothing has been done to. -/
def withConfig (config : Config) : Store := { config }

/-- The store after an allocation, which leaves it alone if it fails. -/
def afterAlloc {α : Type} (s : Store) : Except LinkError (α × Store) → Store
  | .ok (_, s') => s'
  | .error _ => s

/-- The store after an operation, whether it succeeds, fails or traps. -/
def perform (s : Store) : Operation → Store
  | .allocHost type run => (s.allocHost type run).2
  | .allocTable t => s.afterAlloc (s.allocTable t)
  | .allocMemory t => s.afterAlloc (s.allocMemory t)
  | .allocGlobal type value => s.afterAlloc (s.allocGlobal type value)
  | .instantiate turns m given => (s.instantiate turns m given).2
  | .invoke turns a args => (s.invoke turns a args).2
  | .writeMemory a start bytes => (s.writeMemory a start bytes).2

/-- The store after a history. -/
def performAll (s : Store) (ops : List Operation) : Store := ops.foldl perform s

/-- Some history leads to the store. -/
def Reachable (s : Store) : Prop := ∃ config ops, s = (withConfig config).performAll ops

end Store

/-- The module whose functions an operation adds. -/
def Operation.module? : Operation → Option Module
  | .instantiate _ m _ => some m
  | _ => none

/-- **Who defined what.** For each function that a history adds, in order, the module that it was
    defined by; none for functions of the host. -/
def Store.origins (s : Store) : List Operation → List (Option Module)
  | [] => []
  | op :: ops =>
    List.replicate ((s.perform op).funcs.size - s.funcs.size) op.module? ++
      (s.perform op).origins ops

namespace Store

@[simp] theorem performAll_nil (s : Store) : s.performAll [] = s := rfl

@[simp] theorem performAll_cons (s : Store) (op : Operation) (ops : List Operation) :
    s.performAll (op :: ops) = (s.perform op).performAll ops := rfl

/-- The beginning of every history. -/
theorem reachable_withConfig (config : Config) : (withConfig config).Reachable :=
  ⟨config, [], rfl⟩

/-- One more operation. -/
theorem Reachable.perform {s : Store} (h : s.Reachable) (op : Operation) :
    (s.perform op).Reachable := by
  obtain ⟨config, ops, rfl⟩ := h
  exact ⟨config, ops ++ [op], by simp [performAll]⟩

/-- A longer history. -/
theorem Reachable.performAll {s : Store} (h : s.Reachable) (ops : List Operation) :
    (s.performAll ops).Reachable := by
  induction ops generalizing s with
  | nil => exact h
  | cons op ops ih => exact ih (h.perform op)

end Store

end WasmCore
