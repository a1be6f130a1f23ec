import WasmCore.Exec.Step

/-!
# Calls from outside

A call runs turn by turn until nothing is left to do. A turn either executes the next instruction
of the innermost block, which costs a unit of fuel, or closes the block if nothing is left of it,
which is free. Without a limit on fuel a call may go on for ever, so whoever makes it also says how
many turns to take at most.

## Contents

* `Outcome`: what became of something that may fail or not come to an end;
* `Exec.turn`, `Exec.run`: one turn, and a bounded number of them;
* `Store.invoke`: a call with given arguments.
-/

namespace WasmCore

/-- What became of a computation. -/
inductive Outcome (ε α : Type)
  | done (a : α)
  | failed (e : ε)
  /-- The turns were used up before the end. -/
  | unfinished
  deriving DecidableEq

namespace Exec

/-- Closes a block that has run to its end, and goes on with what follows it. -/
def close (label : Label) (outer : Stack Label) : Exec Unit := do
  modify fun m => { m with code := label.rest, labels := outer }
  unwind label.height label.endArity
  match label.kind with
  | .func => modify fun m => { m with frames := m.frames.drop 1 }
  | _ => return ()

/-- Executes the next instruction of the innermost block, which `rest` follows. It uses up a unit of
fuel. -/
def advance (i : Instr) (rest : List Instr) : Exec Unit := fun m =>
  match m.fuel with
  | none => step i { m with code := rest }
  | some 0 => .error .outOfFuel m
  | some (n + 1) => step i { m with code := rest, fuel := some n }

/-- Takes one turn; false if there was nothing left to do. -/
@[inline] def turn : Exec Bool := do
  match (← get).code with
  | i :: rest =>
    advance i rest
    return true
  | [] =>
    match (← get).labels.pop? with
    | none => return false
    | some (label, outer) =>
      close label outer
      return true

/-- Takes at most the given number of turns; whether the end was reached. -/
def run : (turns : Nat) → Exec Bool
  | 0 => do
    let m ← get
    return m.code.isEmpty && m.labels.height == 0
  | turns + 1 => do
    if ← turn then run turns else return true

end Exec

namespace Store

/-- The function at an address exists and takes arguments like these. -/
def acceptsArgs (s : Store) (a : FuncAddr) (args : List Value) : Except Trap Unit := do
  let type ← s.funcType a
  if args.length ≠ type.params.length then
    throw (.argumentCount type.params.length args.length)
  else
    match mismatch? type.params args with
    | some m => throw (.argumentType m.index m.expected m.found)
    | none => return ()

/-- The machine at the beginning of a call. -/
def machine (s : Store) (args : List Value) : Machine where
  store := s
  fuel := s.config.fuel
  stack := .ofList args.reverse
  code := []
  labels := ∅
  frames := ∅

/-- Calls the function at an address with the given arguments, in at most the given number of
turns. A trap keeps what was written to the store before it. -/
def invoke (turns : Nat) (s : Store) (a : FuncAddr) (args : List Value) :
    Outcome Trap (List Value) × Store :=
  match s.acceptsArgs a args with
  | .error t => (.failed t, s)
  | .ok () =>
    let start : Exec Bool := do
      Exec.call a
      Exec.run turns
    match start (s.machine args) with
    | .ok true m => (.done m.stack.toList.reverse, m.store)
    | .ok false m => (.unfinished, m.store)
    | .error t m => (.failed t, m.store)

end Store

end WasmCore
