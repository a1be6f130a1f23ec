import WasmCore.Numeric.Eval
import WasmCore.Store.Basic

/-!
# The machine

One call from outside is executed by a machine. It has one stack of operands, one stack of labels
for the blocks that have been entered, and one stack of frames for the functions that are under way.
Besides, it holds what is left of the innermost block. A label remembers how many operands there
were when its block was entered, and what follows the block in the body around it. Labels of all
frames stand on one stack; a frame knows the position of its own.

A move either changes the machine or traps; a trap leaves the machine as it was at that point, so
that what was written to the store before is kept.

## Contents

* `Label`, `Frame`, `Machine`: the state;
* `Exec`: moves of the machine;
* `Exec.onStack`, `Exec.push`, `Exec.pop`, `Exec.popArgs`, `Exec.unwind`: operands;
* `Exec.inst`, `Exec.getLocal`, `Exec.setLocal`: the function under way;
* `Exec.enter`, `Exec.branch`, `Exec.call`: control.
-/

namespace WasmCore

/-! ## State -/

/-- What a label stands for. -/
inductive LabelKind
  | block
  /-- A loop keeps its body, which a branch to it starts again. -/
  | loop (body : List Instr)
  | func

/-- The code that a branch to a label goes on with. -/
def LabelKind.target : LabelKind → List Instr
  | loop body => body
  | _ => []

/-- A block that has been entered. -/
structure Label where
  kind : LabelKind
  /-- Number of values that a branch to the label carries. -/
  branchArity : Nat
  /-- Number of values that the block leaves behind when it runs to its end. -/
  endArity : Nat
  /-- Number of operands when the block was entered. -/
  height : Nat
  /-- What follows the block in the body around it. -/
  rest : List Instr

/-- A function of a module that is under way. -/
structure Frame where
  locals : Array Value
  inst : ModuleInst
  /-- Number of labels below the label of the function. -/
  labelBase : Nat

/-- The state of a call from outside. Stacks have their innermost entry on top. -/
structure Machine where
  store : Store
  /-- Number of instructions that may still be executed, if it is limited. -/
  fuel : Option Nat
  stack : Operands
  /-- What is left of the innermost block. -/
  code : List Instr
  labels : Stack Label
  frames : Stack Frame

/-- A move of the machine. -/
abbrev Exec := EStateM Trap Machine

namespace Exec

variable {α : Type}

/-- A result that is either there or a trap. -/
@[inline] def ofExcept : Except Trap α → Exec α
  | .ok a => pure a
  | .error t => throw t

/-! ## Operands -/

/-- A move of the operands as a move of the machine. -/
@[inline] def onStack (f : OperandM α) : Exec α := fun m =>
  match m with
  | { store, fuel, stack, code, labels, frames } =>
    match f stack with
    | .ok a stack => .ok a { store, fuel, stack, code, labels, frames }
    | .error t stack => .error t { store, fuel, stack, code, labels, frames }

theorem onStack_of_ok {f : OperandM α} {m : Machine} {a : α} {stack : Operands}
    (h : f m.stack = .ok a stack) : onStack f m = .ok a { m with stack } := by
  simp only [onStack, h]

theorem onStack_of_error {f : OperandM α} {m : Machine} {t : Trap} {stack : Operands}
    (h : f m.stack = .error t stack) : onStack f m = .error t { m with stack } := by
  simp only [onStack, h]

/-- Pushes an operand. -/
@[inline] def push (v : Value) : Exec Unit := onStack (OperandM.push v)

/-- Pops an operand. -/
@[inline] def pop : Exec Value := onStack OperandM.pop

/-- Pops an integer of 32 bits. -/
@[inline] def popI32 : Exec UInt32 := onStack (OperandM.popInt .w32)

/-- Pops an operand of a given type. -/
@[inline] def popType (t : ValType) : Exec Value := onStack (OperandM.popType t)

/-- Pops operands, and gives them in the order in which they were pushed. -/
def popArgs (count : Nat) : Exec (List Value) := onStack (OperandM.popArgs count)

/-- Drops the operands between the lowest `height` and the top `arity` ones. -/
def unwind (height arity : Nat) : Exec Unit := onStack (OperandM.unwind height arity)

@[simp] theorem push_apply (v : Value) (m : Machine) :
    push v m = .ok () { m with stack := m.stack.push v } := rfl

/-! ## The current function -/

/-- The instance of the function under way. -/
@[inline] def inst : Exec ModuleInst := fun m =>
  match m.frames.toList with
  | [] => .error .stackUnderflow m
  | frame :: _ => .ok frame.inst m

/-- The value of a local. -/
@[inline] def getLocal (x : LocalIdx) : Exec Value := fun m =>
  match m.frames.toList with
  | [] => .error (.invalidIndex .local x.toNat) m
  | frame :: _ =>
    match frame.locals[x.toNat]? with
    | none => .error (.invalidIndex .local x.toNat) m
    | some v => .ok v m

/-- Gives a local a value. -/
@[inline] def setLocal (x : LocalIdx) (v : Value) : Exec Unit := fun m =>
  match m with
  | { store, fuel, stack, code, labels,
      frames := ⟨⟨locals, inst, labelBase⟩ :: outer, height, h⟩ } =>
    if x.toNat < locals.size then
      let frame := ⟨locals.setIfInBounds x.toNat v, inst, labelBase⟩
      .ok () { store, fuel, stack, code, labels, frames := ⟨frame :: outer, height, h⟩ }
    else
      let frame := ⟨locals, inst, labelBase⟩
      .error (.invalidIndex .local x.toNat)
        { store, fuel, stack, code, labels, frames := ⟨frame :: outer, height, h⟩ }
  | m => .error (.invalidIndex .local x.toNat) m

/-! ## Control -/

/-- Enters a block. A branch to a loop carries nothing. -/
def enter (kind : LabelKind) (t : BlockType) (body : List Instr) : Exec Unit :=
  modify fun m =>
    let branchArity := match kind with
      | .loop _ => 0
      | _ => t.arity
    let label := { kind, branchArity, endArity := t.arity, height := m.stack.height, rest := m.code
                   : Label }
    { m with code := body, labels := m.labels.push label }

/-- Branches to the label at a depth: the labels inside it are left, and its values are kept. -/
def branch (depth : Nat) : Exec Unit := do
  let labels := (← get).labels.drop depth
  match labels.toList with
  | [] => throw (.invalidIndex .label depth)
  | label :: _ =>
    unwind label.height label.branchArity
    modify fun m => { m with code := label.kind.target, labels }

/-- Branches to the label of the function under way. A branch may have left that label before, in a body
that was not checked; there is no label then at the depth that the difference wraps around to. -/
def branchToFunc : Exec Unit := do
  let m ← get
  match m.frames.toList with
  | [] => throw .stackUnderflow
  | frame :: _ =>
    if frame.labelBase < m.labels.height then branch (m.labels.height - 1 - frame.labelBase)
    else
      let depth := UInt32.ofNat m.labels.height - 1 - UInt32.ofNat frame.labelBase
      throw (.invalidIndex .label depth.toNat)

/-! ## Calls -/

/-- The results of a host function: the values it gave, and zeros for those it left out. -/
def hostResults (types : List ValType) (given : List Value) : List Value :=
  given.take types.length ++ (types.drop given.length).map Value.zero

/-- A host function has as many results as it declares. -/
@[simp] theorem length_hostResults (types : List ValType) (given : List Value) :
    (hostResults types given).length = types.length := by
  simp only [hostResults, List.length_append, List.length_take, List.length_map, List.length_drop]
  omega

/-- Calls a host function. The call is recorded whether the function fails or not, and its results
have the types that it declares. -/
def callHost (a : FuncAddr) (type : FuncType) (run : HostFunc) : Exec Unit := do
  let args ← popArgs type.params.length
  let outcome := run (← get).store.hostCalls args
  modify fun m =>
    { m with store := { m.store with hostCalls := m.store.hostCalls.push { func := a, args } } }
  match outcome with
  | .error failure => throw (.host failure)
  | .ok given =>
    let results := hostResults type.results given
    match mismatch? type.results results with
    | some m => throw (.hostResult m.index m.expected m.found)
    | none => modify fun m => { m with stack := m.stack.pushAll results.reverse }

/-- Enters a function of a module: its arguments become its first locals, and the declared locals
start at zero. -/
def enterFunc (type : FuncType) (inst : ModuleInst) (code : Func) : Exec Unit := do
  let m ← get
  if m.store.config.maxCallDepth ≤ m.frames.height then
    throw .callStackExhausted
  else
    let args ← popArgs type.params.length
    modify fun m =>
      let arity := type.results.length
      let frame := { locals := code.startLocals args, inst, labelBase := m.labels.height : Frame }
      let label := { kind := .func, branchArity := arity, endArity := arity,
                     height := m.stack.height, rest := m.code : Label }
      { m with code := code.body, frames := m.frames.push frame, labels := m.labels.push label }

/-- Calls the function at an address. -/
def call (a : FuncAddr) : Exec Unit := do
  match (← get).store.funcs[a]? with
  | none => throw (.undefinedFunc a)
  | some (.defined type inst code) => enterFunc type inst code
  | some (.host type run) => callHost a type run

end Exec

end WasmCore
