import WasmCore.Stack
import WasmCore.Typing.Context

/-!
# Checking bodies

A body is checked by running it on types instead of values. The checker keeps the types of the
operands and one control frame for each block that is open. After an instruction that never goes on
to the next one, the operands of the innermost block are forgotten and every operand that is still
missing may have any type.

Nested bodies are kept on a list while they are walked, so that deep nesting costs memory and not
depth of recursion.

## Contents

* `CtrlFrame`, `CheckState`, `Check`: state and errors of the checker;
* `Check.pop`, `Check.push`, `Check.popFrame`, `Check.pushFrame`, `Check.unreachable`: moves;
* `Check.instr`: the rule of each instruction, without the bodies of structured ones;
* `Check.walk`: a list of open bodies, walked to the end;
* `checkFunc`, `checkConstant`: whole bodies and constant expressions.
-/

namespace WasmCore

-- Sums of numbers start at the core library's zero.
attribute [local instance (high)] Zero.ofOfNat0

/-! ## State -/

/-- What opened a control frame. -/
inductive FrameKind
  | func
  | block
  | loop
  | ifThen
  | elseArm
  | constant
  deriving DecidableEq

/-- An open block: what opened it, what it leaves behind, how many operands there were when it was
opened, and whether its end can no longer be reached. -/
structure CtrlFrame where
  kind : FrameKind
  results : List ValType
  height : Nat
  unreachable : Bool
  deriving DecidableEq

/-- The types that a branch to this block carries. A branch to a loop goes to its beginning, which
takes nothing. -/
def CtrlFrame.labelTypes (f : CtrlFrame) : List ValType :=
  if f.kind = .loop then [] else f.results

/-- What is known about the operands, and the open blocks, the innermost first. -/
structure CheckState where
  operands : Stack OperandType
  frames : List CtrlFrame
  deriving DecidableEq

/-- A move of the checker. -/
abbrev Check := StateT CheckState (Except ValidationError)

namespace Check

/-! ## Moves -/

/-- The innermost open block. -/
def innermost : Check CtrlFrame := do
  match (← get).frames with
  | [] => throw .blockUnderflow
  | frame :: _ => return frame

/-- Pushes an operand. -/
def pushOperand (t : OperandType) : Check Unit :=
  modify fun s => { s with operands := s.operands.push t }

/-- Pushes an operand of a known type. -/
def push (t : ValType) : Check Unit := pushOperand (.known t)

/-- Pushes operands, the last one on top. -/
def pushOperands (ts : List OperandType) : Check Unit :=
  modify fun s => { s with operands := s.operands.pushAll ts.reverse }

/-- Pushes operands of known types, the last one on top. -/
def pushAll (ts : List ValType) : Check Unit := pushOperands (ts.map .known)

/-- Pops an operand that should have the given type, and gives what is known about it. The operands
below the innermost block are out of reach; where its end cannot be reached, a missing operand is
as expected. -/
def popOperand (expected : OperandType) : Check OperandType := do
  let frame ← innermost
  let s ← get
  if s.operands.height = frame.height then
    if frame.unreachable then return expected else throw .stackUnderflow
  else
    match s.operands.pop? with
    | none => throw .stackUnderflow
    | some (found, rest) =>
      set { s with operands := rest }
      if expected ≠ found ∧ expected ≠ .unknown ∧ found ≠ .unknown then
        throw (.typeMismatch expected found)
      else if found = .unknown then
        return expected
      else
        return found

/-- Pops an operand of a known type. -/
def pop (t : ValType) : Check Unit := do
  let _ ← popOperand (.known t)

/-- Pops operands, the first of the list on top, and puts what is known about them in front of what
is known about those above, the last one first. -/
def popFrom : List OperandType → (above : List OperandType) → Check (List OperandType)
  | [], above => return above
  | t :: ts, above => do
    let found ← popOperand t
    popFrom ts (found :: above)

/-- Pops operands, the last one first, and gives what is known about them. -/
def popOperands (ts : List OperandType) : Check (List OperandType) := popFrom ts.reverse []

/-- Pops operands of known types, the last one first. -/
def popAll (ts : List ValType) : Check Unit := do
  let _ ← popOperands (ts.map .known)

theorem pure_apply {α : Type} (a : α) (s : CheckState) : (pure a : Check α) s = .ok (a, s) := rfl

theorem get_apply (s : CheckState) : (get : Check CheckState) s = .ok (s, s) := rfl

@[simp] theorem pushOperand_apply (t : OperandType) (s : CheckState) :
    pushOperand t s = .ok ((), { s with operands := s.operands.push t }) := rfl

@[simp] theorem pushOperands_apply (ts : List OperandType) (s : CheckState) :
    pushOperands ts s = .ok ((), { s with operands := s.operands.pushAll ts.reverse }) := rfl

/-- In code that can be reached, a missing operand is an error. -/
theorem popOperand_of_missing {t : OperandType} {s : CheckState} {frame : CtrlFrame}
    {outer : List CtrlFrame} (hf : s.frames = frame :: outer)
    (hs : s.operands.height = frame.height) (hu : frame.unreachable = false) :
    popOperand t s = .error .stackUnderflow := by
  simp only [popOperand, innermost, bind, StateT.bind, Except.bind, get_apply, pure_apply, hf, hs, hu]
  rfl

/-- In code that cannot be reached, a missing operand is as expected. -/
theorem popOperand_of_unreachable {t : OperandType} {s : CheckState} {frame : CtrlFrame}
    {outer : List CtrlFrame} (hf : s.frames = frame :: outer)
    (hs : s.operands.height = frame.height) (hu : frame.unreachable = true) :
    popOperand t s = .ok (t, s) := by
  simp only [popOperand, innermost, bind, StateT.bind, Except.bind, get_apply, pure_apply, hf, hs, hu]
  rfl

/-- Opens a block. -/
def pushFrame (kind : FrameKind) (results : List ValType) : Check Unit :=
  modify fun s =>
    let frame := { kind, results, height := s.operands.height, unreachable := false : CtrlFrame }
    { s with frames := frame :: s.frames }

/-- Closes the innermost block, whose operands are then exactly its results. -/
def popFrame : Check CtrlFrame := do
  let frame ← innermost
  popAll frame.results
  let s ← get
  if s.operands.height ≠ frame.height then
    throw (.operandsLeft (s.operands.height - frame.height))
  else
    set { s with frames := s.frames.tail }
    return frame

/-- Forgets the operands of the innermost block and marks its end as out of reach. -/
def unreachable : Check Unit := do
  let s ← get
  match s.frames with
  | [] => throw .blockUnderflow
  | frame :: outer =>
    set { operands := s.operands.lower frame.height,
          frames := { frame with unreachable := true } :: outer : CheckState }

/-- The types that a branch to the given label carries. -/
def labelTypes (l : LabelIdx) : Check (List ValType) := do
  let s ← get
  match s.frames[l.toNat]? with
  | some frame => return frame.labelTypes
  | none => throw (.unknownLabel l s.frames.length)

/-! ## Instructions -/

/-- A memory access needs a memory, and an alignment that is at most the natural one. -/
def access (c : BodyContext) (arg : MemArg) (natural : Nat) : Check Unit := do
  c.requireMemory 0
  if natural < arg.align.toNat then
    throw (.alignmentTooLarge arg.align.toNat natural)

/-- The targets of a branch table other than the default one: all carry as many values as the
default one, and the operands fit them all. -/
def branchTargets (arity : Nat) : List LabelIdx → Check Unit
  | [] => return ()
  | l :: ls => do
    let types ← labelTypes l
    if types.length ≠ arity then
      throw (.branchTableArity arity types.length)
    else
      let found ← popOperands (types.map .known)
      pushOperands found
      branchTargets arity ls

/-- In a constant expression, only constants and earlier immutable globals are allowed. -/
def constantOnly (c : BodyContext) : Instr → Check Unit
  | .const _ => return ()
  | .globalGet g => do
    let type ← c.globalType g
    if c.visibleGlobals ≤ g.toNat ∨ type.isMutable then
      throw (.notConstantGlobal g)
  | i => throw (.notConstant i)

/-- The rule of an instruction. A structured one opens its block; its body is walked after that. -/
def rule (c : BodyContext) : Instr → Check Unit
  | .unreachable => unreachable
  | .nop => return ()
  | .block t _ => pushFrame .block t.results
  | .loop t _ => pushFrame .loop t.results
  | .ifThen t _ => do
    pop .i32
    pushFrame .ifThen t.results
  | .ifElse t _ _ => do
    pop .i32
    pushFrame .ifThen t.results
  | .br l => do
    popAll (← labelTypes l)
    unreachable
  | .brIf l => do
    pop .i32
    let types ← labelTypes l
    popAll types
    pushAll types
  | .brTable ls default => do
    pop .i32
    let types ← labelTypes default
    branchTargets types.length ls.toList
    popAll types
    unreachable
  | .ret => do
    match (← get).frames.getLast? with
    | none => throw .blockUnderflow
    | some frame =>
      popAll frame.labelTypes
      unreachable
  | .call f => do
    let type ← c.funcType f
    popAll type.params
    pushAll type.results
  | .callIndirect t => do
    c.requireTable 0
    let type ← c.typeAt t
    pop .i32
    popAll type.params
    pushAll type.results
  | .drop => do
    let _ ← popOperand .unknown
  | .select => do
    pop .i32
    let first ← popOperand .unknown
    let second ← popOperand first
    pushOperand (if first = .unknown then second else first)
  | .localGet x => do push (← c.localType x)
  | .localSet x => do pop (← c.localType x)
  | .localTee x => do
    let type ← c.localType x
    pop type
    push type
  | .globalGet g => do
    let type ← c.globalType g
    push type.type
  | .globalSet g => do
    let type ← c.globalType g
    if type.isMutable then pop type.type else throw (.immutableGlobal g)
  | .load op arg => do
    access c arg op.logBytes
    pop .i32
    push op.type
  | .store op arg => do
    access c arg op.logBytes
    popAll [.i32, op.type]
  | .memorySize => do
    c.requireMemory 0
    push .i32
  | .memoryGrow => do
    c.requireMemory 0
    pop .i32
    push .i32
  | .const v => push v.type
  | .numeric op => do
    popAll op.operands
    push op.result

/-- Checks one instruction, the bodies of a structured one left out. -/
def instr (c : BodyContext) (i : Instr) : Check Unit := do
  if (← get).frames.head?.any (·.kind = .constant) then
    constantOnly c i
  rule c i

end Check

/-! ## Bodies -/

/-- A body that is being walked: what is left of it, and the other arm if it is the first arm of a
conditional with two. -/
structure OpenBody where
  rest : List Instr
  alternate : Option (List Instr)

/-- The number of steps that an open body still takes. -/
def OpenBody.size (b : OpenBody) : Nat :=
  1 + sizeOfBody b.rest + (b.alternate.map fun alternate => 1 + sizeOfBody alternate).getD 0

/-- The number of steps that a list of open bodies still takes. -/
def sizeOfOpen (bodies : List OpenBody) : Nat := (bodies.map OpenBody.size).sum

/-- The body that a structured instruction begins with. -/
def Instr.opened : Instr → Option OpenBody
  | .block _ body | .loop _ body | .ifThen _ body => some ⟨body, none⟩
  | .ifElse _ body alternate => some ⟨body, some alternate⟩
  | _ => none

theorem Instr.size_pos (i : Instr) : 0 < i.size := by
  cases i <;> simp only [Instr.size] <;> omega

theorem Instr.size_opened {i : Instr} {b : OpenBody} (h : i.opened = some b) :
    b.size < i.size := by
  cases i <;> simp only [Instr.opened, Option.some.injEq, reduceCtorEq] at h <;> subst h <;>
    simp only [OpenBody.size, Instr.size, Option.map, Option.getD] <;> omega

namespace Check

/-- Closes the block whose body has ended, and goes on with the other arm if there is one. A
conditional with one arm cannot leave a value behind. -/
def endBody (alternate : Option (List Instr)) : Check Unit := do
  let frame ← popFrame
  match alternate with
  | some _ => pushFrame .elseArm frame.results
  | none =>
    if frame.kind = .ifThen ∧ frame.results ≠ [] then
      throw .elseRequired
    else
      pushAll frame.results

/-- Walks the open bodies, the innermost first, to the end of the outermost one, whose control
frame is left to the caller. -/
def walk (c : BodyContext) : List OpenBody → Check Unit
  | [] => return ()
  | ⟨[], alternate⟩ :: outer => do
    if outer.isEmpty then
      return ()
    else
      endBody alternate
      match alternate with
      | some arm => walk c (⟨arm, none⟩ :: outer)
      | none => walk c outer
  | ⟨i :: rest, alternate⟩ :: outer => do
    instr c i
    match _h : i.opened with
    | some body => walk c (body :: ⟨rest, alternate⟩ :: outer)
    | none => walk c (⟨rest, alternate⟩ :: outer)
termination_by bodies => sizeOfOpen bodies
decreasing_by
  all_goals simp only [sizeOfOpen, List.map_cons, List.sum_cons, OpenBody.size, sizeOfBody,
    Option.map_some, Option.getD_some, Option.map_none, Option.getD_none]
  · omega
  · omega
  · have := Instr.size_opened _h
    simp only [OpenBody.size] at this
    omega
  · have := i.size_pos
    omega

/-- Walks one whole body in a control frame of its own. -/
def body (c : BodyContext) (kind : FrameKind) (results : List ValType) (is : List Instr) :
    Check Unit := do
  pushFrame kind results
  walk c [⟨is, none⟩]
  let _ ← popFrame

end Check

/-- The state in which checking begins. -/
def CheckState.initial : CheckState := { operands := ∅, frames := [] }

/-- Checks the body of a function: from no operands to the results. -/
def checkFunc (c : Context) (locals : List ValType) (results : List ValType) (is : Expr) :
    Except ValidationError Unit := do
  let c : BodyContext := { toContext := c, locals := locals.toArray }
  let _ ← (Check.body c .func results is).run .initial

/-- Checks a constant expression of the given type that may read the first `visibleGlobals`
globals. -/
def checkConstant (c : Context) (visibleGlobals : Nat) (type : ValType) (is : Expr) :
    Except ValidationError Unit := do
  let c : BodyContext := { toContext := c, visibleGlobals }
  let _ ← (Check.body c .constant [type] is).run .initial

end WasmCore
