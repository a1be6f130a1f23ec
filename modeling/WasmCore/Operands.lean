import WasmCore.Stack
import WasmCore.Trap
import WasmCore.Value

/-!
# Operands

Instructions take their operands from the top of a stack and leave their results there. A move of
the stack either gives something or traps; a trap leaves the stack as it was at that point.

## Contents

* `Operands`, `OperandM`: the stack and its moves;
* `OperandM.push`, `OperandM.pop`, `OperandM.popInt`, `OperandM.popFloat`: one operand;
* `OperandM.popArgs`, `OperandM.unwind`: several operands;
* what each of them does to operands that are there.
-/

namespace WasmCore

/-- The operands of a machine. -/
abbrev Operands := Stack Value

/-- A move of the operands. -/
abbrev OperandM := EStateM Trap Operands

namespace OperandM

/-! ## One operand -/

/-- Pushes an operand. -/
@[inline] def push (v : Value) : OperandM Unit := fun s => .ok () (s.push v)

/-- Pops an operand. -/
@[inline] def pop : OperandM Value := fun s =>
  match s.pop? with
  | none => .error .stackUnderflow s
  | some (v, rest) => .ok v rest

/-- Pops an integer of a width. -/
@[inline] def popInt (w : Width) : OperandM w.Word := do
  let v ← pop
  match v.toInt? w with
  | some x => return x
  | none => throw (.valueType (.int w) v.type)

/-- Pops a float of a width. -/
@[inline] def popFloat (w : Width) : OperandM w.Word := do
  let v ← pop
  match v.toFloat? w with
  | some x => return x
  | none => throw (.valueType (.float w) v.type)

/-- Pops an operand of a type. -/
@[inline] def popType (t : ValType) : OperandM Value := do
  let v ← pop
  if v.type = t then return v else throw (.valueType t v.type)

@[simp] theorem push_apply (v : Value) (s : Operands) : push v s = .ok () (s.push v) := rfl

@[simp] theorem pop_push (v : Value) (s : Operands) : pop (s.push v) = .ok v s := rfl

@[simp] theorem pop_empty : pop ∅ = .error .stackUnderflow ∅ := rfl

@[simp] theorem popInt_push (w : Width) (x : w.Word) (s : Operands) :
    popInt w (s.push (.int w x)) = .ok x s := by
  cases w <;> rfl

@[simp] theorem popFloat_push (w : Width) (x : w.Word) (s : Operands) :
    popFloat w (s.push (.float w x)) = .ok x s := by
  cases w <;> rfl

/-- An operand of the type that is asked for is popped. -/
theorem popType_push (v : Value) (s : Operands) :
    popType v.type (s.push v) = .ok v s := by
  simp [popType, bind, EStateM.bind, pure, EStateM.pure]

/-! ## Several operands -/

/-- Pops operands, and gives them in the order in which they were pushed. -/
def popArgs (count : Nat) : OperandM (List Value) := fun s =>
  if s.height < count then .error .stackUnderflow s
  else .ok (s.toList.take count).reverse (s.drop count)

/-- Keeps the top `arity` operands and the lowest `height` ones, and drops what is between them,
which mostly is nothing. -/
def unwind (height arity : Nat) : OperandM Unit := fun s =>
  if s.height = height + arity then .ok () s
  else if s.height < height + arity then .error .stackUnderflow s
  else .ok () ((s.lower height).pushAll (s.toList.take arity))

/-- Arguments that were pushed in order are popped in that order. -/
theorem popArgs_pushAll (args : List Value) (s : Operands) :
    popArgs args.length (s.pushAll args.reverse) = .ok args s := by
  have h : (s.pushAll args.reverse).drop args.length = s := by
    apply Stack.ext
    simp
  simp [popArgs, h]

/-- What is kept are the top and the lowest operands, whatever is between them. -/
theorem unwind_pushAll (top between : List Value) (s : Operands) :
    unwind s.height top.length ((s.pushAll between).pushAll top) = .ok () (s.pushAll top) := by
  cases between with
  | nil => simp [unwind, Stack.pushAll]
  | cons v between =>
    simp only [unwind, Stack.height_pushAll, List.length_cons]
    rw [if_neg (by omega), if_neg (by omega)]
    congr 1
    apply Stack.ext
    simp [Stack.lower, show s.height + (between.length + 1) + top.length - s.height =
      top.length + (between.length + 1) by omega, List.drop_append]

end OperandM

end WasmCore
