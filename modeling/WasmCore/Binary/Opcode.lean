import WasmCore.Instr

/-!
# Opcodes

The first byte of an instruction. Instructions of one family have consecutive opcodes, so the whole
assignment is one list in opcode order, with gaps for the bytes that mean nothing.

## Contents

* `BlockForm`, `Mnemonic`, `Opcode`: what a first byte can announce;
* `Opcode.assignment`: the meaning of every byte, in order;
* `Opcode.ofByte?`: the meaning of one byte.
-/

namespace WasmCore

/-- The ways to open a structured block. -/
inductive BlockForm
  | block
  | loop
  | ifThen
  deriving DecidableEq

/-- An instruction without bodies, its immediates left out. -/
inductive Mnemonic
  | unreachable
  | nop
  | br
  | brIf
  | brTable
  | ret
  | call
  | callIndirect
  | drop
  | select
  | localGet
  | localSet
  | localTee
  | globalGet
  | globalSet
  | load (op : LoadOp)
  | store (op : StoreOp)
  | memorySize
  | memoryGrow
  | const (t : ValType)
  | numeric (op : NumOp)
  deriving DecidableEq

/-- What the first byte of an instruction announces. -/
inductive Opcode
  /-- A structured block begins. -/
  | opening (form : BlockForm)
  /-- The first arm of a conditional ends and the second one begins. -/
  | elseMark
  /-- A block, or the whole expression, ends. -/
  | endMark
  /-- An instruction without bodies. -/
  | plain (m : Mnemonic)
  deriving DecidableEq

/-! ## Families in opcode order -/

/-- Both readings of an integer, the signed one first. -/
private def bothSigns {α : Type} (f : Signedness → α) : List α := [f .signed, f .unsigned]

/-- The loads in opcode order. -/
def LoadOp.inOrder : List LoadOp := List.flatten [
  [.whole .i32, .whole .i64, .whole .f32, .whole .f64],
  bothSigns (.byte .w32), bothSigns (.half .w32),
  bothSigns (.byte .w64), bothSigns (.half .w64), bothSigns .word]

/-- The stores in opcode order. -/
def StoreOp.inOrder : List StoreOp := [
  .whole .i32, .whole .i64, .whole .f32, .whole .f64,
  .byte .w32, .half .w32, .byte .w64, .half .w64, .word]

/-- The integer comparisons in opcode order. -/
def IntCompare.inOrder : List IntCompare := List.flatten [
  [.eq, .ne], bothSigns .lt, bothSigns .gt, bothSigns .le, bothSigns .ge]

/-- The float comparisons in opcode order. -/
def FloatCompare.inOrder : List FloatCompare := [.eq, .ne, .lt, .gt, .le, .ge]

/-- The integer operations on one operand in opcode order. -/
def IntUnary.inOrder : List IntUnary := [.clz, .ctz, .popcnt]

/-- The integer operations on two operands in opcode order. -/
def IntBinary.inOrder : List IntBinary := List.flatten [
  [.add, .sub, .mul], bothSigns .div, bothSigns .rem,
  [.and, .or, .xor, .shl], bothSigns .shr, [.rotl, .rotr]]

/-- The float operations on one operand in opcode order. -/
def FloatUnary.inOrder : List FloatUnary := [.abs, .neg, .ceil, .floor, .trunc, .nearest, .sqrt]

/-- The float operations on two operands in opcode order. -/
def FloatBinary.inOrder : List FloatBinary := [.add, .sub, .mul, .div, .min, .max, .copysign]

/-- The conversions in opcode order. -/
def Conversion.inOrder : List Conversion := List.flatten [
  [.wrap],
  bothSigns (.truncate .w32 .w32), bothSigns (.truncate .w64 .w32),
  bothSigns .extend,
  bothSigns (.truncate .w32 .w64), bothSigns (.truncate .w64 .w64),
  bothSigns (.convert .w32 .w32), bothSigns (.convert .w64 .w32),
  [.demote],
  bothSigns (.convert .w32 .w64), bothSigns (.convert .w64 .w64),
  [.promote, .floatBits .w32, .floatBits .w64, .ofBits .w32, .ofBits .w64]]

/-- The integer tests and comparisons of a width in opcode order. -/
private def testsOf (w : Width) : List NumOp := .intTest w :: IntCompare.inOrder.map (.intCompare w)

/-- The other integer operations of a width in opcode order. -/
private def integersOf (w : Width) : List NumOp :=
  List.append (IntUnary.inOrder.map (.intUnary w)) (IntBinary.inOrder.map (.intBinary w))

/-- The float operations of a width in opcode order. -/
private def floatsOf (w : Width) : List NumOp :=
  List.append (FloatUnary.inOrder.map (.floatUnary w)) (FloatBinary.inOrder.map (.floatBinary w))

/-- The number operations in opcode order. -/
def NumOp.inOrder : List NumOp := List.flatten [
  testsOf .w32, testsOf .w64,
  FloatCompare.inOrder.map (.floatCompare .w32), FloatCompare.inOrder.map (.floatCompare .w64),
  integersOf .w32, integersOf .w64,
  floatsOf .w32, floatsOf .w64,
  Conversion.inOrder.map .convert]

namespace Opcode

/-- Bytes without a meaning. -/
private def unused (count : Nat) : List (Option Opcode) := List.replicate count none

/-- Bytes that stand for instructions without bodies. -/
private def plains (ms : List Mnemonic) : List (Option Opcode) := ms.map fun m => some (plain m)

/-- The meaning of every byte from zero on; a byte past the end of the list has none. -/
def assignment : List (Option Opcode) := List.flatten [
  plains [.unreachable, .nop],
  [some (opening .block), some (opening .loop), some (opening .ifThen), some elseMark],
  unused 5,
  [some endMark],
  plains [.br, .brIf, .brTable, .ret, .call, .callIndirect],
  unused 8,
  plains [.drop, .select],
  unused 4,
  plains [.localGet, .localSet, .localTee, .globalGet, .globalSet],
  unused 3,
  plains (LoadOp.inOrder.map .load),
  plains (StoreOp.inOrder.map .store),
  plains [.memorySize, .memoryGrow, .const .i32, .const .i64, .const .f32, .const .f64],
  plains (NumOp.inOrder.map .numeric)]

/-- The assignment laid out for look-up. -/
private def slots : Array (Option Opcode) := assignment.toArray

/-- The meaning of a byte, if it has one. -/
def ofByte? (b : UInt8) : Option Opcode := (slots[b.toNat]?).join

theorem ofByte?_eq (b : UInt8) : ofByte? b = (assignment[b.toNat]?).join := by
  simp [ofByte?, slots]

-- The list is long: look-ups in it are rewritten with `ofByte?_eq` and not computed by unfolding.
attribute [irreducible] ofByte?

end Opcode

end WasmCore
