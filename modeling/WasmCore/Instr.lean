import WasmCore.Value

/-!
# Instructions

Number instructions come in families: one operation at two widths, with or without a sign. A
family is one constructor here, so that typing and evaluation each state a rule once per family.
Structured instructions hold their bodies.

## Contents

* `NumOp`: every instruction that only computes on the operand stack, by family;
* `LoadOp`, `StoreOp`, `MemArg`: memory access;
* `Instr`: all instructions, and `Instr.size`, the measure by which walks over nested bodies end.
-/

namespace WasmCore

-- Powers of numbers are those of the core library.
attribute [local instance (high)] instPowNat

/-! ## Number operations -/

/-- Integer operations on one operand. -/
inductive IntUnary
  | clz
  | ctz
  | popcnt
  deriving DecidableEq

/-- Integer operations on two operands. -/
inductive IntBinary
  | add
  | sub
  | mul
  | div (s : Signedness)
  | rem (s : Signedness)
  | and
  | or
  | xor
  | shl
  | shr (s : Signedness)
  | rotl
  | rotr
  deriving DecidableEq

/-- Integer comparisons. -/
inductive IntCompare
  | eq
  | ne
  | lt (s : Signedness)
  | gt (s : Signedness)
  | le (s : Signedness)
  | ge (s : Signedness)
  deriving DecidableEq

/-- Float operations on one operand. -/
inductive FloatUnary
  | abs
  | neg
  | ceil
  | floor
  | trunc
  | nearest
  | sqrt
  deriving DecidableEq

/-- Float operations on two operands. -/
inductive FloatBinary
  | add
  | sub
  | mul
  | div
  | min
  | max
  | copysign
  deriving DecidableEq

/-- Float comparisons. -/
inductive FloatCompare
  | eq
  | ne
  | lt
  | gt
  | le
  | ge
  deriving DecidableEq

/-- Conversions from one value type to another. -/
inductive Conversion
  /-- `i64` to `i32`, dropping the high half. -/
  | wrap
  /-- `i32` to `i64`, with or without the sign. -/
  | extend (s : Signedness)
  /-- Float of width `source` to integer of width `target`, rounding toward zero. -/
  | truncate (source target : Width) (s : Signedness)
  /-- Integer of width `source` to the nearest float of width `target`. -/
  | convert (source target : Width) (s : Signedness)
  /-- `f64` to the nearest `f32`. -/
  | demote
  /-- `f32` to the `f64` of the same value. -/
  | promote
  /-- The bits of a float as an integer. -/
  | floatBits (w : Width)
  /-- The float with the bits of an integer. -/
  | ofBits (w : Width)
  deriving DecidableEq

/-- The type that a conversion takes. -/
def Conversion.source : Conversion → ValType
  | wrap => .i64
  | extend _ => .i32
  | truncate w _ _ => .float w
  | convert w _ _ => .int w
  | demote => .f64
  | promote => .f32
  | floatBits w => .float w
  | ofBits w => .int w

/-- The type that a conversion gives. -/
def Conversion.target : Conversion → ValType
  | wrap => .i32
  | extend _ => .i64
  | truncate _ w _ => .int w
  | convert _ w _ => .float w
  | demote => .f32
  | promote => .f64
  | floatBits w => .int w
  | ofBits w => .float w

/-- Instructions that compute one value from the operands on top of the stack. -/
inductive NumOp
  | intTest (w : Width)
  | intCompare (w : Width) (op : IntCompare)
  | floatCompare (w : Width) (op : FloatCompare)
  | intUnary (w : Width) (op : IntUnary)
  | intBinary (w : Width) (op : IntBinary)
  | floatUnary (w : Width) (op : FloatUnary)
  | floatBinary (w : Width) (op : FloatBinary)
  | convert (c : Conversion)
  deriving DecidableEq

namespace NumOp

/-- The operand types of a number operation, the last one on top of the stack. -/
def operands : NumOp → List ValType
  | intTest w => [.int w]
  | intCompare w _ => [.int w, .int w]
  | floatCompare w _ => [.float w, .float w]
  | intUnary w _ => [.int w]
  | intBinary w _ => [.int w, .int w]
  | floatUnary w _ => [.float w]
  | floatBinary w _ => [.float w, .float w]
  | convert c => [c.source]

/-- The result type of a number operation. -/
def result : NumOp → ValType
  | intTest _ => .i32
  | intCompare _ _ => .i32
  | floatCompare _ _ => .i32
  | intUnary w _ => .int w
  | intBinary w _ => .int w
  | floatUnary w _ => .float w
  | floatBinary w _ => .float w
  | convert c => c.target

end NumOp

/-! ## Memory access -/

/-- The immediates of a memory access: the alignment as a power of two, and an offset that is added
to the address. -/
structure MemArg where
  align : UInt32
  offset : UInt32
  deriving DecidableEq

/-- Loads: of a whole value, or of fewer bytes that are extended to an integer. -/
inductive LoadOp
  | whole (t : ValType)
  | byte (w : Width) (s : Signedness)
  | half (w : Width) (s : Signedness)
  | word (s : Signedness)
  deriving DecidableEq

namespace LoadOp

/-- The type of the loaded value. -/
def type : LoadOp → ValType
  | whole t => t
  | byte w _ => .int w
  | half w _ => .int w
  | word _ => .i64

/-- The natural alignment of the access as a power of two. -/
def logBytes : LoadOp → Nat
  | whole t => match t.width with
    | .w32 => 2
    | .w64 => 3
  | byte _ _ => 0
  | half _ _ => 1
  | word _ => 2

/-- The number of bytes that the access touches. -/
def bytes : LoadOp → Nat
  | whole t => t.width.bytes
  | byte _ _ => 1
  | half _ _ => 2
  | word _ => 4

/-- How the loaded bytes are extended to the width of the result. -/
def extension : LoadOp → Signedness
  | whole _ => .unsigned
  | byte _ s => s
  | half _ s => s
  | word s => s

end LoadOp

/-- Stores: of a whole value, or of the low bytes of an integer. -/
inductive StoreOp
  | whole (t : ValType)
  | byte (w : Width)
  | half (w : Width)
  | word
  deriving DecidableEq

namespace StoreOp

/-- The type of the stored value. -/
def type : StoreOp → ValType
  | whole t => t
  | byte w => .int w
  | half w => .int w
  | word => .i64

/-- The natural alignment of the access as a power of two. -/
def logBytes : StoreOp → Nat
  | whole t => match t.width with
    | .w32 => 2
    | .w64 => 3
  | byte _ => 0
  | half _ => 1
  | word => 2

/-- The number of bytes that the access touches. -/
def bytes : StoreOp → Nat
  | whole t => t.width.bytes
  | byte _ => 1
  | half _ => 2
  | word => 4

end StoreOp

/-! ## Instructions -/

/-- The instructions. A structured instruction holds its body, or bodies. -/
inductive Instr
  | unreachable
  | nop
  | block (t : BlockType) (body : List Instr)
  | loop (t : BlockType) (body : List Instr)
  | ifThen (t : BlockType) (body : List Instr)
  | ifElse (t : BlockType) (body alternate : List Instr)
  | br (l : LabelIdx)
  | brIf (l : LabelIdx)
  | brTable (ls : Array LabelIdx) (default : LabelIdx)
  | ret
  | call (f : FuncIdx)
  | callIndirect (t : TypeIdx)
  | drop
  | select
  | localGet (x : LocalIdx)
  | localSet (x : LocalIdx)
  | localTee (x : LocalIdx)
  | globalGet (x : GlobalIdx)
  | globalSet (x : GlobalIdx)
  | load (op : LoadOp) (arg : MemArg)
  | store (op : StoreOp) (arg : MemArg)
  | memorySize
  | memoryGrow
  | const (v : Value)
  | numeric (op : NumOp)

/-- An expression: the instructions of a body, an initialiser or an offset. -/
abbrev Expr := List Instr

mutual

/-- The number of instructions and of ends of bodies in an instruction. -/
def Instr.size : Instr → Nat
  | .block _ body => 1 + (1 + sizeOfBody body)
  | .loop _ body => 1 + (1 + sizeOfBody body)
  | .ifThen _ body => 1 + (1 + sizeOfBody body)
  | .ifElse _ body alternate => 1 + (1 + sizeOfBody body) + (1 + sizeOfBody alternate)
  | _ => 1

/-- The number of instructions and of ends of nested bodies in a body. -/
def sizeOfBody : List Instr → Nat
  | [] => 0
  | i :: rest => i.size + sizeOfBody rest

end

end WasmCore
