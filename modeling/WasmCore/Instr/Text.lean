import WasmCore.Instr

/-!
# Names and descriptions of instructions

Every instruction has a name made of the types it works on and what it does, such as `I32Add` or
`I64Load8U`. Its description adds the immediates in parentheses and nested bodies in brackets, as
in `Block(Val(I32), [I32Const(1)])`; error messages quote it.

## Contents

* `NumOp.name`, `LoadOp.name`, `StoreOp.name`, `Instr.name`: names;
* `Instr.describe`: name, immediates and bodies.
-/

namespace WasmCore

/-! ## Names -/

/-- The letter that stands for a sign. -/
def Signedness.letter : Signedness → String
  | signed => "S"
  | unsigned => "U"

/-- Name of an integer operation on one operand. -/
def IntUnary.name : IntUnary → String
  | clz => "Clz"
  | ctz => "Ctz"
  | popcnt => "Popcnt"

/-- Name of an integer operation on two operands. -/
def IntBinary.name : IntBinary → String
  | add => "Add"
  | sub => "Sub"
  | mul => "Mul"
  | div s => "Div" ++ s.letter
  | rem s => "Rem" ++ s.letter
  | and => "And"
  | or => "Ior"
  | xor => "Xor"
  | shl => "Shl"
  | shr s => "Shr" ++ s.letter
  | rotl => "Rol"
  | rotr => "Ror"

/-- Name of an integer comparison. -/
def IntCompare.name : IntCompare → String
  | eq => "Eq"
  | ne => "Ne"
  | lt s => "Lt" ++ s.letter
  | gt s => "Gt" ++ s.letter
  | le s => "Le" ++ s.letter
  | ge s => "Ge" ++ s.letter

/-- Name of a float operation on one operand. -/
def FloatUnary.name : FloatUnary → String
  | abs => "Abs"
  | neg => "Neg"
  | ceil => "Ceil"
  | floor => "Floor"
  | trunc => "Trunc"
  | nearest => "NearestInt"
  | sqrt => "Sqrt"

/-- Name of a float operation on two operands. -/
def FloatBinary.name : FloatBinary → String
  | add => "Add"
  | sub => "Sub"
  | mul => "Mul"
  | div => "Div"
  | min => "Min"
  | max => "Max"
  | copysign => "CopySign"

/-- Name of a float comparison. -/
def FloatCompare.name : FloatCompare → String
  | eq => "Eq"
  | ne => "Ne"
  | lt => "Lt"
  | gt => "Gt"
  | le => "Le"
  | ge => "Ge"

/-- Name of a conversion: the target, the sign where it matters, and the source. -/
def Conversion.name (c : Conversion) : String :=
  let sign := match c with
    | extend s | truncate _ _ s | convert _ _ s => s.letter
    | _ => ""
  let verb := match c with
    | floatBits _ | ofBits _ => "Reinterpret"
    | _ => "Convert"
  c.target.tag ++ sign ++ verb ++ c.source.tag

/-- Name of a number operation. -/
def NumOp.name : NumOp → String
  | intTest w => (ValType.int w).tag ++ "Eqz"
  | intCompare w op => (ValType.int w).tag ++ op.name
  | floatCompare w op => (ValType.float w).tag ++ op.name
  | intUnary w op => (ValType.int w).tag ++ op.name
  | intBinary w op => (ValType.int w).tag ++ op.name
  | floatUnary w op => (ValType.float w).tag ++ op.name
  | floatBinary w op => (ValType.float w).tag ++ op.name
  | convert c => c.name

/-- Name of a load. -/
def LoadOp.name : LoadOp → String
  | whole t => t.tag ++ "Load"
  | byte w s => (ValType.int w).tag ++ "Load8" ++ s.letter
  | half w s => (ValType.int w).tag ++ "Load16" ++ s.letter
  | word s => "I64Load32" ++ s.letter

/-- Name of a store. -/
def StoreOp.name : StoreOp → String
  | whole t => t.tag ++ "Store"
  | byte w => (ValType.int w).tag ++ "Store8"
  | half w => (ValType.int w).tag ++ "Store16"
  | word => "I64Store32"

/-- Name of an instruction, without its immediates. -/
def Instr.name : Instr → String
  | unreachable => "Unreachable"
  | nop => "Nop"
  | block _ _ => "Block"
  | loop _ _ => "Loop"
  | ifThen _ _ => "If"
  | ifElse _ _ _ => "IfElse"
  | br _ => "Br"
  | brIf _ => "BrIf"
  | brTable _ _ => "BrTable"
  | ret => "Return"
  | call _ => "Call"
  | callIndirect _ => "CallIndirect"
  | drop => "Drop"
  | select => "Select"
  | localGet _ => "LocalGet"
  | localSet _ => "LocalSet"
  | localTee _ => "LocalTee"
  | globalGet _ => "GlobalGet"
  | globalSet _ => "GlobalSet"
  | load op _ => op.name
  | store op _ => op.name
  | memorySize => "MemorySize"
  | memoryGrow => "MemoryGrow"
  | const v => v.type.tag ++ "Const"
  | numeric op => op.name

/-! ## Descriptions -/

/-- Description of a block type: `Empty` or `Val(I32)`. -/
def BlockType.describe : BlockType → String
  | empty => "Empty"
  | value t => s!"Val({t.tag})"

/-- Description of the immediates of a memory access: `MemArg(2, 4)`. -/
def MemArg.describe (m : MemArg) : String := s!"MemArg({m.align}, {m.offset})"

/-- Description of a constant: integers are signed, floats show their bits as a number. -/
def Value.describe : Value → String
  | i32 x => toString x.toInt32.toInt
  | i64 x => toString x.toInt64.toInt
  | f32 x => toString x.toNat
  | f64 x => toString x.toNat

/-- Description of a label: `LabelIdx(0)`. -/
def describeLabel (l : LabelIdx) : String := s!"LabelIdx({l})"

/-- Description of an instruction without bodies: its name, then its immediates in parentheses. -/
def Instr.describePlain (i : Instr) : String :=
  match i with
  | .br l | .brIf l => s!"{i.name}({describeLabel l})"
  | .brTable ls l =>
    let targets := ", ".intercalate (ls.toList.map describeLabel)
    s!"{i.name}([{targets}], {describeLabel l})"
  | .call f => s!"{i.name}(FuncIdx({f}))"
  | .callIndirect t => s!"{i.name}(TypeIdx({t}))"
  | .localGet x | .localSet x | .localTee x => s!"{i.name}(LocalIdx({x}))"
  | .globalGet x | .globalSet x => s!"{i.name}(GlobalIdx({x}))"
  | .load _ arg | .store _ arg => s!"{i.name}({arg.describe})"
  | .const v => s!"{i.name}({v.describe})"
  | _ => i.name

mutual

/-- A text with the description of an instruction after it. Descriptions are appended to one text
from left to right, so that long bodies are not copied again and again. -/
def Instr.describeAfter (text : String) (i : Instr) : String :=
  match i with
  | .block t body | .loop t body | .ifThen t body =>
    describeBodyAfter (text ++ i.name ++ "(" ++ t.describe ++ ", [") body ++ "])"
  | .ifElse t body alternate =>
    let text := describeBodyAfter (text ++ i.name ++ "(" ++ t.describe ++ ", [") body
    describeBodyAfter (text ++ "], [") alternate ++ "])"
  | i => text ++ i.describePlain

/-- A text with the descriptions of the instructions of a body after it, separated by commas. -/
def describeBodyAfter (text : String) : List Instr → String
  | [] => text
  | i :: rest => describeRestAfter (i.describeAfter text) rest

/-- A text with descriptions after it, each with a comma in front. -/
def describeRestAfter (text : String) : List Instr → String
  | [] => text
  | i :: rest => describeRestAfter (i.describeAfter (text ++ ", ")) rest

end

/-- Description of an instruction: its name, then immediates and bodies in parentheses. -/
def Instr.describe (i : Instr) : String := i.describeAfter ""

end WasmCore
