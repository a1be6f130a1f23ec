import WasmCore.Binary.Integer
import WasmCore.Binary.Opcode

/-!
# Expressions

Instructions up to the `end` of the expression. Blocks that are still open are kept on a list, so
that deep nesting costs memory and not depth of recursion; no more than `maxNesting` may be open at
a time.

## Contents

* `Decoder.valType`, `Decoder.blockType`, `Decoder.memArg`: immediates;
* `Decoder.plain`: an instruction without bodies, after its opcode;
* `OpenBlock`: a block whose end is still to come;
* `Decoder.exprWithin`, `Decoder.expr`: a whole expression.
-/

namespace WasmCore

/-- The largest number of structured blocks that may be open at a time. -/
def maxNesting : Nat := 1024

namespace Decoder

/-! ## Immediates -/

/-- A value type. -/
def valType : Decoder ValType := do
  let start ← position
  let tag ← byte
  if tag = 0x7f then return .i32
  else if tag = 0x7e then return .i64
  else if tag = 0x7d then return .f32
  else if tag = 0x7c then return .f64
  else failAt start (.badType tag)

/-- A block type: the byte `0x40` for no result, or the type of the one result. -/
def blockType : Decoder BlockType := do
  let start ← get
  let tag ← byte
  if tag = 0x40 then return .empty
  else
    set start
    return .value (← valType)

/-- Alignment and offset of a memory access. -/
def memArg : Decoder MemArg := do
  let align ← u32
  let offset ← u32
  return { align, offset }

/-- A reserved byte, which is zero. -/
def zeroByte : Decoder Unit := do
  let start ← position
  let b ← byte
  if b ≠ 0 then failAt start (.zeroByteExpected b)

/-- The constant that a constant instruction of the given type pushes. -/
def constant : ValType → Decoder Value
  | .i32 => Value.i32 <$> i32
  | .i64 => Value.i64 <$> i64
  | .f32 => do return .f32 (UInt32.ofNat (← number 4))
  | .f64 => do return .f64 (UInt64.ofNat (← number 8))

/-- The immediates of an instruction without bodies. -/
def plain : Mnemonic → Decoder Instr
  | .unreachable => return .unreachable
  | .nop => return .nop
  | .br => Instr.br <$> u32
  | .brIf => Instr.brIf <$> u32
  | .brTable => do
    let targets ← vector u32
    let default ← u32
    return .brTable targets.toArray default
  | .ret => return .ret
  | .call => Instr.call <$> u32
  | .callIndirect => do
    let t ← u32
    zeroByte
    return .callIndirect t
  | .drop => return .drop
  | .select => return .select
  | .localGet => Instr.localGet <$> u32
  | .localSet => Instr.localSet <$> u32
  | .localTee => Instr.localTee <$> u32
  | .globalGet => Instr.globalGet <$> u32
  | .globalSet => Instr.globalSet <$> u32
  | .load op => Instr.load op <$> memArg
  | .store op => Instr.store op <$> memArg
  | .memorySize => do
    zeroByte
    return .memorySize
  | .memoryGrow => do
    zeroByte
    return .memoryGrow
  | .const t => Instr.const <$> constant t
  | .numeric op => return .numeric op

end Decoder

/-! ## Open blocks -/

/-- What a block turns into when its end comes. -/
inductive OpenForm
  | block (t : BlockType)
  | loop (t : BlockType)
  | ifThen (t : BlockType)
  | ifElse (t : BlockType) (body : List Instr)

/-- A block whose end is still to come, and the instructions before it in reverse order. -/
structure OpenBlock where
  form : OpenForm
  before : List Instr

/-- The form of a block that has just been opened. -/
def BlockForm.start : BlockForm → BlockType → OpenForm
  | block, t => .block t
  | loop, t => .loop t
  | ifThen, t => .ifThen t

/-- The instruction that a block turns into, given the instructions since it was opened or since
its `else`. -/
def OpenForm.close : OpenForm → List Instr → Instr
  | block t, body => .block t body
  | loop t, body => .loop t body
  | ifThen t, body => .ifThen t body
  | ifElse t body, alternate => .ifElse t body alternate

namespace Decoder

/-- Reads at most `budget` instructions and marks. `opened` are the open blocks, innermost first,
and `before` the instructions since the last mark, in reverse order. -/
def exprFrom : (budget : Nat) → (opened : List OpenBlock) → (before : List Instr) → Decoder Expr
  | 0, _, _ => do failAt (← position) .unexpectedEnd
  | budget + 1, opened, before => do
    let start ← position
    let code ← byte
    match Opcode.ofByte? code with
    | none => failAt start (.unknownOpcode code)
    | some (.opening form) =>
      if maxNesting ≤ opened.length then
        failAt start (.nestingTooDeep maxNesting)
      else
        let t ← blockType
        exprFrom budget (⟨form.start t, before⟩ :: opened) []
    | some .elseMark =>
      match opened with
      | ⟨.ifThen t, outer⟩ :: rest =>
        exprFrom budget (⟨.ifElse t before.reverse, outer⟩ :: rest) []
      | _ => failAt start .unexpectedElse
    | some .endMark =>
      match opened with
      | [] => return before.reverse
      | ⟨form, outer⟩ :: rest => exprFrom budget rest (form.close before.reverse :: outer)
    | some (.plain m) =>
      let i ← plain m
      exprFrom budget opened (i :: before)

/-- An expression of at most `budget` instructions and marks, up to and including its end. -/
def exprWithin (budget : Nat) : Decoder Expr := exprFrom budget [] []

/-- An expression, up to and including its end. Every instruction takes a byte at least, so the
number of bytes left is budget enough. -/
def expr : Decoder Expr := fun s => exprWithin s.bytes.length s

end Decoder

end WasmCore
