import WasmCore.Text.Hex

/-!
# Decoding errors

Why a binary is refused, and at which byte. Each cause is a constructor; the wording is in
`DecodeFault.message` and `DecodeError.message` alone.
-/

namespace WasmCore

/-- Why a primitive read was not made: its input ended, or a reason of its own, which it names. -/
inductive ReadFault
  | ended
  | other (name : String)
  deriving DecidableEq

/-- The name of a reason. -/
def ReadFault.text : ReadFault → String
  | ended => "Eof"
  | other name => name

/-- Why decoding stopped. -/
inductive DecodeFault
  | badMagic (found : Nat)
  | unexpectedVersion (found : Nat)
  | unexpectedEnd
  | integerTooLong
  | integerTooLarge
  | invalidName
  | badTypeForm (found : UInt8)
  | badType (found : UInt8)
  | badElementType (found : UInt8)
  | badLimits (found : UInt8)
  | badMutability (found : UInt8)
  | badImportDesc (found : UInt8)
  | badExportDesc (found : UInt8)
  | sectionInvalid (id : UInt8)
  | sectionOutOfOrder (id : UInt8)
  | sectionSizeMismatch (id : UInt8) (declared used : Nat)
  | codeSizeMismatch (declared used : Nat)
  | funcCodeMismatch (funcs bodies : Nat)
  | tooManyLocals
  | unknownOpcode (found : UInt8)
  | zeroByteExpected (found : UInt8)
  | unexpectedElse
  | nestingTooDeep (limit : Nat)
  /-- A primitive read was not made, for a reason that decoding has no word for. -/
  | unreadable (reason : ReadFault)
  deriving DecidableEq

/-- What a primitive read that was not made comes to, where the given bytes are left. If none are,
the input has ended whatever the primitive says. -/
def DecodeFault.ofRead (reason : ReadFault) (left : List UInt8) : DecodeFault :=
  if reason = .ended ∨ left = [] then unexpectedEnd else unreadable reason

@[simp] theorem DecodeFault.ofRead_ended (left : List UInt8) : ofRead .ended left = unexpectedEnd := rfl

/-- Why decoding stopped, and the byte offset in the whole binary where it did. -/
structure DecodeError where
  fault : DecodeFault
  offset : Nat
  deriving DecidableEq

/-- A byte as it is shown in messages: `6FH`. -/
private def shown (b : UInt8) : String := Hex.upper b.toNat ++ "H"

/-- A word of four bytes as it is shown in messages: `0061736DH`. -/
private def shownWord (n : Nat) : String := Hex.padded 8 (Hex.upper n) ++ "H"

/-- The wording of a cause. -/
def DecodeFault.message : DecodeFault → String
  | badMagic n => s!"Bad magic number (expected 0061736DH ('\\0asm'), got {shownWord n})"
  | unexpectedVersion n => s!"Unexpected version {shownWord n}"
  | unexpectedEnd => "unexpected end of input"
  | integerTooLong => "integer representation too long"
  | integerTooLarge => "integer too large"
  | invalidName => "malformed UTF-8 encoding in name"
  | badTypeForm b => s!"Bad type prefix (expected 60H, got {shown b})"
  | badType b => s!"Bad type (got {shown b})"
  | badElementType b => s!"Bad element type (expected 70H, got {shown b})"
  | badLimits b => s!"Bad limits flag (got {shown b})"
  | badMutability b => s!"Bad mutability (got {shown b})"
  | badImportDesc b => s!"Bad import descriptor type (got {shown b})"
  | badExportDesc b => s!"Bad export descriptor type (got {shown b})"
  | sectionInvalid id => s!"invalid section type {id}"
  | sectionOutOfOrder id => s!"section {id} appears out of order or more than once"
  | sectionSizeMismatch id declared used =>
    s!"section size mismatch (section {id} declared {declared} bytes, contents used {used})"
  | codeSizeMismatch declared used =>
    s!"code entry size mismatch (declared {declared} bytes, body used {used})"
  | funcCodeMismatch funcs bodies =>
    s!"function and code section have inconsistent lengths ({funcs} functions, {bodies} bodies)"
  | tooManyLocals => "too many locals"
  | unknownOpcode b => s!"illegal opcode {shown b}"
  | zeroByteExpected b => s!"zero byte expected (got {shown b})"
  | unexpectedElse => "else outside of if"
  | nestingTooDeep limit => s!"blocks nested too deeply (limit {limit})"
  | unreadable reason => s!"parse error ({reason.text})"

/-- The wording of an error: its cause and its offset. -/
def DecodeError.message (e : DecodeError) : String :=
  s!"{e.fault.message} (at offset 0x{Hex.lower e.offset})"

end WasmCore
