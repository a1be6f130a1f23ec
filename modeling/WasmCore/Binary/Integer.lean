import WasmCore.Binary.Decoder

/-!
# Variable-length integers

An integer of `n` bits is written in groups of seven bits, least significant group first, one group
to a byte. The high bit of a byte says that more follow. At most `⌈n / 7⌉` bytes may be used. The
last of that many bytes has bits to spare: they are zero in an unsigned integer and copies of the
sign in a signed one.

## Contents

* `Leb.groups`: the bytes of one integer, up to the first without the high bit;
* `Leb.unsigned`, `Leb.signed`: the integers, refused when too long or too large;
* `Decoder.u32`, `Decoder.i32`, `Decoder.i64`: the three kinds that the format uses.
-/

namespace WasmCore

namespace Leb

/-- The largest number of bytes that an integer of `n` bits may take. -/
def maxBytes (n : Nat) : Nat := (n + 6) / 7

/-- Whether a byte says that another one follows. -/
def continues (b : UInt8) : Bool := 128 ≤ b

/-- The seven bits that a byte contributes. -/
def payload (b : UInt8) : Nat := b.toNat % 128

/-- The bytes of one integer of `n` bits: those that say that more follow, and the last one. -/
def groups (n : Nat) : Decoder (List UInt8 × UInt8) := fun s =>
  let lead := s.bytes.takeWhile continues
  match s.bytes.dropWhile continues with
  | [] => Decoder.refuse .ended ⟨[], s.offset + lead.length⟩
  | last :: rest =>
    if maxBytes n < lead.length + 1 then
      .error ⟨.integerTooLong, s.offset⟩
    else
      .ok ((lead, last), ⟨rest, s.offset + lead.length + 1⟩)

/-- The bits of the given groups, the first of which stands at bit `shift`, joined to `low`. -/
def join {n : Nat} : (shift : Nat) → BitVec n → List UInt8 → BitVec n
  | _, low, [] => low
  | shift, low, b :: rest =>
    join (shift + 7) (low ||| BitVec.ofNat n (payload b) <<< shift) rest

/-- An unsigned integer of `n` bits. -/
def unsigned (n : Nat) : Decoder (BitVec n) := do
  let start ← Decoder.position
  let (lead, last) ← groups n
  let shift := 7 * lead.length
  if lead.length + 1 = maxBytes n ∧ payload last >>> (n - shift) ≠ 0 then
    Decoder.failAt start .integerTooLarge
  else
    return join 0 0 lead ||| BitVec.ofNat n (payload last) <<< shift

/-- A signed integer of `n` bits. -/
def signed (n : Nat) : Decoder (BitVec n) := do
  let start ← Decoder.position
  let (lead, last) ← groups n
  let shift := 7 * lead.length
  -- the sign bit of the integer and the spare bits above it
  let extension := payload last >>> (n - shift - 1)
  if lead.length + 1 = maxBytes n ∧ extension ≠ 0 ∧ extension ≠ 127 >>> (n - shift - 1) then
    Decoder.failAt start .integerTooLarge
  else
    let bits := join 0 0 lead ||| BitVec.ofNat n (payload last) <<< shift
    if shift + 7 < n ∧ (payload last).testBit 6 then
      return bits ||| BitVec.allOnes n <<< (shift + 7)
    else
      return bits

end Leb

namespace Decoder

variable {α : Type}

/-- An unsigned integer of 32 bits. -/
def u32 : Decoder UInt32 := UInt32.ofBitVec <$> Leb.unsigned 32

/-- A signed integer of 32 bits. -/
def i32 : Decoder UInt32 := UInt32.ofBitVec <$> Leb.signed 32

/-- A signed integer of 64 bits. -/
def i64 : Decoder UInt64 := UInt64.ofBitVec <$> Leb.signed 64

/-- A count, then that many items. -/
def vector (item : Decoder α) : Decoder (List α) := do
  let count ← u32
  times count.toNat item

/-- A count, then that many bytes, as an input of their own. -/
def span : Decoder Input := do
  let count ← u32
  take count.toNat

/-- A length, then that many bytes of well-formed UTF-8. -/
def name : Decoder String := do
  let part ← span
  match String.fromUTF8? (ByteArray.mk part.bytes.toArray) with
  | some s => return s
  | none => failAt part.offset .invalidName

end Decoder

end WasmCore
