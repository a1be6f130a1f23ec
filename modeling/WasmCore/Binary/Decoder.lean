import WasmCore.Bytes
import WasmCore.Binary.Error

/-!
# Decoders

A decoder reads a value from the front of an input and leaves the rest. An input is a list of bytes
together with the offset of its first byte in the whole binary, so that an error can say where it
arose even inside a section that was cut out of the binary.

## Contents

* `Input`, `Decoder`: bytes with their position, and what reads them;
* `Decoder.failAt`, `Decoder.refuse`: decoding that stops, and reads that were not made;
* `Decoder.byte`, `Decoder.take`, `Decoder.number`: the primitives, which fail where the input is
  too short;
* `Decoder.within`: decoding of a part that was cut out;
* `Decoder.times`: a fixed number of items.
-/

namespace WasmCore

/-- Bytes still to be read, and the offset of the first of them in the whole binary. -/
structure Input where
  bytes : List UInt8
  offset : Nat
  deriving DecidableEq

/-- Reads a value from the front of an input. -/
abbrev Decoder := StateT Input (Except DecodeError)

namespace Decoder

variable {α : Type}

/-- Stops at the given offset. -/
def failAt (offset : Nat) (fault : DecodeFault) : Decoder α :=
  fun _ => .error ⟨fault, offset⟩

/-- Stops because a primitive read was not made here. -/
def refuse (reason : ReadFault) : Decoder α :=
  fun s => .error ⟨.ofRead reason s.bytes, s.offset⟩

@[simp] theorem refuse_ended (s : Input) :
    (refuse .ended : Decoder α) s = .error ⟨.unexpectedEnd, s.offset⟩ := rfl

/-- The offset of the next byte. -/
def position : Decoder Nat := fun s => .ok (s.offset, s)

/-- The next byte. -/
def byte : Decoder UInt8 := fun s =>
  match s.bytes with
  | [] => refuse .ended s
  | b :: rest => .ok (b, ⟨rest, s.offset + 1⟩)

@[simp] theorem byte_nil (offset : Nat) :
    byte ⟨[], offset⟩ = .error ⟨.unexpectedEnd, offset⟩ := rfl

@[simp] theorem byte_cons (b : UInt8) (rest : List UInt8) (offset : Nat) :
    byte ⟨b :: rest, offset⟩ = .ok (b, ⟨rest, offset + 1⟩) := rfl

/-- The next `count` bytes, as an input of their own. -/
def take (count : Nat) : Decoder Input := fun s =>
  let front := s.bytes.take count
  if front.length = count then
    .ok (⟨front, s.offset⟩, ⟨s.bytes.drop count, s.offset + count⟩)
  else
    refuse .ended s

/-- Bytes that stand in front are taken off. -/
theorem take_append (front rest : List UInt8) (offset : Nat) :
    take front.length ⟨front ++ rest, offset⟩ =
      .ok (⟨front, offset⟩, ⟨rest, offset + front.length⟩) := by
  simp [take]

/-- Taking fails exactly where fewer bytes are left, and then at the place where it began. -/
theorem take_of_lt {count : Nat} {s : Input} (h : s.bytes.length < count) :
    take count s = .error ⟨.unexpectedEnd, s.offset⟩ := by
  simp only [take, List.length_take]
  rw [if_neg (by omega), refuse_ended]

/-- The number made of the next `count` bytes, least significant byte first. -/
def number (count : Nat) : Decoder Nat := do
  let front ← take count
  return Bytes.toNat front.bytes

/-- Decodes a part that was cut out earlier. The outer input is left alone; the unread rest of the
part comes back with the value. -/
def within (part : Input) (d : Decoder α) : Decoder (α × Input) := fun s =>
  match d part with
  | .ok r => .ok (r, s)
  | .error e => .error e

/-- As many items as given, after those read already, which stand in reverse order. -/
def timesAfter (item : Decoder α) : Nat → List α → Decoder (List α)
  | 0, earlier => pure earlier.reverse
  | count + 1, earlier => do
    let a ← item
    timesAfter item count (a :: earlier)

/-- As many items as given. -/
def times (count : Nat) (item : Decoder α) : Decoder (List α) := timesAfter item count []

end Decoder

end WasmCore
