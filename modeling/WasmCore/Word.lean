import WasmCore.Types

/-!
# Machine words

A number of a width is held in a machine word of that many bits, an integer as well as the bits of
a float. Every operation on words is one on bit vectors, and its law says which; after that the two
widths need not be told apart.

## Contents

* `Width.Word`, `Word.toBitVec`, `Word.ofBitVec`: words, and the bit vectors they are;
* `Word.toNat`, `Word.toInt`, `Word.ofNat`, `Word.ofInt`, `Word.intMin`, `Word.allOnes`: the numbers
  that a word stands for;
* arithmetic, bitwise operations, shifts, rotations and order;
* `Word.ofUInt64`, `Word.toUInt64`, `Word.extend8`, `Word.extend16`, `Word.extend32`: integers of
  another width.
-/

namespace WasmCore

-- Powers of numbers are those of the core library.
attribute [local instance (high)] instPowNat

/-- An integer at another width: high bits are dropped, or filled with zeros or with the sign. -/
def Signedness.resize {n : Nat} (s : Signedness) (m : Nat) (a : BitVec n) : BitVec m :=
  match s with
  | unsigned => a.setWidth m
  | signed => a.signExtend m

/-- The machine words of a width. -/
abbrev Width.Word : Width → Type
  | w32 => UInt32
  | w64 => UInt64

namespace Width.Word

variable {w : Width}

/-! ## Words and bit vectors -/

/-- The bits of a word. -/
def toBitVec : {w : Width} → w.Word → BitVec w.bits
  | .w32, a => UInt32.toBitVec a
  | .w64, a => UInt64.toBitVec a

/-- The word with the given bits. -/
def ofBitVec : {w : Width} → BitVec w.bits → w.Word
  | .w32, x => UInt32.ofBitVec x
  | .w64, x => UInt64.ofBitVec x

@[simp] theorem toBitVec_ofBitVec (x : BitVec w.bits) : toBitVec (ofBitVec x) = x := by
  cases w <;> rfl

@[simp] theorem ofBitVec_toBitVec (a : w.Word) : ofBitVec a.toBitVec = a := by
  cases w <;> rfl

/-- Words with the same bits are the same. -/
theorem toBitVec_inj {a b : w.Word} : a.toBitVec = b.toBitVec ↔ a = b := by
  cases w
  · exact UInt32.toBitVec_inj
  · exact UInt64.toBitVec_inj

instance : DecidableEq w.Word :=
  match w with
  | .w32 => instDecidableEqUInt32
  | .w64 => instDecidableEqUInt64

/-! ## Words and numbers -/

/-- The number that a word stands for without a sign. -/
def toNat : {w : Width} → w.Word → Nat
  | .w32, a => UInt32.toNat a
  | .w64, a => UInt64.toNat a

/-- The number that a word stands for in two's complement. -/
def toInt : {w : Width} → w.Word → Int
  | .w32, a => (UInt32.toInt32 a).toInt
  | .w64, a => (UInt64.toInt64 a).toInt

/-- The low bits of a number. -/
def ofNat : {w : Width} → Nat → w.Word
  | .w32, n => UInt32.ofNat n
  | .w64, n => UInt64.ofNat n

/-- The low bits of a number in two's complement. -/
def ofInt : {w : Width} → Int → w.Word
  | .w32, i => (Int32.ofInt i).toUInt32
  | .w64, i => (Int64.ofInt i).toUInt64

@[simp] theorem toNat_toBitVec (a : w.Word) : a.toBitVec.toNat = a.toNat := by cases w <;> rfl

@[simp] theorem toInt_toBitVec (a : w.Word) : a.toBitVec.toInt = a.toInt := by cases w <;> rfl

@[simp] theorem toBitVec_ofNat (n : Nat) :
    (ofNat n : w.Word).toBitVec = BitVec.ofNat w.bits n := by
  cases w <;> rfl

@[simp] theorem toBitVec_ofInt (i : Int) :
    (ofInt i : w.Word).toBitVec = BitVec.ofInt w.bits i := by
  cases w <;> rfl

theorem toNat_lt (a : w.Word) : a.toNat < 2 ^ w.bits := by
  rw [← toNat_toBitVec]
  exact a.toBitVec.isLt

/-- The least number in two's complement: the highest bit alone. -/
def intMin : {w : Width} → w.Word
  | .w32 => (0x80000000 : UInt32)
  | .w64 => (0x8000000000000000 : UInt64)

/-- Minus one in two's complement: all bits. -/
def allOnes : {w : Width} → w.Word
  | .w32 => (0xffffffff : UInt32)
  | .w64 => (0xffffffffffffffff : UInt64)

@[simp] theorem toBitVec_intMin : (intMin : w.Word).toBitVec = BitVec.intMin w.bits := by
  cases w <;> rfl

@[simp] theorem toBitVec_allOnes : (allOnes : w.Word).toBitVec = BitVec.allOnes w.bits := by
  cases w <;> rfl

/-! ## Arithmetic -/

/-- The sum, which wraps around. -/
def add : {w : Width} → w.Word → w.Word → w.Word
  | .w32, a, b => UInt32.add a b
  | .w64, a, b => UInt64.add a b

/-- The difference, which wraps around. -/
def sub : {w : Width} → w.Word → w.Word → w.Word
  | .w32, a, b => UInt32.sub a b
  | .w64, a, b => UInt64.sub a b

/-- The product, which wraps around. -/
def mul : {w : Width} → w.Word → w.Word → w.Word
  | .w32, a, b => UInt32.mul a b
  | .w64, a, b => UInt64.mul a b

/-- The quotient without a sign, rounded down. -/
def udiv : {w : Width} → w.Word → w.Word → w.Word
  | .w32, a, b => UInt32.div a b
  | .w64, a, b => UInt64.div a b

/-- The remainder without a sign. -/
def umod : {w : Width} → w.Word → w.Word → w.Word
  | .w32, a, b => UInt32.mod a b
  | .w64, a, b => UInt64.mod a b

/-- The quotient in two's complement, rounded toward zero. -/
def sdiv : {w : Width} → w.Word → w.Word → w.Word
  | .w32, a, b => (Int32.div (UInt32.toInt32 a) (UInt32.toInt32 b)).toUInt32
  | .w64, a, b => (Int64.div (UInt64.toInt64 a) (UInt64.toInt64 b)).toUInt64

/-- The remainder in two's complement, which has the sign of the dividend. -/
def srem : {w : Width} → w.Word → w.Word → w.Word
  | .w32, a, b => (Int32.mod (UInt32.toInt32 a) (UInt32.toInt32 b)).toUInt32
  | .w64, a, b => (Int64.mod (UInt64.toInt64 a) (UInt64.toInt64 b)).toUInt64

@[simp] theorem toBitVec_add (a b : w.Word) :
    (add a b).toBitVec = a.toBitVec + b.toBitVec := by
  cases w <;> rfl

@[simp] theorem toBitVec_sub (a b : w.Word) :
    (sub a b).toBitVec = a.toBitVec - b.toBitVec := by
  cases w <;> rfl

@[simp] theorem toBitVec_mul (a b : w.Word) :
    (mul a b).toBitVec = a.toBitVec * b.toBitVec := by
  cases w <;> rfl

@[simp] theorem toBitVec_udiv (a b : w.Word) :
    (udiv a b).toBitVec = a.toBitVec.udiv b.toBitVec := by
  cases w <;> rfl

@[simp] theorem toBitVec_umod (a b : w.Word) :
    (umod a b).toBitVec = a.toBitVec.umod b.toBitVec := by
  cases w <;> rfl

@[simp] theorem toBitVec_sdiv (a b : w.Word) :
    (sdiv a b).toBitVec = a.toBitVec.sdiv b.toBitVec := by
  cases w <;> rfl

@[simp] theorem toBitVec_srem (a b : w.Word) :
    (srem a b).toBitVec = a.toBitVec.srem b.toBitVec := by
  cases w <;> rfl

/-! ## Bits -/

/-- The bits that both words have. -/
def and : {w : Width} → w.Word → w.Word → w.Word
  | .w32, a, b => UInt32.land a b
  | .w64, a, b => UInt64.land a b

/-- The bits that either word has. -/
def or : {w : Width} → w.Word → w.Word → w.Word
  | .w32, a, b => UInt32.lor a b
  | .w64, a, b => UInt64.lor a b

/-- The bits that one of the words has and the other has not. -/
def xor : {w : Width} → w.Word → w.Word → w.Word
  | .w32, a, b => UInt32.xor a b
  | .w64, a, b => UInt64.xor a b

/-- The bits that a word has not. -/
def not : {w : Width} → w.Word → w.Word
  | .w32, a => UInt32.complement a
  | .w64, a => UInt64.complement a

@[simp] theorem toBitVec_and (a b : w.Word) :
    (and a b).toBitVec = a.toBitVec &&& b.toBitVec := by
  cases w <;> rfl

@[simp] theorem toBitVec_or (a b : w.Word) :
    (or a b).toBitVec = a.toBitVec ||| b.toBitVec := by
  cases w <;> rfl

@[simp] theorem toBitVec_xor (a b : w.Word) :
    (xor a b).toBitVec = a.toBitVec ^^^ b.toBitVec := by
  cases w <;> rfl

@[simp] theorem toBitVec_not (a : w.Word) : (not a).toBitVec = ~~~a.toBitVec := by
  cases w <;> rfl

/-! ## Order -/

/-- Whether one word is below another without a sign. -/
def ult : {w : Width} → w.Word → w.Word → Bool
  | .w32, a, b => UInt32.decLt a b |>.decide
  | .w64, a, b => UInt64.decLt a b |>.decide

/-- Whether one word is below another in two's complement. -/
def slt : {w : Width} → w.Word → w.Word → Bool
  | .w32, a, b => Int32.decLt (UInt32.toInt32 a) (UInt32.toInt32 b) |>.decide
  | .w64, a, b => Int64.decLt (UInt64.toInt64 a) (UInt64.toInt64 b) |>.decide

/-- Whether the highest bit is set. -/
def isNegative : {w : Width} → w.Word → Bool
  | .w32, a => UInt32.decLe 0x80000000 a |>.decide
  | .w64, a => UInt64.decLe 0x8000000000000000 a |>.decide

@[simp] theorem ult_eq (a b : w.Word) : ult a b = a.toBitVec.ult b.toBitVec := by
  cases w <;> rfl

@[simp] theorem slt_eq (a b : w.Word) : slt a b = a.toBitVec.slt b.toBitVec := by
  cases w
  · simp only [slt, Int32.lt_iff_toBitVec_slt, Bool.decide_eq_true]
    rfl
  · simp only [slt, Int64.lt_iff_toBitVec_slt, Bool.decide_eq_true]
    rfl

@[simp] theorem isNegative_eq (a : w.Word) : a.isNegative = a.toBitVec.msb := by
  cases w <;> simp only [BitVec.msb_eq_decide] <;> rfl

/-! ## Shifts and rotations -/

/-- Shift to the left by a count modulo the width. -/
def shl : {w : Width} → w.Word → w.Word → w.Word
  | .w32, a, b => UInt32.shiftLeft a b
  | .w64, a, b => UInt64.shiftLeft a b

/-- Shift to the right by a count modulo the width, filling with zeros. -/
def shr : {w : Width} → w.Word → w.Word → w.Word
  | .w32, a, b => UInt32.shiftRight a b
  | .w64, a, b => UInt64.shiftRight a b

/-- Shift to the right by a count modulo the width, filling with the sign. -/
def sar (a b : w.Word) : w.Word := if a.isNegative then (a.not.shr b).not else a.shr b

/-- Rotation to the left. What leaves at one end comes in at the other; the second count is that of
the rest of the width, which is none if the first is none. -/
def rotl (a b : w.Word) : w.Word := (a.shl b).or (a.shr ((ofNat 0).sub b))

/-- Rotation to the right. -/
def rotr (a b : w.Word) : w.Word := (a.shr b).or (a.shl ((ofNat 0).sub b))

@[simp] theorem toBitVec_shl (a b : w.Word) :
    (shl a b).toBitVec = a.toBitVec <<< (b.toNat % w.bits) := by
  cases w <;> rfl

@[simp] theorem toBitVec_shr (a b : w.Word) :
    (shr a b).toBitVec = a.toBitVec >>> (b.toNat % w.bits) := by
  cases w <;> rfl

@[simp] theorem toBitVec_sar (a b : w.Word) :
    (sar a b).toBitVec = a.toBitVec.sshiftRight (b.toNat % w.bits) := by
  simp only [sar, isNegative_eq]
  split
  · rename_i h
    simp [BitVec.sshiftRight_eq_of_msb_true h]
  · rename_i h
    simp [BitVec.sshiftRight_eq_of_msb_false (by simpa using h)]

/-- The rest of the width after a count. -/
theorem toNat_rest_mod (b : w.Word) :
    ((ofNat 0).sub b).toNat % w.bits = (w.bits - b.toNat % w.bits) % w.bits := by
  have hb := b.toNat_lt
  rw [← toNat_toBitVec, toBitVec_sub, toBitVec_ofNat, BitVec.toNat_sub, toNat_toBitVec]
  cases w <;> simp only [bits, BitVec.toNat_ofNat] at * <;> omega

@[simp] theorem toBitVec_rotl (a b : w.Word) :
    (rotl a b).toBitVec = a.toBitVec.rotateLeft b.toNat := by
  simp only [rotl, toBitVec_or, toBitVec_shl, toBitVec_shr, toNat_rest_mod, BitVec.rotateLeft_def]
  have hw := w.bits_pos
  rcases Nat.eq_zero_or_pos (b.toNat % w.bits) with h | h
  · simp [h, BitVec.ushiftRight_eq_zero]
  · rw [Nat.mod_eq_of_lt (by omega : w.bits - b.toNat % w.bits < w.bits)]

@[simp] theorem toBitVec_rotr (a b : w.Word) :
    (rotr a b).toBitVec = a.toBitVec.rotateRight b.toNat := by
  simp only [rotr, toBitVec_or, toBitVec_shl, toBitVec_shr, toNat_rest_mod, BitVec.rotateRight_def]
  have hw := w.bits_pos
  rcases Nat.eq_zero_or_pos (b.toNat % w.bits) with h | h
  · simp [h]
  · rw [Nat.mod_eq_of_lt (by omega : w.bits - b.toNat % w.bits < w.bits)]

/-! ## Other widths -/

/-- The low bits of a word of 64 bits. -/
def ofUInt64 : {w : Width} → UInt64 → w.Word
  | .w32, x => x.toUInt32
  | .w64, x => x

/-- A word as the low bits of one of 64 bits. -/
def toUInt64 : {w : Width} → w.Word → UInt64
  | .w32, a => UInt32.toUInt64 a
  | .w64, a => a

/-- A byte as a word. -/
def extend8 : {w : Width} → Signedness → UInt8 → w.Word
  | .w32, .unsigned, x => x.toUInt32
  | .w32, .signed, x => x.toInt8.toInt32.toUInt32
  | .w64, .unsigned, x => x.toUInt64
  | .w64, .signed, x => x.toInt8.toInt64.toUInt64

/-- An integer of 16 bits as a word. -/
def extend16 : {w : Width} → Signedness → UInt16 → w.Word
  | .w32, .unsigned, x => x.toUInt32
  | .w32, .signed, x => x.toInt16.toInt32.toUInt32
  | .w64, .unsigned, x => x.toUInt64
  | .w64, .signed, x => x.toInt16.toInt64.toUInt64

/-- An integer of 32 bits as a word of 64 bits. -/
def extend32 : Signedness → UInt32 → UInt64
  | .unsigned, x => x.toUInt64
  | .signed, x => x.toInt32.toInt64.toUInt64

@[simp] theorem toBitVec_ofUInt64 (x : UInt64) :
    (ofUInt64 x : w.Word).toBitVec = x.toBitVec.setWidth w.bits := by
  cases w
  · rfl
  · exact (BitVec.setWidth_eq _).symm

@[simp] theorem toNat_toUInt64 (a : w.Word) : a.toUInt64.toNat = a.toNat := by
  cases w
  · exact UInt32.toNat_toUInt64 a
  · rfl

@[simp] theorem ofUInt64_toUInt64 (a : w.Word) : ofUInt64 a.toUInt64 = a := by
  cases w
  · exact UInt32.toUInt32_toUInt64 a
  · rfl

@[simp] theorem toBitVec_extend8 (s : Signedness) (x : UInt8) :
    (extend8 s x : w.Word).toBitVec = s.resize w.bits x.toBitVec := by
  cases w <;> cases s <;> rfl

@[simp] theorem toBitVec_extend16 (s : Signedness) (x : UInt16) :
    (extend16 s x : w.Word).toBitVec = s.resize w.bits x.toBitVec := by
  cases w <;> cases s <;> rfl

@[simp] theorem toBitVec_extend32 (s : Signedness) (x : UInt32) :
    (extend32 s x).toBitVec = s.resize 64 x.toBitVec := by
  cases s <;> rfl

end Width.Word

end WasmCore
