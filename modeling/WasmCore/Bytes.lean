/-!
# Numbers as bytes

The binary format and linear memory both store numbers with the least significant byte first.

## Contents

* `Bytes.toNat`, `Bytes.ofNat`: a number from its bytes, and the low bytes of a number;
* `Bytes.toNat_ofNat`, `Bytes.ofNat_toNat`: each undoes the other;
* `Bytes.ofWord`: the low bytes of a word.
-/

namespace WasmCore.Bytes

-- Powers of numbers are those of the core library.
attribute [local instance (high)] instPowNat

/-- The number whose bytes these are, least significant first. -/
def toNat : List UInt8 → Nat
  | [] => 0
  | b :: rest => b.toNat + 256 * toNat rest

/-- The low `count` bytes of a number, least significant first. -/
def ofNat : (count : Nat) → Nat → List UInt8
  | 0, _ => []
  | count + 1, n => UInt8.ofNat n :: ofNat count (n / 256)

@[simp] theorem length_ofNat (count n : Nat) : (ofNat count n).length = count := by
  induction count generalizing n with
  | zero => rfl
  | succ count ih => simp [ofNat, ih]

theorem toNat_lt (bs : List UInt8) : toNat bs < 256 ^ bs.length := by
  induction bs with
  | nil => simp [toNat]
  | cons b rest ih =>
    have hb : b.toNat < 256 := b.toNat_lt
    simp only [toNat, List.length_cons, Nat.pow_succ]
    omega

/-- The low bytes of a number denote the number modulo a power of 256. -/
theorem toNat_ofNat (count n : Nat) : toNat (ofNat count n) = n % 256 ^ count := by
  induction count generalizing n with
  | zero => simp [ofNat, toNat, Nat.mod_one]
  | succ count ih =>
    simp only [ofNat, toNat, ih, UInt8.toNat_ofNat']
    have h : 256 ^ (count + 1) = 256 * 256 ^ count := Nat.pow_succ'
    rw [h, Nat.mod_mul]

/-- A number made of bytes has those bytes. -/
theorem ofNat_toNat (bs : List UInt8) : ofNat bs.length (toNat bs) = bs := by
  induction bs with
  | nil => rfl
  | cons b rest ih =>
    have hb : b.toNat < 256 := b.toNat_lt
    have hq : (b.toNat + 256 * toNat rest) / 256 = toNat rest := by omega
    have hl : UInt8.ofNat (b.toNat + 256 * toNat rest) = b := by
      apply UInt8.toNat_inj.mp
      simp only [UInt8.toNat_ofNat']
      omega
    simp [toNat, ofNat, hq, hl, ih]

/-- The low `count` bytes of a word, least significant first. -/
def ofWord : (count : Nat) → UInt64 → List UInt8
  | 0, _ => []
  | count + 1, x => x.toUInt8 :: ofWord count (x >>> 8)

/-- The bytes of a word are those of its number. -/
theorem ofWord_eq (count : Nat) (x : UInt64) : ofWord count x = ofNat count x.toNat := by
  induction count generalizing x with
  | zero => rfl
  | succ count ih =>
    have hx : (x >>> 8).toNat = x.toNat / 256 := by
      simp [UInt64.toNat_shiftRight, Nat.shiftRight_eq_div_pow]
    rw [ofWord, ofNat, ih, hx]
    rfl

@[simp] theorem length_ofWord (count : Nat) (x : UInt64) : (ofWord count x).length = count := by
  rw [ofWord_eq, length_ofNat]

end WasmCore.Bytes
