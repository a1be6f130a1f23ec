import Mathlib.Data.Int.ModEq
import WasmCore.Numeric.Integer

/-!
# `Numeric.Words` — the numbers that words stand for

A word stands for a number in two ways, with or without a sign. The two differ by a multiple of `2 ^ n`
at most, so that modulo `2 ^ n` there is only one of them. Here the operations on words are described as
operations on these numbers: whatever wraps around is right modulo `2 ^ n`, and division, shifts to the
right and changes of width are exact.

* `Signedness.read_modEq`, `Signedness.read_inj`, `Signedness.least_le_read`, `Signedness.read_ofInt`:
  numbers of a word, and the word of a number;
* `Signedness.read_add`, `Signedness.read_sub`, `Signedness.read_mul`: **arithmetic modulo `2 ^ n`**;
* `Word.toInt_sdiv`, `Word.toInt_srem`: **division toward zero**;
* `Word.toNat_shl`, `Word.toInt_sar`, `Word.testBit_rotl`, `Word.testBit_rotr`: shifts and rotations;
* `below_iff`: order;
* `leadingZeros_eq`, `trailingZeros_eq`, `onesCount_eq`: **bits, counted one by one.**
-/

namespace WasmCore

-- Powers of numbers are those of the core library.
attribute [local instance (high)] instPowNat

open Width (Word)

variable {w : Width}

/-! ## Two readings -/

namespace Width.Word

theorem toNat_ofNat_of_lt {n : Nat} (h : n < 2 ^ w.bits) : (ofNat n : w.Word).toNat = n := by
  rw [← toNat_toBitVec, toBitVec_ofNat, BitVec.toNat_ofNat, Nat.mod_eq_of_lt h]

theorem toNat_inj {a b : w.Word} : a.toNat = b.toNat ↔ a = b := by
  rw [← toNat_toBitVec, ← toNat_toBitVec, BitVec.toNat_inj, toBitVec_inj]

theorem toInt_inj {a b : w.Word} : a.toInt = b.toInt ↔ a = b := by
  rw [← toInt_toBitVec, ← toInt_toBitVec, BitVec.toInt_inj, toBitVec_inj]

@[simp] theorem toNat_zero : (ofNat 0 : w.Word).toNat = 0 := toNat_ofNat_of_lt (Nat.two_pow_pos _)

@[simp] theorem toInt_zero : (ofNat 0 : w.Word).toInt = 0 := by
  rw [← toInt_toBitVec, toBitVec_ofNat]
  exact BitVec.toInt_zero

@[simp] theorem toInt_intMin : (intMin : w.Word).toInt = -2 ^ (w.bits - 1) := by
  cases w <;> rfl

@[simp] theorem toInt_allOnes : (allOnes : w.Word).toInt = -1 := by
  cases w <;> rfl

end Width.Word

namespace Signedness

/-- Modulo `2 ^ n` there is only one number that a word stands for. -/
theorem read_modEq (s : Signedness) (a : w.Word) : s.read a ≡ a.toNat [ZMOD 2 ^ w.bits] := by
  cases s with
  | unsigned => exact Int.ModEq.refl _
  | signed =>
    show a.toInt % 2 ^ w.bits = a.toNat % 2 ^ w.bits
    have hpow : ((2 ^ w.bits : Nat) : Int) = 2 ^ w.bits := by cases w <;> rfl
    rw [← Word.toInt_toBitVec, ← Word.toNat_toBitVec, BitVec.toInt_eq_toNat_bmod, ← hpow, Int.bmod_emod]

/-- Words that stand for the same number are the same. -/
theorem read_inj (s : Signedness) {a b : w.Word} : s.read a = s.read b ↔ a = b := by
  cases s with
  | unsigned => exact Int.ofNat_inj.trans Word.toNat_inj
  | signed => exact Word.toInt_inj

theorem least_le_read (s : Signedness) (a : w.Word) : s.least w ≤ s.read a := by
  cases s with
  | unsigned => exact Int.natCast_nonneg _
  | signed =>
    show _ ≤ a.toInt
    rw [least_signed, ← Word.toInt_toBitVec]
    exact a.toBitVec.le_toInt

theorem read_lt_bound (s : Signedness) (a : w.Word) : s.read a < s.bound w := by
  cases s with
  | unsigned =>
    show (a.toNat : Int) < _
    rw [bound_unsigned]
    exact_mod_cast a.toNat_lt
  | signed =>
    show a.toInt < _
    rw [bound_signed, ← Word.toInt_toBitVec]
    exact a.toBitVec.toInt_lt

/-- **A number in range is the one that its word stands for.** -/
theorem read_ofInt {s : Signedness} {i : Int} (hlow : s.least w ≤ i) (hhigh : i < s.bound w) :
    s.read (.ofInt i : w.Word) = i := by
  cases s with
  | unsigned =>
    rw [bound_unsigned] at hhigh
    have hmod : i % ((2 ^ w.bits : Nat) : Int) = i := Int.emod_eq_of_lt hlow (by exact_mod_cast hhigh)
    show ((Word.ofInt i : w.Word).toNat : Int) = i
    rw [← Word.toNat_toBitVec, Word.toBitVec_ofInt, BitVec.toNat_ofInt, hmod]
    exact Int.toNat_of_nonneg hlow
  | signed =>
    rw [least_signed] at hlow
    rw [bound_signed] at hhigh
    show (Word.ofInt i : w.Word).toInt = i
    rw [← Word.toInt_toBitVec, Word.toBitVec_ofInt]
    exact BitVec.toInt_ofInt_eq_self w.bits_pos hlow hhigh

/-! ## Arithmetic -/

/-- What holds modulo `2 ^ n` of the numbers without a sign holds of those with a sign as well. -/
theorem read_modEq_of_toNat (s : Signedness) {r : w.Word} {i : Int} (h : r.toNat ≡ i [ZMOD 2 ^ w.bits]) :
    s.read r ≡ i [ZMOD 2 ^ w.bits] :=
  (s.read_modEq r).trans h

theorem read_add (s : Signedness) (a b : w.Word) :
    s.read (a.add b) ≡ s.read a + s.read b [ZMOD 2 ^ w.bits] := by
  have hsum : ((a.add b).toNat : Int) ≡ a.toNat + b.toNat [ZMOD 2 ^ w.bits] := by
    rw [← Word.toNat_toBitVec, Word.toBitVec_add, BitVec.toNat_add, Word.toNat_toBitVec,
      Word.toNat_toBitVec]
    push_cast
    exact Int.mod_modEq _ _
  exact (s.read_modEq_of_toNat hsum).trans ((s.read_modEq a).add (s.read_modEq b)).symm

theorem read_sub (s : Signedness) (a b : w.Word) :
    s.read (a.sub b) ≡ s.read a - s.read b [ZMOD 2 ^ w.bits] := by
  have hdifference : ((a.sub b).toNat : Int) ≡ a.toNat - b.toNat [ZMOD 2 ^ w.bits] := by
    have hb := Nat.le_of_lt b.toNat_lt
    rw [← Word.toNat_toBitVec, Word.toBitVec_sub, BitVec.toNat_sub, Word.toNat_toBitVec,
      Word.toNat_toBitVec]
    push_cast [hb]
    -- The subtrahend is taken from `2 ^ n`, so that nothing negative arises.
    rw [show (2 ^ w.bits : Int) - b.toNat + a.toNat = a.toNat - b.toNat + 2 ^ w.bits by omega,
      Int.add_emod_right]
    exact Int.mod_modEq _ _
  exact (s.read_modEq_of_toNat hdifference).trans ((s.read_modEq a).sub (s.read_modEq b)).symm

theorem read_mul (s : Signedness) (a b : w.Word) :
    s.read (a.mul b) ≡ s.read a * s.read b [ZMOD 2 ^ w.bits] := by
  have hproduct : ((a.mul b).toNat : Int) ≡ a.toNat * b.toNat [ZMOD 2 ^ w.bits] := by
    rw [← Word.toNat_toBitVec, Word.toBitVec_mul, BitVec.toNat_mul, Word.toNat_toBitVec,
      Word.toNat_toBitVec]
    push_cast
    exact Int.mod_modEq _ _
  exact (s.read_modEq_of_toNat hproduct).trans ((s.read_modEq a).mul (s.read_modEq b)).symm

end Signedness

namespace Width.Word

/-- The quotient is rounded toward zero. The one that does not fit is that of the least number and minus
    one. -/
theorem toInt_sdiv {a b : w.Word} (h : ¬ (a = intMin ∧ b = allOnes)) :
    (a.sdiv b).toInt = a.toInt.tdiv b.toInt := by
  rw [← toInt_toBitVec, toBitVec_sdiv, ← toInt_toBitVec, ← toInt_toBitVec]
  apply BitVec.toInt_sdiv_of_ne_or_ne
  rw [← toBitVec_intMin, BitVec.neg_one_eq_allOnes, ← toBitVec_allOnes, ne_eq, toBitVec_inj, ne_eq,
    toBitVec_inj]
  exact Decidable.not_and_iff_or_not.mp h

theorem toInt_srem (a b : w.Word) : (a.srem b).toInt = a.toInt.tmod b.toInt := by
  rw [← toInt_toBitVec, toBitVec_srem, BitVec.toInt_srem, toInt_toBitVec, toInt_toBitVec]

theorem toNat_udiv (a b : w.Word) : (a.udiv b).toNat = a.toNat / b.toNat := by
  rw [← toNat_toBitVec, toBitVec_udiv, ← toNat_toBitVec, ← toNat_toBitVec]
  exact BitVec.toNat_udiv

theorem toNat_umod (a b : w.Word) : (a.umod b).toNat = a.toNat % b.toNat := by
  rw [← toNat_toBitVec, toBitVec_umod, ← toNat_toBitVec, ← toNat_toBitVec]
  exact BitVec.toNat_umod

/-! ## Shifts and rotations -/

theorem toNat_shl (a b : w.Word) :
    (a.shl b).toNat = a.toNat * 2 ^ (b.toNat % w.bits) % 2 ^ w.bits := by
  rw [← toNat_toBitVec, toBitVec_shl, BitVec.toNat_shiftLeft, Nat.shiftLeft_eq, toNat_toBitVec]

theorem toNat_shr (a b : w.Word) : (a.shr b).toNat = a.toNat / 2 ^ (b.toNat % w.bits) := by
  rw [← toNat_toBitVec, toBitVec_shr, BitVec.toNat_ushiftRight, Nat.shiftRight_eq_div_pow,
    toNat_toBitVec]

theorem toInt_sar (a b : w.Word) : (a.sar b).toInt = a.toInt / 2 ^ (b.toNat % w.bits) := by
  rw [← toInt_toBitVec, toBitVec_sar, BitVec.toInt_sshiftRight, Int.shiftRight_eq_div_pow,
    toInt_toBitVec]
  norm_cast

/-- Every bit goes up by the count, and from the top on at the bottom. -/
theorem testBit_rotl (a b : w.Word) {i : Nat} (hi : i < w.bits) :
    (a.rotl b).toNat.testBit ((i + b.toNat % w.bits) % w.bits) = a.toNat.testBit i := by
  have hcount := Nat.mod_lt b.toNat w.bits_pos
  rw [← toNat_toBitVec, toBitVec_rotl, ← toNat_toBitVec a, BitVec.testBit_toNat, BitVec.testBit_toNat,
    BitVec.getLsbD_rotateLeft]
  generalize b.toNat % w.bits = count at hcount ⊢
  by_cases htop : i + count < w.bits
  · rw [Nat.mod_eq_of_lt htop, decide_eq_false (by omega), cond_false, decide_eq_true htop, Bool.true_and,
      Nat.add_sub_cancel]
  · rw [Nat.mod_eq_sub_mod (by omega), Nat.mod_eq_of_lt (by omega), decide_eq_true (by omega), cond_true]
    congr 1
    omega

/-- Every bit comes down by the count, and from the bottom on at the top. -/
theorem testBit_rotr (a b : w.Word) {i : Nat} (hi : i < w.bits) :
    (a.rotr b).toNat.testBit i = a.toNat.testBit ((i + b.toNat % w.bits) % w.bits) := by
  have hcount := Nat.mod_lt b.toNat w.bits_pos
  rw [← toNat_toBitVec, toBitVec_rotr, ← toNat_toBitVec a, BitVec.testBit_toNat, BitVec.testBit_toNat,
    BitVec.getLsbD_rotateRight]
  generalize b.toNat % w.bits = count at hcount ⊢
  by_cases htop : i + count < w.bits
  · rw [Nat.mod_eq_of_lt htop, decide_eq_true (by omega), cond_true, Nat.add_comm]
  · rw [Nat.mod_eq_sub_mod (by omega), Nat.mod_eq_of_lt (by omega), decide_eq_false (by omega),
      cond_false, decide_eq_true hi, Bool.true_and]
    congr 1
    omega

end Width.Word

/-! ## Order -/

/-- One word is below another exactly if its number is. -/
theorem below_iff (s : Signedness) (a b : w.Word) : below s a b = true ↔ s.read a < s.read b := by
  cases s with
  | unsigned =>
    show a.ult b = true ↔ (a.toNat : Int) < b.toNat
    rw [Word.ult_eq, BitVec.ult_iff_lt, BitVec.lt_def, Word.toNat_toBitVec, Word.toNat_toBitVec,
      Int.ofNat_lt]
  | signed =>
    show a.slt b = true ↔ a.toInt < b.toInt
    rw [Word.slt_eq, BitVec.slt_iff_toInt_lt, Word.toInt_toBitVec, Word.toInt_toBitVec]

/-! ## Other widths -/

/-- The low half of a word stands for the same number modulo `2 ^ 32`. -/
theorem Signedness.read_toUInt32 (s : Signedness) (a : UInt64) :
    s.read (w := .w32) a.toUInt32 ≡ s.read (w := .w64) a [ZMOD 2 ^ 32] := by
  have hlow : ((a.toUInt32.toNat : Nat) : Int) ≡ a.toNat [ZMOD 2 ^ 32] := by
    rw [UInt64.toNat_toUInt32]
    push_cast
    exact Int.mod_modEq _ _
  have hwhole : s.read (w := .w64) a ≡ a.toNat [ZMOD 2 ^ 32] :=
    (s.read_modEq (w := .w64) a).of_dvd (by decide)
  exact ((s.read_modEq (w := .w32) a.toUInt32).trans hlow).trans hwhole.symm

/-- A word that is extended stands for the same number. -/
theorem Signedness.read_extend32 (s : Signedness) (a : UInt32) :
    s.read (w := .w64) (Word.extend32 s a) = s.read (w := .w32) a := by
  cases s with
  | unsigned => exact congrArg Int.ofNat (UInt32.toNat_toUInt64 a)
  | signed => exact BitVec.toInt_signExtend_of_le (by decide)

/-! ## Counting bits -/

/-- The low bits of a number, the lowest first. -/
def lowBits (count n : Nat) : List Bool := (List.range count).map n.testBit

theorem lowBits_cons (count n : Nat) :
    lowBits (count + 1) n = n.testBit 0 :: lowBits count (n / 2) := by
  simp only [lowBits, List.range_succ_eq_map, List.map_cons, List.map_map]
  congr 1
  apply List.map_congr_left
  intro i _
  exact Nat.testBit_succ n i

theorem lowBits_concat (count n : Nat) : lowBits (count + 1) n = lowBits count n ++ [n.testBit count] := by
  simp only [lowBits, List.range_succ, List.map_append, List.map_cons, List.map_nil]

theorem trailingZeros_eq (count n : Nat) :
    trailingZeros count n = ((lowBits count n).takeWhile (! ·)).length := by
  induction count generalizing n with
  | zero => rfl
  | succ count ih =>
    rw [trailingZeros, lowBits_cons, Nat.testBit_zero]
    by_cases hodd : n % 2 = 1
    · simp [hodd]
    · simp [hodd, ih]

theorem onesCount_eq (count n : Nat) : onesCount count n = (lowBits count n).count true := by
  induction count generalizing n with
  | zero => rfl
  | succ count ih =>
    rw [onesCount, lowBits_cons, Nat.testBit_zero, ih]
    by_cases hodd : n % 2 = 1
    · simp [hodd, Nat.add_comm]
    · have heven : n % 2 = 0 := by omega
      simp [heven]

theorem leadingZeros_eq {count n : Nat} (hn : n < 2 ^ count) :
    leadingZeros count n = ((lowBits count n).reverse.takeWhile (! ·)).length := by
  induction count with
  | zero =>
    obtain rfl : n = 0 := by simpa using hn
    rfl
  | succ count ih =>
    rw [lowBits_concat, List.reverse_append, List.reverse_singleton, List.singleton_append]
    by_cases htop : n < 2 ^ count
    · -- The highest bit is not set, so it is one zero more.
      rw [List.takeWhile_cons_of_pos (by simp [Nat.testBit_lt_two_pow htop]), List.length_cons, ← ih htop]
      unfold leadingZeros
      split
      · rfl
      · rename_i hzero
        have hlog := (Nat.log2_lt hzero).mpr htop
        omega
    · have hpos : n ≠ 0 := by
        have := Nat.two_pow_pos count
        omega
      have hlog : n.log2 = count := by
        have hlow := (Nat.le_log2 hpos).mpr (Nat.le_of_not_lt htop)
        have hhigh := (Nat.log2_lt hpos).mpr hn
        omega
      have hbit : n.testBit count = true := hlog ▸ Nat.testBit_log2 hpos
      rw [List.takeWhile_cons_of_neg (by simp [hbit]), leadingZeros, if_neg hpos, hlog]
      simp

end WasmCore
