import Mathlib.Data.Rat.Floor
import Mathlib.Tactic.Linarith
import WasmCore.Numeric.FloatArithmetic

/-!
# `Numeric.Dyadic` — floats as rational numbers

A finite float is an exact rational number, a multiple of a power of two. The interchange format gives it
by the fields of its bits; operations work with a sign, a significand and an exponent. Both are the same
number, and what is decided by shifting significands is decided about these numbers.

* `Word.IsNaN`, `Word.IsFinite`, `Word.value`: **what bits denote, by the interchange format**;
* `dyadic`, `FloatValue.of_ofBits_finite`: a sign, a significand and an exponent denote the same;
* `FloatValue.order_finite`: comparison is that of rational numbers;
* `truncated`, `FloatValue.integerPart_eq`: the integer part is the number truncated toward zero;
* `gap`: **there are no floats just above a power of two.**
-/

namespace WasmCore

-- Powers of natural numbers are those of the core library.
attribute [local instance (high)] instPowNat

open Width (Word)

variable {w : Width}

/-! ## The interchange format -/

/-- What is added to an exponent to make it a field. -/
def Width.bias (w : Width) : Int := 2 ^ (w.exponentBits - 1) - 1

namespace Width.Word

/-- The highest bit. -/
def signField (x : w.Word) : Nat := x.toNat / 2 ^ (w.bits - 1)

/-- The bits of the exponent. -/
def exponentField (x : w.Word) : Nat := x.toNat / 2 ^ w.fractionBits % 2 ^ w.exponentBits

/-- The bits of the fraction. -/
def fractionField (x : w.Word) : Nat := x.toNat % 2 ^ w.fractionBits

/-- Bits that denote no number: the exponent is all ones and the fraction is not zero. -/
def IsNaN (x : w.Word) : Prop := x.exponentField = 2 ^ w.exponentBits - 1 ∧ x.fractionField ≠ 0

/-- Bits that denote a rational number: the exponent is not all ones. -/
def IsFinite (x : w.Word) : Prop := x.exponentField ≠ 2 ^ w.exponentBits - 1

/-- **The number that bits denote.** The fraction follows a leading one, or a leading zero if the exponent
    is the least one. -/
def value (x : w.Word) : ℚ :=
  (-1) ^ x.signField *
    if x.exponentField = 0 then x.fractionField / 2 ^ w.fractionBits * (2 : ℚ) ^ (1 - w.bias)
    else (1 + x.fractionField / 2 ^ w.fractionBits) * (2 : ℚ) ^ (x.exponentField - w.bias)

end Width.Word

/-! ## Sign, significand and exponent -/

/-- The number `± significand · 2 ^ exponent`. -/
def dyadic (negative : Bool) (significand : Nat) (exponent : Int) : ℚ :=
  (if negative then -1 else 1) * (significand * (2 : ℚ) ^ exponent)

theorem dyadic_false (m : Nat) (e : Int) : dyadic false m e = m * (2 : ℚ) ^ e := by
  simp [dyadic]

theorem dyadic_true (m : Nat) (e : Int) : dyadic true m e = -(m * (2 : ℚ) ^ e) := by
  simp [dyadic]

theorem two_zpow_pos (e : Int) : (0 : ℚ) < (2 : ℚ) ^ e := zpow_pos (by norm_num) e

/-- What is divided by a power of two can be scaled by a lesser one instead. -/
theorem div_mul_zpow (q : ℚ) (p : Nat) (e : Int) : q / 2 ^ p * (2 : ℚ) ^ e = q * (2 : ℚ) ^ (e - p) := by
  rw [zpow_sub₀ (by norm_num), zpow_natCast]
  ring

/-- What is shifted to the left can be scaled by a greater power of two instead. -/
theorem shiftLeft_mul_zpow (m count : Nat) (e : Int) :
    ((m <<< count : Nat) : ℚ) * (2 : ℚ) ^ e = m * (2 : ℚ) ^ (e + count) := by
  rw [Nat.shiftLeft_eq, zpow_add₀ (by norm_num), zpow_natCast]
  push_cast
  ring

namespace FloatValue

theorem sign_eq (x : w.Word) : ((-1) ^ x.signField : ℚ) = if x.isNegative then -1 else 1 := by
  have hx := x.toNat_lt
  have hbits : 2 ^ w.bits = 2 * 2 ^ (w.bits - 1) := by cases w <;> rfl
  rw [Word.isNegative_eq, BitVec.msb_eq_decide, Word.toNat_toBitVec, Word.signField]
  by_cases hsign : 2 ^ (w.bits - 1) ≤ x.toNat
  · have hone : x.toNat / 2 ^ (w.bits - 1) = 1 := Nat.div_eq_of_lt_le (by omega) (by omega)
    simp [hsign, hone]
  · have hzero : x.toNat / 2 ^ (w.bits - 1) = 0 := Nat.div_eq_of_lt (by omega)
    simp [hsign, hzero]

/-- What bits denote, by their fields. -/
theorem ofBits_eq (x : w.Word) :
    ofBits w x =
      if x.exponentField = 2 ^ w.exponentBits - 1 then
        if x.fractionField = 0 then infinite x.isNegative else nan
      else if x.exponentField = 0 then finite x.isNegative x.fractionField (1 - w.bias - w.fractionBits)
      else finite x.isNegative (2 ^ w.fractionBits + x.fractionField)
        (x.exponentField - w.bias - w.fractionBits) := by
  have hleast : w.minExponent = 1 - w.bias - w.fractionBits := by cases w <;> rfl
  have hexponent : x.exponent = x.exponentField := Word.exponent_eq x
  have hfraction : x.fraction = x.fractionField := Word.fraction_eq x
  simp only [ofBits, hexponent, hfraction, Width.topExponent_eq, Width.fractionUnit_eq, hleast]
  split
  · rfl
  · split
    · rfl
    · rename_i hpos
      congr 1
      omega

theorem ofBits_eq_nan_iff {x : w.Word} : ofBits w x = nan ↔ x.IsNaN := by
  rw [ofBits_eq, Word.IsNaN]
  split
  · split <;> simp [*]
  · rename_i hfinite
    split <;> simp [hfinite]

theorem not_isFinite_of_infinite {x : w.Word} {negative : Bool} (h : ofBits w x = infinite negative) :
    ¬ x.IsFinite := by
  rw [ofBits_eq] at h
  split at h
  · simpa [Word.IsFinite]
  · split at h <;> cases h

/-- **Finite floats** denote the number that their sign, significand and exponent make up, and the
    significand has one bit more than the fraction. -/
theorem of_ofBits_finite {x : w.Word} {negative : Bool} {m : Nat} {e : Int}
    (h : ofBits w x = finite negative m e) :
    x.IsFinite ∧ x.value = dyadic negative m e ∧ m < 2 ^ (w.fractionBits + 1) := by
  have hfraction : x.fractionField < 2 ^ w.fractionBits := Nat.mod_lt _ (Nat.two_pow_pos _)
  rw [ofBits_eq] at h
  rw [Nat.pow_succ, Word.value, sign_eq, dyadic]
  split at h
  · split at h <;> cases h
  · rename_i hfinite
    split at h
    · rename_i hzero
      cases h
      refine ⟨hfinite, ?_, by omega⟩
      rw [if_pos hzero, div_mul_zpow]
    · rename_i hpos
      cases h
      refine ⟨hfinite, ?_, by omega⟩
      have hlead : (1 : ℚ) + x.fractionField / 2 ^ w.fractionBits =
          ((2 ^ w.fractionBits + x.fractionField : Nat) : ℚ) / 2 ^ w.fractionBits := by
        push_cast
        field_simp
      rw [if_neg hpos, hlead, div_mul_zpow]

/-! ## Order -/

/-- Significands that are brought to the same exponent. -/
theorem aligned_eq (m : Nat) (e : Int) (n : Nat) (f : Int) :
    (m * (2 : ℚ) ^ e = (aligned m e n f).1 * (2 : ℚ) ^ min e f) ∧
      (n * (2 : ℚ) ^ f = (aligned m e n f).2 * (2 : ℚ) ^ min e f) := by
  unfold aligned
  split
  · rename_i hle
    rw [min_eq_left hle, shiftLeft_mul_zpow]
    refine ⟨rfl, ?_⟩
    congr 2
    omega
  · rename_i hlt
    rw [min_eq_right (by omega), shiftLeft_mul_zpow]
    refine ⟨?_, rfl⟩
    congr 2
    omega

theorem natCast_mul_lt {u : ℚ} (hu : 0 < u) (a b : Nat) : (a : ℚ) * u < b * u ↔ a < b := by
  rw [mul_lt_mul_iff_left₀ hu, Nat.cast_lt]

/-- Numbers on both sides of zero differ unless both are zero. -/
theorem neg_natCast_mul_lt {u : ℚ} (hu : 0 < u) (a b : Nat) :
    -((a : ℚ) * u) < b * u ↔ ¬ (a = 0 ∧ b = 0) := by
  rw [neg_lt_iff_pos_add, ← add_mul, mul_pos_iff_of_pos_right hu, ← Nat.cast_add, Nat.cast_pos]
  omega

/-- **Comparison is that of rational numbers.** -/
theorem order_finite (s : Bool) (m : Nat) (e : Int) (t : Bool) (n : Nat) (f : Int) :
    (order (finite s m e) (finite t n f) = some .lt ↔ dyadic s m e < dyadic t n f) ∧
      (order (finite s m e) (finite t n f) = some .gt ↔ dyadic t n f < dyadic s m e) := by
  obtain ⟨hm, hn⟩ := aligned_eq m e n f
  have hunit := two_zpow_pos (min e f)
  simp only [order, dyadic, hm, hn, Option.some.injEq]
  generalize (aligned m e n f).1 = a
  generalize (aligned m e n f).2 = b
  generalize (2 : ℚ) ^ min e f = u at hunit
  have hnonneg : ∀ k : Nat, 0 ≤ (k : ℚ) * u := fun k => mul_nonneg k.cast_nonneg hunit.le
  cases s <;> cases t
  · simp [natCast_mul_lt hunit, Nat.compare_eq_lt, Nat.compare_eq_gt]
  · -- one is not negative and the other not positive
    have hnot : ¬ ((a : ℚ) * u < -(b * u)) := by linarith [hnonneg a, hnonneg b]
    have hlt := neg_natCast_mul_lt hunit b a
    rw [and_comm] at hlt
    by_cases hzero : a = 0 ∧ b = 0
    · simp [hzero]
    · simp [hzero, hnot, hlt]
  · have hnot : ¬ ((b : ℚ) * u < -(a * u)) := by linarith [hnonneg a, hnonneg b]
    have hlt := neg_natCast_mul_lt hunit a b
    by_cases hzero : a = 0 ∧ b = 0
    · simp [hzero]
    · simp [hzero, hnot, hlt]
  · simp [natCast_mul_lt hunit, Nat.compare_eq_lt, Nat.compare_eq_gt]

end FloatValue

/-! ## Integer parts -/

/-- The integer that is left of a number toward zero. -/
def truncated (q : ℚ) : Int := if 0 ≤ q then ⌊q⌋ else ⌈q⌉

theorem truncated_neg (q : ℚ) : truncated (-q) = -truncated q := by
  unfold truncated
  rcases lt_trichotomy q 0 with hq | rfl | hq
  · rw [if_pos (by linarith), if_neg (by linarith), Int.floor_neg]
  · simp
  · rw [if_neg (by linarith), if_pos hq.le, Int.ceil_neg]

/-- An integer part is below a positive integer exactly if the number is. -/
theorem truncated_lt_iff {q : ℚ} {i : Int} (hi : 0 < i) : truncated q < i ↔ q < i := by
  have hi' : (0 : ℚ) < i := by exact_mod_cast hi
  unfold truncated
  split
  · exact Int.floor_lt
  · rename_i hq
    have hceil : ⌈q⌉ ≤ 0 := Int.ceil_le.mpr (by push_cast; linarith)
    constructor
    · intro _; linarith
    · intro _; omega

/-- An integer part reaches an integer that is not positive exactly if the number is past the one
    before. -/
theorem le_truncated_iff {q : ℚ} {i : Int} (hi : i ≤ 0) : i ≤ truncated q ↔ (i : ℚ) - 1 < q := by
  have h := truncated_lt_iff (q := -q) (show 0 < -i + 1 by omega)
  rw [truncated_neg] at h
  push_cast at h
  constructor
  · intro hle; linarith [h.mp (by omega)]
  · intro hlt; have := h.mpr (by linarith); omega

namespace FloatValue

/-- The integer part of a number that is not negative. -/
theorem integerPart_false (m : Nat) (e : Int) : integerPart false m e = ⌊(m : ℚ) * (2 : ℚ) ^ e⌋ := by
  unfold integerPart
  simp only [Bool.false_eq_true, if_false]
  split
  · rename_i he
    have h := shiftLeft_mul_zpow m e.toNat 0
    rw [zpow_zero, mul_one, Int.toNat_of_nonneg he, zero_add] at h
    rw [← h, Int.floor_natCast]
  · rename_i he
    have hpow : (m : ℚ) * (2 : ℚ) ^ e = (m : ℚ) / ((2 ^ (-e).toNat : Nat) : ℚ) := by
      have h := div_mul_zpow m (-e).toNat 0
      rw [zpow_zero, mul_one, show (0 : Int) - (-e).toNat = e by omega] at h
      rw [← h]
      push_cast
      rfl
    rw [hpow, Rat.floor_natCast_div_natCast, Nat.shiftRight_eq_div_pow]
    push_cast
    rfl

/-- **The integer part is the number truncated toward zero.** -/
theorem integerPart_eq (negative : Bool) (m : Nat) (e : Int) :
    integerPart negative m e = truncated (dyadic negative m e) := by
  have hnonneg : (0 : ℚ) ≤ m * (2 : ℚ) ^ e := mul_nonneg m.cast_nonneg (two_zpow_pos e).le
  have hfalse : integerPart false m e = truncated (m * (2 : ℚ) ^ e) := by
    rw [integerPart_false, truncated, if_pos hnonneg]
  cases negative with
  | false => rw [hfalse, dyadic_false]
  | true =>
    have htrue : integerPart true m e = -integerPart false m e := rfl
    rw [htrue, hfalse, dyadic_true, truncated_neg]

end FloatValue

/-! ## Gaps -/

/-- **There are no floats just above a power of two**: with `p + 1` bits, the next number after `2 ^ k` is
    `2 ^ (k - p)` away. -/
theorem gap {m p k : Nat} {e : Int} (hm : m < 2 ^ (p + 1)) (hp : p ≤ k)
    (h : (2 : ℚ) ^ k < m * (2 : ℚ) ^ e) : (2 : ℚ) ^ k + 2 ^ (k - p) ≤ m * (2 : ℚ) ^ e := by
  have hexponent : (k : Int) - p ≤ e := by
    have hlt : (2 : ℚ) ^ (k : Int) < (2 : ℚ) ^ ((p : Int) + 1 + e) := by
      calc (2 : ℚ) ^ (k : Int) < m * (2 : ℚ) ^ e := by rwa [zpow_natCast]
        _ ≤ (2 : ℚ) ^ (p + 1) * (2 : ℚ) ^ e := by
            refine mul_le_mul_of_nonneg_right ?_ (two_zpow_pos e).le
            exact_mod_cast hm.le
        _ = (2 : ℚ) ^ ((p : Int) + 1 + e) := by
            rw [zpow_add₀ (by norm_num) _ e]
            norm_cast
    have := (zpow_lt_zpow_iff_right₀ (by norm_num)).mp hlt
    omega
  -- So both are whole multiples of `2 ^ (k - p)`.
  obtain ⟨j, rfl⟩ : ∃ j : Nat, e = (k - p : Nat) + j := ⟨(e - (k - p : Nat)).toNat, by omega⟩
  have hscaled : (m : ℚ) * (2 : ℚ) ^ (((k - p : Nat) : Int) + j) = ((m * 2 ^ j : Nat) : ℚ) * 2 ^ (k - p) := by
    rw [zpow_add₀ (by norm_num), zpow_natCast, zpow_natCast]
    push_cast
    ring
  have hpower : (2 : ℚ) ^ k = ((2 ^ p : Nat) : ℚ) * 2 ^ (k - p) := by
    push_cast
    rw [← pow_add]
    congr 1
    omega
  have hunit : (0 : ℚ) < 2 ^ (k - p) := by positivity
  rw [hscaled, hpower] at h ⊢
  have hlt : 2 ^ p < m * 2 ^ j := (FloatValue.natCast_mul_lt hunit _ _).mp h
  calc ((2 ^ p : Nat) : ℚ) * 2 ^ (k - p) + 2 ^ (k - p) = ((2 ^ p + 1 : Nat) : ℚ) * 2 ^ (k - p) := by
        push_cast
        ring
    _ ≤ ((m * 2 ^ j : Nat) : ℚ) * 2 ^ (k - p) := by
        refine mul_le_mul_of_nonneg_right ?_ hunit.le
        exact_mod_cast hlt

end WasmCore
