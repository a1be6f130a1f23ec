import WasmCore.Proofs.Numeric.Dyadic
import WasmCore.Proofs.Numeric.Instructions

/-!
# `Numeric.Truncation` — floats to integers

A float is turned into an integer by cutting off its fraction. Whether the result is in range is decided
before, by comparing the float with two others, the nearest ones out of range. That decides it for floats,
though not for all numbers: between a bound and the range there may be numbers that no float denotes.

* `bounds_exact`: the bounds are floats themselves;
* `between_bounds_iff`: **a float lies between the bounds exactly if its integer part is in range**;
* `truncation_exact`: **truncation traps exactly outside of the range**, and gives the integer part inside.
-/

namespace WasmCore

-- Powers of natural numbers are those of the core library.
attribute [local instance (high)] instPowNat

open Width (Word)
open FloatValue (ofBits)

variable {w v : Width} {s : Signedness}

/-! ## Bounds -/

/-- The bounds are floats themselves, so that nothing is lost when they are rounded. -/
theorem bounds_exact : ∀ w v s,
    (∃ m e, ofBits w (nearestFloat w (truncationBounds w v s).1) = .finite true m e ∧
      dyadic true m e = (truncationBounds w v s).1) ∧
    (∃ m e, ofBits w (nearestFloat w (truncationBounds w v s).2) = .finite false m e ∧
      dyadic false m e = (truncationBounds w v s).2)
  | .w32, .w32, .signed =>
    ⟨⟨2 ^ 23 + 1, 8, by decide +kernel, by norm_num [dyadic, truncationBounds]⟩,
      2 ^ 23, 8, by decide +kernel, by norm_num [dyadic, truncationBounds]⟩
  | .w32, .w32, .unsigned =>
    ⟨⟨2 ^ 23, -23, by decide +kernel, by norm_num [dyadic, truncationBounds]⟩,
      2 ^ 23, 9, by decide +kernel, by norm_num [dyadic, truncationBounds]⟩
  | .w32, .w64, .signed =>
    ⟨⟨2 ^ 23 + 1, 40, by decide +kernel, by norm_num [dyadic, truncationBounds]⟩,
      2 ^ 23, 40, by decide +kernel, by norm_num [dyadic, truncationBounds]⟩
  | .w32, .w64, .unsigned =>
    ⟨⟨2 ^ 23, -23, by decide +kernel, by norm_num [dyadic, truncationBounds]⟩,
      2 ^ 23, 41, by decide +kernel, by norm_num [dyadic, truncationBounds]⟩
  | .w64, .w32, .signed =>
    ⟨⟨2 ^ 52 + 2 ^ 21, -21, by decide +kernel, by norm_num [dyadic, truncationBounds]⟩,
      2 ^ 52, -21, by decide +kernel, by norm_num [dyadic, truncationBounds]⟩
  | .w64, .w32, .unsigned =>
    ⟨⟨2 ^ 52, -52, by decide +kernel, by norm_num [dyadic, truncationBounds]⟩,
      2 ^ 52, -20, by decide +kernel, by norm_num [dyadic, truncationBounds]⟩
  | .w64, .w64, .signed =>
    ⟨⟨2 ^ 52 + 1, 11, by decide +kernel, by norm_num [dyadic, truncationBounds]⟩,
      2 ^ 52, 11, by decide +kernel, by norm_num [dyadic, truncationBounds]⟩
  | .w64, .w64, .unsigned =>
    ⟨⟨2 ^ 52, -52, by decide +kernel, by norm_num [dyadic, truncationBounds]⟩,
      2 ^ 52, 12, by decide +kernel, by norm_num [dyadic, truncationBounds]⟩

/-- Below the least signed integer there is no float for as far as the significand is short of bits. -/
theorem lower_iff {negative : Bool} {m p k : Nat} {e : Int} (hm : m < 2 ^ (p + 1)) (hp : p ≤ k) :
    -((2 : ℚ) ^ k + 2 ^ (k - p)) < dyadic negative m e ↔ -(2 : ℚ) ^ k - 1 < dyadic negative m e := by
  have hunit : (1 : ℚ) ≤ 2 ^ (k - p) := one_le_pow₀ (by norm_num)
  constructor
  · intro h
    cases negative with
    | false =>
      have hnonneg : (0 : ℚ) ≤ dyadic false m e := by
        rw [dyadic_false]
        exact mul_nonneg m.cast_nonneg (two_zpow_pos e).le
      have hpow : (0 : ℚ) < 2 ^ k := by positivity
      linarith
    | true =>
      rw [dyadic_true] at h ⊢
      -- If it were below the range, it would be at the bound already.
      by_contra hbelow
      have hgap := gap (e := e) hm hp (by linarith)
      linarith
  · intro h
    linarith

/-- The lower bound is the integer before the least one, or the float before it if that integer is no
    float. -/
theorem lower_bound_eq (w v : Width) (s : Signedness) :
    (truncationBounds w v s).1 = s.least v - 1 ∨
      ∃ k, w.fractionBits ≤ k ∧ s.least v = -2 ^ k ∧
        (truncationBounds w v s).1 = -(2 ^ k + 2 ^ (k - w.fractionBits)) :=
  match w, v, s with
  | .w32, .w32, .signed => .inr ⟨31, by decide, rfl, rfl⟩
  | .w32, .w64, .signed => .inr ⟨63, by decide, rfl, rfl⟩
  | .w64, .w64, .signed => .inr ⟨63, by decide, rfl, rfl⟩
  | .w64, .w32, .signed => .inl rfl
  | .w32, .w32, .unsigned => .inl rfl
  | .w32, .w64, .unsigned => .inl rfl
  | .w64, .w32, .unsigned => .inl rfl
  | .w64, .w64, .unsigned => .inl rfl

/-- **A float lies between the bounds exactly if its integer part is in range.** -/
theorem between_bounds_iff (v : Width) (s : Signedness) {negative : Bool} {m : Nat} {e : Int}
    (hm : m < 2 ^ (w.fractionBits + 1)) :
    (((truncationBounds w v s).1 : ℚ) < dyadic negative m e ∧
      dyadic negative m e < ((truncationBounds w v s).2 : ℚ)) ↔
    s.least v ≤ truncated (dyadic negative m e) ∧ truncated (dyadic negative m e) < s.bound v := by
  have hleast : s.least v ≤ 0 := by cases s <;> cases v <;> decide
  have hbound : 0 < s.bound v := by cases s <;> cases v <;> decide
  have hupper : (truncationBounds w v s).2 = s.bound v := by cases w <;> cases v <;> cases s <;> rfl
  rw [le_truncated_iff hleast, truncated_lt_iff hbound, hupper]
  refine and_congr_left fun _ => ?_
  obtain hnext | ⟨k, hp, hpower, hlower⟩ := lower_bound_eq w v s
  · rw [hnext]
    push_cast
    rfl
  · rw [hlower, hpower]
    push_cast
    exact lower_iff hm hp

/-! ## Comparison with the bounds -/

/-- What a float that denotes a number is found to be when it is compared with the bounds. -/
theorem guard_iff (v : Width) (s : Signedness) {x : w.Word} {negative : Bool} {m : Nat} {e : Int}
    (h : ofBits w x = .finite negative m e) :
    (FloatCompare.gt.eval x (nearestFloat w (truncationBounds w v s).1) ∧
      FloatCompare.lt.eval x (nearestFloat w (truncationBounds w v s).2)) ↔
    s.least v ≤ truncated x.value ∧ truncated x.value < s.bound v := by
  obtain ⟨-, hvalue, hm⟩ := FloatValue.of_ofBits_finite h
  obtain ⟨⟨m₁, e₁, hlower, hlower_eq⟩, m₂, e₂, hupper, hupper_eq⟩ := bounds_exact w v s
  have hgt := (FloatValue.order_finite negative m e true m₁ e₁).2
  have hlt := (FloatValue.order_finite negative m e false m₂ e₂).1
  rw [hvalue, ← between_bounds_iff v s hm, ← hlower_eq, ← hupper_eq, ← hgt, ← hlt]
  simp only [FloatCompare.eval, h, hlower, hupper, decide_eq_true_iff]

/-- No infinity lies between the bounds. -/
theorem not_guard_of_infinite (v : Width) (s : Signedness) {x : w.Word} {negative : Bool}
    (h : ofBits w x = .infinite negative) :
    ¬ (FloatCompare.gt.eval x (nearestFloat w (truncationBounds w v s).1) ∧
      FloatCompare.lt.eval x (nearestFloat w (truncationBounds w v s).2)) := by
  obtain ⟨⟨m₁, e₁, hlower, -⟩, m₂, e₂, hupper, -⟩ := bounds_exact w v s
  simp only [FloatCompare.eval, h, hlower, hupper, FloatValue.order, decide_eq_true_iff]
  cases negative <;> simp

/-! ## Truncation -/

/-- The integer part of a float that denotes a number is in the range of a type. -/
def Width.Word.FitsIn (x : w.Word) (v : Width) (s : Signedness) : Prop :=
  x.IsFinite ∧ s.least v ≤ truncated x.value ∧ truncated x.value < s.bound v

/-- What becomes of a float is decided by what it denotes. -/
theorem truncateFloat_spec (v : Width) (s : Signedness) (x : w.Word) :
    (x.IsNaN ∧ truncateFloat w v s x = .error .invalidConversion) ∨
    (¬ x.IsNaN ∧ x.FitsIn v s ∧ truncateFloat w v s x = .ok (.ofInt (truncated x.value))) ∨
    (¬ x.IsNaN ∧ ¬ x.FitsIn v s ∧ truncateFloat w v s x = .error .integerOverflow) := by
  by_cases hnan : ofBits w x = .nan
  · refine .inl ⟨FloatValue.ofBits_eq_nan_iff.mp hnan, ?_⟩
    rw [truncateFloat, if_pos hnan]
  · right
    rw [← FloatValue.ofBits_eq_nan_iff, truncateFloat, if_neg hnan]
    cases hx : ofBits w x with
    | nan => exact absurd hx hnan
    | infinite negative =>
      refine .inr ⟨by simp, ?_, if_neg (not_guard_of_infinite v s hx)⟩
      exact fun hrange => FloatValue.not_isFinite_of_infinite hx hrange.1
    | finite negative m e =>
      obtain ⟨hfinite, hvalue, -⟩ := FloatValue.of_ofBits_finite hx
      have hguard := guard_iff v s hx
      by_cases hrange : s.least v ≤ truncated x.value ∧ truncated x.value < s.bound v
      · refine .inl ⟨by simp, ⟨hfinite, hrange⟩, ?_⟩
        have hclamp : (FloatValue.finite negative m e).clamped v s = .ofInt (truncated x.value) := by
          rw [FloatValue.clamped, FloatValue.integerPart_eq, ← hvalue, min_eq_left (by omega),
            max_eq_right hrange.1]
        rw [if_pos (hguard.mpr hrange), hclamp]
      · exact .inr ⟨by simp, fun h => hrange h.2, if_neg (mt hguard.mp hrange)⟩

theorem gives_truncate (v : Width) (s : Signedness) (x : w.Word) :
    (NumOp.convert (.truncate w v s)).Gives [.float w x] ((truncateFloat w v s x).map (.int v)) := by
  apply NumOp.gives_of_eval
  intro below
  have hpop : OperandM.popFloat w (below.pushAll [.float w x]) = .ok x below :=
    OperandM.popFloat_push w x below
  show Conversion.eval (.truncate w v s) (below.pushAll [.float w x]) = _
  rw [Conversion.eval, Move.bind_of_ok hpop]
  cases truncateFloat w v s x with
  | ok r => rfl
  | error t => rfl

/-- **How a float is turned into an integer of a type.** -/
structure TruncatesExactly (w v : Width) (s : Signedness) (x : w.Word) : Prop where
  /-- What denotes no number at all is told apart from what is out of range. -/
  invalid : (NumOp.convert (.truncate w v s)).Gives [.float w x] (.error .invalidConversion) ↔ x.IsNaN
  /-- The result is the integer part, without any rounding. -/
  exact : x.FitsIn v s → ∃ r, (NumOp.convert (.truncate w v s)).Gives [.float w x] (.ok (.int v r)) ∧
    s.read r = truncated x.value
  overflow : (NumOp.convert (.truncate w v s)).Gives [.float w x] (.error .integerOverflow) ↔
    ¬ x.IsNaN ∧ ¬ x.FitsIn v s

/-- **Truncation traps exactly outside of the range of the integers**, for floats and integers of both
    widths, with and without a sign. -/
theorem truncation_exact (w v : Width) (s : Signedness) (x : w.Word) : TruncatesExactly w v s x := by
  have hgives := gives_truncate v s x
  constructor
  · rw [hgives.iff_eq]
    rcases truncateFloat_spec v s x with ⟨hnan, h⟩ | ⟨hnan, -, h⟩ | ⟨hnan, -, h⟩ <;>
      simp [h, hnan, Except.map]
  · intro hrange
    rcases truncateFloat_spec v s x with ⟨hnan, -⟩ | ⟨-, -, h⟩ | ⟨-, hout, -⟩
    · exact absurd hnan.1 hrange.1
    · rw [h] at hgives
      exact ⟨_, hgives, Signedness.read_ofInt hrange.2.1 hrange.2.2⟩
    · exact absurd hrange hout
  · rw [hgives.iff_eq]
    rcases truncateFloat_spec v s x with ⟨hnan, h⟩ | ⟨hnan, hin, h⟩ | ⟨hnan, hout, h⟩ <;>
      simp [*, Except.map]

end WasmCore
