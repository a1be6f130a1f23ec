import WasmCore.Word

/-!
# Floating-point numbers

The bits of a float denote a NaN, an infinity, or a finite number `± significand · 2 ^ exponent`.
Numbers are computed exactly and rounded once, to the nearest float, halves to the one with an even
significand. Every operation that has to make up a NaN gives the same one.

## Contents

* `Width.fractionBits`, `Width.exponentBits`, `Width.minExponent`: the two formats;
* `Word.fraction`, `Word.exponent`: the fields of a float;
* `FloatValue`, `FloatValue.ofBits`: what the bits of a float denote;
* `shiftRounding`, `FloatValue.magnitude`, `FloatValue.toBits`: the nearest float to a number.
-/

namespace WasmCore

-- Powers of numbers are those of the core library.
attribute [local instance (high)] instPowNat

/-! ## Formats -/

namespace Width

/-- Number of bits of the fraction field. -/
def fractionBits : Width → Nat
  | w32 => 23
  | w64 => 52

/-- Number of bits of the exponent field. -/
def exponentBits : Width → Nat
  | w32 => 8
  | w64 => 11

/-- Every finite float is a multiple of two to this power. -/
def minExponent : Width → Int
  | w32 => -149
  | w64 => -1074

/-- Two to the number of bits of the fraction field. -/
def fractionUnit : Width → Nat
  | w32 => 0x800000
  | w64 => 0x10000000000000

/-- The exponent field of infinities and NaNs: all bits. -/
def topExponent : Width → Nat
  | w32 => 0xff
  | w64 => 0x7ff

/-- The bits of positive infinity. Below are the finite magnitudes, above are the NaNs. -/
def infinityBits : Width → Nat
  | w32 => 0x7f800000
  | w64 => 0x7ff0000000000000

/-- The bits of the NaN that operations give. -/
def nanBits : Width → Nat
  | w32 => 0x7fc00000
  | w64 => 0x7ff8000000000000

theorem fractionUnit_eq (w : Width) : w.fractionUnit = 2 ^ w.fractionBits := by
  cases w <;> rfl

theorem topExponent_eq (w : Width) : w.topExponent = 2 ^ w.exponentBits - 1 := by
  cases w <;> rfl

/-! ## Fields -/

/-- The fraction field of a float. -/
def Word.fraction : {w : Width} → w.Word → Nat
  | .w32, x => (UInt32.land x 0x7fffff).toNat
  | .w64, x => (UInt64.land x 0xfffffffffffff).toNat

/-- The exponent field of a float. -/
def Word.exponent : {w : Width} → w.Word → Nat
  | .w32, x => (UInt32.land (UInt32.shiftRight x 23) 0xff).toNat
  | .w64, x => (UInt64.land (UInt64.shiftRight x 52) 0x7ff).toNat

theorem Word.fraction_eq {w : Width} (x : w.Word) :
    x.fraction = x.toNat % 2 ^ w.fractionBits := by
  cases w
  · exact (UInt32.toNat_and x 0x7fffff).trans (Nat.and_two_pow_sub_one_eq_mod _ 23)
  · exact (UInt64.toNat_and x 0xfffffffffffff).trans (Nat.and_two_pow_sub_one_eq_mod _ 52)

theorem Word.exponent_eq {w : Width} (x : w.Word) :
    x.exponent = x.toNat / 2 ^ w.fractionBits % 2 ^ w.exponentBits := by
  cases w
  · refine (UInt32.toNat_and (x >>> 23) 0xff).trans ?_
    rw [UInt32.toNat_shiftRight]
    exact (Nat.and_two_pow_sub_one_eq_mod _ 8).trans (by rw [Nat.shiftRight_eq_div_pow]; rfl)
  · refine (UInt64.toNat_and (x >>> 52) 0x7ff).trans ?_
    rw [UInt64.toNat_shiftRight]
    exact (Nat.and_two_pow_sub_one_eq_mod _ 11).trans (by rw [Nat.shiftRight_eq_div_pow]; rfl)

end Width

/-! ## What bits denote -/

/-- What a float denotes. -/
inductive FloatValue
  | nan
  | infinite (negative : Bool)
  /-- The number `significand · 2 ^ exponent`, with a sign that a zero has as well. -/
  | finite (negative : Bool) (significand : Nat) (exponent : Int)
  deriving DecidableEq

namespace FloatValue

/-- What the bits of a float denote. -/
def ofBits (w : Width) (x : w.Word) : FloatValue :=
  let negative := x.isNegative
  let fraction := x.fraction
  let exponent := x.exponent
  if exponent = w.topExponent then
    if fraction = 0 then infinite negative else nan
  else if exponent = 0 then
    finite negative fraction w.minExponent
  else
    finite negative (w.fractionUnit + fraction) (w.minExponent + (exponent - 1 : Nat))

end FloatValue

/-! ## Rounding -/

/-- The integer nearest to `n / 2 ^ count`, halves to the even one. -/
def shiftRounding (n count : Nat) : Nat :=
  let quotient := n >>> count
  let twice := 2 * (n % 2 ^ count)
  if 2 ^ count < twice ∨ (twice = 2 ^ count ∧ quotient % 2 = 1) then quotient + 1 else quotient

namespace FloatValue

/-- The bits, without the sign, of the float nearest to `significand · 2 ^ exponent`. A significand
that rounds up to the next power of two carries into the exponent field by itself, and what is too
large becomes infinity. -/
def magnitude (w : Width) (significand : Nat) (exponent : Int) : Nat :=
  if significand = 0 then 0
  else
    let target := max w.minExponent (exponent + significand.log2 - w.fractionBits)
    let rounded :=
      if target ≤ exponent then significand <<< (exponent - target).toNat
      else shiftRounding significand (target - exponent).toNat
    min w.infinityBits ((target - w.minExponent).toNat * w.fractionUnit + rounded)

/-- The bits of a sign and a magnitude. -/
def signed (w : Width) (negative : Bool) (magnitude : Nat) : w.Word :=
  if negative then .or .intMin (.ofNat magnitude) else .ofNat magnitude

/-- The bits of the float nearest to a number. -/
def toBits (w : Width) : FloatValue → w.Word
  | nan => .ofNat w.nanBits
  | infinite negative => signed w negative w.infinityBits
  | finite negative significand exponent => signed w negative (magnitude w significand exponent)

end FloatValue

end WasmCore
