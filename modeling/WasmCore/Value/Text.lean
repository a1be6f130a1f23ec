import WasmCore.Value
import WasmCore.Numeric.Float
import WasmCore.Decimal.Shortest

/-!
# Text of values

A value is written as its type and its number: `i32:-1`, `f32:0.1`. Integers are signed. A float is
written with the fewest digits that round back to it at its width, `NaN`, `inf` or `-inf`; a zero
shows its sign.
-/

namespace WasmCore

-- Powers of numbers are those of the core library.
attribute [local instance (high)] instPowNat

/-- The reals that round to the float `significand · 2 ^ exponent`. The float below a power of two
is only half as far away, and ties go to the float with an even significand. -/
def floatBracket (w : Width) (significand : Nat) (exponent : Int) : Decimal.Bracket :=
  let scale := 2 ^ (exponent - 2).toNat
  let narrow := significand = w.fractionUnit ∧ w.minExponent < exponent
  { unit := 2 ^ (2 - exponent).toNat
    low := (4 * significand - (if narrow then 1 else 2)) * scale
    value := 4 * significand * scale
    high := (4 * significand + 2) * scale
    closed := significand % 2 = 0 }

/-- Text of the bits of a float. -/
def floatText (w : Width) (x : w.Word) : String :=
  let sign (negative : Bool) : String := if negative then "-" else ""
  match FloatValue.ofBits w x with
  | .nan => "NaN"
  | .infinite negative => sign negative ++ "inf"
  | .finite negative significand exponent =>
    if significand = 0 then sign negative ++ "0"
    else
      let (n, k) := (floatBracket w significand exponent).shortest
      sign negative ++ Decimal.positional n k

/-- Text of a value: its type, a colon and its number. -/
def Value.text : Value → String
  | i32 x => s!"i32:{x.toInt32.toInt}"
  | i64 x => s!"i64:{x.toInt64.toInt}"
  | f32 x => "f32:" ++ floatText .w32 x
  | f64 x => "f64:" ++ floatText .w64 x

end WasmCore
