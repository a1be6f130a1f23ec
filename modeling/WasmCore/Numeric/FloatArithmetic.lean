import WasmCore.Instr
import WasmCore.Trap
import WasmCore.Numeric.Float
import WasmCore.Numeric.Integer

/-!
# Float arithmetic

Operations on the numbers that floats denote. Sums and products are exact; a quotient or a root
that is no multiple of a power of two is cut off far enough below the last bit that counts, with
one more bit that says that something was cut off, which rounds like the exact number.

## Contents

* `FloatValue.add`, `mul`, `div`, `sqrt`, `toInteger`: operations on numbers;
* `FloatValue.order`: comparison, undefined where a NaN takes part;
* `FloatUnary.eval`, `FloatBinary.eval`, `FloatCompare.eval`: the instructions, on bits;
* `truncationBounds`, `truncateFloat`, `convertInteger`, `convertFloat`: conversions.
-/

namespace WasmCore

-- Powers of numbers are those of the core library.
attribute [local instance (high)] instPowNat

namespace FloatValue

/-! ## Sums and products -/

/-- The negative of a number. -/
def neg : FloatValue → FloatValue
  | nan => nan
  | infinite s => infinite (!s)
  | finite s m e => finite (!s) m e

/-- Two significands brought to the lesser one of their exponents. -/
def aligned (m : Nat) (e : Int) (n : Nat) (f : Int) : Nat × Nat :=
  if e ≤ f then (m, n <<< (f - e).toNat) else (m <<< (e - f).toNat, n)

/-- The sum. Opposite numbers give a positive zero. -/
def add : FloatValue → FloatValue → FloatValue
  | nan, _ => nan
  | _, nan => nan
  | infinite s, infinite t => if s = t then infinite s else nan
  | infinite s, finite _ _ _ => infinite s
  | finite _ _ _, infinite t => infinite t
  | finite s m e, finite t n f =>
    let (a, b) := aligned m e n f
    if s = t then finite s (a + b) (min e f)
    else if a = b then finite false 0 (min e f)
    else if b < a then finite s (a - b) (min e f)
    else finite t (b - a) (min e f)

/-- The product. -/
def mul : FloatValue → FloatValue → FloatValue
  | nan, _ => nan
  | _, nan => nan
  | infinite s, infinite t => infinite (s ^^ t)
  | infinite s, finite t n _ => if n = 0 then nan else infinite (s ^^ t)
  | finite s m _, infinite t => if m = 0 then nan else infinite (s ^^ t)
  | finite s m e, finite t n f => finite (s ^^ t) (m * n) (e + f)

/-! ## Quotients and roots -/

/-- A significand followed by one bit that says whether anything was cut off. -/
def withRest (significand : Nat) (exact : Bool) : Nat := 2 * significand + (!exact).toNat

/-- The quotient, which rounds at the given width like the exact one. -/
def div (w : Width) : FloatValue → FloatValue → FloatValue
  | nan, _ => nan
  | _, nan => nan
  | infinite _, infinite _ => nan
  | infinite s, finite t _ _ => infinite (s ^^ t)
  | finite s _ _, infinite t => finite (s ^^ t) 0 0
  | finite s m e, finite t n f =>
    if n = 0 then
      if m = 0 then nan else infinite (s ^^ t)
    else
      let shift := w.fractionBits + 4 + n.log2 - m.log2
      let scaled := m <<< shift
      finite (s ^^ t) (withRest (scaled / n) (scaled % n = 0)) (e - f - shift - 1)

/-- The largest `r` with `r ^ 2 ≤ n`, given a number that is not below it. The mean of a number that
is too large and of what `n` gives when divided by it is nearer and still not below. -/
def rootBelow (n r : Nat) : Nat :=
  let mean := (r + n / r) / 2
  if mean < r then rootBelow n mean else r
termination_by r

/-- The largest `r` with `r ^ 2 ≤ n`. -/
def root (n : Nat) : Nat := rootBelow n (2 ^ (n.log2 / 2 + 1))

/-- The square root, which rounds at the given width like the exact one. -/
def sqrt (w : Width) : FloatValue → FloatValue
  | nan => nan
  | infinite s => if s then nan else infinite s
  | finite s m e =>
    if m = 0 then finite s 0 e
    else if s then nan
    else
      let shift := 2 * (w.fractionBits + 3) - m.log2
      -- the scaled exponent is even
      let shift := if (e - shift) % 2 = 0 then shift else shift + 1
      let scaled := m <<< shift
      let r := root scaled
      finite s (withRest r (r * r = scaled)) ((e - shift) / 2 - 1)

/-! ## Integers near a number -/

/-- Which integer to take for a number between two. -/
inductive Direction
  | down
  | up
  | towardZero
  | nearestEven

/-- An integer near a number. The sign stays, also that of a zero. -/
def toInteger (d : Direction) : FloatValue → FloatValue
  | nan => nan
  | infinite s => infinite s
  | finite s m e =>
    if 0 ≤ e then finite s m e
    else
      let count := (-e).toNat
      let whole := m >>> count
      let exact := m % 2 ^ count = 0
      let n := match d with
        | .down => if s ∧ ¬exact then whole + 1 else whole
        | .up => if ¬s ∧ ¬exact then whole + 1 else whole
        | .towardZero => whole
        | .nearestEven => shiftRounding m count
      finite s n 0

/-- The integer part of `± significand · 2 ^ exponent`. -/
def integerPart (negative : Bool) (significand : Nat) (exponent : Int) : Int :=
  let n : Int :=
    if 0 ≤ exponent then significand <<< exponent.toNat else significand >>> (-exponent).toNat
  if negative then -n else n

/-! ## Order -/

/-- How two numbers compare; a NaN compares with nothing. Both zeros are the same number. -/
def order : FloatValue → FloatValue → Option Ordering
  | nan, _ => none
  | _, nan => none
  | infinite s, infinite t =>
    some (if s = t then .eq else if s then .lt else .gt)
  | infinite s, finite _ _ _ => some (if s then .lt else .gt)
  | finite _ _ _, infinite t => some (if t then .gt else .lt)
  | finite s m e, finite t n f =>
    let (a, b) := aligned m e n f
    some <|
      if s = t then (if s then compare b a else compare a b)
      else if a = 0 ∧ b = 0 then .eq
      else if s then .lt else .gt

/-- Whether a float is a zero, of either sign. -/
def isZero : FloatValue → Bool
  | finite _ m _ => m = 0
  | _ => false

end FloatValue

/-! ## Instructions -/

variable {w : Width}

/-- The bits of a float with the given sign. -/
def withSign (negative : Bool) (x : w.Word) : w.Word :=
  if negative then x.or .intMin else x.and (.not .intMin)

/-- Float operations on one operand. Sign operations touch nothing but the sign, of a NaN too. -/
def FloatUnary.eval (op : FloatUnary) (a : w.Word) : w.Word :=
  let round (d : FloatValue.Direction) := ((FloatValue.ofBits w a).toInteger d).toBits w
  match op with
  | abs => withSign false a
  | neg => withSign (!a.isNegative) a
  | ceil => round .up
  | floor => round .down
  | trunc => round .towardZero
  | nearest => round .nearestEven
  | sqrt => ((FloatValue.ofBits w a).sqrt w).toBits w

/-- The lesser of two floats; a NaN wins, and a negative zero is below a positive one. -/
def floatMin (a b : w.Word) : w.Word :=
  let x := FloatValue.ofBits w a
  let y := FloatValue.ofBits w b
  match x.order y with
  | none => FloatValue.nan.toBits w
  | some o =>
    if x.isZero ∧ y.isZero then (if a.isNegative then a else b)
    else if o = .gt then b else a

/-- The greater of two floats; a NaN wins, and a positive zero is above a negative one. -/
def floatMax (a b : w.Word) : w.Word :=
  let x := FloatValue.ofBits w a
  let y := FloatValue.ofBits w b
  match x.order y with
  | none => FloatValue.nan.toBits w
  | some o =>
    if x.isZero ∧ y.isZero then (if a.isNegative then b else a)
    else if o = .lt then b else a

/-- Float operations on two operands. -/
def FloatBinary.eval (op : FloatBinary) (a b : w.Word) : w.Word :=
  let x := FloatValue.ofBits w a
  let y := FloatValue.ofBits w b
  match op with
  | add => (x.add y).toBits w
  | sub => (x.add y.neg).toBits w
  | mul => (x.mul y).toBits w
  | div => (x.div w y).toBits w
  | min => floatMin a b
  | max => floatMax a b
  | copysign => withSign b.isNegative a

/-- Float comparisons. All but `ne` are false where a NaN takes part. -/
def FloatCompare.eval (op : FloatCompare) (a b : w.Word) : Bool :=
  let o := (FloatValue.ofBits w a).order (FloatValue.ofBits w b)
  match op with
  | eq => o = some .eq
  | ne => o ≠ some .eq
  | lt => o = some .lt
  | gt => o = some .gt
  | le => o = some .lt ∨ o = some .eq
  | ge => o = some .gt ∨ o = some .eq

/-! ## Conversions -/

/-- The integer part of a number as an integer of a width. What is out of range becomes the nearest
integer that is not, and a NaN becomes zero. -/
def FloatValue.clamped (v : Width) (s : Signedness) : FloatValue → v.Word
  | nan => .ofInt 0
  | infinite negative => .ofInt (if negative then s.least v else s.bound v - 1)
  | finite negative m e => .ofInt (max (s.least v) (min (integerPart negative m e) (s.bound v - 1)))

/-- The bits of the float nearest to a whole number. -/
def nearestFloat (w : Width) (i : Int) : w.Word := (FloatValue.finite (i < 0) i.natAbs 0).toBits w

/-- Floats whose integer part is an integer of a type lie between these two, which are the nearest
floats just outside. First the width of the floats is given, then that of the integers. -/
def truncationBounds : (w v : Width) → Signedness → Int × Int
  | .w32, .w32, .signed => (-2147483904, 2147483648)
  | .w32, .w32, .unsigned => (-1, 4294967296)
  | .w64, .w32, .signed => (-2147483649, 2147483648)
  | .w64, .w32, .unsigned => (-1, 4294967296)
  | .w32, .w64, .signed => (-9223373136366403584, 9223372036854775808)
  | .w32, .w64, .unsigned => (-1, 18446744073709551616)
  | .w64, .w64, .signed => (-9223372036854777856, 9223372036854775808)
  | .w64, .w64, .unsigned => (-1, 18446744073709551616)

/-- The integer part of a float as an integer, if the float lies between the bounds for it. -/
def truncateFloat (w v : Width) (s : Signedness) (a : w.Word) : Except Trap v.Word :=
  let bounds := truncationBounds w v s
  let x := FloatValue.ofBits w a
  if x = .nan then .error .invalidConversion
  else if FloatCompare.gt.eval a (nearestFloat w bounds.1) ∧
      FloatCompare.lt.eval a (nearestFloat w bounds.2) then
    .ok (x.clamped v s)
  else .error .integerOverflow

/-- The float nearest to an integer. -/
def convertInteger (v w : Width) (s : Signedness) (a : v.Word) : w.Word :=
  nearestFloat w (s.read a)

/-- The float of one width nearest to a float of another. -/
def convertFloat (w v : Width) (a : w.Word) : v.Word := (FloatValue.ofBits w a).toBits v

end WasmCore
