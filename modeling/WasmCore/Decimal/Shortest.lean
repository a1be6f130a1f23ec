/-!
# Shortest decimals

A number is known only to lie in an interval, and is written with the fewest decimal digits that
still lie in it. Of several such decimals the one nearest to the number is taken, and of two equally
near the larger. The decimal is written out in full, without an exponent.

## Contents

* `Bracket`: a positive number with the interval around it;
* `Bracket.candidate`: the decimal with a given last place, if there is one;
* `Bracket.shortest`: the decimal with the fewest digits;
* `positional`: a decimal written out in full.
-/

namespace WasmCore.Decimal

-- Powers of numbers are those of the core library.
attribute [local instance (high)] instPowNat

/-- A number `value / unit` and the interval from `low / unit` to `high / unit` around it, whose
ends belong to it if it is closed. -/
structure Bracket where
  unit : Nat
  low : Nat
  value : Nat
  high : Nat
  closed : Bool

/-- Number of decimal digits of a positive number. -/
def digitCount (n : Nat) : Nat := (Nat.toDigits 10 n).length

namespace Bracket

/-- The place of the first digit of the number: the largest `k` with `10 ^ k` at most the number. -/
def place (b : Bracket) : Int :=
  if b.unit ≤ b.value then digitCount (b.value / b.unit) - 1
  else -(digitCount ((b.unit - 1) / b.value) : Nat)

/-- The multiple of `10 ^ k` in the interval that is nearest to the number, divided by `10 ^ k`.
Only the two multiples on either side of the number can be it. -/
def candidate (b : Bracket) (k : Int) : Option Nat :=
  let up := 10 ^ k.toNat
  let down := 10 ^ (-k).toNat
  let step := up * b.unit
  let n := b.value * down / step
  let rest := b.value * down % step
  let before (x y : Nat) : Bool := x < y || (b.closed && x = y)
  let below := before (b.low * down) (n * step)
  let above := before ((n + 1) * step) (b.high * down)
  if below && (!above || 2 * rest < step) then some n
  else if above then some (n + 1)
  else none

/-- The first decimal with its last place at `k` or at one of the `count` places after it. -/
def search (b : Bracket) : (count : Nat) → (k : Int) → Nat × Int
  | 0, k => (b.value * 10 ^ (-k).toNat / (b.unit * 10 ^ k.toNat), k)
  | count + 1, k =>
    match b.candidate k with
    | some n => (n, k)
    | none => search b count (k - 1)

/-- The decimal `n · 10 ^ k` with the fewest digits, as `(n, k)`. Seventeen digits always tell the
floats of both formats apart. -/
def shortest (b : Bracket) : Nat × Int := b.search 17 b.place

end Bracket

/-- The decimal `n · 10 ^ k` written out, without zeros at the end of the fraction. -/
def positional (n : Nat) (k : Int) : String :=
  if 0 ≤ k then toString (n * 10 ^ k.toNat)
  else
    let places := (-k).toNat
    let fraction := (Nat.toDigits 10 (n % 10 ^ places)).leftpad places '0'
    let shown := (fraction.reverse.dropWhile (· = '0')).reverse
    let whole := toString (n / 10 ^ places)
    if shown.isEmpty then whole else whole ++ "." ++ String.ofList shown

end WasmCore.Decimal
