import WasmCore.Instr
import WasmCore.Trap

/-!
# Integer arithmetic

Integer operations on words of either width. Sums, differences and products wrap around; division
refuses a zero divisor, and signed division the one quotient that does not fit; shift and rotation
counts are taken modulo the width.

## Contents

* `leadingZeros`, `trailingZeros`, `onesCount`: bits of a number, counted;
* `IntUnary.eval`, `IntBinary.eval`, `IntCompare.eval`: the instructions;
* `Signedness.read`, `Signedness.least`, `Signedness.bound`: the numbers that words stand for.
-/

namespace WasmCore

-- Powers of numbers are those of the core library.
attribute [local instance (high)] instPowNat

/-! ## Counting bits -/

/-- The number of zeros above the highest one among the low `count` bits of a number below
`2 ^ count`. -/
def leadingZeros (count n : Nat) : Nat := if n = 0 then count else count - 1 - n.log2

/-- The number of zeros below the lowest one among the low `count` bits. -/
def trailingZeros : (count : Nat) → Nat → Nat
  | 0, _ => 0
  | count + 1, n => if n % 2 = 1 then 0 else trailingZeros count (n / 2) + 1

/-- The number of ones among the low `count` bits. -/
def onesCount : (count : Nat) → Nat → Nat
  | 0, _ => 0
  | count + 1, n => n % 2 + onesCount count (n / 2)

@[simp] theorem leadingZeros_zero (count : Nat) : leadingZeros count 0 = count := rfl

@[simp] theorem trailingZeros_zero (count : Nat) : trailingZeros count 0 = count := by
  induction count with
  | zero => rfl
  | succ count ih => simp [trailingZeros, ih]

theorem trailingZeros_le (count n : Nat) : trailingZeros count n ≤ count := by
  induction count generalizing n with
  | zero => simp [trailingZeros]
  | succ count ih =>
    simp only [trailingZeros]
    have := ih (n / 2)
    split <;> omega

theorem onesCount_le (count n : Nat) : onesCount count n ≤ count := by
  induction count generalizing n with
  | zero => simp [onesCount]
  | succ count ih =>
    have := ih (n / 2)
    simp only [onesCount]
    omega

/-! ## Instructions -/

variable {w : Width}

/-- Integer operations on one operand. -/
def IntUnary.eval (op : IntUnary) (a : w.Word) : w.Word :=
  .ofNat <| match op with
    | clz => leadingZeros w.bits a.toNat
    | ctz => trailingZeros w.bits a.toNat
    | popcnt => onesCount w.bits a.toNat

/-- Division toward zero. -/
def divide (s : Signedness) (a b : w.Word) : Except Trap w.Word :=
  if b = .ofNat 0 then .error .divideByZero
  else match s with
    | .unsigned => .ok (a.udiv b)
    | .signed =>
      if a = .intMin ∧ b = .allOnes then .error .integerOverflow
      else .ok (a.sdiv b)

/-- The remainder of division toward zero, which has the sign of the dividend. -/
def remainder (s : Signedness) (a b : w.Word) : Except Trap w.Word :=
  if b = .ofNat 0 then .error .divideByZero
  else match s with
    | .unsigned => .ok (a.umod b)
    | .signed => .ok (a.srem b)

/-- Shift to the right, filling with zeros or with the sign. -/
def shiftRight (s : Signedness) (a b : w.Word) : w.Word :=
  match s with
  | .unsigned => a.shr b
  | .signed => a.sar b

/-- Integer operations on two operands. -/
def IntBinary.eval (op : IntBinary) (a b : w.Word) : Except Trap w.Word :=
  match op with
  | add => .ok (a.add b)
  | sub => .ok (a.sub b)
  | mul => .ok (a.mul b)
  | div s => divide s a b
  | rem s => remainder s a b
  | and => .ok (a.and b)
  | or => .ok (a.or b)
  | xor => .ok (a.xor b)
  | shl => .ok (a.shl b)
  | shr s => .ok (shiftRight s a b)
  | rotl => .ok (a.rotl b)
  | rotr => .ok (a.rotr b)

/-- Whether one integer is below another. -/
def below (s : Signedness) (a b : w.Word) : Bool :=
  match s with
  | .unsigned => a.ult b
  | .signed => a.slt b

/-- Integer comparisons. -/
def IntCompare.eval (op : IntCompare) (a b : w.Word) : Bool :=
  match op with
  | eq => a = b
  | ne => a ≠ b
  | lt s => below s a b
  | gt s => below s b a
  | le s => !below s b a
  | ge s => !below s a b

/-! ## Numbers -/

/-- The number that an integer stands for. -/
def Signedness.read (s : Signedness) (a : w.Word) : Int :=
  match s with
  | .unsigned => a.toNat
  | .signed => a.toInt

/-- The least number that an integer of a width stands for. -/
def Signedness.least : Signedness → Width → Int
  | unsigned, _ => 0
  | signed, .w32 => -0x80000000
  | signed, .w64 => -0x8000000000000000

/-- The first number that is too large for an integer of a width. -/
def Signedness.bound : Signedness → Width → Int
  | unsigned, .w32 => 0x100000000
  | unsigned, .w64 => 0x10000000000000000
  | signed, .w32 => 0x80000000
  | signed, .w64 => 0x8000000000000000

theorem Signedness.least_signed (w : Width) : signed.least w = -2 ^ (w.bits - 1) := by
  cases w <;> rfl

theorem Signedness.bound_signed (w : Width) : signed.bound w = 2 ^ (w.bits - 1) := by
  cases w <;> rfl

theorem Signedness.bound_unsigned (w : Width) : unsigned.bound w = 2 ^ w.bits := by
  cases w <;> rfl

end WasmCore
