import WasmCore.Word

/-!
# Values

A value is a number together with its type. Integers are words, read as signed or unsigned by the
instruction that uses them. Floats are kept as the raw bits of their interchange format, so that
the payload of a NaN and the sign of a zero survive every move, and equality of values is equality
of bits.

## Contents

* `Value`, its type, and the zero of each type;
* `Value.bits`, `Value.ofBits`: the bits of a value;
* `Value.int`, `Value.float`: a number of a given width as a value;
* `Value.toInt?`, `Value.toFloat?`: the way back, which fails on a value of another type;
* `mismatch?`: the first of several values that does not have the type it should.
-/

namespace WasmCore

/-- A number with its type. -/
inductive Value
  | i32 (x : UInt32)
  | i64 (x : UInt64)
  | f32 (bits : UInt32)
  | f64 (bits : UInt64)
  deriving DecidableEq

namespace Value

/-- The type of a value. -/
def type : Value → ValType
  | i32 _ => .i32
  | i64 _ => .i64
  | f32 _ => .f32
  | f64 _ => .f64

/-- The zero of a type, which declared locals start with. -/
def zero : ValType → Value
  | .i32 => i32 0
  | .i64 => i64 0
  | .f32 => f32 0
  | .f64 => f64 0

/-- The bits of a value, the higher ones zero. -/
def bits : Value → UInt64
  | i32 x => x.toUInt64
  | i64 x => x
  | f32 x => x.toUInt64
  | f64 x => x

/-- The value of a type with the given bits, higher bits dropped. -/
def ofBits (t : ValType) (x : UInt64) : Value :=
  match t with
  | .i32 => i32 x.toUInt32
  | .i64 => i64 x
  | .f32 => f32 x.toUInt32
  | .f64 => f64 x

/-! ## Numbers of a given width -/

/-- An integer as a value. -/
@[inline] def int : (w : Width) → w.Word → Value
  | .w32, x => i32 x
  | .w64, x => i64 x

/-- The bits of a float as a value. -/
@[inline] def float : (w : Width) → w.Word → Value
  | .w32, x => f32 x
  | .w64, x => f64 x

/-- The integer in a value, if the value is an integer of that width. -/
@[inline] def toInt? : (w : Width) → Value → Option w.Word
  | .w32, i32 x => some x
  | .w64, i64 x => some x
  | _, _ => none

/-- The float bits in a value, if the value is a float of that width. -/
@[inline] def toFloat? : (w : Width) → Value → Option w.Word
  | .w32, f32 x => some x
  | .w64, f64 x => some x
  | _, _ => none

/-- The outcome of a test as a value: one for true, zero for false. -/
def ofBool (b : Bool) : Value := i32 (if b then 1 else 0)

/-! ## Laws -/

@[simp] theorem type_zero (t : ValType) : (zero t).type = t := by cases t <;> rfl

@[simp] theorem type_ofBits (t : ValType) (x : UInt64) : (ofBits t x).type = t := by
  cases t <;> rfl

@[simp] theorem ofBits_bits (v : Value) : ofBits v.type v.bits = v := by
  cases v <;> simp [ofBits, type, bits]

@[simp] theorem type_int (w : Width) (x : w.Word) : (int w x).type = .int w := by
  cases w <;> rfl

@[simp] theorem type_float (w : Width) (x : w.Word) : (float w x).type = .float w := by
  cases w <;> rfl

@[simp] theorem type_ofBool (b : Bool) : (ofBool b).type = .i32 := rfl

@[simp] theorem toInt?_int (w : Width) (x : w.Word) : toInt? w (int w x) = some x := by
  cases w <;> rfl

@[simp] theorem toFloat?_float (w : Width) (x : w.Word) : toFloat? w (float w x) = some x := by
  cases w <;> rfl

end Value

/-! ## Several values -/

/-- A value that does not have the type it should, and its position among several. -/
structure Mismatch where
  index : Nat
  expected : ValType
  found : ValType
  deriving DecidableEq

/-- The first value that does not have the type it should. Positions are counted from `index`. -/
def mismatchFrom? : (index : Nat) → List ValType → List Value → Option Mismatch
  | index, t :: ts, v :: vs =>
    if v.type = t then mismatchFrom? (index + 1) ts vs else some ⟨index, t, v.type⟩
  | _, _, _ => none

/-- The first value that does not have the type it should. -/
def mismatch? (ts : List ValType) (vs : List Value) : Option Mismatch := mismatchFrom? 0 ts vs

theorem mismatchFrom?_eq_none_iff {index : Nat} {ts : List ValType} {vs : List Value}
    (h : vs.length = ts.length) :
    mismatchFrom? index ts vs = none ↔ vs.map Value.type = ts := by
  induction ts generalizing index vs with
  | nil => cases vs <;> simp_all [mismatchFrom?]
  | cons t ts ih =>
    cases vs with
    | nil => simp at h
    | cons v vs =>
      simp only [List.length_cons, Nat.add_right_cancel_iff] at h
      simp only [mismatchFrom?, List.map_cons, List.cons.injEq]
      split
      · simp [ih h, *]
      · simp [*]

/-- As many values as types match exactly when they have those types. -/
theorem mismatch?_eq_none_iff {ts : List ValType} {vs : List Value}
    (h : vs.length = ts.length) : mismatch? ts vs = none ↔ vs.map Value.type = ts :=
  mismatchFrom?_eq_none_iff h

end WasmCore
