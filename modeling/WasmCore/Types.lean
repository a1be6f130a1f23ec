/-!
# Types

The types that a module can mention: the four number types, function signatures, size limits of
tables and memories, and global types.

## Contents

* `Width`, `Signedness`: the two axes along which number instructions come in families;
* `ValType`, `FuncType`, `BlockType`: types of values, of functions and of structured blocks;
* `Limits`, `TableType`, `MemType`, `Mutability`, `GlobalType`: types of the other entities;
* `ExternKind`: the four kinds of things a module can import or export;
* index spaces: every index is a 32-bit number.
-/

namespace WasmCore

/-! ## Numbers -/

/-- Integers and floats come in two widths. -/
inductive Width
  | w32
  | w64
  deriving DecidableEq

namespace Width

/-- Number of bits of a number of this width. -/
def bits : Width → Nat
  | w32 => 32
  | w64 => 64

/-- Number of bytes of a number of this width. -/
def bytes : Width → Nat
  | w32 => 4
  | w64 => 8

theorem bits_pos (w : Width) : 0 < w.bits := by
  cases w <;> decide

end Width

/-- How the bits of an integer are read: as two's complement or as a plain binary number. -/
inductive Signedness
  | signed
  | unsigned
  deriving DecidableEq

/-- The types of values. -/
inductive ValType
  | i32
  | i64
  | f32
  | f64
  deriving DecidableEq

namespace ValType

/-- The integer type of a width. -/
def int : Width → ValType
  | .w32 => i32
  | .w64 => i64

/-- The float type of a width. -/
def float : Width → ValType
  | .w32 => f32
  | .w64 => f64

/-- The width of a type, integer or float. -/
def width : ValType → Width
  | i32 | f32 => .w32
  | i64 | f64 => .w64

/-- Spelling of a value type inside a function signature. -/
def text : ValType → String
  | i32 => "i32"
  | i64 => "i64"
  | f32 => "f32"
  | f64 => "f64"

/-- Spelling of a value type inside an instruction name or a structural description. -/
def tag : ValType → String
  | i32 => "I32"
  | i64 => "I64"
  | f32 => "F32"
  | f64 => "F64"

@[simp] theorem width_int (w : Width) : (int w).width = w := by cases w <;> rfl

@[simp] theorem width_float (w : Width) : (float w).width = w := by cases w <;> rfl

end ValType

/-! ## Functions and blocks -/

/-- A function signature. -/
structure FuncType where
  params : List ValType
  results : List ValType
  deriving DecidableEq

/-- A function signature reads `[i32 i64] -> [f32]`. -/
def FuncType.text (t : FuncType) : String :=
  let side (ts : List ValType) : String := "[" ++ " ".intercalate (ts.map ValType.text) ++ "]"
  side t.params ++ " -> " ++ side t.results

/-- A structured block leaves either nothing or one value. -/
inductive BlockType
  | empty
  | value (t : ValType)
  deriving DecidableEq

namespace BlockType

/-- The values that a block leaves behind. -/
def results : BlockType → List ValType
  | empty => []
  | value t => [t]

/-- The number of values that a block leaves behind. -/
def arity : BlockType → Nat
  | empty => 0
  | value _ => 1

@[simp] theorem length_results (b : BlockType) : b.results.length = b.arity := by
  cases b <;> rfl

end BlockType

/-! ## Tables, memories and globals -/

/-- A size range: at least `min`, and at most `max` where one is given. -/
structure Limits where
  min : UInt32
  max : Option UInt32
  deriving DecidableEq

namespace Limits

/-- `actual` may stand where `required` is asked for: it is at least as large, and bounded by a
maximum that is at most the required one. -/
def satisfies (actual required : Limits) : Bool :=
  required.min ≤ actual.min &&
    match required.max with
    | none => true
    | some bound =>
      match actual.max with
      | none => false
      | some max => max ≤ bound

theorem satisfies_iff (actual required : Limits) :
    actual.satisfies required = true ↔
      required.min ≤ actual.min ∧
        ∀ bound, required.max = some bound → ∃ max, actual.max = some max ∧ max ≤ bound := by
  simp only [satisfies, Bool.and_eq_true, decide_eq_true_eq]
  cases required.max <;> cases actual.max <;> simp

@[simp] theorem satisfies_refl (l : Limits) : l.satisfies l = true :=
  (satisfies_iff l l).mpr ⟨UInt32.le_refl _, fun bound h => ⟨bound, h, UInt32.le_refl _⟩⟩

theorem satisfies_trans {a b c : Limits} (hab : a.satisfies b = true)
    (hbc : b.satisfies c = true) : a.satisfies c = true := by
  rw [satisfies_iff] at *
  refine ⟨UInt32.le_trans hbc.1 hab.1, fun bound hc => ?_⟩
  obtain ⟨middle, hb, hle⟩ := hbc.2 bound hc
  obtain ⟨max, ha, hle'⟩ := hab.2 middle hb
  exact ⟨max, ha, UInt32.le_trans hle' hle⟩

/-- Structural description of a size range: `Min(1)` or `Range(1, 2)`. -/
def describe (l : Limits) : String :=
  match l.max with
  | none => s!"Min({l.min})"
  | some max => s!"Range({l.min}, {max})"

end Limits

/-- The size range of a table, counted in slots. Every slot refers to a function. -/
abbrev TableType := Limits

/-- The size range of a memory, counted in pages. -/
abbrev MemType := Limits

/-- The largest number of pages that a memory can have: all that 32 bits can address. -/
def maxMemoryPages : UInt32 := 65536

/-- Whether a global may be assigned to. -/
inductive Mutability
  | const
  | var
  deriving DecidableEq

/-- The type of a global. -/
structure GlobalType where
  type : ValType
  mutability : Mutability
  deriving DecidableEq

namespace GlobalType

/-- Whether a global of this type may be assigned to. -/
def isMutable (g : GlobalType) : Bool := g.mutability = .var

/-- Structural description of a global type: `GlobalType(I64, Const)`. -/
def describe (g : GlobalType) : String :=
  let mutability := match g.mutability with
    | .const => "Const"
    | .var => "Variable"
  s!"GlobalType({g.type.tag}, {mutability})"

end GlobalType

/-! ## Imports and exports -/

/-- The kinds of things that modules import and export. -/
inductive ExternKind
  | func
  | table
  | memory
  | global
  deriving DecidableEq

/-- Spelling of a kind. -/
def ExternKind.text : ExternKind → String
  | func => "function"
  | table => "table"
  | memory => "memory"
  | global => "global"

/-! ## Indices -/

/-- Position in the list of function types of a module. -/
abbrev TypeIdx := UInt32

/-- Position in the function index space: imported functions first, then defined ones. -/
abbrev FuncIdx := UInt32

/-- Position in the table index space, imports first. -/
abbrev TableIdx := UInt32

/-- Position in the memory index space, imports first. -/
abbrev MemIdx := UInt32

/-- Position in the global index space, imports first. -/
abbrev GlobalIdx := UInt32

/-- Position among the locals of a function: parameters first, then declared locals. -/
abbrev LocalIdx := UInt32

/-- Relative depth of a label: zero is the innermost enclosing block. -/
abbrev LabelIdx := UInt32

end WasmCore
