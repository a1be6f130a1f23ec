import WasmCore.Instr.Text
import WasmCore.Text.Quoted

/-!
# Validation errors

Why a module is refused although its binary is well-formed. Each cause is a constructor; the
wording is in `ValidationError.message` alone.
-/

namespace WasmCore

/-- What the checker knows about an operand. In code that cannot be reached, an operand may have
any type. -/
inductive OperandType
  | unknown
  | known (t : ValType)
  deriving DecidableEq

/-- Spelling of what is known about an operand. -/
def OperandType.text : OperandType → String
  | unknown => "unknown"
  | known t => t.text

/-- Why a module is not valid. -/
inductive ValidationError
  | operandsLeft (count : Nat)
  | typeMismatch (expected found : OperandType)
  | branchTableArity (expected found : Nat)
  | alignmentTooLarge (found natural : Nat)
  | immutableGlobal (g : GlobalIdx)
  | unknownLabel (l : LabelIdx) (count : Nat)
  | notConstant (i : Instr)
  | notConstantGlobal (g : GlobalIdx)
  | stackUnderflow
  | blockUnderflow
  | elseRequired
  | unknownType (t : TypeIdx)
  | unknownFunc (f : FuncIdx)
  | unknownTable (t : TableIdx)
  | unknownMemory (m : MemIdx)
  | unknownGlobal (g : GlobalIdx)
  | unknownLocal (x : LocalIdx)
  | tooManyResults (count : Nat)
  | invertedLimits (min max : UInt32)
  | memoryTooLarge (pages : UInt32)
  | multipleTables (count : Nat)
  | multipleMemories (count : Nat)
  | duplicateExport (name : String)
  | badStart (t : FuncType)

/-- The wording of a cause. -/
def ValidationError.message : ValidationError → String
  | operandsLeft count => s!"type mismatch: stack not empty ({count} values left on stack)"
  | typeMismatch expected found =>
    s!"type mismatch: expected {expected.text}, got {found.text}"
  | branchTableArity expected found =>
    s!"type mismatch: br.table arity not uniform (expected {expected}; got {found})"
  | alignmentTooLarge found natural =>
    s!"alignment must not be larger than natural (got {found}; must be <= {natural})"
  | immutableGlobal g => s!"global is immutable (global index={g})"
  | unknownLabel l count => s!"unknown label: out of range (got {l}; max is {count})"
  | notConstant i => s!"constant expression required (got {i.describe})"
  | notConstantGlobal g =>
    s!"constant expression may only read an earlier immutable global (global index={g})"
  | stackUnderflow => "type mismatch: stack empty"
  | blockUnderflow => "block stack empty"
  | elseRequired =>
    "type mismatch (alternate required when 'if' input length is different from result length)"
  | unknownType t => s!"unknown type {t}"
  | unknownFunc f => s!"unknown function {f}"
  | unknownTable t => s!"unknown table {t}"
  | unknownMemory m => s!"unknown memory {m}"
  | unknownGlobal g => s!"unknown global {g}"
  | unknownLocal x => s!"unknown local {x}"
  | tooManyResults count =>
    s!"invalid result arity: functions may return at most one value (got {count})"
  | invertedLimits min max =>
    s!"size minimum must not be greater than maximum (min={min}, max={max})"
  | memoryTooLarge pages => s!"memory size must be at most 65536 pages (got {pages})"
  | multipleTables count => s!"multiple tables (got {count}; at most 1 allowed)"
  | multipleMemories count => s!"multiple memories (got {count}; at most 1 allowed)"
  | duplicateExport name => s!"duplicate export name {Text.quote name}"
  | badStart t => s!"start function must have type [] -> [] (got {t.text})"

end WasmCore
