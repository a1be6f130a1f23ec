import WasmCore.Operands
import WasmCore.Numeric.FloatArithmetic

/-!
# Number operations on operands

A number operation pops its operands, the last one first, and pushes its result.
-/

namespace WasmCore

open OperandM

/-- Conversions as moves of the operands. -/
def Conversion.eval : Conversion → OperandM Unit
  | wrap => do push (.i32 (← popInt .w64).toUInt32)
  | extend sign => do push (.i64 (Width.Word.extend32 sign (← popInt .w32)))
  | truncate source target sign => do
    let a ← popFloat source
    match truncateFloat source target sign a with
    | .ok x => push (.int target x)
    | .error t => throw t
  | convert source target sign => do
    push (.float target (convertInteger source target sign (← popInt source)))
  | demote => do push (.f32 (convertFloat .w64 .w32 (← popFloat .w64)))
  | promote => do push (.f64 (convertFloat .w32 .w64 (← popFloat .w32)))
  | floatBits w => do push (.int w (← popFloat w))
  | ofBits w => do push (.float w (← popInt w))

/-- Number operations as moves of the operands. -/
def NumOp.eval : NumOp → OperandM Unit
  | intTest w => do push (.ofBool ((← popInt w) = .ofNat 0))
  | intCompare w op => do
    let b ← popInt w
    let a ← popInt w
    push (.ofBool (op.eval a b))
  | floatCompare w op => do
    let b ← popFloat w
    let a ← popFloat w
    push (.ofBool (op.eval a b))
  | intUnary w op => do push (.int w (op.eval (← popInt w)))
  | intBinary w op => do
    let b ← popInt w
    let a ← popInt w
    match op.eval a b with
    | .ok x => push (.int w x)
    | .error t => throw t
  | floatUnary w op => do push (.float w (op.eval (← popFloat w)))
  | floatBinary w op => do
    let b ← popFloat w
    let a ← popFloat w
    push (.float w (op.eval a b))
  | convert c => c.eval

end WasmCore
