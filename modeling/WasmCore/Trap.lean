import WasmCore.Types

/-!
# Traps

Why a call ends without results. The store stays usable after a trap. Each cause is a constructor;
the wording is in `Trap.message` alone.
-/

namespace WasmCore

/-- The index spaces that an instruction can refer to. -/
inductive IndexSpace
  | type
  | func
  | table
  | memory
  | global
  | local
  | label
  deriving DecidableEq

/-- Spelling of an index space. -/
def IndexSpace.text : IndexSpace → String
  | type => "type"
  | func => "function"
  | table => "table"
  | memory => "memory"
  | global => "global"
  | .local => "local"
  | label => "label"

/-- Why a host function failed: the first cause, then what each layer around it had to add. -/
structure HostFailure where
  cause : String
  contexts : List String := []
  deriving DecidableEq

/-- The outermost layer comes first and the cause last. -/
def HostFailure.message (f : HostFailure) : String :=
  ": ".intercalate (f.contexts.reverse ++ [f.cause])

/-- Why a call ended without results. -/
inductive Trap
  | unreachable
  | argumentType (index : Nat) (expected found : ValType)
  | argumentCount (expected found : Nat)
  | divideByZero
  | integerOverflow
  | invalidConversion
  | memoryOutOfBounds
  | undefinedElement
  | uninitializedElement (i : Nat)
  | indirectCallType
  | callStackExhausted
  | outOfFuel
  | host (failure : HostFailure)
  | hostResult (index : Nat) (expected found : ValType)
  | undefinedFunc (address : Nat)
  | invalidIndex (space : IndexSpace) (index : Nat)
  | stackUnderflow
  | valueType (expected found : ValType)
  | elemOutOfBounds
  | dataOutOfBounds
  deriving DecidableEq

/-- The wording of a cause. -/
def Trap.message : Trap → String
  | unreachable => "unreachable"
  | argumentType index expected found =>
    s!"type mismatch: argument {index} should be {expected.text}, got {found.text}"
  | argumentCount expected found =>
    s!"type mismatch: expected {expected} arguments, got {found}"
  | divideByZero => "integer divide by zero"
  | integerOverflow => "integer overflow"
  | invalidConversion => "invalid conversion to integer"
  | memoryOutOfBounds => "out of bounds memory access"
  | undefinedElement => "undefined element"
  | uninitializedElement i => s!"uninitialized element {i}"
  | indirectCallType => "indirect call type mismatch"
  | callStackExhausted => "call stack exhausted"
  | outOfFuel => "all fuel consumed"
  | host failure => s!"host function failed: {failure.message}"
  | hostResult index expected found =>
    s!"host function result {index} should be {expected.text}, got {found.text}"
  | undefinedFunc address => s!"undefined function {address}"
  | invalidIndex space index => s!"invalid {space.text} index {index}"
  | stackUnderflow => "value stack underflow"
  | valueType expected found =>
    s!"value type mismatch (expected {expected.text}, got {found.text})"
  | elemOutOfBounds => "out of bounds table access: element segment does not fit"
  | dataOutOfBounds => "out of bounds memory access: data segment does not fit"

end WasmCore
