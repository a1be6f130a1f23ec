import WasmCore.Trap
import WasmCore.Typing.Error

/-!
# Linking errors

Why something cannot be allocated, instantiated or found. Each cause is a constructor; the wording
is in `ImportFault.message` and `LinkError.message` alone.
-/

namespace WasmCore

/-- Why what is given for an import does not fit. -/
inductive ImportFault
  | kind (expected found : ExternKind)
  | missing (kind : ExternKind) (address : Nat)
  | funcType (expected found : FuncType)
  | tableLimits (expected found : Limits)
  | memoryLimits (expected found : Limits)
  | globalType (expected found : GlobalType)
  deriving DecidableEq

/-- The wording of a cause. -/
def ImportFault.message : ImportFault → String
  | kind expected found => s!"expected {expected.text}, got {found.text}"
  | missing wanted address => s!"no {wanted.text} at address {address}"
  | funcType expected found => s!"expected function type {expected.text}, got {found.text}"
  | tableLimits expected found =>
    s!"table limits {found.describe} don't satisfy {expected.describe}"
  | memoryLimits expected found =>
    s!"memory limits {found.describe} don't satisfy {expected.describe}"
  | globalType expected found => s!"expected global {expected.describe}, got {found.describe}"

/-- Why something cannot be allocated, instantiated or found. -/
inductive LinkError
  | invalid (e : ValidationError)
  | trap (t : Trap)
  | importMismatch (index : Nat) (source name : String) (fault : ImportFault)
  | importCount (expected found : Nat)
  | noExport (name : String)
  | invalidIndex (space : IndexSpace) (index : Nat)
  | memoryLimit (pages limit : UInt32)
  | tableLimit (elements limit : UInt32)
  | globalValue (expected found : ValType)

/-- The wording of a cause. -/
def LinkError.message : LinkError → String
  | invalid e => e.message
  | trap t => t.message
  | importMismatch index source name fault =>
    s!"incompatible import {index} ({source}/{name}): {fault.message}"
  | importCount expected found => s!"expected {expected} imports, got {found}"
  | noExport name => s!"no export named {Text.quote name}"
  | invalidIndex space index => s!"invalid {space.text} index {index}"
  | memoryLimit pages limit =>
    s!"memory of {pages} pages exceeds the configured limit of {limit}"
  | tableLimit elements limit =>
    s!"table of {elements} elements exceeds the configured limit of {limit}"
  | globalValue expected found =>
    s!"global of type {expected.text} can't hold {found.text}"

end WasmCore
