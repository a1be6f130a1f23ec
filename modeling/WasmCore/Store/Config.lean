import WasmCore.Types

/-!
# Configuration

Limits that hold for a store and for every call into it.
-/

namespace WasmCore

/-- Limits of a store. -/
structure Config where
  /-- The largest number of calls that may be under way at a time. -/
  maxCallDepth : Nat := 512
  /-- The number of instructions that one call from outside may execute, if it is limited. -/
  fuel : Option Nat := none
  /-- The largest number of pages that a memory may have. -/
  maxMemoryPages : UInt32 := WasmCore.maxMemoryPages
  /-- The largest number of slots that a table may be created with. -/
  maxTableElements : UInt32 := 10000000
  deriving DecidableEq

end WasmCore
