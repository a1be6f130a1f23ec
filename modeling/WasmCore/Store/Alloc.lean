import WasmCore.Link.Error
import WasmCore.Store.Basic

/-!
# Allocation

Each allocation adds one entry to a store and gives its address.
-/

namespace WasmCore.Store

/-- Adds a function. -/
def pushFunc (s : Store) (f : FuncInst) : Store := { s with funcs := s.funcs.push f }

/-- Adds a function that the host provides. -/
def allocHost (s : Store) (type : FuncType) (run : HostFunc) : FuncAddr × Store :=
  (s.funcs.size, s.pushFunc (.host type run))

/-- Adds a table with empty slots. -/
def allocTable (s : Store) (t : TableType) : Except LinkError (TableAddr × Store) :=
  let limit := s.config.maxTableElements
  if limit < t.min then .error (.tableLimit t.min limit)
  else .ok (s.tables.size, { s with tables := s.tables.push (.create t) })

/-- Adds a memory filled with zeros. -/
def allocMemory (s : Store) (t : MemType) : Except LinkError (MemAddr × Store) :=
  let limit := min s.config.maxMemoryPages maxMemoryPages
  if limit < t.min then .error (.memoryLimit t.min limit)
  else .ok (s.memories.size, { s with memories := s.memories.push (.create t) })

/-- Adds a global that holds a value of its type. -/
def allocGlobal (s : Store) (type : GlobalType) (value : Value) :
    Except LinkError (GlobalAddr × Store) :=
  if value.type = type.type then
    .ok (s.globals.size, { s with globals := s.globals.push { type, value } })
  else
    .error (.globalValue type.type value.type)

end WasmCore.Store
