import WasmCore.Module
import WasmCore.Trap
import WasmCore.Store.Config
import WasmCore.Store.Memory

/-!
# Stores

A store holds every function, table, memory and global that has been allocated. An address is a
position in one of its arrays and stays valid for the life of the store. The store also records the
calls that were made to host functions.

## Contents

* `External`: a reference to something that a module can import or export;
* `ModuleInst`: an instantiated module, which maps indices to addresses;
* `HostCall`, `HostFunc`, `FuncInst`, `Table`, `GlobalInst`: what a store holds;
* `Store`, look-ups in it, and writes to its memories and tables, which may be refused.
-/

namespace WasmCore

/-! ## Addresses -/

/-- Position of a function in a store. -/
abbrev FuncAddr := Nat

/-- Position of a table in a store. -/
abbrev TableAddr := Nat

/-- Position of a memory in a store. -/
abbrev MemAddr := Nat

/-- Position of a global in a store. -/
abbrev GlobalAddr := Nat

/-- A reference to something that a module can import or export. -/
inductive External
  | func (a : FuncAddr)
  | table (a : TableAddr)
  | memory (a : MemAddr)
  | global (a : GlobalAddr)
  deriving DecidableEq

namespace External

/-- The kind of thing that is referred to. -/
def kind : External → ExternKind
  | func _ => .func
  | table _ => .table
  | memory _ => .memory
  | global _ => .global

/-- The address of a function. -/
def func? : External → Option FuncAddr
  | func a => some a
  | _ => none

/-- The address of a table. -/
def table? : External → Option TableAddr
  | table a => some a
  | _ => none

/-- The address of a memory. -/
def memory? : External → Option MemAddr
  | memory a => some a
  | _ => none

/-- The address of a global. -/
def global? : External → Option GlobalAddr
  | global a => some a
  | _ => none

end External

/-! ## Instances -/

/-- An instantiated module: the address of each index, imports first, and the exports. -/
structure ModuleInst where
  types : Array FuncType
  funcs : Array FuncAddr
  tables : Array TableAddr
  memories : Array MemAddr
  globals : Array GlobalAddr
  exports : List (String × External) := []
  deriving DecidableEq

namespace ModuleInst

/-- The function type of an index. -/
def typeAt (i : ModuleInst) (t : TypeIdx) : Except Trap FuncType :=
  match i.types[t.toNat]? with
  | some type => .ok type
  | none => .error (.invalidIndex .type t.toNat)

/-- The address of a function index. -/
def funcAddr (i : ModuleInst) (f : FuncIdx) : Except Trap FuncAddr :=
  match i.funcs[f.toNat]? with
  | some a => .ok a
  | none => .error (.invalidIndex .func f.toNat)

/-- The address of a table index. -/
def tableAddr (i : ModuleInst) (t : TableIdx) : Except Trap TableAddr :=
  match i.tables[t.toNat]? with
  | some a => .ok a
  | none => .error (.invalidIndex .table t.toNat)

/-- The address of a memory index. -/
def memAddr (i : ModuleInst) (m : MemIdx) : Except Trap MemAddr :=
  match i.memories[m.toNat]? with
  | some a => .ok a
  | none => .error (.invalidIndex .memory m.toNat)

/-- The address of a global index. -/
def globalAddr (i : ModuleInst) (g : GlobalIdx) : Except Trap GlobalAddr :=
  match i.globals[g.toNat]? with
  | some a => .ok a
  | none => .error (.invalidIndex .global g.toNat)

/-- What is exported under a name. -/
def export? (i : ModuleInst) (name : String) : Option External := i.exports.lookup name

end ModuleInst

/-- A call that was made to a host function. -/
structure HostCall where
  func : FuncAddr
  args : List Value
  deriving DecidableEq

/-- A function that the host provides. What it does may depend on the calls that were made to host
functions before, oldest first. It gives its first results; results that it leaves out are zeros. -/
abbrev HostFunc := (earlier : Array HostCall) → (args : List Value) →
  Except HostFailure (List Value)

/-- A function in a store: one that a module defines, with the instance it belongs to, or one that
the host provides. -/
inductive FuncInst
  | defined (type : FuncType) (inst : ModuleInst) (code : Func)
  | host (type : FuncType) (run : HostFunc)

/-- The type of a function. -/
def FuncInst.type : FuncInst → FuncType
  | defined type _ _ => type
  | host type _ => type

/-! ## Tables and globals -/

/-- A table: slots that hold the address of a function or nothing. -/
structure Table where
  max : Option UInt32
  slots : Array (Option FuncAddr)
  deriving DecidableEq

namespace Table

/-- A table of the least size that its type allows, with empty slots. -/
def create (t : TableType) : Table where
  max := t.max
  slots := Array.replicate t.min.toNat none

/-- The current type: the size and the maximum. -/
def type (t : Table) : TableType where
  min := UInt32.ofNat t.slots.size
  max := t.max

/-- The function in a slot. -/
def get (t : Table) (i : Nat) : Except Trap FuncAddr :=
  match t.slots[i]? with
  | none => .error .undefinedElement
  | some none => .error (.uninitializedElement i)
  | some (some a) => .ok a

/-- Whether a range of slots lies inside the table. -/
def fits (t : Table) (start count : Nat) : Bool := start + count ≤ t.slots.size

/-- The table with functions written from a position on. -/
def fill (t : Table) (start : Nat) (funcs : List FuncAddr) : Table :=
  { t with slots := overwriteFrom t.slots start (funcs.map some) }

/-- Writes functions from a position on, if the table has slots for all of them. -/
def init (t : Table) (start : Nat) (funcs : List FuncAddr) : Except Trap Table :=
  if start + funcs.length ≤ t.slots.size then .ok (t.fill start funcs) else .error .elemOutOfBounds

@[simp] theorem size_fill (t : Table) (start : Nat) (funcs : List FuncAddr) :
    (t.fill start funcs).slots.size = t.slots.size := by
  simp [fill]

/-- A slot that is called through holds a function. -/
theorem get_eq_ok_iff (t : Table) (i : Nat) (a : FuncAddr) :
    t.get i = .ok a ↔ t.slots[i]? = some (some a) := by
  simp only [get]
  split <;> simp_all

end Table

/-- A global with its current value. -/
structure GlobalInst where
  type : GlobalType
  value : Value
  deriving DecidableEq

/-! ## Stores -/

/-- Everything that has been allocated. -/
structure Store where
  config : Config := {}
  funcs : Array FuncInst := #[]
  tables : Array Table := #[]
  memories : Array Memory := #[]
  globals : Array GlobalInst := #[]
  /-- The calls that were made to host functions, oldest first. -/
  hostCalls : Array HostCall := #[]

namespace Store

/-- The type of the function at an address. -/
def funcType? (s : Store) (a : FuncAddr) : Option FuncType := (s.funcs[a]?).map FuncInst.type

/-- The type of the function at an address, or a trap. -/
def funcType (s : Store) (a : FuncAddr) : Except Trap FuncType :=
  match s.funcType? a with
  | some type => .ok type
  | none => .error (.undefinedFunc a)

/-- The value of the global at an address. -/
def globalValue? (s : Store) (a : GlobalAddr) : Option Value := (s.globals[a]?).map (·.value)

/-- Bytes of the memory at an address. -/
def readMemory (s : Store) (a : MemAddr) (start count : Nat) : Except Trap (List UInt8) :=
  match (s.memories[a]?).bind (·.read start count) with
  | some bytes => .ok bytes
  | none => .error .memoryOutOfBounds

/-- Whether a range of bytes lies inside the memory at an address. -/
def memoryFits (s : Store) (a : MemAddr) (start count : Nat) : Bool :=
  (s.memories[a]?).any (·.fits start count)

/-- The store with bytes written into the memory at an address. -/
def overwriteMemory (s : Store) (a : MemAddr) (start : Nat) (bytes : List UInt8) : Store :=
  { s with memories := s.memories.modify a (·.overwrite start bytes) }

/-- Writes bytes into the memory at an address, if there is one. -/
def initMemory (s : Store) (a : MemAddr) (start : Nat) (bytes : List UInt8) : Except Trap Store := do
  return { s with memories := ← s.memories.modifyM a (·.write start bytes) }

theorem initMemory_eq (s : Store) (a : MemAddr) (start : Nat) (bytes : List UInt8) :
    s.initMemory a start bytes =
      if (s.memories[a]?).all (·.fits start bytes.length) then .ok (s.overwriteMemory a start bytes)
      else .error .memoryOutOfBounds := by
  have htest : ∀ m : Memory, m.write start bytes =
      if m.fits start bytes.length then .ok (m.overwrite start bytes)
      else .error .memoryOutOfBounds := fun _ => rfl
  rw [initMemory, modifyM_of_test s.memories a htest]
  split <;> rfl

/-- Writes bytes into the memory at an address, which has to be there. Bytes that do not fit leave the
store as it was. -/
def writeMemory (s : Store) (a : MemAddr) (start : Nat) (bytes : List UInt8) :
    Except Trap Unit × Store :=
  if a < s.memories.size then
    match s.initMemory a start bytes with
    | .ok s => (.ok (), s)
    | .error t => (.error t, s)
  else (.error .memoryOutOfBounds, s)

/-- A memory that is not there has no room for bytes, not even for none. -/
theorem writeMemory_eq_ite (s : Store) (a : MemAddr) (start : Nat) (bytes : List UInt8) :
    s.writeMemory a start bytes =
      if s.memoryFits a start bytes.length then (.ok (), s.overwriteMemory a start bytes)
      else (.error .memoryOutOfBounds, s) := by
  rw [writeMemory, initMemory_eq, memoryFits]
  by_cases ha : a < s.memories.size
  · rw [if_pos ha, Array.getElem?_eq_getElem ha, Option.all_some, Option.any_some]
    cases s.memories[a].fits start bytes.length <;> rfl
  · rw [if_neg ha, Array.getElem?_eq_none (Nat.le_of_not_lt ha), Option.any_none]
    rfl

/-- Whether a range of slots lies inside the table at an address. -/
def tableFits (s : Store) (a : TableAddr) (start count : Nat) : Bool :=
  (s.tables[a]?).any (·.fits start count)

/-- The store with functions written into the table at an address. -/
def fillTable (s : Store) (a : TableAddr) (start : Nat) (funcs : List FuncAddr) : Store :=
  { s with tables := s.tables.modify a (·.fill start funcs) }

/-- Writes functions into the table at an address, if there is one. -/
def initTable (s : Store) (a : TableAddr) (start : Nat) (funcs : List FuncAddr) :
    Except Trap Store := do
  return { s with tables := ← s.tables.modifyM a (·.init start funcs) }

theorem initTable_eq (s : Store) (a : TableAddr) (start : Nat) (funcs : List FuncAddr) :
    s.initTable a start funcs =
      if (s.tables[a]?).all (·.fits start funcs.length) then .ok (s.fillTable a start funcs)
      else .error .elemOutOfBounds := by
  have htest : ∀ t : Table, t.init start funcs =
      if t.fits start funcs.length then .ok (t.fill start funcs) else .error .elemOutOfBounds := by
    intro t
    simp only [Table.init, Table.fits, decide_eq_true_eq]
  rw [initTable, modifyM_of_test s.tables a htest]
  split <;> rfl

end Store

end WasmCore
