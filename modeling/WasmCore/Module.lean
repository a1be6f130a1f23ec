import WasmCore.Instr

/-!
# Modules

A module is what a binary decodes to: types, imports, definitions, exports, segments and an
optional start function. Each index space counts the imported entities of its kind first, in import
order, and the defined ones after them.

## Contents

* `Import`, `Export`, `Func`, `Global`, `ElemSegment`, `DataSegment`, `CustomSection`: the parts;
* `Module`: the whole;
* `Module.funcTypeIndices`, `Module.tableTypes`, `Module.memTypes`, `Module.globalTypes`: the index
  spaces, imports first.
-/

namespace WasmCore

-- Sums of numbers start at the core library's zero.
attribute [local instance (high)] Zero.ofOfNat0

/-! ## Parts -/

/-- What an import asks for. -/
inductive ImportDesc
  | func (t : TypeIdx)
  | table (t : TableType)
  | memory (t : MemType)
  | global (t : GlobalType)
  deriving DecidableEq

/-- The kind of thing that an import asks for. -/
def ImportDesc.kind : ImportDesc → ExternKind
  | func _ => .func
  | table _ => .table
  | memory _ => .memory
  | global _ => .global

/-- An import is named by two names. It is matched by position; the names are for people. -/
structure Import where
  source : String
  name : String
  desc : ImportDesc
  deriving DecidableEq

/-- What an export hands out. -/
inductive ExportDesc
  | func (f : FuncIdx)
  | table (t : TableIdx)
  | memory (m : MemIdx)
  | global (g : GlobalIdx)
  deriving DecidableEq

/-- The kind of thing that an export hands out. -/
def ExportDesc.kind : ExportDesc → ExternKind
  | func _ => .func
  | table _ => .table
  | memory _ => .memory
  | global _ => .global

/-- A named export. -/
structure Export where
  name : String
  desc : ExportDesc
  deriving DecidableEq

/-- A run of locals of one type, as a function declares them. -/
structure LocalRun where
  count : UInt32
  type : ValType
  deriving DecidableEq

/-- A defined function. -/
structure Func where
  typeIdx : TypeIdx
  locals : List LocalRun
  body : Expr

namespace Func

/-- The number of locals that a function declares, its parameters not counted. -/
def localCount (f : Func) : Nat := (f.locals.map (·.count.toNat)).sum

/-- The types of the declared locals, one for each local. -/
def localTypes (f : Func) : List ValType :=
  f.locals.flatMap fun run => List.replicate run.count.toNat run.type

/-- The locals that a call starts with: the arguments, then a zero for each declared local. -/
def startLocals (f : Func) (args : List Value) : Array Value :=
  f.locals.foldl (fun vs run => vs ++ Array.replicate run.count.toNat (.zero run.type))
    args.toArray

theorem startLocals_eq (f : Func) (args : List Value) :
    f.startLocals args = (args ++ f.localTypes.map Value.zero).toArray := by
  simp only [startLocals, localTypes]
  generalize f.locals = runs
  induction runs generalizing args with
  | nil => simp
  | cons run runs ih =>
    rw [List.foldl_cons]
    have h := ih (args ++ List.replicate run.count.toNat (.zero run.type))
    simp only [← List.append_toArray, List.toArray_replicate, List.flatMap_cons, List.map_append,
      List.map_replicate] at h ⊢
    rw [h]
    simp only [Array.append_assoc]

end Func

/-- A defined global with its initialiser. -/
structure Global where
  type : GlobalType
  initial : Expr

/-- An element segment: functions that are written into a table when a module is instantiated. -/
structure ElemSegment where
  table : TableIdx
  offset : Expr
  funcs : List FuncIdx

/-- A data segment: bytes that are written into a memory when a module is instantiated. -/
structure DataSegment where
  memory : MemIdx
  offset : Expr
  bytes : List UInt8

/-- A named section whose contents mean nothing to the engine. -/
structure CustomSection where
  name : String
  bytes : List UInt8
  deriving DecidableEq

/-! ## Modules -/

/-- A decoded module. -/
structure Module where
  customs : List CustomSection := []
  types : List FuncType := []
  imports : List Import := []
  funcs : List Func := []
  tables : List TableType := []
  memories : List MemType := []
  globals : List Global := []
  exports : List Export := []
  start : Option FuncIdx := none
  elems : List ElemSegment := []
  datas : List DataSegment := []

namespace Module

/-- The type indices that function imports ask for, in import order. -/
def importedFuncs (m : Module) : List TypeIdx :=
  m.imports.filterMap fun i => match i.desc with
    | .func t => some t
    | _ => none

/-- The table types that imports ask for, in import order. -/
def importedTables (m : Module) : List TableType :=
  m.imports.filterMap fun i => match i.desc with
    | .table t => some t
    | _ => none

/-- The memory types that imports ask for, in import order. -/
def importedMemories (m : Module) : List MemType :=
  m.imports.filterMap fun i => match i.desc with
    | .memory t => some t
    | _ => none

/-- The global types that imports ask for, in import order. -/
def importedGlobals (m : Module) : List GlobalType :=
  m.imports.filterMap fun i => match i.desc with
    | .global t => some t
    | _ => none

/-- Type indices over the function index space. -/
def funcTypeIndices (m : Module) : List TypeIdx := m.importedFuncs ++ m.funcs.map (·.typeIdx)

/-- Types over the table index space. -/
def tableTypes (m : Module) : List TableType := m.importedTables ++ m.tables

/-- Types over the memory index space. -/
def memTypes (m : Module) : List MemType := m.importedMemories ++ m.memories

/-- Types over the global index space. -/
def globalTypes (m : Module) : List GlobalType := m.importedGlobals ++ m.globals.map (·.type)

/-- Names and kinds of the exports, in order. -/
def exportKinds (m : Module) : List (String × ExternKind) :=
  m.exports.map fun e => (e.name, e.desc.kind)

/-- Names and kinds of the imports, in order. -/
def importKinds (m : Module) : List (String × String × ExternKind) :=
  m.imports.map fun i => (i.source, i.name, i.desc.kind)

end Module

end WasmCore
