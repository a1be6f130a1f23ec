import WasmCore.Typing.Module
import WasmCore.Exec.Invoke
import WasmCore.Link.Imports
import WasmCore.Store.Alloc

/-!
# Instantiation

Instantiating a module goes in stages. The module is checked and its imports are matched. Then its
definitions are allocated in place and its segments are shown to fit; where that fails, the store is
rolled back to the sizes that it had. Only then are the segments written, and at last the start
function runs. A start function that traps leaves the instance in place.

## Contents

* `Store.evalConstant`: constant expressions;
* `Linking`: steps that work on a store in place;
* `Linking.allocGlobals`, `Linking.allocTables`, `Linking.allocMemories`, `Linking.allocFuncs`:
  definitions;
* `Segment`, `Store.resolveSegments`, `Store.writeSegments`: segments with their addresses, and how they
  are written;
* `Linking.allocInst`, `Linking.prepare`, `Linking.allocModule`: the definitions of a module and its segments;
* `Marks`, `Store.rollback`: the way back;
* `Store.link`: everything before the start function;
* `Store.instantiate`: all of it.
-/

namespace WasmCore

/-- A trap as a reason why linking fails. -/
def LinkError.ofTrap {α : Type} : Except Trap α → Except LinkError α
  | .ok a => .ok a
  | .error t => .error (.trap t)

/-- A failed check as a reason why linking fails. -/
def LinkError.ofValidation {α : Type} : Except ValidationError α → Except LinkError α
  | .ok a => .ok a
  | .error e => .error (.invalid e)

/-- What is exported under a name. -/
def ModuleInst.findExport (i : ModuleInst) (name : String) : Except LinkError External :=
  match i.export? name with
  | some e => .ok e
  | none => .error (.noExport name)

/-! ## Constant expressions -/

namespace Store

/-- The value of a constant expression, given the addresses of the globals allocated so far. -/
def evalConstant (s : Store) (globals : Array GlobalAddr) : Expr → Except LinkError Value
  | [.const v] => .ok v
  | [.globalGet g] =>
    match (globals[g.toNat]?).bind s.globalValue? with
    | some v => .ok v
    | none => .error (.invalidIndex .global g.toNat)
  | i :: _ => .error (.invalid (.notConstant i))
  | [] => .error (.invalid .stackUnderflow)

/-- The value of a constant offset. -/
def evalOffset (s : Store) (globals : Array GlobalAddr) (e : Expr) : Except LinkError Nat := do
  match ← s.evalConstant globals e with
  | .i32 x => return x.toNat
  | v => throw (.trap (.valueType .i32 v.type))

end Store

/-! ## Definitions -/

/-- A step of linking, which works on a store in place. What it has added stays there when it fails. -/
abbrev Linking := EStateM LinkError Store

namespace Linking

variable {α : Type}

/-- A result that is either there or a reason to stop. -/
def ofExcept : Except LinkError α → Linking α
  | .ok a => pure a
  | .error e => throw e

/-- An allocation, which leaves the store alone if it fails. -/
def add (alloc : Store → Except LinkError (α × Store)) : Linking α := fun s =>
  match alloc s with
  | .ok (a, s) => .ok a s
  | .error e => .error e s

/-- Allocates the globals of a module after those allocated already. -/
def allocGlobals (globals : Array GlobalAddr) : List Global → Linking (Array GlobalAddr)
  | [] => return globals
  | g :: gs => do
    let v ← ofExcept ((← get).evalConstant globals g.initial)
    let a ← add (·.allocGlobal g.type v)
    allocGlobals (globals.push a) gs

/-- Allocates the tables of a module after those allocated already. -/
def allocTables (tables : Array TableAddr) : List TableType → Linking (Array TableAddr)
  | [] => return tables
  | t :: ts => do
    let a ← add (·.allocTable t)
    allocTables (tables.push a) ts

/-- Allocates the memories of a module after those allocated already. -/
def allocMemories (memories : Array MemAddr) : List MemType → Linking (Array MemAddr)
  | [] => return memories
  | t :: ts => do
    let a ← add (·.allocMemory t)
    allocMemories (memories.push a) ts

/-- Adds the functions of a module, all of which belong to its instance. -/
def allocFuncs (inst : ModuleInst) : List Func → Linking Unit
  | [] => return ()
  | f :: fs => do
    let type ← ofExcept (LinkError.ofTrap (inst.typeAt f.typeIdx))
    modify (·.pushFunc (.defined type inst f))
    allocFuncs inst fs

end Linking

/-- What an export of a module refers to once the module is instantiated. -/
def ModuleInst.resolve (i : ModuleInst) : ExportDesc → Except Trap External
  | .func f => .func <$> i.funcAddr f
  | .table t => .table <$> i.tableAddr t
  | .memory m => .memory <$> i.memAddr m
  | .global g => .global <$> i.globalAddr g

/-- The exports of a module, resolved. -/
def ModuleInst.resolveExports (i : ModuleInst) (es : List Export) :
    Except Trap (List (String × External)) :=
  es.mapM fun e => return (e.name, ← i.resolve e.desc)

/-! ## Segments -/

/-- A segment with the addresses it is about. -/
inductive Segment
  | elem (table : TableAddr) (offset : Nat) (funcs : List FuncAddr)
  | data (memory : MemAddr) (offset : Nat) (bytes : List UInt8)

namespace Segment

/-- Whether a segment lies inside its table or memory. -/
def fits (s : Store) : Segment → Bool
  | elem a offset funcs => s.tableFits a offset funcs.length
  | data a offset bytes => s.memoryFits a offset bytes.length

/-- The trap of a segment that does not fit. -/
def trap : Segment → Trap
  | elem _ _ _ => .elemOutOfBounds
  | data _ _ _ => .dataOutOfBounds

/-- Writes a segment into its table or memory, if that is there. -/
def init (s : Store) : Segment → Except Trap Store
  | elem a offset funcs => s.initTable a offset funcs
  | data a offset bytes => s.initMemory a offset bytes

/-- A segment that fits, or the trap that says that it does not. -/
def checked (s : Store) (g : Segment) : Except LinkError Segment :=
  if g.fits s then .ok g else .error (.trap g.trap)

end Segment

namespace Store

/-- An element segment with its addresses, which fits its table. -/
def resolveElem (s : Store) (inst : ModuleInst) (e : ElemSegment) : Except LinkError Segment := do
  let a ← LinkError.ofTrap (inst.tableAddr e.table)
  let offset ← s.evalOffset inst.globals e.offset
  let funcs ← LinkError.ofTrap (e.funcs.mapM inst.funcAddr)
  (Segment.elem a offset funcs).checked s

/-- A data segment with its address, which fits its memory. -/
def resolveData (s : Store) (inst : ModuleInst) (d : DataSegment) : Except LinkError Segment := do
  let a ← LinkError.ofTrap (inst.memAddr d.memory)
  let offset ← s.evalOffset inst.globals d.offset
  (Segment.data a offset d.bytes).checked s

/-- The segments of a module with their addresses, element segments first. -/
def resolveSegments (s : Store) (inst : ModuleInst) (m : Module) : Except LinkError (List Segment) := do
  let elems ← m.elems.mapM (s.resolveElem inst)
  let datas ← m.datas.mapM (s.resolveData inst)
  return elems ++ datas

/-- Writes segments in order. The first that cannot be written ends it. -/
def writeSegments (s : Store) : List Segment → Except Trap Unit × Store
  | [] => (.ok (), s)
  | g :: gs =>
    match g.init s with
    | .ok s => writeSegments s gs
    | .error t => (.error t, s)

end Store

/-- Allocates the globals, tables and memories of a module whose imports have been matched, and gives its
instance, without exports. -/
def Linking.allocInst (m : Module) (given : List External) : Linking ModuleInst := do
  let globals ← allocGlobals (given.filterMap External.global?).toArray m.globals
  let tables ← allocTables (given.filterMap External.table?).toArray m.tables
  let memories ← allocMemories (given.filterMap External.memory?).toArray m.memories
  -- the functions get their addresses before they are there
  let fresh := (List.range m.funcs.length).map ((← get).funcs.size + ·)
  let funcs := (given.filterMap External.func? ++ fresh).toArray
  return { types := m.types.toArray, funcs, tables, memories, globals }

/-- All of allocation but the functions: the instance of a module with its exports, and its segments. -/
def Linking.prepare (m : Module) (given : List External) : Linking (ModuleInst × List Segment) := do
  let inst ← allocInst m given
  let exports ← ofExcept (LinkError.ofTrap (inst.resolveExports m.exports))
  let inst := { inst with exports }
  let segments ← ofExcept ((← get).resolveSegments inst m)
  return (inst, segments)

/-- Allocates the definitions of a module whose imports have been matched, and resolves its exports
and segments. Nothing is written to a table or a memory. -/
def Linking.allocModule (m : Module) (given : List External) :
    Linking (ModuleInst × List Segment) := do
  let prepared ← prepare m given
  allocFuncs prepared.1 m.funcs
  return prepared

/-! ## The way back -/

/-- The number of functions, tables, memories and globals of a store. -/
structure Marks where
  funcs : Nat
  tables : Nat
  memories : Nat
  globals : Nat

namespace Store

/-- The sizes of a store. -/
def marks (s : Store) : Marks where
  funcs := s.funcs.size
  tables := s.tables.size
  memories := s.memories.size
  globals := s.globals.size

/-- The store without what was added after its sizes were taken. -/
def rollback (s : Store) (marks : Marks) : Store :=
  { s with
    funcs := s.funcs.take marks.funcs
    tables := s.tables.take marks.tables
    memories := s.memories.take marks.memories
    globals := s.globals.take marks.globals }

/-! ## Instantiation -/

/-- Checks a module and matches its imports. -/
def acceptsModule (s : Store) (m : Module) (given : List External) : Except LinkError Unit := do
  LinkError.ofValidation (validate m)
  s.matchImports m given

/-- Everything before the start function. A failed allocation is rolled back. -/
def link (s : Store) (m : Module) (given : List External) : Except LinkError ModuleInst × Store :=
  match s.acceptsModule m given with
  | .error e => (.error e, s)
  | .ok () =>
    let marks := s.marks
    match Linking.allocModule m given s with
    | .error e s => (.error e, s.rollback marks)
    | .ok (inst, segments) s =>
      match s.writeSegments segments with
      | (.error t, s) => (.error (.trap t), s)
      | (.ok (), s) => (.ok inst, s)

/-- Runs the start function of a module, if it has one. -/
def runStart (turns : Nat) (s : Store) (inst : ModuleInst) :
    Option FuncIdx → Outcome LinkError Unit × Store
  | none => (.done (), s)
  | some f =>
    match inst.funcAddr f with
    | .error t => (.failed (.trap t), s)
    | .ok a =>
      match s.invoke turns a [] with
      | (.done _, s) => (.done (), s)
      | (.failed t, s) => (.failed (.trap t), s)
      | (.unfinished, s) => (.unfinished, s)

/-- Instantiates a module with what is given for its imports. The start function takes at most the
given number of turns. -/
def instantiate (turns : Nat) (s : Store) (m : Module) (given : List External) :
    Outcome LinkError ModuleInst × Store :=
  match s.link m given with
  | (.error e, s) => (.failed e, s)
  | (.ok inst, s) =>
    match runStart turns s inst m.start with
    | (.done (), s) => (.done inst, s)
    | (.failed e, s) => (.failed e, s)
    | (.unfinished, s) => (.unfinished, s)

end Store

end WasmCore
