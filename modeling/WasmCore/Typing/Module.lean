import Std.Data.HashSet
import WasmCore.Typing.Checker

/-!
# Checking modules

A module is valid when all its indices are in range, its limits make sense, and its bodies and
constant expressions check. The checks run in a fixed order, and the first that fails is reported.

## Contents

* `Validate.types`, …, `Validate.exports`: one check for each part of a module;
* `validate`: all of them, in order.
-/

namespace WasmCore

namespace Validate

/-- A check that either passes or names the cause. -/
abbrev Verdict := Except ValidationError Unit

/-- A function has at most one result. -/
def funcType (t : FuncType) : Verdict :=
  if 1 < t.results.length then .error (.tooManyResults t.results.length) else .ok ()

/-- A maximum is not below its minimum. -/
def limits (l : Limits) : Verdict :=
  match l.max with
  | none => .ok ()
  | some max => if max < l.min then .error (.invertedLimits l.min max) else .ok ()

/-- A number of pages that 32 bits can address. -/
def pages (n : UInt32) : Verdict :=
  if maxMemoryPages < n then .error (.memoryTooLarge n) else .ok ()

/-- The bounds of a memory are numbers of pages, and in order. -/
def memType (l : MemType) : Verdict := do
  pages l.min
  l.max.forM pages
  limits l

/-- An import asks for an existing type and for sensible limits. -/
def importDesc (c : Context) : ImportDesc → Verdict
  | .func t => do
    let _ ← c.typeAt t
  | .table l => limits l
  | .memory l => memType l
  | .global _ => .ok ()

/-- There is at most one table. -/
def singleTable (c : Context) : Verdict :=
  if 1 < c.tables.size then .error (.multipleTables c.tables.size) else .ok ()

/-- There is at most one memory. -/
def singleMemory (c : Context) : Verdict :=
  if 1 < c.memories.size then .error (.multipleMemories c.memories.size) else .ok ()

/-- The initialiser of a global is a constant of its type and reads only earlier globals. -/
def global (c : Context) (earlier : Nat) (g : Global) : Verdict :=
  checkConstant c earlier g.type.type g.initial

/-- The body of a function checks against its type. -/
def func (c : Context) (f : Func) : Verdict := do
  let type ← c.typeAt f.typeIdx
  checkFunc c (type.params ++ f.localTypes) type.results f.body

/-- An element segment names a table, a constant offset and functions. -/
def elem (c : Context) (e : ElemSegment) : Verdict := do
  c.requireTable e.table
  checkConstant c c.globals.size .i32 e.offset
  e.funcs.forM fun f => do
    let _ ← c.funcType f

/-- A data segment names a memory and a constant offset. -/
def data (c : Context) (d : DataSegment) : Verdict := do
  c.requireMemory d.memory
  checkConstant c c.globals.size .i32 d.offset

/-- The start function takes nothing and gives nothing. -/
def start (c : Context) (f : FuncIdx) : Verdict := do
  let type ← c.funcType f
  if type.params ≠ [] ∨ type.results ≠ [] then
    throw (.badStart type)

/-- An export names something that exists. -/
def exportDesc (c : Context) : ExportDesc → Verdict
  | .func f => do
    let _ ← c.funcType f
  | .table t => c.requireTable t
  | .memory m => c.requireMemory m
  | .global g => do
    let _ ← c.globalType g

/-- Each export names something that exists, and none has the name of an earlier one. -/
def exports (c : Context) : (earlier : Std.HashSet String) → List Export → Verdict
  | _, [] => .ok ()
  | earlier, e :: es =>
    if earlier.contains e.name then
      .error (.duplicateExport e.name)
    else do
      exportDesc c e.desc
      exports c (earlier.insert e.name) es

end Validate

open Validate in
/-- Checks that a module is well-typed and that all its indices are in range. -/
def validate (m : Module) : Except ValidationError Unit := do
  let c := Context.ofModule m
  m.types.forM funcType
  m.imports.forM fun i => importDesc c i.desc
  m.funcs.forM fun f => do
    let _ ← c.typeAt f.typeIdx
  m.tables.forM limits
  m.memories.forM memType
  singleTable c
  singleMemory c
  (m.globals.zipIdx m.importedGlobals.length).forM fun (g, i) => global c i g
  m.funcs.forM (func c)
  m.elems.forM (elem c)
  m.datas.forM (data c)
  m.start.forM (start c)
  exports c ∅ m.exports

end WasmCore
