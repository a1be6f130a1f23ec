import WasmCore.Link.Error
import WasmCore.Store.Basic

/-!
# Matching imports

What is given for the imports of a module is matched by position. Function and global types have to
be equal; a table or a memory has to satisfy the limits that are asked for with its current size.

## Contents

* `Store.importFault?`: what is wrong with one import, if anything;
* `Store.matchImports`: all imports in order.
-/

namespace WasmCore.Store

/-- What is wrong with what is given for an import, if anything. `types` are the types of the
importing module. -/
def importFault? (s : Store) (types : Array FuncType) :
    ImportDesc → External → Except LinkError (Option ImportFault)
  | .func t, .func a =>
    match types[t.toNat]? with
    | none => .error (.invalidIndex .type t.toNat)
    | some expected =>
      .ok <| match s.funcType? a with
        | none => some (.missing .func a)
        | some found => if found = expected then none else some (.funcType expected found)
  | .table expected, .table a =>
    .ok <| match s.tables[a]? with
      | none => some (.missing .table a)
      | some table =>
        if table.type.satisfies expected then none else some (.tableLimits expected table.type)
  | .memory expected, .memory a =>
    .ok <| match s.memories[a]? with
      | none => some (.missing .memory a)
      | some memory =>
        if memory.type.satisfies expected then none
        else some (.memoryLimits expected memory.type)
  | .global expected, .global a =>
    .ok <| match s.globals[a]? with
      | none => some (.missing .global a)
      | some global =>
        if global.type = expected then none else some (.globalType expected global.type)
  | desc, given => .ok (some (.kind desc.kind given.kind))

/-- Matches the imports from a position on. -/
def matchImportsFrom (s : Store) (types : Array FuncType) :
    (index : Nat) → List Import → List External → Except LinkError Unit
  | index, i :: is, given :: rest => do
    match ← s.importFault? types i.desc given with
    | some fault => throw (.importMismatch index i.source i.name fault)
    | none => matchImportsFrom s types (index + 1) is rest
  | _, _, _ => return ()

/-- Matches what is given for the imports of a module, in order. -/
def matchImports (s : Store) (m : Module) (given : List External) : Except LinkError Unit :=
  if m.imports.length ≠ given.length then
    .error (.importCount m.imports.length given.length)
  else
    s.matchImportsFrom m.types.toArray 0 m.imports given

end WasmCore.Store
