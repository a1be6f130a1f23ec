import WasmCore.Module
import WasmCore.Binary.Expr

/-!
# Sections

The items that the sections of a module are made of.

## Contents

* types: `Decoder.funcType`, `Decoder.limits`, `Decoder.tableType`, `Decoder.globalType`;
* `Decoder.importItem`, `Decoder.exportItem`, `Decoder.global`, `Decoder.elem`, `Decoder.data`;
* `Code`, `Decoder.code`: locals and body of a function.
-/

namespace WasmCore

-- Sums of numbers start at the core library's zero.
attribute [local instance (high)] Zero.ofOfNat0

/-- The largest number of locals that a function may declare. -/
def maxLocals : Nat := 50000

/-- Locals and body of a function, still without its type. -/
structure Code where
  locals : List LocalRun
  body : Expr

namespace Decoder

/-! ## Types -/

/-- A function type. -/
def funcType : Decoder FuncType := do
  let start ← position
  let form ← byte
  if form ≠ 0x60 then
    failAt start (.badTypeForm form)
  else
    let params ← vector valType
    let results ← vector valType
    return { params, results }

/-- A size range: a flag that says whether there is a maximum, then the bounds. -/
def limits : Decoder Limits := do
  let start ← position
  let flag ← byte
  if flag = 0x00 then
    let min ← u32
    return { min, max := none }
  else if flag = 0x01 then
    let min ← u32
    let max ← u32
    return { min, max := some max }
  else
    failAt start (.badLimits flag)

/-- A table type: the byte of the only element type, then the size range. -/
def tableType : Decoder TableType := do
  let start ← position
  let elem ← byte
  if elem ≠ 0x70 then
    failAt start (.badElementType elem)
  else
    limits

/-- Whether a global may be assigned to. -/
def mutability : Decoder Mutability := do
  let start ← position
  let flag ← byte
  if flag = 0x00 then return .const
  else if flag = 0x01 then return .var
  else failAt start (.badMutability flag)

/-- A global type. -/
def globalType : Decoder GlobalType := do
  let type ← valType
  let mutability ← mutability
  return { type, mutability }

/-! ## Imports and exports -/

/-- What an import asks for. -/
def importDesc : Decoder ImportDesc := do
  let start ← position
  let kind ← byte
  if kind = 0x00 then ImportDesc.func <$> u32
  else if kind = 0x01 then ImportDesc.table <$> tableType
  else if kind = 0x02 then ImportDesc.memory <$> limits
  else if kind = 0x03 then ImportDesc.global <$> globalType
  else failAt start (.badImportDesc kind)

/-- An import. -/
def importItem : Decoder Import := do
  let source ← name
  let item ← name
  let desc ← importDesc
  return { source, name := item, desc }

/-- What an export hands out. The index is read before the kind is looked at. -/
def exportDesc : Decoder ExportDesc := do
  let start ← position
  let kind ← byte
  let index ← u32
  if kind = 0x00 then return .func index
  else if kind = 0x01 then return .table index
  else if kind = 0x02 then return .memory index
  else if kind = 0x03 then return .global index
  else failAt start (.badExportDesc kind)

/-- An export. -/
def exportItem : Decoder Export := do
  let item ← name
  let desc ← exportDesc
  return { name := item, desc }

/-! ## Definitions and segments

An expression in a section has no more instructions than the section has bytes. -/

/-- A global with its initialiser, in a section of `size` bytes. -/
def global (size : Nat) : Decoder Global := do
  let type ← globalType
  let initial ← exprWithin size
  return { type, initial }

/-- An element segment, in a section of `size` bytes. -/
def elem (size : Nat) : Decoder ElemSegment := do
  let table ← u32
  let offset ← exprWithin size
  let funcs ← vector u32
  return { table, offset, funcs }

/-- A data segment, in a section of `size` bytes. -/
def data (size : Nat) : Decoder DataSegment := do
  let memory ← u32
  let offset ← exprWithin size
  let part ← span
  return { memory, offset, bytes := part.bytes }

/-- A run of locals. -/
def localRun : Decoder LocalRun := do
  let count ← u32
  let type ← valType
  return { count, type }

/-- Locals and body of a function, which fill the declared size exactly. -/
def code : Decoder Code := do
  let entry ← span
  let size := entry.bytes.length
  let (locals, afterLocals) ← within entry (vector localRun)
  if maxLocals < (locals.map (·.count.toNat)).sum then
    failAt entry.offset .tooManyLocals
  else
    let (body, rest) ← within afterLocals expr
    if rest.bytes.isEmpty then
      return { locals, body }
    else
      failAt rest.offset (.codeSizeMismatch size (size - rest.bytes.length))

end Decoder

end WasmCore
