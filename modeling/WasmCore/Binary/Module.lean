import WasmCore.Binary.Section

/-!
# Binary modules

A binary is a header and a sequence of sections, each an id, a size and that many bytes. Sections
other than custom ones come in the order of their ids, each at most once. The types and the bodies
of functions stand in two sections and are joined by position.

## Contents

* `Draft`: what the sections read so far have contributed;
* `Draft.addSection`: one section;
* `decode`: a whole binary.
-/

namespace WasmCore

/-- The four bytes that a binary begins with, read with the most significant byte first. -/
def magic : Nat := 0x0061736D

/-- The four bytes of the only version, read with the most significant byte first. -/
def version : Nat := 0x01000000

/-- The id of custom sections, which may stand anywhere. -/
def customId : UInt8 := 0

/-- The largest section id. -/
def lastId : UInt8 := 11

/-- A module in the making. -/
structure Draft where
  module : Module := {}
  /-- The custom sections, in reverse order. -/
  customs : List CustomSection := []
  /-- The id of the last section that was not a custom one, or zero. -/
  previous : UInt8 := customId
  /-- Type indices of the defined functions. -/
  funcTypes : List TypeIdx := []
  /-- Locals and bodies of the defined functions. -/
  codes : List Code := []

namespace Draft

/-- Decodes the contents of a section, which fill the section exactly. -/
def contents {α : Type} (id : UInt8) (part : Input) (d : Decoder α) : Decoder α := do
  let (a, rest) ← Decoder.within part d
  if rest.bytes.isEmpty then
    return a
  else
    let size := part.bytes.length
    Decoder.failAt rest.offset (.sectionSizeMismatch id size (size - rest.bytes.length))

/-- Adds the contents of a custom section: a name, and bytes that are kept as they are. -/
def addCustom (draft : Draft) (part : Input) : Decoder Draft := do
  let (name, rest) ← Decoder.within part Decoder.name
  let custom := { name, bytes := rest.bytes : CustomSection }
  return { draft with customs := custom :: draft.customs }

/-- Adds the contents of the section with the given id, which is at most `lastId`. -/
def addSection (draft : Draft) (id : UInt8) (part : Input) : Decoder Draft :=
  match id.toNat with
  | 0 => draft.addCustom part
  | 1 => do
    let types ← contents id part (.vector .funcType)
    return { draft with module.types := types }
  | 2 => do
    let imports ← contents id part (.vector .importItem)
    return { draft with module.imports := imports }
  | 3 => do
    let funcTypes ← contents id part (.vector .u32)
    return { draft with funcTypes }
  | 4 => do
    let tables ← contents id part (.vector .tableType)
    return { draft with module.tables := tables }
  | 5 => do
    let memories ← contents id part (.vector .limits)
    return { draft with module.memories := memories }
  | 6 => do
    let globals ← contents id part (.vector (.global part.bytes.length))
    return { draft with module.globals := globals }
  | 7 => do
    let exports ← contents id part (.vector .exportItem)
    return { draft with module.exports := exports }
  | 8 => do
    let start ← contents id part .u32
    return { draft with module.start := some start }
  | 9 => do
    let elems ← contents id part (.vector (.elem part.bytes.length))
    return { draft with module.elems := elems }
  | 10 => do
    let codes ← contents id part (.vector .code)
    return { draft with codes }
  | _ => do
    let datas ← contents id part (.vector (.data part.bytes.length))
    return { draft with module.datas := datas }

/-- Reads one section and adds it. -/
def readSection (draft : Draft) : Decoder Draft := do
  let start ← Decoder.position
  let id ← Decoder.byte
  if lastId < id then
    Decoder.failAt start (.sectionInvalid id)
  else if id ≠ customId ∧ id ≤ draft.previous then
    Decoder.failAt start (.sectionOutOfOrder id)
  else
    let part ← Decoder.span
    let previous := if id = customId then draft.previous else id
    { draft with previous }.addSection id part

/-- Reads at most `budget` sections, to the end of the input. -/
def readSections : (budget : Nat) → Draft → Decoder Draft
  | 0, draft => return draft
  | budget + 1, draft => do
    if (← get).bytes.isEmpty then
      return draft
    else
      readSections budget (← draft.readSection)

/-- Joins types and bodies of the defined functions by position, and puts the custom sections in
order. -/
def finish (draft : Draft) : Decoder Module := do
  if draft.funcTypes.length ≠ draft.codes.length then
    let position ← Decoder.position
    Decoder.failAt position (.funcCodeMismatch draft.funcTypes.length draft.codes.length)
  else
    let funcs := draft.funcTypes.zipWith
      (fun typeIdx code => { typeIdx, locals := code.locals, body := code.body : Func })
      draft.codes
    return { draft.module with funcs, customs := draft.customs.reverse }

end Draft

/-- A word of the header: four bytes with the most significant one first. -/
def Decoder.headerWord : Decoder Nat := do
  let part ← take 4
  return Bytes.toNat part.bytes.reverse

/-- The header: magic number and version. -/
def Decoder.header : Decoder Unit := do
  let start ← position
  let found ← headerWord
  if found ≠ magic then
    failAt start (.badMagic found)
  else
    let start ← position
    let found ← headerWord
    if found ≠ version then
      failAt start (.unexpectedVersion found)

/-- A whole module. Every section takes a byte at least, so the number of bytes left is budget
enough. -/
def Decoder.module : Decoder Module := do
  header
  let rest ← get
  let draft ← Draft.readSections rest.bytes.length {}
  draft.finish

/-- Decodes a binary. Only its structure is checked here, not its types. -/
def decode (bytes : List UInt8) : Except DecodeError Module := do
  let (m, _) ← Decoder.module { bytes, offset := 0 }
  return m

end WasmCore
