import WasmCore.Module
import WasmCore.Typing.Error

/-!
# Typing contexts

What a body may refer to: the index spaces of its module, and its own locals.
-/

namespace WasmCore

/-- The index spaces of a module, imports first, laid out for look-up. -/
structure Context where
  types : Array FuncType
  funcs : Array TypeIdx
  tables : Array TableType
  memories : Array MemType
  globals : Array GlobalType

namespace Context

/-- The index spaces of a module. -/
def ofModule (m : Module) : Context where
  types := m.types.toArray
  funcs := m.funcTypeIndices.toArray
  tables := m.tableTypes.toArray
  memories := m.memTypes.toArray
  globals := m.globalTypes.toArray

/-- The function type with the given index. -/
def typeAt (c : Context) (t : TypeIdx) : Except ValidationError FuncType :=
  match c.types[t.toNat]? with
  | some type => .ok type
  | none => .error (.unknownType t)

/-- The type of the function with the given index. -/
def funcType (c : Context) (f : FuncIdx) : Except ValidationError FuncType :=
  match c.funcs[f.toNat]? with
  | some t => c.typeAt t
  | none => .error (.unknownFunc f)

/-- The type of the global with the given index. -/
def globalType (c : Context) (g : GlobalIdx) : Except ValidationError GlobalType :=
  match c.globals[g.toNat]? with
  | some type => .ok type
  | none => .error (.unknownGlobal g)

/-- There is a table with the given index. -/
def requireTable (c : Context) (t : TableIdx) : Except ValidationError Unit :=
  if t.toNat < c.tables.size then .ok () else .error (.unknownTable t)

/-- There is a memory with the given index. -/
def requireMemory (c : Context) (m : MemIdx) : Except ValidationError Unit :=
  if m.toNat < c.memories.size then .ok () else .error (.unknownMemory m)

end Context

/-- What one body may refer to: the index spaces, its locals, and, in a constant expression, the
number of globals it may read. -/
structure BodyContext extends Context where
  locals : Array ValType := #[]
  visibleGlobals : Nat := 0

/-- The type of the local with the given index. -/
def BodyContext.localType (c : BodyContext) (x : LocalIdx) : Except ValidationError ValType :=
  match c.locals[x.toNat]? with
  | some t => .ok t
  | none => .error (.unknownLocal x)

end WasmCore
