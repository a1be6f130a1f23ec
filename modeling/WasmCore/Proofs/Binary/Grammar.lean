import WasmCore.Binary.Module

/-!
# `Binary.Grammar` — the binary format

The format as a grammar, apart from how it is read. A form of values is a relation between bytes and the
values that they stand for; a value may be written in more than one way, as an integer with leading zero
groups, and bytes may stand for nothing at all.

* `Form`, `Form.items`, `Form.vector`, `Form.sized`: forms, and how they are put together;
* `Leb.Written`, `Form.unsigned`, `Form.signed`, `Form.name`: integers and names;
* `Opcode.byte`: the opcode of every instruction;
* `Form.instr`, `Form.body`, `Form.expr`: instructions;
* `Section`, `Form.contents`, `Form.sectionItem`: sections;
* `Module.ofSections`, `Conforms`: **the modules that a binary stands for.**
-/

namespace WasmCore

-- Powers and sums of numbers are those of the core library.
attribute [local instance (high)] instPowNat Zero.ofOfNat0

/-- The ways to write the values of a type. -/
abbrev Form (α : Type) := List UInt8 → α → Prop

/-! ## Integers -/

namespace Leb

/-- The number that groups of seven bits make up, least significant group first. -/
def value : List UInt8 → Nat
  | [] => 0
  | b :: rest => b.toNat % 128 + 128 * value rest

/-- The number that groups of seven bits make up in two's complement: the highest bit of the last group
    is the sign. -/
def signedValue (bs : List UInt8) : Int :=
  (value bs : Int) - (if (bs.getLast?.map (·.toNat % 128)).getD 0 < 64 then 0 else 128 ^ bs.length : Nat)

/-- The high bit of every byte but the last says that another one follows. -/
def Chained (bs : List UInt8) : Prop :=
  ∃ lead last, bs = lead ++ [last] ∧ (∀ b ∈ lead, 128 ≤ b) ∧ last < 128

/-- **The bytes of one integer** of `n` bits. There are no more than `⌈n / 7⌉` of them. -/
def Written (n : Nat) (bs : List UInt8) : Prop := bs.length ≤ (n + 6) / 7 ∧ Chained bs

end Leb

namespace Form

variable {α : Type}

/-- An unsigned integer of `n` bits. -/
def unsigned (n : Nat) : Form (BitVec n) := fun bs x =>
  Leb.Written n bs ∧ Leb.value bs = x.toNat

/-- A signed integer of `n` bits. -/
def signed (n : Nat) : Form (BitVec n) := fun bs x =>
  Leb.Written n bs ∧ Leb.signedValue bs = x.toInt

/-- An unsigned integer of 32 bits. -/
def u32 : Form UInt32 := fun bs x => unsigned 32 bs x.toBitVec

/-- A signed integer of 32 bits. -/
def i32 : Form UInt32 := fun bs x => signed 32 bs x.toBitVec

/-- A signed integer of 64 bits. -/
def i64 : Form UInt64 := fun bs x => signed 64 bs x.toBitVec

/-! ## Sequences -/

/-- Items one after another. -/
inductive items (F : Form α) : Form (List α)
  | nil : items F [] []
  | cons {b bs : List UInt8} {x : α} {xs : List α} :
      F b x → items F bs xs → items F (b ++ bs) (x :: xs)

/-- A count, and exactly that many items. -/
inductive vector (F : Form α) : Form (List α)
  | mk {c bs : List UInt8} {count : UInt32} {xs : List α} :
      u32 c count → items F bs xs → count.toNat = xs.length → vector F (c ++ bs) xs

/-- A size, and exactly that many bytes, which are of a form. -/
inductive sized (F : Form α) : Form α
  | mk {c bs : List UInt8} {size : UInt32} {x : α} :
      u32 c size → F bs x → size.toNat = bs.length → sized F (c ++ bs) x

/-- Any bytes. -/
def bytes : Form (List UInt8) := fun bs x => bs = x

/-- The encoding of a string. -/
def utf8 : Form String := fun bs s => bs = s.toByteArray.data.toList

/-- A name. -/
def name : Form String := sized utf8

/-! ## Types -/

/-- A value type. -/
inductive valType : Form ValType
  | i32 : valType [0x7f] .i32
  | i64 : valType [0x7e] .i64
  | f32 : valType [0x7d] .f32
  | f64 : valType [0x7c] .f64

/-- The type of a block: no result, or the type of the one result. -/
inductive blockType : Form BlockType
  | empty : blockType [0x40] .empty
  | value {bs : List UInt8} {t : ValType} : valType bs t → blockType bs (.value t)

/-- A function type. -/
inductive funcType : Form FuncType
  | mk {b₁ b₂ : List UInt8} {params results : List ValType} :
      vector valType b₁ params → vector valType b₂ results →
      funcType (0x60 :: (b₁ ++ b₂)) { params, results }

/-- A size range, without or with a maximum. -/
inductive limits : Form Limits
  | least {bs : List UInt8} {min : UInt32} :
      u32 bs min → limits (0x00 :: bs) { min, max := none }
  | range {b₁ b₂ : List UInt8} {min max : UInt32} :
      u32 b₁ min → u32 b₂ max → limits (0x01 :: (b₁ ++ b₂)) { min, max := some max }

/-- A table type. -/
inductive tableType : Form TableType
  | mk {bs : List UInt8} {t : TableType} : limits bs t → tableType (0x70 :: bs) t

/-- Whether a global may be assigned to. -/
inductive mutability : Form Mutability
  | const : mutability [0x00] .const
  | var : mutability [0x01] .var

/-- A global type. -/
inductive globalType : Form GlobalType
  | mk {b₁ b₂ : List UInt8} {t : ValType} {m : Mutability} :
      valType b₁ t → mutability b₂ m → globalType (b₁ ++ b₂) { type := t, mutability := m }

end Form

/-! ## Opcodes -/

/-- The opcode of a load. -/
def LoadOp.opcode : LoadOp → UInt8
  | whole .i32 => 0x28
  | whole .i64 => 0x29
  | whole .f32 => 0x2a
  | whole .f64 => 0x2b
  | byte .w32 .signed => 0x2c
  | byte .w32 .unsigned => 0x2d
  | half .w32 .signed => 0x2e
  | half .w32 .unsigned => 0x2f
  | byte .w64 .signed => 0x30
  | byte .w64 .unsigned => 0x31
  | half .w64 .signed => 0x32
  | half .w64 .unsigned => 0x33
  | word .signed => 0x34
  | word .unsigned => 0x35

/-- The opcode of a store. -/
def StoreOp.opcode : StoreOp → UInt8
  | whole .i32 => 0x36
  | whole .i64 => 0x37
  | whole .f32 => 0x38
  | whole .f64 => 0x39
  | byte .w32 => 0x3a
  | half .w32 => 0x3b
  | byte .w64 => 0x3c
  | half .w64 => 0x3d
  | word => 0x3e

/-- The place of an integer comparison among those of its width. -/
def IntCompare.place : IntCompare → UInt8
  | eq => 0
  | ne => 1
  | lt .signed => 2
  | lt .unsigned => 3
  | gt .signed => 4
  | gt .unsigned => 5
  | le .signed => 6
  | le .unsigned => 7
  | ge .signed => 8
  | ge .unsigned => 9

/-- The place of a float comparison among those of its width. -/
def FloatCompare.place : FloatCompare → UInt8
  | eq => 0
  | ne => 1
  | lt => 2
  | gt => 3
  | le => 4
  | ge => 5

/-- The place of an integer operation on one operand among those of its width. -/
def IntUnary.place : IntUnary → UInt8
  | clz => 0
  | ctz => 1
  | popcnt => 2

/-- The place of an integer operation on two operands among those of its width. -/
def IntBinary.place : IntBinary → UInt8
  | add => 0
  | sub => 1
  | mul => 2
  | div .signed => 3
  | div .unsigned => 4
  | rem .signed => 5
  | rem .unsigned => 6
  | and => 7
  | or => 8
  | xor => 9
  | shl => 10
  | shr .signed => 11
  | shr .unsigned => 12
  | rotl => 13
  | rotr => 14

/-- The place of a float operation on one operand among those of its width. -/
def FloatUnary.place : FloatUnary → UInt8
  | abs => 0
  | neg => 1
  | ceil => 2
  | floor => 3
  | trunc => 4
  | nearest => 5
  | sqrt => 6

/-- The place of a float operation on two operands among those of its width. -/
def FloatBinary.place : FloatBinary → UInt8
  | add => 0
  | sub => 1
  | mul => 2
  | div => 3
  | min => 4
  | max => 5
  | copysign => 6

/-- The opcode of a conversion. -/
def Conversion.opcode : Conversion → UInt8
  | wrap => 0xa7
  | truncate .w32 .w32 .signed => 0xa8
  | truncate .w32 .w32 .unsigned => 0xa9
  | truncate .w64 .w32 .signed => 0xaa
  | truncate .w64 .w32 .unsigned => 0xab
  | extend .signed => 0xac
  | extend .unsigned => 0xad
  | truncate .w32 .w64 .signed => 0xae
  | truncate .w32 .w64 .unsigned => 0xaf
  | truncate .w64 .w64 .signed => 0xb0
  | truncate .w64 .w64 .unsigned => 0xb1
  | convert .w32 .w32 .signed => 0xb2
  | convert .w32 .w32 .unsigned => 0xb3
  | convert .w64 .w32 .signed => 0xb4
  | convert .w64 .w32 .unsigned => 0xb5
  | demote => 0xb6
  | convert .w32 .w64 .signed => 0xb7
  | convert .w32 .w64 .unsigned => 0xb8
  | convert .w64 .w64 .signed => 0xb9
  | convert .w64 .w64 .unsigned => 0xba
  | promote => 0xbb
  | floatBits .w32 => 0xbc
  | floatBits .w64 => 0xbd
  | ofBits .w32 => 0xbe
  | ofBits .w64 => 0xbf

/-- The opcode of a number operation. -/
def NumOp.opcode : NumOp → UInt8
  | intTest .w32 => 0x45
  | intCompare .w32 op => 0x46 + op.place
  | intTest .w64 => 0x50
  | intCompare .w64 op => 0x51 + op.place
  | floatCompare .w32 op => 0x5b + op.place
  | floatCompare .w64 op => 0x61 + op.place
  | intUnary .w32 op => 0x67 + op.place
  | intBinary .w32 op => 0x6a + op.place
  | intUnary .w64 op => 0x79 + op.place
  | intBinary .w64 op => 0x7c + op.place
  | floatUnary .w32 op => 0x8b + op.place
  | floatBinary .w32 op => 0x92 + op.place
  | floatUnary .w64 op => 0x99 + op.place
  | floatBinary .w64 op => 0xa0 + op.place
  | convert c => c.opcode

/-- The opcode of an instruction without bodies. -/
def Mnemonic.opcode : Mnemonic → UInt8
  | unreachable => 0x00
  | nop => 0x01
  | br => 0x0c
  | brIf => 0x0d
  | brTable => 0x0e
  | ret => 0x0f
  | call => 0x10
  | callIndirect => 0x11
  | drop => 0x1a
  | select => 0x1b
  | localGet => 0x20
  | localSet => 0x21
  | localTee => 0x22
  | globalGet => 0x23
  | globalSet => 0x24
  | load op => op.opcode
  | store op => op.opcode
  | memorySize => 0x3f
  | memoryGrow => 0x40
  | const .i32 => 0x41
  | const .i64 => 0x42
  | const .f32 => 0x43
  | const .f64 => 0x44
  | numeric op => op.opcode

/-- The byte that opens a block. -/
def BlockForm.opcode : BlockForm → UInt8
  | block => 0x02
  | loop => 0x03
  | ifThen => 0x04

/-- **The opcode of everything that an expression is made of.** -/
def Opcode.byte : Opcode → UInt8
  | opening form => form.opcode
  | elseMark => 0x05
  | endMark => 0x0b
  | plain m => m.opcode

/-! ## Instructions -/

namespace Form

/-- Alignment and offset of a memory access. -/
inductive memArg : Form MemArg
  | mk {b₁ b₂ : List UInt8} {align offset : UInt32} :
      u32 b₁ align → u32 b₂ offset → memArg (b₁ ++ b₂) { align, offset }

/-- The constant of a constant instruction. Floats are written as their bits. -/
inductive constant : Form Value
  | i32 {bs : List UInt8} {x : UInt32} : i32 bs x → constant bs (.i32 x)
  | i64 {bs : List UInt8} {x : UInt64} : i64 bs x → constant bs (.i64 x)
  | f32 {bs : List UInt8} {x : UInt32} :
      bs.length = 4 → Bytes.toNat bs = x.toNat → constant bs (.f32 x)
  | f64 {bs : List UInt8} {x : UInt64} :
      bs.length = 8 → Bytes.toNat bs = x.toNat → constant bs (.f64 x)

/-- The immediates of an instruction without bodies. Reserved bytes are zero. -/
inductive immediates : Mnemonic → Form Instr
  | unreachable : immediates .unreachable [] .unreachable
  | nop : immediates .nop [] .nop
  | br {bs : List UInt8} {l : LabelIdx} : u32 bs l → immediates .br bs (.br l)
  | brIf {bs : List UInt8} {l : LabelIdx} : u32 bs l → immediates .brIf bs (.brIf l)
  | brTable {b₁ b₂ : List UInt8} {ls : List LabelIdx} {default : LabelIdx} :
      vector u32 b₁ ls → u32 b₂ default →
      immediates .brTable (b₁ ++ b₂) (.brTable ls.toArray default)
  | ret : immediates .ret [] .ret
  | call {bs : List UInt8} {f : FuncIdx} : u32 bs f → immediates .call bs (.call f)
  | callIndirect {bs : List UInt8} {t : TypeIdx} :
      u32 bs t → immediates .callIndirect (bs ++ [0x00]) (.callIndirect t)
  | drop : immediates .drop [] .drop
  | select : immediates .select [] .select
  | localGet {bs : List UInt8} {x : LocalIdx} : u32 bs x → immediates .localGet bs (.localGet x)
  | localSet {bs : List UInt8} {x : LocalIdx} : u32 bs x → immediates .localSet bs (.localSet x)
  | localTee {bs : List UInt8} {x : LocalIdx} : u32 bs x → immediates .localTee bs (.localTee x)
  | globalGet {bs : List UInt8} {g : GlobalIdx} : u32 bs g → immediates .globalGet bs (.globalGet g)
  | globalSet {bs : List UInt8} {g : GlobalIdx} : u32 bs g → immediates .globalSet bs (.globalSet g)
  | load {bs : List UInt8} {op : LoadOp} {arg : MemArg} :
      memArg bs arg → immediates (.load op) bs (.load op arg)
  | store {bs : List UInt8} {op : StoreOp} {arg : MemArg} :
      memArg bs arg → immediates (.store op) bs (.store op arg)
  | memorySize : immediates .memorySize [0x00] .memorySize
  | memoryGrow : immediates .memoryGrow [0x00] .memoryGrow
  | const {bs : List UInt8} {v : Value} : constant bs v → immediates (.const v.type) bs (.const v)
  | numeric {op : NumOp} : immediates (.numeric op) [] (.numeric op)

mutual

/-- **An instruction.** A block is closed by `end`, and the arms of a conditional are parted by `else`. -/
inductive instr : Form Instr
  | plain {m : Mnemonic} {bs : List UInt8} {i : Instr} :
      immediates m bs i → instr (m.opcode :: bs) i
  | block {b₁ b₂ : List UInt8} {t : BlockType} {is : List Instr} :
      blockType b₁ t → body b₂ is → instr (0x02 :: (b₁ ++ b₂ ++ [0x0b])) (.block t is)
  | loop {b₁ b₂ : List UInt8} {t : BlockType} {is : List Instr} :
      blockType b₁ t → body b₂ is → instr (0x03 :: (b₁ ++ b₂ ++ [0x0b])) (.loop t is)
  | ifThen {b₁ b₂ : List UInt8} {t : BlockType} {is : List Instr} :
      blockType b₁ t → body b₂ is → instr (0x04 :: (b₁ ++ b₂ ++ [0x0b])) (.ifThen t is)
  | ifElse {b₁ b₂ b₃ : List UInt8} {t : BlockType} {is js : List Instr} :
      blockType b₁ t → body b₂ is → body b₃ js →
      instr (0x04 :: (b₁ ++ b₂ ++ 0x05 :: (b₃ ++ [0x0b]))) (.ifElse t is js)

/-- Instructions one after another. -/
inductive body : Form (List Instr)
  | nil : body [] []
  | cons {b bs : List UInt8} {i : Instr} {is : List Instr} :
      instr b i → body bs is → body (b ++ bs) (i :: is)

end

end Form

mutual

/-- How deep structured instructions are nested in an instruction, itself included. -/
def Instr.nesting : Instr → Nat
  | .block _ body => 1 + nestingOfBody body
  | .loop _ body => 1 + nestingOfBody body
  | .ifThen _ body => 1 + nestingOfBody body
  | .ifElse _ body alternate => 1 + max (nestingOfBody body) (nestingOfBody alternate)
  | _ => 0

/-- How deep structured instructions are nested in a body. -/
def nestingOfBody : List Instr → Nat
  | [] => 0
  | i :: rest => max i.nesting (nestingOfBody rest)

end

namespace Form

/-- An expression: a body, and the `end` that closes it. No more than 1024 blocks are open at any point. -/
inductive expr : Form Expr
  | mk {bs : List UInt8} {e : Expr} :
      body bs e → nestingOfBody e ≤ 1024 → expr (bs ++ [0x0b]) e

/-! ## Items of sections -/

/-- What an import asks for. -/
inductive importDesc : Form ImportDesc
  | func {bs : List UInt8} {t : TypeIdx} : u32 bs t → importDesc (0x00 :: bs) (.func t)
  | table {bs : List UInt8} {t : TableType} : tableType bs t → importDesc (0x01 :: bs) (.table t)
  | memory {bs : List UInt8} {t : MemType} : limits bs t → importDesc (0x02 :: bs) (.memory t)
  | global {bs : List UInt8} {t : GlobalType} : globalType bs t → importDesc (0x03 :: bs) (.global t)

/-- An import. -/
inductive importItem : Form Import
  | mk {b₁ b₂ b₃ : List UInt8} {source item : String} {desc : ImportDesc} :
      name b₁ source → name b₂ item → importDesc b₃ desc →
      importItem (b₁ ++ b₂ ++ b₃) { source, name := item, desc }

/-- What an export hands out. -/
inductive exportDesc : Form ExportDesc
  | func {bs : List UInt8} {f : FuncIdx} : u32 bs f → exportDesc (0x00 :: bs) (.func f)
  | table {bs : List UInt8} {t : TableIdx} : u32 bs t → exportDesc (0x01 :: bs) (.table t)
  | memory {bs : List UInt8} {m : MemIdx} : u32 bs m → exportDesc (0x02 :: bs) (.memory m)
  | global {bs : List UInt8} {g : GlobalIdx} : u32 bs g → exportDesc (0x03 :: bs) (.global g)

/-- An export. -/
inductive exportItem : Form Export
  | mk {b₁ b₂ : List UInt8} {item : String} {desc : ExportDesc} :
      name b₁ item → exportDesc b₂ desc → exportItem (b₁ ++ b₂) { name := item, desc }

/-- A global with its initialiser. -/
inductive global : Form Global
  | mk {b₁ b₂ : List UInt8} {type : GlobalType} {initial : Expr} :
      globalType b₁ type → expr b₂ initial → global (b₁ ++ b₂) { type, initial }

/-- An element segment. -/
inductive elem : Form ElemSegment
  | mk {b₁ b₂ b₃ : List UInt8} {table : TableIdx} {offset : Expr} {funcs : List FuncIdx} :
      u32 b₁ table → expr b₂ offset → vector u32 b₃ funcs →
      elem (b₁ ++ b₂ ++ b₃) { table, offset, funcs }

/-- A data segment. -/
inductive data : Form DataSegment
  | mk {b₁ b₂ b₃ : List UInt8} {memory : MemIdx} {offset : Expr} {content : List UInt8} :
      u32 b₁ memory → expr b₂ offset → sized bytes b₃ content →
      data (b₁ ++ b₂ ++ b₃) { memory, offset, bytes := content }

/-- A run of locals. -/
inductive localRun : Form LocalRun
  | mk {b₁ b₂ : List UInt8} {count : UInt32} {type : ValType} :
      u32 b₁ count → valType b₂ type → localRun (b₁ ++ b₂) { count, type }

/-- Locals and body of a function: no more than 50,000 locals in total. -/
inductive function : Form Code
  | mk {b₁ b₂ : List UInt8} {locals : List LocalRun} {body : Expr} :
      vector localRun b₁ locals → expr b₂ body →
      (locals.map fun run => run.count.toNat).sum ≤ 50000 →
      function (b₁ ++ b₂) { locals, body }

/-- A code entry, which fills its declared size exactly. -/
def code : Form Code := sized function

end Form

/-! ## Sections -/

/-- A section with its contents. -/
inductive Section
  | custom (c : CustomSection)
  | types (ts : List FuncType)
  | imports (is : List Import)
  | funcs (ts : List TypeIdx)
  | tables (ts : List TableType)
  | memories (ts : List MemType)
  | globals (gs : List Global)
  | exports (es : List Export)
  | start (f : FuncIdx)
  | elems (es : List ElemSegment)
  | codes (cs : List Code)
  | datas (ds : List DataSegment)

/-- The id of a section. -/
def Section.id : Section → UInt8
  | custom _ => 0
  | types _ => 1
  | imports _ => 2
  | funcs _ => 3
  | tables _ => 4
  | memories _ => 5
  | globals _ => 6
  | exports _ => 7
  | start _ => 8
  | elems _ => 9
  | codes _ => 10
  | datas _ => 11

namespace Form

/-- The bytes of a section after its size. A custom section has a name, and any bytes after it. -/
def contents : Form Section
  | bs, .custom c => ∃ b, name b c.name ∧ bs = b ++ c.bytes
  | bs, .types ts => vector funcType bs ts
  | bs, .imports is => vector importItem bs is
  | bs, .funcs ts => vector u32 bs ts
  | bs, .tables ts => vector tableType bs ts
  | bs, .memories ts => vector limits bs ts
  | bs, .globals gs => vector global bs gs
  | bs, .exports es => vector exportItem bs es
  | bs, .start f => u32 bs f
  | bs, .elems es => vector elem bs es
  | bs, .codes cs => vector code bs cs
  | bs, .datas ds => vector data bs ds

/-- A section: its id, a size, and exactly that many bytes. -/
inductive sectionItem : Form Section
  | mk {bs : List UInt8} {x : Section} : sized contents bs x → sectionItem (x.id :: bs) x

end Form

/-! ## Modules -/

namespace Section

/-- The custom section that a section is. -/
def ofCustom : Section → List CustomSection
  | custom c => [c]
  | _ => []

/-- The function types that a section holds. -/
def ofTypes : Section → List FuncType
  | types ts => ts
  | _ => []

/-- The imports that a section holds. -/
def ofImports : Section → List Import
  | imports is => is
  | _ => []

/-- The type indices of functions that a section holds. -/
def ofFuncs : Section → List TypeIdx
  | funcs ts => ts
  | _ => []

/-- The tables that a section holds. -/
def ofTables : Section → List TableType
  | tables ts => ts
  | _ => []

/-- The memories that a section holds. -/
def ofMemories : Section → List MemType
  | memories ts => ts
  | _ => []

/-- The globals that a section holds. -/
def ofGlobals : Section → List Global
  | globals gs => gs
  | _ => []

/-- The exports that a section holds. -/
def ofExports : Section → List Export
  | exports es => es
  | _ => []

/-- The start function that a section names. -/
def ofStart : Section → List FuncIdx
  | start f => [f]
  | _ => []

/-- The element segments that a section holds. -/
def ofElems : Section → List ElemSegment
  | elems es => es
  | _ => []

/-- The locals and bodies of functions that a section holds. -/
def ofCodes : Section → List Code
  | codes cs => cs
  | _ => []

/-- The data segments that a section holds. -/
def ofDatas : Section → List DataSegment
  | datas ds => ds
  | _ => []

end Section

/-- A function, put together from its type index and from its locals and body. -/
def Func.join (typeIdx : TypeIdx) (c : Code) : Func := { typeIdx, locals := c.locals, body := c.body }

/-- **The module that sections stand for.** Functions are joined by position. -/
def Module.ofSections (ss : List Section) : Module where
  customs := ss.flatMap Section.ofCustom
  types := ss.flatMap Section.ofTypes
  imports := ss.flatMap Section.ofImports
  funcs := (ss.flatMap Section.ofFuncs).zipWith Func.join (ss.flatMap Section.ofCodes)
  tables := ss.flatMap Section.ofTables
  memories := ss.flatMap Section.ofMemories
  globals := ss.flatMap Section.ofGlobals
  exports := ss.flatMap Section.ofExports
  start := (ss.flatMap Section.ofStart).head?
  elems := ss.flatMap Section.ofElems
  datas := ss.flatMap Section.ofDatas

/-- The header: magic number and version. -/
def header : List UInt8 := [0x00, 0x61, 0x73, 0x6d, 0x01, 0x00, 0x00, 0x00]

/-- The ids of sections other than custom ones strictly increase, so that each occurs at most once. -/
def Section.Increasing (ss : List Section) : Prop :=
  ((ss.map Section.id).filter (· ≠ 0)).Pairwise (· < ·)

/-- **A conformant encoding of a module**: the header, and sections to the last byte, in increasing order.
    There are as many bodies as types of functions, and the module is the one that the sections stand
    for. -/
def Conforms (b : List UInt8) (m : Module) : Prop :=
  ∃ ss bs, b = header ++ bs ∧ Form.items Form.sectionItem bs ss ∧ Section.Increasing ss ∧
    (ss.flatMap Section.ofFuncs).length = (ss.flatMap Section.ofCodes).length ∧
    m = Module.ofSections ss

end WasmCore
