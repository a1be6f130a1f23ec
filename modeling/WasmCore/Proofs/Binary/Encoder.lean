import WasmCore.Proofs.Binary.Shortest

/-!
# `Binary.Encoder` — the canonical way to write things

The grammar leaves a choice in how integers are written. The encoder makes it: integers are written as
short as they can be. Everything else follows the grammar, so that what is written is of the right form
wherever counts and sizes fit in 32 bits. They do if the whole does: a vector has no more items than bytes.

* `Encoder.instr`, `Encoder.body`, `Encoder.expr`: instructions;
* `Encoder.contents`, `Encoder.sectionItem`: sections;
* `Encoder.Writes`: bytes of a form, unless they are too many;
* `Encoder.writes_vector`, `Encoder.writes_sized`, `Encoder.writes_instr`: one lemma for each form;
* `Encoder.form_sectionItem`: **a section within the limits is written as one.**
-/

namespace WasmCore

-- Sums of numbers start at the core library's zero.
attribute [local instance (high)] Zero.ofOfNat0

namespace Encoder

variable {α : Type}

/-! ## Integers, sequences and names -/

/-- An unsigned integer of 32 bits. -/
def u32 (x : UInt32) : List UInt8 := Leb.shortest 4 x.toNat

/-- A signed integer of 32 bits. -/
def i32 (x : UInt32) : List UInt8 := Leb.shortestSigned 4 x.toBitVec.toInt

/-- A signed integer of 64 bits. -/
def i64 (x : UInt64) : List UInt8 := Leb.shortestSigned 9 x.toBitVec.toInt

/-- A count, and the items. -/
def vector (item : α → List UInt8) (xs : List α) : List UInt8 :=
  u32 (UInt32.ofNat xs.length) ++ xs.flatMap item

/-- A size, and the bytes. -/
def sized (bs : List UInt8) : List UInt8 := u32 (UInt32.ofNat bs.length) ++ bs

/-- A name. -/
def name (s : String) : List UInt8 := sized s.toByteArray.data.toList

/-! ## Types -/

/-- A value type. -/
def valType : ValType → List UInt8
  | .i32 => [0x7f]
  | .i64 => [0x7e]
  | .f32 => [0x7d]
  | .f64 => [0x7c]

/-- The type of a block. -/
def blockType : BlockType → List UInt8
  | .empty => [0x40]
  | .value t => valType t

/-- A function type. -/
def funcType (t : FuncType) : List UInt8 := 0x60 :: (vector valType t.params ++ vector valType t.results)

/-- A size range. -/
def limits : Limits → List UInt8
  | { min, max := none } => 0x00 :: u32 min
  | { min, max := some max } => 0x01 :: (u32 min ++ u32 max)

/-- A table type. -/
def tableType (t : TableType) : List UInt8 := 0x70 :: limits t

/-- Whether a global may be assigned to. -/
def mutability : Mutability → List UInt8
  | .const => [0x00]
  | .var => [0x01]

/-- A global type. -/
def globalType (t : GlobalType) : List UInt8 := valType t.type ++ mutability t.mutability

/-! ## Instructions -/

/-- Alignment and offset of a memory access. -/
def memArg (arg : MemArg) : List UInt8 := u32 arg.align ++ u32 arg.offset

/-- A constant. -/
def constant : Value → List UInt8
  | .i32 x => i32 x
  | .i64 x => i64 x
  | .f32 x => Bytes.ofNat 4 x.toNat
  | .f64 x => Bytes.ofNat 8 x.toNat

mutual

/-- **An instruction.** -/
def instr : Instr → List UInt8
  | .unreachable => [Mnemonic.unreachable.opcode]
  | .nop => [Mnemonic.nop.opcode]
  | .block t is => 0x02 :: (blockType t ++ body is ++ [0x0b])
  | .loop t is => 0x03 :: (blockType t ++ body is ++ [0x0b])
  | .ifThen t is => 0x04 :: (blockType t ++ body is ++ [0x0b])
  | .ifElse t is js => 0x04 :: (blockType t ++ body is ++ 0x05 :: (body js ++ [0x0b]))
  | .br l => Mnemonic.br.opcode :: u32 l
  | .brIf l => Mnemonic.brIf.opcode :: u32 l
  | .brTable ls default => Mnemonic.brTable.opcode :: (vector u32 ls.toList ++ u32 default)
  | .ret => [Mnemonic.ret.opcode]
  | .call f => Mnemonic.call.opcode :: u32 f
  | .callIndirect t => Mnemonic.callIndirect.opcode :: (u32 t ++ [0x00])
  | .drop => [Mnemonic.drop.opcode]
  | .select => [Mnemonic.select.opcode]
  | .localGet x => Mnemonic.localGet.opcode :: u32 x
  | .localSet x => Mnemonic.localSet.opcode :: u32 x
  | .localTee x => Mnemonic.localTee.opcode :: u32 x
  | .globalGet g => Mnemonic.globalGet.opcode :: u32 g
  | .globalSet g => Mnemonic.globalSet.opcode :: u32 g
  | .load op arg => (Mnemonic.load op).opcode :: memArg arg
  | .store op arg => (Mnemonic.store op).opcode :: memArg arg
  | .memorySize => [Mnemonic.memorySize.opcode, 0x00]
  | .memoryGrow => [Mnemonic.memoryGrow.opcode, 0x00]
  | .const v => (Mnemonic.const v.type).opcode :: constant v
  | .numeric op => [(Mnemonic.numeric op).opcode]

/-- Instructions one after another. -/
def body : List Instr → List UInt8
  | [] => []
  | i :: is => instr i ++ body is

end

/-- An expression. -/
def expr (e : Expr) : List UInt8 := body e ++ [0x0b]

/-! ## Sections -/

/-- What an import asks for. -/
def importDesc : ImportDesc → List UInt8
  | .func t => 0x00 :: u32 t
  | .table t => 0x01 :: tableType t
  | .memory t => 0x02 :: limits t
  | .global t => 0x03 :: globalType t

/-- An import. -/
def importItem (i : Import) : List UInt8 := name i.source ++ name i.name ++ importDesc i.desc

/-- What an export hands out. -/
def exportDesc : ExportDesc → List UInt8
  | .func f => 0x00 :: u32 f
  | .table t => 0x01 :: u32 t
  | .memory m => 0x02 :: u32 m
  | .global g => 0x03 :: u32 g

/-- An export. -/
def exportItem (e : Export) : List UInt8 := name e.name ++ exportDesc e.desc

/-- A global with its initialiser. -/
def global (g : Global) : List UInt8 := globalType g.type ++ expr g.initial

/-- An element segment. -/
def elem (e : ElemSegment) : List UInt8 := u32 e.table ++ expr e.offset ++ vector u32 e.funcs

/-- A data segment. -/
def data (d : DataSegment) : List UInt8 := u32 d.memory ++ expr d.offset ++ sized d.bytes

/-- A run of locals. -/
def localRun (run : LocalRun) : List UInt8 := u32 run.count ++ valType run.type

/-- A code entry. -/
def code (c : Code) : List UInt8 := sized (vector localRun c.locals ++ expr c.body)

/-- The bytes of a section after its size. -/
def contents : Section → List UInt8
  | .custom c => name c.name ++ c.bytes
  | .types ts => vector funcType ts
  | .imports is => vector importItem is
  | .funcs ts => vector u32 ts
  | .tables ts => vector tableType ts
  | .memories ts => vector limits ts
  | .globals gs => vector global gs
  | .exports es => vector exportItem es
  | .start f => u32 f
  | .elems es => vector elem es
  | .codes cs => vector code cs
  | .datas ds => vector data ds

/-- A section. -/
def sectionItem (x : Section) : List UInt8 := x.id :: sized (contents x)

/-! ## Bytes of a form -/

/-- **Bytes of a form, unless there are too many of them.** -/
structure Writes (F : Form α) (b : List UInt8) (x : α) : Prop where
  pos : 0 < b.length
  form : b.length < UInt32.size → F b x

variable {F : Form α}

theorem form_u32 (x : UInt32) : Form.u32 (u32 x) x :=
  Form.unsigned_shortest (by decide) x.toBitVec

theorem form_i32 (x : UInt32) : Form.i32 (i32 x) x :=
  Form.signed_shortest (by decide) x.toBitVec

theorem form_i64 (x : UInt64) : Form.i64 (i64 x) x :=
  Form.signed_shortest (by decide) x.toBitVec

theorem length_u32_pos (x : UInt32) : 0 < (u32 x).length := by
  obtain ⟨⟨-, lead, last, hu32, -⟩, -⟩ := form_u32 x
  rw [hu32, List.length_append]
  exact Nat.succ_pos _

theorem writes_u32 (x : UInt32) : Writes Form.u32 (u32 x) x := ⟨length_u32_pos x, fun _ => form_u32 x⟩

/-- Items one after another. -/
theorem form_items {item : α → List UInt8} {xs : List α} (h : ∀ x ∈ xs, F (item x) x) :
    Form.items F (xs.flatMap item) xs := by
  induction xs with
  | nil => exact .nil
  | cons x xs ih =>
    rw [List.flatMap_cons]
    refine .cons (h x List.mem_cons_self) (ih ?_)
    intro y hy
    exact h y (List.mem_cons_of_mem x hy)

/-- An item is no longer than all items together. -/
theorem length_le_of_mem {item : α → List UInt8} {xs : List α} {x : α} (hx : x ∈ xs) :
    (item x).length ≤ (xs.flatMap item).length := by
  rw [List.flatMap_def]
  exact (List.sublist_flatten_of_mem (List.mem_map_of_mem hx)).length_le

/-- There are no more items than bytes. -/
theorem length_le_flatMap {item : α → List UInt8} {xs : List α} (h : ∀ x ∈ xs, Writes F (item x) x) :
    xs.length ≤ (xs.flatMap item).length := by
  induction xs with
  | nil => exact Nat.zero_le _
  | cons x xs ih =>
    have hx := (h x List.mem_cons_self).pos
    have hxs := ih fun y hy => h y (List.mem_cons_of_mem x hy)
    rw [List.flatMap_cons, List.length_append, List.length_cons]
    omega

/-- **A vector of items.** -/
theorem writes_vector {item : α → List UInt8} {xs : List α} (h : ∀ x ∈ xs, Writes F (item x) x) :
    Writes (Form.vector F) (vector item xs) xs := by
  have hcount := length_u32_pos (UInt32.ofNat xs.length)
  constructor
  · rw [vector, List.length_append]
    omega
  · intro hsize
    -- every item takes a byte, so that the count fits where the bytes do
    have hitems := length_le_flatMap h
    rw [vector, List.length_append] at hsize
    refine .mk (form_u32 _) (form_items fun x hx => (h x hx).form ?_) ?_
    · exact Nat.lt_of_le_of_lt (length_le_of_mem hx) (by omega)
    · exact UInt32.toNat_ofNat_of_lt' (by omega)

/-- **Bytes behind their size.** -/
theorem writes_sized {bs : List UInt8} {x : α} (h : bs.length < UInt32.size → F bs x) :
    Writes (Form.sized F) (sized bs) x := by
  have hcount := length_u32_pos (UInt32.ofNat bs.length)
  constructor
  · rw [sized, List.length_append]
    omega
  · intro hsize
    rw [sized, List.length_append] at hsize
    refine .mk (form_u32 _) (h (by omega)) ?_
    exact UInt32.toNat_ofNat_of_lt' (by omega)

theorem writes_name (s : String) : Writes Form.name (name s) s := writes_sized fun _ => rfl

/-- What begins with a byte. -/
theorem writes_cons {tag : UInt8} {b : List UInt8} {x : α} (h : b.length < UInt32.size → F (tag :: b) x) :
    Writes F (tag :: b) x := by
  constructor
  · exact Nat.succ_pos _
  · intro hsize
    rw [List.length_cons] at hsize
    exact h (by omega)

/-- What begins with bytes that are written. -/
theorem writes_append {β : Type} {G : Form β} {b₁ b₂ : List UInt8} {x : α} {y : β} (hx : Writes F b₁ x)
    (h : F b₁ x → b₂.length < UInt32.size → G (b₁ ++ b₂) y) : Writes G (b₁ ++ b₂) y := by
  have hpos := hx.pos
  constructor
  · rw [List.length_append]
    omega
  · intro hsize
    rw [List.length_append] at hsize
    exact h (hx.form (by omega)) (by omega)

/-! ## Types -/

theorem writes_valType (t : ValType) : Writes Form.valType (valType t) t := by
  cases t with
  | i32 => exact writes_cons fun _ => .i32
  | i64 => exact writes_cons fun _ => .i64
  | f32 => exact writes_cons fun _ => .f32
  | f64 => exact writes_cons fun _ => .f64

theorem writes_blockType (t : BlockType) : Writes Form.blockType (blockType t) t := by
  cases t with
  | empty => exact writes_cons fun _ => .empty
  | value t => exact ⟨(writes_valType t).pos, fun h => .value ((writes_valType t).form h)⟩

theorem writes_funcType (t : FuncType) : Writes Form.funcType (funcType t) t := by
  have hparams := writes_vector fun x (_ : x ∈ t.params) => writes_valType x
  have hresults := writes_vector fun x (_ : x ∈ t.results) => writes_valType x
  apply writes_cons
  intro hsize
  rw [List.length_append] at hsize
  exact .mk (hparams.form (by omega)) (hresults.form (by omega))

theorem writes_limits (t : Limits) : Writes Form.limits (limits t) t := by
  obtain ⟨min, max⟩ := t
  cases max with
  | none => exact writes_cons fun _ => .least (form_u32 min)
  | some max => exact writes_cons fun _ => .range (form_u32 min) (form_u32 max)

theorem writes_tableType (t : TableType) : Writes Form.tableType (tableType t) t :=
  writes_cons fun hsize => .mk ((writes_limits t).form hsize)

theorem writes_mutability (m : Mutability) : Writes Form.mutability (mutability m) m := by
  cases m with
  | const => exact writes_cons fun _ => .const
  | var => exact writes_cons fun _ => .var

theorem writes_globalType (t : GlobalType) : Writes Form.globalType (globalType t) t :=
  writes_append (writes_valType t.type) fun htype hsize =>
    .mk htype ((writes_mutability t.mutability).form hsize)

/-! ## Instructions -/

theorem form_memArg (arg : MemArg) : Form.memArg (memArg arg) arg :=
  .mk (form_u32 arg.align) (form_u32 arg.offset)

theorem form_constant (v : Value) : Form.constant (constant v) v := by
  cases v with
  | i32 x => exact .i32 (form_i32 x)
  | i64 x => exact .i64 (form_i64 x)
  | f32 x =>
    refine .f32 (Bytes.length_ofNat 4 _) ?_
    rw [constant, Bytes.toNat_ofNat, Nat.mod_eq_of_lt x.toNat_lt]
  | f64 x =>
    refine .f64 (Bytes.length_ofNat 8 _) ?_
    rw [constant, Bytes.toNat_ofNat, Nat.mod_eq_of_lt x.toNat_lt]

/-- Instructions without bodies. -/
theorem writes_plain {m : Mnemonic} {b : List UInt8} {i : Instr}
    (h : b.length < UInt32.size → Form.immediates m b i) : Writes Form.instr (m.opcode :: b) i :=
  writes_cons fun hsize => .plain (h hsize)

mutual

/-- **An instruction**, by recursion on it. -/
theorem writes_instr : ∀ i : Instr, Writes Form.instr (instr i) i
  | .unreachable => writes_plain fun _ => .unreachable
  | .nop => writes_plain fun _ => .nop
  | .block t is => by
    unfold instr
    apply writes_cons
    intro hsize
    simp only [List.length_append] at hsize
    exact .block ((writes_blockType t).form (by omega)) (form_body is (by omega))
  | .loop t is => by
    unfold instr
    apply writes_cons
    intro hsize
    simp only [List.length_append] at hsize
    exact .loop ((writes_blockType t).form (by omega)) (form_body is (by omega))
  | .ifThen t is => by
    unfold instr
    apply writes_cons
    intro hsize
    simp only [List.length_append] at hsize
    exact .ifThen ((writes_blockType t).form (by omega)) (form_body is (by omega))
  | .ifElse t is js => by
    unfold instr
    apply writes_cons
    intro hsize
    simp only [List.length_append, List.length_cons] at hsize
    exact .ifElse ((writes_blockType t).form (by omega)) (form_body is (by omega))
      (form_body js (by omega))
  | .br l => writes_plain fun _ => .br (form_u32 l)
  | .brIf l => writes_plain fun _ => .brIf (form_u32 l)
  | .brTable ls default => by
    have hlabels := writes_vector fun l (_ : l ∈ ls.toList) => writes_u32 l
    unfold instr
    apply writes_plain
    intro hsize
    rw [List.length_append] at hsize
    exact .brTable (hlabels.form (by omega)) (form_u32 default)
  | .ret => writes_plain fun _ => .ret
  | .call f => writes_plain fun _ => .call (form_u32 f)
  | .callIndirect t => writes_plain fun _ => .callIndirect (form_u32 t)
  | .drop => writes_plain fun _ => .drop
  | .select => writes_plain fun _ => .select
  | .localGet x => writes_plain fun _ => .localGet (form_u32 x)
  | .localSet x => writes_plain fun _ => .localSet (form_u32 x)
  | .localTee x => writes_plain fun _ => .localTee (form_u32 x)
  | .globalGet g => writes_plain fun _ => .globalGet (form_u32 g)
  | .globalSet g => writes_plain fun _ => .globalSet (form_u32 g)
  | .load _ arg => writes_plain fun _ => .load (form_memArg arg)
  | .store _ arg => writes_plain fun _ => .store (form_memArg arg)
  | .memorySize => writes_plain fun _ => .memorySize
  | .memoryGrow => writes_plain fun _ => .memoryGrow
  | .const v => writes_plain fun _ => .const (form_constant v)
  | .numeric _ => writes_plain fun _ => .numeric

theorem form_body : ∀ is : List Instr, (body is).length < UInt32.size → Form.body (body is) is
  | [], _ => .nil
  | i :: is, hsize => by
    rw [body, List.length_append] at hsize
    exact .cons ((writes_instr i).form (by omega)) (form_body is (by omega))

end

/-- An expression that is not nested too deeply. -/
theorem writes_expr {e : Expr} (hnesting : nestingOfBody e ≤ 1024) : Writes Form.expr (expr e) e := by
  constructor
  · rw [expr, List.length_append]
    exact Nat.succ_pos _
  · intro hsize
    rw [expr, List.length_append] at hsize
    exact .mk (form_body e (by omega)) hnesting

/-! ## Items of sections -/

theorem writes_importDesc (d : ImportDesc) : Writes Form.importDesc (importDesc d) d := by
  cases d with
  | func t => exact writes_cons fun _ => .func (form_u32 t)
  | table t => exact writes_cons fun hsize => .table ((writes_tableType t).form hsize)
  | memory t => exact writes_cons fun hsize => .memory ((writes_limits t).form hsize)
  | global t => exact writes_cons fun hsize => .global ((writes_globalType t).form hsize)

theorem writes_importItem (i : Import) : Writes Form.importItem (importItem i) i := by
  rw [importItem, List.append_assoc]
  apply writes_append (writes_name i.source)
  intro hsource hsize
  rw [List.length_append] at hsize
  rw [← List.append_assoc]
  exact .mk hsource ((writes_name i.name).form (by omega)) ((writes_importDesc i.desc).form (by omega))

theorem writes_exportDesc (d : ExportDesc) : Writes Form.exportDesc (exportDesc d) d := by
  cases d with
  | func f => exact writes_cons fun _ => .func (form_u32 f)
  | table t => exact writes_cons fun _ => .table (form_u32 t)
  | memory m => exact writes_cons fun _ => .memory (form_u32 m)
  | global g => exact writes_cons fun _ => .global (form_u32 g)

theorem writes_exportItem (e : Export) : Writes Form.exportItem (exportItem e) e :=
  writes_append (writes_name e.name) fun hname hsize =>
    .mk hname ((writes_exportDesc e.desc).form hsize)

theorem writes_global {g : Global} (hnesting : nestingOfBody g.initial ≤ 1024) :
    Writes Form.global (global g) g :=
  writes_append (writes_globalType g.type) fun htype hsize =>
    .mk htype ((writes_expr hnesting).form hsize)

theorem writes_elem {e : ElemSegment} (hnesting : nestingOfBody e.offset ≤ 1024) :
    Writes Form.elem (elem e) e := by
  have hfuncs := writes_vector fun f (_ : f ∈ e.funcs) => writes_u32 f
  rw [elem, List.append_assoc]
  apply writes_append (writes_u32 e.table)
  intro htable hsize
  rw [List.length_append] at hsize
  rw [← List.append_assoc]
  exact .mk htable ((writes_expr hnesting).form (by omega)) (hfuncs.form (by omega))

theorem writes_data {d : DataSegment} (hnesting : nestingOfBody d.offset ≤ 1024) :
    Writes Form.data (data d) d := by
  have hbytes : Writes (Form.sized Form.bytes) (sized d.bytes) d.bytes := writes_sized fun _ => rfl
  rw [data, List.append_assoc]
  apply writes_append (writes_u32 d.memory)
  intro hmemory hsize
  rw [List.length_append] at hsize
  rw [← List.append_assoc]
  exact .mk hmemory ((writes_expr hnesting).form (by omega)) (hbytes.form (by omega))

theorem writes_localRun (run : LocalRun) : Writes Form.localRun (localRun run) run :=
  writes_append (writes_u32 run.count) fun hcount hsize =>
    .mk hcount ((writes_valType run.type).form hsize)

theorem writes_code {c : Code} (hnesting : nestingOfBody c.body ≤ 1024)
    (hlocals : (c.locals.map (·.count.toNat)).sum ≤ 50000) : Writes Form.code (code c) c := by
  have hruns := writes_vector fun run (_ : run ∈ c.locals) => writes_localRun run
  apply writes_sized
  intro hsize
  rw [List.length_append] at hsize
  exact .mk (hruns.form (by omega)) ((writes_expr hnesting).form (by omega)) hlocals

/-! ## Sections -/

/-- Whether the expressions of a section are not nested too deeply and its functions do not have too many
    locals. -/
def Limited : Section → Prop
  | .globals gs => ∀ g ∈ gs, nestingOfBody g.initial ≤ 1024
  | .elems es => ∀ e ∈ es, nestingOfBody e.offset ≤ 1024
  | .codes cs => ∀ c ∈ cs, nestingOfBody c.body ≤ 1024 ∧ (c.locals.map (·.count.toNat)).sum ≤ 50000
  | .datas ds => ∀ d ∈ ds, nestingOfBody d.offset ≤ 1024
  | _ => True

theorem form_contents {x : Section} (hlimited : Limited x) (hsize : (contents x).length < UInt32.size) :
    Form.contents (contents x) x := by
  cases x with
  | custom c =>
    rw [contents, List.length_append] at hsize
    exact ⟨name c.name, (writes_name c.name).form (by omega), rfl⟩
  | types ts => exact (writes_vector fun t _ => writes_funcType t).form hsize
  | imports is => exact (writes_vector fun i _ => writes_importItem i).form hsize
  | funcs ts => exact (writes_vector fun t _ => writes_u32 t).form hsize
  | tables ts => exact (writes_vector fun t _ => writes_tableType t).form hsize
  | memories ts => exact (writes_vector fun t _ => writes_limits t).form hsize
  | globals gs => exact (writes_vector fun g hg => writes_global (hlimited g hg)).form hsize
  | exports es => exact (writes_vector fun e _ => writes_exportItem e).form hsize
  | start f => exact form_u32 f
  | elems es => exact (writes_vector fun e he => writes_elem (hlimited e he)).form hsize
  | codes cs =>
    refine (writes_vector fun c hc => ?_).form hsize
    obtain ⟨hnesting, hlocals⟩ := hlimited c hc
    exact writes_code hnesting hlocals
  | datas ds => exact (writes_vector fun d hd => writes_data (hlimited d hd)).form hsize

/-- **A section within the limits.** -/
theorem form_sectionItem {x : Section} (hlimited : Limited x)
    (hsize : (contents x).length < UInt32.size) : Form.sectionItem (sectionItem x) x :=
  .mk (.mk (form_u32 _) (form_contents hlimited hsize) (UInt32.toNat_ofNat_of_lt' hsize))

end Encoder

end WasmCore
