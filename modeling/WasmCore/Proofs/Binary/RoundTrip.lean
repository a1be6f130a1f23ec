import WasmCore.Proofs.Binary.Encoder
import WasmCore.Proofs.Binary.Conformance

/-!
# `Binary.RoundTrip` — decoding undoes encoding

A module is split into sections, functions into two of them. Custom sections may stand between any two
sections, and a section without items may be left out or written: both are up to a layout. Whatever the
layout, the sections stand for the module that they were made of.

* `Module.sections`, `Layout.place`, `Module.laidOut`: the sections of a module;
* `encode`: **the canonical encoding of a module**;
* `Module.flatMap_laidOut`: what the sections hold does not depend on the layout;
* `Module.ofSections_laidOut`: **the sections stand for the module**;
* `decode_encode`: **decoding undoes encoding.**
-/

namespace WasmCore

/-! ## Encoding -/

/-- Whether a section is a vector without items. -/
def Section.isEmpty : Section → Bool
  | custom _ => false
  | types ts => ts.isEmpty
  | imports is => is.isEmpty
  | funcs ts => ts.isEmpty
  | tables ts => ts.isEmpty
  | memories ts => ts.isEmpty
  | globals gs => gs.isEmpty
  | exports es => es.isEmpty
  | start _ => false
  | elems es => es.isEmpty
  | codes cs => cs.isEmpty
  | datas ds => ds.isEmpty

/-- Locals and body of a function. -/
def Func.code (f : Func) : Code := { locals := f.locals, body := f.body }

/-- The sections of a module other than custom ones, in the order of their ids. -/
def Module.sections (m : Module) : List Section :=
  [.types m.types, .imports m.imports, .funcs (m.funcs.map Func.typeIdx), .tables m.tables,
    .memories m.memories, .globals m.globals, .exports m.exports] ++
  (m.start.map Section.start).toList ++
  [.elems m.elems, .codes (m.funcs.map Func.code), .datas m.datas]

/-- How the sections of a module are laid out. -/
structure Layout where
  /-- How many custom sections stand before the section with an id. The others stand at the end. -/
  before : UInt8 → Nat
  /-- Whether the section with an id is written even if it is empty. -/
  keeps : UInt8 → Bool

/-- Custom sections in their order, placed between other sections. -/
def Layout.place (layout : Layout) : List CustomSection → List Section → List Section
  | customs, [] => customs.map .custom
  | customs, x :: xs =>
    (customs.take (layout.before x.id)).map .custom ++
      x :: layout.place (customs.drop (layout.before x.id)) xs

/-- All sections of a module. -/
def Module.laidOut (m : Module) (layout : Layout) : List Section :=
  layout.place m.customs (m.sections.filter fun x => layout.keeps x.id || !x.isEmpty)

/-- **The canonical encoding of a module**, for a layout of its sections. -/
def encode (m : Module) (layout : Layout) : List UInt8 :=
  header ++ (m.laidOut layout).flatMap Encoder.sectionItem

/-! ## Modules that can be encoded -/

/-- The expressions of a module: bodies of functions, initialisers of globals and offsets of segments. -/
def Module.exprs (m : Module) : List Expr :=
  m.funcs.map Func.body ++ m.globals.map Global.initial ++ m.elems.map ElemSegment.offset ++
    m.datas.map DataSegment.offset

/-- **Modules that the format has room for.** Expressions are nested at most 1024 blocks deep, functions
    declare at most 50,000 locals, and the sizes of sections fit in 32 bits. So do then the sizes of code
    entries and the lengths of vectors, which are parts of sections. -/
structure Module.Encodable (m : Module) : Prop where
  nesting : ∀ e ∈ m.exprs, nestingOfBody e ≤ 1024
  locals : ∀ f ∈ m.funcs, f.localCount ≤ 50000
  sizes : ∀ x ∈ m.customs.map Section.custom ++ m.sections, (Encoder.contents x).length < UInt32.size

/-! ## What sections hold -/

namespace Layout

variable {α : Type} {layout : Layout} {customs : List CustomSection} {xs : List Section}

theorem mem_place {x : Section} (h : x ∈ layout.place customs xs) :
    x ∈ customs.map Section.custom ∨ x ∈ xs := by
  induction xs generalizing customs with
  | nil => exact .inl h
  | cons y xs ih =>
    rw [place, List.mem_append, List.mem_cons] at h
    obtain h | rfl | h := h
    · obtain ⟨c, hc, rfl⟩ := List.mem_map.mp h
      exact .inl (List.mem_map_of_mem (List.mem_of_mem_take hc))
    · exact .inr List.mem_cons_self
    · obtain h | h := ih h
      · obtain ⟨c, hc, rfl⟩ := List.mem_map.mp h
        exact .inl (List.mem_map_of_mem (List.mem_of_mem_drop hc))
      · exact .inr (List.mem_cons_of_mem y h)

/-- What custom sections do not hold is held by the others. -/
theorem flatMap_place {f : Section → List α} (hf : ∀ c, f (.custom c) = []) :
    (layout.place customs xs).flatMap f = xs.flatMap f := by
  have hcustoms (cs : List CustomSection) : (cs.map Section.custom).flatMap f = [] := by
    simp [List.flatMap_map, hf]
  induction xs generalizing customs with
  | nil => exact hcustoms customs
  | cons x xs ih =>
    rw [place, List.flatMap_append, hcustoms, List.flatMap_cons, ih]
    rfl

/-- Custom sections keep their order. -/
theorem flatMap_ofCustom_place (hxs : ∀ x ∈ xs, x.ofCustom = []) :
    (layout.place customs xs).flatMap Section.ofCustom = customs := by
  have hcustoms (cs : List CustomSection) : (cs.map Section.custom).flatMap Section.ofCustom = cs := by
    induction cs with
    | nil => rfl
    | cons c cs ih => rw [List.map_cons, List.flatMap_cons, ih]; rfl
  induction xs generalizing customs with
  | nil => exact hcustoms customs
  | cons x xs ih =>
    rw [place, List.flatMap_append, hcustoms, List.flatMap_cons, hxs x List.mem_cons_self,
      ih fun y hy => hxs y (List.mem_cons_of_mem x hy)]
    exact List.take_append_drop _ _

end Layout

/-- The ids of sections other than custom ones, section by section. -/
theorem Section.ids_eq_flatMap (ss : List Section) :
    (ss.map Section.id).filter (· ≠ 0) = ss.flatMap fun x => [x.id].filter (· ≠ 0) := by
  induction ss with
  | nil => rfl
  | cons x ss ih =>
    rw [List.map_cons, ← List.singleton_append, List.filter_append, ih, List.flatMap_cons]

/-- Custom sections and empty ones have nothing to add. -/
structure Section.Skips {α : Type} (f : Section → List α) : Prop where
  custom : ∀ c, f (.custom c) = []
  empty : ∀ x, x.isEmpty = true → f x = []

/-- Every field of a module but its custom sections is held by sections that have items. -/
theorem Section.skips :
    Skips ofTypes ∧ Skips ofImports ∧ Skips ofFuncs ∧ Skips ofTables ∧ Skips ofMemories ∧ Skips ofGlobals ∧
      Skips ofExports ∧ Skips ofStart ∧ Skips ofElems ∧ Skips ofCodes ∧ Skips ofDatas := by
  and_intros
  all_goals
    constructor
    · intro c
      rfl
    · intro x hx
      cases x <;> first | rfl | exact List.isEmpty_iff.mp hx

namespace Module

variable {α : Type} (m : Module) (layout : Layout)

/-- **What the sections hold does not depend on the layout.** -/
theorem flatMap_laidOut {f : Section → List α} (hf : Section.Skips f) :
    (m.laidOut layout).flatMap f = m.sections.flatMap f := by
  rw [laidOut, Layout.flatMap_place hf.custom]
  induction m.sections with
  | nil => rfl
  | cons x xs ih =>
    rw [List.filter_cons]
    by_cases hx : (layout.keeps x.id || !x.isEmpty) = true
    · rw [if_pos hx, List.flatMap_cons, ih, List.flatMap_cons]
    · have hempty : x.isEmpty = true := by
        rw [Bool.or_eq_true, not_or] at hx
        simpa using hx.2
      rw [if_neg hx, List.flatMap_cons, hf.empty x hempty, ih, List.nil_append]

/-- The sections of a module are not custom ones, and their ids increase. -/
theorem ids_sections :
    m.sections.map Section.id = [1, 2, 3, 4, 5, 6, 7, 8, 9, 10, 11] ∨
      m.sections.map Section.id = [1, 2, 3, 4, 5, 6, 7, 9, 10, 11] := by
  unfold sections
  cases m.start with
  | some f => exact .inl rfl
  | none => exact .inr rfl

theorem id_ne_of_mem_sections {x : Section} (hx : x ∈ m.sections) : x.id ≠ 0 := by
  have hmem := List.mem_map_of_mem (f := Section.id) hx
  intro hid
  rw [hid] at hmem
  obtain hids | hids := m.ids_sections
  · rw [hids] at hmem
    revert hmem
    decide
  · rw [hids] at hmem
    revert hmem
    decide

theorem increasing_sections : Section.Increasing m.sections := by
  unfold Section.Increasing
  obtain hids | hids := m.ids_sections
  · rw [hids]
    decide
  · rw [hids]
    decide

/-- The ids increase whatever the layout. -/
theorem increasing_laidOut : Section.Increasing (m.laidOut layout) := by
  have hleft := (List.filter_sublist (p := fun x => layout.keeps x.id || !x.isEmpty) (l := m.sections)).map
    Section.id
  have hincreasing := m.increasing_sections
  unfold Section.Increasing at hincreasing ⊢
  rw [Section.ids_eq_flatMap, laidOut, Layout.flatMap_place (fun _ => rfl), ← Section.ids_eq_flatMap]
  exact hincreasing.sublist (hleft.filter _)

/-- **The sections stand for the module.** -/
theorem ofSections_laidOut : Module.ofSections (m.laidOut layout) = m := by
  have hcustoms : (m.laidOut layout).flatMap Section.ofCustom = m.customs := by
    apply Layout.flatMap_ofCustom_place
    intro x hx
    have hid := m.id_ne_of_mem_sections (List.mem_filter.mp hx).1
    cases x with
    | custom c => exact absurd rfl hid
    | _ => rfl
  have hfuncs : List.zipWith Func.join (m.funcs.map Func.typeIdx) (m.funcs.map Func.code) = m.funcs := by
    induction m.funcs with
    | nil => rfl
    | cons f fs ih => rw [List.map_cons, List.map_cons, List.zipWith_cons_cons, ih]; rfl
  obtain ⟨htypes, himports, hfuncTypes, htables, hmemories, hglobals, hexports, hstart, helems, hcodes,
    hdatas⟩ := Section.skips
  unfold Module.ofSections
  rw [hcustoms, m.flatMap_laidOut layout htypes, m.flatMap_laidOut layout himports,
    m.flatMap_laidOut layout hfuncTypes, m.flatMap_laidOut layout htables,
    m.flatMap_laidOut layout hmemories, m.flatMap_laidOut layout hglobals,
    m.flatMap_laidOut layout hexports, m.flatMap_laidOut layout hstart, m.flatMap_laidOut layout helems,
    m.flatMap_laidOut layout hcodes, m.flatMap_laidOut layout hdatas]
  clear hcustoms
  obtain ⟨customs, types, imports, funcs, tables, memories, globals, exports, start, elems, datas⟩ := m
  cases start <;>
    simp [sections, Section.ofTypes, Section.ofImports, Section.ofFuncs, Section.ofTables,
        Section.ofMemories, Section.ofGlobals, Section.ofExports, Section.ofStart, Section.ofElems,
        Section.ofCodes, Section.ofDatas, hfuncs]

/-! ## Encoded modules -/

variable {m layout}

/-- Every section keeps the limits if the module does. -/
theorem Encodable.limited (h : m.Encodable) {x : Section} (hx : x ∈ m.sections) : Encoder.Limited x := by
  cases x with
  | globals gs =>
    obtain rfl : gs = m.globals := by simpa [sections] using hx
    intro g hg
    apply h.nesting
    simp only [exprs, List.mem_append]
    exact .inl (.inl (.inr (List.mem_map_of_mem hg)))
  | elems es =>
    obtain rfl : es = m.elems := by simpa [sections] using hx
    intro e he
    apply h.nesting
    simp only [exprs, List.mem_append]
    exact .inl (.inr (List.mem_map_of_mem he))
  | codes cs =>
    obtain rfl : cs = m.funcs.map Func.code := by simpa [sections] using hx
    intro c hc
    obtain ⟨f, hf, rfl⟩ := List.mem_map.mp hc
    refine ⟨h.nesting _ ?_, h.locals f hf⟩
    simp only [exprs, List.mem_append]
    exact .inl (.inl (.inl (List.mem_map_of_mem hf)))
  | datas ds =>
    obtain rfl : ds = m.datas := by simpa [sections] using hx
    intro d hd
    apply h.nesting
    simp only [exprs, List.mem_append]
    exact .inr (List.mem_map_of_mem hd)
  | _ => trivial

/-- **The encoding of a module is conformant.** -/
theorem Encodable.conforms (h : m.Encodable) : Conforms (encode m layout) m := by
  refine ⟨m.laidOut layout, _, rfl, Encoder.form_items ?_, m.increasing_laidOut layout, ?_,
    (m.ofSections_laidOut layout).symm⟩
  · intro x hx
    obtain hx | hx := Layout.mem_place hx
    · obtain ⟨c, -, rfl⟩ := List.mem_map.mp hx
      exact Encoder.form_sectionItem trivial (h.sizes _ (List.mem_append_left _ hx))
    · have hmem := (List.mem_filter.mp hx).1
      exact Encoder.form_sectionItem (h.limited hmem) (h.sizes _ (List.mem_append_right _ hmem))
  · obtain ⟨-, -, hfuncTypes, -, -, -, -, -, -, hcodes, -⟩ := Section.skips
    rw [m.flatMap_laidOut layout hfuncTypes, m.flatMap_laidOut layout hcodes]
    unfold sections
    cases m.start <;> simp [Section.ofFuncs, Section.ofCodes]

end Module

/-- **Decoding undoes encoding**, on every field and for every layout. -/
theorem decode_encode (m : Module) (layout : Layout) (h : m.Encodable) :
    decode (encode m layout) = .ok m :=
  decode_of_conforms h.conforms

/-- A module with something in every section, the body of its function nested. -/
def Module.specimen : Module where
  customs := [⟨"name", [0x00, 0x01, 0x02]⟩, ⟨"é", []⟩]
  types := [⟨[.i32], [.i32]⟩, ⟨[], []⟩]
  imports := [⟨"host", "log", .func 1⟩]
  funcs := [{
    typeIdx := 0
    locals := [⟨2, .i64⟩, ⟨1, .f32⟩]
    body := [.block .empty [.loop .empty [.localGet 0, .brTable #[0, 1] 0]],
      .localGet 0,
      .ifElse (.value .i32) [.const (.i32 0xffffff80)] [.const (.i32 624485)]] }]
  tables := [{ min := 1, max := some 300 }]
  memories := [{ min := 1, max := none }]
  globals := [⟨⟨.f64, .var⟩, [.const (.f64 0x4009_21fb_5444_2d18)]⟩]
  exports := [⟨"run", .func 1⟩]
  start := some 0
  elems := [⟨0, [.const (.i32 0)], [1]⟩]
  datas := [⟨0, [.const (.i32 8)], [0xde, 0xad]⟩]

/-- Custom sections stand before the code section and at the end. -/
def Layout.specimen : Layout where
  before id := if id = 10 then 1 else 0
  keeps _ := false

theorem decode_encode_specimen :
    Module.specimen.Encodable ∧
      decode (encode Module.specimen Layout.specimen) = .ok Module.specimen := by
  have h : Module.specimen.Encodable := ⟨by decide +kernel, by decide +kernel, by decide +kernel⟩
  exact ⟨h, decode_encode Module.specimen Layout.specimen h⟩

end WasmCore
