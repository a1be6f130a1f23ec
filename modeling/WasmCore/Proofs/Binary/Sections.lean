import WasmCore.Proofs.Binary.Expressions

/-!
# `Binary.Sections` — one section at a time

A section is cut out of the binary and decoded by itself, to its last byte. So is a code entry, which is
cut out of its section in turn. The budget of an expression is the size of the section that it stands in,
which is enough for every expression there.

* `reads_global`, `reads_elem`, `reads_data`, `reads_code`: the items that hold expressions;
* `Draft.contents_bind_eq_ok_iff`: a part that is filled exactly;
* `Draft.add`, `Draft.addSection_eq_ok_iff`: the contents of every section;
* `Draft.reads_readSection`: **a section, in its place.**
-/

namespace WasmCore

namespace Decoder

variable {α β : Type} {n : Nat}

/-! ## Items with expressions -/

theorem reads_global : Reads n (global n) Form.global := by
  refine reads_globalType.two_of reads_exprWithin .mk ?_
  rintro _ _ ⟨htype, hinitial⟩
  exact ⟨_, _, _, _, rfl, htype, hinitial, rfl⟩

theorem reads_elem : Reads n (elem n) Form.elem := by
  refine (reads_u32.bind fun table => reads_exprWithin.bind fun offset =>
    (reads_vector reads_u32).bind fun funcs => Reads.pure _).congr fun b x => ?_
  constructor
  · rintro ⟨table, b₁, _, rfl, htable, offset, b₂, _, rfl, hoffset, funcs, b₃, _, rfl, hfuncs, rfl, rfl⟩
    rw [List.append_nil, ← List.append_assoc]
    exact .mk htable hoffset hfuncs
  · rintro ⟨htable, hoffset, hfuncs⟩
    exact ⟨_, _, _, List.append_assoc _ _ _, htable, _, _, _, rfl, hoffset, _, _, [],
      (List.append_nil _).symm, hfuncs, rfl, rfl⟩

theorem reads_data : Reads n (data n) Form.data := by
  have hspan (memory : MemIdx) (offset : Expr) :
      Reads n (do let part ← span; return { memory, offset, bytes := part.bytes })
        (Form.sized fun bs x => x = { memory, offset, bytes := bs : DataSegment }) :=
    reads_span_bind fun part => Reads.pure _
  refine (reads_u32.bind fun memory => reads_exprWithin.bind fun offset =>
    hspan memory offset).congr fun b x => ?_
  constructor
  · rintro ⟨memory, b₁, _, rfl, hmemory, offset, b₂, _, rfl, hoffset, hsize, rfl, hlength⟩
    rw [← List.append_assoc]
    exact .mk hmemory hoffset (.mk hsize rfl hlength)
  · rintro ⟨hmemory, hoffset, hsize, rfl, hlength⟩
    exact ⟨_, _, _, List.append_assoc _ _ _, hmemory, _, _, _, rfl, hoffset, .mk hsize rfl hlength⟩

/-! ## Parts that are filled exactly -/

/-- A decoder that only looks at a part that was cut out. -/
theorem Reads.of_part {d : Decoder α} {P : α → Prop}
    (h : ∀ s s' x, d s = .ok (x, s') ↔ P x ∧ s' = s) : Reads n d fun b x => b = [] ∧ P x where
  sound := by
    intro s s' x hd
    obtain ⟨hx, rfl⟩ := (h s s' x).mp hd
    exact ⟨[], ⟨rfl, hx⟩, rfl, rfl⟩
  complete := by
    rintro b x ⟨rfl, hx⟩ - rest offset
    exact (h _ _ x).mpr ⟨hx, rfl⟩

/-- **A part that is decoded and refused if bytes of it are left over.** -/
theorem within_bind_eq_ok_iff {part s s' : Input} {d : Decoder α} {F : Form α} {f : α × Input → Decoder β}
    {g : α → β} {y : β} (hd : Reads part.bytes.length d F)
    (hall : ∀ a rest, rest.bytes.isEmpty = true → f (a, rest) = pure (g a))
    (hleft : ∀ a rest, ¬rest.bytes.isEmpty = true → ∃ offset fault, f (a, rest) = failAt offset fault) :
    (within part d >>= f) s = .ok (y, s') ↔ (∃ a, F part.bytes a ∧ y = g a) ∧ s' = s := by
  constructor
  · intro h
    obtain ⟨⟨a, rest⟩, s₁, hpart, hy⟩ := bind_eq_ok_iff.mp h
    obtain ⟨ha, rfl⟩ := within_eq_ok_iff.mp hpart
    by_cases hrest : rest.bytes.isEmpty = true
    · rw [hall a rest hrest] at hy
      cases hy
      exact ⟨⟨a, (hd.fills (Nat.le_refl _)).mp ⟨rest, ha, List.isEmpty_iff.mp hrest⟩, rfl⟩, rfl⟩
    · obtain ⟨offset, fault, hfail⟩ := hleft a rest hrest
      rw [hfail] at hy
      cases hy
  · rintro ⟨⟨a, ha, rfl⟩, rfl⟩
    obtain ⟨rest, hread, hrest⟩ := (hd.fills (Nat.le_refl _)).mpr ha
    rw [bind_of_ok (within_eq_ok_iff.mpr ⟨hread, rfl⟩), hall a rest (List.isEmpty_iff.mpr hrest)]
    rfl

/-- Locals and body of a function fill a code entry. -/
theorem reads_code : Reads n code Form.code := by
  refine reads_span_bind fun entry => Reads.of_part fun s s' c => ?_
  constructor
  · intro h
    obtain ⟨⟨locals, afterLocals⟩, s₁, hwithin, hc⟩ := bind_eq_ok_iff.mp h
    obtain ⟨hlocals, rfl⟩ := within_eq_ok_iff.mp hwithin
    obtain ⟨b₁, hb₁, hentry, -⟩ := (reads_vector (reads_localRun (n := n))).sound hlocals
    dsimp only at hc
    by_cases hmany : maxLocals < (locals.map (·.count.toNat)).sum
    · rw [if_pos hmany] at hc
      cases hc
    · rw [if_neg hmany] at hc
      obtain ⟨⟨body, hbody, rfl⟩, rfl⟩ := (within_bind_eq_ok_iff (g := Code.mk locals) reads_expr
        (fun _ _ h => if_pos h) fun _ _ h => ⟨_, _, if_neg h⟩).mp hc
      rw [hentry]
      exact ⟨.mk hb₁ hbody (Nat.not_lt.mp hmany), rfl⟩
  · rintro ⟨h, rfl⟩
    obtain ⟨bytes, offset⟩ := entry
    dsimp only at h
    cases h with
    | @mk b₁ b₂ locals body hlocals hbody hfew =>
    have hread := (reads_vector reads_localRun).complete hlocals (Nat.le_refl _) b₂ offset
    rw [bind_of_ok (within_eq_ok_iff.mpr ⟨hread, rfl⟩)]
    have hmany : ¬maxLocals < (locals.map (·.count.toNat)).sum := Nat.not_lt.mpr hfew
    dsimp only
    rw [if_neg hmany]
    exact (within_bind_eq_ok_iff (g := Code.mk locals) reads_expr (fun _ _ h => if_pos h)
      fun _ _ h => ⟨_, _, if_neg h⟩).mpr ⟨⟨body, hbody, rfl⟩, rfl⟩

end Decoder

namespace Draft

open Decoder

variable {α : Type} {n : Nat} {draft draft' : Draft} {id : UInt8} {part s s' : Input}

/-! ## Contents of sections -/

/-- A draft with what a section contributes. -/
def add (draft : Draft) : Section → Draft
  | .custom c => { draft with customs := c :: draft.customs }
  | .types ts => { draft with module.types := ts }
  | .imports is => { draft with module.imports := is }
  | .funcs ts => { draft with funcTypes := ts }
  | .tables ts => { draft with module.tables := ts }
  | .memories ts => { draft with module.memories := ts }
  | .globals gs => { draft with module.globals := gs }
  | .exports es => { draft with module.exports := es }
  | .start f => { draft with module.start := some f }
  | .elems es => { draft with module.elems := es }
  | .codes cs => { draft with codes := cs }
  | .datas ds => { draft with module.datas := ds }

/-- What is made of contents that fill a section exactly. -/
theorem contents_bind_eq_ok_iff {d : Decoder α} {F : Form α} {put : α → Draft}
    (hd : Reads part.bytes.length d F) :
    (do let a ← contents id part d; return put a) s = .ok (draft', s') ↔
      (∃ a, F part.bytes a ∧ draft' = put a) ∧ s' = s := by
  have hcontents {x : α} {s₁ : Input} :
      contents id part d s = .ok (x, s₁) ↔ (∃ a, F part.bytes a ∧ x = a) ∧ s₁ = s :=
    within_bind_eq_ok_iff (g := fun a => a) hd (fun _ _ h => if_pos h) fun _ _ h => ⟨_, _, if_neg h⟩
  rw [bind_eq_ok_iff]
  constructor
  · rintro ⟨a, s₁, h, hput⟩
    obtain ⟨⟨_, ha, rfl⟩, rfl⟩ := hcontents.mp h
    cases hput
    exact ⟨⟨a, ha, rfl⟩, rfl⟩
  · rintro ⟨⟨a, ha, rfl⟩, rfl⟩
    exact ⟨a, s', hcontents.mpr ⟨⟨a, ha, rfl⟩, rfl⟩, rfl⟩

/-- A custom section keeps whatever follows its name. -/
theorem addCustom_eq_ok_iff :
    draft.addCustom part s = .ok (draft', s') ↔
      (∃ c, Form.contents part.bytes (.custom c) ∧ draft' = draft.add (.custom c)) ∧ s' = s := by
  unfold addCustom
  rw [bind_eq_ok_iff]
  constructor
  · rintro ⟨⟨title, rest⟩, s₁, h, hput⟩
    obtain ⟨hname, rfl⟩ := within_eq_ok_iff.mp h
    obtain ⟨b, hb, hpart, -⟩ := (reads_name (n := 0)).sound hname
    cases hput
    exact ⟨⟨⟨title, rest.bytes⟩, ⟨b, hb, hpart⟩, rfl⟩, rfl⟩
  · rintro ⟨⟨c, ⟨b, hb, hpart⟩, rfl⟩, rfl⟩
    have hread := reads_name.complete hb (Nat.le_refl _) c.bytes part.offset
    rw [← hpart] at hread
    exact ⟨_, s', within_eq_ok_iff.mpr ⟨hread, rfl⟩, rfl⟩

theorem id_cases (hid : id ≤ lastId) :
    id = 0 ∨ id = 1 ∨ id = 2 ∨ id = 3 ∨ id = 4 ∨ id = 5 ∨ id = 6 ∨ id = 7 ∨ id = 8 ∨ id = 9 ∨ id = 10 ∨
      id = 11 := by
  have hle : id.toNat ≤ 11 := UInt8.le_iff_toNat_le.mp hid
  simp only [← UInt8.toNat_inj, UInt8.reduceToNat]
  omega

/-- **The contents of a section**, whatever its id. -/
theorem addSection_eq_ok_iff (hid : id ≤ lastId) :
    draft.addSection id part s = .ok (draft', s') ↔
      (∃ x : Section, x.id = id ∧ Form.contents part.bytes x ∧ draft' = draft.add x) ∧ s' = s := by
  constructor
  · intro h
    rcases id_cases hid with
      rfl | rfl | rfl | rfl | rfl | rfl | rfl | rfl | rfl | rfl | rfl | rfl
    · obtain ⟨⟨c, hc, rfl⟩, rfl⟩ := addCustom_eq_ok_iff.mp h
      exact ⟨⟨.custom c, rfl, hc, rfl⟩, rfl⟩
    · obtain ⟨⟨a, ha, rfl⟩, rfl⟩ := (contents_bind_eq_ok_iff (reads_vector reads_funcType)).mp h
      exact ⟨⟨.types a, rfl, ha, rfl⟩, rfl⟩
    · obtain ⟨⟨a, ha, rfl⟩, rfl⟩ := (contents_bind_eq_ok_iff (reads_vector reads_importItem)).mp h
      exact ⟨⟨.imports a, rfl, ha, rfl⟩, rfl⟩
    · obtain ⟨⟨a, ha, rfl⟩, rfl⟩ := (contents_bind_eq_ok_iff (reads_vector reads_u32)).mp h
      exact ⟨⟨.funcs a, rfl, ha, rfl⟩, rfl⟩
    · obtain ⟨⟨a, ha, rfl⟩, rfl⟩ := (contents_bind_eq_ok_iff (reads_vector reads_tableType)).mp h
      exact ⟨⟨.tables a, rfl, ha, rfl⟩, rfl⟩
    · obtain ⟨⟨a, ha, rfl⟩, rfl⟩ := (contents_bind_eq_ok_iff (reads_vector reads_limits)).mp h
      exact ⟨⟨.memories a, rfl, ha, rfl⟩, rfl⟩
    · obtain ⟨⟨a, ha, rfl⟩, rfl⟩ := (contents_bind_eq_ok_iff (reads_vector reads_global)).mp h
      exact ⟨⟨.globals a, rfl, ha, rfl⟩, rfl⟩
    · obtain ⟨⟨a, ha, rfl⟩, rfl⟩ := (contents_bind_eq_ok_iff (reads_vector reads_exportItem)).mp h
      exact ⟨⟨.exports a, rfl, ha, rfl⟩, rfl⟩
    · obtain ⟨⟨a, ha, rfl⟩, rfl⟩ := (contents_bind_eq_ok_iff reads_u32).mp h
      exact ⟨⟨.start a, rfl, ha, rfl⟩, rfl⟩
    · obtain ⟨⟨a, ha, rfl⟩, rfl⟩ := (contents_bind_eq_ok_iff (reads_vector reads_elem)).mp h
      exact ⟨⟨.elems a, rfl, ha, rfl⟩, rfl⟩
    · obtain ⟨⟨a, ha, rfl⟩, rfl⟩ := (contents_bind_eq_ok_iff (reads_vector reads_code)).mp h
      exact ⟨⟨.codes a, rfl, ha, rfl⟩, rfl⟩
    · obtain ⟨⟨a, ha, rfl⟩, rfl⟩ := (contents_bind_eq_ok_iff (reads_vector reads_data)).mp h
      exact ⟨⟨.datas a, rfl, ha, rfl⟩, rfl⟩
  · rintro ⟨⟨x, rfl, hx, rfl⟩, rfl⟩
    cases x with
    | custom c => exact addCustom_eq_ok_iff.mpr ⟨⟨c, hx, rfl⟩, rfl⟩
    | types ts => exact (contents_bind_eq_ok_iff (reads_vector reads_funcType)).mpr ⟨⟨ts, hx, rfl⟩, rfl⟩
    | imports is => exact (contents_bind_eq_ok_iff (reads_vector reads_importItem)).mpr ⟨⟨is, hx, rfl⟩, rfl⟩
    | funcs ts => exact (contents_bind_eq_ok_iff (reads_vector reads_u32)).mpr ⟨⟨ts, hx, rfl⟩, rfl⟩
    | tables ts => exact (contents_bind_eq_ok_iff (reads_vector reads_tableType)).mpr ⟨⟨ts, hx, rfl⟩, rfl⟩
    | memories ts => exact (contents_bind_eq_ok_iff (reads_vector reads_limits)).mpr ⟨⟨ts, hx, rfl⟩, rfl⟩
    | globals gs => exact (contents_bind_eq_ok_iff (reads_vector reads_global)).mpr ⟨⟨gs, hx, rfl⟩, rfl⟩
    | exports es => exact (contents_bind_eq_ok_iff (reads_vector reads_exportItem)).mpr ⟨⟨es, hx, rfl⟩, rfl⟩
    | start f => exact (contents_bind_eq_ok_iff reads_u32).mpr ⟨⟨f, hx, rfl⟩, rfl⟩
    | elems es => exact (contents_bind_eq_ok_iff (reads_vector reads_elem)).mpr ⟨⟨es, hx, rfl⟩, rfl⟩
    | codes cs => exact (contents_bind_eq_ok_iff (reads_vector reads_code)).mpr ⟨⟨cs, hx, rfl⟩, rfl⟩
    | datas ds => exact (contents_bind_eq_ok_iff (reads_vector reads_data)).mpr ⟨⟨ds, hx, rfl⟩, rfl⟩

/-! ## Sections in their places -/

/-- A draft after one more section. -/
def next (draft : Draft) (x : Section) : Draft :=
  { draft with previous := if x.id = customId then draft.previous else x.id }.add x

/-- Whether a section may come next. Custom sections may stand anywhere. -/
def Admits (draft : Draft) (x : Section) : Prop := x.id ≠ customId → draft.previous < x.id

/-- No section has an id past the last one. -/
theorem id_le_lastId (x : Section) : x.id ≤ lastId := by
  cases x <;> simp only [Section.id, lastId] <;> decide

/-- **A section is read in its place.** -/
theorem reads_readSection : Reads n draft.readSection fun b draft' =>
    ∃ x, Form.sectionItem b x ∧ draft.Admits x ∧ draft' = draft.next x := by
  refine Reads.position_bind fun start => ?_
  refine (Reads.tagged fun id => Reads.ite (fun _ => Reads.fail _ _) fun hid =>
    Reads.ite (fun _ => Reads.fail _ _) fun _ => reads_span_bind (G := fun bs draft' =>
      ∃ x : Section, x.id = id ∧ Form.contents bs x ∧
        draft' = { draft with previous := if id = customId then draft.previous else id }.add x)
      fun part => Reads.of_part fun s s' draft' => addSection_eq_ok_iff (UInt8.not_lt.mp hid)).congr
    fun b draft' => ?_
  constructor
  · rintro ⟨id, rest, rfl, ⟨-, h⟩ | ⟨-, ⟨-, h⟩ | ⟨hplace, hsize, ⟨x, rfl, hx, rfl⟩, hlength⟩⟩⟩
    · exact h.elim
    · exact h.elim
    · refine ⟨x, .mk (.mk hsize hx hlength), ?_, rfl⟩
      intro hcustom
      apply UInt8.not_le.mp
      intro hle
      exact hplace ⟨hcustom, hle⟩
  · rintro ⟨x, ⟨hsize, hx, hlength⟩, hadmits, rfl⟩
    refine ⟨x.id, _, rfl, .inr ⟨UInt8.not_lt.mpr (id_le_lastId x), .inr ⟨?_, ?_⟩⟩⟩
    · rintro ⟨hcustom, hle⟩
      exact UInt8.not_lt.mpr hle (hadmits hcustom)
    · exact .mk hsize ⟨x, rfl, hx, rfl⟩ hlength

end Draft

end WasmCore
