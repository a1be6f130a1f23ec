import WasmCore.Proofs.Binary.RoundTrip
import WasmCore.Proofs.Store.History

/-!
# `Binary.Customs` — custom sections may stand anywhere

A custom section has a name and bytes that mean nothing. It may be put between any two sections of a
binary, before the first or after the last. What the binary decodes to then has one more custom section,
in the place that the sections before it determine, and is otherwise the same module: the check of the
module and its instantiation do not look at custom sections.

Where sections meet can be told from their ids and sizes alone, without a look at their contents, so
that a boundary of a binary is the end of a run of frames.

* `Form.frame`, `frame_unique`: a section as a frame, and that frames do not overlap;
* `split_at_frames`: sections before and after a boundary;
* `ofSections_insert`: one more custom section;
* `validate_withCustom`, `Store.instantiate_withCustom`: custom sections are not looked at;
* `decode_insert_custom`: **custom sections are inert**.
-/

namespace WasmCore

/-! ## Frames -/

namespace Form

/-- A section whatever its contents: its id, a size, and that many bytes. -/
inductive frame : Form UInt8
  | mk {bs payload : List UInt8} {id : UInt8} : sized bytes bs payload → frame (id :: bs) id

theorem frame_of_sectionItem {bs : List UInt8} {x : Section} (h : sectionItem bs x) :
    frame bs x.id := by
  obtain ⟨⟨hsize, -, hlength⟩⟩ := h
  exact .mk (.mk hsize rfl hlength)

/-- Sections one after another are frames one after another. -/
theorem frames_of_sections {bs : List UInt8} {ss : List Section} (h : items sectionItem bs ss) :
    items frame bs (ss.map Section.id) := by
  induction h with
  | nil => exact .nil
  | cons hx _ ih => exact .cons (frame_of_sectionItem hx) ih

/-- **Frames do not overlap**: where one starts, only one can end. -/
theorem frame_unique {b b' rest rest' : List UInt8} {id id' : UInt8} (h : frame b id)
    (h' : frame b' id') (hsame : b ++ rest = b' ++ rest') : id = id' ∧ b = b' ∧ rest = rest' := by
  obtain @⟨_, _, _, @⟨c, bs, size, _, hsize, -, hlength⟩⟩ := h
  obtain @⟨_, _, _, @⟨c', bs', size', _, hsize', -, hlength'⟩⟩ := h'
  rw [List.cons_append, List.cons_append, List.append_assoc, List.append_assoc] at hsame
  obtain ⟨rfl, hbytes⟩ := List.cons.inj hsame
  -- Read the two sizes: the reader goes on behind each of them.
  have hread := Decoder.reads_u32.complete hsize (Nat.le_refl _) (bs ++ rest) 0
  have hread' := Decoder.reads_u32.complete hsize' (Nat.le_refl _) (bs' ++ rest') 0
  rw [hbytes, hread'] at hread
  obtain ⟨rfl, hinput⟩ := Prod.mk.inj (Except.ok.inj hread)
  obtain ⟨hrest, -⟩ := Input.mk.inj hinput
  rw [hrest] at hbytes
  have hc : c = c' := List.append_cancel_right hbytes
  obtain ⟨hbs, hrest⟩ := List.append_inj hrest (hlength'.symm.trans hlength)
  exact ⟨rfl, by rw [hc, hbs], hrest.symm⟩

theorem items_append {α : Type} {F : Form α} {b b' : List UInt8} {xs ys : List α}
    (h : items F b xs) (h' : items F b' ys) : items F (b ++ b') (xs ++ ys) := by
  induction h with
  | nil => exact h'
  | cons hx _ ih =>
    rw [List.append_assoc]
    exact .cons hx ih

/-- **The sections before and after a boundary.** -/
theorem split_at_frames {before after : List UInt8} {ids : List UInt8} {ss : List Section}
    (hbefore : items frame before ids) (h : items sectionItem (before ++ after) ss) :
    ∃ ss₁ ss₂, ss = ss₁ ++ ss₂ ∧ items sectionItem before ss₁ ∧ items sectionItem after ss₂ ∧
      ss₁.map Section.id = ids := by
  induction hbefore generalizing ss with
  | nil => exact ⟨[], ss, rfl, .nil, h, rfl⟩
  | @cons b bs id ids hframe _ ih =>
    rw [List.append_assoc] at h
    generalize hall : b ++ (bs ++ after) = all at h
    cases h with
    | nil =>
      -- A frame is not empty.
      cases hframe
      cases hall
    | @cons b' bs' x ss hx hss =>
      obtain ⟨hid, rfl, rfl⟩ := frame_unique hframe (frame_of_sectionItem hx) hall
      obtain ⟨ss₁, ss₂, rfl, hss₁, hss₂, hids⟩ := ih hss
      refine ⟨x :: ss₁, ss₂, rfl, .cons hx hss₁, hss₂, ?_⟩
      rw [List.map_cons, hids, hid]

end Form

/-! ## One more custom section -/

/-- The module with one more custom section, after the first `n` of them. -/
def Module.withCustom (m : Module) (n : Nat) (c : CustomSection) : Module :=
  { m with customs := m.customs.insertIdx n c }

section Insertion

variable {ss₁ ss₂ : List Section} (c : CustomSection)

/-- Custom sections are among the sections with id zero, and only they are. -/
theorem count_customs (ss : List Section) :
    (ss.map Section.id).count 0 = (ss.flatMap Section.ofCustom).length := by
  induction ss with
  | nil => rfl
  | cons x ss ih =>
    rw [List.map_cons, List.count_cons, ih, List.flatMap_cons, List.length_append]
    cases x <;> simp [Section.id, Section.ofCustom, Nat.add_comm]

theorem insertIdx_length {α : Type} (xs ys : List α) (x : α) :
    (xs ++ ys).insertIdx xs.length x = xs ++ x :: ys := by
  induction xs with
  | nil => rfl
  | cons y xs ih =>
    rw [List.cons_append, List.length_cons, List.insertIdx_succ_cons, ih]
    rfl

theorem Section.increasing_insert (h : Section.Increasing (ss₁ ++ ss₂)) :
    Section.Increasing (ss₁ ++ .custom c :: ss₂) := by
  have hids : ((ss₁ ++ .custom c :: ss₂).map Section.id).filter (· ≠ 0) =
      ((ss₁ ++ ss₂).map Section.id).filter (· ≠ 0) := by
    simp [Section.id]
  unfold Section.Increasing at h ⊢
  rw [hids]
  exact h

/-- What custom sections do not hold does not change. -/
theorem flatMap_insert {α : Type} {f : Section → List α} (hf : f (.custom c) = []) :
    (ss₁ ++ .custom c :: ss₂).flatMap f = (ss₁ ++ ss₂).flatMap f := by
  simp [hf]

theorem ofSections_insert :
    Module.ofSections (ss₁ ++ .custom c :: ss₂) =
      (Module.ofSections (ss₁ ++ ss₂)).withCustom ((ss₁.map Section.id).count 0) c := by
  have hcustoms : (ss₁ ++ .custom c :: ss₂).flatMap Section.ofCustom =
      ((ss₁ ++ ss₂).flatMap Section.ofCustom).insertIdx ((ss₁.map Section.id).count 0) c := by
    rw [count_customs, List.flatMap_append, List.flatMap_append, insertIdx_length]
    rfl
  unfold Module.ofSections Module.withCustom
  rw [hcustoms, flatMap_insert c (f := Section.ofTypes) rfl, flatMap_insert c (f := Section.ofImports) rfl,
    flatMap_insert c (f := Section.ofFuncs) rfl, flatMap_insert c (f := Section.ofCodes) rfl,
    flatMap_insert c (f := Section.ofTables) rfl, flatMap_insert c (f := Section.ofMemories) rfl,
    flatMap_insert c (f := Section.ofGlobals) rfl, flatMap_insert c (f := Section.ofExports) rfl,
    flatMap_insert c (f := Section.ofStart) rfl, flatMap_insert c (f := Section.ofElems) rfl,
    flatMap_insert c (f := Section.ofDatas) rfl]

end Insertion

/-! ## What does not look at custom sections -/

section Inert

variable (m : Module) (n : Nat) (c : CustomSection)

theorem validate_withCustom : validate (m.withCustom n c) = validate m := rfl

theorem Store.instantiate_withCustom (turns : Nat) (s : Store) (given : List External) :
    s.instantiate turns (m.withCustom n c) given = s.instantiate turns m given := rfl

end Inert

/-- **Custom sections are inert.** Take any binary that decodes to a module and any boundary in it: the
    header and some frames of sections are before it, `ids` their ids. With a custom section put there
    the binary decodes to the same module but for that custom section, which comes after as many others
    as there are before the boundary. The check gives the same answer for both modules; and in any store
    instantiation comes to the same for both, with the same store after it, so that all that is done
    later comes to the same as well. -/
theorem decode_insert_custom {before after bs ids : List UInt8} {m : Module} {c : CustomSection}
    (h : decode (header ++ before ++ after) = .ok m) (hbefore : Form.items Form.frame before ids)
    (hbs : Form.sectionItem bs (.custom c)) :
    decode (header ++ before ++ bs ++ after) = .ok (m.withCustom (ids.count 0) c) ∧
    validate (m.withCustom (ids.count 0) c) = validate m ∧
    ∀ (s : Store) (turns : Nat) (given : List External),
      s.instantiate turns (m.withCustom (ids.count 0) c) given = s.instantiate turns m given ∧
      ∀ (later : List Operation) (turns' : Nat) (a : FuncAddr) (args : List Value),
        ((s.instantiate turns (m.withCustom (ids.count 0) c) given).2.performAll later).invoke turns' a
          args = ((s.instantiate turns m given).2.performAll later).invoke turns' a args := by
  obtain ⟨ss, all, hall, hss, hincreasing, hlength, rfl⟩ := conforms_of_decode h
  -- Both binaries are read off the grammar, and only the sections are told apart at the boundary.
  rw [List.append_assoc] at hall
  cases List.append_cancel_left hall
  obtain ⟨ss₁, ss₂, rfl, hss₁, hss₂, rfl⟩ := Form.split_at_frames hbefore hss
  have hsame := Store.instantiate_withCustom (Module.ofSections (ss₁ ++ ss₂))
    ((ss₁.map Section.id).count 0) c
  refine ⟨?_, validate_withCustom _ _ c, fun s turns given => ⟨hsame turns s given, ?_⟩⟩
  · refine decode_of_conforms ⟨ss₁ ++ .custom c :: ss₂, before ++ (bs ++ after), ?_, ?_, ?_, ?_, ?_⟩
    · rw [List.append_assoc, List.append_assoc]
    · exact Form.items_append hss₁ (.cons hbs hss₂)
    · exact Section.increasing_insert c hincreasing
    · rw [flatMap_insert c rfl, flatMap_insert c rfl]
      exact hlength
    · exact (ofSections_insert c).symm
  · intro later turns' a args
    exact congrArg (fun r => (r.2.performAll later).invoke turns' a args) (hsame turns s given)

/-! ### A custom section between functions and their code -/

/-- A module with one function and a custom section. -/
def Module.idle : Module where
  customs := [⟨"a", []⟩]
  types := [⟨[], []⟩]
  funcs := [{ typeIdx := 0, locals := [], body := [] }]

/-- The sections of `idle` up to its code. -/
def sectionsBeforeCode : List Section := [.types [⟨[], []⟩], .funcs [0], .custom ⟨"a", []⟩]

theorem frames_beforeCode :
    Form.items Form.frame [1, 4, 1, 0x60, 0, 0, 3, 2, 1, 0, 0, 2, 1, 0x61] [1, 3, 0] := by
  have hbytes : sectionsBeforeCode.flatMap Encoder.sectionItem =
      [1, 4, 1, 0x60, 0, 0, 3, 2, 1, 0, 0, 2, 1, 0x61] := by decide +kernel
  have hsections : ∀ x ∈ sectionsBeforeCode, Form.sectionItem (Encoder.sectionItem x) x := by
    simp only [sectionsBeforeCode, List.forall_mem_cons]
    refine ⟨?_, ?_, ?_, nofun⟩
    all_goals exact Encoder.form_sectionItem trivial (by decide +kernel)
  rw [← hbytes]
  exact Form.frames_of_sections (Encoder.form_items hsections)

/-- The new section comes after the one that is there, and the function keeps its code. -/
theorem idle_insert_custom :
    decode (header ++ [1, 4, 1, 0x60, 0, 0, 3, 2, 1, 0, 0, 2, 1, 0x61] ++ [10, 4, 1, 2, 0, 0x0b]) =
      .ok .idle ∧
    decode (header ++ [1, 4, 1, 0x60, 0, 0, 3, 2, 1, 0, 0, 2, 1, 0x61] ++ [0, 3, 1, 0x62, 7] ++
      [10, 4, 1, 2, 0, 0x0b]) = .ok { Module.idle with customs := [⟨"a", []⟩, ⟨"b", [7]⟩] } := by
  have hencodable : Module.idle.Encodable := ⟨by decide +kernel, by decide +kernel, by decide +kernel⟩
  have hbytes : encode .idle .specimen =
      header ++ [1, 4, 1, 0x60, 0, 0, 3, 2, 1, 0, 0, 2, 1, 0x61] ++ [10, 4, 1, 2, 0, 0x0b] := by
    decide +kernel
  have hdecode : decode (encode .idle .specimen) = .ok .idle := decode_of_conforms hencodable.conforms
  rw [hbytes] at hdecode
  have hcustom : Form.sectionItem [0, 3, 1, 0x62, 7] (.custom ⟨"b", [7]⟩) :=
    Encoder.form_sectionItem (x := .custom ⟨"b", [7]⟩) trivial (by decide +kernel)
  exact ⟨hdecode, (decode_insert_custom hdecode frames_beforeCode hcustom).1⟩

end WasmCore
