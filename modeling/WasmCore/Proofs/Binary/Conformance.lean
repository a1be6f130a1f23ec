import WasmCore.Proofs.Binary.Sections

/-!
# `Binary.Conformance` — binaries that the decoder accepts

The decoder collects sections in a draft. It remembers the last id instead of all sections that came
before, and it overwrites a field instead of adding to it. Both are right because ids increase: the last
one is the largest, and what is overwritten is still empty.

* `Draft.Holds`: a draft stands for the sections that it was made of;
* `Draft.Holds.next`: **one more section**;
* `Draft.holds_of_readSections`, `Draft.readSections_of_items`: all sections, by induction on the budget;
* `decode_of_sections`: what comes of sections behind a header;
* `decode_eq_ok_iff`: **the decoder accepts conformant encodings and nothing else.**
-/

namespace WasmCore

/-! ## Ids in increasing order -/

namespace Section

variable {ss : List Section} {x : Section}

/-- Custom sections may stand anywhere, and others behind smaller ids only. -/
theorem increasing_concat_iff :
    Increasing (ss ++ [x]) ↔ Increasing ss ∧ (x.id ≠ 0 → ∀ y ∈ ss, y.id < x.id) := by
  unfold Increasing
  rw [List.map_append, List.filter_append, List.pairwise_append]
  by_cases hid : x.id = 0
  · simp [hid]
  · have hlast : ([x].map Section.id).filter (· ≠ 0) = [x.id] := by simp [hid]
    rw [hlast]
    constructor
    · rintro ⟨hss, -, hlt⟩
      refine ⟨hss, fun _ y hy => ?_⟩
      by_cases hy0 : y.id = 0
      · rw [hy0]
        exact UInt8.pos_iff_ne_zero.mpr hid
      · have hmem : y.id ∈ (ss.map Section.id).filter (· ≠ 0) :=
          List.mem_filter.mpr ⟨List.mem_map_of_mem hy, decide_eq_true hy0⟩
        exact hlt y.id hmem x.id (List.mem_singleton_self _)
    · rintro ⟨hss, hlt⟩
      refine ⟨hss, List.pairwise_singleton _ _, ?_⟩
      intro a ha b hb
      obtain rfl := List.mem_singleton.mp hb
      obtain ⟨y, hy, rfl⟩ := List.mem_map.mp (List.mem_filter.mp ha).1
      exact hlt hid y hy

/-- Sections without the later ones. -/
theorem Increasing.left {ss' : List Section} (h : Increasing (ss ++ ss')) : Increasing ss := by
  unfold Increasing at h
  rw [List.map_append, List.filter_append] at h
  exact (List.pairwise_append.mp h).1

/-- What only sections of one id hold. -/
structure HeldAt {α : Type} (k : UInt8) (f : Section → List α) : Prop where
  not_custom : k ≠ 0
  others : ∀ y, y.id ≠ k → f y = []

/-- Every field of a module but its custom sections is held by sections of one id. -/
theorem heldAt :
    HeldAt 1 ofTypes ∧ HeldAt 2 ofImports ∧ HeldAt 3 ofFuncs ∧ HeldAt 4 ofTables ∧ HeldAt 5 ofMemories ∧
      HeldAt 6 ofGlobals ∧ HeldAt 7 ofExports ∧ HeldAt 8 ofStart ∧ HeldAt 9 ofElems ∧
      HeldAt 10 ofCodes ∧ HeldAt 11 ofDatas := by
  and_intros
  all_goals
    constructor
    · decide
    · intro y hy
      cases y <;> first | rfl | exact absurd rfl hy

/-- What only sections of one id hold is not there before that id. -/
theorem Increasing.flatMap_eq_nil {α : Type} {f : Section → List α} (h : Increasing (ss ++ [x]))
    (hf : HeldAt x.id f) : ss.flatMap f = [] := by
  rw [List.flatMap_eq_nil_iff]
  intro y hy
  apply hf.others
  exact UInt8.ne_of_lt ((increasing_concat_iff.mp h).2 hf.not_custom y hy)

end Section

namespace Draft

open Decoder

variable {draft draft' : Draft} {ss : List Section} {x : Section} {s s' : Input}

/-- **A draft stands for the sections that it was made of.** -/
structure Holds (draft : Draft) (ss : List Section) : Prop where
  increasing : Section.Increasing ss
  le_previous : ∀ x ∈ ss, x.id ≤ draft.previous
  previous : draft.previous = customId ∨ ∃ x ∈ ss, x.id = draft.previous
  module : draft.module = { Module.ofSections ss with customs := [], funcs := [] }
  customs : draft.customs.reverse = ss.flatMap Section.ofCustom
  funcTypes : draft.funcTypes = ss.flatMap Section.ofFuncs
  codes : draft.codes = ss.flatMap Section.ofCodes

namespace Holds

theorem nil : Holds {} [] where
  increasing := .nil
  le_previous := by intro x hx; cases hx
  previous := .inl rfl
  module := rfl
  customs := rfl
  funcTypes := rfl
  codes := rfl

/-- The last id is the largest one. -/
theorem admits_iff (h : draft.Holds ss) : draft.Admits x ↔ Section.Increasing (ss ++ [x]) := by
  rw [Section.increasing_concat_iff]
  constructor
  · intro hadmits
    refine ⟨h.increasing, fun hid y hy => ?_⟩
    exact UInt8.lt_of_le_of_lt (h.le_previous y hy) (hadmits hid)
  · rintro ⟨-, hlt⟩ hid
    -- the last id is none at all, or that of an earlier section
    obtain hnone | ⟨y, hy, hprevious⟩ := h.previous
    · rw [hnone]
      exact UInt8.pos_iff_ne_zero.mpr hid
    · rw [← hprevious]
      exact hlt hid y hy

theorem previous_next (draft : Draft) (x : Section) :
    (draft.next x).previous = if x.id = customId then draft.previous else x.id := by
  cases x <;> rfl

/-- **One more section.** -/
theorem next (h : draft.Holds ss) (hinc : Section.Increasing (ss ++ [x])) :
    (draft.next x).Holds (ss ++ [x]) where
  increasing := hinc
  le_previous := by
    have hlt := (Section.increasing_concat_iff.mp hinc).2
    intro y hy
    rw [previous_next]
    by_cases hid : x.id = customId
    · rw [if_pos hid]
      obtain hy | hy := List.mem_append.mp hy
      · exact h.le_previous y hy
      · rw [List.mem_singleton.mp hy, hid]
        exact UInt8.le_iff_toNat_le.mpr (Nat.zero_le _)
    · rw [if_neg hid]
      obtain hy | hy := List.mem_append.mp hy
      · exact UInt8.le_of_lt (hlt hid y hy)
      · rw [List.mem_singleton.mp hy]
        exact UInt8.le_refl _
  previous := by
    rw [previous_next]
    by_cases hid : x.id = customId
    · rw [if_pos hid]
      obtain hnone | ⟨y, hy, hprevious⟩ := h.previous
      · exact .inl hnone
      · exact .inr ⟨y, List.mem_append_left _ hy, hprevious⟩
    · rw [if_neg hid]
      exact .inr ⟨x, List.mem_append_right _ (List.mem_singleton_self x), rfl⟩
  module := by
    obtain ⟨htypes, himports, -, htables, hmemories, hglobals, hexports, hstart, helems, -, hdatas⟩ :=
      Section.heldAt
    cases x
    all_goals
      simp only [Draft.next, add, h.module, Module.ofSections, List.flatMap_append, List.flatMap_singleton,
        Section.ofCustom, Section.ofTypes, Section.ofImports, Section.ofFuncs, Section.ofTables,
        Section.ofMemories, Section.ofGlobals, Section.ofExports, Section.ofStart, Section.ofElems,
        Section.ofCodes, Section.ofDatas, List.append_nil, Module.mk.injEq, List.self_eq_append_left,
        and_true, true_and]
    -- what is overwritten is empty
    case types => exact hinc.flatMap_eq_nil htypes
    case imports => exact hinc.flatMap_eq_nil himports
    case tables => exact hinc.flatMap_eq_nil htables
    case memories => exact hinc.flatMap_eq_nil hmemories
    case globals => exact hinc.flatMap_eq_nil hglobals
    case exports => exact hinc.flatMap_eq_nil hexports
    case start => rw [hinc.flatMap_eq_nil hstart]; rfl
    case elems => exact hinc.flatMap_eq_nil helems
    case datas => exact hinc.flatMap_eq_nil hdatas
  customs := by
    cases x <;> simp [Draft.next, add, h.customs, Section.ofCustom]
  funcTypes := by
    obtain ⟨-, -, hfuncs, -⟩ := Section.heldAt
    cases x
    all_goals
      simp only [Draft.next, add, h.funcTypes, List.flatMap_append, List.flatMap_singleton, Section.ofFuncs,
        List.append_nil, List.self_eq_append_left]
    exact hinc.flatMap_eq_nil hfuncs
  codes := by
    obtain ⟨-, -, -, -, -, -, -, -, -, hcodes, -⟩ := Section.heldAt
    cases x
    all_goals
      simp only [Draft.next, add, h.codes, List.flatMap_append, List.flatMap_singleton, Section.ofCodes,
        List.append_nil, List.self_eq_append_left]
    exact hinc.flatMap_eq_nil hcodes

end Holds

/-! ## All sections -/

/-- A section takes a byte at least. -/
theorem sectionItem_pos {b : List UInt8} (h : Form.sectionItem b x) : 0 < b.length := by
  cases h
  exact Nat.succ_pos _

theorem readSections_succ (budget : Nat) (draft : Draft) (s : Input) :
    readSections (budget + 1) draft s =
      if s.bytes.isEmpty then .ok (draft, s) else (draft.readSection >>= readSections budget) s := by
  unfold readSections
  show (if s.bytes.isEmpty then pure draft else draft.readSection >>= readSections budget : Decoder Draft) s = _
  split <;> rfl

/-- Sections are read to the last byte. -/
theorem holds_of_readSections {budget : Nat} (hread : readSections budget draft s = .ok (draft', s'))
    (hbudget : s.bytes.length ≤ budget) (h : draft.Holds ss) :
    ∃ ss', Form.items Form.sectionItem s.bytes ss' ∧ draft'.Holds (ss ++ ss') := by
  induction budget generalizing draft s ss with
  | zero =>
    cases hread
    rw [List.length_eq_zero_iff.mp (Nat.le_zero.mp hbudget)]
    exact ⟨[], .nil, by rwa [List.append_nil]⟩
  | succ budget ih =>
    rw [readSections_succ] at hread
    split at hread
    · rename_i hempty
      cases hread
      rw [List.isEmpty_iff.mp hempty]
      exact ⟨[], .nil, by rwa [List.append_nil]⟩
    · obtain ⟨draft₁, s₁, hsection, hrest⟩ := bind_eq_ok_iff.mp hread
      obtain ⟨b, ⟨x, hx, hadmits, rfl⟩, hs, -⟩ := (reads_readSection (n := 0)).sound hsection
      -- the section took a byte at least, so that the budget is enough for what is left
      have hpos := sectionItem_pos hx
      rw [hs, List.length_append] at hbudget
      obtain ⟨ss', hitems, hholds⟩ := ih hrest (by omega) (h.next (h.admits_iff.mp hadmits))
      rw [List.append_assoc, List.singleton_append] at hholds
      rw [hs]
      exact ⟨x :: ss', .cons hx hitems, hholds⟩

theorem readSections_nil (budget offset : Nat) (draft : Draft) :
    readSections budget draft ⟨[], offset⟩ = .ok (draft, ⟨[], offset⟩) := by
  cases budget with
  | zero => rfl
  | succ budget => exact readSections_succ budget draft ⟨[], offset⟩

/-- **Sections in increasing order are read.** -/
theorem readSections_of_items {budget : Nat} (offset : Nat) {bytes : List UInt8} {ss' : List Section}
    (hitems : Form.items Form.sectionItem bytes ss') (hbudget : bytes.length ≤ budget) (h : draft.Holds ss)
    (hinc : Section.Increasing (ss ++ ss')) :
    ∃ draft', readSections budget draft ⟨bytes, offset⟩ = .ok (draft', ⟨[], offset + bytes.length⟩) ∧
      draft'.Holds (ss ++ ss') := by
  induction hitems generalizing draft budget offset ss with
  | nil =>
    rw [List.append_nil]
    exact ⟨draft, readSections_nil budget offset draft, h⟩
  | @cons b bs x ss' hx hitems ih =>
    have hpos := sectionItem_pos hx
    rw [List.length_append] at hbudget ⊢
    rw [← List.singleton_append, ← List.append_assoc] at hinc ⊢
    obtain ⟨budget, rfl⟩ : ∃ k, budget = k + 1 := ⟨budget - 1, by omega⟩
    have hsection := (reads_readSection (n := b.length)).complete
      ⟨x, hx, h.admits_iff.mpr hinc.left, rfl⟩ (Nat.le_refl _) bs offset
    have hbytes : ¬(b ++ bs).isEmpty = true := by
      rw [List.isEmpty_iff_length_eq_zero, List.length_append]
      omega
    rw [readSections_succ, if_neg hbytes, bind_of_ok hsection, ← Nat.add_assoc]
    exact ih _ (by omega) (h.next hinc.left) hinc

/-- **What a draft becomes** when all sections have been read. -/
theorem finish_eq (h : draft.Holds ss) (s : Input) :
    draft.finish s =
      if (ss.flatMap Section.ofFuncs).length = (ss.flatMap Section.ofCodes).length then
        .ok (Module.ofSections ss, s)
      else
        .error ⟨.funcCodeMismatch (ss.flatMap Section.ofFuncs).length
          (ss.flatMap Section.ofCodes).length, s.offset⟩ := by
  unfold finish
  rw [h.funcTypes, h.codes, h.module, h.customs]
  by_cases hlength : (ss.flatMap Section.ofFuncs).length = (ss.flatMap Section.ofCodes).length
  · rw [if_neg (not_not_intro hlength), if_pos hlength]
    rfl
  · rw [if_pos hlength, if_neg hlength]
    rfl

end Draft

/-! ## Whole binaries -/

namespace Decoder

variable {n : Nat}

theorem reads_headerWord :
    Reads n headerWord fun b x => b.length = 4 ∧ x = Bytes.toNat b.reverse :=
  reads_take_map fun bs => Bytes.toNat bs.reverse

/-- Different bytes make up different words. -/
theorem eq_of_toNat_reverse {b bs : List UInt8} (hlength : b.length = bs.length)
    (h : Bytes.toNat b.reverse = Bytes.toNat bs.reverse) : b = bs := by
  have hb := Bytes.ofNat_toNat b.reverse
  have hbs := Bytes.ofNat_toNat bs.reverse
  rw [h, List.length_reverse, hlength, ← List.length_reverse, hbs] at hb
  exact (List.reverse_inj.mp hb).symm

/-- A word that is expected, and what follows it. -/
theorem reads_word {α : Type} {d : Decoder α} {F : Form α} {word : Nat} (fault : Nat → DecodeFault)
    (b : List UInt8) (hlength : b.length = 4) (hword : Bytes.toNat b.reverse = word)
    (hd : Reads n d F) :
    Reads n (do let start ← position
                let found ← headerWord
                if found ≠ word then failAt start (fault found) else d)
      fun c x => ∃ rest, c = b ++ rest ∧ F rest x := by
  refine Reads.position_bind fun start => ?_
  refine (reads_headerWord.bind fun found =>
    Reads.ite (fun _ => Reads.fail _ _) fun _ => hd).congr fun c x => ?_
  constructor
  · rintro ⟨_, b₁, rest, rfl, ⟨hlength₁, rfl⟩, ⟨-, h⟩ | ⟨hfound, h⟩⟩
    · exact h.elim
    · have hb₁ := (Decidable.not_not.mp hfound).trans hword.symm
      rw [eq_of_toNat_reverse (hlength₁.trans hlength.symm) hb₁]
      exact ⟨rest, rfl, h⟩
  · rintro ⟨rest, rfl, h⟩
    exact ⟨word, b, rest, rfl, ⟨hlength, hword.symm⟩, .inr ⟨not_not_intro rfl, h⟩⟩

theorem reads_header : Reads n Decoder.header fun b _ => b = WasmCore.header := by
  have hversion := reads_word (n := n) .unexpectedVersion [0x01, 0x00, 0x00, 0x00] rfl
    (show _ = version by decide) (Reads.pure ())
  refine (reads_word .badMagic [0x00, 0x61, 0x73, 0x6d] rfl (show _ = magic by decide)
    hversion).congr fun b x => ?_
  constructor
  · rintro ⟨_, rfl, _, rfl, rfl, -⟩
    rfl
  · rintro rfl
    exact ⟨[0x01, 0x00, 0x00, 0x00], rfl, [], rfl, rfl, rfl⟩

end Decoder

open Decoder

variable {b : List UInt8} {m : Module}

theorem decode_eq_ok_iff_module : decode b = .ok m ↔ ∃ s', Decoder.module ⟨b, 0⟩ = .ok (m, s') := by
  unfold decode
  cases Decoder.module ⟨b, 0⟩ with
  | error e =>
    constructor
    · intro h; cases h
    · rintro ⟨_, h⟩; cases h
  | ok p =>
    constructor
    · intro h; cases h; exact ⟨p.2, rfl⟩
    · rintro ⟨_, h⟩; cases h; rfl

/-- Nothing but conformant encodings is accepted. -/
theorem conforms_of_decode (h : decode b = .ok m) : Conforms b m := by
  obtain ⟨s', hmodule⟩ := decode_eq_ok_iff_module.mp h
  obtain ⟨_, s₁, hheader, hrest⟩ := bind_eq_ok_iff.mp hmodule
  obtain ⟨_, rfl, hb, -⟩ := (reads_header (n := 0)).sound hheader
  obtain ⟨_, _, hget, hrest⟩ := bind_eq_ok_iff.mp hrest
  cases hget
  obtain ⟨draft, s₂, hsections, hfinish⟩ := bind_eq_ok_iff.mp hrest
  obtain ⟨ss, hitems, hholds⟩ := Draft.holds_of_readSections hsections (Nat.le_refl _) .nil
  rw [List.nil_append] at hholds
  rw [Draft.finish_eq hholds] at hfinish
  split at hfinish
  · next hlength =>
    cases hfinish
    exact ⟨ss, s₁.bytes, hb, hitems, hholds.increasing, hlength, rfl⟩
  · cases hfinish

/-- **Sections in increasing order, behind a header**, are all read. That there are as many bodies as
    types of functions is seen at the end. -/
theorem decode_of_sections {bs : List UInt8} {ss : List Section}
    (hitems : Form.items Form.sectionItem bs ss) (hincreasing : Section.Increasing ss) :
    decode (header ++ bs) =
      if (ss.flatMap Section.ofFuncs).length = (ss.flatMap Section.ofCodes).length then
        .ok (Module.ofSections ss)
      else
        .error ⟨.funcCodeMismatch (ss.flatMap Section.ofFuncs).length
          (ss.flatMap Section.ofCodes).length, (header ++ bs).length⟩ := by
  have hheader := reads_header.complete (x := ()) rfl (Nat.le_refl header.length) bs 0
  obtain ⟨draft, hsections, hholds⟩ := Draft.readSections_of_items (0 + header.length) hitems
    (Nat.le_refl _) .nil hincreasing
  have hmodule : Decoder.module ⟨header ++ bs, 0⟩ =
      draft.finish ⟨[], 0 + header.length + bs.length⟩ := by
    unfold Decoder.module
    rw [bind_of_ok hheader]
    exact bind_of_ok hsections
  unfold decode
  rw [hmodule, Draft.finish_eq hholds, List.nil_append, List.length_append, Nat.zero_add]
  split <;> rfl

/-- Every conformant encoding is accepted. -/
theorem decode_of_conforms (h : Conforms b m) : decode b = .ok m := by
  obtain ⟨ss, bs, rfl, hitems, hincreasing, hlength, rfl⟩ := h
  rw [decode_of_sections hitems hincreasing, if_pos hlength]

/-- **The decoder accepts conformant encodings and nothing else**, and gives the module that they stand
    for. -/
theorem decode_eq_ok_iff (b : List UInt8) (m : Module) : decode b = .ok m ↔ Conforms b m :=
  ⟨conforms_of_decode, decode_of_conforms⟩

end WasmCore
