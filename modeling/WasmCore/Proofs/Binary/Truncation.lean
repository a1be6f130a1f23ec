import Mathlib.Data.List.TakeWhile
import WasmCore.Proofs.Binary.Customs

/-!
# `Binary.Truncation` — a binary that was cut short

What is left of a binary that was cut off somewhere is no binary, unless the cut fell between two
sections. The decoder tells the two apart by sizes alone: it takes a section out of the input before it
looks into it, so that a cut inside of a section is found out before anything of its contents is read.
The size itself may be cut, but then the last byte that is left of it says that another one follows.

* `Decoder.RunsOut`: a decoder stops because its input is too short;
* `runsOut_u32`, `runsOut_span`, `Draft.runsOut_readSection`: **a part of an integer, of a sized part, of
  a section**;
* `Draft.readSections_of_prefix`: a part of all sections;
* `runsOut_header`: a part of the header;
* `decode_truncated`: **a truncated binary is not mistaken for a whole one**.
-/

namespace WasmCore

/-- The beginning of a text with something after it ends inside of the text or goes on behind it. -/
theorem prefix_append_cases {p b bs : List UInt8} (h : p <+: b ++ bs) :
    (p <+: b ∧ p ≠ b) ∨ ∃ q, p = b ++ q ∧ q <+: bs := by
  rcases List.prefix_or_prefix_of_prefix h (List.prefix_append b bs) with hp | ⟨q, rfl⟩
  · by_cases hpb : p = b
    · exact .inr ⟨[], by rw [hpb, List.append_nil], List.nil_prefix⟩
    · exact .inl ⟨hp, hpb⟩
  · exact .inr ⟨q, rfl, (List.prefix_append_right_inj b).mp h⟩

/-- What is cut off is shorter. -/
theorem length_lt_of_cut {p b : List UInt8} (h : p <+: b) (hne : p ≠ b) : p.length < b.length :=
  Nat.lt_of_le_of_ne h.length_le fun hlength => hne (h.eq_of_length hlength)

namespace Decoder

variable {α β : Type}

/-- **A decoder stops because its input is too short**, at an offset that is not past the end of it. -/
def RunsOut (d : Decoder α) (s : Input) : Prop :=
  ∃ offset, d s = .error ⟨.unexpectedEnd, offset⟩ ∧ offset ≤ s.offset + s.bytes.length

namespace RunsOut

variable {d : Decoder α} {f : α → Decoder β} {s s' : Input}

/-- What comes after does not matter. -/
theorem bind (h : d.RunsOut s) : (d >>= f).RunsOut s := by
  obtain ⟨offset, hd, hoffset⟩ := h
  exact ⟨offset, bind_of_error hd, hoffset⟩

/-- What comes before has left the end of the input where it was. -/
theorem after {x : α} (hd : d s = .ok (x, s'))
    (hend : s'.offset + s'.bytes.length = s.offset + s.bytes.length) (h : (f x).RunsOut s') :
    (d >>= f).RunsOut s := by
  obtain ⟨offset, hf, hoffset⟩ := h
  exact ⟨offset, by rw [bind_of_ok hd, hf], hend ▸ hoffset⟩

/-- A form that stands before what runs out. -/
theorem after_form {F : Form α} {b rest : List UInt8} {offset : Nat} {x : α}
    (hd : Reads b.length d F) (hb : F b x) (h : (f x).RunsOut ⟨rest, offset + b.length⟩) :
    (d >>= f).RunsOut ⟨b ++ rest, offset⟩ := by
  refine after (hd.complete hb (Nat.le_refl _) rest offset) ?_ h
  simp only [List.length_append]
  omega

end RunsOut

/-! ## Parts that are cut -/

theorem runsOut_take {count : Nat} {s : Input} (h : s.bytes.length < count) : (take count).RunsOut s :=
  ⟨s.offset, take_of_lt h, Nat.le_add_right _ _⟩

/-- Bytes that all say that another one follows. -/
theorem runsOut_groups (n : Nat) {s : Input} (h : ∀ b ∈ s.bytes, 128 ≤ b) : (Leb.groups n).RunsOut s :=
  ⟨_, groups_of_endless n h, Nat.le_refl _⟩

/-- **A part of an integer**: its last byte is missing. -/
theorem runsOut_u32 {b p : List UInt8} {x : UInt32} (hb : Form.u32 b x) (hp : p <+: b) (hne : p ≠ b)
    (offset : Nat) : u32.RunsOut ⟨p, offset⟩ := by
  obtain ⟨⟨-, lead, last, rfl, hlead, -⟩, -⟩ := hb
  have hpart : p <+: lead := (List.prefix_concat_iff.mp hp).resolve_left hne
  have hcontinues : ∀ c ∈ p, 128 ≤ c := fun c hc => hlead c (hpart.subset hc)
  have hunsigned : (Leb.unsigned 32).RunsOut ⟨p, offset⟩ :=
    RunsOut.after rfl rfl (runsOut_groups 32 hcontinues).bind
  rw [u32, map_eq_pure_bind]
  exact hunsigned.bind

/-- **A part of a size and of the bytes that it announces.** -/
theorem runsOut_span {F : Form α} {b p : List UInt8} {x : α} (hb : Form.sized F b x) (hp : p <+: b)
    (hne : p ≠ b) (offset : Nat) : span.RunsOut ⟨p, offset⟩ := by
  obtain @⟨c, bs, size, x, hc, -, hsize⟩ := hb
  rcases prefix_append_cases hp with ⟨hp, hne⟩ | ⟨q, rfl, hq⟩
  · exact (runsOut_u32 hc hp hne offset).bind
  · -- The size is whole, and what it announces is not there.
    have hqne : q ≠ bs := fun h => hne (by rw [h])
    refine RunsOut.after_form reads_u32 hc (runsOut_take ?_)
    rw [hsize]
    exact length_lt_of_cut hq hqne

/-- **A part of the header.** -/
theorem runsOut_header {p : List UInt8} (hp : p <+: WasmCore.header) (hne : p ≠ WasmCore.header) :
    Decoder.header.RunsOut ⟨p, 0⟩ := by
  have hall : ∀ n : Fin 8, Decoder.header ⟨WasmCore.header.take n, 0⟩ =
      .error ⟨.unexpectedEnd, if n.val < 4 then 0 else 4⟩ := by decide
  have hlength : p.length < 8 := length_lt_of_cut hp hne
  refine ⟨if p.length < 4 then 0 else 4, ?_, ?_⟩
  · have hcut := hall ⟨p.length, hlength⟩
    rw [← List.prefix_iff_eq_take.mp hp] at hcut
    exact hcut
  · show _ ≤ 0 + p.length
    split <;> omega

end Decoder

/-! ## Sections that are cut -/

namespace Draft

open Decoder

variable {draft : Draft} {ss : List Section} {x : Section}

/-- **A part of a section**, in its place. -/
theorem runsOut_readSection {b p : List UInt8} (hb : Form.sectionItem b x) (hadmits : draft.Admits x)
    (hp : p <+: b) (hne : p ≠ b) (offset : Nat) : draft.readSection.RunsOut ⟨p, offset⟩ := by
  obtain @⟨bs, x, hbs⟩ := hb
  refine RunsOut.after rfl rfl ?_
  cases p with
  | nil => exact RunsOut.bind ⟨offset, rfl, Nat.le_add_right _ _⟩
  | cons id p =>
    obtain ⟨rfl, hrest⟩ := List.cons_prefix_cons.mp hp
    have hne : p ≠ bs := fun h => hne (by rw [h])
    have hplace : ¬(x.id ≠ customId ∧ x.id ≤ draft.previous) := by
      rintro ⟨hcustom, hle⟩
      exact UInt8.not_lt.mpr hle (hadmits hcustom)
    refine RunsOut.after (byte_cons x.id p offset) ?_ ?_
    · simp only [List.length_cons]
      omega
    · rw [if_neg (UInt8.not_lt.mpr (id_le_lastId x)), if_neg hplace]
      exact (runsOut_span hbs hrest hne _).bind

/-- **A part of all sections.** Either it ends with a section, or the decoder finds that it is cut. -/
theorem readSections_of_prefix {budget : Nat} (offset : Nat) {bytes p : List UInt8} {ss' : List Section}
    (hitems : Form.items Form.sectionItem bytes ss') (hp : p <+: bytes) (hbudget : p.length ≤ budget)
    (h : draft.Holds ss) (hinc : Section.Increasing (ss ++ ss')) :
    (∃ ids, Form.items Form.frame p ids) ∨ (readSections budget draft).RunsOut ⟨p, offset⟩ := by
  induction hitems generalizing draft budget offset ss p with
  | nil =>
    rw [List.prefix_nil.mp hp]
    exact .inl ⟨[], .nil⟩
  | @cons b bs x ss' hx hitems ih =>
    rw [← List.singleton_append, ← List.append_assoc] at hinc
    have hadmits := h.admits_iff.mpr hinc.left
    by_cases hempty : p = []
    · rw [hempty]
      exact .inl ⟨[], .nil⟩
    have hpos : 0 < p.length := List.length_pos_iff.mpr hempty
    obtain ⟨budget, rfl⟩ : ∃ k, budget = k + 1 := ⟨budget - 1, by omega⟩
    have hgoes : readSections (budget + 1) draft ⟨p, offset⟩ =
        (draft.readSection >>= readSections budget) ⟨p, offset⟩ := by
      rw [readSections_succ, if_neg (by rwa [List.isEmpty_iff])]
    rcases prefix_append_cases hp with ⟨hp, hne⟩ | ⟨q, rfl, hq⟩
    · have hcut := (runsOut_readSection hx hadmits hp hne offset).bind (f := readSections budget)
      obtain ⟨place, herror, hplace⟩ := hcut
      exact .inr ⟨place, hgoes.trans herror, hplace⟩
    · have hbpos := sectionItem_pos hx
      have hleft : q.length ≤ budget := by
        rw [List.length_append] at hbudget
        omega
      rcases ih (offset + b.length) hq hleft (h.next hinc.left) hinc with ⟨ids, hids⟩ | hcut
      · exact .inl ⟨x.id :: ids, .cons (Form.frame_of_sectionItem hx) hids⟩
      · obtain ⟨place, herror, hplace⟩ := RunsOut.after_form reads_readSection
          ⟨x, hx, hadmits, rfl⟩ hcut
        exact .inr ⟨place, hgoes.trans herror, hplace⟩

end Draft

/-! ## Binaries that are cut -/

/-- **A binary ends where a section ends**: it is the header, and some frames of sections. -/
def EndsWithSection (p : List UInt8) : Prop :=
  ∃ sections ids, p = header ++ sections ∧ Form.items Form.frame sections ids

/-- **A cut inside of the header or of a section** is found out. -/
theorem runsOut_of_cut {b p : List UInt8} {m : Module} (h : decode b = .ok m) (hp : p <+: b)
    (hcut : ¬ EndsWithSection p) : Decoder.module.RunsOut ⟨p, 0⟩ := by
  obtain ⟨ss, bs, rfl, hitems, hincreasing, -, -⟩ := conforms_of_decode h
  rcases prefix_append_cases hp with ⟨hp, hne⟩ | ⟨q, rfl, hq⟩
  · exact (Decoder.runsOut_header hp hne).bind
  · refine Decoder.RunsOut.after_form Decoder.reads_header (x := ()) rfl ?_
    refine Decoder.RunsOut.after rfl rfl ?_
    rcases Draft.readSections_of_prefix (0 + header.length) hitems hq (Nat.le_refl q.length) .nil
      hincreasing with ⟨ids, hids⟩ | hruns
    · exact absurd ⟨q, ids, rfl, hids⟩ hcut
    · exact hruns.bind

/-- **A truncated binary is not mistaken for a whole one.** Take any binary that decodes to a module, and
    any beginning of it. If it ends with a section, so that the module is made up of the sections that
    are left and of those that were cut off, it decodes to the module that is made up of the former alone,
    unless those have types of functions without bodies: then that is the error. Any other beginning is
    refused because it ends too early, at an offset that is not past its end. -/
theorem decode_truncated {b p : List UInt8} {m : Module} (h : decode b = .ok m) (hp : p <+: b) :
    (EndsWithSection p →
      ∃ before after ss₁ ss₂, p = header ++ before ∧ b = header ++ before ++ after ∧
        Form.items Form.sectionItem before ss₁ ∧ Form.items Form.sectionItem after ss₂ ∧
        m = Module.ofSections (ss₁ ++ ss₂) ∧
        decode p =
          if (ss₁.flatMap Section.ofFuncs).length = (ss₁.flatMap Section.ofCodes).length then
            .ok (Module.ofSections ss₁)
          else
            .error ⟨.funcCodeMismatch (ss₁.flatMap Section.ofFuncs).length
              (ss₁.flatMap Section.ofCodes).length, p.length⟩) ∧
    (¬ EndsWithSection p →
      ∃ offset, decode p = .error ⟨.unexpectedEnd, offset⟩ ∧ offset ≤ p.length) := by
  constructor
  · rintro ⟨before, ids, rfl, hframes⟩
    obtain ⟨ss, bs, rfl, hitems, hincreasing, -, rfl⟩ := conforms_of_decode h
    obtain ⟨after, rfl⟩ := (List.prefix_append_right_inj header).mp hp
    obtain ⟨ss₁, ss₂, rfl, hss₁, hss₂, -⟩ := Form.split_at_frames hframes hitems
    exact ⟨before, after, ss₁, ss₂, rfl, (List.append_assoc _ _ _).symm, hss₁, hss₂, rfl,
      decode_of_sections hss₁ hincreasing.left⟩
  · intro hcut
    obtain ⟨offset, herror, hoffset⟩ := runsOut_of_cut h hp hcut
    refine ⟨offset, ?_, ?_⟩
    · unfold decode
      rw [herror]
      rfl
    · rwa [Nat.zero_add] at hoffset

/-- The binary of `idle`. -/
theorem decode_idle :
    decode (header ++ [1, 4, 1, 0x60, 0, 0, 3, 2, 1, 0, 0, 2, 1, 0x61, 10, 4, 1, 2, 0, 0x0b]) =
      .ok .idle := by
  have hencodable : Module.idle.Encodable := ⟨by decide +kernel, by decide +kernel, by decide +kernel⟩
  have hbytes : encode .idle .specimen =
      header ++ [1, 4, 1, 0x60, 0, 0, 3, 2, 1, 0, 0, 2, 1, 0x61, 10, 4, 1, 2, 0, 0x0b] := by
    decide +kernel
  rw [← hbytes]
  exact decode_of_conforms hencodable.conforms

/-- A part of the first section is not the whole of it. -/
theorem cut_in_types : ¬ EndsWithSection (header ++ [1, 4, 1, 0x60]) := by
  have htypes : Form.frame [1, 4, 1, 0x60, 0, 0] 1 :=
    Form.frame_of_sectionItem (Encoder.form_sectionItem (x := .types [⟨[], []⟩]) trivial (by decide +kernel))
  rintro ⟨sections, ids, hsame, hframes⟩
  have hsections := List.append_cancel_left hsame
  cases hframes with
  | nil => cases hsections
  | @cons b bs id ids hframe _ =>
    have hall : b ++ (bs ++ [0, 0]) = [1, 4, 1, 0x60, 0, 0] ++ [] := by
      rw [← List.append_assoc, ← hsections]
      rfl
    obtain ⟨-, rfl, -⟩ := Form.frame_unique hframe htypes hall
    cases hsections

/-- Of the binary of `idle` the header alone is a module without anything in it, and what is cut inside of
    the first section is refused. -/
theorem idle_truncated :
    decode header = .ok {} ∧
    ∃ offset, decode (header ++ [1, 4, 1, 0x60]) = .error ⟨.unexpectedEnd, offset⟩ ∧ offset ≤ 12 := by
  constructor
  · obtain ⟨before, after, ss₁, ss₂, hbefore, -, hss₁, -, -, hdecode⟩ :=
      (decode_truncated decode_idle (List.prefix_append header _)).1 ⟨[], [], rfl, .nil⟩
    obtain rfl : before = [] := List.self_eq_append_right.mp hbefore
    obtain rfl : ss₁ = [] := by
      generalize hnone : ([] : List UInt8) = none at hss₁
      cases hss₁ with
      | nil => rfl
      | cons hx _ =>
        have hpos := Draft.sectionItem_pos hx
        have hlength := congrArg List.length hnone
        rw [List.length_append] at hlength
        simp only [List.length_nil] at hlength
        omega
    exact hdecode
  · refine (decode_truncated decode_idle ?_).2 cut_in_types
    rw [List.prefix_append_right_inj]
    exact ⟨[0, 0, 3, 2, 1, 0, 0, 2, 1, 0x61, 10, 4, 1, 2, 0, 0x0b], rfl⟩

end WasmCore
