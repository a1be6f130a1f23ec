import WasmCore.Proofs.Binary.Conformance

/-!
# `Binary.Confinement` — decoders stay inside of their span

A part that is cut out of a binary keeps its offsets, and errors may be reported where an item began. So
what a decoder does is described relative to a span of offsets in which its input lies: what it leaves is
the end of the input, with the offset moved along, and its errors point into the span. How many bytes are
read at least is counted along the way.

* `Input.Within`, `Input.Leaves`, `DecodeError.PointsInto`: spans, what is left, and errors in a span;
* `Decoder.Confined`: **a decoder stays inside of a span and reads a number of bytes at least**;
* `Confined.bind`, `Confined.position_bind`, `Confined.span_bind`, `Confined.within_bind`, …: decoders in
  sequence;
* `exprRound`, `Draft.sectionRound`: one round of the loops over instructions and over sections;
* `confined_u32`, `confined_vector`, `confined_exprFrom`, `confined_code`, …: each decoder;
* `confined_readSection`, `confined_module`: sections and whole modules.
-/

namespace WasmCore

/-- The offset behind the last byte. -/
def Input.stop (s : Input) : Nat := s.offset + s.bytes.length

/-- An input lies in a span of offsets. -/
def Input.Within (s : Input) (first stop : Nat) : Prop := first ≤ s.offset ∧ s.stop ≤ stop

/-- **What is left of an input** behind `count` bytes at least: the end of it, which is where it was. -/
def Input.Leaves (s : Input) (count : Nat) (s' : Input) : Prop :=
  ∃ used, count ≤ used.length ∧ s.bytes = used ++ s'.bytes ∧ s'.offset = s.offset + used.length

/-- **An error points into a span**, and decoding has a word for it. -/
structure DecodeError.PointsInto (e : DecodeError) (first stop : Nat) : Prop where
  first_le : first ≤ e.offset
  le_stop : e.offset ≤ stop
  worded : ∀ reason, e.fault ≠ .unreadable reason

namespace Input

variable {first stop j k : Nat} {s s' s'' : Input}

/-- An input lies in its own span. -/
theorem within_self (s : Input) : s.Within s.offset s.stop := ⟨Nat.le_refl _, Nat.le_refl _⟩

theorem Leaves.refl (s : Input) : s.Leaves 0 s := ⟨[], Nat.le_refl 0, rfl, rfl⟩

theorem Leaves.trans (h : s.Leaves j s') (h' : s'.Leaves k s'') : s.Leaves (j + k) s'' := by
  obtain ⟨used, hused, hs, ho⟩ := h
  obtain ⟨used', hused', hs', ho'⟩ := h'
  refine ⟨used ++ used', ?_, ?_, ?_⟩
  · rw [List.length_append]; omega
  · rw [hs, hs', List.append_assoc]
  · rw [ho', ho, List.length_append]; omega

theorem Leaves.mono (h : s.Leaves k s') (hj : j ≤ k) : s.Leaves j s' := by
  obtain ⟨used, hused, hs⟩ := h
  exact ⟨used, Nat.le_trans hj hused, hs⟩

theorem Leaves.length_le (h : s.Leaves k s') : s'.bytes.length + k ≤ s.bytes.length := by
  obtain ⟨used, hused, hs, -⟩ := h
  rw [hs, List.length_append]
  omega

theorem Leaves.stop_eq (h : s.Leaves k s') : s'.stop = s.stop := by
  obtain ⟨used, -, hs, ho⟩ := h
  rw [stop, stop, hs, ho, List.length_append]
  omega

/-- What is left lies in the same span. -/
theorem Within.of_leaves (hs : s.Within first stop) (h : s.Leaves k s') : s'.Within first stop := by
  obtain ⟨used, -, -, ho⟩ := h.mono (Nat.zero_le k)
  refine ⟨?_, ?_⟩
  · rw [ho]; exact Nat.le_trans hs.1 (Nat.le_add_right _ _)
  · rw [h.stop_eq]; exact hs.2

theorem Within.offset_le (h : s.Within first stop) : s.offset ≤ stop :=
  Nat.le_trans (Nat.le_add_right _ _) h.2

end Input

namespace Decoder

variable {α β : Type} {first stop j k : Nat}

/-- **A decoder stays inside of a span** if it is given an input there, and reads `count` bytes at least if
    it succeeds. -/
structure Confined (first stop count : Nat) (d : Decoder α) : Prop where
  ok : ∀ {s s' : Input} {x : α}, s.Within first stop → d s = .ok (x, s') → s.Leaves count s'
  error : ∀ {s : Input} {e : DecodeError}, s.Within first stop → d s = .error e → e.PointsInto first stop

theorem offset_of_take {count : Nat} {s s' part : Input} (h : take count s = .ok (part, s')) :
    part.offset = s.offset := by
  simp only [take] at h
  split at h
  · cases h; rfl
  · cases h

theorem error_of_take {count : Nat} {s : Input} {e : DecodeError} (h : take count s = .error e) :
    e = ⟨.unexpectedEnd, s.offset⟩ := by
  simp only [take] at h
  split at h
  · cases h
  · cases h; rfl

namespace Confined

variable {d d' : Decoder α} {f : α → Decoder β}

theorem mono (h : Confined first stop k d) (hj : j ≤ k) : Confined first stop j d where
  ok hs hd := (h.ok hs hd).mono hj
  error := h.error

theorem pure (x : α) : Confined first stop 0 (Pure.pure x : Decoder α) where
  ok := by
    intro s s' x _ h
    cases h
    exact .refl s
  error := by
    intro s e _ h
    cases h

/-- Stopping at a place of the span, for a reason that has a word. -/
theorem failAt {offset : Nat} {fault : DecodeFault} (hfirst : first ≤ offset) (hstop : offset ≤ stop)
    (hfault : ∀ reason, fault ≠ .unreadable reason) :
    Confined first stop k (Decoder.failAt offset fault : Decoder α) where
  ok := by
    intro s s' x _ h
    cases h
  error := by
    intro s e _ h
    cases h
    exact ⟨hfirst, hstop, hfault⟩

/-- **Two decoders in sequence** read what both read. -/
theorem bind_add (hd : Confined first stop j d) (hf : ∀ x, Confined first stop k (f x)) :
    Confined first stop (j + k) (d >>= f) where
  ok := by
    intro s s'' y hs h
    obtain ⟨x, s', hx, hy⟩ := bind_eq_ok_iff.mp h
    have hleaves := hd.ok hs hx
    exact hleaves.trans ((hf x).ok (hs.of_leaves hleaves) hy)
  error := by
    intro s e hs h
    cases hx : d s with
    | error e' =>
      rw [bind_of_error hx] at h
      cases h
      exact hd.error hs hx
    | ok p =>
      rw [bind_of_ok hx] at h
      exact (hf p.1).error (hs.of_leaves (hd.ok hs hx)) h

/-- In a sequence that reads something at once it does not matter how much is read later. -/
theorem bind {count : α → Nat} (hd : Confined first stop j d)
    (hf : ∀ x, Confined first stop (count x) (f x)) : Confined first stop j (d >>= f) :=
  hd.bind_add fun x => (hf x).mono (Nat.zero_le _)

theorem map (g : α → β) (hd : Confined first stop k d) : Confined first stop k (g <$> d) := by
  rw [map_eq_pure_bind]
  exact hd.bind fun x => .pure (g x)

theorem ite {p : Prop} [Decidable p] (hd : p → Confined first stop j d)
    (hd' : ¬p → Confined first stop k d') : Confined first stop 0 (if p then d else d') := by
  split
  · rename_i hp
    exact (hd hp).mono (Nat.zero_le _)
  · rename_i hp
    exact (hd' hp).mono (Nat.zero_le _)

/-- Where a decoder begins is a place of the span. -/
theorem position_bind {f : Nat → Decoder β}
    (hf : ∀ start, first ≤ start → start ≤ stop → Confined first stop k (f start)) :
    Confined first stop k (position >>= f) where
  ok hs h := (hf _ hs.1 hs.offset_le).ok hs h
  error hs h := (hf _ hs.1 hs.offset_le).error hs h

theorem get_bind {f : Input → Decoder β} (hf : ∀ s, Confined first stop k (f s)) :
    Confined first stop k (get >>= f) where
  ok {s _ _} hs h := (hf s).ok hs h
  error {s _} hs h := (hf s).error hs h

theorem byte : Confined first stop 1 byte where
  ok := by
    rintro ⟨_ | ⟨b, rest⟩, offset⟩ s' x _ h
    · cases h
    · cases h
      exact ⟨[b], Nat.le_refl 1, rfl, rfl⟩
  error := by
    rintro ⟨_ | ⟨b, rest⟩, offset⟩ e hs h
    · cases h
      exact ⟨hs.1, hs.offset_le, nofun⟩
    · cases h

/-- A part that is cut out lies in the same span. -/
theorem within_of_take {count : Nat} {s s' part : Input} (hs : s.Within first stop)
    (h : take count s = .ok (part, s')) : part.Within first stop ∧ s.Leaves count s' := by
  obtain ⟨hlength, hbytes, hoffset⟩ := take_eq_ok h
  refine ⟨⟨?_, ?_⟩, part.bytes, Nat.le_of_eq hlength.symm, hbytes, hoffset⟩
  · rw [offset_of_take h]; exact hs.1
  · refine Nat.le_trans ?_ hs.2
    rw [Input.stop, Input.stop, offset_of_take h, hbytes, List.length_append]
    omega

/-- **A part that is cut out** is worked on in the same span. -/
theorem take_bind {count : Nat} {f : Input → Decoder β}
    (hf : ∀ part : Input, part.Within first stop → Confined first stop k (f part)) :
    Confined first stop count (take count >>= f) where
  ok := by
    intro s s'' y hs h
    obtain ⟨part, s', hpart, hy⟩ := bind_eq_ok_iff.mp h
    obtain ⟨hwithin, hleaves⟩ := within_of_take hs hpart
    exact (hleaves.trans ((hf part hwithin).ok (hs.of_leaves hleaves) hy)).mono (Nat.le_add_right _ _)
  error := by
    intro s e hs h
    cases hpart : take count s with
    | error e' =>
      rw [bind_of_error hpart] at h
      cases h
      rw [error_of_take hpart]
      exact ⟨hs.1, hs.offset_le, nofun⟩
    | ok p =>
      obtain ⟨hwithin, hleaves⟩ := within_of_take hs hpart
      rw [bind_of_ok hpart] at h
      exact (hf p.1 hwithin).error (hs.of_leaves hleaves) h

/-- A part that was cut out is decoded on its own; what is left of it lies in the span, too. -/
theorem within_bind {part : Input} {f : α × Input → Decoder β} (hpart : part.Within first stop)
    (hd : Confined first stop j d)
    (hf : ∀ x rest, rest.Within first stop → Confined first stop k (f (x, rest))) :
    Confined first stop k (within part d >>= f) where
  ok := by
    intro s s'' y hs h
    obtain ⟨⟨x, rest⟩, s', hwithin, hy⟩ := bind_eq_ok_iff.mp h
    obtain ⟨hx, rfl⟩ := within_eq_ok_iff.mp hwithin
    exact (hf x rest (hpart.of_leaves (hd.ok hpart hx))).ok hs hy
  error := by
    intro s e hs h
    cases hx : d part with
    | error e' =>
      have hwithin : within part d s = .error e' := by rw [within, hx]
      rw [bind_of_error hwithin] at h
      cases h
      exact hd.error hpart hx
    | ok p =>
      rw [bind_of_ok (within_eq_ok_iff.mpr ⟨hx, rfl⟩)] at h
      exact (hf p.1 p.2 (hpart.of_leaves (hd.ok hpart hx))).error hs h

end Confined

/-- The rest of a loop behind a round. -/
def continued (loop : σ → Decoder α) : σ ⊕ α → Decoder α
  | .inl a => loop a
  | .inr x => pure x

theorem Confined.continued {σ : Type} {loop : σ → Decoder α} (h : ∀ a, Confined first stop k (loop a))
    (r : σ ⊕ α) : Confined first stop 0 (continued loop r) := by
  cases r with
  | inl a => exact (h a).mono (Nat.zero_le k)
  | inr x => exact .pure x

/-! ## Integers -/

theorem confined_groups (n : Nat) : Confined first stop 1 (Leb.groups n) where
  ok := by
    rintro s s' ⟨lead, last⟩ _ h
    obtain ⟨b, ⟨rfl, -⟩, hs, ho⟩ := (reads_groups (k := 0)).sound h
    exact ⟨lead ++ [last], by simp, hs, ho⟩
  error := by
    intro s e hs h
    simp only [Leb.groups] at h
    split at h
    · cases h
      refine ⟨Nat.le_trans hs.1 (Nat.le_add_right _ _), Nat.le_trans ?_ hs.2, by simp⟩
      exact Nat.add_le_add_left (List.takeWhile_sublist _).length_le _
    · split at h
      · cases h
        exact ⟨hs.1, hs.offset_le, by simp⟩
      · cases h

theorem confined_unsigned (n : Nat) : Confined first stop 1 (Leb.unsigned n) :=
  .position_bind fun _ hfirst hstop => (confined_groups n).bind fun _ =>
    .ite (fun _ => .failAt (k := 0) hfirst hstop nofun) fun _ => .pure _

theorem confined_signed (n : Nat) : Confined first stop 1 (Leb.signed n) :=
  .position_bind fun _ hfirst hstop => (confined_groups n).bind fun _ =>
    .ite (fun _ => .failAt (k := 0) hfirst hstop nofun) fun _ =>
      .ite (fun _ => .pure _) fun _ => .pure _

theorem confined_u32 : Confined first stop 1 u32 := (confined_unsigned 32).map _

theorem confined_i32 : Confined first stop 1 i32 := (confined_signed 32).map _

theorem confined_i64 : Confined first stop 1 i64 := (confined_signed 64).map _

/-! ## Sequences and parts -/

/-- **Items that take a byte each** take as many bytes at least as there are items. -/
theorem confined_times {d : Decoder α} (hd : Confined first stop 1 d) (count : Nat) :
    Confined first stop count (times count d) := by
  have hafter : ∀ earlier, Confined first stop count (timesAfter d count earlier) := by
    induction count with
    | zero => exact fun earlier => .pure _
    | succ count ih =>
      intro earlier
      have h := hd.bind_add fun x => ih (x :: earlier)
      exact h.mono (Nat.le_of_eq (Nat.add_comm count 1))
  exact hafter []

theorem confined_vector {d : Decoder α} (hd : Confined first stop 1 d) :
    Confined first stop 1 (vector d) :=
  confined_u32.bind fun count => confined_times hd count.toNat

/-- A size and a part of that size. -/
theorem Confined.span_bind {f : Input → Decoder β}
    (hf : ∀ part : Input, part.Within first stop → Confined first stop k (f part)) :
    Confined first stop 1 (span >>= f) := by
  have hspan : (span >>= f) = (u32 >>= fun count => take count.toNat >>= f) := bind_assoc _ _ _
  rw [hspan]
  exact confined_u32.bind fun count => .take_bind hf

theorem confined_span : Confined first stop 1 span := by
  have h : Confined first stop 1 (span >>= Pure.pure) := .span_bind fun part _ => .pure part
  rwa [bind_pure] at h

theorem confined_number (count : Nat) : Confined first stop count (number count) :=
  .take_bind fun _ _ => .pure _

theorem confined_name : Confined first stop 1 name := by
  refine .span_bind (k := 0) fun part hpart => ?_
  cases String.fromUTF8? (ByteArray.mk part.bytes.toArray) with
  | some s => exact .pure s
  | none => exact .failAt hpart.1 hpart.offset_le nofun

/-! ## Types -/

/-- A byte that decides how to go on, and is reported if it is of no use. -/
theorem Confined.tag_bind {f : Nat → UInt8 → Decoder α}
    (hf : ∀ start, first ≤ start → start ≤ stop → ∀ tag, Confined first stop k (f start tag)) :
    Confined first stop 1 (position >>= fun start => Decoder.byte >>= f start) :=
  .position_bind fun start hfirst hstop => Confined.byte.bind (hf start hfirst hstop)

theorem confined_valType : Confined first stop 1 valType :=
  .tag_bind fun _ hfirst hstop _ => .ite (fun _ => .pure _) fun _ => .ite (fun _ => .pure _) fun _ =>
    .ite (fun _ => .pure _) fun _ => .ite (fun _ => .pure _) fun _ => .failAt (k := 0) hfirst hstop nofun

theorem confined_blockType : Confined first stop 1 blockType where
  ok := by
    rintro ⟨_ | ⟨tag, rest⟩, offset⟩ s' x hs h
    · cases h
    · rw [blockType_cons] at h
      split at h
      · cases h
        exact ⟨[tag], Nat.le_refl 1, rfl, rfl⟩
      · exact (confined_valType.map _).ok hs h
  error := by
    rintro ⟨_ | ⟨tag, rest⟩, offset⟩ e hs h
    · cases h
      exact ⟨hs.1, hs.offset_le, nofun⟩
    · rw [blockType_cons] at h
      split at h
      · cases h
      · exact (confined_valType.map _).error hs h

theorem confined_funcType : Confined first stop 1 funcType :=
  .tag_bind fun _ hfirst hstop _ => .ite (fun _ => .failAt (k := 0) hfirst hstop nofun) fun _ =>
    (confined_vector confined_valType).bind fun _ => (confined_vector confined_valType).bind fun _ => .pure _

theorem confined_limits : Confined first stop 1 limits :=
  .tag_bind fun _ hfirst hstop _ => .ite (fun _ => confined_u32.bind fun _ => .pure _) fun _ =>
    .ite (fun _ => confined_u32.bind fun _ => confined_u32.bind fun _ => .pure _) fun _ =>
      .failAt (k := 0) hfirst hstop nofun

theorem confined_tableType : Confined first stop 1 tableType :=
  .tag_bind fun _ hfirst hstop _ => .ite (fun _ => .failAt (k := 0) hfirst hstop nofun) fun _ =>
    confined_limits

theorem confined_mutability : Confined first stop 1 mutability :=
  .tag_bind fun _ hfirst hstop _ => .ite (fun _ => .pure _) fun _ => .ite (fun _ => .pure _) fun _ =>
    .failAt (k := 0) hfirst hstop nofun

theorem confined_globalType : Confined first stop 1 globalType :=
  confined_valType.bind fun _ => confined_mutability.bind fun _ => .pure _

/-! ## Imports and exports -/

theorem confined_importDesc : Confined first stop 1 importDesc :=
  .tag_bind fun _ hfirst hstop _ => .ite (fun _ => confined_u32.map _) fun _ =>
    .ite (fun _ => confined_tableType.map _) fun _ => .ite (fun _ => confined_limits.map _) fun _ =>
      .ite (fun _ => confined_globalType.map _) fun _ => .failAt (k := 0) hfirst hstop nofun

theorem confined_importItem : Confined first stop 1 importItem :=
  confined_name.bind fun _ => confined_name.bind fun _ => confined_importDesc.bind fun _ => .pure _

theorem confined_exportDesc : Confined first stop 1 exportDesc :=
  .tag_bind fun _ hfirst hstop _ => confined_u32.bind fun _ => .ite (fun _ => .pure _) fun _ =>
    .ite (fun _ => .pure _) fun _ => .ite (fun _ => .pure _) fun _ => .ite (fun _ => .pure _) fun _ =>
      .failAt (k := 0) hfirst hstop nofun

theorem confined_exportItem : Confined first stop 1 exportItem :=
  confined_name.bind fun _ => confined_exportDesc.bind fun _ => .pure _

/-! ## Instructions -/

theorem confined_memArg : Confined first stop 1 memArg :=
  confined_u32.bind fun _ => confined_u32.bind fun _ => .pure _

theorem confined_zeroByte : Confined first stop 1 zeroByte :=
  .tag_bind fun _ hfirst hstop _ => .ite (fun _ => .failAt (k := 0) hfirst hstop nofun) fun _ => .pure _

theorem confined_constant (t : ValType) : Confined first stop 1 (constant t) := by
  cases t with
  | i32 => exact confined_i32.map _
  | i64 => exact confined_i64.map _
  | f32 => exact ((confined_number 4).bind fun _ => .pure _).mono (by decide)
  | f64 => exact ((confined_number 8).bind fun _ => .pure _).mono (by decide)

/-- Some instructions have no immediates. -/
theorem confined_plain (m : Mnemonic) : Confined first stop 0 (plain m) := by
  have hindex : ∀ f : UInt32 → Instr, Confined first stop 0 (f <$> u32) :=
    fun f => (confined_u32.map f).mono (Nat.zero_le 1)
  have hzero : ∀ i : Instr, Confined first stop 0 (zeroByte >>= fun _ => Pure.pure i) :=
    fun i => (confined_zeroByte.bind fun _ => .pure i).mono (Nat.zero_le 1)
  cases m with
  | br => exact hindex _
  | brIf => exact hindex _
  | brTable =>
    exact ((confined_vector confined_u32).bind fun _ => confined_u32.bind fun _ => .pure _).mono
      (Nat.zero_le 1)
  | call => exact hindex _
  | callIndirect => exact (confined_u32.bind fun t => hzero (.callIndirect t)).mono (Nat.zero_le 1)
  | localGet => exact hindex _
  | localSet => exact hindex _
  | localTee => exact hindex _
  | globalGet => exact hindex _
  | globalSet => exact hindex _
  | load op => exact (confined_memArg.map _).mono (Nat.zero_le 1)
  | store op => exact (confined_memArg.map _).mono (Nat.zero_le 1)
  | memorySize => exact hzero _
  | memoryGrow => exact hzero _
  | const t => exact ((confined_constant t).map _).mono (Nat.zero_le 1)
  | _ => exact .pure _

/-- One instruction or mark. -/
def exprRound : List OpenBlock × List Instr → Decoder ((List OpenBlock × List Instr) ⊕ Expr)
  | (opened, before) => do
    let start ← position
    let code ← byte
    match Opcode.ofByte? code with
    | none => failAt start (.unknownOpcode code)
    | some (.opening form) =>
      if maxNesting ≤ opened.length then
        failAt start (.nestingTooDeep maxNesting)
      else
        let t ← blockType
        return .inl (⟨form.start t, before⟩ :: opened, [])
    | some .elseMark =>
      match opened with
      | ⟨.ifThen t, outer⟩ :: rest => return .inl (⟨.ifElse t before.reverse, outer⟩ :: rest, [])
      | _ => failAt start .unexpectedElse
    | some .endMark =>
      match opened with
      | [] => return .inr before.reverse
      | ⟨form, outer⟩ :: rest => return .inl (rest, form.close before.reverse :: outer)
    | some (.plain m) =>
      let i ← plain m
      return .inl (opened, i :: before)

/-- **One round of reading instructions.** -/
theorem confined_exprRound (p : List OpenBlock × List Instr) : Confined first stop 1 (exprRound p) := by
  obtain ⟨opened, before⟩ := p
  refine .tag_bind (k := 0) fun start hfirst hstop code => ?_
  cases Opcode.ofByte? code with
  | none => exact .failAt hfirst hstop nofun
  | some op =>
    cases op with
    | opening form =>
      exact .ite (fun _ => .failAt (k := 0) hfirst hstop nofun) fun _ =>
        confined_blockType.bind fun _ => .pure _
    | elseMark =>
      dsimp only
      split
      · exact .pure _
      · exact .failAt hfirst hstop nofun
    | endMark =>
      cases opened with
      | nil => exact .pure _
      | cons block opened => exact .pure _
    | plain m => exact (confined_plain m).bind fun _ => .pure _

theorem exprFrom_succ (budget : Nat) (opened : List OpenBlock) (before : List Instr) :
    exprFrom (budget + 1) opened before =
      exprRound (opened, before) >>= continued fun p => exprFrom budget p.1 p.2 := by
  rw [exprFrom.eq_def (budget + 1), exprRound.eq_def]
  simp only [bind_assoc]
  refine congrArg (position >>= ·) (funext fun start => congrArg (byte >>= ·) (funext fun code => ?_))
  cases Opcode.ofByte? code with
  | none => rfl
  | some op =>
    cases op with
    | opening form =>
      dsimp only
      split
      · rfl
      · rw [bind_assoc]; rfl
    | elseMark =>
      obtain _ | ⟨⟨form, outer⟩, rest⟩ := opened
      · rfl
      · cases form <;> rfl
    | endMark =>
      cases opened with
      | nil => rfl
      | cons block opened => rfl
    | plain m =>
      dsimp only
      rw [bind_assoc]; rfl

/-- **Instructions up to an end**, whatever the budget: there is one byte at least. -/
theorem confined_exprFrom (budget : Nat) (opened : List OpenBlock) (before : List Instr) :
    Confined first stop 1 (exprFrom budget opened before) := by
  induction budget generalizing opened before with
  | zero => exact .position_bind fun start hfirst hstop => .failAt hfirst hstop nofun
  | succ budget ih =>
    rw [exprFrom_succ]
    exact (confined_exprRound _).bind (.continued fun p => ih p.1 p.2)

theorem confined_exprWithin (budget : Nat) : Confined first stop 1 (exprWithin budget) :=
  confined_exprFrom budget [] []

theorem confined_expr : Confined first stop 1 expr where
  ok {s _ _} hs h := (confined_exprWithin s.bytes.length).ok hs h
  error {s _} hs h := (confined_exprWithin s.bytes.length).error hs h

/-! ## Definitions and segments -/

theorem confined_global (size : Nat) : Confined first stop 1 (global size) :=
  confined_globalType.bind fun _ => (confined_exprWithin size).bind fun _ => .pure _

theorem confined_elem (size : Nat) : Confined first stop 1 (elem size) :=
  confined_u32.bind fun _ => (confined_exprWithin size).bind fun _ =>
    (confined_vector confined_u32).bind fun _ => .pure _

theorem confined_data (size : Nat) : Confined first stop 1 (data size) :=
  confined_u32.bind fun _ => (confined_exprWithin size).bind fun _ => confined_span.bind fun _ => .pure _

theorem confined_localRun : Confined first stop 1 localRun :=
  confined_u32.bind fun _ => confined_valType.bind fun _ => .pure _

/-- **Locals and body of a function**, which are read in the part that they fill. -/
theorem confined_code : Confined first stop 1 code :=
  .span_bind fun _ hentry => .within_bind hentry (confined_vector confined_localRun) fun _ _ hafter =>
    .ite (fun _ => .failAt (k := 0) hentry.1 hentry.offset_le nofun) fun _ =>
      .within_bind hafter confined_expr fun _ _ hrest =>
        .ite (fun _ => .pure _) fun _ => .failAt (k := 0) hrest.1 hrest.offset_le nofun

end Decoder

/-! ## Sections -/

namespace Draft

open Decoder

variable {α : Type} {first stop k : Nat} {part : Input}

theorem confined_contents (id : UInt8) {d : Decoder α} (hpart : part.Within first stop)
    (hd : Confined first stop k d) : Confined first stop 0 (contents id part d) :=
  .within_bind hpart hd fun _ _ hrest => .ite (fun _ => .pure _) fun _ =>
    .failAt (k := 0) hrest.1 hrest.offset_le nofun

theorem confined_addCustom (draft : Draft) (hpart : part.Within first stop) :
    Confined first stop 0 (draft.addCustom part) :=
  .within_bind hpart confined_name fun _ _ _ => .pure _

theorem confined_addSection (draft : Draft) (id : UInt8) (hpart : part.Within first stop) :
    Confined first stop 0 (draft.addSection id part) := by
  have hvector : ∀ {α : Type} {d : Decoder α} (f : List α → Draft), Confined first stop 1 d →
      Confined first stop 0 (contents id part (vector d) >>= fun items => Pure.pure (f items)) :=
    fun f hd => (confined_contents id hpart (confined_vector hd)).bind fun _ => .pure _
  unfold addSection
  split
  · exact confined_addCustom draft hpart
  · exact hvector _ confined_funcType
  · exact hvector _ confined_importItem
  · exact hvector _ confined_u32
  · exact hvector _ confined_tableType
  · exact hvector _ confined_limits
  · exact hvector _ (confined_global _)
  · exact hvector _ confined_exportItem
  · exact (confined_contents id hpart confined_u32).bind fun _ => .pure _
  · exact hvector _ (confined_elem _)
  · exact hvector _ confined_code
  · exact hvector _ (confined_data _)

/-- **One section**, of which the id is a byte at least. -/
theorem confined_readSection (draft : Draft) : Confined first stop 1 draft.readSection :=
  .tag_bind fun _ hfirst hstop id => .ite (fun _ => .failAt (k := 0) hfirst hstop nofun) fun _ =>
    .ite (fun _ => .failAt (k := 0) hfirst hstop nofun) fun _ =>
      .span_bind fun _ hpart => confined_addSection _ id hpart

/-- One section, or the end of the input. -/
def sectionRound (draft : Draft) : Decoder (Draft ⊕ Draft) := do
  if (← get).bytes.isEmpty then
    return .inr draft
  else
    return .inl (← draft.readSection)

theorem confined_sectionRound (draft : Draft) : Confined first stop 0 draft.sectionRound :=
  .get_bind fun _ => .ite (fun _ => .pure _) fun _ => (confined_readSection draft).bind fun _ => .pure _

theorem readSections_eq_round (budget : Nat) (draft : Draft) :
    readSections (budget + 1) draft = draft.sectionRound >>= continued (readSections budget) := by
  funext s
  have hround : (draft.sectionRound >>= continued (readSections budget)) s =
      ((if s.bytes.isEmpty then pure (.inr draft)
        else draft.readSection >>= fun draft' => pure (.inl draft')) >>= continued (readSections budget)) s :=
    rfl
  rw [readSections_succ, hround]
  split
  · rfl
  · rw [bind_assoc]
    rfl

theorem confined_readSections (budget : Nat) (draft : Draft) :
    Confined first stop 0 (readSections budget draft) := by
  induction budget generalizing draft with
  | zero => exact .pure draft
  | succ budget ih =>
    rw [readSections_eq_round]
    exact (confined_sectionRound draft).bind (.continued ih)

theorem confined_finish (draft : Draft) : Confined first stop 0 draft.finish :=
  .ite (fun _ => .position_bind fun _ hfirst hstop => .failAt (k := 0) hfirst hstop nofun) fun _ => .pure _

end Draft

namespace Decoder

variable {first stop : Nat}

theorem confined_headerWord : Confined first stop 4 headerWord := .take_bind fun _ _ => .pure _

theorem confined_header : Confined first stop 4 header :=
  .position_bind fun _ hfirst hstop => confined_headerWord.bind fun _ =>
    .ite (fun _ => .failAt (k := 0) hfirst hstop nofun) fun _ =>
      .position_bind fun _ hfirst hstop => confined_headerWord.bind fun _ =>
        .ite (fun _ => .failAt (k := 0) hfirst hstop nofun) fun _ => .pure ()

/-- **A whole module.** -/
theorem confined_module : Confined first stop 4 Decoder.module :=
  confined_header.bind fun _ => .get_bind fun _ => (Draft.confined_readSections _ _).bind fun draft =>
    draft.confined_finish

end Decoder

end WasmCore
