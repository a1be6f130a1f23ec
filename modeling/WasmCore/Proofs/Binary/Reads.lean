import WasmCore.Proofs.Binary.Grammar

/-!
# `Binary.Reads` — decoders that read exactly a form

A decoder reads a form if it accepts an input exactly when the input begins with bytes of that form, and
then gives the value that they stand for and goes on behind them. Decoders are put together in a few
ways, and for each of them the form of the whole follows from those of the parts.

Some decoders work on a budget, which is enough for inputs up to a size; so that they read a form is said
up to that size.

* `Reads`: soundness and completeness of a decoder;
* `Reads.pure`, `Reads.bind`, `Reads.tagged`, …: decoders in sequence;
* `reads_times`, `reads_take_bind`: several items, several bytes;
* `Reads.fills`: a part that is read to its end.
-/

namespace WasmCore.Decoder

/-- **A decoder reads a form**, up to `n` bytes: whatever it accepts is of that form, and it accepts
    whatever is of that form, whatever follows. -/
structure Reads {α : Type} (n : Nat) (d : Decoder α) (F : Form α) : Prop where
  sound : ∀ {s s' : Input} {x : α}, d s = .ok (x, s') →
    ∃ b, F b x ∧ s.bytes = b ++ s'.bytes ∧ s'.offset = s.offset + b.length
  complete : ∀ {b : List UInt8} {x : α}, F b x → b.length ≤ n → ∀ rest offset,
    d ⟨b ++ rest, offset⟩ = .ok (x, ⟨rest, offset + b.length⟩)

section Sequence

variable {α β : Type}

/-- A sequence succeeds exactly if both of its parts do. -/
theorem bind_eq_ok_iff {d : Decoder α} {f : α → Decoder β} {s s'' : Input} {y : β} :
    (d >>= f) s = .ok (y, s'') ↔ ∃ x s', d s = .ok (x, s') ∧ f x s' = .ok (y, s'') := by
  show Except.bind (d s) (fun p => f p.1 p.2) = .ok (y, s'') ↔ _
  cases d s with
  | error e =>
    constructor
    · intro h; cases h
    · rintro ⟨_, _, h, -⟩; cases h
  | ok p =>
    constructor
    · intro h; exact ⟨p.1, p.2, rfl, h⟩
    · rintro ⟨_, _, h, hf⟩; cases h; exact hf

theorem bind_of_ok {d : Decoder α} {f : α → Decoder β} {s s' : Input} {x : α}
    (h : d s = .ok (x, s')) : (d >>= f) s = f x s' := by
  show Except.bind (d s) (fun p => f p.1 p.2) = _
  rw [h]; rfl

theorem bind_of_error {d : Decoder α} {f : α → Decoder β} {s : Input} {e : DecodeError}
    (h : d s = .error e) : (d >>= f) s = .error e := by
  show Except.bind (d s) (fun p => f p.1 p.2) = _
  rw [h]; rfl

end Sequence

namespace Reads

variable {α β γ : Type} {n : Nat} {d : Decoder α} {F G : Form α}

/-- The same form, described otherwise. -/
theorem congr (h : Reads n d F) (hiff : ∀ b x, F b x ↔ G b x) : Reads n d G where
  sound := by
    intro s s' x hd
    obtain ⟨b, hb, hs⟩ := h.sound hd
    exact ⟨b, (hiff b x).mp hb, hs⟩
  complete hb := h.complete ((hiff _ _).mpr hb)

theorem mono {n' : Nat} (h : Reads n d F) (hn : n' ≤ n) : Reads n' d F where
  sound := h.sound
  complete hb hlength := h.complete hb (Nat.le_trans hlength hn)

/-- A form that nothing has. -/
theorem fail (offset : Nat) (fault : DecodeFault) :
    Reads n (failAt offset fault : Decoder α) fun _ _ => False where
  sound h := by cases h
  complete h := h.elim

theorem pure (a : α) : Reads n (Pure.pure a : Decoder α) fun b x => b = [] ∧ x = a where
  sound := by
    intro s s' x h
    cases h
    exact ⟨[], ⟨rfl, rfl⟩, rfl, rfl⟩
  complete := by
    rintro b x ⟨rfl, rfl⟩ - rest offset
    rfl

/-- **Two decoders in sequence** read what is of the one form and then of the other. -/
theorem bind {f : α → Decoder β} {H : α → Form β} (hd : Reads n d F)
    (hf : ∀ a, Reads n (f a) (H a)) :
    Reads n (d >>= f) fun b y => ∃ a b₁ b₂, b = b₁ ++ b₂ ∧ F b₁ a ∧ H a b₂ y where
  sound := by
    intro s s'' y h
    obtain ⟨a, s', ha, hy⟩ := bind_eq_ok_iff.mp h
    obtain ⟨b₁, hb₁, hs, ho⟩ := hd.sound ha
    obtain ⟨b₂, hb₂, hs', ho'⟩ := (hf a).sound hy
    refine ⟨b₁ ++ b₂, ⟨a, b₁, b₂, rfl, hb₁, hb₂⟩, ?_, ?_⟩
    · rw [hs, hs', List.append_assoc]
    · rw [ho', ho, List.length_append, Nat.add_assoc]
  complete := by
    rintro b y ⟨a, b₁, b₂, rfl, hb₁, hb₂⟩ hlength rest offset
    rw [List.length_append] at hlength
    rw [List.append_assoc, bind_of_ok (hd.complete hb₁ (by omega) _ offset),
      (hf a).complete hb₂ (by omega), List.length_append, Nat.add_assoc]

/-- What is made of a value. -/
theorem map {g : α → β} (hd : Reads n d F) :
    Reads n (g <$> d) fun b y => ∃ a, F b a ∧ y = g a where
  sound := by
    intro s s' y h
    rw [map_eq_pure_bind] at h
    obtain ⟨a, s₁, ha, hy⟩ := bind_eq_ok_iff.mp h
    cases hy
    obtain ⟨b, hb, hs⟩ := hd.sound ha
    exact ⟨b, ⟨a, hb, rfl⟩, hs⟩
  complete := by
    rintro b y ⟨a, ha, rfl⟩ hlength rest offset
    rw [map_eq_pure_bind, bind_of_ok (hd.complete ha hlength rest offset)]
    rfl

/-- Where a decoder began only shows in its errors. -/
theorem position_bind {f : Nat → Decoder β} {H : Form β} (hf : ∀ offset, Reads n (f offset) H) :
    Reads n (position >>= f) H where
  sound := by
    intro s s' y h
    obtain ⟨_, _, hposition, hy⟩ := bind_eq_ok_iff.mp h
    cases hposition
    exact (hf _).sound hy
  complete := by
    intro b y hb hlength rest offset
    have hposition : position ⟨b ++ rest, offset⟩ = .ok (offset, ⟨b ++ rest, offset⟩) := rfl
    rw [bind_of_ok hposition]
    exact (hf _).complete hb hlength rest offset

/-- One byte. -/
theorem byte : Reads n Decoder.byte fun b x => b = [x] where
  sound := by
    rintro ⟨bytes, offset⟩ s' x h
    cases bytes with
    | nil => cases h
    | cons b rest => cases h; exact ⟨[x], rfl, rfl, rfl⟩
  complete := by
    rintro b x rfl - rest offset
    rfl

/-- **A first byte decides how to go on**, and that many bytes fewer are left then. -/
theorem tagged_succ {f : UInt8 → Decoder β} {H : UInt8 → Form β}
    (hf : ∀ tag, Reads n (f tag) (H tag)) :
    Reads (n + 1) (Decoder.byte >>= f) fun b y => ∃ tag rest, b = tag :: rest ∧ H tag rest y where
  sound := by
    intro s s'' y h
    obtain ⟨tag, s', htag, hy⟩ := bind_eq_ok_iff.mp h
    obtain ⟨_, rfl, hs, ho⟩ := (byte (n := n)).sound htag
    obtain ⟨rest, hrest, hs', ho'⟩ := (hf tag).sound hy
    refine ⟨tag :: rest, ⟨tag, rest, rfl, hrest⟩, ?_, ?_⟩
    · rw [hs, hs']; rfl
    · rw [ho', ho]; simp only [List.length_cons, List.length_nil]; omega
  complete := by
    rintro b y ⟨tag, rest', rfl, hy⟩ hlength rest offset
    rw [List.length_cons] at hlength
    rw [List.cons_append, bind_of_ok (byte_cons tag _ offset), (hf tag).complete hy (by omega),
      List.length_cons, Nat.add_assoc, Nat.add_comm 1]

theorem tagged {f : UInt8 → Decoder β} {H : UInt8 → Form β} (hf : ∀ tag, Reads n (f tag) (H tag)) :
    Reads n (Decoder.byte >>= f) fun b y => ∃ tag rest, b = tag :: rest ∧ H tag rest y :=
  (tagged_succ hf).mono (Nat.le_succ n)

theorem ite {p : Prop} [Decidable p] {d' : Decoder α} (hd : p → Reads n d F) (hd' : ¬p → Reads n d' G) :
    Reads n (if p then d else d') fun b x => (p ∧ F b x) ∨ (¬p ∧ G b x) := by
  by_cases hp : p
  · rw [if_pos hp]
    refine (hd hp).congr fun b x => ?_
    simp only [hp, true_and, not_true, false_and, or_false]
  · rw [if_neg hp]
    refine (hd' hp).congr fun b x => ?_
    simp only [hp, false_and, not_false_iff, true_and, false_or]

end Reads

/-! ## Several items -/

section Items

variable {α : Type} {n : Nat} {d : Decoder α} {F : Form α}

/-- Items after those that were read already. -/
theorem reads_timesAfter (hd : Reads n d F) (count : Nat) (earlier : List α) :
    Reads n (timesAfter d count earlier) fun b ys =>
      ∃ xs, ys = earlier.reverse ++ xs ∧ xs.length = count ∧ Form.items F b xs := by
  induction count generalizing earlier with
  | zero =>
    refine (Reads.pure earlier.reverse).congr fun b ys => ?_
    constructor
    · rintro ⟨rfl, rfl⟩
      exact ⟨[], (List.append_nil _).symm, rfl, .nil⟩
    · rintro ⟨xs, rfl, hlength, hitems⟩
      obtain rfl := List.length_eq_zero_iff.mp hlength
      cases hitems
      exact ⟨rfl, List.append_nil _⟩
  | succ count ih =>
    refine (hd.bind fun a => ih (a :: earlier)).congr fun b ys => ?_
    constructor
    · rintro ⟨a, b₁, b₂, rfl, ha, xs, rfl, rfl, hxs⟩
      exact ⟨a :: xs, by simp, rfl, .cons ha hxs⟩
    · rintro ⟨_ | ⟨a, xs⟩, rfl, hlength, hitems⟩
      · cases hlength
      · cases hitems with
        | cons ha hxs =>
          exact ⟨a, _, _, rfl, ha, xs, by simp, Nat.succ.inj hlength, hxs⟩

/-- **As many items as given.** -/
theorem reads_times (hd : Reads n d F) (count : Nat) :
    Reads n (times count d) fun b xs => xs.length = count ∧ Form.items F b xs := by
  refine (reads_timesAfter hd count []).congr fun b ys => ?_
  constructor
  · rintro ⟨xs, rfl, h⟩; exact h
  · intro h; exact ⟨ys, rfl, h⟩

end Items

/-! ## Parts -/

/-- As many bytes as given are cut off with their position. -/
theorem take_eq_ok {count : Nat} {s s' part : Input} (h : take count s = .ok (part, s')) :
    part.bytes.length = count ∧ s.bytes = part.bytes ++ s'.bytes ∧
      s'.offset = s.offset + part.bytes.length := by
  simp only [Decoder.take] at h
  by_cases hlength : (s.bytes.take count).length = count
  · rw [if_pos hlength] at h
    cases h
    refine ⟨hlength, (List.take_append_drop count s.bytes).symm, ?_⟩
    show s.offset + count = s.offset + (s.bytes.take count).length
    rw [hlength]
  · rw [if_neg hlength] at h
    cases h

/-- **A part that is cut off**, when what follows makes nothing of where it stood. -/
theorem reads_take_bind {β : Type} {n count : Nat} {f : Input → Decoder β} {H : List UInt8 → Form β}
    (hf : ∀ part : Input, Reads n (f part) (H part.bytes)) :
    Reads n (take count >>= f) fun b y =>
      ∃ b₁ b₂, b = b₁ ++ b₂ ∧ b₁.length = count ∧ H b₁ b₂ y where
  sound := by
    intro s s'' y h
    obtain ⟨part, s', hpart, hy⟩ := bind_eq_ok_iff.mp h
    obtain ⟨hlength, hs, ho⟩ := take_eq_ok hpart
    obtain ⟨b₂, hb₂, hs', ho'⟩ := (hf part).sound hy
    refine ⟨part.bytes ++ b₂, ⟨part.bytes, b₂, rfl, hlength, hb₂⟩, ?_, ?_⟩
    · rw [hs, hs', List.append_assoc]
    · rw [ho', ho, List.length_append, Nat.add_assoc]
  complete := by
    rintro b y ⟨b₁, b₂, rfl, rfl, hb₂⟩ hlength rest offset
    rw [List.length_append] at hlength
    rw [List.append_assoc, bind_of_ok (take_append b₁ _ offset),
      (hf ⟨b₁, offset⟩).complete hb₂ (by omega), List.length_append, Nat.add_assoc]

/-- A part that was cut out is decoded; the outer input is left alone. -/
theorem within_eq_ok_iff {α : Type} {part s s' : Input} {d : Decoder α} {r : α × Input} :
    within part d s = .ok (r, s') ↔ d part = .ok r ∧ s' = s := by
  unfold Decoder.within
  cases d part with
  | error e =>
    constructor
    · intro h; cases h
    · rintro ⟨h, -⟩; cases h
  | ok r' =>
    constructor
    · intro h; cases h; exact ⟨rfl, rfl⟩
    · rintro ⟨h, rfl⟩; cases h; rfl

/-- **A part that is read to its end.** -/
theorem Reads.fills {α : Type} {n : Nat} {d : Decoder α} {F : Form α} (hd : Reads n d F) {part : Input}
    (hn : part.bytes.length ≤ n) {x : α} :
    (∃ rest, d part = .ok (x, rest) ∧ rest.bytes = []) ↔ F part.bytes x := by
  constructor
  · rintro ⟨rest, h, hrest⟩
    obtain ⟨b, hb, hs, -⟩ := hd.sound h
    rw [hrest, List.append_nil] at hs
    rw [hs]
    exact hb
  · intro h
    have hread := hd.complete h hn [] part.offset
    rw [List.append_nil] at hread
    exact ⟨_, hread, rfl⟩

end WasmCore.Decoder
