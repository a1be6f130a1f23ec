import WasmCore.Proofs.Binary.Shortest
import WasmCore.Proofs.Numeric.Words

/-!
# `Binary.Outcomes` — what reading an integer comes to

The grammar says which bytes are integers; here is what the decoder makes of any bytes at all. Where the
integer would end is decided first, by the high bits alone, then whether it is too long, and only then
whether it is too large. Both are reported where the integer begins.

* `Leb.FirstEnded`: **the bytes in front that may be an integer**, of which there are none if all bytes say
  that another one follows (`endless_or_firstEnded`);
* `Leb.outcome`, `unsigned_of_chained`, `signed_of_chained`: what becomes of them, without and with a sign;
* `ReadsExactly`: **what reading an integer of a type comes to**;
* `integers_read_exactly`: it does, for the three types of the format.
-/

namespace WasmCore

-- Powers of numbers are those of the core library.
attribute [local instance (high)] instPowNat

/-! ## Where an integer ends -/

namespace Leb

variable {p b : List UInt8}

/-- The high bit of the last byte is clear. -/
def Ended (p : List UInt8) : Prop := ∃ lead last, p = lead ++ [last] ∧ last < 128

/-- **The bytes in front that may be an integer**: the shortest beginning whose last byte has its high bit
    clear. -/
structure FirstEnded (p b : List UInt8) : Prop where
  front : p <+: b
  ended : Ended p
  shortest : ∀ q, q <+: b → Ended q → p.length ≤ q.length

/-- Bytes end for the first time where the high bits of all bytes before are set. -/
theorem firstEnded_iff : FirstEnded p b ↔ Chained p ∧ p <+: b := by
  constructor
  · rintro ⟨hfront, ⟨lead, last, rfl, hlast⟩, hshortest⟩
    refine ⟨⟨lead, last, rfl, fun x hx => ?_, hlast⟩, hfront⟩
    -- Otherwise the bytes up to that one would be fewer.
    by_contra hlow
    obtain ⟨before, after, rfl⟩ := List.append_of_mem hx
    have hpart : before ++ [x] <+: before ++ x :: after ++ [last] := ⟨after ++ [last], by simp⟩
    have hle := hshortest _ (hpart.trans hfront) ⟨before, x, rfl, UInt8.not_le.mp hlow⟩
    simp only [List.length_append, List.length_cons, List.length_nil] at hle
    omega
  · rintro ⟨⟨lead, last, rfl, hlead, hlast⟩, hfront⟩
    refine ⟨hfront, ⟨lead, last, rfl, hlast⟩, ?_⟩
    rintro q hq ⟨lead', last', rfl, hlast'⟩
    by_contra hshort
    have hpart : lead' ++ [last'] <+: lead ++ [last] :=
      List.prefix_of_prefix_length_le hq hfront (by omega)
    have hbefore : lead' ++ [last'] <+: lead := by
      refine (List.prefix_concat_iff.mp hpart).resolve_left fun heq => ?_
      rw [heq] at hshort
      exact hshort (Nat.le_refl _)
    have hhigh := hlead last' (hbefore.subset (by simp))
    exact UInt8.not_lt.mpr hhigh hlast'

/-- Bytes end somewhere, or the high bits of all of them are set. -/
theorem endless_or_firstEnded (b : List UInt8) : (∀ x ∈ b, 128 ≤ x) ∨ ∃ p, FirstEnded p b := by
  induction b with
  | nil => exact .inl (by simp)
  | cons x rest ih =>
    by_cases hx : 128 ≤ x
    · obtain hall | ⟨p, hp⟩ := ih
      · exact .inl (List.forall_mem_cons.mpr ⟨hx, hall⟩)
      · obtain ⟨hchained, hfront⟩ := firstEnded_iff.mp hp
        exact .inr ⟨x :: p, firstEnded_iff.mpr ⟨chained_cons hx hchained, by simpa using hfront⟩⟩
    · exact .inr ⟨[x], firstEnded_iff.mpr ⟨chained_singleton (UInt8.not_le.mp hx), by simp⟩⟩

/-- What becomes of the bytes of an integer of `n` bits, before others: their length is checked first and
    then whether they are too large, and both are reported where they begin. -/
def outcome {α : Type} (n : Nat) (p : List UInt8) (large : Prop) [Decidable large] (x : α)
    (rest : List UInt8) (offset : Nat) : Except DecodeError (α × Input) :=
  if maxBytes n < p.length then .error ⟨.integerTooLong, offset⟩
  else if large then .error ⟨.integerTooLarge, offset⟩
  else .ok (x, ⟨rest, offset + p.length⟩)

/-- It only matters for bytes that are not too long whether they are too large. -/
theorem outcome_congr {α : Type} {n : Nat} {p rest : List UInt8} {large large' : Prop} [Decidable large]
    [Decidable large'] {x x' : α} {offset : Nat} (hlarge : p.length ≤ maxBytes n → (large ↔ large'))
    (hx : x = x') : outcome n p large x rest offset = outcome n p large' x' rest offset := by
  unfold outcome
  split
  · rfl
  · rename_i hlength
    simp only [hlarge (Nat.le_of_not_lt hlength), hx]

end Leb

/-! ## Integers with and without a sign -/

namespace Decoder

open Leb

variable {n : Nat}

/-- The value may be converted. -/
theorem map_of_outcome {α β : Type} {d : Decoder α} {s : Input} {p : List UInt8} {large : Prop}
    [Decidable large] {x : α} {rest : List UInt8} {offset : Nat} (f : α → β)
    (h : d s = outcome n p large x rest offset) : (f <$> d) s = outcome n p large (f x) rest offset := by
  rw [map_eq_pure_bind]
  unfold outcome at h ⊢
  by_cases hlong : maxBytes n < p.length
  · rw [if_pos hlong] at h ⊢
    exact bind_of_error h
  · rw [if_neg hlong] at h ⊢
    by_cases hlarge : large
    · rw [if_pos hlarge] at h ⊢
      exact bind_of_error h
    · rw [if_neg hlarge] at h ⊢
      exact bind_of_ok h

/-- An integer whose last byte is missing, whatever would be made of its bytes. -/
theorem integer_of_endless {α : Type} (f : Nat → List UInt8 × UInt8 → Decoder α) {b : List UInt8}
    (hb : ∀ x ∈ b, 128 ≤ x) (offset : Nat) :
    (position >>= fun start => groups n >>= f start) ⟨b, offset⟩ =
      .error ⟨.unexpectedEnd, offset + b.length⟩ := by
  rw [bind_of_ok (d := position) rfl]
  exact bind_of_error (groups_of_endless n hb)

/-- **An integer that ends**, of which the last group is checked. -/
theorem integer_of_ended (large : List UInt8 → UInt8 → Prop) [∀ lead last, Decidable (large lead last)]
    (result : List UInt8 → UInt8 → BitVec n) {lead : List UInt8} {last : UInt8}
    (hlead : ∀ b ∈ lead, 128 ≤ b) (hlast : last < 128) (rest : List UInt8) (offset : Nat) :
    (position >>= fun start => groups n >>= fun p =>
      if large p.1 p.2 then failAt start .integerTooLarge else pure (result p.1 p.2))
        ⟨lead ++ [last] ++ rest, offset⟩ =
      outcome n (lead ++ [last]) (large lead last) (result lead last) rest offset := by
  have hgroups := groups_of_ended n hlead hlast rest offset
  rw [outcome, List.length_append, List.length_singleton, ← Nat.add_assoc]
  rw [bind_of_ok (d := position) rfl]
  by_cases hlong : maxBytes n < lead.length + 1
  · rw [if_pos hlong] at hgroups ⊢
    exact bind_of_error hgroups
  · rw [if_neg hlong] at hgroups ⊢
    rw [bind_of_ok hgroups]
    by_cases hlarge : large lead last
    · rw [if_pos hlarge, if_pos hlarge]; rfl
    · rw [if_neg hlarge, if_neg hlarge]; rfl

theorem unsigned_of_chained {p : List UInt8} (hp : Chained p) (rest : List UInt8) (offset : Nat) :
    Leb.unsigned n ⟨p ++ rest, offset⟩ =
      outcome n p (2 ^ n ≤ value p) (BitVec.ofNat n (value p)) rest offset := by
  obtain ⟨lead, last, rfl, hlead, hlast⟩ := hp
  have h := integer_of_ended (n := n)
    (fun lead last => lead.length + 1 = maxBytes n ∧ payload last >>> (n - 7 * lead.length) ≠ 0)
    (fun lead last => join 0 0 lead ||| BitVec.ofNat n (payload last) <<< (7 * lead.length))
    hlead hlast rest offset
  refine Eq.trans h ?_
  refine outcome_congr (fun hlength => ?_) (joined_eq lead last)
  rw [List.length_append, List.length_singleton] at hlength
  exact too_large_iff hlength

theorem signed_of_chained {p : List UInt8} (hp : Chained p) (rest : List UInt8) (offset : Nat) :
    Leb.signed n ⟨p ++ rest, offset⟩ =
      outcome n p (¬ (-2 ^ (n - 1) ≤ signedValue p ∧ signedValue p < 2 ^ (n - 1)))
        (BitVec.ofInt n (signedValue p)) rest offset := by
  obtain ⟨lead, last, rfl, hlead, hlast⟩ := hp
  have h := integer_of_ended (n := n)
    (fun lead last => lead.length + 1 = maxBytes n ∧ payload last >>> (n - 7 * lead.length - 1) ≠ 0 ∧
      payload last >>> (n - 7 * lead.length - 1) ≠ 127 >>> (n - 7 * lead.length - 1))
    (fun lead last => BitVec.ofInt n (signedValue (lead ++ [last])))
    hlead hlast rest offset
  simp only [← signed_result] at h
  refine Eq.trans h ?_
  refine outcome_congr (fun hlength => ?_) rfl
  rw [List.length_append, List.length_singleton] at hlength
  exact out_of_range_iff hlength

end Decoder

/-! ## Integers of a type -/

open Width (Word)

variable {w : Width} {s : Signedness} {d : Decoder w.Word}

/-- The integer that groups of seven bits denote, least significant group first, without or with a
    sign. -/
def Signedness.number : Signedness → List UInt8 → Int
  | unsigned, p => Leb.value p
  | signed, p => Leb.signedValue p

/-- **What reading an integer of a type comes to**, for any bytes. -/
structure ReadsExactly (w : Width) (s : Signedness) (d : Decoder w.Word) : Prop where
  /-- If the high bits of all bytes are set, then the input has ended too early. -/
  endless : ∀ (b : List UInt8) (offset : Nat), (∀ x ∈ b, 128 ≤ x) →
    d ⟨b, offset⟩ = .error ⟨.unexpectedEnd, offset + b.length⟩
  /-- Otherwise there is a shortest beginning that ends, -/
  covered : ∀ b : List UInt8, (∀ x ∈ b, 128 ≤ x) ∨ ∃ p, Leb.FirstEnded p b
  /-- which is refused where it begins if it is longer than `⌈n / 7⌉` bytes, -/
  tooLong : ∀ {p b : List UInt8} (offset : Nat), Leb.FirstEnded p b → Leb.maxBytes w.bits < p.length →
    d ⟨b, offset⟩ = .error ⟨.integerTooLong, offset⟩
  /-- or else if the integer that it denotes is out of range, -/
  tooLarge : ∀ {p b : List UInt8} (offset : Nat), Leb.FirstEnded p b → p.length ≤ Leb.maxBytes w.bits →
    ¬ (s.least w ≤ s.number p ∧ s.number p < s.bound w) →
    d ⟨b, offset⟩ = .error ⟨.integerTooLarge, offset⟩
  /-- and is read as that integer if it is in range. -/
  exact : ∀ {p b : List UInt8} (offset : Nat), Leb.FirstEnded p b → p.length ≤ Leb.maxBytes w.bits →
    s.least w ≤ s.number p → s.number p < s.bound w →
    ∃ x rest, b = p ++ rest ∧ d ⟨b, offset⟩ = .ok (x, ⟨rest, offset + p.length⟩) ∧
      s.read x = s.number p
  /-- So all ways to write an integer in that many bytes are read as it, whatever follows, -/
  accepted : ∀ {x : w.Word} {p : List UInt8} (rest : List UInt8) (offset : Nat), Leb.Written w.bits p →
    s.number p = s.read x → d ⟨p ++ rest, offset⟩ = .ok (x, ⟨rest, offset + p.length⟩)
  /-- and each integer of the type can be written. -/
  written : ∀ x : w.Word, ∃ p, Leb.Written w.bits p ∧ s.number p = s.read x

/-- What becomes of integers that end, and of bytes that do not, settles what becomes of any bytes. -/
theorem ReadsExactly.of_outcome
    (hendless : ∀ (b : List UInt8) (offset : Nat), (∀ x ∈ b, 128 ≤ x) →
      d ⟨b, offset⟩ = .error ⟨.unexpectedEnd, offset + b.length⟩)
    (houtcome : ∀ {p : List UInt8}, Leb.Chained p → ∀ (rest : List UInt8) (offset : Nat),
      d ⟨p ++ rest, offset⟩ = Leb.outcome w.bits p (¬ (s.least w ≤ s.number p ∧ s.number p < s.bound w))
        (.ofInt (s.number p)) rest offset)
    (hwritten : ∀ x : w.Word, ∃ p, Leb.Written w.bits p ∧ s.number p = s.read x) :
    ReadsExactly w s d where
  endless := hendless
  covered := Leb.endless_or_firstEnded
  tooLong := by
    intro p b offset hp hlong
    obtain ⟨hchain, rest, rfl⟩ := Leb.firstEnded_iff.mp hp
    rw [houtcome hchain, Leb.outcome, if_pos hlong]
  tooLarge := by
    intro p b offset hp hshort hrange
    obtain ⟨hchain, rest, rfl⟩ := Leb.firstEnded_iff.mp hp
    rw [houtcome hchain, Leb.outcome, if_neg (Nat.not_lt.mpr hshort), if_pos hrange]
  exact := by
    intro p b offset hp hshort hlow hhigh
    obtain ⟨hchain, rest, rfl⟩ := Leb.firstEnded_iff.mp hp
    refine ⟨_, rest, rfl, ?_, Signedness.read_ofInt hlow hhigh⟩
    rw [houtcome hchain, Leb.outcome, if_neg (Nat.not_lt.mpr hshort), if_neg (not_not.mpr ⟨hlow, hhigh⟩)]
  accepted := by
    rintro x p rest offset ⟨hshort, hchain⟩ hx
    have hshort : ¬ Leb.maxBytes w.bits < p.length := Nat.not_lt.mpr hshort
    have hlow := s.least_le_read x
    have hhigh := s.read_lt_bound x
    have hvalue : Word.ofInt (s.read x) = x := s.read_inj.mp (Signedness.read_ofInt hlow hhigh)
    rw [houtcome hchain, hx, Leb.outcome, if_neg hshort, if_neg (not_not.mpr ⟨hlow, hhigh⟩), hvalue]
  written := hwritten

/-- The bits of an integer make up its word. -/
theorem ofBitVec_ofInt (i : Int) : Word.ofBitVec (BitVec.ofInt w.bits i) = .ofInt i := by
  rw [← Word.toBitVec_inj, Word.toBitVec_ofBitVec, Word.toBitVec_ofInt]

/-- Integers without a sign. -/
theorem readsExactly_unsigned (w : Width) :
    ReadsExactly w .unsigned (Word.ofBitVec <$> Leb.unsigned w.bits) := by
  refine .of_outcome ?_ ?_ ?_
  · intro b offset hb
    rw [map_eq_pure_bind]
    exact Decoder.bind_of_error (Decoder.integer_of_endless _ hb offset)
  · intro p hp rest offset
    refine (Decoder.map_of_outcome Word.ofBitVec (Decoder.unsigned_of_chained hp rest offset)).trans ?_
    refine Leb.outcome_congr (fun _ => ?_) ?_
    · have hcast : ((2 ^ w.bits : Nat) : Int) = 2 ^ w.bits := Int.natCast_pow 2 w.bits
      rw [Signedness.bound_unsigned, ← hcast, Signedness.least, Signedness.number]
      omega
    · rw [← BitVec.ofInt_natCast, ofBitVec_ofInt]
      rfl
  · intro x
    obtain ⟨hwritten, hvalue⟩ := Form.unsigned_shortest w.bits_pos x.toBitVec
    exact ⟨_, hwritten, congrArg Int.ofNat (hvalue.trans x.toNat_toBitVec)⟩

/-- Integers with a sign. -/
theorem readsExactly_signed (w : Width) :
    ReadsExactly w .signed (Word.ofBitVec <$> Leb.signed w.bits) := by
  refine .of_outcome ?_ ?_ ?_
  · intro b offset hb
    rw [map_eq_pure_bind]
    exact Decoder.bind_of_error (Decoder.integer_of_endless _ hb offset)
  · intro p hp rest offset
    refine (Decoder.map_of_outcome Word.ofBitVec (Decoder.signed_of_chained hp rest offset)).trans ?_
    refine Leb.outcome_congr (fun _ => ?_) (ofBitVec_ofInt _)
    rw [Signedness.least_signed, Signedness.bound_signed]
    rfl
  · intro x
    obtain ⟨hwritten, hvalue⟩ := Form.signed_shortest w.bits_pos x.toBitVec
    exact ⟨_, hwritten, hvalue.trans x.toInt_toBitVec⟩

/-- **Integers are read exactly**, those of all three types. -/
theorem integers_read_exactly :
    ReadsExactly .w32 .unsigned Decoder.u32 ∧ ReadsExactly .w32 .signed Decoder.i32 ∧
      ReadsExactly .w64 .signed Decoder.i64 :=
  ⟨readsExactly_unsigned .w32, readsExactly_signed .w32, readsExactly_signed .w64⟩

-- The longest forms of the two widths.
example : Leb.maxBytes Width.w32.bits = 5 ∧ Leb.maxBytes Width.w64.bits = 10 := by decide

end WasmCore
