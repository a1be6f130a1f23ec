import WasmCore.Proofs.Binary.Confinement

/-!
# `Binary.Progress` — decoding ends, and errors point into the binary

Every parser of the format reads a byte at least. So a count that is larger than the number of bytes is
found out, and no loop can go on for more rounds than there are bytes. Loops are taken here as they are
meant, without a budget: a round of a loop goes on, gives a result or fails. That a loop ends after so
many rounds is a fact about its rounds, and the decoders that count them are the outcome of the loop.

* `Decoder.IsParser`: **the parsers of the format**, and `IsParser.confined`: they stay inside of their span;
* `Decoder.EndsWithin`, `endsWithin_of_shrinks`: loops, and that they end if each round leaves less;
* `endsWithin_items`, `endsWithin_exprFrom`, `Draft.endsWithin_readSections`: the three loops;
* `vector_of_large_count`, `code_of_rest`, `Draft.contents_of_rest`: counts and sizes that are wrong;
* `DecodingEnds`, `decoding_ends`: **progress of all parsers and loops, and where errors are.**
-/

namespace WasmCore

-- Sums of numbers start at the core library's zero.
attribute [local instance (high)] Zero.ofOfNat0

variable {α σ : Type}

namespace Decoder

/-! ## Parsers -/

/-- **The parsers of the binary format**, one for each kind of item. -/
inductive IsParser : {α : Type} → Decoder α → Prop
  | u32 : IsParser u32
  | i32 : IsParser i32
  | i64 : IsParser i64
  | span : IsParser span
  | name : IsParser name
  | valType : IsParser valType
  | blockType : IsParser blockType
  | funcType : IsParser funcType
  | limits : IsParser limits
  | tableType : IsParser tableType
  | mutability : IsParser mutability
  | globalType : IsParser globalType
  | memArg : IsParser memArg
  | expr : IsParser expr
  | exprWithin (budget : Nat) : IsParser (exprWithin budget)
  | importDesc : IsParser importDesc
  | importItem : IsParser importItem
  | exportDesc : IsParser exportDesc
  | exportItem : IsParser exportItem
  | global (size : Nat) : IsParser (global size)
  | elem (size : Nat) : IsParser (elem size)
  | data (size : Nat) : IsParser (data size)
  | localRun : IsParser localRun
  | code : IsParser code
  | vector {α : Type} {d : Decoder α} : IsParser d → IsParser (vector d)
  /-- An item that is given another type. -/
  | map {α β : Type} {d : Decoder α} (f : α → β) : IsParser d → IsParser (f <$> d)

/-- **Every parser stays inside of its span and reads a byte at least.** -/
theorem IsParser.confined {d : Decoder α} (h : IsParser d) (first stop : Nat) :
    Confined first stop 1 d := by
  induction h with
  | u32 => exact confined_u32
  | i32 => exact confined_i32
  | i64 => exact confined_i64
  | span => exact confined_span
  | name => exact confined_name
  | valType => exact confined_valType
  | blockType => exact confined_blockType
  | funcType => exact confined_funcType
  | limits => exact confined_limits
  | tableType => exact confined_tableType
  | mutability => exact confined_mutability
  | globalType => exact confined_globalType
  | memArg => exact confined_memArg
  | expr => exact confined_expr
  | exprWithin budget => exact confined_exprWithin budget
  | importDesc => exact confined_importDesc
  | importItem => exact confined_importItem
  | exportDesc => exact confined_exportDesc
  | exportItem => exact confined_exportItem
  | global size => exact confined_global size
  | elem size => exact confined_elem size
  | data size => exact confined_data size
  | localRun => exact confined_localRun
  | code => exact confined_code
  | vector _ ih => exact confined_vector ih
  | map f _ ih => exact ih.map f

theorem Confined.leaves {d : Decoder α} {k : Nat} (hd : ∀ first stop, Confined first stop k d)
    {s s' : Input} {x : α} (h : d s = .ok (x, s')) : s.Leaves k s' :=
  (hd _ _).ok s.within_self h

/-! ## Loops -/

/-- **A loop ends within a number of rounds.** A round fails, stops the loop with a result, or goes on
    with another state. -/
inductive EndsWithin (round : σ → Decoder (σ ⊕ α)) :
    Nat → σ → Input → Except DecodeError (α × Input) → Prop
  | fails {k : Nat} {a : σ} {s : Input} {e : DecodeError} :
      round a s = .error e → EndsWithin round (k + 1) a s (.error e)
  | stops {k : Nat} {a : σ} {s s' : Input} {x : α} :
      round a s = .ok (.inr x, s') → EndsWithin round (k + 1) a s (.ok (x, s'))
  | goesOn {k : Nat} {a a' : σ} {s s' : Input} {r : Except DecodeError (α × Input)} :
      round a s = .ok (.inl a', s') → EndsWithin round k a' s' r → EndsWithin round (k + 1) a s r

variable {round : σ → Decoder (σ ⊕ α)}

theorem EndsWithin.mono {k n : Nat} {a : σ} {s : Input} {r : Except DecodeError (α × Input)}
    (h : EndsWithin round k a s r) (hn : k ≤ n) : EndsWithin round n a s r := by
  induction h generalizing n with
  | fails he =>
    obtain ⟨n, rfl⟩ := Nat.exists_eq_add_of_lt hn
    exact .fails he
  | stops hx =>
    obtain ⟨n, rfl⟩ := Nat.exists_eq_add_of_lt hn
    exact .stops hx
  | goesOn ha _ ih =>
    cases n with
    | zero => exact absurd hn (Nat.not_succ_le_zero _)
    | succ n => exact .goesOn ha (ih (Nat.le_of_succ_le_succ hn))

/-- **A loop ends if each round that goes on leaves less**: a decoder that makes rounds up to a budget is
    the outcome of the loop, if the budget covers the bytes. -/
theorem endsWithin_of_shrinks (loop : Nat → σ → Decoder α)
    (hshrinks : ∀ {a a' s s'}, round a s = .ok (.inl a', s') → s'.bytes.length < s.bytes.length)
    (hzero : ∀ a offset, EndsWithin round 1 a ⟨[], offset⟩ (loop 0 a ⟨[], offset⟩))
    (hsucc : ∀ budget a, loop (budget + 1) a = round a >>= continued (loop budget))
    {budget : Nat} {a : σ} {s : Input} (hbudget : s.bytes.length ≤ budget) :
    EndsWithin round (s.bytes.length + 1) a s (loop budget a s) := by
  induction budget generalizing a s with
  | zero =>
    obtain ⟨bytes, offset⟩ := s
    obtain rfl := List.length_eq_zero_iff.mp (Nat.le_zero.mp hbudget)
    exact hzero a offset
  | succ budget ih =>
    rw [hsucc]
    cases hround : round a s with
    | error e =>
      rw [bind_of_error hround]
      exact .fails hround
    | ok p =>
      obtain ⟨a' | x, s'⟩ := p
      · have hless := hshrinks hround
        rw [bind_of_ok hround]
        exact .goesOn hround ((ih (by omega)).mono hless)
      · rw [bind_of_ok hround]
        exact .stops hround

/-- One item of a given number. -/
def itemRound (item : Decoder α) : Nat × List α → Decoder ((Nat × List α) ⊕ List α)
  | (0, earlier) => return .inr earlier.reverse
  | (count + 1, earlier) => do
    let a ← item
    return .inl (count, a :: earlier)

theorem timesAfter_eq_round (item : Decoder α) (p : Nat × List α) :
    timesAfter item p.1 p.2 = itemRound item p >>= continued fun p => timesAfter item p.1 p.2 := by
  obtain ⟨_ | count, earlier⟩ := p
  · rfl
  · rw [itemRound, bind_assoc]; rfl

/-- **Items that take a byte each.** -/
theorem endsWithin_items {item : Decoder α} (hitem : ∀ first stop, Confined first stop 1 item)
    (count : Nat) (earlier : List α) (s : Input) :
    EndsWithin (itemRound item) (s.bytes.length + 1) (count, earlier) s
      (timesAfter item count earlier s) := by
  refine endsWithin_of_shrinks (fun _ p => timesAfter item p.1 p.2) (a := (count, earlier)) ?_ ?_
    (fun _ => timesAfter_eq_round item) (Nat.le_refl _)
  · rintro ⟨_ | count, earlier⟩ a' s s' h
    · cases h
    · obtain ⟨x, s₁, hx, hy⟩ := bind_eq_ok_iff.mp h
      cases hy
      exact (Confined.leaves hitem hx).length_le
  · rintro ⟨_ | count, earlier⟩ offset
    · exact .stops rfl
    · -- no item can be read from nothing
      cases hx : item ⟨[], offset⟩ with
      | error e =>
        have hround : itemRound item (count + 1, earlier) ⟨[], offset⟩ = .error e := bind_of_error hx
        have hloop : timesAfter item (count + 1) earlier ⟨[], offset⟩ = .error e := bind_of_error hx
        rw [hloop]
        exact .fails hround
      | ok p => exact absurd (Confined.leaves hitem hx).length_le (by simp)

/-- **Instructions**, of which each takes a byte at least. -/
theorem endsWithin_exprFrom {budget : Nat} (opened : List OpenBlock) (before : List Instr) {s : Input}
    (hbudget : s.bytes.length ≤ budget) :
    EndsWithin exprRound (s.bytes.length + 1) (opened, before) s (exprFrom budget opened before s) :=
  endsWithin_of_shrinks (fun budget p => exprFrom budget p.1 p.2)
    (fun h => (Confined.leaves (fun _ _ => confined_exprRound _) h).length_le) (fun _ _ => .fails rfl)
    (fun budget p => exprFrom_succ budget p.1 p.2) hbudget

end Decoder

/-- **Sections**, of which each takes a byte at least. -/
theorem Draft.endsWithin_readSections {budget : Nat} (draft : Draft) {s : Input}
    (hbudget : s.bytes.length ≤ budget) :
    Decoder.EndsWithin sectionRound (s.bytes.length + 1) draft s (readSections budget draft s) := by
  refine Decoder.endsWithin_of_shrinks readSections ?_ (fun _ _ => .stops rfl) readSections_eq_round hbudget
  intro draft draft' s s' h
  have hround : draft.sectionRound s = (if s.bytes.isEmpty then pure (.inr draft)
    else draft.readSection >>= fun draft' => pure (.inl draft') : Decoder (Draft ⊕ Draft)) s := rfl
  rw [hround] at h
  split at h
  · cases h
  · obtain ⟨_, _, hsection, hpure⟩ := Decoder.bind_eq_ok_iff.mp h
    cases hpure
    exact (Decoder.Confined.leaves (fun _ _ => confined_readSection draft) hsection).length_le

/-! ## Sizes and counts -/

namespace Decoder

/-- **More items than bytes are never there.** -/
theorem vector_of_large_count {d : Decoder α} (hd : ∀ first stop, Confined first stop 1 d) {s s' : Input}
    {count : UInt32} (hcount : u32 s = .ok (count, s')) (hless : s'.bytes.length < count.toNat) :
    ∃ e, vector d s = .error e := by
  have hread : vector d s = times count.toNat d s' := bind_of_ok hcount
  cases hx : times count.toNat d s' with
  | error e => exact ⟨e, hread.trans hx⟩
  | ok p =>
    have hle := (Confined.leaves (fun _ _ => confined_times (hd _ _) _) hx).length_le
    omega

/-- A function whose body ends before its entry does. -/
theorem code_of_rest {s s' entry after rest : Input} {locals : List LocalRun} {body : Expr}
    (hspan : span s = .ok (entry, s')) (hlocals : vector localRun entry = .ok (locals, after))
    (hfew : (locals.map (·.count.toNat)).sum ≤ maxLocals) (hbody : expr after = .ok (body, rest))
    (hrest : rest.bytes ≠ []) :
    ∃ used, used + rest.bytes.length = entry.bytes.length ∧
      code s = .error ⟨.codeSizeMismatch entry.bytes.length used, rest.offset⟩ := by
  have hle := (Confined.leaves (fun _ _ => confined_vector confined_localRun) hlocals).length_le
  have hle' := (Confined.leaves (fun _ _ => confined_expr) hbody).length_le
  refine ⟨entry.bytes.length - rest.bytes.length, by omega, ?_⟩
  have hwithin : within entry (vector localRun) s' = .ok ((locals, after), s') :=
    within_eq_ok_iff.mpr ⟨hlocals, rfl⟩
  have hwithin' : within after expr s' = .ok ((body, rest), s') := within_eq_ok_iff.mpr ⟨hbody, rfl⟩
  rw [code, bind_of_ok hspan]
  dsimp only
  rw [bind_of_ok hwithin]
  dsimp only
  rw [if_neg (Nat.not_lt.mpr hfew), bind_of_ok hwithin']
  dsimp only
  rw [if_neg (by simpa using hrest)]
  rfl

end Decoder

/-- A section whose contents end before it does. -/
theorem Draft.contents_of_rest {d : Decoder α} {k : Nat} (hd : ∀ first stop, d.Confined first stop k)
    (id : UInt8) {part rest : Input} {x : α} (s : Input) (h : d part = .ok (x, rest))
    (hrest : rest.bytes ≠ []) :
    ∃ used, used + rest.bytes.length = part.bytes.length ∧
      contents id part d s = .error ⟨.sectionSizeMismatch id part.bytes.length used, rest.offset⟩ := by
  have hle := (Decoder.Confined.leaves hd h).length_le
  refine ⟨part.bytes.length - rest.bytes.length, by omega, ?_⟩
  have hwithin : Decoder.within part d s = .ok ((x, rest), s) :=
    Decoder.within_eq_ok_iff.mpr ⟨h, rfl⟩
  rw [contents, Decoder.bind_of_ok hwithin]
  dsimp only
  rw [if_neg (by simpa using hrest)]
  rfl

/-- **Errors of decoding point into the binary.** -/
theorem pointsInto_of_decode {b : List UInt8} {e : DecodeError} (h : decode b = .error e) :
    e.PointsInto 0 b.length := by
  have hwithin : Input.Within ⟨b, 0⟩ 0 b.length := ⟨Nat.le_refl 0, Nat.le_of_eq (Nat.zero_add _)⟩
  unfold decode at h
  cases hm : Decoder.module ⟨b, 0⟩ with
  | error e' =>
    rw [hm] at h
    cases h
    exact Decoder.confined_module.error hwithin hm
  | ok p =>
    rw [hm] at h
    cases h

/-! ## All of decoding -/

open Decoder

/-- **Decoding ends, and errors point into the binary.** -/
structure DecodingEnds : Prop where
  /-- What a parser leaves is a strict suffix of its span, -/
  suffix : ∀ {α : Type} {d : Decoder α}, IsParser d → ∀ {s s' : Input} {x : α}, d s = .ok (x, s') →
    s'.bytes <:+ s.bytes ∧ s'.bytes ≠ s.bytes ∧ s'.stop = s.stop
  /-- and if it fails, then it does so inside of its span. -/
  errors : ∀ {α : Type} {d : Decoder α}, IsParser d → ∀ {s : Input} {e : DecodeError}, d s = .error e →
    e.PointsInto s.offset s.stop
  /-- So a vector fails whose count exceeds the number of bytes that are left, -/
  counts : ∀ {α : Type} {d : Decoder α}, IsParser d → ∀ {s s' : Input} {count : UInt32},
    u32 s = .ok (count, s') → s'.bytes.length < count.toNat → ∃ e, vector d s = .error e
  /-- and all loops end, after at most one round more than there are bytes: that over the items of a
      vector, -/
  items : ∀ {α : Type} {d : Decoder α}, IsParser d → ∀ (count : Nat) (s : Input),
    EndsWithin (itemRound d) (s.bytes.length + 1) (count, []) s (times count d s)
  /-- that over the instructions of an expression, of which a budget that covers the bytes cuts off none, -/
  instructions : ∀ {budget : Nat} {s : Input}, s.bytes.length ≤ budget →
    EndsWithin exprRound (s.bytes.length + 1) ([], []) s (exprWithin budget s)
  /-- and that over the sections of a module. -/
  sections : ∀ (draft : Draft) {budget : Nat} {s : Input}, s.bytes.length ≤ budget →
    EndsWithin Draft.sectionRound (s.bytes.length + 1) draft s (Draft.readSections budget draft s)
  /-- The size that a section is found to have is the declared one less the rest, which is not larger, -/
  sectionSizes : ∀ {α : Type} {d : Decoder α}, IsParser d → ∀ (id : UInt8) {part rest : Input} {x : α}
    (s : Input), d part = .ok (x, rest) → rest.bytes ≠ [] →
    ∃ used, used + rest.bytes.length = part.bytes.length ∧
      Draft.contents id part d s = .error ⟨.sectionSizeMismatch id part.bytes.length used, rest.offset⟩
  /-- and likewise that of a function. -/
  codeSizes : ∀ {s s' entry after rest : Input} {locals : List LocalRun} {body : Expr},
    span s = .ok (entry, s') → vector localRun entry = .ok (locals, after) →
    (locals.map (·.count.toNat)).sum ≤ maxLocals → expr after = .ok (body, rest) → rest.bytes ≠ [] →
    ∃ used, used + rest.bytes.length = entry.bytes.length ∧
      code s = .error ⟨.codeSizeMismatch entry.bytes.length used, rest.offset⟩
  /-- **No error of decoding points past the binary**, and there is a word for each. -/
  decoding : ∀ {b : List UInt8} {e : DecodeError}, decode b = .error e →
    e.offset ≤ b.length ∧ ∀ reason, e.fault ≠ .unreadable reason

/-- Every parser makes progress, so that all of them and all loops end. -/
theorem decoding_ends : DecodingEnds where
  suffix := by
    intro α d hd s s' x h
    have hleaves := Confined.leaves hd.confined h
    have hless := hleaves.length_le
    refine ⟨?_, fun heq => ?_, hleaves.stop_eq⟩
    · obtain ⟨used, -, hs, -⟩ := hleaves
      exact ⟨used, hs.symm⟩
    · rw [heq] at hless
      omega
  errors hd _ _ h := (hd.confined _ _).error (Input.within_self _) h
  counts hd _ _ _ hcount hless := vector_of_large_count hd.confined hcount hless
  items hd count s := endsWithin_items hd.confined count [] s
  instructions hbudget := endsWithin_exprFrom [] [] hbudget
  sections draft _ _ hbudget := draft.endsWithin_readSections hbudget
  sectionSizes hd id _ _ _ s h hrest := Draft.contents_of_rest hd.confined id s h hrest
  codeSizes := code_of_rest
  decoding h := ⟨(pointsInto_of_decode h).le_stop, (pointsInto_of_decode h).worded⟩

end WasmCore
