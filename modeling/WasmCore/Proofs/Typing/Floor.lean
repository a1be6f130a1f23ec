import WasmCore.Proofs.Typing.Descent

/-!
# `Typing.Floor` — blocks rest on the operands below them

A block remembers how many operands there were when it was opened. These are its floor: nothing that is
checked inside of the block may take one of them away or put another in its place. The checker asks for an
operand only whether the operands are *exactly* as many as the floor. Were they ever fewer, it would go on
below. That they never are is an invariant of every move inside of a block.

That the floor is not only put back but never taken up in the first place shows in a state that has none:
there an operand that is taken from below the floor is missing. Inside of a block the checker comes to the
same with the operands of the floor taken away, errors and all.

* `CheckState.floor`, `CheckState.Steady`: the floor of the innermost block, and **the invariant**;
* `CheckState.SameBelow`: the open blocks and the floor as before;
* `CheckState.above`: a state without the lowest operands;
* `IsLocal.sameBelow`, `IsLocal.aboutBlocks`, `IsLocal.above`: **moves inside of a block**;
* `instr_opens`, `aboutBlocks_of_instr`, `instr_above`: **instructions**, and blocks that are opened;
* `operands_of_popFrame`, `steady_of_popFrame`, `orderly_of_popFrame`, `endBody_above`: **blocks that are
  closed**, and ends of bodies.
-/

namespace WasmCore

/-! ## The lowest entries of a stack and those above them -/

namespace Stack

variable {α : Type} {k n : Nat} {s : Stack α}

/-- The entries above the lowest ones, of which there are as many as given. -/
def above (height : Nat) (s : Stack α) : Stack α := ofList (s.toList.take (s.height - height))

@[simp] theorem height_above (k : Nat) (s : Stack α) : (s.above k).height = s.height - k := by
  rw [above, height_ofList, List.length_take, length_toList]
  omega

theorem above_pushAll (xs : List α) (h : k ≤ s.height) :
    (s.pushAll xs).above k = (s.above k).pushAll xs := by
  have hcount : s.height + xs.length - k = xs.length + (s.height - k) := by omega
  apply ext
  show (xs ++ s.toList).take (s.height + xs.length - k) = xs ++ s.toList.take (s.height - k)
  rw [hcount, List.take_length_add_append]

theorem above_push (a : α) (h : k ≤ s.height) : (s.push a).above k = (s.above k).push a :=
  above_pushAll [a] h

theorem above_lower (hk : k ≤ n) (hn : n ≤ s.height) :
    (s.lower n).above k = (s.above k).lower (n - k) := by
  have hdropped : s.height - k - (n - k) = s.height - n := by omega
  have htaken : s.height - (s.height - n) - k = s.height - k - (s.height - n) := by omega
  apply ext
  show (s.toList.drop (s.height - n)).take (s.height - (s.height - n) - k) =
    (s.toList.take (s.height - k)).drop ((s.above k).height - (n - k))
  rw [height_above, hdropped, htaken, List.drop_take]

theorem lower_pushAll_of_le (xs : List α) (h : k ≤ s.height) : (s.pushAll xs).lower k = s.lower k := by
  have hcount : s.height + xs.length - k = xs.length + (s.height - k) := by omega
  apply ext
  show (xs ++ s.toList).drop (s.height + xs.length - k) = s.toList.drop (s.height - k)
  rw [hcount, List.drop_length_add_append]

theorem lower_push_of_le (a : α) (h : k ≤ s.height) : (s.push a).lower k = s.lower k :=
  lower_pushAll_of_le [a] h

theorem lower_lower (hk : k ≤ n) : (s.lower n).lower k = s.lower k := by
  have hcount : s.height - n + (s.height - (s.height - n) - k) = s.height - k := by omega
  apply ext
  show (s.toList.drop (s.height - n)).drop (s.height - (s.height - n) - k) =
    s.toList.drop (s.height - k)
  rw [List.drop_drop, hcount]

theorem lower_of_le (h : s.height ≤ k) : s.lower k = s := by
  apply ext
  show s.toList.drop (s.height - k) = s.toList
  rw [Nat.sub_eq_zero_of_le h, List.drop_zero]

end Stack

/-! ## States -/

namespace CheckState

variable {s s' : CheckState} {k : Nat}

/-- How many operands there were when each of the open blocks was opened, the innermost first. -/
def heights (s : CheckState) : List Nat := s.frames.map CtrlFrame.height

/-- **The floor of the innermost block**: how many operands there were when it was opened. -/
def floor (s : CheckState) : Nat := s.heights.head?.getD 0

theorem floor_of_frames {frame : CtrlFrame} {outer : List CtrlFrame} (h : s.frames = frame :: outer) :
    s.floor = frame.height := by
  rw [floor, heights, h]
  rfl

theorem heights_eq (s : CheckState) : s.heights = s.blocks.map fun block => block.2.2 := by
  rw [heights, blocks, List.map_map]
  rfl

theorem heights_of_blocks (h : s'.blocks = s.blocks) : s'.heights = s.heights := by
  rw [heights_eq, heights_eq, h]

theorem length_heights (s : CheckState) : s.heights.length = s.frames.length := List.length_map _

/-- **The invariant of the checker's state.** Some block is open; blocks further in were opened with no
    fewer operands; and no operand of the innermost floor is missing. -/
structure Steady (s : CheckState) : Prop where
  nonempty : s.frames ≠ []
  heights : s.heights.Pairwise (· ≥ ·)
  floor_le : s.floor ≤ s.operands.height

/-- The innermost floor is the highest one. -/
theorem Steady.le_floor (hs : s.Steady) : ∀ h ∈ s.heights, h ≤ s.floor := by
  intro h hmem
  have hpairs := hs.heights
  rw [floor]
  cases hheights : s.heights with
  | nil => rw [hheights] at hmem; cases hmem
  | cons first rest =>
    rw [hheights] at hmem hpairs
    rcases List.mem_cons.mp hmem with rfl | hrest
    · exact Nat.le_refl _
    · exact List.rel_of_pairwise_cons hpairs hrest

theorem Steady.floor_mem (hs : s.Steady) : s.floor ∈ s.heights := by
  obtain ⟨frame, outer, hframes⟩ := List.exists_cons_of_ne_nil hs.nonempty
  rw [floor_of_frames hframes, CheckState.heights, hframes]
  exact List.mem_cons_self

/-- Of no open block is the floor missing an operand. -/
theorem Steady.height_le (hs : s.Steady) : ∀ h ∈ s.heights, h ≤ s.operands.height :=
  fun h hmem => Nat.le_trans (hs.le_floor h hmem) hs.floor_le

theorem Steady.pushed (hs : s.Steady) (ts : List OperandType) :
    ({ s with operands := s.operands.pushAll ts } : CheckState).Steady where
  nonempty := hs.nonempty
  heights := hs.heights
  floor_le := Nat.le_trans hs.floor_le (Nat.le_add_right _ _)

/-- **Same below**: the open blocks are as they were, and so is the floor of the innermost one. -/
structure SameBelow (s s' : CheckState) : Prop where
  blocks : s'.blocks = s.blocks
  below : s'.operands.lower s.floor = s.operands.lower s.floor

namespace SameBelow

theorem floor_eq (h : s.SameBelow s') : s'.floor = s.floor := by
  rw [floor, floor, heights_of_blocks h.blocks]

/-- Where nothing is missing, nothing is missing after. -/
theorem floor_le (h : s.SameBelow s') (hs : s.floor ≤ s.operands.height) :
    s.floor ≤ s'.operands.height := by
  have hheight := congrArg Stack.height h.below
  rw [Stack.height_lower, Stack.height_lower] at hheight
  omega

theorem length_eq (h : s.SameBelow s') : s'.frames.length = s.frames.length := by
  rw [← length_heights, ← length_heights, heights_of_blocks h.blocks]

theorem steady (h : s.SameBelow s') (hs : s.Steady) : s'.Steady where
  nonempty hnone := by
    have hlength := h.length_eq
    rw [hnone] at hlength
    exact hs.nonempty (List.length_eq_zero_iff.mp hlength.symm)
  heights := heights_of_blocks h.blocks ▸ hs.heights
  floor_le := h.floor_eq ▸ h.floor_le hs.floor_le

/-- What is below the floor of the innermost block, or of one around it. -/
theorem below_of_le (h : s.SameBelow s') (hk : k ≤ s.floor) :
    s'.operands.lower k = s.operands.lower k := by
  rw [← Stack.lower_lower hk, h.below, Stack.lower_lower hk]

end SameBelow

/-- **The state without its lowest operands**, and the floors lower by as many. -/
def above (k : Nat) (s : CheckState) : CheckState where
  operands := s.operands.above k
  frames := s.frames.map fun frame => { frame with height := frame.height - k }

@[simp] theorem height_above (k : Nat) (s : CheckState) :
    (s.above k).operands.height = s.operands.height - k := Stack.height_above k s.operands

theorem above_frames {frame : CtrlFrame} {outer : List CtrlFrame} (h : s.frames = frame :: outer) :
    (s.above k).frames = { frame with height := frame.height - k } ::
      outer.map fun frame => { frame with height := frame.height - k } := by
  rw [above, h, List.map_cons]

/-- The state in which a block has just been opened. -/
def opened (kind : FrameKind) (results : List ValType) (s : CheckState) : CheckState :=
  { s with frames := { kind, results, height := s.operands.height, unreachable := false } :: s.frames }

theorem heights_opened (kind : FrameKind) (results : List ValType) (s : CheckState) :
    (s.opened kind results).heights = s.operands.height :: s.heights := rfl

theorem length_opened (kind : FrameKind) (results : List ValType) (s : CheckState) :
    (s.opened kind results).frames.length = s.frames.length + 1 := rfl

theorem Steady.opened (hs : s.Steady) (kind : FrameKind) (results : List ValType) :
    (s.opened kind results).Steady where
  nonempty := List.cons_ne_nil _ _
  heights := List.pairwise_cons.mpr ⟨hs.height_le, hs.heights⟩
  floor_le := Nat.le_refl _

end CheckState

/-- **An error that leaves the stacks of the checker in order.** Some block was open; and operands that are
    left over are more than none. -/
def ValidationError.Orderly : ValidationError → Prop
  | blockUnderflow => False
  | operandsLeft count => 0 < count
  | _ => True

theorem ValidationError.Orderly.of_not_aboutBlocks {e : ValidationError} (h : e.aboutBlocks = false) :
    e.Orderly := by
  cases e with
  | blockUnderflow | operandsLeft _ => cases h
  | _ => exact True.intro

namespace Check

open CheckState

variable {α β : Type} {c : BodyContext} {s s' : CheckState} {k : Nat}

/-! ## One operand -/

theorem innermost_of_frames {frame : CtrlFrame} {outer : List CtrlFrame}
    (hframes : s.frames = frame :: outer) : innermost s = .ok (frame, s) := by
  unfold innermost
  rw [bind_of_ok (get_apply s), hframes]
  rfl

/-- **Popping an operand**, by the innermost block. -/
theorem popOperand_eq {t : OperandType} {frame : CtrlFrame} {outer : List CtrlFrame}
    (hframes : s.frames = frame :: outer) :
    popOperand t s =
      if s.operands.height = frame.height then
        if frame.unreachable then .ok (t, s) else .error .stackUnderflow
      else match s.operands.pop? with
        | none => .error .stackUnderflow
        | some (found, rest) =>
          if t ≠ found ∧ t ≠ .unknown ∧ found ≠ .unknown then .error (.typeMismatch t found)
          else .ok (if found = .unknown then t else found, { s with operands := rest }) := by
  unfold popOperand
  rw [bind_of_ok (innermost_of_frames hframes), bind_of_ok (get_apply s)]
  by_cases hheight : s.operands.height = frame.height
  · rw [if_pos hheight, if_pos hheight]
    split <;> rfl
  · rw [if_neg hheight, if_neg hheight]
    cases s.operands.pop? with
    | none => rfl
    | some p =>
      have hset : (set { s with operands := p.2 } : Check PUnit) s =
        .ok (⟨⟩, { s with operands := p.2 }) := rfl
      show (set { s with operands := p.2 } >>= _ : Check OperandType) s = _
      rw [bind_of_ok hset]
      dsimp only
      by_cases hmismatch : t ≠ p.1 ∧ t ≠ .unknown ∧ p.1 ≠ .unknown
      · rw [if_pos hmismatch, if_pos hmismatch]
        rfl
      · rw [if_neg hmismatch, if_neg hmismatch]
        split <;> rfl

/-- Where the operands are more than the floor, there is one on top. -/
theorem exists_push_of_floor_lt (h : s.floor < s.operands.height) :
    ∃ (found : OperandType) (rest : Stack OperandType),
      s.operands = rest.push found ∧ s.floor ≤ rest.height := by
  cases htop : s.operands.pop? with
  | none =>
    rw [(Stack.pop?_eq_none_iff _).mp htop] at h
    exact absurd h (Nat.not_lt_zero _)
  | some p =>
    have hpush := (Stack.pop?_eq_some_iff _ _ _).mp htop
    rw [hpush, Stack.height_push] at h
    exact ⟨p.1, p.2, hpush, Nat.lt_succ_iff.mp h⟩

/-- **What is popped is above the floor.** -/
theorem popOperand_cases {t : OperandType} (hs : s.Steady) :
    (∃ e, popOperand t s = .error e ∧ e.aboutBlocks = false) ∨ (popOperand t s = .ok (t, s)) ∨
    ∃ found popped rest, popOperand t s = .ok (found, { s with operands := rest }) ∧
      s.operands = rest.push popped ∧ s.floor ≤ rest.height := by
  obtain ⟨frame, outer, hframes⟩ := List.exists_cons_of_ne_nil hs.nonempty
  have hfloor := floor_of_frames hframes
  have hle := hs.floor_le
  rw [popOperand_eq hframes]
  by_cases hheight : s.operands.height = frame.height
  · rw [if_pos hheight]
    split
    · exact .inr (.inl rfl)
    · exact .inl ⟨_, rfl, rfl⟩
  · obtain ⟨found, rest, hpush, hrest⟩ := exists_push_of_floor_lt (s := s) (by omega)
    rw [if_neg hheight, hpush, Stack.pop?_push]
    dsimp only
    split
    · exact .inl ⟨_, rfl, rfl⟩
    · exact .inr (.inr ⟨_, found, rest, rfl, rfl, hrest⟩)

/-! ## Moves inside of a block -/

theorem labelTypes_eq (l : LabelIdx) (s : CheckState) :
    labelTypes l s = match s.frames[l.toNat]? with
      | some frame => .ok (frame.labelTypes, s)
      | none => .error (.unknownLabel l s.frames.length) := by
  unfold labelTypes
  rw [bind_of_ok (get_apply s)]
  cases s.frames[l.toNat]? <;> rfl

theorem unreachable_eq {frame : CtrlFrame} {outer : List CtrlFrame} (hframes : s.frames = frame :: outer) :
    unreachable s = .ok ((), { operands := s.operands.lower frame.height,
                               frames := { frame with unreachable := true } :: outer }) := by
  unfold unreachable
  rw [bind_of_ok (get_apply s), hframes]
  rfl

/-- **A move inside of a block leaves all below as it is.** -/
theorem IsLocal.sameBelow {m : Check α} (h : IsLocal m) :
    ∀ {s a s'}, s.Steady → m s = .ok (a, s') → s.SameBelow s' := by
  intro s a s' hs hrun
  refine ⟨h.keepsBlocks hrun, ?_⟩
  induction h generalizing s s' with
  | pure a => cases hrun; rfl
  | refuse _ => cases hrun
  | lookUp _ =>
    obtain ⟨-, rfl⟩ := lift_eq_ok hrun
    rfl
  | labelTypes l =>
    rw [labelTypes_eq] at hrun
    split at hrun <;> cases hrun
    rfl
  | outermost _ ih =>
    rw [bind_of_ok (get_apply s)] at hrun
    cases hlast : s.frames.getLast? with
    | none => rw [hlast] at hrun; cases hrun
    | some frame => rw [hlast] at hrun; exact ih _ hs hrun
  | inConstant _ _ ihm ihn =>
    rw [bind_of_ok (get_apply s)] at hrun
    split at hrun
    · exact ihm hs hrun
    · exact ihn hs hrun
  | pushOperand t => cases hrun; exact Stack.lower_push_of_le t hs.floor_le
  | pushOperands ts => cases hrun; exact Stack.lower_pushAll_of_le _ hs.floor_le
  | popOperand t =>
    -- the only move that takes an operand away finds it above the floor
    rcases popOperand_cases (t := t) hs with ⟨e, he, -⟩ | hmissing | ⟨_, popped, rest, hpop, hpush, hrest⟩
    · rw [he] at hrun; cases hrun
    · rw [hmissing] at hrun; cases hrun; rfl
    · rw [hpop] at hrun
      cases hrun
      rw [hpush, Stack.lower_push_of_le popped hrest]
  | unreachable =>
    obtain ⟨frame, outer, hframes⟩ := List.exists_cons_of_ne_nil hs.nonempty
    rw [unreachable_eq hframes] at hrun
    cases hrun
    rw [floor_of_frames hframes, Stack.lower_lower (Nat.le_refl _)]
  | bind hm _ ihm ihf =>
    obtain ⟨b, s₁, h₁, h₂⟩ := bind_eq_ok_iff.mp hrun
    have hfirst : s.SameBelow s₁ := ⟨hm.keepsBlocks h₁, ihm hs h₁⟩
    rw [← hfirst.floor_eq, ihf b (hfirst.steady hs) h₂, hfirst.floor_eq, hfirst.below]

/-- **No error of a move inside of a block is about the open blocks.** -/
theorem IsLocal.aboutBlocks {m : Check α} (h : IsLocal m) :
    ∀ {s e}, s.Steady → m s = .error e → e.aboutBlocks = false := by
  intro s e hs hrun
  induction h generalizing s with
  | pure a => cases hrun
  | refuse he => cases hrun; exact he
  | @lookUp _ x hx =>
    cases x with
    | ok a => cases hrun
    | error e' => cases hrun; exact hx e rfl
  | labelTypes l =>
    rw [labelTypes_eq] at hrun
    split at hrun <;> cases hrun
    rfl
  | outermost _ ih =>
    rw [bind_of_ok (get_apply s)] at hrun
    cases hlast : s.frames.getLast? with
    | none =>
      -- the one place where a rule could find no open block
      exact absurd (List.getLast?_eq_none_iff.mp hlast) hs.nonempty
    | some frame => rw [hlast] at hrun; exact ih _ hs hrun
  | inConstant _ _ ihm ihn =>
    rw [bind_of_ok (get_apply s)] at hrun
    split at hrun
    · exact ihm hs hrun
    · exact ihn hs hrun
  | pushOperand t => cases hrun
  | pushOperands ts => cases hrun
  | popOperand t =>
    rcases popOperand_cases (t := t) hs with ⟨e', he, hblocks⟩ | hmissing | ⟨_, _, _, hpop, -⟩
    · rw [he] at hrun; cases hrun; exact hblocks
    · rw [hmissing] at hrun; cases hrun
    · rw [hpop] at hrun; cases hrun
  | unreachable =>
    obtain ⟨frame, outer, hframes⟩ := List.exists_cons_of_ne_nil hs.nonempty
    rw [unreachable_eq hframes] at hrun
    cases hrun
  | @bind _ _ m f hm _ ihm ihf =>
    cases hfirst : m s with
    | error e' =>
      rw [bind_of_error hfirst] at hrun
      cases hrun
      exact ihm hs hfirst
    | ok p =>
      rw [bind_of_ok hfirst] at hrun
      exact ihf p.1 ((hm.sameBelow hs hfirst).steady hs) hrun

/-! ## Without the floor -/

/-- An outcome without the lowest operands. -/
def seen (k : Nat) (r : Except ValidationError (α × CheckState)) :
    Except ValidationError (α × CheckState) :=
  r.map fun p => (p.1, p.2.above k)

/-- **Moves in sequence** come to the same without the lowest operands, if each of them does. -/
theorem bind_above {m : Check α} {f : α → Check β} (hm : m (s.above k) = seen k (m s))
    (hf : ∀ a s', m s = .ok (a, s') → f a (s'.above k) = seen k (f a s')) :
    (m >>= f) (s.above k) = seen k ((m >>= f) s) := by
  cases hrun : m s with
  | error e =>
    rw [hrun] at hm
    rw [bind_of_error hrun, bind_of_error hm]
    rfl
  | ok p =>
    rw [hrun] at hm
    rw [bind_of_ok hrun, bind_of_ok hm]
    exact hf p.1 p.2 hrun

theorem pushOperands_above (ts : List OperandType) (hk : k ≤ s.operands.height) :
    pushOperands ts (s.above k) = seen k (pushOperands ts s) := by
  show Except.ok ((), { s.above k with operands := (s.operands.above k).pushAll ts.reverse }) = _
  rw [← Stack.above_pushAll ts.reverse hk]
  rfl

theorem popOperand_above (t : OperandType) (hs : s.Steady) (hk : k ≤ s.floor) :
    popOperand t (s.above k) = seen k (popOperand t s) := by
  obtain ⟨frame, outer, hframes⟩ := List.exists_cons_of_ne_nil hs.nonempty
  have hfloor := floor_of_frames hframes
  have hle := hs.floor_le
  have hsame : (s.above k).operands.height = frame.height - k ↔ s.operands.height = frame.height := by
    rw [height_above]
    omega
  rw [popOperand_eq hframes, popOperand_eq (above_frames hframes)]
  by_cases hheight : s.operands.height = frame.height
  · rw [if_pos hheight, if_pos (hsame.mpr hheight)]
    split <;> rfl
  · obtain ⟨found, rest, hpush, hrest⟩ := exists_push_of_floor_lt (s := s) (by omega)
    have hpush' : (s.above k).operands = (rest.above k).push found := by
      show s.operands.above k = _
      rw [hpush, Stack.above_push found (Nat.le_trans hk hrest)]
    rw [if_neg hheight, if_neg (mt hsame.mp hheight), hpush, hpush', Stack.pop?_push, Stack.pop?_push]
    dsimp only
    split <;> rfl

/-- **A move inside of a block never takes up the floor.** -/
theorem IsLocal.above {m : Check α} (h : IsLocal m) :
    ∀ {s k}, s.Steady → k ≤ s.floor → m (s.above k) = seen k (m s) := by
  intro s k hs hk
  have hle := hs.floor_le
  induction h generalizing s with
  | pure a => rfl
  | refuse _ => rfl
  | @lookUp _ x _ => cases x <;> rfl
  | labelTypes l =>
    rw [labelTypes_eq, labelTypes_eq, CheckState.above, List.getElem?_map, List.length_map]
    cases s.frames[l.toNat]? <;> rfl
  | outermost _ ih =>
    rw [bind_of_ok (get_apply s), bind_of_ok (get_apply (s.above k))]
    have hlast : (s.above k).frames.getLast? =
      s.frames.getLast?.map fun frame => { frame with height := frame.height - k } :=
      List.getLast?_map
    rw [hlast]
    cases s.frames.getLast? with
    | none => rfl
    | some frame => exact ih _ hs hk hle
  | inConstant _ _ ihm ihn =>
    rw [bind_of_ok (get_apply s), bind_of_ok (get_apply (s.above k))]
    have hhead : (s.above k).frames.head?.any (·.kind = .constant) =
        s.frames.head?.any (·.kind = .constant) := by
      rw [CheckState.above, List.head?_map, Option.any_map]
    rw [hhead]
    split
    · exact ihm hs hk hle
    · exact ihn hs hk hle
  | pushOperand t =>
    show Except.ok ((), { s.above k with operands := (s.operands.above k).push t }) = _
    rw [← Stack.above_push t (Nat.le_trans hk hle)]
    rfl
  | pushOperands ts => exact pushOperands_above ts (Nat.le_trans hk hle)
  | popOperand t => exact popOperand_above t hs hk
  | unreachable =>
    obtain ⟨frame, outer, hframes⟩ := List.exists_cons_of_ne_nil hs.nonempty
    rw [floor_of_frames hframes] at hk hle
    rw [unreachable_eq hframes, unreachable_eq (above_frames hframes)]
    show Except.ok ((), (⟨(s.operands.above k).lower (frame.height - k), _⟩ : CheckState)) = _
    rw [← Stack.above_lower hk hle]
    rfl
  | bind hm _ ihm ihf =>
    refine bind_above (ihm hs hk hle) fun b s₁ hrun => ?_
    have hfirst := hm.sameBelow hs hrun
    exact ihf b (hfirst.steady hs) (hfirst.floor_eq ▸ hk) (hfirst.steady hs).floor_le

/-! ## Blocks that are opened -/

theorem pushFrame_apply (kind : FrameKind) (results : List ValType) (s : CheckState) :
    pushFrame kind results s = .ok ((), s.opened kind results) := rfl

theorem opened_above (kind : FrameKind) (results : List ValType) (k : Nat) (s : CheckState) :
    (s.opened kind results).above k = (s.above k).opened kind results := by
  unfold CheckState.opened
  rw [height_above]
  rfl

theorem isLocal_outsideConstant (i : Instr) : IsLocal (outsideConstant i) :=
  .inConstant (.refuse rfl) (.pure ())

/-- **A structured instruction** stays inside of the block around it until it opens its own. -/
theorem instr_opens (c : BodyContext) {i : Instr} {body : OpenBody} (hi : i.opened = some body) :
    ∃ before kind results, IsLocal before ∧
      instr c i = (do before; pushFrame kind results : Check Unit) := by
  rw [instr_of_opened hi]
  have houtside := isLocal_outsideConstant i
  cases i with
  | block t _ => exact ⟨_, .block, t.results, houtside, rfl⟩
  | loop t _ => exact ⟨_, .loop, t.results, houtside, rfl⟩
  | ifThen t _ | ifElse t _ _ =>
    exact ⟨_, .ifThen, t.results, .bind houtside fun _ => isLocal_pop .i32, (bind_assoc ..).symm⟩
  | _ => cases hi

theorem aboutBlocks_of_instr {i : Instr} {e : ValidationError} (hs : s.Steady)
    (h : instr c i s = .error e) : e.aboutBlocks = false := by
  cases hi : i.opened with
  | none => exact (isLocal_instr hi).aboutBlocks hs h
  | some body =>
    obtain ⟨before, kind, results, hlocal, heq⟩ := instr_opens c hi
    rw [heq] at h
    cases hbefore : before s with
    | error e' =>
      rw [bind_of_error hbefore] at h
      cases h
      exact hlocal.aboutBlocks hs hbefore
    | ok p => rw [bind_of_ok hbefore] at h; cases h

/-- **No instruction takes up the floor.** -/
theorem instr_above (c : BodyContext) (i : Instr) (hs : s.Steady) (hk : k ≤ s.floor) :
    instr c i (s.above k) = seen k (instr c i s) := by
  cases hi : i.opened with
  | none => exact (isLocal_instr hi).above hs hk
  | some body =>
    obtain ⟨before, kind, results, hlocal, heq⟩ := instr_opens c hi
    rw [heq]
    refine bind_above (hlocal.above hs hk) fun _ s₁ _ => ?_
    rw [pushFrame_apply, pushFrame_apply, ← opened_above]
    rfl

/-! ## Blocks that are closed -/

/-- **Closing a block**: its results are popped, and nothing else may be left of its operands. -/
theorem popFrame_eq {frame : CtrlFrame} {outer : List CtrlFrame} (hframes : s.frames = frame :: outer) :
    popFrame s = match popAll frame.results s with
      | .error e => .error e
      | .ok (_, s₁) =>
        if s₁.operands.height ≠ frame.height then
          .error (.operandsLeft (s₁.operands.height - frame.height))
        else .ok (frame, { s₁ with frames := s₁.frames.tail }) := by
  unfold popFrame
  rw [bind_of_ok (innermost_of_frames hframes)]
  cases hpop : popAll frame.results s with
  | error e => rw [bind_of_error hpop]
  | ok p =>
    rw [bind_of_ok hpop, bind_of_ok (get_apply p.2)]
    dsimp only
    split <;> rfl

theorem heights_of_popFrame {frame : CtrlFrame} (h : popFrame s = .ok (frame, s')) :
    s.heights = frame.height :: s'.heights := by
  rw [heights_eq, heights_eq, popFrame_eq_ok h, List.map_cons]

theorem length_of_popFrame {frame : CtrlFrame} (h : popFrame s = .ok (frame, s')) :
    s.frames.length = s'.frames.length + 1 := by
  rw [← length_heights, ← length_heights, heights_of_popFrame h, List.length_cons]

/-- **What is left when a block is closed is its floor.** -/
theorem operands_of_popFrame {frame : CtrlFrame} (hs : s.Steady) (h : popFrame s = .ok (frame, s')) :
    s'.operands = s.operands.lower s.floor := by
  obtain ⟨f, outer, hframes⟩ := List.exists_cons_of_ne_nil hs.nonempty
  rw [popFrame_eq hframes] at h
  cases hpop : popAll f.results s with
  | error e => rw [hpop] at h; cases h
  | ok p =>
    rw [hpop] at h
    dsimp only at h
    split at h
    · cases h
    · rename_i hheight
      cases h
      have hsame := (isLocal_popAll _).sameBelow hs hpop
      have hexact : p.2.operands.height = s.floor := by
        rw [floor_of_frames hframes]
        exact Decidable.not_not.mp hheight
      show p.2.operands = _
      rw [← hsame.below, Stack.lower_of_le (Nat.le_of_eq hexact)]

theorem height_of_popFrame {frame : CtrlFrame} (hs : s.Steady) (h : popFrame s = .ok (frame, s')) :
    s'.operands.height = s.floor := by
  rw [operands_of_popFrame hs h, Stack.height_lower, Nat.min_eq_left hs.floor_le]

/-- Where another block is around it, closing a block leaves the state in order. -/
theorem steady_of_popFrame {frame : CtrlFrame} (hs : s.Steady) (h : popFrame s = .ok (frame, s'))
    (hmore : 2 ≤ s.frames.length) : s'.Steady := by
  have hheights := heights_of_popFrame h
  have hpairs := hs.heights
  have hfloor : s.floor = frame.height := by rw [floor, hheights]; rfl
  have hlength := congrArg List.length hheights
  rw [hheights] at hpairs
  rw [length_heights, List.length_cons, length_heights] at hlength
  refine ⟨fun hnone => ?_, hpairs.of_cons, ?_⟩
  · rw [hnone, List.length_nil] at hlength
    omega
  · rw [height_of_popFrame hs h, hfloor, floor]
    cases hrest : s'.heights with
    | nil => exact Nat.zero_le _
    | cons first rest =>
      rw [hrest] at hpairs
      exact List.rel_of_pairwise_cons hpairs List.mem_cons_self

/-- **No operand is missing where those that are left are counted.** -/
theorem floor_le_of_popAll {ts : List ValType} {u : Unit} (hs : s.Steady)
    (h : popAll ts s = .ok (u, s')) : s.floor ≤ s'.operands.height :=
  ((isLocal_popAll ts).sameBelow hs h).floor_le hs.floor_le

theorem orderly_of_popFrame {e : ValidationError} (hs : s.Steady) (h : popFrame s = .error e) :
    e.Orderly := by
  obtain ⟨frame, outer, hframes⟩ := List.exists_cons_of_ne_nil hs.nonempty
  rw [popFrame_eq hframes] at h
  cases hpop : popAll frame.results s with
  | error e' =>
    rw [hpop] at h
    cases h
    exact .of_not_aboutBlocks ((isLocal_popAll _).aboutBlocks hs hpop)
  | ok p =>
    rw [hpop] at h
    dsimp only at h
    split at h
    · rename_i hheight
      cases h
      have hle := floor_le_of_popAll hs hpop
      rw [floor_of_frames hframes] at hle
      exact Nat.sub_pos_of_lt (Nat.lt_of_le_of_ne hle (Ne.symm hheight))
    · cases h

/-- Closing a block never takes up its floor. -/
theorem popFrame_above (hs : s.Steady) (hk : k ≤ s.floor) :
    popFrame (s.above k) =
      (popFrame s).map fun p => ({ p.1 with height := p.1.height - k }, p.2.above k) := by
  obtain ⟨frame, outer, hframes⟩ := List.exists_cons_of_ne_nil hs.nonempty
  have hfloor := floor_of_frames hframes
  rw [popFrame_eq hframes, popFrame_eq (above_frames hframes), (isLocal_popAll _).above hs hk]
  cases hpop : popAll frame.results s with
  | error e => rfl
  | ok p =>
    have hle := floor_le_of_popAll hs hpop
    show (if (p.2.above k).operands.height ≠ frame.height - k then _ else _) = _
    rw [height_above]
    by_cases hexact : p.2.operands.height = frame.height
    · rw [if_neg (not_not.mpr (by rw [hexact]))]
      dsimp only
      rw [if_neg (not_not.mpr hexact)]
      show Except.ok (_, (⟨_, _⟩ : CheckState)) = Except.ok (_, (⟨_, _⟩ : CheckState))
      rw [CheckState.above, List.map_tail]
    · have hother : p.2.operands.height - k ≠ frame.height - k := by omega
      have hcount : p.2.operands.height - k - (frame.height - k) =
        p.2.operands.height - frame.height := by omega
      rw [if_pos hother]
      dsimp only
      rw [if_pos hexact, hcount]
      rfl

/-! ## Ends of bodies -/

/-- After the last arm, the results of the block are pushed. -/
theorem endBody_none_eq_ok {u : Unit} (h : endBody none s = .ok (u, s')) :
    ∃ frame s₁, popFrame s = .ok (frame, s₁) ∧
      s' = { s₁ with operands := s₁.operands.pushAll (frame.results.map .known).reverse } := by
  obtain ⟨frame, s₁, hclose, hrest⟩ := bind_eq_ok_iff.mp h
  dsimp only at hrest
  split at hrest
  · cases hrest
  · cases hrest
    exact ⟨frame, s₁, hclose, rfl⟩

/-- After the first arm of two, a block is opened for the other one. -/
theorem endBody_some_eq_ok {arm : List Instr} {u : Unit} (h : endBody (some arm) s = .ok (u, s')) :
    ∃ frame s₁, popFrame s = .ok (frame, s₁) ∧ s' = s₁.opened .elseArm frame.results := by
  obtain ⟨frame, s₁, hclose, hrest⟩ := bind_eq_ok_iff.mp h
  cases hrest
  exact ⟨frame, s₁, hclose, rfl⟩

theorem orderly_of_endBody {alternate : Option (List Instr)} {e : ValidationError} (hs : s.Steady)
    (h : endBody alternate s = .error e) : e.Orderly := by
  cases hclose : popFrame s with
  | error e' =>
    rw [endBody, bind_of_error hclose] at h
    cases h
    exact orderly_of_popFrame hs hclose
  | ok p =>
    rw [endBody, bind_of_ok hclose] at h
    cases alternate with
    | some arm => cases h
    | none =>
      dsimp only at h
      split at h
      · cases h
        exact True.intro
      · cases h

/-- **The end of a body never takes up the floor.** -/
theorem endBody_above (alternate : Option (List Instr)) (hs : s.Steady) (hk : k ≤ s.floor) :
    endBody alternate (s.above k) = seen k (endBody alternate s) := by
  have habove := popFrame_above hs hk
  cases hclose : popFrame s with
  | error e =>
    rw [hclose] at habove
    rw [endBody, bind_of_error hclose, bind_of_error habove]
    rfl
  | ok p =>
    rw [hclose] at habove
    rw [endBody, bind_of_ok hclose, bind_of_ok habove]
    cases alternate with
    | some arm =>
      dsimp only
      rw [pushFrame_apply, pushFrame_apply, ← opened_above]
      rfl
    | none =>
      dsimp only
      split
      · rfl
      · exact pushOperands_above _ (height_of_popFrame hs hclose ▸ hk)

end Check

end WasmCore
