import Mathlib.Logic.Relation
import WasmCore.Proofs.Typing.Floor

/-!
# `Typing.Discipline` — the stacks of the checker are in order at every point

The checker keeps three stacks: the bodies that it walks, a control frame for each block that is open, and
what it knows about the operands. No type ties them together. The walk is taken here turn by turn: a turn
checks one instruction, or closes the block whose body has ended. The points between the turns are the
points of a check, and an error is that of the turn that follows its last point.

A block is closed only by the end of its own body. Until then its floor stays as it is: the operands of the
floor are those of the point where the block was entered, and every turn comes to the same without them.

* `turn`, `walk_eq_turn`: **the walk is the repetition of a turn**;
* `Point`, `Turn`, `Change`, `Turn.change`: what a turn does to the three stacks;
* `Point.InOrder`, `InOrder.turn`: **the invariant**, for a turn;
* `Within`, `Rests`, `Rests.within`: **runs inside of a block** leave its floor alone;
* `exists_last`, `Visits`, `exists_entry`: checks from their first point to the last;
* `StackDiscipline`, `checks_disciplined`: **functions and constant expressions.**
-/

namespace WasmCore

-- Sums of numbers start at the core library's zero.
attribute [local instance (high)] Zero.ofOfNat0

namespace Check

open CheckState Relation

variable {c : BodyContext}

/-! ## Turns -/

/-- **A turn of the walk** over open bodies: an instruction is checked, or the block is closed whose body
    has ended. It gives the bodies that are open after it; at the end of the outermost body there are no
    more turns. -/
def turn (c : BodyContext) : List OpenBody → Check (Option (List OpenBody))
  | [] | [⟨[], _⟩] => return none
  | ⟨[], alternate⟩ :: b :: outer => do
    endBody alternate
    return some ((alternate.map fun arm => ⟨arm, none⟩).toList ++ b :: outer)
  | ⟨i :: rest, alternate⟩ :: outer => do
    instr c i
    return some (i.opened.toList ++ ⟨rest, alternate⟩ :: outer)

/-- The walk goes on where there are bodies left. -/
def walkOn (c : BodyContext) : Option (List OpenBody) → Check Unit
  | none => return ()
  | some bodies => walk c bodies

/-- **The walk is the repetition of a turn.** -/
theorem walk_eq_turn (c : BodyContext) (bodies : List OpenBody) :
    walk c bodies = turn c bodies >>= walkOn c := by
  match bodies with
  | [] => rw [walk]; rfl
  | [⟨[], alternate⟩] => cases alternate <;> rw [walk] <;> rfl
  | ⟨[], alternate⟩ :: b :: outer =>
    rw [walk_end, turn, bind_assoc]
    cases alternate <;> rfl
  | ⟨i :: rest, alternate⟩ :: outer =>
    rw [walk, turn, bind_assoc]
    congr 1
    funext _
    cases i.opened <;> rfl

/-- **A point of a check**: the bodies that are open, the innermost first, and the state. -/
structure Point where
  bodies : List OpenBody
  state : CheckState

namespace Point

/-- The number of blocks that are open. -/
def depth (p : Point) : Nat := p.state.frames.length

/-- The point without the lowest operands. -/
def above (k : Nat) (p : Point) : Point := ⟨p.bodies, p.state.above k⟩

theorem depth_above (k : Nat) (p : Point) : (p.above k).depth = p.depth := List.length_map _

/-- The body of the innermost block has ended. -/
def AtEnd (p : Point) : Prop := ∃ alternate outer, p.bodies = ⟨[], alternate⟩ :: outer

/-- The three stacks are in order: bodies and blocks belong together, and the state is steady. -/
@[mk_iff] structure InOrder (p : Point) : Prop where
  steady : p.state.Steady
  paired : p.state.frames.length = p.bodies.length

end Point

/-- **From one point to the next.** -/
def Turn (c : BodyContext) (p q : Point) : Prop := turn c p.bodies p.state = .ok (some q.bodies, q.state)

/-- **What a turn does to the three stacks.** -/
inductive Change (p q : Point) : Prop
  /-- Operands of the innermost block come and go. -/
  | stays : ¬ p.AtEnd → q.bodies.length = p.bodies.length → p.state.SameBelow q.state → Change p q
  /-- Another block is opened. -/
  | opens {s : CheckState} (kind : FrameKind) (results : List ValType) :
      q.bodies.length = p.bodies.length + 1 → p.state.SameBelow s → q.state = s.opened kind results →
      Change p q
  /-- The innermost block is closed, and its results are pushed. -/
  | closes {s : CheckState} {frame : CtrlFrame} (results : List OperandType) :
      p.bodies.length = q.bodies.length + 1 → q.bodies ≠ [] → popFrame p.state = .ok (frame, s) →
      q.state = { s with operands := s.operands.pushAll results } → Change p q
  /-- The block of the first arm is closed, and that of the other arm is opened in its place. -/
  | alternates {s : CheckState} {frame : CtrlFrame} (kind : FrameKind) (results : List ValType) :
      p.AtEnd → q.bodies.length = p.bodies.length → 2 ≤ p.bodies.length →
      popFrame p.state = .ok (frame, s) → q.state = s.opened kind results → Change p q

theorem Turn.change {p q : Point} (hp : p.state.Steady) (h : Turn c p q) : Change p q := by
  obtain ⟨bodies, s⟩ := p
  obtain ⟨bodies', s'⟩ := q
  match bodies with
  | [] | [⟨[], _⟩] => cases h
  | ⟨[], none⟩ :: b :: outer =>
    obtain ⟨⟨⟩, s₁, hend, hrest⟩ := bind_eq_ok_iff.mp h
    obtain ⟨frame, s₂, hclose, rfl⟩ := endBody_none_eq_ok hend
    cases hrest
    exact .closes _ rfl (List.cons_ne_nil _ _) hclose rfl
  | ⟨[], some arm⟩ :: b :: outer =>
    obtain ⟨⟨⟩, s₁, hend, hrest⟩ := bind_eq_ok_iff.mp h
    obtain ⟨frame, s₂, hclose, rfl⟩ := endBody_some_eq_ok hend
    cases hrest
    exact .alternates _ _ ⟨some arm, b :: outer, rfl⟩ rfl (Nat.le_add_left _ _) hclose rfl
  | ⟨i :: rest, alternate⟩ :: outer =>
    obtain ⟨⟨⟩, s₁, hinstr, hrest⟩ := bind_eq_ok_iff.mp h
    cases hi : i.opened with
    | none =>
      rw [hi] at hrest
      cases hrest
      exact .stays nofun rfl ((isLocal_instr hi).sameBelow hp hinstr)
    | some body =>
      obtain ⟨before, kind, results, hlocal, heq⟩ := instr_opens c hi
      rw [heq] at hinstr
      obtain ⟨⟨⟩, s₂, hbefore, hopen⟩ := bind_eq_ok_iff.mp hinstr
      rw [hi] at hrest
      cases hrest
      cases hopen
      exact .opens kind results rfl (hlocal.sameBelow hp hbefore) rfl

/-- **No turn goes wrong with the stacks.** -/
theorem orderly_of_turn {bodies : List OpenBody} {s : CheckState} {e : ValidationError} (hs : s.Steady)
    (h : turn c bodies s = .error e) : e.Orderly := by
  match bodies with
  | [] | [⟨[], _⟩] => cases h
  | ⟨[], alternate⟩ :: b :: outer =>
    rw [turn] at h
    cases hend : endBody alternate s with
    | error e' =>
      rw [bind_of_error hend] at h
      cases h
      exact orderly_of_endBody hs hend
    | ok p => rw [bind_of_ok hend] at h; cases h
  | ⟨i :: rest, alternate⟩ :: outer =>
    rw [turn] at h
    cases hinstr : instr c i s with
    | error e' =>
      rw [bind_of_error hinstr] at h
      cases h
      exact .of_not_aboutBlocks (aboutBlocks_of_instr hs hinstr)
    | ok p => rw [bind_of_ok hinstr] at h; cases h

/-- **No turn takes up the floor**: without the lowest operands it comes to the same. -/
theorem turn_above {s : CheckState} {k : Nat} (bodies : List OpenBody) (hs : s.Steady)
    (hk : k ≤ s.floor) : turn c bodies (s.above k) = seen k (turn c bodies s) := by
  match bodies with
  | [] | [⟨[], _⟩] => rfl
  | ⟨[], alternate⟩ :: b :: outer => exact bind_above (endBody_above alternate hs hk) fun _ _ _ => rfl
  | ⟨i :: rest, alternate⟩ :: outer => exact bind_above (instr_above c i hs hk) fun _ _ _ => rfl

/-! ## The invariant -/

variable {n : Nat} {p q r : Point}

theorem Point.InOrder.change (hp : p.InOrder) (h : Change p q) : q.InOrder := by
  obtain ⟨hsteady, hpaired⟩ := hp
  cases h with
  | stays _ hbodies hsame =>
    refine ⟨hsame.steady hsteady, ?_⟩
    rw [hsame.length_eq, hpaired, hbodies]
  | opens kind results hbodies hsame hstate =>
    rw [Point.inOrder_iff, hstate, length_opened, hsame.length_eq]
    exact ⟨(hsame.steady hsteady).opened kind results, by omega⟩
  | closes results hbodies hmore hclose hstate =>
    have hlength := length_of_popFrame hclose
    have hpos := List.length_pos_of_ne_nil hmore
    rw [Point.inOrder_iff, hstate]
    exact ⟨(steady_of_popFrame hsteady hclose (by omega)).pushed results, by dsimp only; omega⟩
  | alternates kind results _ hbodies hmore hclose hstate =>
    have hlength := length_of_popFrame hclose
    rw [Point.inOrder_iff, hstate, length_opened]
    exact ⟨(steady_of_popFrame hsteady hclose (by omega)).opened kind results, by omega⟩

/-- **A turn leaves the three stacks in order.** -/
theorem Point.InOrder.turn (hp : p.InOrder) (h : Turn c p q) : q.InOrder :=
  hp.change (h.change hp.steady)

/-! ## Runs inside of a block -/

/-- **A run in which so many blocks stay open.** -/
def Within (c : BodyContext) (n : Nat) : Point → Point → Prop :=
  ReflTransGen fun p q => Turn c p q ∧ n ≤ q.depth

/-- **One point rests on another**: the blocks that were open there are open still, if for another arm, and
    have the same floors; and the operands of the floor of the innermost of them are the same. -/
@[mk_iff] structure Rests (p q : Point) : Prop where
  heights : p.state.heights <:+ q.state.heights
  below : q.state.operands.lower p.state.floor = p.state.operands.lower p.state.floor

namespace Rests

theorem refl (p : Point) : Rests p p := ⟨List.suffix_refl _, rfl⟩

theorem floor_le (h : Rests p q) (hp : p.state.Steady) (hq : q.state.Steady) :
    p.state.floor ≤ q.state.floor :=
  hq.le_floor _ (h.heights.subset (hp.floor_mem))

/-- What a block rests on does not change until the block is closed. -/
theorem change (h : Rests p q) (hp : p.state.Steady) (hq : q.state.Steady) (hchange : Change q r)
    (hdepth : p.depth ≤ r.depth) : Rests p r := by
  have hfloor := h.floor_le hp hq
  obtain ⟨hheights, hbelow⟩ := h
  rw [Point.depth, Point.depth, ← length_heights] at hdepth
  cases hchange with
  | stays _ _ hsame =>
    refine ⟨?_, (hsame.below_of_le hfloor).trans hbelow⟩
    rw [heights_of_blocks hsame.blocks]
    exact hheights
  | opens kind results _ hsame hstate =>
    rw [rests_iff, hstate, heights_opened, heights_of_blocks hsame.blocks]
    exact ⟨hheights.trans (List.suffix_cons _ _), (hsame.below_of_le hfloor).trans hbelow⟩
  | @closes s frame results _ _ hclose hstate =>
    have hoperands := operands_of_popFrame hq hclose
    have hheight := height_of_popFrame hq hclose
    rw [rests_iff]
    rw [hstate] at hdepth ⊢
    constructor
    · -- the block that is closed is not one of those that are to stay open
      rw [heights_of_popFrame hclose, List.suffix_cons_iff] at hheights
      refine hheights.resolve_left fun hall => ?_
      rw [hall, List.length_cons, length_heights] at hdepth
      exact Nat.not_succ_le_self _ hdepth
    · show (s.operands.pushAll results).lower _ = _
      rw [Stack.lower_pushAll_of_le results (hheight ▸ hfloor), hoperands, Stack.lower_lower hfloor,
        hbelow]
  | @alternates s frame kind results _ _ _ hclose hstate =>
    have hoperands := operands_of_popFrame hq hclose
    have hsame : (s.opened kind results).heights = q.state.heights := by
      rw [heights_opened, heights_of_popFrame hclose, height_of_popFrame hq hclose, floor,
        heights_of_popFrame hclose]
      rfl
    rw [rests_iff, hstate, hsame]
    refine ⟨hheights, ?_⟩
    show s.operands.lower _ = _
    rw [hoperands, Stack.lower_lower hfloor, hbelow]

end Rests

theorem Point.InOrder.within (hp : p.InOrder) (h : Within c n p q) : q.InOrder := by
  induction h with
  | refl => exact hp
  | tail _ hturn ih => exact ih.turn hturn.1

/-- **A run inside of a block leaves its floor alone.** -/
theorem Rests.within (hp : p.InOrder) (h : Within c p.depth p q) : Rests p q := by
  induction h with
  | refl => exact .refl p
  | tail hrun hturn ih =>
    have hq := hp.within hrun
    exact ih.change hp.steady hq.steady (hturn.1.change hq.steady) hturn.2

/-- **A run inside of a block never takes up its floor**: it goes from point to point in the same way where
    these operands have been taken away. -/
theorem Within.above (hp : p.InOrder) (h : Within c p.depth p q) :
    Within c p.depth (p.above p.state.floor) (q.above p.state.floor) := by
  induction h with
  | refl => exact .refl
  | tail hrun hturn ih =>
    have hq := hp.within hrun
    have hfloor := (Rests.within hp hrun).floor_le hp.steady hq.steady
    refine ih.tail ⟨?_, ?_⟩
    · show Check.turn c _ _ = _
      rw [Point.above, turn_above _ hq.steady hfloor, hturn.1]
      rfl
    · rw [Point.depth_above]
      exact hturn.2

/-! ## From the first point to the last -/

theorem sizeOfOpen_cons (b : OpenBody) (bodies : List OpenBody) :
    sizeOfOpen (b :: bodies) = b.size + sizeOfOpen bodies := by
  rw [sizeOfOpen, List.map_cons, List.sum_cons]
  rfl

/-- The bodies that are open take fewer steps after every turn. -/
theorem Turn.shrinks (h : Turn c p q) : sizeOfOpen q.bodies < sizeOfOpen p.bodies := by
  obtain ⟨bodies, s⟩ := p
  obtain ⟨bodies', s'⟩ := q
  match bodies with
  | [] | [⟨[], _⟩] => cases h
  | ⟨[], none⟩ :: b :: outer =>
    obtain ⟨⟨⟩, s₁, hend, hrest⟩ := bind_eq_ok_iff.mp h
    cases hrest
    show sizeOfOpen (b :: outer) < sizeOfOpen (⟨[], none⟩ :: b :: outer)
    rw [sizeOfOpen_cons ⟨[], none⟩, OpenBody.size]
    omega
  | ⟨[], some arm⟩ :: b :: outer =>
    obtain ⟨⟨⟩, s₁, hend, hrest⟩ := bind_eq_ok_iff.mp h
    cases hrest
    show sizeOfOpen (⟨arm, none⟩ :: b :: outer) < sizeOfOpen (⟨[], some arm⟩ :: b :: outer)
    simp only [sizeOfOpen_cons, OpenBody.size, Option.map, Option.getD]
    omega
  | ⟨i :: rest, alternate⟩ :: outer =>
    obtain ⟨⟨⟩, s₁, hinstr, hrest⟩ := bind_eq_ok_iff.mp h
    cases hrest
    show sizeOfOpen (i.opened.toList ++ ⟨rest, alternate⟩ :: outer) <
      sizeOfOpen (⟨i :: rest, alternate⟩ :: outer)
    have hstep : (⟨i :: rest, alternate⟩ : OpenBody).size =
        i.size + (⟨rest, alternate⟩ : OpenBody).size := by
      simp only [OpenBody.size, sizeOfBody]
      omega
    cases hi : i.opened with
    | none =>
      have hpos := i.size_pos
      show sizeOfOpen (⟨rest, alternate⟩ :: outer) < _
      rw [sizeOfOpen_cons, sizeOfOpen_cons, hstep]
      omega
    | some body =>
      have hless := Instr.size_opened hi
      show sizeOfOpen (body :: ⟨rest, alternate⟩ :: outer) < _
      rw [sizeOfOpen_cons, sizeOfOpen_cons, sizeOfOpen_cons, hstep]
      omega

theorem state_of_turn_none {bodies : List OpenBody} {s s' : CheckState}
    (h : turn c bodies s = .ok (none, s')) : s' = s := by
  match bodies with
  | [] | [⟨[], _⟩] => cases h; rfl
  | ⟨[], alternate⟩ :: b :: outer =>
    obtain ⟨⟨⟩, s₁, hend, hrest⟩ := bind_eq_ok_iff.mp h
    cases hrest
  | ⟨i :: rest, alternate⟩ :: outer =>
    obtain ⟨⟨⟩, s₁, hinstr, hrest⟩ := bind_eq_ok_iff.mp h
    cases hrest

/-- **Every walk comes to a last point**, where a turn fails or no more turns are left. -/
theorem exists_last (c : BodyContext) (p : Point) :
    ∃ q, ReflTransGen (Turn c) p q ∧
      ((∃ e, turn c q.bodies q.state = .error e ∧ walk c p.bodies p.state = .error e) ∨
       (turn c q.bodies q.state = .ok (none, q.state) ∧ walk c p.bodies p.state = .ok ((), q.state))) := by
  rw [walk_eq_turn]
  cases hturn : turn c p.bodies p.state with
  | error e => exact ⟨p, .refl, .inl ⟨e, hturn, bind_of_error hturn⟩⟩
  | ok r =>
    rw [bind_of_ok hturn]
    obtain ⟨_ | bodies, s⟩ := r
    · obtain rfl := state_of_turn_none hturn
      exact ⟨p, .refl, .inr ⟨hturn, rfl⟩⟩
    · have hnext : Turn c p ⟨bodies, s⟩ := hturn
      obtain ⟨q, hrun, hlast⟩ := exists_last c ⟨bodies, s⟩
      exact ⟨q, .head hnext hrun, hlast⟩
termination_by sizeOfOpen p.bodies
decreasing_by exact hnext.shrinks

/-- The first point of the check of a body: nothing but the block of the whole body is open. -/
def Point.first (kind : FrameKind) (results : List ValType) (is : Expr) : Point :=
  ⟨[⟨is, none⟩], CheckState.initial.opened kind results⟩

/-- **The points of the check of a body.** -/
def Visits (c : BodyContext) (kind : FrameKind) (results : List ValType) (is : Expr) : Point → Prop :=
  ReflTransGen (Turn c) (.first kind results is)

variable {kind : FrameKind} {results : List ValType} {is : Expr}

theorem inOrder_first (kind : FrameKind) (results : List ValType) (is : Expr) :
    (Point.first kind results is).InOrder where
  steady := ⟨List.cons_ne_nil _ _, List.pairwise_singleton _ _, Nat.le_refl _⟩
  paired := rfl

/-- **All points of a check are in order.** -/
theorem Visits.inOrder (h : Visits c kind results is p) : p.InOrder := by
  induction h with
  | refl => exact inOrder_first kind results is
  | tail _ hturn ih => exact ih.turn hturn

/-- A check is a walk in a block of its own, which is closed after it. -/
theorem body_eq (c : BodyContext) (kind : FrameKind) (results : List ValType) (is : Expr) :
    body c kind results is .initial =
      ((do walk c [⟨is, none⟩]; popFrame : Check CtrlFrame) (CheckState.initial.opened kind results)).map
        fun r => ((), r.2) := by
  rw [body, bind_of_ok (pushFrame_apply kind results .initial), ← bind_assoc]
  cases hrun : (do walk c [⟨is, none⟩]; popFrame : Check CtrlFrame)
      (CheckState.initial.opened kind results) with
  | error e => rw [bind_of_error hrun]; rfl
  | ok r => rw [bind_of_ok hrun]; rfl

/-- **The outcome of a check** is that of the turn after its last point, or of closing the outermost block
    there. -/
theorem exists_outcome (c : BodyContext) (kind : FrameKind) (results : List ValType) (is : Expr) :
    ∃ p, Visits c kind results is p ∧
      ((∃ e, turn c p.bodies p.state = .error e ∧ body c kind results is .initial = .error e) ∨
       (turn c p.bodies p.state = .ok (none, p.state) ∧
        body c kind results is .initial = (popFrame p.state).map fun r => ((), r.2))) := by
  obtain ⟨p, hvisits, ⟨e, hturn, hwalk⟩ | ⟨hturn, hwalk⟩⟩ := exists_last c (.first kind results is)
  · refine ⟨p, hvisits, .inl ⟨e, hturn, ?_⟩⟩
    replace hwalk : walk c [⟨is, none⟩] (CheckState.initial.opened kind results) = .error e := hwalk
    rw [body_eq, bind_of_error hwalk]
    rfl
  · refine ⟨p, hvisits, .inr ⟨hturn, ?_⟩⟩
    replace hwalk : walk c [⟨is, none⟩] (CheckState.initial.opened kind results) =
      .ok ((), p.state) := hwalk
    rw [body_eq, bind_of_ok hwalk]

/-- **No check goes wrong with the stacks.** -/
theorem orderly_of_body {e : ValidationError}
    (h : ((body c kind results is .initial).map fun _ => ()) = .error e) : e.Orderly := by
  obtain ⟨p, hvisits, ⟨e', hturn, hbody⟩ | ⟨-, hbody⟩⟩ := exists_outcome c kind results is
  · rw [hbody] at h
    cases h
    exact orderly_of_turn hvisits.inOrder.steady hturn
  · rw [hbody] at h
    cases hclose : popFrame p.state with
    | error e' =>
      rw [hclose] at h
      cases h
      exact orderly_of_popFrame hvisits.inOrder.steady hclose
    | ok r => rw [hclose] at h; cases h

/-! ## Where blocks are entered -/

/-- **A turn enters a block**: there is one more, or the block of the other arm in place of that of the
    first. -/
def Enters (c : BodyContext) (p q : Point) : Prop :=
  Turn c p q ∧ (p.depth < q.depth ∨ p.depth = q.depth ∧ p.AtEnd)

/-- **The point where the innermost block was entered.** -/
def Entry (c : BodyContext) (kind : FrameKind) (results : List ValType) (is : Expr) (p : Point) : Prop :=
  p = .first kind results is ∨ ∃ r, Visits c kind results is r ∧ Enters c r p

theorem Change.depth_le (h : Change p q) : q.depth ≤ p.depth + 1 := by
  rw [Point.depth, Point.depth]
  cases h with
  | stays _ _ hsame => exact Nat.le_succ_of_le (Nat.le_of_eq hsame.length_eq)
  | opens _ _ _ hsame hstate =>
    have hlength : q.state.frames.length = p.state.frames.length + 1 := by
      rw [hstate, length_opened, hsame.length_eq]
    exact Nat.le_of_eq hlength
  | closes _ _ _ hclose hstate =>
    rw [hstate, length_of_popFrame hclose]
    exact Nat.le_add_right _ 2
  | alternates _ _ _ _ _ hclose hstate =>
    rw [hstate, length_opened, length_of_popFrame hclose]
    exact Nat.le_add_right _ 1

/-- The floor of a block that has just been entered is all the operands that there are. -/
theorem Enters.height_eq (hp : p.state.Steady) (h : Enters c p q) :
    q.state.operands.height = q.state.floor := by
  obtain ⟨hturn, hnew⟩ := h
  rw [Point.depth, Point.depth] at hnew
  cases hturn.change hp with
  | stays hrest _ hsame =>
    rcases hnew with hmore | ⟨-, hend⟩
    · rw [hsame.length_eq] at hmore
      exact absurd hmore (Nat.lt_irrefl _)
    · exact absurd hend hrest
  | opens _ _ _ _ hstate => rw [hstate]; rfl
  | closes _ _ _ hclose hstate =>
    have hlength := length_of_popFrame hclose
    rw [hstate] at hnew
    dsimp only at hnew
    omega
  | alternates _ _ _ _ _ _ hstate => rw [hstate]; rfl

theorem Entry.visits (h : Entry c kind results is p) : Visits c kind results is p := by
  rcases h with rfl | ⟨r, hr, hturn, -⟩
  · exact .refl
  · exact hr.tail hturn

theorem Entry.height_eq (h : Entry c kind results is p) : p.state.operands.height = p.state.floor := by
  rcases h with rfl | ⟨r, hr, henters⟩
  · rfl
  · exact henters.height_eq hr.inOrder.steady

/-- **Every open block has been entered somewhere**, and has been open since. -/
theorem exists_entry (hq : Visits c kind results is q) {n : Nat} (hpos : 0 < n) (hn : n ≤ q.depth) :
    ∃ p, Entry c kind results is p ∧ p.depth = n ∧ Within c n p q := by
  induction hq with
  | refl => exact ⟨_, .inl rfl, Nat.le_antisymm hpos hn, .refl⟩
  | @tail r q hr hturn ih =>
    by_cases hnew : n = q.depth ∧ (r.depth < q.depth ∨ r.depth = q.depth ∧ r.AtEnd)
    · exact ⟨q, .inr ⟨r, hr, hturn, hnew.2⟩, hnew.1.symm, .refl⟩
    · -- the block has been open at the point before
      have hdepth := (hturn.change (Visits.inOrder hr).steady).depth_le
      have hbefore : n ≤ r.depth := by
        by_contra hless
        exact hnew ⟨by omega, .inl (by omega)⟩
      obtain ⟨p, hentry, hp, hwithin⟩ := ih hbefore
      exact ⟨p, hentry, hp, hwithin.tail ⟨hturn, hn⟩⟩

/-- **A block rests on the operands that it was entered with.** -/
theorem Entry.rests (hp : Entry c kind results is p) (h : Within c p.depth p q) :
    p.state.heights <:+ q.state.heights ∧
      q.state.operands.lower p.state.operands.height = p.state.operands := by
  have hrests := Rests.within hp.visits.inOrder h
  refine ⟨hrests.heights, ?_⟩
  rw [hp.height_eq, hrests.below, ← hp.height_eq, Stack.lower_of_le (Nat.le_refl _)]

/-- **A block leaves the operands that it was entered with.** -/
theorem Entry.closed {frame : CtrlFrame} {s : CheckState} (hp : Entry c kind results is p)
    (h : Within c p.depth p q) (hdepth : p.depth = q.depth) (hclose : popFrame q.state = .ok (frame, s)) :
    s.operands = p.state.operands ∧ frame.height = p.state.operands.height := by
  have hq := (hp.visits.inOrder.within h).steady
  obtain ⟨hheights, hbelow⟩ := hp.rests h
  have hsame : p.state.heights = q.state.heights := by
    refine hheights.eq_of_length ?_
    rw [length_heights, length_heights]
    exact hdepth
  have hfloor : q.state.floor = p.state.operands.height := by
    rw [hp.height_eq, floor, floor, hsame]
  constructor
  · rw [operands_of_popFrame hq hclose, hfloor, hbelow]
  · rw [← hfloor, floor, heights_of_popFrame hclose]
    rfl

/-! ## Functions and constant expressions -/

/-- **The discipline of the checker's stacks**, for a body that is checked in a block of its own and for the
    verdict about it. -/
structure StackDiscipline (c : BodyContext) (kind : FrameKind) (results : List ValType) (is : Expr)
    (verdict : Except ValidationError Unit) : Prop where
  /-- The walk repeats a turn. -/
  repeats : ∀ bodies, walk c bodies = turn c bodies >>= walkOn c
  /-- So the check goes from point to point; the verdict is what comes of the turn after the last one, or of
      closing the outermost block there. -/
  outcome : ∃ p, Visits c kind results is p ∧
    ((∃ e, turn c p.bodies p.state = .error e ∧ verdict = .error e) ∨
     (turn c p.bodies p.state = .ok (none, p.state) ∧ verdict = (popFrame p.state).map fun _ => ()))
  /-- **At every point** some block is open, -/
  nonempty : ∀ {p}, Visits c kind results is p → p.state.frames ≠ []
  /-- exactly one for each body that is being walked, -/
  paired : ∀ {p}, Visits c kind results is p → p.state.frames.length = p.bodies.length
  /-- blocks further in were opened with no fewer operands, -/
  heights : ∀ {p}, Visits c kind results is p → p.state.heights.Pairwise (· ≥ ·)
  /-- and there are no fewer operands than when the innermost one was opened. -/
  operands : ∀ {p}, Visits c kind results is p → p.state.floor ≤ p.state.operands.height
  /-- Between two points an instruction moves operands of the innermost block, and may open one at last, -/
  instructions : ∀ i, (i.opened = none → IsLocal (instr c i)) ∧
    ∀ body, i.opened = some body → ∃ before kind results, IsLocal before ∧
      instr c i = (do before; pushFrame kind results : Check Unit)
  /-- and however far such moves have come, the open blocks and all operands below the innermost one are
      as they were at the point; nor would it be otherwise if those operands were not there. -/
  inside : ∀ {p}, Visits c kind results is p → ∀ {α : Type} {m : Check α}, IsLocal m →
    (∀ a s, m p.state = .ok (a, s) → s.Steady ∧ p.state.SameBelow s) ∧
    m (p.state.above p.state.floor) = seen p.state.floor (m p.state)
  /-- The end of a body pops its results, which are such moves, and closes its block. What is left then is
      in order for the bodies around it. -/
  closing : (∀ types, IsLocal (popAll types)) ∧
    ∀ {p}, Visits c kind results is p → 2 ≤ p.depth → ∀ frame s, popFrame p.state = .ok (frame, s) →
      s.Steady ∧ s.frames.length = p.bodies.tail.length
  /-- **Until a block is closed, all operands below it stay** as they are, -/
  below : ∀ {p q}, Visits c kind results is p → Within c p.depth p q →
    q.state.operands.lower p.state.floor = p.state.operands.lower p.state.floor
  /-- and none is ever popped: with these operands taken away, the same turns lead to the same points, and
      to the same errors. -/
  unseen : ∀ {p q}, Visits c kind results is p → Within c p.depth p q →
    Within c p.depth (p.above p.state.floor) (q.above p.state.floor) ∧
    turn c q.bodies (q.state.above p.state.floor) = seen p.state.floor (turn c q.bodies q.state)
  /-- Every open block was entered at some point, where all operands were below it, and rests on them. -/
  entered : ∀ {q}, Visits c kind results is q → ∀ {n}, 0 < n → n ≤ q.depth →
    ∃ p, Entry c kind results is p ∧ p.depth = n ∧ Within c n p q ∧
      p.state.operands.height = p.state.floor ∧ p.state.heights <:+ q.state.heights ∧
      q.state.operands.lower p.state.operands.height = p.state.operands
  /-- **A block that is closed leaves the operands that it was entered with**, and so as many. -/
  closed : ∀ {q frame s}, Visits c kind results is q → popFrame q.state = .ok (frame, s) →
    ∃ p, Entry c kind results is p ∧ p.depth = q.depth ∧ Within c q.depth p q ∧
      frame.height = p.state.operands.height ∧ s.operands = p.state.operands
  /-- Where the operands that are left over are counted, there are no fewer than below the block, -/
  counted : ∀ {p frame outer s}, Visits c kind results is p → p.state.frames = frame :: outer →
    popAll frame.results p.state = .ok ((), s) → frame.height ≤ s.operands.height
  /-- so that the number of them is positive, -/
  leftover : ∀ {count}, verdict = .error (.operandsLeft count) → 0 < count
  /-- and it is never the verdict that no block is open. -/
  neverEmpty : verdict ≠ .error .blockUnderflow

/-- **Every check keeps the discipline.** -/
theorem stackDiscipline_body (c : BodyContext) (kind : FrameKind) (results : List ValType) (is : Expr) :
    StackDiscipline c kind results is ((body c kind results is .initial).map fun _ => ()) where
  repeats := walk_eq_turn c
  outcome := by
    obtain ⟨p, hvisits, ⟨e, hturn, hbody⟩ | ⟨hturn, hbody⟩⟩ := exists_outcome c kind results is
    · exact ⟨p, hvisits, .inl ⟨e, hturn, by rw [hbody]; rfl⟩⟩
    · refine ⟨p, hvisits, .inr ⟨hturn, ?_⟩⟩
      rw [hbody]
      cases popFrame p.state <;> rfl
  nonempty hp := hp.inOrder.steady.nonempty
  paired hp := hp.inOrder.paired
  heights hp := hp.inOrder.steady.heights
  operands hp := hp.inOrder.steady.floor_le
  instructions i := ⟨fun hi => isLocal_instr hi, fun _ hi => instr_opens c hi⟩
  inside hp _ _ hm := by
    have hs := hp.inOrder.steady
    refine ⟨fun a s hrun => ?_, hm.above hs (Nat.le_refl _)⟩
    have hsame := hm.sameBelow hs hrun
    exact ⟨hsame.steady hs, hsame⟩
  closing := by
    refine ⟨isLocal_popAll, fun {p} hp hmore frame s hclose => ?_⟩
    have hlength := length_of_popFrame hclose
    have hpaired := hp.inOrder.paired
    refine ⟨steady_of_popFrame hp.inOrder.steady hclose hmore, ?_⟩
    rw [List.length_tail]
    omega
  below hp hq := (Rests.within hp.inOrder hq).below
  unseen hp hq := by
    have hq' := (hp.inOrder.within hq).steady
    have hfloor := (Rests.within hp.inOrder hq).floor_le hp.inOrder.steady hq'
    exact ⟨hq.above hp.inOrder, turn_above _ hq' hfloor⟩
  entered hq _ hpos hn := by
    obtain ⟨p, hentry, rfl, hwithin⟩ := exists_entry hq hpos hn
    obtain ⟨hheights, hbelow⟩ := hentry.rests hwithin
    exact ⟨p, hentry, rfl, hwithin, hentry.height_eq, hheights, hbelow⟩
  closed {q} frame s hq hclose := by
    have hpos : 0 < q.depth := List.length_pos_of_ne_nil hq.inOrder.steady.nonempty
    obtain ⟨p, hentry, hdepth, hwithin⟩ := exists_entry hq hpos (Nat.le_refl _)
    obtain ⟨hoperands, hheight⟩ := hentry.closed (hdepth ▸ hwithin) hdepth hclose
    exact ⟨p, hentry, hdepth, hwithin, hheight, hoperands⟩
  counted hp hframes hpop := floor_of_frames hframes ▸ floor_le_of_popAll hp.inOrder.steady hpop
  leftover h := orderly_of_body h
  neverEmpty h := orderly_of_body h

end Check

open Check

/-- **The checker keeps its stacks in order**, whatever the context, the locals, the results and the body of
    a function are, and whatever constant expression it is given. -/
theorem checks_disciplined (c : Context) :
    (∀ locals results is, StackDiscipline { toContext := c, locals := locals.toArray } .func results is
      (checkFunc c locals results is)) ∧
    ∀ visible type is, StackDiscipline { toContext := c, visibleGlobals := visible } .constant [type] is
      (checkConstant c visible type is) := by
  have hverdict : ∀ r : Except ValidationError (Unit × CheckState),
      (do let _ ← r) = r.map fun _ => () := by
    intro r
    cases r <;> rfl
  constructor
  · intro locals results is
    rw [checkFunc, hverdict]
    exact stackDiscipline_body _ _ _ _
  · intro visible type is
    rw [checkConstant, hverdict]
    exact stackDiscipline_body _ _ _ _

end WasmCore
