import WasmCore.Proofs.Typing.Constants
import WasmCore.Proofs.Typing.Locality

/-!
# `Typing.Descent` — the walk over open bodies is a descent into them

`Check.walk` keeps the bodies that are open on a list, and where one of them ends it asks the control
frame what is to be done. A checker that calls itself needs neither: it opens a block, checks the body,
closes the block, and goes on by the type that the instruction has written on it. Both come to the same,
errors and all, because the control frame that stands innermost where a body ends is the one that was
opened for it: what is checked in between leaves the open blocks as they are.

* `CheckState.blocks`, `KeepsBlocks`: moves that leave the open blocks as they are;
* `IsLocal.keepsBlocks`, `keepsBlocks_instr`, `keepsBlocks_within`: **one instruction**, and **one block**;
* `descend`, `descendAll`: the recursive checker;
* `endBody_within`: the end of a body, told from the control frame or from the instruction;
* `visit_eq_descend`, `walk_eq_descendAll`: **the walk is the descent.**
-/

namespace WasmCore

/-- The open blocks, the innermost first: what opened each of them, what it leaves behind, and how many
    operands there were. Whether its end can be reached is left out. -/
def CheckState.blocks (s : CheckState) : List (FrameKind × List ValType × Nat) :=
  s.frames.map fun f => (f.kind, f.results, f.height)

namespace Check

variable {α β : Type} {c : BodyContext}

/-! ## Moves and open blocks -/

/-- **A move leaves the open blocks as they are**, if it succeeds. -/
def KeepsBlocks (m : Check α) : Prop := ∀ ⦃s a s'⦄, m s = .ok (a, s') → s'.blocks = s.blocks

namespace KeepsBlocks

protected theorem pure (a : α) : KeepsBlocks (pure a : Check α) := by
  intro s a s' h
  cases h
  rfl

protected theorem throw (e : ValidationError) : KeepsBlocks (throw e : Check α) := by
  intro s a s' h
  cases h

protected theorem get : KeepsBlocks (get : Check CheckState) := by
  intro s a s' h
  cases h
  rfl

/-- A look-up changes nothing. -/
protected theorem lift (x : Except ValidationError α) : KeepsBlocks (liftM x : Check α) := by
  intro s a s' h
  obtain ⟨-, rfl⟩ := lift_eq_ok h
  rfl

/-- **Moves in sequence.** -/
protected theorem bind {m : Check α} {f : α → Check β} (hm : KeepsBlocks m)
    (hf : ∀ a, KeepsBlocks (f a)) : KeepsBlocks (m >>= f) := by
  intro s b s' h
  obtain ⟨a, s₁, h₁, h₂⟩ := bind_eq_ok_iff.mp h
  rw [hf a h₂, hm h₁]

protected theorem ite {p : Prop} [Decidable p] {m n : Check α} (hm : KeepsBlocks m)
    (hn : KeepsBlocks n) : KeepsBlocks (if p then m else n) := by
  split
  · exact hm
  · exact hn

end KeepsBlocks

/-- The innermost block is looked up, and nothing changes. -/
theorem innermost_eq_ok {s s' : CheckState} {frame : CtrlFrame}
    (h : innermost s = .ok (frame, s')) : s' = s ∧ ∃ outer, s.frames = frame :: outer := by
  unfold innermost at h
  rw [bind_of_ok (get_apply s)] at h
  cases hframes : s.frames with
  | nil => rw [hframes] at h; cases h
  | cons f outer =>
    rw [hframes] at h
    cases h
    exact ⟨rfl, outer, rfl⟩

theorem keepsBlocks_pushOperands (ts : List OperandType) : KeepsBlocks (pushOperands ts) := by
  intro s a s' h
  cases h
  rfl

theorem keepsBlocks_pushOperand (t : OperandType) : KeepsBlocks (pushOperand t) := by
  intro s a s' h
  cases h
  rfl

theorem keepsBlocks_popOperand (t : OperandType) : KeepsBlocks (popOperand t) := by
  intro s found s' h
  obtain ⟨frame, s₁, hframe, hpop⟩ := bind_eq_ok_iff.mp h
  obtain rfl : s₁ = s := (innermost_eq_ok hframe).1
  rw [bind_of_ok (get_apply s₁)] at hpop
  by_cases hheight : s₁.operands.height = frame.height
  · rw [if_pos hheight] at hpop
    exact KeepsBlocks.ite (.pure t) (.throw _) hpop
  · rw [if_neg hheight] at hpop
    cases htop : s₁.operands.pop? with
    | none => rw [htop] at hpop; cases hpop
    | some p =>
      -- the operand is gone before its type is looked at
      rw [htop] at hpop
      obtain ⟨⟨⟩, s₂, hset, htype⟩ := bind_eq_ok_iff.mp hpop
      cases hset
      have hkept := KeepsBlocks.ite (.throw _) (.ite (.pure _) (.pure _)) htype
      exact hkept

theorem keepsBlocks_unreachable : KeepsBlocks unreachable := by
  intro s a s' h
  unfold unreachable at h
  rw [bind_of_ok (get_apply s)] at h
  cases hframes : s.frames with
  | nil => rw [hframes] at h; cases h
  | cons frame outer =>
    rw [hframes] at h
    cases h
    rw [CheckState.blocks, CheckState.blocks, hframes]
    rfl

theorem keepsBlocks_labelTypes (l : LabelIdx) : KeepsBlocks (labelTypes l) := by
  refine .bind .get fun s => ?_
  split
  · exact .pure _
  · exact .throw _

/-- **What stays inside of a block** leaves the open blocks as they are. -/
theorem IsLocal.keepsBlocks {m : Check α} (h : IsLocal m) : KeepsBlocks m := by
  induction h with
  | pure a => exact .pure a
  | refuse _ => exact .throw _
  | lookUp _ => exact .lift _
  | labelTypes l => exact keepsBlocks_labelTypes l
  | outermost _ ih =>
    refine .bind .get fun s => ?_
    split
    · exact .throw _
    · exact ih _
  | inConstant _ _ ihm ihn => exact .bind .get fun _ => .ite ihm ihn
  | pushOperand t => exact keepsBlocks_pushOperand t
  | pushOperands ts => exact keepsBlocks_pushOperands ts
  | popOperand t => exact keepsBlocks_popOperand t
  | unreachable => exact keepsBlocks_unreachable
  | bind _ _ ihm ihf => exact .bind ihm ihf

/-- **An instruction without bodies** leaves the open blocks as they are. -/
theorem keepsBlocks_instr {i : Instr} (hi : i.opened = none) : KeepsBlocks (instr c i) :=
  (isLocal_instr hi).keepsBlocks

/-! ## Blocks -/

/-- What is closed is the innermost block. -/
theorem popFrame_eq_ok {s s' : CheckState} {frame : CtrlFrame} (h : popFrame s = .ok (frame, s')) :
    s.blocks = (frame.kind, frame.results, frame.height) :: s'.blocks := by
  obtain ⟨f, s₁, hframe, hrest⟩ := bind_eq_ok_iff.mp h
  obtain ⟨rfl, outer, hframes⟩ := innermost_eq_ok hframe
  obtain ⟨⟨⟩, s₂, hpop, hclose⟩ := bind_eq_ok_iff.mp hrest
  have hkept := (isLocal_popAll _).keepsBlocks hpop
  rw [bind_of_ok (get_apply s₂)] at hclose
  split at hclose
  · cases hclose
  · cases hclose
    have hfirst : s₁.blocks = (frame.kind, frame.results, frame.height) ::
        outer.map fun f => (f.kind, f.results, f.height) := by
      rw [CheckState.blocks, hframes, List.map_cons]
    have htail : s₂.blocks.tail = ({ s₂ with frames := s₂.frames.tail } : CheckState).blocks := by
      simp only [CheckState.blocks, List.map_tail]
    rw [← htail, hkept, hfirst, List.tail_cons]

/-- **A block is closed by the end of its body**, and those around it are as they were. -/
theorem keepsBlocks_within {m : Check Unit} (hm : KeepsBlocks m) (kind : FrameKind)
    (results : List ValType) : KeepsBlocks (within kind results m) := by
  intro s frame s' h
  obtain ⟨⟨⟩, s₁, hpush, hrest⟩ := bind_eq_ok_iff.mp h
  obtain ⟨⟨⟩, s₂, hbody, hclose⟩ := bind_eq_ok_iff.mp hrest
  cases hpush
  have hinner := popFrame_eq_ok hclose
  rw [hm hbody] at hinner
  exact (List.tail_eq_of_cons_eq hinner).symm

/-- The control frame of a block says at the end of its body what it said at the beginning. -/
theorem within_eq_ok {m : Check Unit} (hm : KeepsBlocks m) {kind : FrameKind}
    {results : List ValType} {s s' : CheckState} {frame : CtrlFrame}
    (h : within kind results m s = .ok (frame, s')) : frame.kind = kind ∧ frame.results = results := by
  obtain ⟨⟨⟩, s₁, hpush, hrest⟩ := bind_eq_ok_iff.mp h
  obtain ⟨⟨⟩, s₂, hbody, hclose⟩ := bind_eq_ok_iff.mp hrest
  cases hpush
  have hinner := popFrame_eq_ok hclose
  rw [hm hbody] at hinner
  have hframe := List.head_eq_of_cons_eq hinner
  exact ⟨(congrArg Prod.fst hframe).symm, (congrArg (fun p => p.2.1) hframe).symm⟩

/-! ## The recursive checker -/

/-- A structured instruction has no place in a constant expression. -/
def outsideConstant (i : Instr) : Check Unit := do
  if (← get).frames.head?.any (·.kind = .constant) then
    throw (.notConstant i)

mutual

/-- **Checks an instruction by descending into its bodies.** What a block leaves behind is what its type
    says. A conditional with one arm cannot leave anything; that is looked at after the arm. -/
def descend (c : BodyContext) : Instr → Check Unit
  | .block t body => do
    outsideConstant (.block t body)
    let _ ← within .block t.results (descendAll c body)
    pushAll t.results
  | .loop t body => do
    outsideConstant (.loop t body)
    let _ ← within .loop t.results (descendAll c body)
    pushAll t.results
  | .ifThen t body => do
    outsideConstant (.ifThen t body)
    pop .i32
    let _ ← within .ifThen t.results (descendAll c body)
    if t.results ≠ [] then
      throw .elseRequired
  | .ifElse t body alternate => do
    outsideConstant (.ifElse t body alternate)
    pop .i32
    let _ ← within .ifThen t.results (descendAll c body)
    let _ ← within .elseArm t.results (descendAll c alternate)
    pushAll t.results
  | i => instr c i

/-- Checks a sequence of instructions, one after the other. -/
def descendAll (c : BodyContext) : List Instr → Check Unit
  | [] => return ()
  | i :: is => do
    descend c i
    descendAll c is

end

theorem keepsBlocks_outsideConstant (i : Instr) : KeepsBlocks (outsideConstant i) :=
  .bind .get fun _ => .ite (.throw _) (.pure ())

mutual

/-- **What is checked by a descent** leaves the open blocks as they are. -/
theorem keepsBlocks_descend (c : BodyContext) (i : Instr) : KeepsBlocks (descend c i) := by
  cases i with
  | block t body | loop t body =>
    rw [descend]
    exact .bind (keepsBlocks_outsideConstant _) fun _ =>
      .bind (keepsBlocks_within (keepsBlocks_descendAll c body) _ _) fun _ => keepsBlocks_pushOperands _
  | ifThen t body =>
    rw [descend]
    exact .bind (keepsBlocks_outsideConstant _) fun _ => .bind (isLocal_pop _).keepsBlocks fun _ =>
      .bind (keepsBlocks_within (keepsBlocks_descendAll c body) _ _) fun _ => .ite (.throw _) (.pure ())
  | ifElse t body alternate =>
    rw [descend]
    exact .bind (keepsBlocks_outsideConstant _) fun _ => .bind (isLocal_pop _).keepsBlocks fun _ =>
      .bind (keepsBlocks_within (keepsBlocks_descendAll c body) _ _) fun _ =>
      .bind (keepsBlocks_within (keepsBlocks_descendAll c alternate) _ _) fun _ =>
      keepsBlocks_pushOperands _
  | _ =>
    simp only [descend]
    exact keepsBlocks_instr rfl

theorem keepsBlocks_descendAll (c : BodyContext) (is : List Instr) :
    KeepsBlocks (descendAll c is) := by
  cases is with
  | nil => rw [descendAll]; exact .pure ()
  | cons i is =>
    rw [descendAll]
    exact .bind (keepsBlocks_descend c i) fun _ => keepsBlocks_descendAll c is

end

/-! ## The walk and the descent -/

/-- What the end of a body asks for, by what opened its block and by what the block leaves behind. -/
def ending (kind : FrameKind) (results : List ValType) : Option (List Instr) → Check Unit
  | some _ => pushFrame .elseArm results
  | none => if kind = .ifThen ∧ results ≠ [] then throw .elseRequired else pushAll results

/-- **The end of a body.** What the control frame says there is what the instruction says that opened the
    block. -/
theorem endBody_within {m : Check Unit} (hm : KeepsBlocks m) (kind : FrameKind)
    (results : List ValType) (alternate : Option (List Instr)) :
    (do pushFrame kind results; m; endBody alternate) =
      (do let _ ← within kind results m; ending kind results alternate) := by
  have hend : (do pushFrame kind results; m; endBody alternate) =
      (do let frame ← within kind results m; ending frame.kind frame.results alternate) := by
    cases alternate <;> simp only [within, endBody, ending, bind_assoc]
  rw [hend]
  funext s
  cases hrun : within kind results m s with
  | error e => rw [bind_of_error hrun, bind_of_error hrun]
  | ok p =>
    obtain ⟨hkind, hresults⟩ := within_eq_ok hm hrun
    rw [bind_of_ok hrun, bind_of_ok hrun, hkind, hresults]

/-- A structured instruction is checked by its rule, but not in a constant expression. -/
theorem instr_of_opened {i : Instr} {body : OpenBody} (hi : i.opened = some body) :
    instr c i = (do outsideConstant i; rule c i) := by
  have hconstant : constantOnly c i = throw (.notConstant i) := by
    cases i <;> first | rfl | cases hi
  funext s
  unfold instr outsideConstant
  rw [bind_assoc, bind_of_ok (get_apply s), bind_of_ok (get_apply s), hconstant]
  split <;> rfl

/-- A block, from its opening to what its end asks for. -/
theorem open_visit_end (c : BodyContext) {i : Instr} {body : OpenBody} (hi : i.opened = some body)
    (before : Check Unit) {kind : FrameKind} {results : List ValType}
    (hrule : rule c i = (do before; pushFrame kind results)) {m : Check Unit} (hm : KeepsBlocks m)
    (alternate : Option (List Instr)) :
    (do instr c i; m; endBody alternate) =
      (do outsideConstant i; before
          let _ ← within kind results m
          ending kind results alternate) := by
  rw [instr_of_opened hi, hrule, ← endBody_within hm]
  simp only [bind_assoc]

/-- A conditional with one arm leaves nothing. -/
theorem ending_ifThen (t : BlockType) :
    ending .ifThen t.results none = if t.results ≠ [] then throw .elseRequired else return () := by
  cases t with
  | value t => rfl
  | empty =>
    funext s
    have hnone : s.operands.pushAll [] = s.operands := Stack.ext rfl
    show Except.ok ((), { s with operands := s.operands.pushAll [] }) = .ok ((), s)
    rw [hnone]

mutual

/-- **One instruction**, with the bodies inside it. -/
theorem visit_eq_descend (c : BodyContext) (i : Instr) : visit c i = descend c i := by
  cases i with
  | block t body =>
    have hm := keepsBlocks_descendAll c body
    rw [visit, descend, visitAll_eq_descendAll c body,
      open_visit_end c rfl (pure ()) rfl hm none]
    rfl
  | loop t body =>
    have hm := keepsBlocks_descendAll c body
    rw [visit, descend, visitAll_eq_descendAll c body,
      open_visit_end c rfl (pure ()) rfl hm none]
    rfl
  | ifThen t body =>
    have hm := keepsBlocks_descendAll c body
    rw [visit, descend, visitAll_eq_descendAll c body, open_visit_end c rfl (pop .i32) rfl hm none,
      ending_ifThen]
  | ifElse t body alternate =>
    have hfirst := open_visit_end c (i := .ifElse t body alternate) rfl (pop .i32) rfl
      (keepsBlocks_descendAll c body) (some alternate)
    have hsecond := endBody_within (keepsBlocks_descendAll c alternate) .elseArm t.results none
    calc visit c (.ifElse t body alternate)
      _ = (do (do instr c (.ifElse t body alternate); descendAll c body; endBody (some alternate))
              descendAll c alternate; endBody none) := by
        simp only [visit, visitAll_eq_descendAll c body, visitAll_eq_descendAll c alternate, bind_assoc]
      _ = (do outsideConstant (.ifElse t body alternate); pop .i32
              let _ ← within .ifThen t.results (descendAll c body)
              (do pushFrame .elseArm t.results; descendAll c alternate; endBody none)) := by
        rw [hfirst]
        simp only [ending, bind_assoc]
      _ = descend c (.ifElse t body alternate) := by
        rw [hsecond, descend]
        rfl
  | _ => simp only [visit, descend]

/-- **A sequence**, one instruction after the other. -/
theorem visitAll_eq_descendAll (c : BodyContext) (is : List Instr) :
    visitAll c is = descendAll c is := by
  cases is with
  | nil => rw [visitAll, descendAll]
  | cons i is => rw [visitAll, descendAll, visit_eq_descend c i, visitAll_eq_descendAll c is]

end

/-- **The walk over open bodies is the descent into them.** Whatever the context, the body and the state
    in which the walk begins, it leaves the same operands and control frames, or stops with the same
    error. So functions and constant expressions, whose bodies are walked in a frame of their own, are
    checked as by the descent. -/
theorem walk_eq_descendAll (c : BodyContext) (is : List Instr) :
    walk c [⟨is, none⟩] = descendAll c is ∧
    ∀ kind results, body c kind results is =
      (do let _ ← within kind results (descendAll c is)) := by
  have hwalk : walk c [⟨is, none⟩] = descendAll c is := by
    rw [walk_single, visitAll_eq_descendAll]
  refine ⟨hwalk, fun kind results => ?_⟩
  simp only [body, within, hwalk, bind_assoc]

end Check

end WasmCore
