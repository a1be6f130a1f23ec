import WasmCore.Proofs.Typing.Recursive

/-!
# `Typing.Locality` — what the rule of an instruction is made of

The checker has few ways to touch its state. Inside of a block it pushes operands, pops one operand after
the other, forgets the operands of the block, and looks things up; every rule is a sequence of such moves.
Blocks are opened as the last thing that the rule of a structured instruction does, and closed by the end of
a body alone. So what all these moves have in common, all rules have.

* `ValidationError.aboutBlocks`: the errors that no rule gives;
* `IsLocal`: **the moves inside of a block**, and sequences of them;
* `isLocal_rule`, `isLocal_instr`: **an instruction without bodies** is such a sequence.
-/

namespace WasmCore

/-- Whether an error is about the open blocks as such: there is none, or one leaves too much behind. -/
def ValidationError.aboutBlocks : ValidationError → Bool
  | blockUnderflow | operandsLeft _ => true
  | _ => false

/-! ## Look-ups -/

section LookUps

variable {c : Context} {e : ValidationError}

theorem aboutBlocks_of_typeAt {t : TypeIdx} (h : c.typeAt t = .error e) : e.aboutBlocks = false := by
  unfold Context.typeAt at h
  split at h <;> cases h
  rfl

theorem aboutBlocks_of_funcType {f : FuncIdx} (h : c.funcType f = .error e) :
    e.aboutBlocks = false := by
  unfold Context.funcType at h
  split at h
  · exact aboutBlocks_of_typeAt h
  · cases h
    rfl

theorem aboutBlocks_of_globalType {g : GlobalIdx} (h : c.globalType g = .error e) :
    e.aboutBlocks = false := by
  unfold Context.globalType at h
  split at h <;> cases h
  rfl

theorem aboutBlocks_of_requireTable {t : TableIdx} (h : c.requireTable t = .error e) :
    e.aboutBlocks = false := by
  unfold Context.requireTable at h
  split at h <;> cases h
  rfl

theorem aboutBlocks_of_requireMemory {m : MemIdx} (h : c.requireMemory m = .error e) :
    e.aboutBlocks = false := by
  unfold Context.requireMemory at h
  split at h <;> cases h
  rfl

theorem aboutBlocks_of_localType {c : BodyContext} {x : LocalIdx} (h : c.localType x = .error e) :
    e.aboutBlocks = false := by
  unfold BodyContext.localType at h
  split at h <;> cases h
  rfl

end LookUps

namespace Check

/-! ## Local moves -/

/-- **The moves inside of a block.** One that looks at the open blocks sees what opened them and what they
    leave behind. -/
inductive IsLocal : {α : Type} → Check α → Prop
  | pure {α : Type} (a : α) : IsLocal (pure a : Check α)
  | refuse {α : Type} {e : ValidationError} : e.aboutBlocks = false → IsLocal (throw e : Check α)
  | lookUp {α : Type} {x : Except ValidationError α} :
      (∀ e, x = .error e → e.aboutBlocks = false) → IsLocal (liftM x : Check α)
  | labelTypes (l : LabelIdx) : IsLocal (labelTypes l)
  /-- What the outermost block leaves behind. -/
  | outermost {α : Type} {f : List ValType → Check α} : (∀ types, IsLocal (f types)) →
      IsLocal (do
        match (← get).frames.getLast? with
        | none => throw .blockUnderflow
        | some frame => f frame.labelTypes)
  /-- Whether the innermost block is a constant expression. -/
  | inConstant {α : Type} {m n : Check α} : IsLocal m → IsLocal n →
      IsLocal (do if (← get).frames.head?.any (·.kind = .constant) then m else n)
  | pushOperand (t : OperandType) : IsLocal (pushOperand t)
  | pushOperands (ts : List OperandType) : IsLocal (pushOperands ts)
  | popOperand (t : OperandType) : IsLocal (popOperand t)
  | unreachable : IsLocal unreachable
  | bind {α β : Type} {m : Check α} {f : α → Check β} :
      IsLocal m → (∀ a, IsLocal (f a)) → IsLocal (m >>= f)

variable {c : BodyContext}

theorem IsLocal.ite {α : Type} {p : Prop} [Decidable p] {m n : Check α} (hm : IsLocal m)
    (hn : IsLocal n) : IsLocal (if p then m else n) := by
  split
  · exact hm
  · exact hn

theorem isLocal_popFrom (ts above : List OperandType) : IsLocal (popFrom ts above) := by
  induction ts generalizing above with
  | nil => exact .pure above
  | cons t ts ih => exact .bind (.popOperand t) fun found => ih (found :: above)

theorem isLocal_popOperands (ts : List OperandType) : IsLocal (popOperands ts) :=
  isLocal_popFrom ts.reverse []

theorem isLocal_popAll (ts : List ValType) : IsLocal (popAll ts) :=
  .bind (isLocal_popOperands _) fun _ => .pure ()

theorem isLocal_pop (t : ValType) : IsLocal (pop t) := .bind (.popOperand _) fun _ => .pure ()

theorem isLocal_access (arg : MemArg) (natural : Nat) : IsLocal (access c arg natural) :=
  .bind (.lookUp fun _ => aboutBlocks_of_requireMemory) fun _ => .ite (.refuse rfl) (.pure ())

theorem isLocal_branchTargets (arity : Nat) (ls : List LabelIdx) :
    IsLocal (branchTargets arity ls) := by
  induction ls with
  | nil => exact .pure ()
  | cons l ls ih =>
    refine .bind (.labelTypes l) fun types => .ite (.refuse rfl) ?_
    exact .bind (isLocal_popOperands _) fun found => .bind (.pushOperands _) fun _ => ih

theorem isLocal_constantOnly (i : Instr) : IsLocal (constantOnly c i) := by
  cases i with
  | const v => exact .pure ()
  | globalGet g =>
    exact .bind (.lookUp fun _ => aboutBlocks_of_globalType) fun type => .ite (.refuse rfl) (.pure ())
  | _ => exact .refuse rfl

/-! ## Rules -/

/-- **The rule of an instruction without bodies.** -/
theorem isLocal_rule {i : Instr} (hi : i.opened = none) : IsLocal (rule c i) := by
  cases i with
  | block _ _ | loop _ _ | ifThen _ _ | ifElse _ _ _ => cases hi
  | unreachable => exact .unreachable
  | nop => exact .pure ()
  | br l => exact .bind (.labelTypes l) fun _ => .bind (isLocal_popAll _) fun _ => .unreachable
  | brIf l =>
    exact .bind (isLocal_pop _) fun _ => .bind (.labelTypes l) fun _ =>
      .bind (isLocal_popAll _) fun _ => .pushOperands _
  | brTable ls default =>
    exact .bind (isLocal_pop _) fun _ => .bind (.labelTypes default) fun _ =>
      .bind (isLocal_branchTargets _ _) fun _ => .bind (isLocal_popAll _) fun _ => .unreachable
  | ret => exact .outermost fun types => .bind (isLocal_popAll types) fun _ => .unreachable
  | call f =>
    exact .bind (.lookUp fun _ => aboutBlocks_of_funcType) fun _ =>
      .bind (isLocal_popAll _) fun _ => .pushOperands _
  | callIndirect t =>
    exact .bind (.lookUp fun _ => aboutBlocks_of_requireTable) fun _ =>
      .bind (.lookUp fun _ => aboutBlocks_of_typeAt) fun _ => .bind (isLocal_pop _) fun _ =>
      .bind (isLocal_popAll _) fun _ => .pushOperands _
  | drop => exact .bind (.popOperand _) fun _ => .pure ()
  | select =>
    exact .bind (isLocal_pop _) fun _ => .bind (.popOperand _) fun _ =>
      .bind (.popOperand _) fun _ => .pushOperand _
  | localGet x => exact .bind (.lookUp fun _ => aboutBlocks_of_localType) fun _ => .pushOperand _
  | localSet x => exact .bind (.lookUp fun _ => aboutBlocks_of_localType) fun _ => isLocal_pop _
  | localTee x =>
    exact .bind (.lookUp fun _ => aboutBlocks_of_localType) fun _ =>
      .bind (isLocal_pop _) fun _ => .pushOperand _
  | globalGet g => exact .bind (.lookUp fun _ => aboutBlocks_of_globalType) fun _ => .pushOperand _
  | globalSet g =>
    exact .bind (.lookUp fun _ => aboutBlocks_of_globalType) fun _ => .ite (isLocal_pop _) (.refuse rfl)
  | load op arg =>
    exact .bind (isLocal_access _ _) fun _ => .bind (isLocal_pop _) fun _ => .pushOperand _
  | store op arg => exact .bind (isLocal_access _ _) fun _ => isLocal_popAll _
  | memorySize =>
    exact .bind (.lookUp fun _ => aboutBlocks_of_requireMemory) fun _ => .pushOperand _
  | memoryGrow =>
    exact .bind (.lookUp fun _ => aboutBlocks_of_requireMemory) fun _ =>
      .bind (isLocal_pop _) fun _ => .pushOperand _
  | const v => exact .pushOperand _
  | numeric op => exact .bind (isLocal_popAll _) fun _ => .pushOperand _

/-- **An instruction without bodies.** -/
theorem isLocal_instr {i : Instr} (hi : i.opened = none) : IsLocal (instr c i) :=
  .inConstant (.bind (isLocal_constantOnly i) fun _ => isLocal_rule hi) (isLocal_rule hi)

end Check

end WasmCore
