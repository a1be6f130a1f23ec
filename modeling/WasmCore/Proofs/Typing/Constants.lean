import Mathlib.Data.List.Forall2
import WasmCore.Proofs.Typing.Exact

/-!
# `Typing.Constants` — what the checker accepts as a constant expression

A constant expression is checked like a body, only that few instructions are allowed in it. Each of them
pushes one operand and none takes any, so what is left at the end is one operand exactly if there was one
instruction.

* `Instr.Constant`: the instructions that are allowed, with the type that they push;
* `visit_constant`, `visitAll_constant`: **one instruction** of a constant expression, and **all** of them;
* `checkConstant_eq_ok`: **a constant expression is one instruction**, a constant or an earlier immutable
  global, of the type that is asked for;
* `checkConstant_of_constant`: every such instruction is accepted.
-/

namespace WasmCore

/-- **An instruction of a constant expression** that may read the first `visible` globals, and the type of
    the value that it pushes. -/
inductive Instr.Constant (c : Context) (visible : Nat) : Instr → ValType → Prop
  | const (v : Value) : Constant c visible (.const v) v.type
  | globalGet {g : GlobalIdx} {type : GlobalType} (hg : g.toNat < visible)
      (htype : c.globals[g.toNat]? = some type) (hconst : type.isMutable = false) :
    Constant c visible (.globalGet g) type.type

namespace Check

variable {c : BodyContext} {s s' : CheckState}

/-- The innermost block is a constant expression. -/
abbrev InConstant (s : CheckState) : Prop := s.frames.head?.any (·.kind = .constant) = true

/-- A look-up that succeeds changes nothing. -/
theorem lift_eq_ok {α : Type} {x : Except ValidationError α} {a : α}
    (h : (liftM x : Check α) s = .ok (a, s')) : x = .ok a ∧ s' = s := by
  cases x with
  | error e => cases h
  | ok b => cases h; exact ⟨rfl, rfl⟩

/-- **One instruction** pushes one operand, and nothing else happens. -/
theorem instr_constant {i : Instr} (hs : InConstant s) (h : instr c i s = .ok ((), s')) :
    ∃ t, i.Constant c.toContext c.visibleGlobals t ∧
      s' = { s with operands := s.operands.push (.known t) } := by
  have hcheck : instr c i s = (do constantOnly c i; rule c i : Check Unit) s := by
    unfold instr
    rw [bind_of_ok (get_apply s), if_pos hs]
  rw [hcheck] at h
  obtain ⟨⟨⟩, s₁, hallowed, hrule⟩ := bind_eq_ok_iff.mp h
  cases i with
  | const v =>
    cases hallowed
    cases hrule
    exact ⟨v.type, .const v, rfl⟩
  | globalGet g =>
    obtain ⟨type, s₂, hlookup, hread⟩ := bind_eq_ok_iff.mp hallowed
    obtain ⟨htype, rfl⟩ := lift_eq_ok hlookup
    by_cases hno : c.visibleGlobals ≤ g.toNat ∨ type.isMutable = true
    · rw [if_pos hno] at hread
      cases hread
    · rw [if_neg hno] at hread
      cases hread
      obtain ⟨type', s₃, hlookup', hpush⟩ := bind_eq_ok_iff.mp hrule
      obtain ⟨htype', rfl⟩ := lift_eq_ok hlookup'
      cases htype.symm.trans htype'
      cases hpush
      obtain ⟨hvisible, hmutable⟩ := not_or.mp hno
      refine ⟨type.type, .globalGet (Nat.lt_of_not_le hvisible) (globalType_eq_ok_iff.mp htype) ?_, rfl⟩
      exact Bool.eq_false_iff.mpr hmutable
  | _ => cases hallowed

/-- A structured instruction would have to pass before its bodies do. -/
theorem visit_constant {i : Instr} (hs : InConstant s) (h : visit c i s = .ok ((), s')) :
    ∃ t, i.Constant c.toContext c.visibleGlobals t ∧
      s' = { s with operands := s.operands.push (.known t) } := by
  have hinstr : ∃ s₁, instr c i s = .ok ((), s₁) := by
    cases i with
    | block _ _ | loop _ _ | ifThen _ _ | ifElse _ _ _ =>
      rw [visit] at h
      obtain ⟨⟨⟩, s₁, hinstr, -⟩ := bind_eq_ok_iff.mp h
      exact ⟨s₁, hinstr⟩
    | _ =>
      simp only [visit] at h
      exact ⟨s', h⟩
  obtain ⟨s₁, hinstr⟩ := hinstr
  obtain ⟨t, hconst, hpushed⟩ := instr_constant hs hinstr
  have hsame : visit c i s = instr c i s := by cases hconst <;> simp only [visit]
  cases (hsame.symm.trans h).symm.trans hinstr
  exact ⟨t, hconst, hpushed⟩

/-- **All instructions** of a constant expression: as many operands as there are instructions. -/
theorem visitAll_constant {is : List Instr} (hs : InConstant s)
    (h : visitAll c is s = .ok ((), s')) :
    ∃ ts, List.Forall₂ (Instr.Constant c.toContext c.visibleGlobals) is ts ∧
      s' = { s with operands := s.operands.pushAll (ts.map .known).reverse } := by
  induction is generalizing s with
  | nil =>
    rw [visitAll] at h
    cases h
    exact ⟨[], .nil, rfl⟩
  | cons i is ih =>
    rw [visitAll] at h
    obtain ⟨⟨⟩, s₁, hvisit, hrest⟩ := bind_eq_ok_iff.mp h
    obtain ⟨t, hconst, rfl⟩ := visit_constant hs hvisit
    obtain ⟨ts, hall, rfl⟩ := ih (s := { s with operands := s.operands.push (.known t) }) hs hrest
    refine ⟨t :: ts, .cons hconst hall, ?_⟩
    have hoperands : (s.operands.push (.known t)).pushAll (ts.map .known).reverse =
        s.operands.pushAll ((t :: ts).map .known).reverse := by
      apply Stack.ext
      simp
    rw [hoperands]

end Check

namespace Check

/-- What a constant expression may refer to. -/
abbrev constantContext (c : Context) (visible : Nat) : BodyContext :=
  { toContext := c, visibleGlobals := visible }

/-- The control frame of a constant expression. -/
abbrev constantFrame (type : ValType) : CtrlFrame where
  kind := .constant
  results := [type]
  height := 0
  unreachable := false

/-- **An instruction that is allowed is accepted.** -/
theorem instr_of_constant {i : Instr} {t : ValType} (hs : InConstant s)
    (hi : i.Constant c.toContext c.visibleGlobals t) :
    instr c i s = .ok ((), { s with operands := s.operands.push (.known t) }) := by
  have hcheck : instr c i s = (do constantOnly c i; rule c i : Check Unit) s := by
    unfold instr
    rw [bind_of_ok (get_apply s), if_pos hs]
  rw [hcheck]
  cases hi with
  | const v => rfl
  | @globalGet g type hg htype hconst =>
    have hlookup : (liftM (c.globalType g) : Check GlobalType) s = .ok (type, s) := by
      rw [globalType_eq_ok_iff.mpr htype]
      rfl
    have hread : ¬ (c.visibleGlobals ≤ g.toNat ∨ type.isMutable = true) := by
      rw [hconst]
      simp [hg]
    have hallowed : constantOnly c (.globalGet g) s = .ok ((), s) := by
      rw [constantOnly, bind_of_ok hlookup, if_neg hread]
      rfl
    rw [bind_of_ok hallowed, rule, bind_of_ok hlookup]
    rfl

end Check

open Check

variable {c : Context} {visible : Nat} {type : ValType} {is : Expr}

/-- A constant expression is checked as a body in a frame of its own. -/
theorem checkConstant_eq (c : Context) (visible : Nat) (type : ValType) (is : Expr) :
    checkConstant c visible type is =
      ((do visitAll (constantContext c visible) is; popFrame : Check CtrlFrame)
        (inBlock ∅ (constantFrame type) [] [] false)).map fun _ => () := by
  have hpush : pushFrame .constant [type] .initial =
      .ok ((), inBlock ∅ (constantFrame type) [] [] false) := rfl
  show (do let _ ← Check.body (constantContext c visible) .constant [type] is .initial) = _
  rw [Check.body, bind_of_ok hpush, walk_single, ← bind_assoc]
  cases hrun : (do visitAll (constantContext c visible) is; popFrame : Check CtrlFrame)
      (inBlock ∅ (constantFrame type) [] [] false) with
  | error e => rw [bind_of_error hrun]; rfl
  | ok p => rw [bind_of_ok hrun]; rfl

/-- **A constant expression is one instruction**, which pushes a value of the type that is asked for. -/
theorem checkConstant_eq_ok (h : checkConstant c visible type is = .ok ()) :
    ∃ i, is = [i] ∧ i.Constant c visible type := by
  let frame := constantFrame type
  rw [checkConstant_eq] at h
  cases hwalk : (do visitAll (constantContext c visible) is; popFrame : Check CtrlFrame)
      (inBlock ∅ frame [] [] false) with
  | error e => rw [hwalk] at h; cases h
  | ok p =>
    obtain ⟨⟨⟩, s', hvisit, hclose⟩ := bind_eq_ok_iff.mp hwalk
    obtain ⟨ts, hall, rfl⟩ := visitAll_constant (s := inBlock ∅ frame [] [] false) rfl hvisit
    -- The operands at the end are those of the instructions, and they are what is asked for.
    have hend : (⟨(∅ : Stack OperandType).pushAll (ts.map .known).reverse, [frame]⟩ : CheckState) =
        inBlock ∅ frame [] (ts.reverse.map .known ++ []) false := by
      rw [inBlock, List.append_nil, List.map_reverse]
      rfl
    replace hclose : popFrame ⟨(∅ : Stack OperandType).pushAll (ts.map .known).reverse, [frame]⟩ =
        .ok p := hclose
    rw [hend] at hclose
    rcases popFrame_inBlock ∅ frame [] (ts.reverse.map .known ++ []) false with ⟨hfits, -⟩ | ⟨-, e, he⟩
    · obtain ⟨rest, hts, hrest⟩ := fits_known_append.mp hfits
      obtain rfl : rest = [] := hrest.resolve_left Bool.false_ne_true
      have htypes : ts = [type] := by
        rw [List.append_nil] at hts
        exact List.reverse_inj.mp hts.symm
      subst htypes
      cases hall with
      | cons hi hnone =>
        cases hnone
        exact ⟨_, rfl, hi⟩
    · rw [he] at hclose; cases hclose

/-- **One instruction that is allowed** and pushes a value of the type that is asked for is accepted. -/
theorem checkConstant_of_constant {i : Instr} (hi : i.Constant c visible type) :
    checkConstant c visible type [i] = .ok () := by
  let bc := constantContext c visible
  let frame := constantFrame type
  have hinstr := instr_of_constant (c := bc) (s := inBlock ∅ frame [] [] false) rfl hi
  have hvisit : visitAll bc [i] (inBlock ∅ frame [] [] false) =
      .ok ((), inBlock ∅ frame [] [.known type] false) := by
    have hsame : visit bc i = instr bc i := by cases hi <;> simp only [visit]
    rw [visitAll, hsame, bind_of_ok hinstr, visitAll]
    rfl
  rcases popFrame_inBlock ∅ frame [] [.known type] false with ⟨-, hclose⟩ | ⟨hno, -⟩
  · rw [checkConstant_eq, bind_of_ok hvisit, hclose]
    rfl
  · exact absurd ⟨rfl, Or.inr rfl⟩ hno

end WasmCore
