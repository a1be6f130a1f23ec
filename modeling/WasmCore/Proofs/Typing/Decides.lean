import WasmCore.Proofs.Typing.Declarative
import WasmCore.Proofs.Typing.Recursive

/-!
# `Typing.Decides` — what a move of the checker says about stack types

The checker runs a body on what it knows about the operands; the rules guess. What the checker knows
stands for a set of operand types (`Fits`): an operand about which nothing is known may have any
type, and in dead code any number of further operands may lie below the known ones. A move of the
checker *decides* a relation on stack types (`Decides`) when

* every outcome it leads to can be traced back through the relation (soundness), and
* every pair of the relation that begins in what the checker knows is followed (completeness).

Deciding composes (`Decides.bind`), so that each instruction is settled by its own few moves. Here
stack types are read from the top, as the checker meets them; the rules write them the other way
round.

* `decides_popAll`, `decides_pushAll`, `decides_unreachable`, `decides_drop`, `decides_selected`: the
  moves;
* `Decides.lift`, `Decides.label`: look-ups;
* `Framed`, `Decides.framed`: from moves to the rules of an instruction.
-/

namespace WasmCore.Check

/-! ## What the checker knows -/

/-- An operand of type `t` agrees with what is known. -/
def Admits : OperandType → ValType → Prop
  | .unknown, _ => True
  | .known t, t' => t = t'

/-- The operand types, from the top, agree with what is known about a block. In dead code, types may
    follow about which nothing is known. -/
def Fits (dead : Bool) : List OperandType → List ValType → Prop
  | [], ts => dead = true ∨ ts = []
  | _ :: _, [] => False
  | x :: xs, t :: ts => Admits x t ∧ Fits dead xs ts

@[simp] theorem fits_cons_cons {dead : Bool} {x : OperandType} {xs : List OperandType} {t : ValType}
    {ts : List ValType} : Fits dead (x :: xs) (t :: ts) ↔ Admits x t ∧ Fits dead xs ts := Iff.rfl

@[simp] theorem not_fits_cons_nil {dead : Bool} {x : OperandType} {xs : List OperandType} :
    ¬ Fits dead (x :: xs) [] := id

@[simp] theorem fits_nil {dead : Bool} {ts : List ValType} :
    Fits dead [] ts ↔ dead = true ∨ ts = [] := by cases ts <;> rfl

@[simp] theorem admits_unknown {t : ValType} : Admits .unknown t := True.intro

@[simp] theorem admits_known {t t' : ValType} : Admits (.known t) t' ↔ t = t' := Iff.rfl

/-- Whatever is known, some operand types agree with it. -/
theorem exists_fits (dead : Bool) (xs : List OperandType) : ∃ ts, Fits dead xs ts := by
  induction xs with
  | nil => exact ⟨[], Or.inr rfl⟩
  | cons x xs ih =>
    obtain ⟨ts, hts⟩ := ih
    cases x with
    | unknown => exact ⟨.i32 :: ts, True.intro, hts⟩
    | known t => exact ⟨t :: ts, rfl, hts⟩

/-- Known operands on top agree exactly with their own types. -/
theorem fits_known_append {dead : Bool} {ks : List ValType} {xs : List OperandType}
    {ts : List ValType} :
    Fits dead (ks.map .known ++ xs) ts ↔ ∃ rest, ts = ks ++ rest ∧ Fits dead xs rest := by
  induction ks generalizing ts with
  | nil => simp
  | cons k ks ih =>
    cases ts with
    | nil => simp
    | cons t ts =>
      simp only [List.map_cons, List.cons_append, fits_cons_cons, admits_known, ih,
        List.cons.injEq]
      constructor
      · rintro ⟨rfl, rest, rfl, h⟩; exact ⟨rest, ⟨rfl, rfl⟩, h⟩
      · rintro ⟨rest, ⟨rfl, rfl⟩, h⟩; exact ⟨rfl, rest, rfl, h⟩

/-- **The state inside a block.** `xs` is known about the operands of the block, which lie above
    those of `base`. -/
def inBlock (base : Stack OperandType) (frame : CtrlFrame) (outer : List CtrlFrame)
    (xs : List OperandType) (dead : Bool) : CheckState where
  operands := base.pushAll xs
  frames := { frame with height := base.height, unreachable := dead } :: outer

/-- What is known about the operands of a block can be read off the state. -/
theorem inBlock_inj {base : Stack OperandType} {frame : CtrlFrame} {outer : List CtrlFrame}
    {xs xs' : List OperandType} {dead dead' : Bool}
    (h : inBlock base frame outer xs dead = inBlock base frame outer xs' dead') :
    xs = xs' ∧ dead = dead' := by
  have hoperands : xs ++ base.toList = xs' ++ base.toList :=
    congrArg (fun s => s.operands.toList) h
  have hframes := congrArg (fun s => s.frames.head?.map CtrlFrame.unreachable) h
  exact ⟨List.append_cancel_right hoperands, Option.some.inj hframes⟩

/-- The open blocks are those of a scope, and none of them is a constant expression. -/
structure Scoped (C : Scope) (frames : List CtrlFrame) : Prop where
  labels : frames.map CtrlFrame.labelTypes = C.labels
  results : frames.getLast?.map CtrlFrame.labelTypes = some C.results
  body : ∀ frame ∈ frames, frame.kind ≠ .constant

/-- **A move decides a relation on stack types**, wherever it is made in a scope. -/
structure Decides (C : Scope) (m : Check Unit) (R : List ValType → List ValType → Prop) :
    Prop where
  sound : ∀ {base frame outer xs dead s'}, Scoped C (frame :: outer) →
    m (inBlock base frame outer xs dead) = .ok ((), s') →
    ∃ xs' dead', s' = inBlock base frame outer xs' dead' ∧
      ∀ outs, Fits dead' xs' outs → ∃ ins, Fits dead xs ins ∧ R ins outs
  complete : ∀ {base frame outer xs dead ins outs}, Scoped C (frame :: outer) →
    Fits dead xs ins → R ins outs →
    ∃ xs' dead', m (inBlock base frame outer xs dead) =
        .ok ((), inBlock base frame outer xs' dead') ∧ Fits dead' xs' outs

namespace Decides

variable {C : Scope} {m n : Check Unit} {R S : List ValType → List ValType → Prop}

theorem congr (h : Decides C m R) (hRS : ∀ ins outs, R ins outs ↔ S ins outs) : Decides C m S := by
  have : R = S := by funext ins outs; exact propext (hRS ins outs)
  exact this ▸ h

/-- A move that leaves the state alone decides equality. -/
protected theorem pure : Decides C (pure ()) (fun ins outs => outs = ins) where
  sound := by
    intro base frame outer xs dead s' _ h
    cases h
    exact ⟨xs, dead, rfl, fun outs hf => ⟨outs, hf, rfl⟩⟩
  complete := by
    rintro base frame outer xs dead ins _ _ hf rfl
    exact ⟨xs, dead, rfl, hf⟩

/-- **Deciding composes.** -/
protected theorem bind (hm : Decides C m R) (hn : Decides C n S) :
    Decides C (do m; n) (fun ins outs => ∃ mid, R ins mid ∧ S mid outs) where
  sound := by
    intro base frame outer xs dead s' hC h
    obtain ⟨⟨⟩, s₁, h₁, h₂⟩ := bind_eq_ok_iff.mp h
    obtain ⟨xs₁, dead₁, rfl, hR⟩ := hm.sound hC h₁
    obtain ⟨xs₂, dead₂, rfl, hS⟩ := hn.sound hC h₂
    refine ⟨xs₂, dead₂, rfl, fun outs hf => ?_⟩
    obtain ⟨mid, hmid, hSm⟩ := hS outs hf
    obtain ⟨ins, hins, hRm⟩ := hR mid hmid
    exact ⟨ins, hins, mid, hRm, hSm⟩
  complete := by
    rintro base frame outer xs dead ins outs hC hf ⟨mid, hR, hS⟩
    obtain ⟨xs₁, dead₁, h₁, hf₁⟩ := hm.complete hC hf hR
    obtain ⟨xs₂, dead₂, h₂, hf₂⟩ := hn.complete hC hf₁ hS
    exact ⟨xs₂, dead₂, by rw [bind_of_ok h₁]; exact h₂, hf₂⟩

/-- A move that fails decides the empty relation. -/
theorem of_error (hm : ∀ base frame outer xs dead, Scoped C (frame :: outer) →
      ∃ e, m (inBlock base frame outer xs dead) = .error e)
    (hR : ∀ ins outs, ¬ R ins outs) : Decides C m R where
  sound := by
    intro base frame outer xs dead s' hC h
    obtain ⟨e, he⟩ := hm base frame outer xs dead hC
    rw [he] at h; cases h
  complete := by
    intro base frame outer xs dead ins outs hC _ h
    exact absurd h (hR ins outs)

/-- A move decides what another decides that does the same in every scope. -/
theorem of_eq (hn : Decides C n R) (hmn : ∀ base frame outer xs dead, Scoped C (frame :: outer) →
      m (inBlock base frame outer xs dead) = n (inBlock base frame outer xs dead)) :
    Decides C m R where
  sound := by
    intro base frame outer xs dead s' hC h
    rw [hmn base frame outer xs dead hC] at h
    exact hn.sound hC h
  complete := by
    intro base frame outer xs dead ins outs hC hf hR
    rw [hmn base frame outer xs dead hC]
    exact hn.complete hC hf hR

end Decides

/-! ## Moves -/

/-- Types `a` on top give way to types `b`, and what is below them stays. -/
def Takes (a b ins outs : List ValType) : Prop :=
  ∃ below, ins = a.reverse ++ below ∧ outs = b.reverse ++ below

section Moves

variable {C : Scope} (base : Stack OperandType) (frame : CtrlFrame) (outer : List CtrlFrame)

/-- An operand of the block is popped unless its type is known to be another one. -/
theorem popOperand_inBlock (e x : OperandType) (xs : List OperandType) (dead : Bool) :
    popOperand e (inBlock base frame outer (x :: xs) dead) =
      if e ≠ x ∧ e ≠ .unknown ∧ x ≠ .unknown then .error (.typeMismatch e x)
      else .ok (if x = .unknown then e else x, inBlock base frame outer xs dead) := by
  have hh : (base.pushAll (x :: xs)).height ≠ base.height := by
    rw [Stack.height_pushAll, List.length_cons]; omega
  have hp : (base.pushAll (x :: xs)).pop? = some (x, base.pushAll xs) :=
    (Stack.pop?_eq_some_iff _ _ _).mpr (Stack.ext rfl)
  simp only [popOperand, innermost, inBlock, bind, StateT.bind, Except.bind, get_apply, pure_apply,
    if_neg hh, hp]
  by_cases hm : e ≠ x ∧ e ≠ .unknown ∧ x ≠ .unknown
  · rw [if_pos hm, if_pos hm]; rfl
  · rw [if_neg hm, if_neg hm]
    by_cases hx : x = .unknown
    · rw [if_pos hx, if_pos hx]; rfl
    · rw [if_neg hx, if_neg hx]; rfl

/-- **Popping an operand.** It fails only if no operand types that agree with what is known have an
    expected type on top. Otherwise what is found is as least as definite as what was expected, and
    the types below agree with what is known afterwards. -/
theorem popOperand_spec (e : OperandType) (xs : List OperandType) (dead : Bool) :
    (∃ found xs', popOperand e (inBlock base frame outer xs dead) =
        .ok (found, inBlock base frame outer xs' dead) ∧ (e ≠ .unknown → found = e) ∧
        ∀ t ts, Admits found t ∧ Fits dead xs' ts ↔ Admits e t ∧ Fits dead xs (t :: ts)) ∨
    ((∃ err, popOperand e (inBlock base frame outer xs dead) = .error err) ∧
        ∀ t ts, Admits e t → ¬ Fits dead xs (t :: ts)) := by
  cases xs with
  | nil =>
    -- No operand of the block is left: it may be anything in dead code and is missing in live code.
    have hs : (inBlock base frame outer [] dead).operands.height = base.height := rfl
    cases dead with
    | true => exact Or.inl ⟨e, [], popOperand_of_unreachable rfl hs rfl, fun _ => rfl, by simp⟩
    | false => exact Or.inr ⟨⟨_, popOperand_of_missing rfl hs rfl⟩, by simp⟩
  | cons x xs =>
    rw [popOperand_inBlock]
    by_cases hm : e ≠ x ∧ e ≠ .unknown ∧ x ≠ .unknown
    · refine Or.inr ⟨⟨_, if_pos hm⟩, fun t ts he hf => ?_⟩
      obtain ⟨hex, heu, hxu⟩ := hm
      cases e with
      | unknown => exact heu rfl
      | known t₁ =>
        cases x with
        | unknown => exact hxu rfl
        | known t₂ => exact hex (congrArg _ ((admits_known.mp he).trans (admits_known.mp hf.1).symm))
    · refine Or.inl ⟨_, xs, if_neg hm, ?_⟩
      cases x with
      | unknown => simp
      | known t₂ =>
        cases e with
        | unknown => simp
        | known t₁ =>
          have ht : t₁ = t₂ := by simpa using hm
          subst ht
          exact ⟨fun _ => rfl, by simp⟩

/-- Popping an operand of a known type: the types that have it on top are those that agree with what
    is known. -/
theorem popOperand_known (t : ValType) (xs : List OperandType) (dead : Bool) :
    (∃ xs', popOperand (.known t) (inBlock base frame outer xs dead) =
        .ok (.known t, inBlock base frame outer xs' dead) ∧
        ∀ ts, Fits dead xs' ts ↔ Fits dead xs (t :: ts)) ∨
    ((∃ e, popOperand (.known t) (inBlock base frame outer xs dead) = .error e) ∧
        ∀ ts, ¬ Fits dead xs (t :: ts)) := by
  rcases popOperand_spec base frame outer (.known t) xs dead with
    ⟨found, xs', h, hfound, hf⟩ | ⟨herr, hno⟩
  · cases hfound (by simp)
    exact Or.inl ⟨xs', h, fun ts => by simpa using hf t ts⟩
  · exact Or.inr ⟨herr, fun ts => hno t ts rfl⟩

/-- Popping operands of known types, one after the other: as for one operand. -/
theorem popFrom_known (ts : List ValType) (above xs : List OperandType) (dead : Bool) :
    (∃ xs', popFrom (ts.map .known) above (inBlock base frame outer xs dead) =
        .ok ((ts.map .known).reverse ++ above, inBlock base frame outer xs' dead) ∧
        ∀ rest, Fits dead xs' rest ↔ Fits dead xs (ts ++ rest)) ∨
    ((∃ e, popFrom (ts.map .known) above (inBlock base frame outer xs dead) = .error e) ∧
        ∀ rest, ¬ Fits dead xs (ts ++ rest)) := by
  induction ts generalizing above xs with
  | nil => exact Or.inl ⟨xs, rfl, fun rest => Iff.rfl⟩
  | cons t ts ih =>
    simp only [List.map_cons, popFrom]
    rcases popOperand_known base frame outer t xs dead with
      ⟨xs₁, h₁, hf₁⟩ | ⟨⟨e, h₁⟩, hf₁⟩
    · rw [bind_of_ok h₁]
      rcases ih (.known t :: above) xs₁ with ⟨xs₂, h₂, hf₂⟩ | ⟨⟨e, h₂⟩, hf₂⟩
      · refine Or.inl ⟨xs₂, by rw [h₂]; simp, fun rest => ?_⟩
        rw [hf₂, hf₁, List.cons_append]
      · refine Or.inr ⟨⟨e, h₂⟩, fun rest hf => ?_⟩
        exact hf₂ rest ((hf₁ _).mpr hf)
    · exact Or.inr ⟨⟨e, by rw [bind_of_error h₁]⟩, fun rest => hf₁ (ts ++ rest)⟩

/-- What is known about popped operands of known types is their types. -/
theorem popOperands_known (ts : List ValType) (xs : List OperandType) (dead : Bool) :
    (∃ xs', popOperands (ts.map .known) (inBlock base frame outer xs dead) =
        .ok (ts.map .known, inBlock base frame outer xs' dead) ∧
        ∀ rest, Fits dead xs' rest ↔ Fits dead xs (ts.reverse ++ rest)) ∨
    ((∃ e, popOperands (ts.map .known) (inBlock base frame outer xs dead) = .error e) ∧
        ∀ rest, ¬ Fits dead xs (ts.reverse ++ rest)) := by
  have h := popFrom_known base frame outer ts.reverse [] xs dead
  simpa only [popOperands, List.map_reverse, List.reverse_reverse, List.append_nil] using h

/-- Popping operands of known types decides that these types are on top. -/
theorem decides_popAll (ts : List ValType) :
    Decides C (popAll ts) (fun ins outs => ins = ts.reverse ++ outs) where
  sound := by
    intro base frame outer xs dead s' _ h
    obtain ⟨found, s₁, h₁, h₂⟩ := bind_eq_ok_iff.mp h
    cases h₂
    rcases popOperands_known base frame outer ts xs dead with
      ⟨xs', h', hf⟩ | ⟨⟨e, h'⟩, _⟩
    · rw [h'] at h₁; cases h₁
      exact ⟨xs', dead, rfl, fun outs ho => ⟨_, (hf outs).mp ho, rfl⟩⟩
    · rw [h'] at h₁; cases h₁
  complete := by
    rintro base frame outer xs dead _ outs _ hf rfl
    rcases popOperands_known base frame outer ts xs dead with
      ⟨xs', h', hf'⟩ | ⟨_, hno⟩
    · exact ⟨xs', dead, by rw [popAll, bind_of_ok h']; rfl, (hf' outs).mpr hf⟩
    · exact absurd hf (hno outs)

/-- Pushing operands of known types decides that these types come on top. -/
theorem decides_pushAll (ts : List ValType) :
    Decides C (pushAll ts) (fun ins outs => outs = ts.reverse ++ ins) := by
  have hpush : ∀ base frame outer xs dead, pushAll ts (inBlock base frame outer xs dead) =
      .ok ((), inBlock base frame outer (ts.reverse.map .known ++ xs) dead) := by
    intro base frame outer xs dead
    rw [pushAll, pushOperands_apply]
    congr 2
    simp only [inBlock, CheckState.mk.injEq, and_true]
    apply Stack.ext
    simp only [Stack.toList_pushAll, List.map_reverse, List.append_assoc]
  constructor
  · intro base frame outer xs dead s' _ h
    rw [hpush] at h; cases h
    refine ⟨_, dead, rfl, fun outs hf => ?_⟩
    obtain ⟨rest, rfl, hrest⟩ := fits_known_append.mp hf
    exact ⟨rest, hrest, rfl⟩
  · rintro base frame outer xs dead ins _ _ hf rfl
    exact ⟨_, dead, hpush .., fits_known_append.mpr ⟨ins, rfl, hf⟩⟩

/-- Taking operands and leaving others, all of known types. -/
theorem decides_popAll_pushAll (a b : List ValType) :
    Decides C (do popAll a; pushAll b) (Takes a b) :=
  (decides_popAll a).bind (decides_pushAll b)

theorem decides_pop (t : ValType) : Decides C (pop t) (fun ins outs => ins = t :: outs) := by
  refine (decides_popAll [t]).of_eq fun base frame outer xs dead _ => ?_
  simp only [popAll, pop, popOperands, List.map_cons, List.map_nil, List.reverse_cons,
    List.reverse_nil, List.nil_append, popFrom]
  simp only [bind_assoc, pure_bind]

theorem decides_push (t : ValType) : Decides C (push t) (fun ins outs => outs = t :: ins) :=
  decides_pushAll [t]

theorem decides_pushAll_takes (ts : List ValType) : Decides C (pushAll ts) (Takes [] ts) :=
  (decides_pushAll ts).congr fun ins outs =>
    ⟨fun h => ⟨ins, rfl, h⟩, by rintro ⟨_, rfl, rfl⟩; rfl⟩

theorem decides_popAll_takes (ts : List ValType) : Decides C (popAll ts) (Takes ts []) :=
  (decides_popAll ts).congr fun ins outs =>
    ⟨fun h => ⟨outs, h, rfl⟩, by rintro ⟨_, rfl, rfl⟩; rfl⟩

theorem decides_push_takes (t : ValType) : Decides C (push t) (Takes [] [t]) :=
  decides_pushAll_takes [t]

theorem decides_pop_takes (t : ValType) : Decides C (pop t) (Takes [t] []) :=
  (decides_pop t).congr fun ins outs =>
    ⟨fun h => ⟨outs, h, rfl⟩, by rintro ⟨_, rfl, rfl⟩; rfl⟩

theorem decides_pop_push (t t' : ValType) : Decides C (do pop t; push t') (Takes [t] [t']) :=
  (decides_pop t).bind (decides_push t')

/-- After an instruction that never goes on, the operands may be any. -/
theorem decides_unreachable : Decides C unreachable (fun _ _ => True) := by
  have hmove : ∀ base frame outer xs dead, unreachable (inBlock base frame outer xs dead) =
      .ok ((), inBlock base frame outer [] true) := by
    intro base frame outer xs dead
    show Except.ok ((), _) = _
    congr 2
    simp only [inBlock, Stack.lower_pushAll, CheckState.mk.injEq, and_true]
    rfl
  constructor
  · intro base frame outer xs dead s' _ h
    rw [hmove] at h; cases h
    obtain ⟨ins, hins⟩ := exists_fits dead xs
    exact ⟨[], true, rfl, fun outs _ => ⟨ins, hins, True.intro⟩⟩
  · intro base frame outer xs dead ins outs _ _ _
    exact ⟨[], true, hmove .., Or.inl rfl⟩

/-- `drop`: the top operand goes, whatever is known about it. -/
theorem decides_drop :
    Decides C (do let _ ← popOperand .unknown) (fun ins outs => ∃ t, ins = t :: outs) where
  sound := by
    intro base frame outer xs dead s' _ h
    obtain ⟨found, s₁, h₁, h₂⟩ := bind_eq_ok_iff.mp h
    cases h₂
    rcases popOperand_spec base frame outer .unknown xs dead with
      ⟨found', xs', h', _, hf⟩ | ⟨⟨e, h'⟩, _⟩
    · rw [h'] at h₁; cases h₁
      refine ⟨xs', dead, rfl, fun outs ho => ?_⟩
      obtain ⟨t, ht⟩ : ∃ t, Admits found t := by
        cases found with
        | unknown => exact ⟨.i32, True.intro⟩
        | known t => exact ⟨t, rfl⟩
      exact ⟨t :: outs, ((hf t outs).mp ⟨ht, ho⟩).2, t, rfl⟩
    · rw [h'] at h₁; cases h₁
  complete := by
    rintro base frame outer xs dead _ outs _ hf ⟨t, rfl⟩
    rcases popOperand_spec base frame outer .unknown xs dead with
      ⟨found, xs', h', _, hf'⟩ | ⟨_, hno⟩
    · exact ⟨xs', dead, by rw [bind_of_ok h']; rfl, ((hf' t outs).mpr ⟨True.intro, hf⟩).2⟩
    · exact absurd hf (hno t outs True.intro)

/-- What `select` leaves is what was found second, which is at least as definite as what was found
    first. -/
theorem selected_eq {first second : OperandType} (h : first ≠ .unknown → second = first) :
    (if first = .unknown then second else first) = second := by
  by_cases hu : first = .unknown
  · rw [if_pos hu]
  · rw [if_neg hu, h hu]

/-- The part of `select` below its condition: two operands of one type, of which one stays. -/
theorem decides_selected :
    Decides C (do
        let first ← popOperand .unknown
        let second ← popOperand first
        pushOperand (if first = .unknown then second else first))
      (fun ins outs => ∃ t rest, ins = t :: t :: rest ∧ outs = t :: rest) where
  sound := by
    intro base frame outer xs dead s' _ h
    obtain ⟨first, s₁, h₁, h⟩ := bind_eq_ok_iff.mp h
    obtain ⟨second, s₂, h₂, h₃⟩ := bind_eq_ok_iff.mp h
    rcases popOperand_spec base frame outer .unknown xs dead with
      ⟨_, xs₁, h', _, hf₁⟩ | ⟨⟨e, h'⟩, _⟩
    · rw [h'] at h₁; cases h₁
      rcases popOperand_spec base frame outer first xs₁ dead with
        ⟨_, xs₂, h', heq, hf₂⟩ | ⟨⟨e, h'⟩, _⟩
      · rw [h'] at h₂; cases h₂
        rw [selected_eq heq, pushOperand_apply] at h₃; cases h₃
        -- The second operand was found under the type of the first, so it stands for both.
        refine ⟨second :: xs₂, dead, rfl, fun outs ho => ?_⟩
        cases outs with
        | nil => exact absurd ho not_fits_cons_nil
        | cons t rest =>
          obtain ⟨hfirst, hrest⟩ := (hf₂ t rest).mp ho
          exact ⟨t :: t :: rest, ((hf₁ t (t :: rest)).mp ⟨hfirst, hrest⟩).2, t, rest, rfl, rfl⟩
      · rw [h'] at h₂; cases h₂
    · rw [h'] at h₁; cases h₁
  complete := by
    rintro base frame outer xs dead _ _ _ hf ⟨t, rest, rfl, rfl⟩
    rcases popOperand_spec base frame outer .unknown xs dead with
      ⟨first, xs₁, h₁, _, hf₁⟩ | ⟨_, hno⟩
    · obtain ⟨hfirst, hrest⟩ := (hf₁ t (t :: rest)).mpr ⟨True.intro, hf⟩
      rcases popOperand_spec base frame outer first xs₁ dead with
        ⟨second, xs₂, h₂, heq, hf₂⟩ | ⟨_, hno⟩
      · refine ⟨second :: xs₂, dead, ?_, (hf₂ t rest).mpr ⟨hfirst, hrest⟩⟩
        rw [bind_of_ok h₁, bind_of_ok h₂, selected_eq heq]; rfl
      · exact absurd hrest (hno t rest hfirst)
    · exact absurd hf (hno t _ True.intro)

end Moves

/-! ## Instructions that hold no body -/

/-- The rules of an instruction, above operands that it does not see, read from the top. -/
def Framed (C : Scope) (i : Instr) (ins outs : List ValType) : Prop :=
  ∃ below a b, ins = a.reverse ++ below ∧ outs = b.reverse ++ below ∧ Instr.HasType C i a b

namespace Decides

variable {C : Scope} {m : Check Unit} {R : List ValType → List ValType → Prop} {i : Instr}

/-- An instruction with a single type is decided by moves that take and leave just that. -/
theorem framed {a b : List ValType} (h : Decides C m (Takes a b))
    (htype : ∀ a' b', Instr.HasType C i a' b' ↔ a' = a ∧ b' = b) : Decides C m (Framed C i) := by
  refine h.congr fun ins outs => ?_
  constructor
  · rintro ⟨below, rfl, rfl⟩
    exact ⟨below, a, b, rfl, rfl, (htype a b).mpr ⟨rfl, rfl⟩⟩
  · rintro ⟨below, a', b', rfl, rfl, hi⟩
    obtain ⟨rfl, rfl⟩ := (htype a' b').mp hi
    exact ⟨below, rfl, rfl⟩

/-- A look-up that the relation needs: where it fails, nothing is related. -/
theorem lift {α : Type} {x : Except ValidationError α} {f : α → Check Unit}
    (hok : ∀ a, x = .ok a → Decides C (f a) R)
    (herr : ∀ e, x = .error e → ∀ ins outs, ¬ R ins outs) :
    Decides C (do let a ← (liftM x : Check α); f a) R := by
  cases x with
  | ok a => exact (hok a rfl).of_eq fun base frame outer xs dead _ => rfl
  | error e => exact of_error (fun base frame outer xs dead _ => ⟨e, rfl⟩) (herr e rfl)

/-- **An instruction whose type is looked up.** The look-up succeeds exactly on what the rules ask
    for, and the moves after it take and leave what the rules say. -/
theorem lookup {α : Type} {x : Except ValidationError α} {P : α → Prop} {f : α → Check Unit}
    {a b : α → List ValType} (hx : ∀ v, x = .ok v ↔ P v)
    (hf : ∀ v, P v → Decides C (f v) (Takes (a v) (b v)))
    (htype : ∀ a' b', Instr.HasType C i a' b' ↔ ∃ v, P v ∧ a' = a v ∧ b' = b v) :
    Decides C (do let v ← (liftM x : Check α); f v) (Framed C i) := by
  refine lift (fun v hv => (hf v ((hx v).mp hv)).framed fun a' b' => ?_) ?_
  · rw [htype]
    constructor
    · rintro ⟨v', hv', rfl, rfl⟩
      cases hv.symm.trans ((hx v').mpr hv')
      exact ⟨rfl, rfl⟩
    · rintro ⟨rfl, rfl⟩; exact ⟨v, (hx v).mp hv, rfl, rfl⟩
  · rintro e herr ins outs ⟨below, a', b', -, -, hi⟩
    obtain ⟨v, hv, -, -⟩ := (htype a' b').mp hi
    rw [(hx v).mpr hv] at herr; cases herr

/-- The types of a label that the relation needs. -/
theorem label {l : LabelIdx} {f : List ValType → Check Unit}
    (hsome : ∀ ts, C.labels[l.toNat]? = some ts → Decides C (f ts) R)
    (hnone : C.labels[l.toNat]? = none → ∀ ins outs, ¬ R ins outs) :
    Decides C (do let ts ← labelTypes l; f ts) R := by
  have hlook : ∀ base frame outer xs dead, Scoped C (frame :: outer) →
      (inBlock base frame outer xs dead).frames[l.toNat]?.map CtrlFrame.labelTypes =
        C.labels[l.toNat]? := by
    intro base frame outer xs dead hC
    rw [← hC.labels, List.getElem?_map]
    cases l.toNat <;> rfl
  cases hl : C.labels[l.toNat]? with
  | some ts =>
    refine (hsome ts hl).of_eq fun base frame outer xs dead hC => bind_of_ok ?_
    have h := hlook base frame outer xs dead hC
    rw [hl, Option.map_eq_some_iff] at h
    obtain ⟨target, htarget, rfl⟩ := h
    simp only [labelTypes, bind, StateT.bind, Except.bind, get_apply, pure_apply, htarget]
  | none =>
    refine of_error (fun base frame outer xs dead hC => ?_) (hnone hl)
    have h := hlook base frame outer xs dead hC
    rw [hl, Option.map_eq_none_iff] at h
    refine ⟨_, bind_of_error (e := .unknownLabel l (frame :: outer).length) ?_⟩
    simp only [labelTypes, bind, StateT.bind, Except.bind, get_apply, h]
    rfl

end Decides

end WasmCore.Check
