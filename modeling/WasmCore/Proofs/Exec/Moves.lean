import Mathlib.Data.List.Forall2
import Mathlib.Order.Defs.Unbundled
import WasmCore.Numeric.Eval

/-!
# `Exec.Moves` — moves on operands of the right types

A move of the operands that finds what it expects either leaves a value of the right type or traps
for a reason that the program itself has given. What is below its operands plays no part in it.

* `Trap.internal`: the traps that no checked program can cause;
* `bind_of_ok`, `bind_of_error`, `bind_eq_ok_iff`: moves in sequence;
* `Move.Keeps`: a relation between the states before and after a move;
* `Move.Ignores`, `Move.IgnoresUnless`: a change of the state that a move does not see, or only where it
  fails in a certain way;
* `Move.Raises`: how far a move raises a measure of the state;
* `Agree`, `Move.InStep`: two computations that come to the same, up to relations between their results
  and their states;
* `values_of_one`, `values_above`, `values_i32_above`: values by their types;
* `NumOp.eval_of_types`: every number operation on operands of its types.
-/

namespace WasmCore

/-- The traps that say that the machine itself went wrong: checked programs must not cause them. -/
def Trap.internal : Trap → Bool
  | stackUnderflow | valueType _ _ | invalidIndex _ _ | undefinedFunc _ => true
  | _ => false

/-! ## Moves in sequence -/

namespace Move

variable {ε σ α β : Type} {x : EStateM ε σ α} {f : α → EStateM ε σ β} {s s' : σ}

theorem bind_of_ok {a : α} (h : x s = .ok a s') : (x >>= f) s = f a s' := by
  show EStateM.bind x f s = f a s'
  rw [EStateM.bind, h]

theorem bind_of_error {t : ε} (h : x s = .error t s') : (x >>= f) s = .error t s' := by
  show EStateM.bind x f s = .error t s'
  rw [EStateM.bind, h]

theorem get_bind {g : σ → EStateM ε σ β} : (get >>= g) s = g s s := rfl

/-- A sequence succeeds exactly if both of its parts do. -/
theorem bind_eq_ok_iff {b : β} :
    (x >>= f) s = .ok b s' ↔ ∃ a s₁, x s = .ok a s₁ ∧ f a s₁ = .ok b s' := by
  cases hx : x s with
  | ok a s₁ =>
    rw [bind_of_ok hx]
    constructor
    · intro h; exact ⟨a, s₁, rfl, h⟩
    · rintro ⟨_, _, h, hf⟩; cases h; exact hf
  | error e s₁ =>
    rw [bind_of_error hx]
    constructor
    · intro h; cases h
    · rintro ⟨_, _, h, -⟩; cases h

/-! ## What moves keep -/

/-- The state that a move leaves, whether it succeeds or fails. -/
def after : EStateM.Result ε σ α → σ
  | .ok _ s => s
  | .error _ s => s

/-- The state after a move whose result is replaced. -/
theorem after_bind_pure {α β : Type} (x : EStateM ε σ α) (b : β) (s : σ) :
    after ((x >>= fun _ => pure b : EStateM ε σ β) s) = after (x s) := by
  cases h : x s with
  | ok a s' => rw [bind_of_ok h]; rfl
  | error e s' => rw [bind_of_error h]; rfl

/-- **A move keeps a relation** if it holds between the state before the move and the state after it,
    whatever becomes of the move. -/
def Keeps (R : σ → σ → Prop) (x : EStateM ε σ α) : Prop := ∀ s, R s (after (x s))

namespace Keeps

variable {R : σ → σ → Prop}

/-- What comes after a look at the state. -/
theorem get_bind {g : σ → EStateM ε σ β} (hg : ∀ s, Keeps R (g s)) : Keeps R (get >>= g) :=
  fun s => hg s s

protected theorem modify {g : σ → σ} (hg : ∀ s, R s (g s)) :
    Keeps R (modify g : EStateM ε σ PUnit) := hg

variable [IsPreorder σ R]

protected theorem pure (a : α) : Keeps R (pure a : EStateM ε σ α) := fun s => refl_of R s

protected theorem throw (e : ε) : Keeps R (throw e : EStateM ε σ α) := fun s => refl_of R s

protected theorem bind (hx : Keeps R x) (hf : ∀ a, Keeps R (f a)) : Keeps R (x >>= f) := by
  intro s
  have hs := hx s
  cases h : x s with
  | ok a s₁ =>
    rw [h] at hs
    rw [bind_of_ok h]
    exact trans_of R hs (hf a s₁)
  | error e s₁ =>
    rw [h] at hs
    rw [bind_of_error h]
    exact hs

end Keeps

/-! ## What moves do not see -/

/-- A result in another state. -/
def inState (f : σ → σ) : EStateM.Result ε σ α → EStateM.Result ε σ α
  | .ok a s => .ok a (f s)
  | .error e s => .error e (f s)

@[simp] theorem after_inState (g : σ → σ) (r : EStateM.Result ε σ α) :
    after (inState g r) = g (after r) := by
  cases r <;> rfl

/-- **A move does not see a change of the state** if it comes to the same with the change as without it,
    and leaves the change in place. -/
def Ignores (g : σ → σ) (x : EStateM ε σ α) : Prop := ∀ s, x (g s) = inState g (x s)

/-- **A move does not see a change of the state unless it fails**, without the change, in a certain
    way. -/
def IgnoresUnless (Q : ε → Prop) (g : σ → σ) (x : EStateM ε σ α) : Prop :=
  ∀ s, (∃ e s', x s = .error e s' ∧ Q e) ∨ x (g s) = inState g (x s)

namespace IgnoresUnless

variable {Q : ε → Prop} {g : σ → σ}

protected theorem pure (a : α) : IgnoresUnless Q g (pure a : EStateM ε σ α) := fun _ => .inr rfl

protected theorem throw (e : ε) : IgnoresUnless Q g (throw e : EStateM ε σ α) := fun _ => .inr rfl

protected theorem modify {h : σ → σ} (hh : ∀ s, h (g s) = g (h s)) :
    IgnoresUnless Q g (modify h : EStateM ε σ PUnit) := by
  refine fun s => .inr ?_
  show EStateM.Result.ok PUnit.unit (h (g s)) = .ok PUnit.unit (g (h s))
  rw [hh]

/-- What comes after a look at a part of the state that is not changed. -/
theorem get_bind {k : σ → EStateM ε σ β} (hsame : ∀ s, k (g s) = k s)
    (hk : ∀ s, IgnoresUnless Q g (k s)) : IgnoresUnless Q g (get >>= k) := by
  intro s
  rw [Move.get_bind, Move.get_bind, hsame]
  exact hk s s

protected theorem bind (hx : IgnoresUnless Q g x) (hf : ∀ a, IgnoresUnless Q g (f a)) :
    IgnoresUnless Q g (x >>= f) := by
  intro s
  rcases hx s with ⟨e, s₁, hs, he⟩ | hs
  · exact .inl ⟨e, s₁, bind_of_error hs, he⟩
  · cases h : x s with
    | ok a s₁ =>
      rw [h] at hs
      rw [bind_of_ok h, bind_of_ok hs]
      exact hf a s₁
    | error e s₁ =>
      rw [h] at hs
      rw [bind_of_error h, bind_of_error hs]
      exact .inr rfl

/-- Where there is no such way to fail. -/
theorem ignores (hx : IgnoresUnless (fun _ => False) g x) : Ignores g x := by
  intro s
  rcases hx s with ⟨e, s', -, he⟩ | hs
  · exact he.elim
  · exact hs

end IgnoresUnless

namespace Ignores

variable {g : σ → σ}

theorem weaken (hx : Ignores g x) (Q : ε → Prop) : IgnoresUnless Q g x := fun s => .inr (hx s)

protected theorem pure (a : α) : Ignores g (pure a : EStateM ε σ α) := fun _ => rfl

protected theorem bind (hx : Ignores g x) (hf : ∀ a, Ignores g (f a)) : Ignores g (x >>= f) :=
  ((hx.weaken _).bind fun a => (hf a).weaken _).ignores

end Ignores

/-! ## How far moves raise a measure -/

/-- A move raises a measure of the state by at most a number, whatever becomes of it. -/
def Raises (μ : σ → Nat) (k : Nat) (x : EStateM ε σ α) : Prop := ∀ s, μ (after (x s)) ≤ μ s + k

namespace Raises

variable {μ : σ → Nat} {k : Nat}

protected theorem pure (a : α) : Raises μ k (pure a : EStateM ε σ α) := fun _ => Nat.le_add_right _ _

protected theorem throw (e : ε) : Raises μ k (throw e : EStateM ε σ α) :=
  fun _ => Nat.le_add_right _ _

protected theorem modify {h : σ → σ} (hh : ∀ s, μ (h s) ≤ μ s + k) :
    Raises μ k (modify h : EStateM ε σ PUnit) := hh

theorem get_bind {g : σ → EStateM ε σ β} (hg : ∀ s, Raises μ k (g s)) : Raises μ k (get >>= g) :=
  fun s => hg s s

/-- What comes before raises nothing. -/
protected theorem bind (hx : Raises μ 0 x) (hf : ∀ a, Raises μ k (f a)) : Raises μ k (x >>= f) := by
  intro s
  have hs := hx s
  cases h : x s with
  | ok a s₁ =>
    rw [h] at hs
    rw [bind_of_ok h]
    exact Nat.le_trans (hf a s₁) (Nat.add_le_add_right hs k)
  | error e s₁ =>
    rw [h] at hs
    rw [bind_of_error h]
    exact Nat.le_trans hs (Nat.le_add_right _ _)

end Raises

end Move

/-! ## Computations in step -/

/-- **Two results agree** if both are there and related, or both are the same failure. -/
inductive Agree {ε α β : Type} (Q : α → β → Prop) : Except ε α → Except ε β → Prop
  | ok {a : α} {b : β} (h : Q a b) : Agree Q (.ok a) (.ok b)
  | error (e : ε) : Agree Q (.error e) (.error e)

namespace Agree

variable {ε α β α' β' : Type} {Q : α → β → Prop} {Q' : α' → β' → Prop}

theorem refl (x : Except ε α) : Agree Eq x x := by
  cases x with
  | ok a => exact .ok rfl
  | error e => exact .error e

protected theorem bind {x : Except ε α} {y : Except ε β} {f : α → Except ε α'} {g : β → Except ε β'}
    (hx : Agree Q x y) (hf : ∀ a b, Q a b → Agree Q' (f a) (g b)) :
    Agree Q' (x >>= f) (y >>= g) := by
  cases hx with
  | ok h => exact hf _ _ h
  | error e => exact .error e

protected theorem map {x : Except ε α} {y : Except ε β} {f : α → α'} {g : β → β'}
    (hx : Agree Q x y) (hf : ∀ a b, Q a b → Q' (f a) (g b)) : Agree Q' (f <$> x) (g <$> y) := by
  cases hx with
  | ok h => exact .ok (hf _ _ h)
  | error e => exact .error e

/-- One result for each entry of a list. -/
protected theorem mapM {γ : Type} {f : γ → Except ε α} {g : γ → Except ε β}
    (hf : ∀ c, Agree Q (f c) (g c)) (cs : List γ) :
    Agree (List.Forall₂ Q) (cs.mapM f) (cs.mapM g) := by
  induction cs with
  | nil => exact .ok .nil
  | cons c cs ih =>
    rw [List.mapM_cons, List.mapM_cons]
    refine (hf c).bind fun a b hab => ?_
    exact ih.bind fun as bs habs => .ok (.cons hab habs)

end Agree

namespace Move

variable {ε σ τ α β α' β' : Type}

/-- **Two moves end alike**: in states that are related, with results that are related or with the same
    failure. -/
inductive EndAlike (R : σ → τ → Prop) (Q : α → β → Prop) :
    EStateM.Result ε σ α → EStateM.Result ε τ β → Prop
  | ok {a : α} {b : β} {s : σ} {t : τ} (hab : Q a b) (hst : R s t) : EndAlike R Q (.ok a s) (.ok b t)
  | error (e : ε) {s : σ} {t : τ} (hst : R s t) : EndAlike R Q (.error e s) (.error e t)

/-- **Two moves in step** end alike whenever they start in states that are related. -/
def InStep (R : σ → τ → Prop) (Q : α → β → Prop) (x : EStateM ε σ α) (y : EStateM ε τ β) : Prop :=
  ∀ s t, R s t → EndAlike R Q (x s) (y t)

namespace InStep

variable {R : σ → τ → Prop} {Q : α → β → Prop} {Q' : α' → β' → Prop}

/-- Both fail, or both succeed. -/
theorem ends {x : EStateM ε σ α} {y : EStateM ε τ β} (h : InStep R Q x y) {s : σ} {t : τ}
    (hst : R s t) :
    (∃ e s₁ t₁, x s = .error e s₁ ∧ y t = .error e t₁ ∧ R s₁ t₁) ∨
    ∃ a s₁ b t₁, x s = .ok a s₁ ∧ y t = .ok b t₁ ∧ Q a b ∧ R s₁ t₁ := by
  have hends := h s t hst
  generalize x s = r, y t = r' at hends ⊢
  cases hends with
  | ok hab hst₁ => exact .inr ⟨_, _, _, _, rfl, rfl, hab, hst₁⟩
  | error e hst₁ => exact .inl ⟨e, _, _, rfl, rfl, hst₁⟩

protected theorem pure {a : α} {b : β} (h : Q a b) :
    InStep R Q (pure a : EStateM ε σ α) (pure b) := fun _ _ hst => .ok h hst

protected theorem throw (e : ε) : InStep R Q (throw e : EStateM ε σ α) (throw e) :=
  fun _ _ hst => .error e hst

protected theorem modify {g : σ → σ} {g' : τ → τ} (h : ∀ s t, R s t → R (g s) (g' t)) :
    InStep R Eq (modify g : EStateM ε σ PUnit) (modify g') := fun s t hst => .ok rfl (h s t hst)

/-- What comes after a look at the state. -/
theorem get_bind {k : σ → EStateM ε σ α} {k' : τ → EStateM ε τ β}
    (h : ∀ s t, R s t → InStep R Q (k s) (k' t)) : InStep R Q (get >>= k) (get >>= k') :=
  fun s t hst => h s t hst s t hst

protected theorem bind {x : EStateM ε σ α} {y : EStateM ε τ β} {f : α → EStateM ε σ α'}
    {g : β → EStateM ε τ β'} (hx : InStep R Q x y) (hf : ∀ a b, Q a b → InStep R Q' (f a) (g b)) :
    InStep R Q' (x >>= f) (y >>= g) := by
  intro s t hst
  rcases hx.ends hst with ⟨e, s₁, t₁, hxs, hyt, hst₁⟩ | ⟨a, s₁, b, t₁, hxs, hyt, hab, hst₁⟩
  · rw [bind_of_error hxs, bind_of_error hyt]
    exact .error e hst₁
  · rw [bind_of_ok hxs, bind_of_ok hyt]
    exact hf a b hab s₁ t₁ hst₁

/-- What comes after two moves that give the same result. -/
theorem bind_same {γ : Type} {x : EStateM ε σ γ} {y : EStateM ε τ γ} {f : γ → EStateM ε σ α}
    {g : γ → EStateM ε τ β} (hx : InStep R Eq x y) (hf : ∀ c, InStep R Q (f c) (g c)) :
    InStep R Q (x >>= f) (y >>= g) := by
  refine hx.bind ?_
  rintro c _ rfl
  exact hf c

end InStep

end Move

/-! ## Values of a type -/

/-- A value of an integer type is an integer. -/
theorem Value.eq_int_of_type {w : Width} {v : Value} (h : v.type = .int w) : ∃ x, v = .int w x := by
  cases w with
  | w32 => cases v with
    | i32 x => exact ⟨x, rfl⟩
    | _ => cases h
  | w64 => cases v with
    | i64 x => exact ⟨x, rfl⟩
    | _ => cases h

/-- A value of a float type is a float. -/
theorem Value.eq_float_of_type {w : Width} {v : Value} (h : v.type = .float w) :
    ∃ x, v = .float w x := by
  cases w with
  | w32 => cases v with
    | f32 x => exact ⟨x, rfl⟩
    | _ => cases h
  | w64 => cases v with
    | f64 x => exact ⟨x, rfl⟩
    | _ => cases h

theorem Value.eq_i32_of_type {v : Value} (h : v.type = .i32) : ∃ x, v = .i32 x :=
  Value.eq_int_of_type (w := .w32) h

/-- One value of a type. -/
theorem values_of_one {vs : List Value} {t : ValType} (h : vs.map Value.type = [t]) :
    ∃ v, vs = [v] ∧ v.type = t := by
  obtain ⟨v, rest, rfl, ht, hrest⟩ := List.map_eq_cons_iff.mp h
  cases List.map_eq_nil_iff.mp hrest
  exact ⟨v, rfl, ht⟩

/-- Two values of given types. -/
theorem values_of_two {vs : List Value} {t t' : ValType} (h : vs.map Value.type = [t, t']) :
    ∃ v v', vs = [v, v'] ∧ v.type = t ∧ v'.type = t' := by
  obtain ⟨v, rest, rfl, ht, hrest⟩ := List.map_eq_cons_iff.mp h
  obtain ⟨v', rfl, ht'⟩ := values_of_one hrest
  exact ⟨v, v', rfl, ht, ht'⟩

/-- Three values of given types. -/
theorem values_of_three {vs : List Value} {t t' t'' : ValType}
    (h : vs.map Value.type = [t, t', t'']) :
    ∃ v v' v'', vs = [v, v', v''] ∧ v.type = t ∧ v'.type = t' ∧ v''.type = t'' := by
  obtain ⟨v, rest, rfl, ht, hrest⟩ := List.map_eq_cons_iff.mp h
  obtain ⟨v', v'', rfl, ht', ht''⟩ := values_of_two hrest
  exact ⟨v, v', v'', rfl, ht, ht', ht''⟩

/-- One integer. -/
theorem values_of_i32 {vs : List Value} (h : vs.map Value.type = [.i32]) : ∃ x, vs = [.i32 x] := by
  obtain ⟨v, rfl, hv⟩ := values_of_one h
  obtain ⟨x, rfl⟩ := Value.eq_i32_of_type hv
  exact ⟨x, rfl⟩

/-- As many values as types. -/
theorem length_of_types {vs : List Value} {ts : List ValType}
    (h : vs.map Value.type = ts.reverse) : vs.length = ts.length := by
  have hlength := congrArg List.length h
  rwa [List.length_map, List.length_reverse] at hlength

/-- Values of some types above values of others. -/
theorem values_above {vs : List Value} {below ts : List ValType}
    (h : vs.map Value.type = (below ++ ts).reverse) :
    ∃ top lower, vs = top ++ lower ∧ top.map Value.type = ts.reverse ∧
      lower.map Value.type = below.reverse := by
  rw [List.reverse_append] at h
  exact List.map_eq_append_iff.mp h

/-- An integer above values of some types. -/
theorem values_i32_above {vs : List Value} {ts : List ValType}
    (h : vs.map Value.type = (ts ++ [ValType.i32]).reverse) :
    ∃ x rest, vs = .i32 x :: rest ∧ rest.map Value.type = ts.reverse := by
  rw [List.reverse_concat] at h
  obtain ⟨v, rest, rfl, hv, hrest⟩ := List.map_eq_cons_iff.mp h
  obtain ⟨x, rfl⟩ := Value.eq_i32_of_type hv
  exact ⟨x, rest, rfl, hrest⟩

/-- Operands in the order in which they were pushed are arguments. -/
theorem types_reverse {vs : List Value} {ts : List ValType}
    (h : vs.map Value.type = ts.reverse) : vs.reverse.map Value.type = ts := by
  rw [List.map_reverse, h, List.reverse_reverse]

/-! ## Number operations -/

theorem divide_not_internal {w : Width} {s : Signedness} {a b : w.Word} {t : Trap}
    (h : divide s a b = .error t) : t.internal = false := by
  unfold divide at h
  split at h
  · cases h; rfl
  · split at h
    · cases h
    · split at h
      · cases h; rfl
      · cases h

theorem remainder_not_internal {w : Width} {s : Signedness} {a b : w.Word} {t : Trap}
    (h : remainder s a b = .error t) : t.internal = false := by
  unfold remainder at h
  split at h
  · cases h; rfl
  · split at h <;> cases h

theorem IntBinary.eval_not_internal {w : Width} {op : IntBinary} {a b : w.Word} {t : Trap}
    (h : op.eval a b = .error t) : t.internal = false := by
  cases op with
  | div s => exact divide_not_internal h
  | rem s => exact remainder_not_internal h
  | _ => cases h

theorem truncateFloat_not_internal {w v : Width} {s : Signedness} {a : w.Word} {t : Trap}
    (h : truncateFloat w v s a = .error t) : t.internal = false := by
  simp only [truncateFloat] at h
  split at h
  · cases h; rfl
  · split at h
    · cases h
    · cases h; rfl

/-- **What a move makes of the operands on top**, whatever is below them: it either leaves a value of
    a type in their place or traps, and not by a fault of the machine. -/
def Computes (f : OperandM Unit) (vs : List Value) (type : ValType) : Prop :=
  (∃ v : Value, v.type = type ∧ ∀ s : Operands, f (s.pushAll vs) = .ok () (s.push v)) ∨
  (∃ t : Trap, t.internal = false ∧ ∀ s : Operands, ∃ s', f (s.pushAll vs) = .error t s')

/-- A conversion of a value of its type. -/
theorem Conversion.eval_of_type (c : Conversion) {v : Value} (h : v.type = c.source) :
    Computes c.eval [v] c.target := by
  cases c with
  | wrap =>
    obtain ⟨x, rfl⟩ := Value.eq_int_of_type (w := .w64) h
    exact Or.inl ⟨_, rfl, fun s => rfl⟩
  | extend sign =>
    obtain ⟨x, rfl⟩ := Value.eq_int_of_type (w := .w32) h
    exact Or.inl ⟨_, rfl, fun s => rfl⟩
  | truncate source target sign =>
    obtain ⟨x, rfl⟩ := Value.eq_float_of_type h
    have hpop : ∀ s : Operands, OperandM.popFloat source (s.pushAll [.float source x]) = .ok x s :=
      fun s => OperandM.popFloat_push source x s
    cases hx : truncateFloat source target sign x with
    | ok y =>
      refine Or.inl ⟨.int target y, Value.type_int target y, fun s => ?_⟩
      rw [Conversion.eval, Move.bind_of_ok (hpop s), hx]; rfl
    | error t =>
      refine Or.inr ⟨t, truncateFloat_not_internal hx, fun s => ⟨s, ?_⟩⟩
      rw [Conversion.eval, Move.bind_of_ok (hpop s), hx]; rfl
  | convert source target sign =>
    obtain ⟨x, rfl⟩ := Value.eq_int_of_type h
    refine Or.inl ⟨.float target (convertInteger source target sign x), Value.type_float _ _,
      fun s => ?_⟩
    exact Move.bind_of_ok (OperandM.popInt_push source x s)
  | demote =>
    obtain ⟨x, rfl⟩ := Value.eq_float_of_type (w := .w64) h
    exact Or.inl ⟨_, rfl, fun s => rfl⟩
  | promote =>
    obtain ⟨x, rfl⟩ := Value.eq_float_of_type (w := .w32) h
    exact Or.inl ⟨_, rfl, fun s => rfl⟩
  | floatBits w =>
    obtain ⟨x, rfl⟩ := Value.eq_float_of_type h
    refine Or.inl ⟨.int w x, Value.type_int w x, fun s => ?_⟩
    exact Move.bind_of_ok (OperandM.popFloat_push w x s)
  | ofBits w =>
    obtain ⟨x, rfl⟩ := Value.eq_int_of_type h
    refine Or.inl ⟨.float w x, Value.type_float w x, fun s => ?_⟩
    exact Move.bind_of_ok (OperandM.popInt_push w x s)

/-- A binary operation on its two operands, the second of them on top. -/
theorem NumOp.eval_intBinary (w : Width) (op : IntBinary) (a b : w.Word) (s : Operands) :
    (NumOp.intBinary w op).eval (s.pushAll [.int w b, .int w a]) =
      (match op.eval a b with
        | .ok x => OperandM.push (.int w x)
        | .error t => throw t : OperandM Unit) s :=
  (Move.bind_of_ok (OperandM.popInt_push w b (s.push _))).trans
    (Move.bind_of_ok (OperandM.popInt_push w a s))

/-- **Number operations on operands of their types.** -/
theorem NumOp.eval_of_types (op : NumOp) {vs : List Value}
    (h : vs.map Value.type = op.operands.reverse) : Computes op.eval vs op.result := by
  cases op with
  | intTest w =>
    obtain ⟨v, rfl, hv⟩ := values_of_one h
    obtain ⟨x, rfl⟩ := Value.eq_int_of_type hv
    refine Or.inl ⟨.ofBool (x = .ofNat 0), Value.type_ofBool _, fun s => ?_⟩
    exact Move.bind_of_ok (OperandM.popInt_push w x s)
  | intCompare w op =>
    obtain ⟨v, v', rfl, hv, hv'⟩ := values_of_two h
    obtain ⟨b, rfl⟩ := Value.eq_int_of_type hv
    obtain ⟨a, rfl⟩ := Value.eq_int_of_type hv'
    refine Or.inl ⟨.ofBool (op.eval a b), Value.type_ofBool _, fun s => ?_⟩
    exact (Move.bind_of_ok (OperandM.popInt_push w b (s.push _))).trans
      (Move.bind_of_ok (OperandM.popInt_push w a s))
  | floatCompare w op =>
    obtain ⟨v, v', rfl, hv, hv'⟩ := values_of_two h
    obtain ⟨b, rfl⟩ := Value.eq_float_of_type hv
    obtain ⟨a, rfl⟩ := Value.eq_float_of_type hv'
    refine Or.inl ⟨.ofBool (op.eval a b), Value.type_ofBool _, fun s => ?_⟩
    exact (Move.bind_of_ok (OperandM.popFloat_push w b (s.push _))).trans
      (Move.bind_of_ok (OperandM.popFloat_push w a s))
  | intUnary w op =>
    obtain ⟨v, rfl, hv⟩ := values_of_one h
    obtain ⟨x, rfl⟩ := Value.eq_int_of_type hv
    refine Or.inl ⟨.int w (op.eval x), Value.type_int w _, fun s => ?_⟩
    exact Move.bind_of_ok (OperandM.popInt_push w x s)
  | intBinary w op =>
    obtain ⟨v, v', rfl, hv, hv'⟩ := values_of_two h
    obtain ⟨b, rfl⟩ := Value.eq_int_of_type hv
    obtain ⟨a, rfl⟩ := Value.eq_int_of_type hv'
    cases hx : op.eval a b with
    | ok x =>
      refine Or.inl ⟨.int w x, Value.type_int w x, fun s => ?_⟩
      rw [NumOp.eval_intBinary, hx]; rfl
    | error t =>
      refine Or.inr ⟨t, IntBinary.eval_not_internal hx, fun s => ⟨s, ?_⟩⟩
      rw [NumOp.eval_intBinary, hx]; rfl
  | floatUnary w op =>
    obtain ⟨v, rfl, hv⟩ := values_of_one h
    obtain ⟨x, rfl⟩ := Value.eq_float_of_type hv
    refine Or.inl ⟨.float w (op.eval x), Value.type_float w _, fun s => ?_⟩
    exact Move.bind_of_ok (OperandM.popFloat_push w x s)
  | floatBinary w op =>
    obtain ⟨v, v', rfl, hv, hv'⟩ := values_of_two h
    obtain ⟨b, rfl⟩ := Value.eq_float_of_type hv
    obtain ⟨a, rfl⟩ := Value.eq_float_of_type hv'
    refine Or.inl ⟨.float w (op.eval a b), Value.type_float w _, fun s => ?_⟩
    exact (Move.bind_of_ok (OperandM.popFloat_push w b (s.push _))).trans
      (Move.bind_of_ok (OperandM.popFloat_push w a s))
  | convert c =>
    obtain ⟨v, rfl, hv⟩ := values_of_one h
    exact c.eval_of_type hv

end WasmCore
