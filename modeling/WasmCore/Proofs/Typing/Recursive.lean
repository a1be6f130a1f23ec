import WasmCore.Typing.Checker

/-!
# `Typing.Recursive` — the checker as a recursion over bodies

`Check.walk` keeps the bodies that are open on a list. The same check can be written as a plain
recursion over the nesting of bodies, which is the form that proofs about typing follow.

* `Check.visit`, `Check.visitAll`: one instruction with its bodies, and a sequence;
* `Check.walk_cons`: walking the innermost open body is visiting it, and then going on with the
  bodies around it.
-/

namespace WasmCore.Check

mutual

/-- Checks an instruction and the bodies inside it. -/
def visit (c : BodyContext) : Instr → Check Unit
  | .block t body => do
    instr c (.block t body)
    visitAll c body
    endBody none
  | .loop t body => do
    instr c (.loop t body)
    visitAll c body
    endBody none
  | .ifThen t body => do
    instr c (.ifThen t body)
    visitAll c body
    endBody none
  | .ifElse t body alternate => do
    instr c (.ifElse t body alternate)
    visitAll c body
    endBody (some alternate)
    visitAll c alternate
    endBody none
  | i => instr c i

/-- Checks a sequence of instructions and the bodies inside them. -/
def visitAll (c : BodyContext) : List Instr → Check Unit
  | [] => return ()
  | i :: is => do
    visit c i
    visitAll c is

end

/-! ## Moves in sequence -/

section Bind

variable {α β : Type} {m : Check α} {f : α → Check β} {s s' : CheckState}

theorem bind_of_ok {a : α} (h : m s = .ok (a, s')) : (m >>= f) s = f a s' := by
  show (m s >>= fun p => f p.1 p.2) = f a s'
  rw [h]; rfl

theorem bind_of_error {e : ValidationError} (h : m s = .error e) : (m >>= f) s = .error e := by
  show (m s >>= fun p => f p.1 p.2) = .error e
  rw [h]; rfl

/-- Moves in sequence succeed when each of them does. -/
theorem bind_eq_ok_iff {r : β × CheckState} :
    (m >>= f) s = .ok r ↔ ∃ a s', m s = .ok (a, s') ∧ f a s' = .ok r := by
  constructor
  · intro h
    cases hm : m s with
    | error e => rw [bind_of_error hm] at h; cases h
    | ok p => exact ⟨p.1, p.2, rfl, by rw [bind_of_ok hm] at h; exact h⟩
  · rintro ⟨a, s', hm, hf⟩
    rw [bind_of_ok hm, hf]

end Bind

/-! ## Walking is visiting -/

/-- At the end of an inner body its block is closed, and the walk goes on with the other arm or with
    the body around it. -/
theorem walk_end (c : BodyContext) (alternate : Option (List Instr)) (b : OpenBody)
    (outer : List OpenBody) :
    walk c (⟨[], alternate⟩ :: b :: outer) =
      (do endBody alternate
          match alternate with
          | some arm => walk c (⟨arm, none⟩ :: b :: outer)
          | none => walk c (b :: outer)) := by
  cases alternate with
  | none => rw [walk]; rfl
  | some arm => rw [walk]; rfl

mutual

theorem walk_instr (c : BodyContext) (i : Instr) (rest : List Instr)
    (alternate : Option (List Instr)) (outer : List OpenBody) :
    walk c (⟨i :: rest, alternate⟩ :: outer) =
      (do visit c i; walk c (⟨rest, alternate⟩ :: outer)) := by
  cases i with
  | block t body =>
    rw [walk, visit]
    simp only [Instr.opened, bind_assoc, walk_cons c body, walk_end]
  | loop t body =>
    rw [walk, visit]
    simp only [Instr.opened, bind_assoc, walk_cons c body, walk_end]
  | ifThen t body =>
    rw [walk, visit]
    simp only [Instr.opened, bind_assoc, walk_cons c body, walk_end]
  | ifElse t body arm =>
    rw [walk, visit]
    simp only [Instr.opened, bind_assoc, walk_cons c body, walk_cons c arm, walk_end]
  | _ => simp only [walk, visit, Instr.opened]

/-- **Walking the innermost open body is visiting it**, and then going on with the bodies around
    it. -/
theorem walk_cons (c : BodyContext) (is : List Instr) (alternate : Option (List Instr))
    (outer : List OpenBody) :
    walk c (⟨is, alternate⟩ :: outer) =
      (do visitAll c is; walk c (⟨[], alternate⟩ :: outer)) := by
  cases is with
  | nil => rw [visitAll, pure_bind]
  | cons i is =>
    rw [walk_instr c i is, visitAll, walk_cons c is, bind_assoc]

end

/-- A body that no other is around is visited, and its control frame is left to the caller. -/
theorem walk_single (c : BodyContext) (is : List Instr) :
    walk c [⟨is, none⟩] = visitAll c is := by
  have hend : walk c [⟨[], none⟩] = return () := by rw [walk]; rfl
  rw [walk_cons, hend]
  exact bind_pure _

end WasmCore.Check
