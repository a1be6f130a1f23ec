/-!
# Stacks

A stack is a list with its top first that also knows its height. Machine and checker compare
heights at every turn, so a stack must not be walked to find its own. All that a stack is can be
read off its list.

## Contents

* `Stack`: entries and their number;
* `Stack.push`, `Stack.pushAll`, `Stack.pop?`, `Stack.drop`, `Stack.lower`: operations;
* what each of them does to the list and to the height.
-/

namespace WasmCore

/-- Entries, the top first, and their number. -/
structure Stack (α : Type) where
  toList : List α
  height : Nat
  height_eq : height = toList.length

namespace Stack

variable {α : Type}

@[ext] theorem ext {s t : Stack α} (h : s.toList = t.toList) : s = t := by
  obtain ⟨xs, m, hm⟩ := s
  obtain ⟨ys, n, hn⟩ := t
  cases h
  rw [← hn] at hm
  cases hm
  rfl

instance [DecidableEq α] : DecidableEq (Stack α) := fun s t =>
  decidable_of_iff (s.toList = t.toList) ⟨ext, congrArg toList⟩

@[simp] theorem length_toList (s : Stack α) : s.toList.length = s.height := s.height_eq.symm

/-! ## Operations -/

/-- The stack with the given entries, the top first. -/
def ofList (xs : List α) : Stack α := ⟨xs, xs.length, rfl⟩

instance : EmptyCollection (Stack α) := ⟨[], 0, rfl⟩

/-- Puts an entry on top. -/
@[inline] def push (a : α) (s : Stack α) : Stack α where
  toList := a :: s.toList
  height := s.height + 1
  height_eq := by simp

/-- Puts entries on top, the first one topmost. -/
def pushAll (xs : List α) (s : Stack α) : Stack α where
  toList := xs ++ s.toList
  height := s.height + xs.length
  height_eq := by simp [Nat.add_comm]

/-- The top and what is below it. -/
@[inline] def pop? : Stack α → Option (α × Stack α)
  | ⟨[], _, _⟩ => none
  | ⟨a :: rest, height, h⟩ =>
    some (a, ⟨rest, height - 1, by rw [h, List.length_cons, Nat.add_sub_cancel]⟩)

/-- The stack without the given number of entries on top. -/
def drop (count : Nat) (s : Stack α) : Stack α where
  toList := s.toList.drop count
  height := s.height - count
  height_eq := by simp

/-- The lowest entries, as many as given. -/
def lower (height : Nat) (s : Stack α) : Stack α := s.drop (s.height - height)

/-! ## Laws -/

@[simp] theorem toList_ofList (xs : List α) : (ofList xs).toList = xs := rfl

@[simp] theorem height_ofList (xs : List α) : (ofList xs).height = xs.length := (rfl)

@[simp] theorem toList_empty : (∅ : Stack α).toList = [] := rfl

@[simp] theorem height_empty : (∅ : Stack α).height = 0 := (rfl)

@[simp] theorem toList_push (a : α) (s : Stack α) : (s.push a).toList = a :: s.toList := rfl

@[simp] theorem height_push (a : α) (s : Stack α) : (s.push a).height = s.height + 1 := (rfl)

@[simp] theorem toList_pushAll (xs : List α) (s : Stack α) :
    (s.pushAll xs).toList = xs ++ s.toList := rfl

@[simp] theorem height_pushAll (xs : List α) (s : Stack α) :
    (s.pushAll xs).height = s.height + xs.length := (rfl)

@[simp] theorem toList_drop (count : Nat) (s : Stack α) :
    (s.drop count).toList = s.toList.drop count := rfl

@[simp] theorem height_drop (count : Nat) (s : Stack α) :
    (s.drop count).height = s.height - count := (rfl)

@[simp] theorem pop?_push (a : α) (s : Stack α) : (s.push a).pop? = some (a, s) := rfl

/-- Only an empty stack has no top. -/
theorem pop?_eq_none_iff (s : Stack α) : s.pop? = none ↔ s = ∅ := by
  obtain ⟨xs, n, h⟩ := s
  cases xs with
  | nil => exact ⟨fun _ => ext rfl, fun _ => rfl⟩
  | cons a rest => exact ⟨nofun, fun h => by simpa using congrArg toList h⟩

/-- What has a top is the top on what is below it. -/
theorem pop?_eq_some_iff (s t : Stack α) (a : α) : s.pop? = some (a, t) ↔ s = t.push a := by
  obtain ⟨xs, n, h⟩ := s
  cases xs with
  | nil => exact ⟨nofun, fun h => by simpa using congrArg toList h⟩
  | cons b rest =>
    constructor
    · intro h
      cases h
      exact ext rfl
    · intro h
      rw [h, pop?_push]

@[simp] theorem height_lower (height : Nat) (s : Stack α) :
    (s.lower height).height = min height s.height := by
  simp only [lower, height_drop]
  omega

/-- The entries below a number of others are the lowest ones. -/
@[simp] theorem lower_pushAll (xs : List α) (s : Stack α) :
    (s.pushAll xs).lower s.height = s := by
  apply ext
  simp only [lower, height_pushAll, toList_drop, toList_pushAll, Nat.add_sub_cancel_left,
    List.drop_left]

end Stack

end WasmCore
