/-!
# Writing a run of entries

Segments, stores and host writes all put a run of consecutive entries into an array: bytes into a
memory, functions into a table.

## Contents

* `overwriteFrom`: an array with a run of entries written from a position on;
* `size_overwriteFrom`, `getElem?_overwriteFrom`: its size stays, and so does every entry outside
  the run;
* `modifyM_of_test`: changing an entry of an array that passes a test.
-/

namespace WasmCore

variable {α : Type}

/-- An array with entries written from a position on. What would come to stand past the end is
dropped. -/
def overwriteFrom (data : Array α) : (start : Nat) → List α → Array α
  | _, [] => data
  | start, x :: xs => overwriteFrom (data.setIfInBounds start x) (start + 1) xs

@[simp] theorem size_overwriteFrom (data : Array α) (start : Nat) (xs : List α) :
    (overwriteFrom data start xs).size = data.size := by
  induction xs generalizing data start with
  | nil => rfl
  | cons x xs ih => simp [overwriteFrom, ih]

/-- Before the run nothing changes. -/
theorem getElem?_overwriteFrom_of_lt (data : Array α) {start i : Nat} (xs : List α)
    (h : i < start) : (overwriteFrom data start xs)[i]? = data[i]? := by
  induction xs generalizing data start with
  | nil => rfl
  | cons x xs ih =>
    rw [overwriteFrom, ih _ (by omega), Array.getElem?_setIfInBounds_ne (by omega)]

/-- Inside the run the written entries stand, elsewhere the old ones. -/
theorem getElem?_overwriteFrom (data : Array α) (start : Nat) (xs : List α) (i : Nat) :
    (overwriteFrom data start xs)[i]? =
      if start ≤ i ∧ i < start + xs.length ∧ i < data.size then xs[i - start]? else data[i]? := by
  induction xs generalizing data start with
  | nil =>
    rw [if_neg (by simp only [List.length_nil]; omega)]
    rfl
  | cons x xs ih =>
    rcases Nat.lt_trichotomy i start with h | h | h
    · rw [getElem?_overwriteFrom_of_lt _ _ h, if_neg (by omega)]
    · subst h
      rw [overwriteFrom, getElem?_overwriteFrom_of_lt _ _ (by omega),
        Array.getElem?_setIfInBounds_self]
      by_cases hi : i < data.size
      · simp [hi]
      · simp [hi]
    · have hs : i - start = (i - (start + 1)) + 1 := by omega
      rw [overwriteFrom, ih, hs, List.getElem?_cons_succ,
        Array.getElem?_setIfInBounds_ne (by omega)]
      simp only [Array.size_setIfInBounds, List.length_cons]
      congr 1
      simp only [eq_iff_iff]
      omega

/-- Changing one entry, where a test decides whether it can be changed. An entry that is not there is
passed over. -/
theorem modifyM_of_test {ε : Type} (data : Array α) (i : Nat) {f : α → Except ε α}
    {test : α → Bool} {change : α → α} {e : ε}
    (hf : ∀ x, f x = if test x then .ok (change x) else .error e) :
    data.modifyM i f = if (data[i]?).all test then .ok (data.modify i change) else .error e := by
  unfold Array.modify Array.modifyM
  by_cases hi : i < data.size
  · rw [dif_pos hi, dif_pos hi, Array.getElem?_eq_getElem hi, Option.all_some]
    dsimp only
    rw [hf]
    cases test data[i] <;> rfl
  · rw [dif_neg hi, dif_neg hi, Array.getElem?_eq_none (Nat.le_of_not_lt hi)]
    rfl

end WasmCore
