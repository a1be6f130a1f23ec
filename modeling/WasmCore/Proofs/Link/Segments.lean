import Mathlib.Order.Defs.Unbundled
import WasmCore.Link.Instantiate

/-!
# `Link.Segments` — what is checked before segments are written, and what writing checks

Whether a segment fits is asked twice. Before anything is written all segments are checked, so that a
module which cannot be instantiated changes no table and no memory. Later, tables and memories check for
themselves what is written to them. Both ask the same of one segment, and writing it moves no bound that
another segment was checked against, so that the second question is never answered differently.

* `Segment.write`: a segment written, whether it fits or not;
* `Segment.init_eq_ok_iff`: **a segment can be written exactly if it fits** where its target is there;
* `Segment.fits_write`, `Store.writeSegments_of_fits`: **segments that fit can all be written**;
* `Store.writeSegments_cons_cases`, `Store.rel_writeSegments`: segments that may not fit.
-/

namespace WasmCore

/-! ## Tests -/

/-- Two ways to ask something of an entry that may not be there. -/
theorem all_getElem?_iff {α : Type} {xs : Array α} {i : Nat} {test : α → Bool} :
    (xs[i]?).all test = true ↔ (i < xs.size → (xs[i]?).any test = true) := by
  by_cases hi : i < xs.size
  · rw [Array.getElem?_eq_getElem hi, Option.all_some, Option.any_some]
    exact ⟨fun h _ => h, fun h => h hi⟩
  · rw [Array.getElem?_eq_none (Nat.le_of_not_lt hi)]
    exact ⟨fun _ h => absurd h hi, fun _ => rfl⟩

theorem ite_eq_ok_iff {ε α : Type} {test : Bool} {a b : α} {e : ε} :
    (if test then Except.ok a else Except.error e) = .ok b ↔ test = true ∧ b = a := by
  cases test with
  | true => exact ⟨fun h => ⟨rfl, (Except.ok.inj h).symm⟩, fun h => congrArg Except.ok h.2.symm⟩
  | false => exact ⟨nofun, nofun⟩

/-! ## One segment -/

namespace Segment

variable {g : Segment} {s s' : Store}

/-- The store with a segment written. -/
def write (s : Store) : Segment → Store
  | elem a offset funcs => s.fillTable a offset funcs
  | data a offset bytes => s.overwriteMemory a offset bytes

/-- The table or memory that a segment is for is there. -/
def HasTarget (s : Store) : Segment → Prop
  | elem a _ _ => a < s.tables.size
  | data a _ _ => a < s.memories.size

/-- **A segment can be written exactly if it fits.** One whose table or memory is not there is passed
    over. -/
theorem init_eq_ok_iff :
    g.init s = .ok s' ↔ (g.HasTarget s → g.fits s = true) ∧ s' = g.write s := by
  cases g with
  | elem a offset funcs =>
    rw [init, Store.initTable_eq, ite_eq_ok_iff, all_getElem?_iff]
    rfl
  | data a offset bytes =>
    rw [init, Store.initMemory_eq, ite_eq_ok_iff, all_getElem?_iff]
    rfl

theorem init_of_fits (h : g.fits s = true) : g.init s = .ok (g.write s) :=
  init_eq_ok_iff.mpr ⟨fun _ => h, rfl⟩

/-- **Writing one segment does not change whether another fits.** -/
theorem fits_write (g g' : Segment) (s : Store) : g.fits (g'.write s) = g.fits s := by
  cases g with
  | elem a offset funcs =>
    cases g' with
    | data a' offset' bytes => rfl
    | elem a' offset' funcs' =>
      show ((s.tables.modify a' _)[a]?).any _ = (s.tables[a]?).any _
      rw [Array.getElem?_modify]
      by_cases h : a' = a
      · rw [if_pos h, Option.any_map]
        simp only [Table.fits, Table.size_fill]
      · rw [if_neg h]
  | data a offset bytes =>
    cases g' with
    | elem a' offset' funcs => rfl
    | data a' offset' bytes' =>
      show ((s.memories.modify a' _)[a]?).any _ = (s.memories[a]?).any _
      rw [Array.getElem?_modify]
      by_cases h : a' = a
      · rw [if_pos h, Option.any_map]
        simp only [Memory.fits_overwrite]
      · rw [if_neg h]

end Segment

namespace Store

variable {s : Store}

/-! ## Segments that fit -/

/-- Of segments that fit, the first is written, and then the others, which still fit. -/
theorem writeSegments_cons {g : Segment} {gs : List Segment} (h : ∀ g' ∈ g :: gs, g'.fits s = true) :
    s.writeSegments (g :: gs) = (g.write s).writeSegments gs ∧
      ∀ g' ∈ gs, g'.fits (g.write s) = true := by
  refine ⟨?_, fun g' hg' => ?_⟩
  · rw [writeSegments, Segment.init_of_fits (h g List.mem_cons_self)]
  · rw [Segment.fits_write]
    exact h g' (List.mem_cons_of_mem g hg')

/-- **Segments that fit at the beginning can be written one after another.** -/
theorem writeSegments_of_fits {gs : List Segment} (h : ∀ g ∈ gs, g.fits s = true) :
    (s.writeSegments gs).1 = .ok () := by
  induction gs generalizing s with
  | nil => rfl
  | cons g gs ih =>
    obtain ⟨hcons, hrest⟩ := writeSegments_cons h
    rw [hcons]
    exact ih hrest

/-! ## Any segments -/

/-- The first of several segments is written, and then the others, or nothing is written. -/
theorem writeSegments_cons_cases (s : Store) (g : Segment) (gs : List Segment) :
    (s.writeSegments (g :: gs)).2 = ((g.write s).writeSegments gs).2 ∨
      (s.writeSegments (g :: gs)).2 = s := by
  rw [writeSegments]
  cases hinit : g.init s with
  | ok s' =>
    obtain ⟨-, rfl⟩ := Segment.init_eq_ok_iff.mp hinit
    exact .inl rfl
  | error t => exact .inr rfl

/-- **What writing one segment keeps, writing several keeps**, however far it comes. -/
theorem rel_writeSegments {R : Store → Store → Prop} [IsPreorder Store R]
    (hwrite : ∀ (s : Store) (g : Segment), R s (g.write s)) (s : Store) (gs : List Segment) :
    R s (s.writeSegments gs).2 := by
  induction gs generalizing s with
  | nil => exact refl_of R s
  | cons g gs ih =>
    rcases s.writeSegments_cons_cases g gs with hstore | hstore
    · rw [hstore]
      exact trans_of R (hwrite s g) (ih _)
    · rw [hstore]
      exact refl_of R s

end Store

end WasmCore
