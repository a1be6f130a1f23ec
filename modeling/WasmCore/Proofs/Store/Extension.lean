import Mathlib.Order.Defs.Unbundled
import WasmCore.Store.Basic

/-!
# `Store.Extension` — a store only ever extends

Entries are added to a store and never taken away, and what an entry may turn into is limited by its
kind: a function stays what it is, a table keeps its size, a memory only grows, and a constant global
keeps its value.

* `Kept`: each entry of an array is still there, up to a relation;
* `Table.SameShape`, `Memory.GrownTo`, `GlobalInst.SetTo`: what an entry may turn into;
* `Store.Extends`: **everything in a store is still there in a later one**;
* `extends_modifyTable`, `extends_modifyMemory`, `extends_modifyGlobal`: one entry changes.
-/

namespace WasmCore

/-! ## Entries of an array -/

/-- Each entry of `xs` is still there in `xs'`, at the same position, up to a relation. -/
def Kept {α : Type} (R : α → α → Prop) (xs xs' : Array α) : Prop :=
  ∀ (a : Nat) (x : α), xs[a]? = some x → ∃ x', xs'[a]? = some x' ∧ R x x'

namespace Kept

variable {α : Type} {R : α → α → Prop} {xs xs' : Array α} [IsPreorder α R]

protected theorem refl (xs : Array α) : Kept R xs xs := fun _ x h => ⟨x, h, refl_of R x⟩

omit [IsPreorder α R] in
protected theorem trans [IsTrans α R] {xs'' : Array α} (h : Kept R xs xs') (h' : Kept R xs' xs'') :
    Kept R xs xs'' := by
  intro a x hx
  obtain ⟨x', hx', hR⟩ := h a x hx
  obtain ⟨x'', hx'', hR'⟩ := h' a x' hx'
  exact ⟨x'', hx'', trans_of R hR hR'⟩

/-- New entries at the end change nothing. -/
theorem of_appended (h : xs.toList <+: xs'.toList) : Kept R xs xs' := by
  intro a x hx
  obtain ⟨new, hnew⟩ := h
  rw [← Array.getElem?_toList] at hx
  refine ⟨x, ?_, refl_of R x⟩
  rw [← Array.getElem?_toList, ← hnew,
    List.getElem?_append_left (List.getElem?_eq_some_iff.mp hx).1]
  exact hx

/-- One entry changes. -/
theorem modify (a : Nat) {f : α → α} (hf : ∀ x, xs[a]? = some x → R x (f x)) :
    Kept R xs (xs.modify a f) := by
  intro b x hx
  rw [Array.getElem?_modify, hx]
  by_cases hab : a = b
  · subst hab
    exact ⟨f x, by rw [if_pos rfl]; rfl, hf x hx⟩
  · exact ⟨x, by rw [if_neg hab], refl_of R x⟩

end Kept

/-! ## What an entry may turn into -/

/-- A table of the same size and the same maximum. -/
structure Table.SameShape (t t' : Table) : Prop where
  size : t'.slots.size = t.slots.size
  max : t'.max = t.max

instance : IsPreorder Table Table.SameShape where
  refl _ := ⟨rfl, rfl⟩
  trans _ _ _ h h' := ⟨h'.size.trans h.size, h'.max.trans h.max⟩

/-- A memory of the same maximum with at least as many pages. -/
structure Memory.GrownTo (m m' : Memory) : Prop where
  max : m'.max = m.max
  pages : m.pages ≤ m'.pages

instance : IsPreorder Memory Memory.GrownTo where
  refl _ := ⟨rfl, Nat.le_refl _⟩
  trans _ _ _ h h' := ⟨h'.max.trans h.max, Nat.le_trans h.pages h'.pages⟩

/-- A global of the same type, which if it is constant has the same value. -/
structure GlobalInst.SetTo (g g' : GlobalInst) : Prop where
  type : g'.type = g.type
  value : g.type.mutability = .const → g'.value = g.value

instance : IsPreorder GlobalInst GlobalInst.SetTo where
  refl _ := ⟨rfl, fun _ => rfl⟩
  trans _ _ _ h h' :=
    ⟨h'.type.trans h.type, fun hc => (h'.value (by rw [h.type]; exact hc)).trans (h.value hc)⟩

/-! ## Stores -/

/-- **Everything in `s` is still there in `s'`**: the functions of `s` come first in `s'`; its tables
    have their size and maximum, its memories their maximum and no fewer pages, its globals their type
    and, if they are constant, their value; and the configuration is the same. -/
structure Store.Extends (s s' : Store) : Prop where
  config : s'.config = s.config
  funcs : s.funcs.toList <+: s'.funcs.toList
  tables : Kept Table.SameShape s.tables s'.tables
  memories : Kept Memory.GrownTo s.memories s'.memories
  globals : Kept GlobalInst.SetTo s.globals s'.globals

namespace Store

instance : IsPreorder Store Extends where
  refl _ := ⟨rfl, List.prefix_rfl, .refl _, .refl _, .refl _⟩
  trans _ _ _ h h' :=
    { config := h'.config.trans h.config
      funcs := h.funcs.trans h'.funcs
      tables := h.tables.trans h'.tables
      memories := h.memories.trans h'.memories
      globals := h.globals.trans h'.globals }

variable {s s' s'' : Store}

protected theorem Extends.refl (s : Store) : s.Extends s := refl_of Extends s

protected theorem Extends.trans (h : s.Extends s') (h' : s'.Extends s'') : s.Extends s'' :=
  trans_of Extends h h'

theorem extends_modifyTable (a : TableAddr) {f : Table → Table}
    (hf : ∀ t, Table.SameShape t (f t)) : s.Extends { s with tables := s.tables.modify a f } :=
  ⟨rfl, List.prefix_rfl, .modify a fun t _ => hf t, .refl _, .refl _⟩

theorem extends_modifyMemory (a : MemAddr) {f : Memory → Memory}
    (hf : ∀ m, Memory.GrownTo m (f m)) : s.Extends { s with memories := s.memories.modify a f } :=
  ⟨rfl, List.prefix_rfl, .refl _, .modify a fun m _ => hf m, .refl _⟩

/-- A global may be given a value if it is not constant. -/
theorem extends_modifyGlobal {a : GlobalAddr} {v : Value}
    (ha : ∀ g, s.globals[a]? = some g → g.type.mutability = .var) :
    s.Extends
      { s with globals := s.globals.modify a fun global => { global with value := v } } := by
  refine ⟨rfl, List.prefix_rfl, .refl _, .refl _, .modify a fun g hg => ⟨rfl, fun hconst => ?_⟩⟩
  rw [ha g hg] at hconst
  cases hconst

theorem extends_fillTable (s : Store) (a : TableAddr) (start : Nat) (funcs : List FuncAddr) :
    s.Extends (s.fillTable a start funcs) :=
  extends_modifyTable a fun t => ⟨t.size_fill start funcs, rfl⟩

theorem extends_overwriteMemory (s : Store) (a : MemAddr) (start : Nat) (bytes : List UInt8) :
    s.Extends (s.overwriteMemory a start bytes) :=
  extends_modifyMemory a fun m =>
    ⟨m.max_overwrite start bytes, Nat.le_of_eq (m.pages_overwrite start bytes).symm⟩

end Store

end WasmCore
