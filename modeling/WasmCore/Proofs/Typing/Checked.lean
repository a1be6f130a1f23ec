import Mathlib.Data.List.Forall2
import WasmCore.Typing.Module

/-!
# `Typing.Checked` — what a checked module has passed

The checks of a module run in sequence, and what they come to together is one verdict. It is taken apart
here into what each check says.

* `bind_eq_ok_iff`, `forM_eq_ok_iff`, `mapM_of_ok`, `mapM_of_test`: checks in sequence;
* `Limits.Ordered`, `Limits.Addressable`, `limits_eq_ok_iff`, `memType_eq_ok_iff`: limits that pass;
* `Module.Checked`, `validate_eq_ok_iff_checked`: **what a checked module has passed**.
-/

namespace WasmCore

/-! ## Checks in sequence -/

section Checks

variable {ε α β : Type}

/-- A sequence succeeds exactly if both of its parts do. -/
theorem bind_eq_ok_iff {x : Except ε α} {f : α → Except ε β} {b : β} :
    (x >>= f) = .ok b ↔ ∃ a, x = .ok a ∧ f a = .ok b := by
  cases x with
  | error e => exact ⟨nofun, fun ⟨_, h, _⟩ => nomatch h⟩
  | ok a => exact ⟨fun h => ⟨a, rfl, h⟩, fun ⟨_, h, hf⟩ => by cases h; exact hf⟩

/-- One check after another. -/
theorem seq_eq_ok_iff {x : Except ε PUnit} {y : Except ε β} {b : β} :
    (do x; y) = .ok b ↔ x = .ok () ∧ y = .ok b := by
  rw [bind_eq_ok_iff]
  exact ⟨fun ⟨⟨⟩, hx, hy⟩ => ⟨hx, hy⟩, fun ⟨hx, hy⟩ => ⟨(), hx, hy⟩⟩

/-- A look-up that is made only to see whether it succeeds. -/
theorem discard_eq_ok_iff {x : Except ε α} :
    (do let _ ← x : Except ε PUnit) = .ok () ↔ ∃ a, x = .ok a := by
  rw [bind_eq_ok_iff]
  exact ⟨fun ⟨a, hx, _⟩ => ⟨a, hx⟩, fun ⟨a, hx⟩ => ⟨a, hx, rfl⟩⟩

/-- All entries of a list pass exactly if each of them does. -/
theorem forM_eq_ok_iff {f : α → Except ε PUnit} {xs : List α} :
    xs.forM f = .ok () ↔ ∀ x ∈ xs, f x = .ok () := by
  induction xs with
  | nil => exact ⟨fun _ => nofun, fun _ => rfl⟩
  | cons x xs ih =>
    show (do f x; xs.forM f) = .ok () ↔ _
    rw [seq_eq_ok_iff, ih, List.forall_mem_cons]

/-- What was checked for all entries of a list holds for each. -/
theorem of_forM_eq_ok {f : α → Except ε PUnit} {xs : List α} (h : xs.forM f = .ok ()) :
    ∀ x ∈ xs, f x = .ok () :=
  forM_eq_ok_iff.mp h

/-- What may be missing passes if it is. -/
theorem optionForM_eq_ok_iff {f : α → Except ε PUnit} {o : Option α} :
    o.forM f = .ok () ↔ ∀ x, o = some x → f x = .ok () := by
  cases o with
  | none => exact ⟨fun _ => nofun, fun _ => rfl⟩
  | some x => exact ⟨fun h _ hx => Option.some.inj hx ▸ h, fun h => h x rfl⟩

/-- Each result of a list of computations comes from one of them. -/
theorem forall₂_of_mapM_eq_ok {f : α → Except ε β} {xs : List α} {ys : List β}
    (h : xs.mapM f = .ok ys) : List.Forall₂ (fun x y => f x = .ok y) xs ys := by
  induction xs generalizing ys with
  | nil => cases h; exact .nil
  | cons x xs ih =>
    rw [List.mapM_cons] at h
    obtain ⟨y, hx, h⟩ := bind_eq_ok_iff.mp h
    obtain ⟨ys', hxs, h⟩ := bind_eq_ok_iff.mp h
    cases h
    exact .cons hx (ih hxs)

/-- Computations that all succeed succeed together. -/
theorem mapM_of_ok {f : α → Except ε β} {xs : List α} (h : ∀ x ∈ xs, ∃ y, f x = .ok y) :
    ∃ ys, xs.mapM f = .ok ys ∧ ys.length = xs.length := by
  induction xs with
  | nil => exact ⟨[], rfl, rfl⟩
  | cons x xs ih =>
    obtain ⟨y, hy⟩ := h x List.mem_cons_self
    obtain ⟨ys, hys, hlength⟩ := ih fun x' hx' => h x' (List.mem_cons_of_mem x hx')
    refine ⟨y :: ys, ?_, by rw [List.length_cons, List.length_cons, hlength]⟩
    rw [List.mapM_cons, hy, hys]
    rfl

/-- Computations that can only fail in one way, and do so where a test fails. -/
theorem mapM_of_test {f : α → Except ε β} {xs : List α} {test : α → Bool} {e : ε}
    (h : ∀ x ∈ xs, ∃ y, f x = if test x then .ok y else .error e) :
    ∃ ys, xs.mapM f = if xs.all test then .ok ys else .error e := by
  induction xs with
  | nil => exact ⟨[], rfl⟩
  | cons x xs ih =>
    obtain ⟨y, hy⟩ := h x List.mem_cons_self
    obtain ⟨ys, hys⟩ := ih fun x' hx' => h x' (List.mem_cons_of_mem x hx')
    refine ⟨y :: ys, ?_⟩
    rw [List.mapM_cons, hy, hys, List.all_cons]
    cases test x with
    | false => rfl
    | true => cases xs.all test <;> rfl

end Checks

/-! ## Limits -/

/-- A maximum is not below its minimum. -/
def Limits.Ordered (l : Limits) : Prop := ∀ max, l.max = some max → l.min ≤ max

/-- The bounds of a memory are numbers of pages that 32 bits can address. -/
def Limits.Addressable (l : Limits) : Prop :=
  l.min ≤ maxMemoryPages ∧ ∀ max, l.max = some max → max ≤ maxMemoryPages

theorem limits_eq_ok_iff {l : Limits} : Validate.limits l = .ok () ↔ l.Ordered := by
  unfold Validate.limits Limits.Ordered
  cases l.max with
  | none => simp
  | some max =>
    by_cases hlt : max < l.min
    · simp [hlt]
    · simp [hlt, UInt32.not_lt.mp hlt]

theorem pages_eq_ok_iff {n : UInt32} : Validate.pages n = .ok () ↔ n ≤ maxMemoryPages := by
  unfold Validate.pages
  by_cases hlt : maxMemoryPages < n
  · simp [hlt]
  · simp [hlt, UInt32.not_lt.mp hlt]

theorem memType_eq_ok_iff {l : MemType} :
    Validate.memType l = .ok () ↔ l.Ordered ∧ l.Addressable := by
  unfold Validate.memType Limits.Addressable
  rw [seq_eq_ok_iff, seq_eq_ok_iff, pages_eq_ok_iff, optionForM_eq_ok_iff, limits_eq_ok_iff]
  simp only [pages_eq_ok_iff]
  exact ⟨fun ⟨hmin, hmax, hl⟩ => ⟨hl, hmin, hmax⟩, fun ⟨hl, hmin, hmax⟩ => ⟨hmin, hmax, hl⟩⟩

theorem ordered_of_limits {l : Limits} (h : Validate.limits l = .ok ()) : l.Ordered :=
  limits_eq_ok_iff.mp h

/-- The limits of a memory are in order, and its maximum is one that 32 bits can address. -/
theorem bounded_of_memType {l : MemType} (h : Validate.memType l = .ok ()) :
    l.Ordered ∧ ∀ max, l.max = some max → max ≤ maxMemoryPages :=
  ⟨(memType_eq_ok_iff.mp h).1, (memType_eq_ok_iff.mp h).2.2⟩

/-! ## Modules -/

/-- **What a checked module has passed**, check by check. -/
structure Module.Checked (m : Module) : Prop where
  types : ∀ t ∈ m.types, Validate.funcType t = .ok ()
  imports : ∀ i ∈ m.imports, Validate.importDesc (.ofModule m) i.desc = .ok ()
  typeIndices : ∀ f ∈ m.funcs, ∃ type, (Context.ofModule m).typeAt f.typeIdx = .ok type
  tables : ∀ t ∈ m.tables, Validate.limits t = .ok ()
  memories : ∀ t ∈ m.memories, Validate.memType t = .ok ()
  singleTable : Validate.singleTable (.ofModule m) = .ok ()
  singleMemory : Validate.singleMemory (.ofModule m) = .ok ()
  globals : ∀ p ∈ m.globals.zipIdx m.importedGlobals.length,
    Validate.global (.ofModule m) p.2 p.1 = .ok ()
  funcs : ∀ f ∈ m.funcs, Validate.func (.ofModule m) f = .ok ()
  elems : ∀ e ∈ m.elems, Validate.elem (.ofModule m) e = .ok ()
  datas : ∀ d ∈ m.datas, Validate.data (.ofModule m) d = .ok ()
  start : m.start.forM (Validate.start (.ofModule m)) = .ok ()
  exports : ∀ e ∈ m.exports, Validate.exportDesc (.ofModule m) e.desc = .ok ()
  names : (m.exports.map Export.name).Nodup

/-- **Exports in sequence**: each is in order, and none has the name of another or of an earlier one. -/
theorem exports_eq_ok_iff {c : Context} {earlier : Std.HashSet String} {es : List Export} :
    Validate.exports c earlier es = .ok () ↔
      (∀ e ∈ es, Validate.exportDesc c e.desc = .ok ()) ∧ (es.map Export.name).Nodup ∧
        ∀ e ∈ es, e.name ∉ earlier := by
  induction es generalizing earlier with
  | nil => simp [Validate.exports]
  | cons e es ih =>
    rw [Validate.exports]
    by_cases hname : e.name ∈ earlier
    · rw [if_pos (Std.HashSet.mem_iff_contains.mp hname)]
      simp [hname]
    · rw [if_neg (fun h => hname (Std.HashSet.mem_iff_contains.mpr h)), seq_eq_ok_iff, ih]
      simp only [Std.HashSet.mem_insert, List.forall_mem_cons, List.map_cons, List.nodup_cons,
        List.mem_map, beq_iff_eq, not_or]
      constructor
      · rintro ⟨he, hes, hnodup, hfresh⟩
        refine ⟨⟨he, hes⟩, ⟨?_, hnodup⟩, hname, fun e' he' => (hfresh e' he').2⟩
        rintro ⟨e', he', hsame⟩
        exact (hfresh e' he').1 hsame.symm
      · rintro ⟨⟨he, hes⟩, ⟨hnew, hnodup⟩, -, hfresh⟩
        exact ⟨he, hes, hnodup, fun e' he' => ⟨fun h => hnew ⟨e', he', h.symm⟩, hfresh e' he'⟩⟩

/-- **The verdict on a module** is favourable exactly if every check passes. -/
theorem validate_eq_ok_iff_checked {m : Module} : validate m = .ok () ↔ m.Checked := by
  unfold validate
  simp only [seq_eq_ok_iff, forM_eq_ok_iff, discard_eq_ok_iff, exports_eq_ok_iff]
  constructor
  · rintro ⟨types, imports, typeIndices, tables, memories, singleTable, singleMemory, globals, funcs,
      elems, datas, start, exports, names, -⟩
    exact { types, imports, typeIndices, tables, memories, singleTable, singleMemory, globals, funcs,
            elems, datas, start, exports, names }
  · rintro ⟨types, imports, typeIndices, tables, memories, singleTable, singleMemory, globals, funcs,
      elems, datas, start, exports, names⟩
    exact ⟨types, imports, typeIndices, tables, memories, singleTable, singleMemory, globals, funcs,
      elems, datas, start, exports, names, fun _ _ => Std.HashSet.not_mem_empty⟩

theorem checked_of_validate {m : Module} (h : validate m = .ok ()) : m.Checked :=
  validate_eq_ok_iff_checked.mp h

end WasmCore
