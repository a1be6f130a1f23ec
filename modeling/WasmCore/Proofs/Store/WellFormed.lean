import Mathlib.Data.List.Forall2
import WasmCore.Exec.Machine
import WasmCore.Typing.Checker

/-!
# `Store.WellFormed` — no dangling and no ill-typed reference

The functions of a module run on what their instance refers to, without looking whether it is there
or of the type that their code was checked against. What makes this safe is an invariant of the whole
store.

* `Store.Persists`: whatever a store has, a later one still has, at the same address and of the same
  type;
* `ModuleInst.Implements`: an instance provides the index spaces of a context;
* `FuncInst.DefinedBy`: a function of a module, as its module declares it;
* `Store.WellFormed`: the invariant;
* what allocations and writes do to it.
-/

namespace WasmCore

/-! ## Stores only grow -/

/-- **Whatever is in `s` is still in `s'`.** -/
structure Store.Persists (s s' : Store) : Prop where
  funcs : ∀ (a : FuncAddr) f, s.funcs[a]? = some f → s'.funcs[a]? = some f
  tables : s.tables.size ≤ s'.tables.size
  memories : s.memories.size ≤ s'.memories.size
  globals : ∀ (a : GlobalAddr) g, s.globals[a]? = some g →
    ∃ g', s'.globals[a]? = some g' ∧ g'.type = g.type

namespace Store.Persists

variable {s s' s'' : Store}

protected theorem refl (s : Store) : s.Persists s :=
  ⟨fun _ _ h => h, Nat.le_refl _, Nat.le_refl _, fun _ g h => ⟨g, h, rfl⟩⟩

protected theorem trans (h : s.Persists s') (h' : s'.Persists s'') : s.Persists s'' where
  funcs a f hf := h'.funcs a f (h.funcs a f hf)
  tables := Nat.le_trans h.tables h'.tables
  memories := Nat.le_trans h.memories h'.memories
  globals := by
    intro a g hg
    obtain ⟨g', hg', ht⟩ := h.globals a g hg
    obtain ⟨g'', hg'', ht'⟩ := h'.globals a g' hg'
    exact ⟨g'', hg'', ht'.trans ht⟩

theorem funcType? (h : s.Persists s') {a : FuncAddr} {type : FuncType}
    (ha : s.funcType? a = some type) : s'.funcType? a = some type := by
  obtain ⟨f, hf, rfl⟩ := Option.map_eq_some_iff.mp ha
  exact Option.map_eq_some_iff.mpr ⟨f, h.funcs a f hf, rfl⟩

/-- A store with the same functions and globals, and no fewer tables and memories. -/
theorem of_eq (hf : s'.funcs = s.funcs) (ht : s.tables.size ≤ s'.tables.size)
    (hm : s.memories.size ≤ s'.memories.size) (hg : s'.globals = s.globals) : s.Persists s' :=
  ⟨fun a f h => by rw [hf]; exact h, ht, hm, fun a g h => ⟨g, by rw [hg]; exact h, rfl⟩⟩

end Store.Persists

/-! ## Instances -/

/-- **An instance provides what a context declares**: as many addresses of each kind, all of them in
    the store, functions and globals of the declared types. -/
structure ModuleInst.Implements (i : ModuleInst) (s : Store) (c : Context) : Prop where
  types : i.types = c.types
  funcs : List.Forall₂ (fun a t => ∃ type, c.types[t.toNat]? = some type ∧
    s.funcType? a = some type) i.funcs.toList c.funcs.toList
  tables : List.Forall₂ (fun a _ => a < s.tables.size) i.tables.toList c.tables.toList
  memories : List.Forall₂ (fun a _ => a < s.memories.size) i.memories.toList c.memories.toList
  globals : List.Forall₂ (fun a type => (s.globals[a]?).map GlobalInst.type = some type)
    i.globals.toList c.globals.toList

/-- What stands at a position of one of two related lists has a partner in the other. -/
theorem getElem?_of_forall₂ {α β : Type} {R : α → β → Prop} {xs : List α} {ys : List β}
    (h : List.Forall₂ R xs ys) {n : Nat} {y : β} (hy : ys[n]? = some y) :
    ∃ x, xs[n]? = some x ∧ R x y := by
  induction h generalizing n with
  | nil => cases hy
  | @cons x y' xs ys hxy _ ih =>
    cases n with
    | zero => cases hy; exact ⟨x, rfl, hxy⟩
    | succ n => exact ih hy

namespace ModuleInst.Implements

variable {i : ModuleInst} {s s' : Store} {c : Context}

/-- An instance goes on to provide what it provides. -/
theorem mono (h : i.Implements s c) (hs : s.Persists s') : i.Implements s' c where
  types := h.types
  funcs := h.funcs.imp fun _ _ ⟨type, ht, ha⟩ => ⟨type, ht, hs.funcType? ha⟩
  tables := h.tables.imp fun _ _ ha => Nat.lt_of_lt_of_le ha hs.tables
  memories := h.memories.imp fun _ _ ha => Nat.lt_of_lt_of_le ha hs.memories
  globals := h.globals.imp fun a type ha => by
    obtain ⟨g, hg, rfl⟩ := Option.map_eq_some_iff.mp ha
    obtain ⟨g', hg', ht⟩ := hs.globals a g hg
    exact Option.map_eq_some_iff.mpr ⟨g', hg', ht⟩

theorem typeAt (h : i.Implements s c) {t : TypeIdx} {type : FuncType}
    (ht : c.types[t.toNat]? = some type) : i.typeAt t = .ok type := by
  rw [ModuleInst.typeAt, h.types, ht]

/-- A declared function is in the store and has its declared type. -/
theorem funcAddr (h : i.Implements s c) {f : FuncIdx} {t : TypeIdx} {type : FuncType}
    (hf : c.funcs[f.toNat]? = some t) (ht : c.types[t.toNat]? = some type) :
    ∃ a, i.funcAddr f = .ok a ∧ s.funcType? a = some type := by
  rw [← Array.getElem?_toList] at hf
  obtain ⟨a, ha, type', ht', htype⟩ := getElem?_of_forall₂ h.funcs hf
  cases ht.symm.trans ht'
  rw [Array.getElem?_toList] at ha
  exact ⟨a, by rw [ModuleInst.funcAddr, ha], htype⟩

/-- A declared table is in the store. -/
theorem tableAddr (h : i.Implements s c) (hc : 0 < c.tables.size) :
    ∃ a table, i.tableAddr 0 = .ok a ∧ s.tables[a]? = some table := by
  have hget : c.tables.toList[0]? = some (c.tables[0]) := by simp [hc]
  obtain ⟨a, ha, hlt⟩ := getElem?_of_forall₂ h.tables hget
  rw [Array.getElem?_toList] at ha
  exact ⟨a, s.tables[a], by rw [ModuleInst.tableAddr]; simp only [UInt32.toNat_zero, ha],
    Array.getElem?_eq_getElem hlt⟩

/-- A declared memory is in the store. -/
theorem memAddr (h : i.Implements s c) (hc : 0 < c.memories.size) :
    ∃ a memory, i.memAddr 0 = .ok a ∧ s.memories[a]? = some memory := by
  have hget : c.memories.toList[0]? = some (c.memories[0]) := by simp [hc]
  obtain ⟨a, ha, hlt⟩ := getElem?_of_forall₂ h.memories hget
  rw [Array.getElem?_toList] at ha
  exact ⟨a, s.memories[a], by rw [ModuleInst.memAddr]; simp only [UInt32.toNat_zero, ha],
    Array.getElem?_eq_getElem hlt⟩

/-- A declared global is in the store and has its declared type. -/
theorem globalAddr (h : i.Implements s c) {g : GlobalIdx} {type : GlobalType}
    (hg : c.globals[g.toNat]? = some type) :
    ∃ a global, i.globalAddr g = .ok a ∧ s.globals[a]? = some global ∧ global.type = type := by
  rw [← Array.getElem?_toList] at hg
  obtain ⟨a, ha, htype⟩ := getElem?_of_forall₂ h.globals hg
  obtain ⟨global, hglobal, rfl⟩ := Option.map_eq_some_iff.mp htype
  rw [Array.getElem?_toList] at ha
  exact ⟨a, global, by rw [ModuleInst.globalAddr, ha], hglobal, rfl⟩

end ModuleInst.Implements

/-- **A function of module `m`**: its instance provides what `m` declares, its type is the one that
    its type index names, and its body checks against that type. -/
structure FuncInst.DefinedBy (s : Store) (m : Module) (type : FuncType) (inst : ModuleInst)
    (code : Func) : Prop where
  mem : code ∈ m.funcs
  implements : inst.Implements s (Context.ofModule m)
  typeIdx : inst.types[code.typeIdx.toNat]? = some type
  body : checkFunc (Context.ofModule m) (type.params ++ code.localTypes) type.results code.body =
    .ok ()

/-! ## The invariant -/

/-- **No dangling and no ill-typed reference.** `origins` names the module that defined each function
    of the store. -/
structure Store.WellFormed (s : Store) (origins : List (Option Module)) : Prop where
  length : origins.length = s.funcs.size
  slots : ∀ t ∈ s.tables, ∀ a, some a ∈ t.slots → a < s.funcs.size
  funcs : ∀ (a : FuncAddr) type inst code, s.funcs[a]? = some (.defined type inst code) →
    ∃ m, origins[a]? = some (some m) ∧ FuncInst.DefinedBy s m type inst code
  globals : ∀ g ∈ s.globals, g.value.type = g.type.type

namespace Store.WellFormed

variable {s s' : Store} {origins : List (Option Module)}

theorem empty (config : Config) : Store.WellFormed { config } [] where
  length := rfl
  slots := by intro t ht; cases ht; contradiction
  funcs := by intro a type inst code h; simp at h
  globals := by intro g hg; cases hg; contradiction

/-- A store with the same functions is well-formed if nothing of the old one is lost and the new
    slots and values are in order. -/
theorem update (h : s.WellFormed origins) (hs : s.Persists s') (hf : s'.funcs = s.funcs)
    (ht : ∀ t ∈ s'.tables, ∀ a, some a ∈ t.slots → a < s'.funcs.size)
    (hg : ∀ g ∈ s'.globals, g.value.type = g.type.type) : s'.WellFormed origins where
  length := by rw [hf]; exact h.length
  slots := ht
  funcs := by
    intro a type inst code ha
    rw [hf] at ha
    obtain ⟨m, hm, hdef⟩ := h.funcs a type inst code ha
    exact ⟨m, hm, hdef.mem, hdef.implements.mono hs, hdef.typeIdx, hdef.body⟩
  globals := hg

/-- Other memories, no fewer of them, keep a store in order. -/
theorem setMemories (h : s.WellFormed origins) (ms : Array Memory)
    (hm : s.memories.size ≤ ms.size) :
    s.Persists { s with memories := ms } ∧
      ({ s with memories := ms } : Store).WellFormed origins := by
  have hs : s.Persists { s with memories := ms } := .of_eq rfl (Nat.le_refl _) hm rfl
  exact ⟨hs, h.update hs rfl h.slots h.globals⟩

/-- A value of its type keeps a global, and the store, in order. -/
theorem setGlobal (h : s.WellFormed origins) {a : GlobalAddr} {g : GlobalInst} {v : Value}
    (ha : s.globals[a]? = some g) (hv : v.type = g.type.type) :
    let s' := { s with globals := s.globals.modify a fun global => { global with value := v } }
    s.Persists s' ∧ s'.WellFormed origins := by
  intro s'
  have hs : s.Persists s' := by
    refine ⟨fun _ _ h => h, Nat.le_refl _, Nat.le_refl _, fun b g' hb => ?_⟩
    show ∃ g'', (s.globals.modify a _)[b]? = some g'' ∧ _
    rw [Array.getElem?_modify, hb]
    by_cases hab : a = b
    · rw [if_pos hab]; exact ⟨_, rfl, rfl⟩
    · rw [if_neg hab]; exact ⟨g', rfl, rfl⟩
  refine ⟨hs, h.update hs rfl h.slots fun g' hg' => ?_⟩
  -- The global that was set has the new value, every other one its old value.
  obtain ⟨b, hb⟩ := Array.mem_iff_getElem?.mp hg'
  rw [Array.getElem?_modify] at hb
  by_cases hab : a = b
  · subst hab
    rw [if_pos rfl, ha] at hb
    cases hb
    exact hv
  · rw [if_neg hab] at hb
    exact h.globals g' (Array.mem_of_getElem? hb)

end Store.WellFormed

end WasmCore
