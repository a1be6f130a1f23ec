import WasmCore.Proofs.Exec.Moves
import WasmCore.Store.Basic

/-!
# `Store.Pairing` — two stores that look alike from some of their entries

Code sees a store through addresses, and gets at further addresses only through the instances and the
tables at the addresses it has. So two stores look alike to it if the addresses it may come by in the one
are paired with those it may come by in the other, and what stands at paired addresses is the same up to
the pairing. Nothing is said about the other entries, nor about where in its store an entry stands.

* `Entrywise`: two arrays related entry by entry;
* `Store.Region`, `Store.ChangesOnly`: **what lies outside a region stays as it was**;
* `Store.Pairing`: pairs of addresses;
* `ModuleInst.Alike`, `Table.Alike`, `Pairing.Callee`, `Store.Alike`: the same up to a pairing;
* `Store.Tracks`: stores that stay alike, and change only in what is paired.
-/

namespace WasmCore

/-! ## Arrays entry by entry -/

/-- Two arrays have the same number of entries, and their entries are related one by one. -/
def Entrywise {α β : Type} (R : α → β → Prop) (xs : Array α) (ys : Array β) : Prop :=
  ∀ n : Nat, Option.Rel R xs[n]? ys[n]?

namespace Entrywise

variable {α β : Type} {R : α → β → Prop} {xs : Array α} {ys : Array β}

theorem refl {R : α → α → Prop} (h : ∀ x ∈ xs, R x x) : Entrywise R xs xs := by
  intro n
  cases hn : xs[n]? with
  | none => exact .none
  | some x => exact .some (h x (Array.mem_of_getElem? hn))

/-- What stands at a position. -/
theorem lookup (h : Entrywise R xs ys) (n : Nat) :
    (xs[n]? = none ∧ ys[n]? = none) ∨ ∃ x y, xs[n]? = some x ∧ ys[n]? = some y ∧ R x y := by
  have hn := h n
  generalize xs[n]? = o, ys[n]? = o' at hn ⊢
  cases hn with
  | none => exact .inl ⟨rfl, rfl⟩
  | some hxy => exact .inr ⟨_, _, rfl, rfl, hxy⟩

theorem mono {R' : α → β → Prop} (h : Entrywise R xs ys) (hR : ∀ x y, R x y → R' x y) :
    Entrywise R' xs ys := by
  intro n
  rcases h.lookup n with ⟨hx, hy⟩ | ⟨x, y, hx, hy, hxy⟩
  · rw [hx, hy]
    exact .none
  · rw [hx, hy]
    exact .some (hR x y hxy)

theorem size (h : Entrywise R xs ys) : xs.size = ys.size := by
  apply Nat.le_antisymm
  · rcases h.lookup ys.size with ⟨hx, -⟩ | ⟨x, y, -, hy, -⟩
    · exact Array.getElem?_eq_none_iff.mp hx
    · rw [Array.getElem?_eq_none (Nat.le_refl _)] at hy
      cases hy
  · rcases h.lookup xs.size with ⟨-, hy⟩ | ⟨x, y, hx, -, -⟩
    · exact Array.getElem?_eq_none_iff.mp hy
    · rw [Array.getElem?_eq_none (Nat.le_refl _)] at hx
      cases hx

theorem push (h : Entrywise R xs ys) {x : α} {y : β} (hxy : R x y) :
    Entrywise R (xs.push x) (ys.push y) := by
  have hsize : xs.size = ys.size := h.size
  intro n
  rw [Array.getElem?_push, Array.getElem?_push, hsize]
  split
  · exact .some hxy
  · exact h n

theorem setIfInBounds (h : Entrywise R xs ys) (n : Nat) {x : α} {y : β} (hxy : R x y) :
    Entrywise R (xs.setIfInBounds n x) (ys.setIfInBounds n y) := by
  intro k
  rw [Array.getElem?_setIfInBounds, Array.getElem?_setIfInBounds, h.size]
  split
  · split
    · exact .some hxy
    · exact .none
  · exact h k

/-- Related entries are written at the same positions. -/
theorem overwriteFrom (h : Entrywise R xs ys) (start : Nat) {l : List α} {l' : List β}
    (hl : List.Forall₂ R l l') :
    Entrywise R (WasmCore.overwriteFrom xs start l) (WasmCore.overwriteFrom ys start l') := by
  induction hl generalizing xs ys start with
  | nil => exact h
  | cons hxy _ ih => exact ih (h.setIfInBounds start hxy) (start + 1)

end Entrywise

/-! ## Regions -/

/-- Some of the memories and globals of a store, and perhaps its record of calls of the host. -/
structure Store.Region where
  memories : MemAddr → Prop
  globals : GlobalAddr → Prop
  hosts : Prop

/-- **Only a region changes**: functions, tables and the configuration stay the same altogether, and so
    do the memories and globals outside the region. -/
structure Store.ChangesOnly (r : Store.Region) (s s' : Store) : Prop where
  config : s'.config = s.config
  funcs : s'.funcs = s.funcs
  tables : s'.tables = s.tables
  memories : ∀ a : MemAddr, ¬ r.memories a → s'.memories[a]? = s.memories[a]?
  globals : ∀ a : GlobalAddr, ¬ r.globals a → s'.globals[a]? = s.globals[a]?
  hostCalls : ¬ r.hosts → s'.hostCalls = s.hostCalls

namespace Store.ChangesOnly

variable {r : Store.Region} {s t : Store}

protected theorem refl (s : Store) : s.ChangesOnly r s :=
  ⟨rfl, rfl, rfl, fun _ _ => rfl, fun _ _ => rfl, fun _ => rfl⟩

/-- An array with one entry changed is the same everywhere else. -/
theorem getElem?_modify_of_not {α : Type} {xs : Array α} {P : Nat → Prop} {a b : Nat} {f : α → α}
    (ha : P a) (hb : ¬ P b) : (xs.modify a f)[b]? = xs[b]? := by
  have hne : a ≠ b := by
    rintro rfl
    exact hb ha
  rw [Array.getElem?_modify, if_neg hne]

theorem modifyMemory (h : s.ChangesOnly r t) {a : MemAddr} (ha : r.memories a)
    (f : Memory → Memory) : s.ChangesOnly r { t with memories := t.memories.modify a f } :=
  { h with
    memories := fun b hb => (getElem?_modify_of_not ha hb).trans (h.memories b hb) }

theorem modifyGlobal (h : s.ChangesOnly r t) {a : GlobalAddr} (ha : r.globals a)
    (f : GlobalInst → GlobalInst) : s.ChangesOnly r { t with globals := t.globals.modify a f } :=
  { h with
    globals := fun b hb => (getElem?_modify_of_not ha hb).trans (h.globals b hb) }

theorem hostCall (h : s.ChangesOnly r t) (hr : r.hosts) (c : HostCall) :
    s.ChangesOnly r { t with hostCalls := t.hostCalls.push c } :=
  { h with hostCalls := fun hn => absurd hr hn }

end Store.ChangesOnly

/-! ## Pairings -/

/-- Nothing has more than one partner. -/
def OneToOne (R : Nat → Nat → Prop) : Prop :=
  ∀ ⦃a a' b b'⦄, R a a' → R b b' → (a = b ↔ a' = b')

/-- **Pairs of addresses** in two stores, and whether code may call the host. What can be written to has
    at most one partner, so that writing to both partners disturbs no other pair. -/
structure Store.Pairing where
  funcs : FuncAddr → FuncAddr → Prop
  tables : TableAddr → TableAddr → Prop
  memories : MemAddr → MemAddr → Prop
  globals : GlobalAddr → GlobalAddr → Prop
  hosts : Prop
  tables_unique : OneToOne tables
  memories_unique : OneToOne memories
  globals_unique : OneToOne globals

/-- What is paired in the second of two stores. -/
def Store.Pairing.region (p : Store.Pairing) : Store.Region where
  memories a' := ∃ a, p.memories a a'
  globals a' := ∃ a, p.globals a a'
  hosts := p.hosts

/-! ## The same up to a pairing -/

/-- Two instances of the same types that refer to paired entries. What they export plays no part when
    their code runs. -/
structure ModuleInst.Alike (p : Store.Pairing) (i i' : ModuleInst) : Prop where
  types : i'.types = i.types
  funcs : Entrywise p.funcs i.funcs i'.funcs
  tables : Entrywise p.tables i.tables i'.tables
  memories : Entrywise p.memories i.memories i'.memories
  globals : Entrywise p.globals i.globals i'.globals

/-- Two tables with paired functions in their slots. -/
structure Table.Alike (p : Store.Pairing) (t t' : Table) : Prop where
  max : t'.max = t.max
  slots : Entrywise (Option.Rel p.funcs) t.slots t'.slots

/-- **What a call finds at two addresses**: the same code in instances that are alike, or the same host
    function at the same address. An address where there is nothing shows in the trap, so that it has to
    be the same as well. -/
inductive Store.Pairing.Callee (p : Store.Pairing) :
    FuncAddr → FuncAddr → Option FuncInst → Option FuncInst → Prop
  | missing (a : FuncAddr) : p.Callee a a none none
  | defined {a a' : FuncAddr} {i i' : ModuleInst} (type : FuncType) (code : Func) (hi : i.Alike p i') :
    p.Callee a a' (some (.defined type i code)) (some (.defined type i' code))
  | host (a : FuncAddr) (type : FuncType) (run : HostFunc) (h : p.hosts) :
    p.Callee a a (some (.host type run)) (some (.host type run))

/-- **Two stores are alike** if the same stands at all pairs of addresses. -/
structure Store.Alike (p : Store.Pairing) (s s' : Store) : Prop where
  config : s'.config = s.config
  funcs : ∀ {a a'}, p.funcs a a' → p.Callee a a' s.funcs[a]? s'.funcs[a']?
  tables : ∀ {a a'}, p.tables a a' → Option.Rel (Table.Alike p) s.tables[a]? s'.tables[a']?
  memories : ∀ {a a'}, p.memories a a' → s'.memories[a']? = s.memories[a]?
  globals : ∀ {a a'}, p.globals a a' → s'.globals[a']? = s.globals[a]?
  hostCalls : p.hosts → s'.hostCalls = s.hostCalls

/-! ## Look-ups -/

section Lookups

variable {p : Store.Pairing}

namespace ModuleInst.Alike

variable {i i' : ModuleInst}

theorem typeAt (h : i.Alike p i') (t : TypeIdx) : i'.typeAt t = i.typeAt t := by
  unfold ModuleInst.typeAt
  rw [h.types]

theorem funcAddr (h : i.Alike p i') (f : FuncIdx) :
    Agree p.funcs (i.funcAddr f) (i'.funcAddr f) := by
  unfold ModuleInst.funcAddr
  rcases h.funcs.lookup f.toNat with ⟨hi, hi'⟩ | ⟨a, a', hi, hi', ha⟩
  · rw [hi, hi']
    exact .error _
  · rw [hi, hi']
    exact .ok ha

theorem tableAddr (h : i.Alike p i') (t : TableIdx) :
    Agree p.tables (i.tableAddr t) (i'.tableAddr t) := by
  unfold ModuleInst.tableAddr
  rcases h.tables.lookup t.toNat with ⟨hi, hi'⟩ | ⟨a, a', hi, hi', ha⟩
  · rw [hi, hi']
    exact .error _
  · rw [hi, hi']
    exact .ok ha

theorem memAddr (h : i.Alike p i') (m : MemIdx) :
    Agree p.memories (i.memAddr m) (i'.memAddr m) := by
  unfold ModuleInst.memAddr
  rcases h.memories.lookup m.toNat with ⟨hi, hi'⟩ | ⟨a, a', hi, hi', ha⟩
  · rw [hi, hi']
    exact .error _
  · rw [hi, hi']
    exact .ok ha

theorem globalAddr (h : i.Alike p i') (g : GlobalIdx) :
    Agree p.globals (i.globalAddr g) (i'.globalAddr g) := by
  unfold ModuleInst.globalAddr
  rcases h.globals.lookup g.toNat with ⟨hi, hi'⟩ | ⟨a, a', hi, hi', ha⟩
  · rw [hi, hi']
    exact .error _
  · rw [hi, hi']
    exact .ok ha

end ModuleInst.Alike

/-- The function in a slot. -/
theorem Table.Alike.get {t t' : Table} (h : t.Alike p t') (n : Nat) :
    Agree p.funcs (t.get n) (t'.get n) := by
  unfold Table.get
  rcases h.slots.lookup n with ⟨ht, ht'⟩ | ⟨slot, slot', ht, ht', hslot⟩
  · rw [ht, ht']
    exact .error _
  · rw [ht, ht']
    cases hslot with
    | none => exact .error _
    | some ha => exact .ok ha

/-- The types of two functions that are paired. -/
theorem Store.Alike.funcType {s s' : Store} (h : s.Alike p s') {a a' : FuncAddr}
    (ha : p.funcs a a') : s'.funcType a' = s.funcType a := by
  have hcallee := h.funcs ha
  unfold Store.funcType Store.funcType?
  generalize s.funcs[a]? = f, s'.funcs[a']? = f' at hcallee ⊢
  cases hcallee with
  | missing => rfl
  | defined type code hi => rfl
  | host type run hp => rfl

end Lookups

/-! ## Writes -/

/-- An entry changes in the same way on both sides of a pair. -/
theorem getElem?_modify_pair {α : Type} {xs xs' : Array α} {P : Nat → Nat → Prop}
    (hP : OneToOne P) (h : ∀ {a a'}, P a a' → xs'[a']? = xs[a]?) {a a' b b' : Nat} (ha : P a a')
    (hb : P b b') (f : α → α) : (xs'.modify a' f)[b']? = (xs.modify a f)[b]? := by
  have hsame : a = b ↔ a' = b' := hP ha hb
  rw [Array.getElem?_modify, Array.getElem?_modify, h hb]
  by_cases hab : a = b
  · rw [if_pos hab, if_pos (hsame.mp hab)]
  · rw [if_neg hab, if_neg fun h => hab (hsame.mpr h)]

theorem Store.Alike.modifyMemory {p : Store.Pairing} {s s' : Store} (h : s.Alike p s') {a a' : MemAddr}
    (ha : p.memories a a') (f : Memory → Memory) :
    Store.Alike p { s with memories := s.memories.modify a f }
      { s' with memories := s'.memories.modify a' f } :=
  { h with memories := fun hb => getElem?_modify_pair p.memories_unique h.memories ha hb f }

/-- **Two stores stay alike** while the second of them runs from `s` to `t'`, and changes only in what is
    paired. -/
structure Store.Tracks (p : Store.Pairing) (s t t' : Store) : Prop where
  alike : t.Alike p t'
  changes : s.ChangesOnly p.region t'

namespace Store.Tracks

variable {p : Store.Pairing} {s t t' : Store}

theorem modifyMemory (h : Store.Tracks p s t t') {a a' : MemAddr} (ha : p.memories a a')
    (f : Memory → Memory) :
    Store.Tracks p s { t with memories := t.memories.modify a f }
      { t' with memories := t'.memories.modify a' f } where
  alike := h.alike.modifyMemory ha f
  changes := h.changes.modifyMemory ⟨a, ha⟩ f

theorem modifyGlobal (h : Store.Tracks p s t t') {a a' : GlobalAddr} (ha : p.globals a a')
    (f : GlobalInst → GlobalInst) :
    Store.Tracks p s { t with globals := t.globals.modify a f }
      { t' with globals := t'.globals.modify a' f } where
  alike := { h.alike with
    globals := fun hb => getElem?_modify_pair p.globals_unique h.alike.globals ha hb f }
  changes := h.changes.modifyGlobal ⟨a, ha⟩ f

theorem hostCall (h : Store.Tracks p s t t') (hp : p.hosts) (c : HostCall) :
    Store.Tracks p s { t with hostCalls := t.hostCalls.push c }
      { t' with hostCalls := t'.hostCalls.push c } where
  alike := { h.alike with
    hostCalls := fun _ => congrArg (Array.push · c) (h.alike.hostCalls hp) }
  changes := h.changes.hostCall hp c

end Store.Tracks

end WasmCore
