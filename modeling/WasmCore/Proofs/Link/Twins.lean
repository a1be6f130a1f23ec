import WasmCore.Proofs.Exec.Lockstep
import WasmCore.Proofs.Link.Rollback

/-!
# `Link.Twins` — one module instantiated in two stores

The definitions of a module are added at the end of a store, so that their addresses depend on what is
there already. Two stores with the same limits give a module without imports the same definitions, each
at the same distance from the old end. This pairs the addresses of the two instances, and under that
pairing the stores are alike once the module is instantiated in both.

* `Shift`, `SameTail`: the same entries past two old ends;
* `Store.placement`: **the pairing of two instances of a module**;
* `Store.SameAdded`, `inStep_allocGlobals`, …: definitions that are added in step;
* `External.Alike`, `Segment.Alike`: what exports and segments refer to;
* `ModuleInst.Twins`, `inStep_allocInst`, `inStep_prepare`, `allocModule_alike`: **allocation**;
* `Store.Alike.writeSegments`, `Store.Alike.runStart`: segments and the start function;
* `Store.InstantiatesAlike`, `instantiate_alike`: **instantiation**.
-/

namespace WasmCore

/-! ## The same distance past two ends -/

/-- Positions at the same distance past `base` and `base'`. -/
def Shift (base base' a a' : Nat) : Prop := ∃ n, a = base + n ∧ a' = base' + n

theorem Shift.oneToOne (base base' : Nat) : OneToOne (Shift base base') := by
  rintro a a' b b' ⟨n, rfl, rfl⟩ ⟨k, rfl, rfl⟩
  omega

/-- **Two arrays continue alike** past their first entries: with as many further entries, which are
    related one by one. -/
structure SameTail {α : Type} (Q : α → α → Prop) (base base' : Nat) (xs xs' : Array α) : Prop where
  size : Shift base base' xs.size xs'.size
  entries : ∀ {a a'}, Shift base base' a a' → Option.Rel Q xs[a]? xs'[a']?

namespace SameTail

variable {α : Type} {Q : α → α → Prop} {base base' : Nat} {xs xs' : Array α}

/-- With nothing further. -/
theorem start (xs xs' : Array α) : SameTail Q xs.size xs'.size xs xs' where
  size := ⟨0, rfl, rfl⟩
  entries := by
    rintro a a' ⟨n, rfl, rfl⟩
    rw [Array.getElem?_eq_none (Nat.le_add_right _ _), Array.getElem?_eq_none (Nat.le_add_right _ _)]
    exact .none

/-- With one more entry. -/
theorem push (h : SameTail Q base base' xs xs') {x x' : α} (hx : Q x x') :
    SameTail Q base base' (xs.push x) (xs'.push x') where
  size := by
    obtain ⟨n, hn, hn'⟩ := h.size
    refine ⟨n + 1, ?_, ?_⟩
    · rw [Array.size_push, hn, Nat.add_assoc]
    · rw [Array.size_push, hn', Nat.add_assoc]
  entries := by
    intro a a' ha
    have hsame : a = xs.size ↔ a' = xs'.size := Shift.oneToOne base base' ha h.size
    rw [Array.getElem?_push, Array.getElem?_push]
    by_cases hend : a = xs.size
    · rw [if_pos hend, if_pos (hsame.mp hend)]
      exact .some hx
    · rw [if_neg hend, if_neg fun h => hend (hsame.mpr h)]
      exact h.entries ha

theorem eq_of_shift (h : SameTail Eq base base' xs xs') {a a' : Nat} (ha : Shift base base' a a') :
    xs'[a']? = xs[a]? := by
  have hrel := h.entries ha
  generalize xs[a]? = o, xs'[a']? = o' at hrel ⊢
  cases hrel with
  | none => rfl
  | some hxy => rw [hxy]

end SameTail

/-! ## The pairing -/

/-- **The pairing of two instances of a module** with a number of functions, whose definitions are added
    to two stores. -/
def Store.placement (s s' : Store) (count : Nat) : Store.Pairing where
  funcs a a' := ∃ n < count, a = s.funcs.size + n ∧ a' = s'.funcs.size + n
  tables := Shift s.tables.size s'.tables.size
  memories := Shift s.memories.size s'.memories.size
  globals := Shift s.globals.size s'.globals.size
  hosts := False
  tables_unique := Shift.oneToOne _ _
  memories_unique := Shift.oneToOne _ _
  globals_unique := Shift.oneToOne _ _

/-- **The same was added to two stores**, but no functions so far. -/
structure Store.SameAdded (p : Store.Pairing) (s s' t t' : Store) : Prop where
  config : t'.config = t.config
  funcs : t.funcs = s.funcs
  funcs' : t'.funcs = s'.funcs
  tables : SameTail (Table.Alike p) s.tables.size s'.tables.size t.tables t'.tables
  memories : SameTail Eq s.memories.size s'.memories.size t.memories t'.memories
  globals : SameTail Eq s.globals.size s'.globals.size t.globals t'.globals

/-! ## Definitions in step -/

namespace Linking

open Move (InStep)

variable {α β : Type} {s s' : Store} {count : Nat} {R : Store → Store → Prop}

theorem inStep_ofExcept {Q : α → β → Prop} {x : Except LinkError α} {y : Except LinkError β}
    (h : Agree Q x y) : InStep R Q (ofExcept x) (ofExcept y) := by
  cases h with
  | ok h => exact .pure h
  | error e => exact .throw e

theorem inStep_add {Q : α → β → Prop} {alloc : Store → Except LinkError (α × Store)}
    {alloc' : Store → Except LinkError (β × Store)}
    (h : ∀ t t', R t t' → Agree (fun x x' => Q x.1 x'.1 ∧ R x.2 x'.2) (alloc t) (alloc' t')) :
    InStep R Q (add alloc) (add alloc') := by
  intro t t' ht
  have hagree := h t t' ht
  unfold add
  generalize alloc t = r, alloc' t' = r' at hagree ⊢
  cases hagree with
  | ok hx => exact .ok hx.1 hx.2
  | error e => exact .error e ht

end Linking

section Definitions

open Move (InStep)

variable {s s' t t' : Store} {p : Store.Pairing}

/-- An empty table holds no function. -/
theorem Table.alike_create (p : Store.Pairing) (t : TableType) :
    (Table.create t).Alike p (Table.create t) := by
  refine ⟨rfl, .refl fun slot hslot => ?_⟩
  rw [Array.eq_of_mem_replicate hslot]
  exact .none

namespace Store.SameAdded

/-- Tables get addresses that are paired, if any. -/
theorem allocTable (h : SameAdded p s s' t t') (type : TableType) :
    Agree (fun x x' => Shift s.tables.size s'.tables.size x.1 x'.1 ∧ SameAdded p s s' x.2 x'.2)
      (t.allocTable type) (t'.allocTable type) := by
  unfold Store.allocTable
  rw [h.config]
  dsimp only
  split
  · exact .error _
  · exact .ok ⟨h.tables.size, { h with
      config := rfl, tables := h.tables.push (Table.alike_create p type) }⟩

theorem allocMemory (h : SameAdded p s s' t t') (type : MemType) :
    Agree (fun x x' => Shift s.memories.size s'.memories.size x.1 x'.1 ∧ SameAdded p s s' x.2 x'.2)
      (t.allocMemory type) (t'.allocMemory type) := by
  unfold Store.allocMemory
  rw [h.config]
  dsimp only
  split
  · exact .error _
  · exact .ok ⟨h.memories.size, { h with config := rfl, memories := h.memories.push rfl }⟩

theorem allocGlobal (h : SameAdded p s s' t t') (type : GlobalType) (v : Value) :
    Agree (fun x x' => Shift s.globals.size s'.globals.size x.1 x'.1 ∧ SameAdded p s s' x.2 x'.2)
      (t.allocGlobal type v) (t'.allocGlobal type v) := by
  unfold Store.allocGlobal
  split
  · exact .ok ⟨h.globals.size, { h with globals := h.globals.push rfl }⟩
  · exact .error _

/-- Constant expressions have the same value. -/
theorem evalConstant (h : SameAdded p s s' t t') {globals globals' : Array GlobalAddr}
    (hglobals : Entrywise (Shift s.globals.size s'.globals.size) globals globals') (e : Expr) :
    t'.evalConstant globals' e = t.evalConstant globals e := by
  have hvalue : ∀ n : Nat, (globals'[n]?).bind t'.globalValue? = (globals[n]?).bind t.globalValue? := by
    intro n
    rcases hglobals.lookup n with ⟨hg, hg'⟩ | ⟨a, a', hg, hg', ha⟩
    · rw [hg, hg']
      rfl
    · rw [hg, hg', Option.bind_some, Option.bind_some, globalValue?, globalValue?,
        h.globals.eq_of_shift ha]
  unfold Store.evalConstant
  simp only [hvalue]

theorem evalOffset (h : SameAdded p s s' t t') {globals globals' : Array GlobalAddr}
    (hglobals : Entrywise (Shift s.globals.size s'.globals.size) globals globals') (e : Expr) :
    t'.evalOffset globals' e = t.evalOffset globals e := by
  unfold Store.evalOffset
  rw [h.evalConstant hglobals]

end Store.SameAdded

namespace Linking

open Store (SameAdded)

theorem inStep_allocGlobals (gs : List Global) {globals globals' : Array GlobalAddr}
    (h : Entrywise (Shift s.globals.size s'.globals.size) globals globals') :
    InStep (SameAdded p s s') (Entrywise (Shift s.globals.size s'.globals.size))
      (allocGlobals globals gs) (allocGlobals globals' gs) := by
  induction gs generalizing globals globals' with
  | nil => exact .pure h
  | cons g gs ih =>
    refine .get_bind fun t t' ht => ?_
    rw [ht.evalConstant h]
    refine .bind_same (inStep_ofExcept (.refl _)) fun v => ?_
    exact .bind (inStep_add fun t t' ht => ht.allocGlobal g.type v) fun a a' ha => ih (h.push ha)

theorem inStep_allocTables (ts : List TableType) {tables tables' : Array TableAddr}
    (h : Entrywise (Shift s.tables.size s'.tables.size) tables tables') :
    InStep (SameAdded p s s') (Entrywise (Shift s.tables.size s'.tables.size))
      (allocTables tables ts) (allocTables tables' ts) := by
  induction ts generalizing tables tables' with
  | nil => exact .pure h
  | cons type ts ih =>
    exact .bind (inStep_add fun t t' ht => ht.allocTable type) fun a a' ha => ih (h.push ha)

theorem inStep_allocMemories (ts : List MemType) {memories memories' : Array MemAddr}
    (h : Entrywise (Shift s.memories.size s'.memories.size) memories memories') :
    InStep (SameAdded p s s') (Entrywise (Shift s.memories.size s'.memories.size))
      (allocMemories memories ts) (allocMemories memories' ts) := by
  induction ts generalizing memories memories' with
  | nil => exact .pure h
  | cons type ts ih =>
    exact .bind (inStep_add fun t t' ht => ht.allocMemory type) fun a a' ha => ih (h.push ha)

end Linking

end Definitions

/-! ## Exports and segments -/

/-- References to paired entries. -/
inductive External.Alike (p : Store.Pairing) : External → External → Prop
  | func {a a' : FuncAddr} (h : p.funcs a a') : Alike p (.func a) (.func a')
  | table {a a' : TableAddr} (h : p.tables a a') : Alike p (.table a) (.table a')
  | memory {a a' : MemAddr} (h : p.memories a a') : Alike p (.memory a) (.memory a')
  | global {a a' : GlobalAddr} (h : p.globals a a') : Alike p (.global a) (.global a')

/-- Segments that write the same to paired entries. -/
inductive Segment.Alike (p : Store.Pairing) : Segment → Segment → Prop
  | elem {a a' : TableAddr} {funcs funcs' : List FuncAddr} (ha : p.tables a a') (offset : Nat)
      (hfuncs : List.Forall₂ p.funcs funcs funcs') :
    Alike p (.elem a offset funcs) (.elem a' offset funcs')
  | data {a a' : MemAddr} (ha : p.memories a a') (offset : Nat) (bytes : List UInt8) :
    Alike p (.data a offset bytes) (.data a' offset bytes)

section Resolution

variable {p : Store.Pairing} {s s' t t' : Store} {i i' : ModuleInst}

theorem Agree.ofTrap {α β : Type} {Q : α → β → Prop} {x : Except Trap α} {y : Except Trap β}
    (h : Agree Q x y) : Agree Q (LinkError.ofTrap x) (LinkError.ofTrap y) := by
  cases h with
  | ok h => exact .ok h
  | error t => exact .error _

theorem ModuleInst.Alike.resolve (h : i.Alike p i') (d : ExportDesc) :
    Agree (External.Alike p) (i.resolve d) (i'.resolve d) := by
  cases d with
  | func f => exact (h.funcAddr f).map fun _ _ => .func
  | table t => exact (h.tableAddr t).map fun _ _ => .table
  | memory m => exact (h.memAddr m).map fun _ _ => .memory
  | global g => exact (h.globalAddr g).map fun _ _ => .global

/-- The same names for paired entries. -/
abbrev External.NamedAlike (p : Store.Pairing) (e e' : String × External) : Prop :=
  e'.1 = e.1 ∧ e.2.Alike p e'.2

theorem ModuleInst.Alike.resolveExports (h : i.Alike p i') (es : List Export) :
    Agree (List.Forall₂ (External.NamedAlike p)) (i.resolveExports es) (i'.resolveExports es) := by
  refine Agree.mapM (fun e => ?_) es
  exact (h.resolve e.desc).bind fun x x' hx => .ok ⟨rfl, hx⟩

theorem Table.Alike.fits {table table' : Table} (h : table.Alike p table') (start count : Nat) :
    table'.fits start count = table.fits start count := by
  unfold Table.fits
  rw [h.slots.size]

/-- Tests of a table that is there on both sides, or on neither. -/
theorem Table.Alike.tests {o o' : Option Table} (h : Option.Rel (Table.Alike p) o o')
    (start count : Nat) :
    o'.any (·.fits start count) = o.any (·.fits start count) ∧
      o'.all (·.fits start count) = o.all (·.fits start count) := by
  cases h with
  | none => exact ⟨rfl, rfl⟩
  | some h => exact ⟨h.fits start count, h.fits start count⟩

/-- Segments that are alike fit alike. -/
theorem Segment.Alike.fits {g g' : Segment} (h : g.Alike p g')
    (htables : ∀ {a a'}, p.tables a a' → Option.Rel (Table.Alike p) t.tables[a]? t'.tables[a']?)
    (hmemories : ∀ {a a'}, p.memories a a' → t'.memories[a']? = t.memories[a]?) :
    g'.fits t' = g.fits t := by
  cases h with
  | @elem a a' funcs funcs' ha offset hfuncs =>
    unfold Segment.fits Store.tableFits
    dsimp only
    rw [hfuncs.length_eq, (Table.Alike.tests (htables ha) offset _).1]
  | data ha offset bytes =>
    unfold Segment.fits Store.memoryFits
    dsimp only
    rw [hmemories ha]

theorem Segment.Alike.checked {g g' : Segment} (h : g.Alike p g') (hfits : g'.fits t' = g.fits t) :
    Agree (Segment.Alike p) (g.checked t) (g'.checked t') := by
  have htrap : g'.trap = g.trap := by cases h <;> rfl
  unfold Segment.checked
  rw [hfits, htrap]
  split
  · exact .ok h
  · exact .error _

/-- An element segment before the functions of its module are added. -/
theorem Store.SameAdded.resolveElem {count : Nat} (h : SameAdded (s.placement s' count) s s' t t')
    (hi : i.Alike (s.placement s' count) i') (e : ElemSegment) :
    Agree (Segment.Alike (s.placement s' count)) (t.resolveElem i e) (t'.resolveElem i' e) := by
  unfold Store.resolveElem
  refine (hi.tableAddr e.table).ofTrap.bind fun a a' ha => ?_
  rw [h.evalOffset hi.globals]
  refine (Agree.refl _).bind ?_
  rintro offset _ rfl
  refine (Agree.mapM hi.funcAddr e.funcs).ofTrap.bind fun funcs funcs' hfuncs => ?_
  have hsegment : Segment.Alike (s.placement s' count) (.elem a offset funcs) (.elem a' offset funcs') :=
    .elem ha offset hfuncs
  exact hsegment.checked (hsegment.fits h.tables.entries h.memories.eq_of_shift)

theorem Store.SameAdded.resolveData {count : Nat} (h : SameAdded (s.placement s' count) s s' t t')
    (hi : i.Alike (s.placement s' count) i') (d : DataSegment) :
    Agree (Segment.Alike (s.placement s' count)) (t.resolveData i d) (t'.resolveData i' d) := by
  unfold Store.resolveData
  refine (hi.memAddr d.memory).ofTrap.bind fun a a' ha => ?_
  rw [h.evalOffset hi.globals]
  refine (Agree.refl _).bind ?_
  rintro offset _ rfl
  have hsegment : Segment.Alike (s.placement s' count) (.data a offset d.bytes)
      (.data a' offset d.bytes) := .data ha offset d.bytes
  exact hsegment.checked (hsegment.fits h.tables.entries h.memories.eq_of_shift)

theorem Store.SameAdded.resolveSegments {count : Nat} (h : SameAdded (s.placement s' count) s s' t t')
    (hi : i.Alike (s.placement s' count) i') (m : Module) :
    Agree (List.Forall₂ (Segment.Alike (s.placement s' count))) (t.resolveSegments i m)
      (t'.resolveSegments i' m) := by
  refine (Agree.mapM (h.resolveElem hi) m.elems).bind fun elems elems' helems => ?_
  refine (Agree.mapM (h.resolveData hi) m.datas).bind fun datas datas' hdatas => ?_
  exact .ok (List.rel_append helems hdatas)

end Resolution

/-! ## Allocation in step -/

/-- **Two instances of one module**: alike, with the same names for what they export, and with a
    function index for all functions that are paired. -/
structure ModuleInst.Twins (p : Store.Pairing) (i i' : ModuleInst) : Prop where
  alike : i.Alike p i'
  exports : List.Forall₂ (External.NamedAlike p) i.exports i'.exports
  index : ∀ {a a'}, p.funcs a a' → ∃ n : Nat, i.funcs[n]? = some a ∧ i'.funcs[n]? = some a'

theorem ModuleInst.Twins.withExports {p : Store.Pairing} {i i' : ModuleInst} (h : i.Twins p i')
    {exports exports' : List (String × External)}
    (hexports : List.Forall₂ (External.NamedAlike p) exports exports') :
    { i with exports := exports }.Twins p { i' with exports := exports' } where
  alike := ⟨h.alike.types, h.alike.funcs, h.alike.tables, h.alike.memories, h.alike.globals⟩
  exports := hexports
  index := h.index

namespace Linking

open Move (InStep)
open Store (SameAdded)

variable {s s' : Store}

/-- An instance whose functions get the next addresses of a store. -/
def nextInst (s : Store) (m : Module) (tables : Array TableAddr) (memories : Array MemAddr)
    (globals : Array GlobalAddr) : ModuleInst where
  types := m.types.toArray
  funcs := ((List.range m.funcs.length).map (s.funcs.size + ·)).toArray
  tables := tables
  memories := memories
  globals := globals

theorem funcs_nextInst (s : Store) (m : Module) (tables : Array TableAddr) (memories : Array MemAddr)
    (globals : Array GlobalAddr) (n : Nat) :
    (nextInst s m tables memories globals).funcs[n]? =
      if n < m.funcs.length then some (s.funcs.size + n) else none := by
  rw [nextInst, List.getElem?_toArray, List.getElem?_map]
  by_cases hn : n < m.funcs.length
  · rw [if_pos hn, List.getElem?_range hn, Option.map_some]
  · rw [if_neg hn, List.getElem?_eq_none (by simpa using hn), Option.map_none]

/-- Instances of one module that refer to paired tables, memories and globals. -/
theorem twins_nextInst (m : Module) {tables tables' : Array TableAddr}
    {memories memories' : Array MemAddr} {globals globals' : Array GlobalAddr}
    (htables : Entrywise (Shift s.tables.size s'.tables.size) tables tables')
    (hmemories : Entrywise (Shift s.memories.size s'.memories.size) memories memories')
    (hglobals : Entrywise (Shift s.globals.size s'.globals.size) globals globals') :
    (nextInst s m tables memories globals).Twins (s.placement s' m.funcs.length)
      (nextInst s' m tables' memories' globals') where
  alike := by
    refine ⟨rfl, fun n => ?_, htables, hmemories, hglobals⟩
    rw [funcs_nextInst, funcs_nextInst]
    by_cases hn : n < m.funcs.length
    · rw [if_pos hn, if_pos hn]
      exact .some ⟨n, hn, rfl, rfl⟩
    · rw [if_neg hn, if_neg hn]
      exact .none
  exports := .nil
  index := by
    rintro a a' ⟨n, hn, rfl, rfl⟩
    refine ⟨n, ?_, ?_⟩
    · rw [funcs_nextInst, if_pos hn]
    · rw [funcs_nextInst, if_pos hn]

/-- **Globals, tables and memories** are added alike. -/
theorem inStep_allocInst (m : Module) :
    InStep (SameAdded (s.placement s' m.funcs.length) s s')
      (ModuleInst.Twins (s.placement s' m.funcs.length)) (allocInst m []) (allocInst m []) := by
  have hnone : ∀ (R : Nat → Nat → Prop) (f : External → Option Nat),
      Entrywise R ([].filterMap f).toArray ([].filterMap f).toArray := fun _ _ _ => .none
  refine .bind (inStep_allocGlobals m.globals (hnone _ _)) fun globals globals' hglobals => ?_
  refine .bind (inStep_allocTables m.tables (hnone _ _)) fun tables tables' htables => ?_
  refine .bind (inStep_allocMemories m.memories (hnone _ _)) fun memories memories' hmemories => ?_
  refine .get_bind fun t t' ht => ?_
  -- No function was added so far, so that the new ones start at the old ends.
  rw [ht.funcs, ht.funcs']
  exact .pure (twins_nextInst m htables hmemories hglobals)

/-- **Everything but the functions** is added and resolved alike. -/
theorem inStep_prepare (m : Module) :
    InStep (SameAdded (s.placement s' m.funcs.length) s s')
      (fun x x' => x.1.Twins (s.placement s' m.funcs.length) x'.1 ∧
        List.Forall₂ (Segment.Alike (s.placement s' m.funcs.length)) x.2 x'.2)
      (prepare m []) (prepare m []) := by
  refine .bind (inStep_allocInst m) fun i i' hi => ?_
  refine .bind (inStep_ofExcept (hi.alike.resolveExports m.exports).ofTrap)
    fun exports exports' hexports => .get_bind fun t t' ht => ?_
  have htwins := hi.withExports hexports
  have hsegments := ht.resolveSegments htwins.alike m
  refine .bind (inStep_ofExcept hsegments) fun segments segments' hsegments => ?_
  exact .pure ⟨htwins, hsegments⟩

/-- Whether functions can be added depends on the types of their instance only. -/
theorem inStep_allocFuncs {i i' : ModuleInst} (h : i'.types = i.types) (fs : List Func) :
    InStep (fun _ _ => True) Eq (allocFuncs i fs) (allocFuncs i' fs) := by
  induction fs with
  | nil => exact .pure rfl
  | cons f fs ih =>
    have htype : i'.typeAt f.typeIdx = i.typeAt f.typeIdx := by
      unfold ModuleInst.typeAt
      rw [h]
    unfold allocFuncs
    rw [htype]
    refine .bind_same (inStep_ofExcept (.refl _)) fun type => ?_
    exact .bind_same (.modify fun _ _ _ => trivial) fun _ => ih

end Linking

namespace Store

variable {s s' t t' u u' : Store} {m : Module} {i i' : ModuleInst}

/-- **Once the functions are added as well, the stores are alike.** -/
theorem SameAdded.alike (h : SameAdded (s.placement s' m.funcs.length) s s' t t')
    (hi : i.Alike (s.placement s' m.funcs.length) i')
    (hu : Linking.allocFuncs i m.funcs t = .ok () u)
    (hu' : Linking.allocFuncs i' m.funcs t' = .ok () u') :
    u.Alike (s.placement s' m.funcs.length) u' := by
  obtain ⟨new, rfl, hnew⟩ := allocFuncs_spec hu
  obtain ⟨new', rfl, hnew'⟩ := allocFuncs_spec hu'
  refine
    { config := h.config
      funcs := ?_
      tables := h.tables.entries
      memories := h.memories.eq_of_shift
      globals := h.globals.eq_of_shift
      hostCalls := False.elim }
  -- The functions that are paired are exactly those that were added.
  rintro a a' ⟨n, hn, rfl, rfl⟩
  obtain ⟨g, hg, type, htype, rfl⟩ :=
    getElem?_of_forall₂ hnew.flip (List.getElem?_eq_getElem hn)
  obtain ⟨g', hg', type', htype', rfl⟩ :=
    getElem?_of_forall₂ hnew'.flip (List.getElem?_eq_getElem hn)
  rw [hi.types, htype] at htype'
  cases htype'
  have hadded : ∀ (funcs : Array FuncInst) (new : List FuncInst),
      (funcs ++ new.toArray)[funcs.size + n]? = new[n]? := by
    intro funcs new
    rw [Array.getElem?_append_right (Nat.le_add_right _ _), Nat.add_sub_cancel_left,
      List.getElem?_toArray]
  dsimp only
  rw [h.funcs, h.funcs', hadded, hadded, hg, hg']
  exact .defined type _ hi

/-- **Allocation of a module without imports** ends alike. -/
theorem allocModule_alike (hconfig : s'.config = s.config) (m : Module) :
    (∃ e t t', Linking.allocModule m [] s = .error e t ∧ Linking.allocModule m [] s' = .error e t') ∨
    ∃ i segments t i' segments' t', Linking.allocModule m [] s = .ok (i, segments) t ∧
      Linking.allocModule m [] s' = .ok (i', segments') t' ∧
      i.Twins (s.placement s' m.funcs.length) i' ∧
      List.Forall₂ (Segment.Alike (s.placement s' m.funcs.length)) segments segments' ∧
      t.Alike (s.placement s' m.funcs.length) t' := by
  have hstart : SameAdded (s.placement s' m.funcs.length) s s' s s' :=
    ⟨hconfig, rfl, rfl, .start _ _, .start _ _, .start _ _⟩
  unfold Linking.allocModule
  rcases (Linking.inStep_prepare m).ends hstart with
    ⟨e, t, t', hp, hp', -⟩ |
    ⟨⟨i, segments⟩, t, ⟨i', segments'⟩, t', hp, hp', ⟨htwins, hsegments⟩, hadded⟩
  · exact .inl ⟨e, t, t', Move.bind_of_error hp, Move.bind_of_error hp'⟩
  rw [Move.bind_of_ok hp, Move.bind_of_ok hp']
  rcases (Linking.inStep_allocFuncs htwins.alike.types m.funcs).ends (s := t) (t := t') trivial with
    ⟨e, u, u', hf, hf', -⟩ | ⟨_, u, _, u', hf, hf', -, -⟩
  · exact .inl ⟨e, u, u', Move.bind_of_error hf, Move.bind_of_error hf'⟩
  · refine .inr ⟨i, segments, u, i', segments', u', Move.bind_of_ok hf, Move.bind_of_ok hf',
      htwins, hsegments, ?_⟩
    exact hadded.alike htwins.alike hf hf'

end Store

/-! ## Segments written -/

section Segments

variable {p : Store.Pairing} {t t' : Store}

theorem Table.Alike.fill {table table' : Table} (h : table.Alike p table') (start : Nat)
    {funcs funcs' : List FuncAddr} (hfuncs : List.Forall₂ p.funcs funcs funcs') :
    (table.fill start funcs).Alike p (table'.fill start funcs') where
  max := h.max
  slots := by
    refine h.slots.overwriteFrom start ?_
    rw [List.forall₂_map_left_iff, List.forall₂_map_right_iff]
    exact hfuncs.imp fun _ _ ha => .some ha

theorem Store.Alike.fillTable (h : t.Alike p t') {a a' : TableAddr} (ha : p.tables a a') (start : Nat)
    {funcs funcs' : List FuncAddr} (hfuncs : List.Forall₂ p.funcs funcs funcs') :
    (t.fillTable a start funcs).Alike p (t'.fillTable a' start funcs') := by
  refine { h with tables := ?_ }
  intro b b' hb
  -- The table that is written has one partner only, and that is written as well.
  have hsame : a = b ↔ a' = b' := p.tables_unique ha hb
  have htable := h.tables hb
  unfold Store.fillTable
  dsimp only
  rw [Array.getElem?_modify, Array.getElem?_modify]
  by_cases hab : a = b
  · rw [if_pos hab, if_pos (hsame.mp hab)]
    generalize t.tables[b]? = o, t'.tables[b']? = o' at htable ⊢
    cases htable with
    | none => exact .none
    | some htable => exact .some (htable.fill start hfuncs)
  · rw [if_neg hab, if_neg fun h => hab (hsame.mpr h)]
    exact htable

/-- Writing one segment on either side, or on neither. -/
theorem Segment.Alike.init {g g' : Segment} (hg : g.Alike p g') (h : t.Alike p t') :
    Agree (Store.Alike p) (g.init t) (g'.init t') := by
  cases hg with
  | @elem a a' funcs funcs' ha offset hfuncs =>
    unfold Segment.init
    dsimp only
    rw [Store.initTable_eq, Store.initTable_eq, hfuncs.length_eq,
      (Table.Alike.tests (h.tables ha) offset _).2]
    split
    · exact .ok (h.fillTable ha offset hfuncs)
    · exact .error _
  | data ha offset bytes =>
    unfold Segment.init
    dsimp only
    rw [Store.initMemory_eq, Store.initMemory_eq, h.memories ha]
    split
    · exact .ok (h.modifyMemory ha _)
    · exact .error _

/-- **Writing segments that are alike** keeps stores alike. -/
theorem Store.Alike.writeSegments (h : t.Alike p t') {gs gs' : List Segment}
    (hgs : List.Forall₂ (Segment.Alike p) gs gs') :
    (t.writeSegments gs).2.Alike p (t'.writeSegments gs').2 := by
  induction hgs generalizing t t' with
  | nil => exact h
  | @cons g g' gs gs' hg _ ih =>
    have hwritten := hg.init h
    unfold Store.writeSegments
    generalize g.init t = r, g'.init t' = r' at hwritten ⊢
    cases hwritten with
    | ok hwritten => exact ih hwritten
    | error e => exact h

end Segments

/-! ## Instantiation -/

namespace Store

variable {s s' t t' : Store} {m : Module}

/-- **Linking a module without imports** ends alike. -/
theorem link_alike (hconfig : s'.config = s.config) (himports : m.imports = []) :
    (∃ e t t', s.link m [] = (.error e, t) ∧ s'.link m [] = (.error e, t')) ∨
    ∃ i t i' t', s.link m [] = (.ok i, t) ∧ s'.link m [] = (.ok i', t') ∧
      i.Twins (s.placement s' m.funcs.length) i' ∧ t.Alike (s.placement s' m.funcs.length) t' := by
  have haccepts : ∀ s : Store, s.acceptsModule m [] = LinkError.ofValidation (validate m) := by
    intro s
    have hmatch : s.matchImports m [] = .ok () := by
      unfold matchImports
      rw [himports]
      rfl
    unfold acceptsModule
    rw [hmatch]
    cases validate m <;> rfl
  cases hvalid : LinkError.ofValidation (validate m) with
  | error e =>
    refine .inl ⟨e, s, s', ?_, ?_⟩
    · rw [link, haccepts, hvalid]
    · rw [link, haccepts, hvalid]
  | ok u =>
    have haccepts' : ∀ s : Store, s.acceptsModule m [] = .ok () := fun s => (haccepts s).trans hvalid
    rcases allocModule_alike hconfig m with
      ⟨e, t, t', ht, ht'⟩ | ⟨i, gs, t, i', gs', t', ht, ht', htwins, hgs, halike⟩
    · exact .inl ⟨e, s, s', link_of_alloc_error (haccepts' s) ht,
        link_of_alloc_error (haccepts' s') ht'⟩
    · exact .inr ⟨i, _, i', _, link_of_alloc_ok (haccepts' s) ht, link_of_alloc_ok (haccepts' s') ht',
        htwins, halike.writeSegments hgs⟩

/-- The start function. -/
theorem Alike.runStart {p : Pairing} (h : t.Alike p t') {i i' : ModuleInst} (hi : i.Alike p i')
    (turns : Nat) (start : Option FuncIdx) :
    (t'.runStart turns i' start).1 = (t.runStart turns i start).1 ∧
      (t.runStart turns i start).2.Alike p (t'.runStart turns i' start).2 := by
  cases start with
  | none => exact ⟨rfl, h⟩
  | some f =>
    have haddr := hi.funcAddr f
    unfold Store.runStart
    dsimp only
    generalize i.funcAddr f = found, i'.funcAddr f = found' at haddr ⊢
    cases haddr with
    | error t => exact ⟨rfl, h⟩
    | @ok a a' ha =>
      obtain ⟨hsame, htracks⟩ := h.invoke ha turns []
      have hafter := htracks.alike
      dsimp only
      generalize t.invoke turns a [] = called, t'.invoke turns a' [] = called' at hsame hafter ⊢
      obtain ⟨outcome, u⟩ := called
      obtain ⟨outcome', u'⟩ := called'
      dsimp only at hsame hafter ⊢
      subst hsame
      cases outcome' with
      | done vs => exact ⟨rfl, hafter⟩
      | failed trap => exact ⟨rfl, hafter⟩
      | unfinished => exact ⟨rfl, hafter⟩

/-- **What two instantiations come to**: the same failure, or instances of one module in stores that are
    alike. -/
inductive InstantiatesAlike (p : Pairing) :
    Outcome LinkError ModuleInst × Store → Outcome LinkError ModuleInst × Store → Prop
  | failed (e : LinkError) (t t' : Store) : InstantiatesAlike p (.failed e, t) (.failed e, t')
  | unfinished (t t' : Store) : InstantiatesAlike p (.unfinished, t) (.unfinished, t')
  | done {i i' : ModuleInst} {t t' : Store} (hi : i.Twins p i') (ht : t.Alike p t') :
    InstantiatesAlike p (.done i, t) (.done i', t')

/-- **A module without imports is instantiated alike** in stores with the same configuration. -/
theorem instantiate_alike (hconfig : s'.config = s.config) (himports : m.imports = []) (turns : Nat) :
    InstantiatesAlike (s.placement s' m.funcs.length) (s.instantiate turns m [])
      (s'.instantiate turns m []) := by
  rcases link_alike hconfig himports with
    ⟨e, t, t', hlink, hlink'⟩ | ⟨i, t, i', t', hlink, hlink', htwins, halike⟩
  · rw [instantiate_of_error turns hlink, instantiate_of_error turns hlink']
    exact .failed e t t'
  · obtain ⟨hsame, hafter⟩ := halike.runStart htwins.alike turns m.start
    unfold instantiate
    rw [hlink, hlink']
    dsimp only
    generalize t.runStart turns i m.start = started, t'.runStart turns i' m.start = started'
      at hsame hafter ⊢
    obtain ⟨outcome, u⟩ := started
    obtain ⟨outcome', u'⟩ := started'
    dsimp only at hsame hafter ⊢
    subst hsame
    cases outcome' with
    | done _ => exact .done htwins hafter
    | failed e => exact .failed e u u'
    | unfinished => exact .unfinished u u'

end Store

end WasmCore
