import WasmCore.Proofs.Link.IndexSpaces

/-!
# `Link.Overlay` — segments, one over the other

Once the definitions of a module are in place, its segments are written, element segments first and data
segments after them, each in the order of the module. Segments may overlap; what is written later stands.
So an entry of a table or a memory is that of the last segment that covers it, and if there is none, it is
what it was. A module has one table and one memory at most, its own or somebody else's, and nothing but
these two is written to.

* `lastSome?`, `entryAt?`, `Segment.slotAt?`, `Segment.byteAt?`: what segments put at a position;
* `writeSegments_table`, `writeSegments_memory`: **a run of segments, over one table or memory**;
* `ElemSegment.slotAt?`, `DataSegment.byteAt?`, `Store.Overlaid`: what the segments of a module should do;
* `Reachable.instantiate_overlaid`: **what they do.**
-/

namespace WasmCore

/-! ## The last that has anything -/

section Last

variable {σ τ α : Type}

/-- What the last member of a list has, of those that have anything. -/
def lastSome? (f : σ → Option α) (xs : List σ) : Option α := xs.reverse.findSome? f

theorem lastSome?_cons (f : σ → Option α) (x : σ) (xs : List σ) :
    lastSome? f (x :: xs) = (lastSome? f xs).or (f x) := by
  simp [lastSome?]

theorem lastSome?_append (f : σ → Option α) (xs ys : List σ) :
    lastSome? f (xs ++ ys) = (lastSome? f ys).or (lastSome? f xs) := by
  simp [lastSome?]

theorem lastSome?_eq_none {f : σ → Option α} {xs : List σ} (h : ∀ x ∈ xs, f x = none) :
    lastSome? f xs = none := by
  simpa [lastSome?] using h

/-- Two lists that have the same, member by member. -/
theorem lastSome?_congr {f : σ → Option α} {g : τ → Option α} {xs : List σ} {ys : List τ}
    (h : List.Forall₂ (fun x y => f x = g y) xs ys) : lastSome? f xs = lastSome? g ys := by
  induction h with
  | nil => rfl
  | cons hxy _ ih => rw [lastSome?_cons, lastSome?_cons, ih, hxy]

end Last

/-! ## Entries -/

/-- The entry that a run of entries, written from a position on, has at a position that it covers. -/
def entryAt? {α : Type} (start : Nat) (entries : List α) (i : Nat) : Option α :=
  if start ≤ i then entries[i - start]? else none

theorem entryAt?_map {α β : Type} (f : α → β) (start : Nat) (entries : List α) (i : Nat) :
    entryAt? start (entries.map f) i = (entryAt? start entries i).map f := by
  unfold entryAt?
  by_cases hstart : start ≤ i
  · simp [hstart]
  · simp [hstart]

/-- A run that fits covers nothing past the end. -/
theorem entryAt?_of_fits {α : Type} {start size : Nat} {entries : List α}
    (hfits : start + entries.length ≤ size) (i : Nat) : entryAt? start entries i =
      if start ≤ i ∧ i < start + entries.length ∧ i < size then entries[i - start]? else none := by
  unfold entryAt?
  by_cases hstart : start ≤ i
  · by_cases hend : i < start + entries.length
    · have hlt : i < size := by omega
      simp [hstart, hend, hlt]
    · have hout : entries.length ≤ i - start := by omega
      simp [hstart, hend, hout]
  · simp [hstart]

/-- A run that fits puts its entries where it covers an array, and leaves the rest. -/
theorem getElem?_overwriteFrom_of_fits {α : Type} {data : Array α} {start : Nat} {xs : List α}
    (hfits : start + xs.length ≤ data.size) (i : Nat) :
    (overwriteFrom data start xs)[i]? = (entryAt? start xs i).or data[i]? := by
  rw [getElem?_overwriteFrom, entryAt?_of_fits hfits]
  split
  · have hin : i - start < xs.length := by omega
    simp [hin]
  · rw [Option.none_or]

/-- A run of bytes that fits likewise. -/
theorem byteAt_overwrite_of_fits {m : Memory} {start : Nat} {bs : List UInt8}
    (hfits : start + bs.length ≤ m.size) (j : Nat) :
    (m.overwrite start bs).byteAt j = (entryAt? start bs j).getD (m.byteAt j) := by
  rw [Memory.byteAt_overwrite, entryAt?_of_fits hfits]
  split
  · have hin : j - start < bs.length := by omega
    simp [hin]
  · rw [Option.getD_none]

/-! ## Segments in place -/

namespace Segment

/-- The table that a segment is written to. -/
def table? : Segment → Option TableAddr
  | elem a _ _ => some a
  | data _ _ _ => none

/-- The memory that a segment is written to. -/
def memory? : Segment → Option MemAddr
  | elem _ _ _ => none
  | data a _ _ => some a

/-- What a segment puts in a slot of the table at an address. -/
def slotAt? (a : TableAddr) (i : Nat) : Segment → Option (Option FuncAddr)
  | elem a' start funcs => if a' = a then entryAt? start (funcs.map some) i else none
  | data _ _ _ => none

/-- What a segment puts at a place of the memory at an address. -/
def byteAt? (a : MemAddr) (j : Nat) : Segment → Option UInt8
  | elem _ _ _ => none
  | data a' start bytes => if a' = a then entryAt? start bytes j else none

variable {s : Store}

theorem write_table_of_ne {g : Segment} {a : TableAddr} (h : g.table? ≠ some a) :
    (g.write s).tables[a]? = s.tables[a]? := by
  cases g with
  | elem a' start funcs =>
    have hne : a' ≠ a := fun heq => h (congrArg some heq)
    simp only [write, Store.fillTable]
    rw [Array.getElem?_modify, if_neg hne]
  | data a' start bytes => rfl

theorem write_memory_of_ne {g : Segment} {a : MemAddr} (h : g.memory? ≠ some a) :
    (g.write s).memories[a]? = s.memories[a]? := by
  cases g with
  | elem a' start funcs => rfl
  | data a' start bytes =>
    have hne : a' ≠ a := fun heq => h (congrArg some heq)
    simp only [write, Store.overwriteMemory]
    rw [Array.getElem?_modify, if_neg hne]

/-- **One segment, over one table.** -/
theorem write_table {g : Segment} (hfits : g.fits s = true) {a : TableAddr} {t : Table}
    (ht : s.tables[a]? = some t) : ∃ t', (g.write s).tables[a]? = some t' ∧ t.SameShape t' ∧
      ∀ i : Nat, t'.slots[i]? = (g.slotAt? a i).or t.slots[i]? := by
  by_cases htarget : g.table? = some a
  · cases g with
    | data a' start bytes => cases htarget
    | elem a' start funcs =>
      obtain rfl : a' = a := Option.some.inj htarget
      have hwithin : start + (funcs.map some).length ≤ t.slots.size := by
        simp only [fits, Store.tableFits, ht, Option.any_some, Table.fits, decide_eq_true_eq] at hfits
        rw [List.length_map]
        exact hfits
      refine ⟨t.fill start funcs, ?_, ⟨t.size_fill start funcs, rfl⟩, fun i => ?_⟩
      · simp only [write, Store.fillTable]
        rw [Array.getElem?_modify, if_pos rfl, ht, Option.map_some]
      · rw [slotAt?, if_pos rfl]
        exact getElem?_overwriteFrom_of_fits hwithin i
  · have hnone : ∀ i, g.slotAt? a i = none := by
      intro i
      cases g with
      | elem a' start funcs => exact if_neg fun heq => htarget (congrArg some heq)
      | data a' start bytes => rfl
    refine ⟨t, ?_, refl_of Table.SameShape t, fun i => ?_⟩
    · rw [write_table_of_ne htarget, ht]
    · rw [hnone, Option.none_or]

/-- **One segment, over one memory.** -/
theorem write_memory {g : Segment} (hfits : g.fits s = true) {a : MemAddr} {m : Memory}
    (hm : s.memories[a]? = some m) : ∃ m', (g.write s).memories[a]? = some m' ∧ m'.max = m.max ∧
      m'.pages = m.pages ∧ ∀ j : Nat, m'.byteAt j = (g.byteAt? a j).getD (m.byteAt j) := by
  by_cases htarget : g.memory? = some a
  · cases g with
    | elem a' start funcs => cases htarget
    | data a' start bytes =>
      obtain rfl : a' = a := Option.some.inj htarget
      have hwithin : start + bytes.length ≤ m.size := by
        simpa [fits, Store.memoryFits, hm, Memory.fits] using hfits
      refine ⟨m.overwrite start bytes, ?_, m.max_overwrite start bytes, m.pages_overwrite start bytes,
        fun j => ?_⟩
      · simp only [write, Store.overwriteMemory]
        rw [Array.getElem?_modify, if_pos rfl, hm, Option.map_some]
      · rw [byteAt?, if_pos rfl]
        exact byteAt_overwrite_of_fits hwithin j
  · have hnone : ∀ j, g.byteAt? a j = none := by
      intro j
      cases g with
      | elem a' start funcs => rfl
      | data a' start bytes => exact if_neg fun heq => htarget (congrArg some heq)
    refine ⟨m, ?_, rfl, rfl, fun j => ?_⟩
    · rw [write_memory_of_ne htarget, hm]
    · rw [hnone, Option.getD_none]

end Segment

namespace Store

variable {s s' : Store} {m : Module} {given : List External} {inst : ModuleInst}

/-- What no segment is written to stays. -/
theorem writeSegments_of_ne {gs : List Segment} (hfits : ∀ g ∈ gs, g.fits s = true) :
    (∀ a, (∀ g ∈ gs, g.table? ≠ some a) → (s.writeSegments gs).2.tables[a]? = s.tables[a]?) ∧
    (∀ a, (∀ g ∈ gs, g.memory? ≠ some a) →
      (s.writeSegments gs).2.memories[a]? = s.memories[a]?) := by
  induction gs generalizing s with
  | nil => exact ⟨fun _ _ => rfl, fun _ _ => rfl⟩
  | cons g gs ih =>
    obtain ⟨hcons, hrest⟩ := writeSegments_cons hfits
    obtain ⟨htables, hmemories⟩ := ih hrest
    rw [hcons]
    refine ⟨fun a ha => ?_, fun a ha => ?_⟩
    · rw [htables a fun g' hg' => ha g' (List.mem_cons_of_mem g hg'),
        Segment.write_table_of_ne (ha g List.mem_cons_self)]
    · rw [hmemories a fun g' hg' => ha g' (List.mem_cons_of_mem g hg'),
        Segment.write_memory_of_ne (ha g List.mem_cons_self)]

/-- **Segments over one table**: the last one that covers a slot decides it. -/
theorem writeSegments_table {gs : List Segment} (hfits : ∀ g ∈ gs, g.fits s = true) {a : TableAddr}
    {t : Table} (ht : s.tables[a]? = some t) :
    ∃ t', (s.writeSegments gs).2.tables[a]? = some t' ∧ t.SameShape t' ∧
      ∀ i : Nat, t'.slots[i]? = (lastSome? (Segment.slotAt? a i) gs).or t.slots[i]? := by
  induction gs generalizing s t with
  | nil => exact ⟨t, ht, refl_of Table.SameShape t, fun _ => rfl⟩
  | cons g gs ih =>
    obtain ⟨hcons, hrest⟩ := writeSegments_cons hfits
    obtain ⟨t₁, ht₁, hshape₁, hslots₁⟩ := Segment.write_table (hfits g List.mem_cons_self) ht
    obtain ⟨t', ht', hshape, hslots⟩ := ih hrest ht₁
    refine ⟨t', ?_, trans_of Table.SameShape hshape₁ hshape, fun i => ?_⟩
    · rw [hcons, ht']
    · rw [hslots, hslots₁, lastSome?_cons, Option.or_assoc]

/-- **Segments over one memory**: the last one that covers a byte decides it. -/
theorem writeSegments_memory {gs : List Segment} (hfits : ∀ g ∈ gs, g.fits s = true) {a : MemAddr}
    {t : Memory} (ht : s.memories[a]? = some t) :
    ∃ t', (s.writeSegments gs).2.memories[a]? = some t' ∧ t'.max = t.max ∧ t'.pages = t.pages ∧
      ∀ j : Nat, t'.byteAt j = (lastSome? (Segment.byteAt? a j) gs).getD (t.byteAt j) := by
  induction gs generalizing s t with
  | nil => exact ⟨t, ht, rfl, rfl, fun _ => rfl⟩
  | cons g gs ih =>
    obtain ⟨hcons, hrest⟩ := writeSegments_cons hfits
    obtain ⟨t₁, ht₁, hmax₁, hpages₁, hbytes₁⟩ := Segment.write_memory (hfits g List.mem_cons_self) ht
    obtain ⟨t', ht', hmax, hpages, hbytes⟩ := ih hrest ht₁
    refine ⟨t', ?_, hmax.trans hmax₁, hpages.trans hpages₁, fun j => ?_⟩
    · rw [hcons, ht']
    · rw [hbytes, hbytes₁, lastSome?_cons]
      cases lastSome? (Segment.byteAt? a j) gs with
      | some b => rfl
      | none => simp

end Store

/-! ## Segments of a module -/

/-- The offset of a segment: an `i32`, which is read as unsigned. -/
def offsetValue? (values : List (Option Value)) (offset : Expr) : Option Nat :=
  match constantValue? values offset with
  | some (.i32 x) => some x.toNat
  | _ => none

/-- What an element segment is to put in a slot: the function that it names there, as its instance
    numbers functions. -/
def ElemSegment.slotAt? (inst : ModuleInst) (values : List (Option Value)) (i : Nat)
    (e : ElemSegment) : Option (Option FuncAddr) :=
  (offsetValue? values e.offset).bind fun start =>
    (entryAt? start e.funcs i).map fun f => inst.funcs[f.toNat]?

/-- What a data segment is to put at a place. -/
def DataSegment.byteAt? (values : List (Option Value)) (j : Nat) (d : DataSegment) : Option UInt8 :=
  (offsetValue? values d.offset).bind fun start => entryAt? start d.bytes j

/-- **A table with the element segments of a module laid over it.** All of them fit, and all functions
    that they name are there. -/
structure Table.Overlaid (t : Table) (m : Module) (inst : ModuleInst) (values : List (Option Value))
    (t' : Table) : Prop where
  shape : t.SameShape t'
  fits : ∀ e ∈ m.elems, ∃ start, offsetValue? values e.offset = some start ∧
    start + e.funcs.length ≤ t.slots.size ∧ ∀ f ∈ e.funcs, f.toNat < inst.funcs.size
  slots : ∀ i : Nat,
    t'.slots[i]? = (lastSome? (ElemSegment.slotAt? inst values i) m.elems).or t.slots[i]?

/-- **A memory with the data segments of a module laid over it.** All of them fit. -/
structure Memory.Overlaid (t : Memory) (m : Module) (values : List (Option Value)) (t' : Memory) :
    Prop where
  max : t'.max = t.max
  pages : t'.pages = t.pages
  fits : ∀ d ∈ m.datas, ∃ start, offsetValue? values d.offset = some start ∧
    start + d.bytes.length ≤ t.size
  bytes : ∀ j : Nat,
    t'.byteAt j = (lastSome? (DataSegment.byteAt? values j) m.datas).getD (t.byteAt j)

/-- **A store with the segments of a module laid down**, and with nothing else done to what was there.
    The table and the memory of the module are those that it was given, as they were, or new ones with
    empty slots and zeros. -/
structure Store.Overlaid (s : Store) (m : Module) (inst : ModuleInst) (s' : Store) : Prop where
  config : s'.config = s.config
  hostCalls : s'.hostCalls = s.hostCalls
  funcs : s.funcs.toList <+: s'.funcs.toList
  globals : s.globals.toList <+: s'.globals.toList
  singleTable : inst.tables.size ≤ 1
  singleMemory : inst.memories.size ≤ 1
  table : ∀ a, inst.tables[0]? = some a → ∃ t t', (s.withTables m.tables).tables[a]? = some t ∧
    s'.tables[a]? = some t' ∧ t.Overlaid m inst (s'.valuesAt inst.globals) t'
  memory : ∀ a, inst.memories[0]? = some a →
    ∃ t t', (s.withMemories m.memories).memories[a]? = some t ∧ s'.memories[a]? = some t' ∧
      t.Overlaid m (s'.valuesAt inst.globals) t'
  otherTables : ∀ a, inst.tables[0]? ≠ some a → s'.tables[a]? = s.tables[a]?
  otherMemories : ∀ a, inst.memories[0]? ≠ some a → s'.memories[a]? = s.memories[a]?

namespace Store

variable {s s' : Store} {m : Module} {given : List External} {inst : ModuleInst}
  {values : List (Option Value)}

/-- An offset that was evaluated has the value that the values of the globals give it. -/
theorem offsetValue?_of_evalOffset {globals : Array GlobalAddr} {e : Expr} {start : Nat}
    (h : s.evalOffset globals e = .ok start) : offsetValue? (s.valuesAt globals) e = some start := by
  obtain ⟨v, hv, h⟩ := bind_eq_ok_iff.mp h
  rw [offsetValue?, constantValue?_of_evalConstant hv]
  cases v with
  | i32 x => cases h; rfl
  | _ => cases h

/-- **An element segment and the segment to be written for it**, in an instance whose globals have the
    given values. -/
inductive ElemResolved (inst : ModuleInst) (values : List (Option Value)) : ElemSegment → Segment → Prop
  | intro {e : ElemSegment} {a : TableAddr} {start : Nat} {addresses : List FuncAddr}
      (table : inst.tables[0]? = some a) (offset : offsetValue? values e.offset = some start)
      (funcs : List.Forall₂ (fun (f : FuncIdx) b => inst.funcs[f.toNat]? = some b) e.funcs addresses) :
    ElemResolved inst values e (.elem a start addresses)

/-- **A data segment and the segment to be written for it.** -/
inductive DataResolved (inst : ModuleInst) (values : List (Option Value)) : DataSegment → Segment → Prop
  | intro {d : DataSegment} {a : MemAddr} {start : Nat} (memory : inst.memories[0]? = some a)
      (offset : offsetValue? values d.offset = some start) :
    DataResolved inst values d (.data a start d.bytes)

theorem elemResolved_of_resolveElem {e : ElemSegment} (hindex : e.table.toNat = 0) {g : Segment}
    (h : s.resolveElem inst e = .ok g) : ElemResolved inst (s.valuesAt inst.globals) e g := by
  obtain ⟨a, ha, h⟩ := bind_eq_ok_iff.mp h
  obtain ⟨start, hstart, h⟩ := bind_eq_ok_iff.mp h
  obtain ⟨funcs, hfuncs, h⟩ := bind_eq_ok_iff.mp h
  obtain ⟨rfl, -⟩ := checked_eq_ok h
  have htable : inst.tables[0]? = some a := by
    have haddr := ofTrap_eq_ok ha
    rw [ModuleInst.tableAddr, hindex] at haddr
    cases hget : inst.tables[0]? with
    | none => rw [hget] at haddr; cases haddr
    | some a' => rw [hget] at haddr; cases haddr; rfl
  refine .intro htable (offsetValue?_of_evalOffset hstart) ?_
  refine (forall₂_of_mapM_eq_ok (ofTrap_eq_ok hfuncs)).imp fun f a hf => ?_
  rw [ModuleInst.funcAddr] at hf
  cases hget : inst.funcs[f.toNat]? with
  | none => rw [hget] at hf; cases hf
  | some a' => rw [hget] at hf; cases hf; rfl

theorem dataResolved_of_resolveData {d : DataSegment} (hindex : d.memory.toNat = 0) {g : Segment}
    (h : s.resolveData inst d = .ok g) : DataResolved inst (s.valuesAt inst.globals) d g := by
  obtain ⟨a, ha, h⟩ := bind_eq_ok_iff.mp h
  obtain ⟨start, hstart, h⟩ := bind_eq_ok_iff.mp h
  obtain ⟨rfl, -⟩ := checked_eq_ok h
  have hmemory : inst.memories[0]? = some a := by
    have haddr := ofTrap_eq_ok ha
    rw [ModuleInst.memAddr, hindex] at haddr
    cases hget : inst.memories[0]? with
    | none => rw [hget] at haddr; cases haddr
    | some a' => rw [hget] at haddr; cases haddr; rfl
  exact .intro hmemory (offsetValue?_of_evalOffset hstart)

/-- What is written for an element segment is what the element segment is to put there. -/
theorem ElemResolved.slotAt? {e : ElemSegment} {g : Segment} (h : ElemResolved inst values e g)
    {a : TableAddr} (ha : inst.tables[0]? = some a) (i : Nat) :
    e.slotAt? inst values i = g.slotAt? a i := by
  obtain ⟨htable, hoffset, hfuncs⟩ := h
  rename_i a' start funcs
  obtain rfl : a' = a := Option.some.inj (htable.symm.trans ha)
  have hnames : e.funcs.map (fun f => inst.funcs[f.toNat]?) = funcs.map some := by
    rw [← List.forall₂_eq_eq_eq, List.forall₂_map_left_iff, List.forall₂_map_right_iff]
    exact hfuncs
  rw [ElemSegment.slotAt?, hoffset, Option.bind_some, ← entryAt?_map, hnames, Segment.slotAt?,
    if_pos rfl]

theorem DataResolved.byteAt? {d : DataSegment} {g : Segment} (h : DataResolved inst values d g)
    {a : MemAddr} (ha : inst.memories[0]? = some a) (j : Nat) :
    d.byteAt? values j = g.byteAt? a j := by
  obtain ⟨hmemory, hoffset⟩ := h
  rename_i a' start
  obtain rfl : a' = a := Option.some.inj (hmemory.symm.trans ha)
  rw [DataSegment.byteAt?, hoffset, Option.bind_some, Segment.byteAt?, if_pos rfl]

section Resolved

variable {elems datas : List Segment} (helems : List.Forall₂ (ElemResolved inst values) m.elems elems)
  (hdatas : List.Forall₂ (DataResolved inst values) m.datas datas)

include helems hdatas

/-- Only the table and the memory of the module are written to. -/
theorem target_of_resolved {g : Segment} (hg : g ∈ elems ++ datas) :
    (∀ a, g.table? = some a → inst.tables[0]? = some a) ∧
      ∀ a, g.memory? = some a → inst.memories[0]? = some a := by
  rcases List.mem_append.mp hg with hg | hg
  · obtain ⟨n, hn⟩ := List.mem_iff_getElem?.mp hg
    obtain ⟨e, -, htable, -, -⟩ := getElem?_of_forall₂ helems hn
    refine ⟨fun a ha => ?_, nofun⟩
    rw [htable]
    exact ha
  · obtain ⟨n, hn⟩ := List.mem_iff_getElem?.mp hg
    obtain ⟨d, -, hmemory, -⟩ := getElem?_of_forall₂ hdatas hn
    refine ⟨nofun, fun a ha => ?_⟩
    rw [hmemory]
    exact ha

variable (hfits : ∀ g ∈ elems ++ datas, g.fits s = true)

include hfits

/-- **The table of a module.** -/
theorem overlaid_table {a : TableAddr} (ha : inst.tables[0]? = some a) {t : Table}
    (ht : s.tables[a]? = some t) :
    ∃ t', (s.writeSegments (elems ++ datas)).2.tables[a]? = some t' ∧ t.Overlaid m inst values t' := by
  obtain ⟨t', ht', hshape, hslots⟩ := writeSegments_table hfits ht
  refine ⟨t', ht', { shape := hshape, fits := fun e he => ?_, slots := fun i => ?_ }⟩
  · obtain ⟨n, hn⟩ := List.mem_iff_getElem?.mp he
    obtain ⟨g, hg, htable, hoffset, hfuncs⟩ := getElem?_of_forall₂ helems.flip hn
    rename_i a' start funcs
    obtain rfl : a' = a := Option.some.inj (htable.symm.trans ha)
    have hfit := hfits _ (List.mem_append_left datas (List.mem_of_getElem? hg))
    simp only [Segment.fits, tableFits, ht, Option.any_some, Table.fits, decide_eq_true_eq] at hfit
    refine ⟨start, hoffset, hfuncs.length_eq ▸ hfit, fun f hf => ?_⟩
    obtain ⟨k, hk⟩ := List.mem_iff_getElem?.mp hf
    obtain ⟨b, -, hb⟩ := getElem?_of_forall₂ hfuncs.flip hk
    exact (Array.getElem?_eq_some_iff.mp hb).1
  · have hnone : lastSome? (Segment.slotAt? a i) datas = none := by
      refine lastSome?_eq_none fun g hg => ?_
      obtain ⟨n, hn⟩ := List.mem_iff_getElem?.mp hg
      obtain ⟨d, -, -, -⟩ := getElem?_of_forall₂ hdatas hn
      rfl
    rw [hslots, lastSome?_append, hnone, Option.none_or,
      lastSome?_congr (helems.imp fun e g h => h.slotAt? ha i)]

/-- **The memory of a module.** -/
theorem overlaid_memory {a : MemAddr} (ha : inst.memories[0]? = some a) {t : Memory}
    (ht : s.memories[a]? = some t) :
    ∃ t', (s.writeSegments (elems ++ datas)).2.memories[a]? = some t' ∧ t.Overlaid m values t' := by
  obtain ⟨t', ht', hmax, hpages, hbytes⟩ := writeSegments_memory hfits ht
  refine ⟨t', ht', { max := hmax, pages := hpages, fits := fun d hd => ?_, bytes := fun j => ?_ }⟩
  · obtain ⟨n, hn⟩ := List.mem_iff_getElem?.mp hd
    obtain ⟨g, hg, hmemory, hoffset⟩ := getElem?_of_forall₂ hdatas.flip hn
    rename_i a' start
    obtain rfl : a' = a := Option.some.inj (hmemory.symm.trans ha)
    have hfit := hfits _ (List.mem_append_right elems (List.mem_of_getElem? hg))
    simp only [Segment.fits, memoryFits, ht, Option.any_some, Memory.fits, decide_eq_true_eq] at hfit
    exact ⟨start, hoffset, hfit⟩
  · have hnone : lastSome? (Segment.byteAt? a j) elems = none := by
      refine lastSome?_eq_none fun g hg => ?_
      obtain ⟨n, hn⟩ := List.mem_iff_getElem?.mp hg
      obtain ⟨e, -, -, -, -⟩ := getElem?_of_forall₂ helems hn
      rfl
    rw [hbytes, lastSome?_append, hnone, Option.or_none,
      lastSome?_congr (hdatas.imp fun d g h => h.byteAt? ha j)]

end Resolved

/-! ## New instances -/

/-- The segments of a module are resolved in the store that has its definitions. -/
theorem resolved_of_allocModule (hvalid : m.Valid) {segments : List Segment}
    (h : Linking.allocModule m given s = .ok (inst, segments) s') :
    ∃ elems datas, segments = elems ++ datas ∧
      List.Forall₂ (ElemResolved inst (s'.valuesAt inst.globals)) m.elems elems ∧
      List.Forall₂ (DataResolved inst (s'.valuesAt inst.globals)) m.datas datas := by
  obtain ⟨elems, datas, s₁, s₂, s₃, halloc, rfl⟩ := allocModule_eq_ok h
  obtain ⟨new, rfl, -⟩ := allocFuncs_spec halloc.funcs
  refine ⟨elems, datas, rfl, ?_, ?_⟩
  · have hindices : ∀ e ∈ m.elems, e.table.toNat = 0 := by
      intro e he
      have hlt := (hvalid.elems e he).1
      have hsingle := hvalid.singleTable
      omega
    have hall := (List.forall₂_and_left _ _).mpr ⟨hindices, forall₂_of_mapM_eq_ok halloc.elems⟩
    exact hall.imp fun e g ⟨hindex, hg⟩ => elemResolved_of_resolveElem (s := s₃) hindex hg
  · have hindices : ∀ d ∈ m.datas, d.memory.toNat = 0 := by
      intro d hd
      have hlt := (hvalid.datas d hd).1
      have hsingle := hvalid.singleMemory
      omega
    have hall := (List.forall₂_and_left _ _).mpr ⟨hindices, forall₂_of_mapM_eq_ok halloc.datas⟩
    exact hall.imp fun d g ⟨hindex, hg⟩ => dataResolved_of_resolveData (s := s₃) hindex hg

/-- A module has one table and one memory at most. -/
theorem single_of_valid (hvalid : m.Valid) (hinst : inst.Implements s (.ofModule m)) :
    inst.tables.size ≤ 1 ∧ inst.memories.size ≤ 1 := by
  have htables : inst.tables.size = m.tableTypes.length := hinst.tables.length_eq
  have hmemories : inst.memories.size = m.memTypes.length := hinst.memories.length_eq
  rw [htables, hmemories]
  exact ⟨hvalid.singleTable, hvalid.singleMemory⟩

/-- Where an index space has at most one address, an entry at another address is not new. -/
theorem getElem?_appended_of_ne {τ α : Type} {xs : Array α} {create : τ → α} {ts : List τ}
    {imported : List Nat} {addresses : Array Nat}
    (haddresses : addresses.toList = imported ++ List.range' xs.size ts.length)
    (hsingle : addresses.size ≤ 1) {a : Nat} (ha : addresses[0]? ≠ some a) :
    (xs ++ (ts.map create).toArray)[a]? = xs[a]? := by
  by_cases hold : a < xs.size
  · exact Array.getElem?_append_left hold
  · have hlength : imported.length + ts.length ≤ 1 := by
      have hsize := congrArg List.length haddresses
      simp only [Array.length_toList, List.length_append, List.length_range'] at hsize
      omega
    have hnew : ts.length ≤ a - xs.size := by
      by_contra hlt
      have hfirst : imported = [] := List.eq_nil_of_length_eq_zero (by omega)
      have hone : ts.length = 1 := by omega
      refine ha ?_
      rw [← Array.getElem?_toList, haddresses, hfirst, hone]
      have hlast : a = xs.size := by omega
      simp [hlast]
    rw [Array.getElem?_append_right (Nat.le_of_not_lt hold), Array.getElem?_eq_none (by simpa using hnew),
      Array.getElem?_eq_none (Nat.le_of_not_lt hold)]

/-- **Segments are laid down exactly, in order.** Take any store that can be reached, and any module
    without a start function that is instantiated there. A slot of its table holds the function of the
    last element segment that covers it, and a byte of its memory is that of the last data segment that
    covers it; what no segment covers is as it was, or empty or zero if the table or the memory is new.
    All segments fit. All other tables and memories, and everything else that was there, are unchanged. -/
theorem Reachable.instantiate_overlaid (hs : s.Reachable) (hstart : m.start = none) {turns : Nat}
    (h : s.instantiate turns m given = (.done inst, s')) : s.Overlaid m inst s' := by
  obtain ⟨origins, hwf⟩ := hs.wellFormed
  obtain ⟨segments, s₁, haccepts, halloc, hstore⟩ := instantiate_done (congrArg Prod.fst h)
  rw [h, hstart] at hstore
  obtain rfl : s' = (s₁.writeSegments segments).2 := hstore
  have hvalid := valid_of_validate (acceptsModule_eq_ok haccepts).1
  have hadds := adds_of_allocModule hwf haccepts halloc
  have happended := appended_allocModule m given s
  rw [halloc] at happended
  obtain ⟨-, -, hinst, -⟩ := allocModule_spec hwf haccepts halloc
  have hfits := fits_of_allocModule halloc
  obtain ⟨elems, datas, rfl, helems, hdatas⟩ := resolved_of_allocModule hvalid halloc
  have htarget := fun g hg => target_of_resolved helems hdatas (g := g) hg
  obtain ⟨hkeptTables, hkeptMemories⟩ := writeSegments_of_ne hfits
  obtain ⟨hsingleTable, hsingleMemory⟩ := single_of_valid hvalid hinst
  have hvalues : (s₁.writeSegments (elems ++ datas)).2.valuesAt inst.globals =
      s₁.valuesAt inst.globals := valuesAt_writeSegments s₁ _ _
  obtain ⟨tables, memories, hwrites⟩ := s₁.writeSegments_eq (elems ++ datas)
  refine
    { config := by rw [hwrites]; exact happended.config
      hostCalls := by rw [hwrites]; exact happended.hostCalls
      funcs := by rw [hwrites]; exact happended.funcs
      globals := by rw [hwrites]; exact happended.globals
      singleTable := hsingleTable
      singleMemory := hsingleMemory
      table := ?_
      memory := ?_
      otherTables := ?_
      otherMemories := ?_ }
  · intro a ha
    rw [← Array.getElem?_toList] at ha
    obtain ⟨type, -, hlt⟩ := getElem?_of_forall₂ hinst.tables.flip ha
    rw [Array.getElem?_toList] at ha
    have ht : s₁.tables[a]? = some s₁.tables[a] := Array.getElem?_eq_getElem hlt
    obtain ⟨t', ht', hover⟩ := overlaid_table helems hdatas hfits ha ht
    rw [hvalues]
    refine ⟨_, t', ?_, ht', hover⟩
    rw [← ht, hadds.tables]
    rfl
  · intro a ha
    rw [← Array.getElem?_toList] at ha
    obtain ⟨type, -, hlt⟩ := getElem?_of_forall₂ hinst.memories.flip ha
    rw [Array.getElem?_toList] at ha
    have ht : s₁.memories[a]? = some s₁.memories[a] := Array.getElem?_eq_getElem hlt
    obtain ⟨t', ht', hover⟩ := overlaid_memory helems hdatas hfits ha ht
    rw [hvalues]
    refine ⟨_, t', ?_, ht', hover⟩
    rw [← ht, hadds.memories]
    rfl
  · intro a ha
    rw [hkeptTables a fun g hg hto => ha ((htarget g hg).1 a hto), hadds.tables]
    exact getElem?_appended_of_ne hadds.indexSpaces.tables hsingleTable ha
  · intro a ha
    rw [hkeptMemories a fun g hg hto => ha ((htarget g hg).2 a hto), hadds.memories]
    exact getElem?_appended_of_ne hadds.indexSpaces.memories hsingleMemory ha

/-- A module with a table of its own and somebody else's memory, and with two segments for each that
    overlap. The last byte of the memory is one of those written twice. -/
def overlapping : Module where
  types := [⟨[], []⟩]
  imports := [{ source := "host", name := "memory", desc := .memory ⟨1, none⟩ }]
  funcs := [{ typeIdx := 0, locals := [], body := [] }, { typeIdx := 0, locals := [], body := [] }]
  tables := [⟨3, none⟩]
  globals := [{ type := ⟨.i32, .const⟩, initial := [.const (.i32 65535)] }]
  elems := [{ table := 0, offset := [.const (.i32 0)], funcs := [0, 1] },
    { table := 0, offset := [.const (.i32 1)], funcs := [0] }]
  datas := [{ memory := 0, offset := [.const (.i32 65534)], bytes := [1, 2] },
    { memory := 0, offset := [.globalGet 0], bytes := [3] }]

/-- The instance of `overlapping` in a store with a memory and nothing else. -/
def overlappingInst : ModuleInst where
  types := #[⟨[], []⟩]
  funcs := #[0, 1]
  tables := #[0]
  memories := #[0]
  globals := #[0]

/-- A store with a memory of one page. -/
def freshPage : Store := (withConfig {}).performAll [.allocMemory ⟨1, none⟩]

/-- What is written twice is what was written last, and what is not written is empty. -/
theorem overlapping_overlaid : ∃ s',
    freshPage.instantiate 0 overlapping [.memory 0] = (.done overlappingInst, s') ∧
    freshPage.Overlaid overlapping overlappingInst s' ∧
    (∃ t', s'.tables[0]? = some t' ∧ t'.slots[1]? = some (some 0) ∧ t'.slots[2]? = some none) ∧
    ∃ t', s'.memories[0]? = some t' ∧ t'.byteAt 65534 = 1 ∧ t'.byteAt 65535 = 3 := by
  let done := freshPage.instantiate 0 overlapping [.memory 0]
  have hdone : done = (.done overlappingInst, done.2) := by
    refine Prod.ext ?_ rfl
    with_unfolding_all rfl
  have hvalues : done.2.valuesAt overlappingInst.globals = [some (.i32 65535)] := by
    with_unfolding_all rfl
  have hreachable : freshPage.Reachable := ⟨_, _, rfl⟩
  have hover := hreachable.instantiate_overlaid rfl hdone
  refine ⟨done.2, hdone, hover, ?_, ?_⟩
  · obtain ⟨t, t', ht, ht', hlaid⟩ := hover.table 0 rfl
    have hnew : t = .create ⟨3, none⟩ := (Option.some.inj ht).symm
    refine ⟨t', ht', ?_, ?_⟩
    · rw [hlaid.slots, hvalues]
      rfl
    · rw [hlaid.slots, hvalues, hnew]
      rfl
  · obtain ⟨t, t', -, ht', hlaid⟩ := hover.memory 0 rfl
    refine ⟨t', ht', ?_, ?_⟩
    · rw [hlaid.bytes, hvalues]
      rfl
    · rw [hlaid.bytes, hvalues]
      rfl

end Store

end WasmCore
