import WasmCore.Proofs.Link.Definitions
import WasmCore.Proofs.Link.Matching
import WasmCore.Proofs.Link.Permanence

/-!
# `Link.Limits` — sizes and the limits that were declared for them

Limits are compared once, when a module is linked. After that its tables and memories are on their own:
a table keeps its size, and a memory grows up to the maximum that it was created with, which is not the
one that an importing module asked for. That the sizes are right all the same takes an invariant of every
table and every memory, which modules establish because they were checked, and which the host has to
establish itself.

* `Lasting`, `Store.Every`, `Every.performAll`: properties of tables and memories that no operation
  breaks;
* `ModuleInst.Honours`, `honours_performAll`: **the limits of a linked module hold for life**, if the
  limits that the host creates tables and memories with are in order;
* `inverted_not_honours`: a table with a maximum below its minimum;
* `pages_performAll`: **the page limits**, the one that the configuration sets and the one of 32 bits.
-/

namespace WasmCore

/-! ## Properties that last -/

/-- **A property of tables and one of memories that last**: what checked modules create has them, and
    writing and growing do not break them. -/
structure Lasting (config : Config) (T : Table → Prop) (M : Memory → Prop) : Prop where
  fill : ∀ {t : Table} (start : Nat) (funcs : List FuncAddr), T t → T (t.fill start funcs)
  overwrite : ∀ {m : Memory} (start : Nat) (bytes : List UInt8), M m → M (m.overwrite start bytes)
  extend : ∀ {m : Memory} {delta : Nat}, m.canGrow delta config.maxMemoryPages = true → M m →
    M (m.extend delta)
  ofTable : ∀ {t : TableType}, Validate.limits t = .ok () → T (.create t)
  ofMemory : ∀ {t : MemType}, Validate.memType t = .ok () →
    t.min ≤ min config.maxMemoryPages maxMemoryPages → M (.create t)

/-- What the host creates with an operation has the properties as well. -/
def Operation.Adds (config : Config) (T : Table → Prop) (M : Memory → Prop) : Operation → Prop
  | .allocTable t => T (.create t)
  | .allocMemory t => t.min ≤ min config.maxMemoryPages maxMemoryPages → M (.create t)
  | _ => True

/-- All tables and all memories of a store have their property. -/
structure Store.Every (config : Config) (T : Table → Prop) (M : Memory → Prop) (s : Store) : Prop where
  sameConfig : s.config = config
  tables : ∀ t ∈ s.tables, T t
  memories : ∀ m ∈ s.memories, M m

/-- A store hands a property on to another. -/
def Store.HandsOn (P : Store → Prop) (s s' : Store) : Prop := P s → P s'

instance (P : Store → Prop) : IsPreorder Store (Store.HandsOn P) where
  refl _ := id
  trans _ _ _ h h' := h' ∘ h

/-- What holds of all entries of an array still does when one of them has changed. -/
theorem forall_mem_modify {α : Type} {P : α → Prop} {xs : Array α} {a : Nat} {f : α → α}
    (h : ∀ x ∈ xs, P x) (hf : ∀ x, xs[a]? = some x → P (f x)) : ∀ x ∈ xs.modify a f, P x := by
  intro x hx
  obtain ⟨b, hb⟩ := Array.mem_iff_getElem?.mp hx
  rw [Array.getElem?_modify] at hb
  by_cases hab : a = b
  · subst hab
    rw [if_pos rfl] at hb
    obtain ⟨y, hy, rfl⟩ := Option.map_eq_some_iff.mp hb
    exact hf y hy
  · rw [if_neg hab] at hb
    exact h x (Array.mem_of_getElem? hb)

theorem forall_mem_push {α : Type} {P : α → Prop} {xs : Array α} {y : α} (h : ∀ x ∈ xs, P x)
    (hy : P y) : ∀ x ∈ xs.push y, P x := by
  intro x hx
  rcases Array.mem_push.mp hx with hx | rfl
  · exact h x hx
  · exact hy

namespace Store.Every

variable {config : Config} {T : Table → Prop} {M : Memory → Prop} {s s' : Store}

theorem empty (config : Config) : (withConfig config).Every config T M where
  sameConfig := rfl
  tables := by intro t ht; cases ht; contradiction
  memories := by intro m hm; cases hm; contradiction

theorem overwriteMemory (hlasts : Lasting config T M) (h : s.Every config T M) (a : MemAddr)
    (start : Nat) (bytes : List UInt8) : (s.overwriteMemory a start bytes).Every config T M where
  sameConfig := h.sameConfig
  tables := h.tables
  memories := forall_mem_modify h.memories fun m hm =>
    hlasts.overwrite start bytes (h.memories m (Array.mem_of_getElem? hm))

theorem fillTable (hlasts : Lasting config T M) (h : s.Every config T M) (a : TableAddr)
    (start : Nat) (funcs : List FuncAddr) : (s.fillTable a start funcs).Every config T M where
  sameConfig := h.sameConfig
  tables := forall_mem_modify h.tables fun t ht =>
    hlasts.fill start funcs (h.tables t (Array.mem_of_getElem? ht))
  memories := h.memories

/-- **What an instruction may do.** -/
theorem effect (hlasts : Lasting config T M) (h : s.Every config T M) (he : s.Effect s') :
    s'.Every config T M := by
  cases he with
  | hostCall c => exact ⟨h.sameConfig, h.tables, h.memories⟩
  | write a start bytes => exact h.overwriteMemory hlasts a start bytes
  | @grow a memory delta ha hdelta =>
    have hgrown : ∀ m ∈ s.memories.modify a (·.extend delta), M m := by
      refine forall_mem_modify h.memories fun m hm => ?_
      cases ha.symm.trans hm
      rw [h.sameConfig] at hdelta
      exact hlasts.extend hdelta (h.memories memory (Array.mem_of_getElem? ha))
    exact ⟨h.sameConfig, h.tables, hgrown⟩

/-- **A call from outside**, whatever code it runs. -/
theorem invoke (hlasts : Lasting config T M) (h : s.Every config T M) (turns : Nat) (a : FuncAddr)
    (args : List Value) : (s.invoke turns a args).2.Every config T M := by
  have hkeeps : Store.HandsOn (Store.Every config T M) s (s.invoke turns a args).2 := by
    refine keeps_invoke (fun he h => h.effect hlasts he) (fun s a v h => ?_) turns s a args
    exact ⟨h.sameConfig, h.tables, h.memories⟩
  exact hkeeps h

theorem writeSegments (hlasts : Lasting config T M) (gs : List Segment) (h : s.Every config T M) :
    (s.writeSegments gs).2.Every config T M := by
  have hkeeps : Store.HandsOn (Store.Every config T M) s (s.writeSegments gs).2 := by
    refine rel_writeSegments (fun s g h => ?_) s gs
    cases g with
    | elem a offset funcs => exact h.fillTable hlasts a offset funcs
    | data a offset bytes => exact h.overwriteMemory hlasts a offset bytes
  exact hkeeps h

theorem allocTable {t : TableType} {a : TableAddr} (ht : T (.create t))
    (halloc : s.allocTable t = .ok (a, s')) (h : s.Every config T M) : s'.Every config T M := by
  simp only [Store.allocTable] at halloc
  split at halloc
  · cases halloc
  · cases halloc
    exact ⟨h.sameConfig, forall_mem_push h.tables ht, h.memories⟩

theorem allocMemory {t : MemType} {a : MemAddr}
    (ht : t.min ≤ min config.maxMemoryPages maxMemoryPages → M (.create t))
    (halloc : s.allocMemory t = .ok (a, s')) (h : s.Every config T M) : s'.Every config T M := by
  simp only [Store.allocMemory] at halloc
  split at halloc
  · cases halloc
  · rename_i hlimit
    cases halloc
    rw [h.sameConfig] at hlimit
    exact ⟨h.sameConfig, h.tables, forall_mem_push h.memories (ht (UInt32.not_lt.mp hlimit))⟩

theorem allocGlobal {type : GlobalType} {v : Value} {a : GlobalAddr}
    (halloc : s.allocGlobal type v = .ok (a, s')) (h : s.Every config T M) : s'.Every config T M := by
  simp only [Store.allocGlobal] at halloc
  split at halloc
  · cases halloc
    exact ⟨h.sameConfig, h.tables, h.memories⟩
  · cases halloc

/-- **The definitions of a checked module.** -/
theorem allocModule (hlasts : Lasting config T M) {m : Module} (hm : m.Checked)
    (given : List External) (h : s.Every config T M) :
    (Move.after (Linking.allocModule m given s)).Every config T M := by
  have hkeeps : Move.Keeps (Store.HandsOn (Store.Every config T M)) (Linking.allocModule m given) := by
    refine keeps_allocModule m given allocGlobal (fun t ht => ?_) (fun t ht => ?_) ?_
    · exact allocTable (hlasts.ofTable (hm.tables t ht))
    · exact allocMemory (hlasts.ofMemory (hm.memories t ht))
    · exact fun s f h => ⟨h.sameConfig, h.tables, h.memories⟩
  exact hkeeps s h

theorem runStart (hlasts : Lasting config T M) (h : s.Every config T M) (turns : Nat)
    (inst : ModuleInst) (start : Option FuncIdx) :
    (s.runStart turns inst start).2.Every config T M := by
  cases start with
  | none => exact h
  | some f =>
    simp only [Store.runStart]
    cases inst.funcAddr f with
    | error t => exact h
    | ok a =>
      have hcalled := h.invoke hlasts turns a []
      dsimp only
      generalize s.invoke turns a [] = outcome at hcalled ⊢
      obtain ⟨outcome, s'⟩ := outcome
      cases outcome with
      | done vs => exact hcalled
      | failed t => exact hcalled
      | unfinished => exact hcalled

/-- **Instantiation.** -/
theorem instantiate (hlasts : Lasting config T M) (h : s.Every config T M) (turns : Nat) (m : Module)
    (given : List External) : (s.instantiate turns m given).2.Every config T M := by
  rcases link_cases s m given with ⟨e, hlink⟩ | ⟨inst, segments, s₁, haccepts, halloc, hlink⟩
  · rw [instantiate_of_error turns hlink]
    exact h
  · have hchecked := checked_of_validate (acceptsModule_eq_ok haccepts).1
    have hallocated := h.allocModule hlasts hchecked given
    rw [halloc] at hallocated
    rw [(instantiate_of_ok turns hlink).1]
    exact (writeSegments hlasts segments hallocated).runStart hlasts turns inst m.start

/-- **One operation.** -/
theorem perform (hlasts : Lasting config T M) (h : s.Every config T M) {op : Operation}
    (hop : op.Adds config T M) : (s.perform op).Every config T M := by
  cases op with
  | allocHost type run => exact ⟨h.sameConfig, h.tables, h.memories⟩
  | allocTable t =>
    show (s.afterAlloc (s.allocTable t)).Every config T M
    cases halloc : s.allocTable t with
    | error e => exact h
    | ok p => exact h.allocTable hop halloc
  | allocMemory t =>
    show (s.afterAlloc (s.allocMemory t)).Every config T M
    cases halloc : s.allocMemory t with
    | error e => exact h
    | ok p => exact h.allocMemory hop halloc
  | allocGlobal type value =>
    show (s.afterAlloc (s.allocGlobal type value)).Every config T M
    cases halloc : s.allocGlobal type value with
    | error e => exact h
    | ok p => exact h.allocGlobal halloc
  | instantiate turns m given => exact h.instantiate hlasts turns m given
  | invoke turns a args => exact h.invoke hlasts turns a args
  | writeMemory a start bytes =>
    show (s.writeMemory a start bytes).2.Every config T M
    rw [writeMemory_eq_ite]
    split
    · exact h.overwriteMemory hlasts a start bytes
    · exact h

/-- **Every history.** -/
theorem performAll (hlasts : Lasting config T M) {ops : List Operation}
    (hops : ∀ op ∈ ops, op.Adds config T M) (h : s.Every config T M) :
    (s.performAll ops).Every config T M := by
  induction ops generalizing s with
  | nil => exact h
  | cons op ops ih =>
    rw [performAll_cons]
    refine ih (fun op' hop' => hops op' (List.mem_cons_of_mem op hop')) ?_
    exact h.perform hlasts (hops op List.mem_cons_self)

end Store.Every

/-! ## Limits for life -/

/-- A size is within limits. -/
def Limits.Admits (l : Limits) (size : Nat) : Prop :=
  l.min.toNat ≤ size ∧ ∀ max, l.max = some max → size ≤ max.toNat

/-- A size with a maximum of its own is one for which limits that are asked for hold now and later: it is
    large enough, and its own maximum is no larger than the one that is asked for. -/
def Limits.Bounds (l : Limits) (size : Nat) (max : Option UInt32) : Prop :=
  l.min.toNat ≤ size ∧ ∀ bound, l.max = some bound → ∃ own, max = some own ∧ own ≤ bound

/-- A size is at most the maximum, if there is one. -/
def WithinMax (size : Nat) (max : Option UInt32) : Prop := ∀ own, max = some own → size ≤ own.toNat

/-- **The tables and memories of an instance are within the limits that its module declares**, imported
    or not. -/
structure ModuleInst.Honours (i : ModuleInst) (s : Store) (m : Module) : Prop where
  tables : List.Forall₂ (fun a l => ∃ t, s.tables[a]? = some t ∧ l.Admits t.slots.size)
    i.tables.toList m.tableTypes
  memories : List.Forall₂ (fun a l => ∃ memory, s.memories[a]? = some memory ∧ l.Admits memory.pages)
    i.memories.toList m.memTypes

/-- The tables and memories of an instance are bound to the limits that its module declares. -/
structure ModuleInst.Bound (i : ModuleInst) (s : Store) (m : Module) : Prop where
  tables : List.Forall₂ (fun a l => ∃ t, s.tables[a]? = some t ∧ l.Bounds t.slots.size t.max)
    i.tables.toList m.tableTypes
  memories : List.Forall₂
    (fun a l => ∃ memory, s.memories[a]? = some memory ∧ l.Bounds memory.pages memory.max)
    i.memories.toList m.memTypes

namespace Limits

variable {l : Limits} {size : Nat} {max : Option UInt32}

/-- What is bound to limits and within its own maximum is within the limits. -/
theorem Bounds.admits (h : l.Bounds size max) (hmax : WithinMax size max) : l.Admits size := by
  refine ⟨h.1, fun bound hbound => ?_⟩
  obtain ⟨own, hown, hle⟩ := h.2 bound hbound
  exact Nat.le_trans (hmax own hown) (UInt32.le_iff_toNat_le.mp hle)

/-- Limits that match bind, whatever the size is rounded to in them. -/
theorem Matches.bounds (h : Limits.Matches ⟨UInt32.ofNat size, max⟩ l) : l.Bounds size max := by
  refine ⟨?_, h.2⟩
  have hmin : l.min.toNat ≤ size % 2 ^ 32 := by
    rw [← UInt32.toNat_ofNat']
    exact UInt32.le_iff_toNat_le.mp h.1
  exact Nat.le_trans hmin (Nat.mod_le _ _)

/-- What is created with limits is bound to them. -/
theorem bounds_self (l : Limits) : l.Bounds l.min.toNat l.max :=
  ⟨Nat.le_refl _, fun bound hbound => ⟨bound, hbound, UInt32.le_refl _⟩⟩

end Limits

/-- Limits that are in order admit the size that a table or a memory begins with. -/
theorem withinMax_of_ordered {l : Limits} (h : l.Ordered) : WithinMax l.min.toNat l.max :=
  fun own hown => UInt32.le_iff_toNat_le.mp (h own hown)

/-- A memory grows up to its own maximum at most. -/
theorem Memory.bound_le {m : Memory} {own : UInt32} (h : m.max = some own) (cap : UInt32) :
    m.bound cap ≤ own.toNat := by
  rw [Memory.bound, h]
  exact Nat.min_le_left _ _

/-- **No table and no memory outgrows its own maximum.** -/
theorem lasting_withinMax (config : Config) :
    Lasting config (fun t => WithinMax t.slots.size t.max) (fun m => WithinMax m.pages m.max) where
  fill start funcs h := by
    rw [Table.size_fill]
    exact h
  overwrite start bytes h := by
    rw [Memory.pages_overwrite, Memory.max_overwrite]
    exact h
  extend := by
    intro m delta hgrow h own hown
    rw [Memory.pages_extend]
    have hbound : m.pages + delta ≤ m.bound config.maxMemoryPages := of_decide_eq_true hgrow
    exact Nat.le_trans hbound (Memory.bound_le hown _)
  ofTable h := by
    rw [Table.create, Array.size_replicate]
    exact withinMax_of_ordered (ordered_of_limits h)
  ofMemory h _ := by
    rw [Memory.pages_create]
    exact withinMax_of_ordered (bounded_of_memType h).1

/-! ## Linked modules -/

namespace Store

variable {s s' : Store} {origins : List (Option Module)} {m : Module} {given : List External}
  {inst : ModuleInst}

/-- What binds a table of a store binds it when the store extends. -/
theorem Extends.boundTable (h : s.Extends s') {a : TableAddr} {l : Limits}
    (ha : ∃ t, s.tables[a]? = some t ∧ l.Bounds t.slots.size t.max) :
    ∃ t, s'.tables[a]? = some t ∧ l.Bounds t.slots.size t.max := by
  obtain ⟨t, ht, hbounds⟩ := ha
  obtain ⟨t', ht', hshape⟩ := h.tables a t ht
  rw [← hshape.size, ← hshape.max] at hbounds
  exact ⟨t', ht', hbounds⟩

/-- What binds a memory of a store binds it when the store extends, however far it has grown. -/
theorem Extends.boundMemory (h : s.Extends s') {a : MemAddr} {l : Limits}
    (ha : ∃ memory, s.memories[a]? = some memory ∧ l.Bounds memory.pages memory.max) :
    ∃ memory, s'.memories[a]? = some memory ∧ l.Bounds memory.pages memory.max := by
  obtain ⟨memory, hmemory, hmin, hmax⟩ := ha
  obtain ⟨memory', hmemory', hgrown⟩ := h.memories a memory hmemory
  rw [← hgrown.max] at hmax
  exact ⟨memory', hmemory', Nat.le_trans hmin hgrown.pages, hmax⟩

theorem Extends.bound (h : s.Extends s') (hinst : inst.Bound s m) : inst.Bound s' m :=
  ⟨hinst.tables.imp fun _ _ => h.boundTable, hinst.memories.imp fun _ _ => h.boundMemory⟩

/-- **A module whose definitions are allocated is bound to its limits**: what it imports because it was
    matched, what it defines because it was created so. -/
theorem bound_of_allocModule {segments : List Segment} (haccepts : s.acceptsModule m given = .ok ())
    (h : Linking.allocModule m given s = .ok (inst, segments) s') : inst.Bound s' m := by
  obtain ⟨hvalid, himports⟩ := acceptsModule_eq_ok haccepts
  have hmatched := forall₂_of_matched (checked_of_validate hvalid) himports
  have happended := appended_allocModule m given s
  rw [h] at happended
  have hall : s.Extends s' := happended.extends
  obtain ⟨elems, datas, s₁, s₂, s₃, halloc, rfl⟩ := allocModule_eq_ok h
  have hmemories₃ := keeps_allocMemories (given.filterMap External.memory?).toArray m.memories
    (fun _ _ => appended_allocMemory) s₂
  have hfuncs := keeps_allocFuncs appended_pushFunc inst m.funcs s₃
  rw [halloc.memories] at hmemories₃
  rw [halloc.funcs] at hfuncs
  have hfrom₃ : s₃.Extends s' := Appended.extends hfuncs
  have hfrom₂ : s₂.Extends s' := (Appended.extends hmemories₃).trans hfrom₃
  constructor
  · rcases Linking.allocTables_cases (given.filterMap External.table?).toArray m.tables s₁ with
      ⟨e, s'', -, herror⟩ | ⟨-, hok⟩
    · cases herror.symm.trans halloc.tables
    · injection hok.symm.trans halloc.tables with htables hstore
      have hadded := forall₂_appended s₁.tables Table.create m.tables
      rw [← htables, Array.toList_append]
      refine List.rel_append ?_ ?_
      · refine (forall₂_matchedTables hmatched).imp fun a l ha => hall.boundTable ?_
        obtain ⟨t, ht, hmatches⟩ := ha
        exact ⟨t, ht, hmatches.bounds⟩
      · refine hadded.imp fun a l ha => hfrom₂.boundTable ⟨.create l, ?_, ?_⟩
        · rw [← hstore]
          exact ha
        · have hsize : (Table.create l).slots.size = l.min.toNat := Array.size_replicate ..
          rw [hsize]
          exact l.bounds_self
  · rcases Linking.allocMemories_cases (given.filterMap External.memory?).toArray m.memories s₂ with
      ⟨e, s'', -, herror⟩ | ⟨-, hok⟩
    · cases herror.symm.trans halloc.memories
    · injection hok.symm.trans halloc.memories with hmemories hstore
      have hadded := forall₂_appended s₂.memories Memory.create m.memories
      rw [← hmemories, Array.toList_append]
      refine List.rel_append ?_ ?_
      · refine (forall₂_matchedMemories hmatched).imp fun a l ha => hall.boundMemory ?_
        obtain ⟨memory, hmemory, hmatches⟩ := ha
        exact ⟨memory, hmemory, hmatches.bounds⟩
      · refine hadded.imp fun a l ha => hfrom₃.boundMemory ⟨.create l, ?_, ?_⟩
        · rw [← hstore]
          exact ha
        · rw [Memory.pages_create]
          exact l.bounds_self

/-- An instance stays bound to the limits of its module, whatever becomes of its start function. -/
theorem WellFormed.bound_of_link (hs : s.WellFormed origins) (hlink : (s.link m given).1 = .ok inst)
    (turns : Nat) : inst.Bound (s.instantiate turns m given).2 m := by
  rcases link_cases s m given with ⟨e, h⟩ | ⟨inst', segments, s₁, haccepts, halloc, h⟩
  · rw [h] at hlink
    cases hlink
  · rw [h] at hlink
    cases hlink
    obtain ⟨-, hwf, -, hrefers⟩ := allocModule_spec hs haccepts halloc
    have hwritten := extends_writeSegments s₁ segments
    have hstarted := (hwf.writeSegments hrefers).2.extends_runStart turns inst m.start
    rw [(instantiate_of_ok turns h).1]
    exact (hwritten.trans hstarted).bound (bound_of_allocModule haccepts halloc)

/-- Where no table and no memory outgrows its own maximum, what an instance is bound to is honoured. -/
theorem honours_of_bound {config : Config} (hinst : inst.Bound s m)
    (hs : s.Every config (fun t => WithinMax t.slots.size t.max)
      (fun memory => WithinMax memory.pages memory.max)) : inst.Honours s m := by
  constructor
  · refine hinst.tables.imp fun a l ha => ?_
    obtain ⟨t, ht, hbounds⟩ := ha
    exact ⟨t, ht, hbounds.admits (hs.tables t (Array.mem_of_getElem? ht))⟩
  · refine hinst.memories.imp fun a l ha => ?_
    obtain ⟨memory, hmemory, hbounds⟩ := ha
    exact ⟨memory, hmemory, hbounds.admits (hs.memories memory (Array.mem_of_getElem? hmemory))⟩

end Store

/-- The host creates tables and memories only with limits that are in order. -/
def Operation.Ordered : Operation → Prop
  | .allocTable l => l.Ordered
  | .allocMemory l => l.Ordered
  | _ => True

theorem Operation.Ordered.adds {op : Operation} (h : op.Ordered) (config : Config) :
    op.Adds config (fun t => WithinMax t.slots.size t.max) (fun m => WithinMax m.pages m.max) := by
  cases op with
  | allocTable l =>
    show WithinMax (Table.create l).slots.size (Table.create l).max
    rw [Table.create, Array.size_replicate]
    exact withinMax_of_ordered h
  | allocMemory l =>
    intro _
    rw [Memory.pages_create]
    exact withinMax_of_ordered h
  | _ => exact trivial

namespace Store

/-- **The limits of a linked module hold for life.** Take any history in which the host creates tables and
    memories only with limits that are in order, any module that is linked after a part of it, and the
    store at the end: every table and every memory of the instance has at least the size that the module
    declares as its minimum and, if it declares a maximum, at most that, whether the module imports it or
    defines it. -/
theorem honours_performAll (config : Config) (before after : List Operation)
    (hordered : ∀ op ∈ before ++ after, op.Ordered) (turns : Nat) {m : Module}
    {given : List External} {inst : ModuleInst}
    (hlink : (((withConfig config).performAll before).link m given).1 = .ok inst) :
    inst.Honours
      (((withConfig config).performAll before).performAll (.instantiate turns m given :: after)) m := by
  obtain ⟨origins, hwf⟩ := Reachable.wellFormed ⟨config, before, rfl⟩
  have hadds : ∀ op ∈ before ++ after, op.Adds config (fun t => WithinMax t.slots.size t.max)
      (fun m => WithinMax m.pages m.max) := fun op hop => (hordered op hop).adds config
  have hlasts := lasting_withinMax config
  have hbefore := Every.performAll hlasts
    (fun op hop => hadds op (List.mem_append_left after hop)) (Every.empty config)
  have hnow := hbefore.instantiate hlasts turns m given
  have hlater := Every.performAll hlasts
    (fun op hop => hadds op (List.mem_append_right before hop)) hnow
  refine honours_of_bound ?_ hlater
  exact ((hwf.perform (.instantiate turns m given)).extends_performAll after).bound
    (hwf.bound_of_link hlink turns)

/-- A module that asks for a table of one to three slots. -/
def tableUser : Module where
  imports := [{ source := "host", name := "table", desc := .table ⟨1, some 3⟩ }]

/-- The instance of `tableUser` with the first table of a store. -/
def tableUserInst : ModuleInst where
  types := #[]
  funcs := #[]
  tables := #[0]
  memories := #[]
  globals := #[]

/-- A table of two slots that may have three. -/
theorem tableUser_honours :
    (((withConfig {}).performAll [.allocTable ⟨2, some 3⟩]).link tableUser [.table 0]).1 =
      .ok tableUserInst ∧
    tableUserInst.Honours (((withConfig {}).performAll [.allocTable ⟨2, some 3⟩]).performAll
      [.instantiate 0 tableUser [.table 0], .allocMemory ⟨1, some 1⟩]) tableUser := by
  have hlink : (((withConfig {}).performAll [.allocTable ⟨2, some 3⟩]).link tableUser
      [.table 0]).1 = .ok tableUserInst := by with_unfolding_all rfl
  refine ⟨hlink, honours_performAll {} [.allocTable ⟨2, some 3⟩] [.allocMemory ⟨1, some 1⟩] ?_ 0 hlink⟩
  intro op hop
  rcases List.mem_cons.mp hop with rfl | hop
  · intro max hmax
    cases hmax
    decide
  · obtain rfl := List.mem_singleton.mp hop
    intro max hmax
    cases hmax
    decide

/-- **A table with a maximum below its minimum** is linked by its maximum and has the size of its
    minimum, which the module did not ask for. -/
theorem inverted_not_honours :
    (((withConfig {}).performAll [.allocTable ⟨5, some 2⟩]).link tableUser [.table 0]).1 =
      .ok tableUserInst ∧
    ¬ tableUserInst.Honours (((withConfig {}).performAll [.allocTable ⟨5, some 2⟩]).performAll
      [.instantiate 0 tableUser [.table 0]]) tableUser := by
  refine ⟨by with_unfolding_all rfl, fun h => ?_⟩
  have htable : (((withConfig {}).performAll [.allocTable ⟨5, some 2⟩]).performAll
      [.instantiate 0 tableUser [.table 0]]).tables[0]? = some (.create ⟨5, some 2⟩) := by
    with_unfolding_all rfl
  cases h.tables with
  | cons ha _ =>
    obtain ⟨t, ht, -, hmax⟩ := ha
    cases htable.symm.trans ht
    exact absurd (hmax 3 rfl) (by decide)

end Store

/-! ## Page limits -/

theorem pages_of_min {config : Config} {t : MemType}
    (h : t.min ≤ min config.maxMemoryPages maxMemoryPages) :
    (Memory.create t).pages ≤ config.maxMemoryPages.toNat ∧
      (Memory.create t).pages ≤ maxMemoryPages.toNat := by
  rw [Memory.pages_create]
  replace h : t.min ≤ if config.maxMemoryPages ≤ maxMemoryPages then config.maxMemoryPages
    else maxMemoryPages := h
  rw [UInt32.le_iff_toNat_le] at h
  by_cases hle : config.maxMemoryPages ≤ maxMemoryPages
  · rw [if_pos hle] at h
    exact ⟨h, Nat.le_trans h (UInt32.le_iff_toNat_le.mp hle)⟩
  · rw [if_neg hle] at h
    exact ⟨Nat.le_trans h (Nat.le_of_lt (UInt32.lt_iff_toNat_lt.mp (UInt32.not_le.mp hle))), h⟩

/-- **No memory outgrows the configuration.** -/
theorem lasting_cap (config : Config) :
    Lasting config (fun _ => True) (fun m => m.pages ≤ config.maxMemoryPages.toNat) where
  fill _ _ h := h
  overwrite start bytes h := by
    rw [Memory.pages_overwrite]
    exact h
  extend := by
    intro m delta hgrow _
    have hbound : m.pages + delta ≤ m.bound config.maxMemoryPages := of_decide_eq_true hgrow
    rw [Memory.pages_extend]
    exact Nat.le_trans hbound (Nat.min_le_right _ _)
  ofTable _ := trivial
  ofMemory _ hmin := (pages_of_min hmin).1

/-- The configuration or its own maximum keeps a memory from growing past what 32 bits can address. -/
def Memory.Addressable (config : Config) (m : Memory) : Prop :=
  m.bound config.maxMemoryPages ≤ maxMemoryPages.toNat

/-- A memory without a maximum can grow as far as 32 bits can address. -/
theorem addressable_of_max {config : Config} {m : Memory}
    (h : config.maxMemoryPages ≤ maxMemoryPages ∨ ∀ max, m.max = some max → max ≤ maxMemoryPages) :
    m.Addressable config := by
  unfold Memory.Addressable Memory.bound
  rcases h with hcap | hmax
  · exact Nat.le_trans (Nat.min_le_right _ _) (UInt32.le_iff_toNat_le.mp hcap)
  · refine Nat.le_trans (Nat.min_le_left _ _) (UInt32.le_iff_toNat_le.mp ?_)
    cases h : m.max with
    | none => exact UInt32.le_refl _
    | some max => exact hmax max h

/-- **No memory that is kept from it outgrows what 32 bits can address.** -/
theorem lasting_addressable (config : Config) :
    Lasting config (fun _ => True)
      (fun m => m.pages ≤ maxMemoryPages.toNat ∧ m.Addressable config) where
  fill _ _ h := h
  overwrite start bytes h := by
    rw [Memory.pages_overwrite, Memory.Addressable, Memory.bound, Memory.max_overwrite]
    exact h
  extend := by
    intro m delta hgrow h
    have hbound : m.pages + delta ≤ m.bound config.maxMemoryPages := of_decide_eq_true hgrow
    rw [Memory.pages_extend]
    exact ⟨Nat.le_trans hbound h.2, h.2⟩
  ofTable _ := trivial
  ofMemory := by
    intro t ht hmin
    exact ⟨(pages_of_min hmin).2, addressable_of_max (.inr (bounded_of_memType ht).2)⟩

namespace Store

/-- Whatever is done, no memory outgrows the configuration. -/
theorem every_cap (config : Config) (ops : List Operation) :
    ((withConfig config).performAll ops).Every config (fun _ => True)
      (fun m => m.pages ≤ config.maxMemoryPages.toNat) := by
  refine Every.performAll (lasting_cap config) (fun op _ => ?_) (Every.empty config)
  cases op with
  | allocMemory t => exact fun hmin => (pages_of_min hmin).1
  | _ => exact trivial

/-- **The page limits.** After every history no memory has more pages than the configuration allows. And
    none has more than 32 bits can address, if the configuration allows no more than that or the host
    creates memories only with maxima that are no larger. -/
theorem pages_performAll (config : Config) (ops : List Operation) :
    (∀ memory ∈ ((withConfig config).performAll ops).memories,
      memory.pages ≤ config.maxMemoryPages.toNat) ∧
    ((config.maxMemoryPages ≤ maxMemoryPages ∨
        ∀ t max, .allocMemory t ∈ ops → t.max = some max → max ≤ maxMemoryPages) →
      ∀ memory ∈ ((withConfig config).performAll ops).memories,
        memory.pages ≤ min maxMemoryPages.toNat config.maxMemoryPages.toNat) := by
  have hcapped := (every_cap config ops).memories
  refine ⟨hcapped, fun hhost memory hmemory => Nat.le_min.mpr ⟨?_, hcapped memory hmemory⟩⟩
  have hadds : ∀ op ∈ ops, op.Adds config (fun _ => True)
      (fun m => m.pages ≤ maxMemoryPages.toNat ∧ m.Addressable config) := by
    intro op hop
    cases op with
    | allocMemory t =>
      refine fun hmin => ⟨(pages_of_min hmin).2, addressable_of_max ?_⟩
      exact hhost.imp_right fun hmax max => hmax t max hop
    | _ => exact trivial
  exact ((Every.performAll (lasting_addressable config) hadds (Every.empty config)).memories memory
    hmemory).1

/-- A module with a function that grows the memory that it imports. -/
def grower : Module where
  types := [⟨[.i32], [.i32]⟩]
  imports := [{ source := "host", name := "memory", desc := .memory ⟨0, none⟩ }]
  funcs := [{ typeIdx := 0, locals := [], body := [.localGet 0, .memoryGrow] }]

/-- The instance of `grower` with the first memory of a store. -/
def growerInst : ModuleInst where
  types := #[⟨[.i32], [.i32]⟩]
  funcs := #[0]
  tables := #[]
  memories := #[0]
  globals := #[]

/-- A store with a memory and an instance of `grower`, whose configuration allows more pages than 32 bits
    can address. -/
def growing (memory : Memory) : Store where
  config := { maxMemoryPages := 70000 }
  memories := #[memory]
  funcs := #[.defined ⟨[.i32], [.i32]⟩ growerInst
    { typeIdx := 0, locals := [], body := [.localGet 0, .memoryGrow] }]

theorem instantiate_grower (memory : Memory) :
    ({ config := { maxMemoryPages := 70000 }, memories := #[memory] } : Store).perform
      (.instantiate 0 grower [.memory 0]) = growing memory := by
  with_unfolding_all rfl

/-- The machine inside the function of `grower`. -/
def insideGrower (memory : Memory) (code : List Instr) (operands : List Value) : Machine where
  store := growing memory
  fuel := none
  stack := .ofList operands
  code := code
  labels := .ofList [{ kind := .func, branchArity := 1, endArity := 1, height := 0, rest := [] }]
  frames := .ofList [{ locals := #[.i32 1], inst := growerInst, labelBase := 0 }]

/-- A call of `grower` adds a page if the memory can grow. -/
theorem invoke_grower {memory : Memory} (h : memory.canGrow 1 70000 = true) :
    (growing memory).perform (.invoke 4 0 [.i32 1]) = growing (memory.extend 1) := by
  have hargs : (growing memory).acceptsArgs 0 [.i32 1] = .ok () := by with_unfolding_all rfl
  have hcall : Exec.call 0 ((growing memory).machine [.i32 1]) =
      .ok () (insideGrower memory [.localGet 0, .memoryGrow] []) := by with_unfolding_all rfl
  have hget : Exec.turn (insideGrower memory [.localGet 0, .memoryGrow] []) =
      .ok true (insideGrower memory [.memoryGrow] [.i32 1]) := by with_unfolding_all rfl
  have hgrow : Exec.grow (insideGrower memory [] [.i32 1]) =
      .ok () (insideGrower (memory.extend 1) [] [.i32 (UInt32.ofNat memory.pages)]) := by
    have hstep : Exec.grow (insideGrower memory [] [.i32 1]) =
        (if memory.canGrow 1 70000 then do
            modify fun m => { m with store := { m.store with
              memories := m.store.memories.modify 0 (·.extend 1) } }
            Exec.push (.i32 (UInt32.ofNat memory.pages))
          else Exec.push (.i32 (-1)) : Exec Unit) (insideGrower memory [] []) := by
      with_unfolding_all rfl
    rw [hstep, if_pos h]
    with_unfolding_all rfl
  have hturn : Exec.turn (insideGrower memory [.memoryGrow] [.i32 1]) =
      .ok true (insideGrower (memory.extend 1) [] [.i32 (UInt32.ofNat memory.pages)]) :=
    Move.bind_of_ok hgrow
  have hrun : Exec.run 4 (insideGrower memory [.localGet 0, .memoryGrow] []) =
      Exec.run 2 (insideGrower (memory.extend 1) [] [.i32 (UInt32.ofNat memory.pages)]) :=
    (Move.bind_of_ok hget).trans (Move.bind_of_ok hturn)
  show ((growing memory).invoke 4 0 [.i32 1]).2 = _
  rw [invoke_eq 4 hargs, Move.bind_of_ok hcall, hrun]
  with_unfolding_all rfl

/-- **A memory with a larger maximum** that the host has created grows past what 32 bits can address. -/
theorem grower_exceeds :
    ∃ memory ∈ ((withConfig { maxMemoryPages := 70000 }).performAll
      [.allocMemory ⟨65536, some 65537⟩, .instantiate 0 grower [.memory 0],
        .invoke 4 0 [.i32 1]]).memories,
      memory.pages = 65537 ∧ maxMemoryPages.toNat < memory.pages := by
  have halloc : (withConfig { maxMemoryPages := 70000 }).perform (.allocMemory ⟨65536, some 65537⟩) =
      { config := { maxMemoryPages := 70000 }, memories := #[.create ⟨65536, some 65537⟩] } := rfl
  have hcan : (Memory.create ⟨65536, some 65537⟩).canGrow 1 70000 = true := by
    rw [Memory.canGrow, Memory.pages_create]
    decide
  have hpages : ((Memory.create ⟨65536, some 65537⟩).extend 1).pages = 65537 := by
    rw [Memory.pages_extend, Memory.pages_create]
    rfl
  rw [performAll_cons, performAll_cons, performAll_cons, performAll_nil, halloc, instantiate_grower,
    invoke_grower hcan]
  refine ⟨(Memory.create ⟨65536, some 65537⟩).extend 1, Array.mem_singleton.mpr rfl, hpages, ?_⟩
  rw [hpages]
  decide

end Store

end WasmCore
