import WasmCore.Proofs.Exec.Effects
import WasmCore.Proofs.Exec.Safety

/-!
# `Link.Permanence` — what a store has handed out stays valid

Addresses are positions in the arrays of a store, and nothing keeps track of who holds one. They stay
valid because a store only ever extends: no operation removes an entry that was there when it began, and
none gives an address another type.

* `extends_writeSegments`, `WellFormed.extends_instantiate`, `WellFormed.extends_perform`: each operation
  extends the store;
* `External.In`, `External.KeepsType`: what is referred to is there, and keeps its type;
* `handedOut`, `in_of_handedOut`: what an operation hands out is in the store;
* `Reachable.performAll_extends`: **the store only ever extends**, so that every address and every export
  stays valid and keeps its type.
-/

namespace WasmCore

namespace Store

variable {s s' : Store} {origins : List (Option Module)} {m : Module} {given : List External}

/-! ## Operations -/

theorem Appended.extends (h : s.Appended s') : s.Extends s' :=
  ⟨h.config, h.funcs, .of_appended h.tables, .of_appended h.memories, .of_appended h.globals⟩

theorem extends_write (s : Store) (g : Segment) : s.Extends (g.write s) := by
  cases g with
  | elem a offset funcs => exact s.extends_fillTable a offset funcs
  | data a offset bytes => exact s.extends_overwriteMemory a offset bytes

/-- Segments change slots and bytes, and no size. -/
theorem extends_writeSegments (s : Store) (gs : List Segment) :
    s.Extends (s.writeSegments gs).2 :=
  rel_writeSegments extends_write s gs

theorem WellFormed.extends_runStart (hs : s.WellFormed origins) (turns : Nat) (inst : ModuleInst)
    (start : Option FuncIdx) : s.Extends (s.runStart turns inst start).2 := by
  cases start with
  | none => exact .refl s
  | some f =>
    simp only [Store.runStart]
    cases inst.funcAddr f with
    | error t => exact .refl s
    | ok a =>
      have hinvoke := hs.extends_invoke turns a []
      dsimp only
      generalize s.invoke turns a [] = outcome at hinvoke ⊢
      obtain ⟨outcome, s'⟩ := outcome
      cases outcome with
      | done vs => exact hinvoke
      | failed t => exact hinvoke
      | unfinished => exact hinvoke

/-- **Instantiation.** What is rolled back was not there before. -/
theorem WellFormed.extends_instantiate (hs : s.WellFormed origins) (turns : Nat) (m : Module)
    (given : List External) : s.Extends (s.instantiate turns m given).2 := by
  rcases link_cases s m given with ⟨e, hlink⟩ | ⟨inst, segments, s₁, haccepts, halloc, hlink⟩
  · rw [instantiate_of_error turns hlink]
    exact .refl s
  · obtain ⟨-, hwf, -, hrefers⟩ := allocModule_spec hs haccepts halloc
    have happended := appended_allocModule m given s
    rw [halloc] at happended
    have hwritten := (hwf.writeSegments hrefers).2
    rw [(instantiate_of_ok turns hlink).1]
    have hstart := hwritten.extends_runStart turns inst m.start
    exact (happended.extends.trans (extends_writeSegments s₁ segments)).trans hstart

theorem extends_afterAlloc {α : Type} {r : Except LinkError (α × Store)}
    (h : ∀ a s', r = .ok (a, s') → s.Appended s') : s.Extends (s.afterAlloc r) := by
  cases r with
  | error e => exact .refl s
  | ok p => exact (h p.1 p.2 rfl).extends

/-- **One operation.** -/
theorem WellFormed.extends_perform (hs : s.WellFormed origins) (op : Operation) :
    s.Extends (s.perform op) := by
  cases op with
  | allocHost type run => exact (appended_pushFunc s _).extends
  | allocTable t => exact extends_afterAlloc fun _ _ h => appended_allocTable h
  | allocMemory t => exact extends_afterAlloc fun _ _ h => appended_allocMemory h
  | allocGlobal type value => exact extends_afterAlloc fun _ _ h => appended_allocGlobal h
  | instantiate turns m given => exact hs.extends_instantiate turns m given
  | invoke turns a args => exact hs.extends_invoke turns a args
  | writeMemory a start bytes =>
    show s.Extends (s.writeMemory a start bytes).2
    rw [writeMemory_eq_ite]
    split
    · exact s.extends_overwriteMemory a start bytes
    · exact .refl s

/-- **Every history.** -/
theorem WellFormed.extends_performAll (hs : s.WellFormed origins) (ops : List Operation) :
    s.Extends (s.performAll ops) := by
  induction ops generalizing s origins with
  | nil => exact .refl s
  | cons op ops ih => exact (hs.extends_perform op).trans (ih (hs.perform op))

end Store

/-! ## References -/

/-- What is referred to is in a store. -/
def External.In (s : Store) : External → Prop
  | func a => a < s.funcs.size
  | table a => a < s.tables.size
  | memory a => a < s.memories.size
  | global a => a < s.globals.size

/-- **What is referred to is in both stores and has the same type in both.** The current size of a memory
    counts as part of its type; it may have grown. -/
def External.KeepsType (s s' : Store) : External → Prop
  | func a => ∃ type, s.funcType? a = some type ∧ s'.funcType? a = some type
  | table a => ∃ t t', s.tables[a]? = some t ∧ s'.tables[a]? = some t' ∧ t'.type = t.type
  | memory a => ∃ m m', s.memories[a]? = some m ∧ s'.memories[a]? = some m' ∧ m.GrownTo m'
  | global a => ∃ g g', s.globals[a]? = some g ∧ s'.globals[a]? = some g' ∧ g'.type = g.type

/-- What is in a store keeps its type when the store extends. -/
theorem External.In.keepsType {s s' : Store} {e : External} (he : e.In s) (h : s.Extends s') :
    e.KeepsType s s' := by
  cases e with
  | func a =>
    have hlt : a < s.funcs.toList.length := he
    have hget : s'.funcs.toList[a]? = s.funcs.toList[a]? := by
      obtain ⟨new, hnew⟩ := h.funcs
      rw [← hnew, List.getElem?_append_left hlt]
    refine ⟨s.funcs[a].type, ?_, ?_⟩
    · rw [Store.funcType?, Array.getElem?_eq_getElem he]; rfl
    · rw [Store.funcType?, ← Array.getElem?_toList, hget, Array.getElem?_toList,
        Array.getElem?_eq_getElem he]
      rfl
  | table a =>
    obtain ⟨t', ht', hshape⟩ := h.tables a _ (Array.getElem?_eq_getElem he)
    refine ⟨_, t', Array.getElem?_eq_getElem he, ht', ?_⟩
    rw [Table.type, Table.type, hshape.size, hshape.max]
  | memory a =>
    obtain ⟨m', hm', hgrown⟩ := h.memories a _ (Array.getElem?_eq_getElem he)
    exact ⟨_, m', Array.getElem?_eq_getElem he, hm', hgrown⟩
  | global a =>
    obtain ⟨g', hg', hset⟩ := h.globals a _ (Array.getElem?_eq_getElem he)
    exact ⟨_, g', Array.getElem?_eq_getElem he, hg', hset.type⟩

/-! ## What is handed out -/

namespace ModuleInst

variable {i : ModuleInst} {s : Store} {c : Context} {e : External}

/-- Everything that an instance gives an index. -/
def addresses (i : ModuleInst) : List External :=
  i.funcs.toList.map .func ++ i.tables.toList.map .table ++ i.memories.toList.map .memory ++
    i.globals.toList.map .global

/-- A look-up that succeeds finds what stands at the index. -/
theorem map_of_lookup {xs : Array Nat} {n : Nat} {kind : Nat → External} {t : Trap}
    (h : (kind <$> (match xs[n]? with | some a => .ok a | none => .error t) : Except Trap External) =
      .ok e) : (xs[n]?).map kind = some e := by
  cases hx : xs[n]? with
  | none => rw [hx] at h; cases h
  | some a => rw [hx] at h; cases h; rfl

/-- What is found in an index space has an index. -/
theorem mem_map_of_lookup {xs : Array Nat} {n : Nat} {kind : Nat → External}
    (h : (xs[n]?).map kind = some e) : e ∈ xs.toList.map kind := by
  obtain ⟨a, ha, rfl⟩ := Option.map_eq_some_iff.mp h
  exact List.mem_map_of_mem (Array.mem_toList_iff.mpr (Array.mem_of_getElem? ha))

/-- An export is something that has an index. -/
theorem mem_addresses_of_resolve {d : ExportDesc} (h : i.resolve d = .ok e) : e ∈ i.addresses := by
  unfold addresses
  simp only [List.mem_append]
  cases d with
  | func f => exact .inl (.inl (.inl (mem_map_of_lookup (map_of_lookup h))))
  | table t => exact .inl (.inl (.inr (mem_map_of_lookup (map_of_lookup h))))
  | memory m => exact .inl (.inr (mem_map_of_lookup (map_of_lookup h)))
  | global g => exact .inr (mem_map_of_lookup (map_of_lookup h))

theorem mem_addresses_of_resolveExports {es : List Export} {exports : List (String × External)}
    (h : i.resolveExports es = .ok exports) {p : String × External} (hp : p ∈ exports) :
    p.2 ∈ i.addresses := by
  obtain ⟨n, hn⟩ := List.mem_iff_getElem?.mp hp
  obtain ⟨x, -, hx⟩ := getElem?_of_forall₂ (forall₂_of_mapM_eq_ok h) hn
  obtain ⟨e, he, hpair⟩ := bind_eq_ok_iff.mp hx
  cases hpair
  exact mem_addresses_of_resolve he

/-- What holds of every address of an index space holds of the one that is referred to. -/
theorem exists_of_mem_map {xs : Array Nat} {τ : Type} {ts : List τ} {R : Nat → τ → Prop}
    {P : Nat → Prop} {kind : Nat → External} (hR : List.Forall₂ R xs.toList ts)
    (hP : ∀ {a t}, R a t → P a) (hmem : e ∈ xs.toList.map kind) : ∃ a, kind a = e ∧ P a := by
  obtain ⟨a, ha, rfl⟩ := List.mem_map.mp hmem
  obtain ⟨n, hn⟩ := List.mem_iff_getElem?.mp ha
  obtain ⟨t, -, ht⟩ := getElem?_of_forall₂ hR.flip hn
  exact ⟨a, rfl, hP ht⟩

/-- An instance that provides what a context declares refers only to what is in the store. -/
theorem Implements.in_of_mem (h : i.Implements s c) (he : e ∈ i.addresses) : e.In s := by
  unfold addresses at he
  simp only [List.mem_append] at he
  rcases he with ((he | he) | he) | he
  · have hlt : ∀ {a : FuncAddr} {t : TypeIdx}, (∃ type, c.types[t.toNat]? = some type ∧
        s.funcType? a = some type) → a < s.funcs.size := by
      rintro a t ⟨type, -, ha⟩
      obtain ⟨f, hf, -⟩ := Option.map_eq_some_iff.mp ha
      exact (Array.getElem?_eq_some_iff.mp hf).1
    obtain ⟨a, rfl, ha⟩ := exists_of_mem_map h.funcs hlt he
    exact ha
  · obtain ⟨a, rfl, ha⟩ := exists_of_mem_map h.tables id he
    exact ha
  · obtain ⟨a, rfl, ha⟩ := exists_of_mem_map h.memories id he
    exact ha
  · have hlt : ∀ {a : GlobalAddr} {type : GlobalType},
        (s.globals[a]?).map GlobalInst.type = some type → a < s.globals.size := by
      intro a type ha
      obtain ⟨g, hg, -⟩ := Option.map_eq_some_iff.mp ha
      exact (Array.getElem?_eq_some_iff.mp hg).1
    obtain ⟨a, rfl, ha⟩ := exists_of_mem_map h.globals hlt he
    exact ha

end ModuleInst

namespace Store

variable {s s' : Store} {origins : List (Option Module)} {m : Module} {given : List External}

/-- The address that an allocation gives. -/
def allocated (kind : Nat → External) : Except LinkError (Nat × Store) → List External
  | .ok (a, _) => [kind a]
  | .error _ => []

/-- What a new instance gives an index or exports. -/
def instantiated : Outcome LinkError ModuleInst → List External
  | .done inst => inst.addresses ++ inst.exports.map (·.2)
  | _ => []

/-- **What an operation hands out**: the address of what it allocates, and everything that a new instance
    gives an index or exports. -/
def handedOut (s : Store) : Operation → List External
  | .allocHost type run => [.func (s.allocHost type run).1]
  | .allocTable t => allocated .table (s.allocTable t)
  | .allocMemory t => allocated .memory (s.allocMemory t)
  | .allocGlobal type value => allocated .global (s.allocGlobal type value)
  | .instantiate turns m given => instantiated (s.instantiate turns m given).1
  | .invoke .. => []
  | .writeMemory .. => []

theorem in_of_allocated {kind : Nat → External} {r : Except LinkError (Nat × Store)}
    (h : ∀ a s', r = .ok (a, s') → (kind a).In s') :
    ∀ e ∈ allocated kind r, e.In (s.afterAlloc r) := by
  intro e he
  cases r with
  | error _ => cases he
  | ok p =>
    obtain rfl := List.mem_singleton.mp he
    exact h p.1 p.2 rfl

/-- An instance is handed out only after its module was linked and its start function has run. -/
theorem instantiate_done {turns : Nat} {inst : ModuleInst}
    (h : (s.instantiate turns m given).1 = .done inst) :
    ∃ segments s₁, s.acceptsModule m given = .ok () ∧
      Linking.allocModule m given s = .ok (inst, segments) s₁ ∧
      (s.instantiate turns m given).2 =
        ((s₁.writeSegments segments).2.runStart turns inst m.start).2 := by
  rcases link_cases s m given with ⟨e, hlink⟩ | ⟨inst', segments, s₁, haccepts, halloc, hlink⟩
  · rw [instantiate_of_error turns hlink] at h
    cases h
  · obtain ⟨hstore, -, hdone⟩ := instantiate_of_ok turns hlink
    obtain rfl := hdone inst h
    exact ⟨segments, s₁, haccepts, halloc, hstore⟩

/-- What a new instance hands out is in the store. -/
theorem WellFormed.in_of_instantiate (hs : s.WellFormed origins) {turns : Nat} {inst : ModuleInst}
    (h : (s.instantiate turns m given).1 = .done inst) :
    ∀ e ∈ inst.addresses ++ inst.exports.map (·.2), e.In (s.instantiate turns m given).2 := by
  obtain ⟨segments, s₁, haccepts, halloc, hstore⟩ := instantiate_done h
  obtain ⟨-, hwf, hinst, hrefers⟩ := allocModule_spec hs haccepts halloc
  obtain ⟨hp, hwritten⟩ := hwf.writeSegments hrefers
  have himplements := hinst.mono (hp.trans (hwritten.runStart turns inst m.start).1)
  obtain ⟨_, _, _, _, _, hsteps, -⟩ := allocModule_eq_ok halloc
  intro e he
  rw [hstore]
  refine himplements.in_of_mem ?_
  rcases List.mem_append.mp he with he | he
  · exact he
  · obtain ⟨p, hp, rfl⟩ := List.mem_map.mp he
    exact ModuleInst.mem_addresses_of_resolveExports hsteps.exports hp

/-- **What an operation hands out is in the store that it leaves.** -/
theorem WellFormed.in_of_handedOut (hs : s.WellFormed origins) (op : Operation) :
    ∀ e ∈ s.handedOut op, e.In (s.perform op) := by
  cases op with
  | allocHost type run =>
    intro e he
    obtain rfl := List.mem_singleton.mp he
    show s.funcs.size < (s.funcs.push _).size
    rw [Array.size_push]
    exact Nat.lt_succ_self _
  | allocTable t => exact in_of_allocated fun _ _ h => (allocTable_spec hs h).2
  | allocMemory t => exact in_of_allocated fun _ _ h => (allocMemory_spec hs h).2
  | allocGlobal type value =>
    refine in_of_allocated fun _ _ h => ?_
    obtain ⟨g, hg, -⟩ := Option.map_eq_some_iff.mp (allocGlobal_spec hs h).2
    exact (Array.getElem?_eq_some_iff.mp hg).1
  | instantiate turns m given =>
    intro e he
    replace he : e ∈ instantiated (s.instantiate turns m given).1 := he
    cases h : (s.instantiate turns m given).1 with
    | done inst => rw [h] at he; exact hs.in_of_instantiate h e he
    | failed e' => rw [h] at he; cases he
    | unfinished => rw [h] at he; cases he
  | invoke turns a args => intro e he; cases he
  | writeMemory a start bytes => intro e he; cases he

/-- **The store only ever extends.** Take any store that can be reached, and whatever is done to it
    after that, be it successful, failing or trapping. Functions stay where they are; tables keep their
    size and maximum, memories their maximum and at least their pages, globals their type and, if they
    are constant, their value; the configuration stays. Hence everything that is in the store keeps its
    type, and so does everything that any operation on it hands out. -/
theorem Reachable.performAll_extends (hs : s.Reachable) (ops : List Operation) :
    s.Extends (s.performAll ops) ∧
    (∀ e : External, e.In s → e.KeepsType s (s.performAll ops)) ∧
    (∀ op, ∀ e ∈ s.handedOut op, e.KeepsType (s.perform op) ((s.perform op).performAll ops)) := by
  obtain ⟨origins, hwf⟩ := hs.wellFormed
  have hextends := hwf.extends_performAll ops
  refine ⟨hextends, fun e he => he.keepsType hextends, fun op e he => ?_⟩
  exact (hwf.in_of_handedOut op e he).keepsType ((hwf.perform op).extends_performAll ops)

/-- The function that counts down stays in its store, whether a call of it runs out of turns, and however
    many modules are instantiated after that. -/
theorem counting_extends :
    let ops := [.invoke 5 0 [.i32 3], .instantiate 0 countdown [], .allocMemory ⟨0, none⟩]
    counting.Extends (counting.performAll ops) ∧
    (External.func 0).KeepsType counting (counting.performAll ops) := by
  intro ops
  have hin : (External.func 0).In counting := by
    show 0 < counting.funcs.size
    decide +kernel
  obtain ⟨hextends, hkeeps, -⟩ := reachable_counting.performAll_extends ops
  exact ⟨hextends, hkeeps _ hin⟩

end Store

end WasmCore
