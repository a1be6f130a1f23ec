import Mathlib.Data.List.Nodup
import WasmCore.Proofs.Link.Permanence
import WasmCore.Proofs.Link.Refusal
import WasmCore.Proofs.Typing.Validity

/-!
# `Link.IndexSpaces` — imports first, then what the module defines

A module speaks of functions, tables, memories and globals by index, and its instance turns indices into
addresses. Each of the four index spaces counts the imports of its kind first, in import order, and what
the module defines after them. What is defined gets the addresses that come next in the store, and that
of a function is settled before there is any function at it.

* `Module.importedAddresses`, `ModuleInst.ImportsFirst`: **the index spaces of an instance**;
* `ModuleInst.external?`, `ModuleInst.ExportsOf`: the exports, and how they are looked up;
* `Store.Adds`, `adds_of_allocModule`: what allocation adds to a store;
* `Store.Defines`, `Store.Initialised`: what a module defines, and the globals that it initialises;
* `Reachable.instantiate_indexSpaces`: **a new instance**, from its indices to its exports.
-/

namespace WasmCore

/-! ## Index spaces -/

/-- The addresses that are given for the imports of one kind, in import order. -/
def Module.importedAddresses (m : Module) (kind : ExternKind) (given : List External) : List Nat :=
  ((m.imports.zip given).filter fun p => p.1.desc.kind = kind).map fun p => p.2.address

/-- **The index spaces of an instance**: the imports of each kind, and then as many new addresses as the
    module has definitions of that kind. -/
structure ModuleInst.ImportsFirst (i : ModuleInst) (s : Store) (m : Module) (given : List External) :
    Prop where
  types : i.types.toList = m.types
  funcs : i.funcs.toList =
    m.importedAddresses .func given ++ List.range' s.funcs.size m.funcs.length
  tables : i.tables.toList =
    m.importedAddresses .table given ++ List.range' s.tables.size m.tables.length
  memories : i.memories.toList =
    m.importedAddresses .memory given ++ List.range' s.memories.size m.memories.length
  globals : i.globals.toList =
    m.importedAddresses .global given ++ List.range' s.globals.size m.globals.length

/-- What is provided for an import is of its kind. -/
theorem Store.Provides.kind {s : Store} {types : Array FuncType} {e : External} {desc : ImportDesc}
    (h : s.Provides types e desc) : desc.kind = e.kind := by
  cases desc <;> cases e <;> first | rfl | exact h.elim

/-- What was matched with the imports of a module is of the kinds that they ask for. -/
theorem kinds_of_matchImports {s : Store} {m : Module} {given : List External}
    (h : s.matchImports m given = .ok ()) :
    List.Forall₂ (fun e (i : Import) => i.desc.kind = e.kind) given m.imports :=
  (Store.forall₂_of_matchImports h).imp fun _ _ hei => hei.kind

/-- **The addresses of one kind** can be told from what is given alone, if all of it is of the kind that
    is asked for. -/
theorem filterMap_ofKind {m : Module} {given : List External} {kind : ExternKind}
    (ofKind? : External → Option Nat)
    (hkind : ∀ e, ofKind? e = if e.kind = kind then some e.address else none)
    (h : List.Forall₂ (fun e (i : Import) => i.desc.kind = e.kind) given m.imports) :
    given.filterMap ofKind? = m.importedAddresses kind given := by
  unfold Module.importedAddresses
  generalize m.imports = is at h
  induction h with
  | nil => rfl
  | @cons e i given is hi _ ih =>
    rw [List.zip_cons_cons, List.filterMap_cons, List.filter_cons, hkind e, hi]
    by_cases he : e.kind = kind
    · simp [he, ih]
    · simp [he, ih]

/-! ## Exports -/

namespace ModuleInst

variable {i : ModuleInst} {m : Module}

/-- What an export refers to, found in the index space of its kind. -/
def external? (i : ModuleInst) : ExportDesc → Option External
  | .func f => (i.funcs[f.toNat]?).map .func
  | .table t => (i.tables[t.toNat]?).map .table
  | .memory m => (i.memories[m.toNat]?).map .memory
  | .global g => (i.globals[g.toNat]?).map .global

/-- **The exports of an instance** are those of its module, in order, each looked up in the index spaces;
    and a name stands for the one export that has it. -/
structure ExportsOf (i : ModuleInst) (m : Module) : Prop where
  all : i.exports.map (fun p => (p.1, some p.2)) = m.exports.map fun e => (e.name, i.external? e.desc)
  found : ∀ e ∈ m.exports, (∀ e' ∈ m.exports, e'.name = e.name → e' = e) ∧
    ∃ x, i.external? e.desc = some x ∧ i.export? e.name = some x
  absent : ∀ name ∉ m.exports.map Export.name, i.export? name = none

theorem external?_of_resolve {d : ExportDesc} {e : External} (h : i.resolve d = .ok e) :
    i.external? d = some e := by
  cases d with
  | func f => exact map_of_lookup h
  | table t => exact map_of_lookup h
  | memory m => exact map_of_lookup h
  | global g => exact map_of_lookup h

/-- Exports that were resolved have the names of the module, and what is under them was looked up. -/
theorem forall₂_of_resolveExports {es : List Export} {exports : List (String × External)}
    (h : i.resolveExports es = .ok exports) :
    List.Forall₂ (fun (e : Export) p => p.1 = e.name ∧ i.external? e.desc = some p.2) es exports := by
  refine (forall₂_of_mapM_eq_ok h).imp fun e p hp => ?_
  obtain ⟨x, hx, hpair⟩ := bind_eq_ok_iff.mp hp
  cases hpair
  exact ⟨rfl, external?_of_resolve hx⟩

/-- A name that only one export has stands for that export. -/
theorem lookup_of_mem {exports : List (String × External)} (hnames : (exports.map Prod.fst).Nodup)
    {name : String} {x : External} (hmem : (name, x) ∈ exports) : exports.lookup name = some x := by
  obtain ⟨before, after, rfl⟩ := List.append_of_mem hmem
  refine List.lookup_eq_some_iff.mpr ⟨before, after, rfl, fun p hp => ?_⟩
  rw [bne_iff_ne]
  intro hsame
  rw [List.map_append, List.map_cons, List.nodup_append] at hnames
  exact hnames.2.2 p.1 (List.mem_map_of_mem hp) name List.mem_cons_self hsame.symm

/-- **The exports of a module whose names are all different.** -/
theorem exportsOf_of_resolveExports (hnames : (m.exports.map Export.name).Nodup)
    (h : i.resolveExports m.exports = .ok i.exports) : i.ExportsOf m := by
  have hall := forall₂_of_resolveExports h
  have hkeys : i.exports.map Prod.fst = m.exports.map Export.name := by
    rw [← List.forall₂_eq_eq_eq, List.forall₂_map_left_iff, List.forall₂_map_right_iff]
    exact hall.flip.imp fun p e hp => hp.1
  refine { all := ?_, found := fun e he => ⟨fun e' he' hname => ?_, ?_⟩, absent := ?_ }
  · rw [← List.forall₂_eq_eq_eq, List.forall₂_map_left_iff, List.forall₂_map_right_iff]
    exact hall.flip.imp fun p e hp => by rw [hp.1, hp.2]
  · exact List.inj_on_of_nodup_map hnames he' he hname
  · obtain ⟨n, hn⟩ := List.mem_iff_getElem?.mp he
    obtain ⟨⟨name, x⟩, hx, hname, hfound⟩ := getElem?_of_forall₂ hall.flip hn
    obtain rfl : name = e.name := hname
    exact ⟨x, hfound, lookup_of_mem (hkeys ▸ hnames) (List.mem_of_getElem? hx)⟩
  · intro name hname
    refine List.lookup_eq_none_iff.mpr fun p hp => ?_
    rw [bne_iff_ne]
    intro hsame
    rw [← hkeys, hsame] at hname
    exact hname (List.mem_map_of_mem hp)

end ModuleInst

/-! ## Definitions -/

/-- A constant expression does not depend on globals that it may not read. -/
theorem constantValue?_take {c : Context} {visible : Nat} {type : ValType} {e : Expr}
    (he : e.IsConstant c visible type) (values : List (Option Value)) :
    constantValue? (values.take visible) e = constantValue? values e := by
  obtain ⟨i, rfl, hi⟩ := he
  cases hi with
  | const v => rfl
  | globalGet hg _ _ => rw [constantValue?, constantValue?, List.getElem?_take_of_lt hg]

namespace Store

variable {s s' s₁ s₂ : Store} {origins : List (Option Module)} {m : Module} {given : List External}
  {inst : ModuleInst}

/-- **What the allocation of a module adds** to a store: its definitions, after everything that was there
    before, and an instance that numbers them. -/
structure Adds (s : Store) (m : Module) (given : List External) (inst : ModuleInst) (s' : Store) :
    Prop where
  indexSpaces : inst.ImportsFirst s m given
  exports : inst.resolveExports m.exports = .ok inst.exports
  funcs : ∃ new : List FuncInst, s'.funcs = s.funcs ++ new.toArray ∧
    List.Forall₂ (fun f g => ∃ type, m.types[f.typeIdx.toNat]? = some type ∧
      g = .defined type inst f) m.funcs new
  tables : s'.tables = s.tables ++ (m.tables.map Table.create).toArray
  memories : s'.memories = s.memories ++ (m.memories.map Memory.create).toArray
  globals : ∃ new : List GlobalInst, s'.globals = s.globals ++ new.toArray ∧
    new.map GlobalInst.type = m.globals.map Global.type
  values : s'.valuesAt inst.globals = s.initialValues m given

/-- **Allocation adds what the module defines**, and nothing else. -/
theorem adds_of_allocModule (hs : s.WellFormed origins) (haccepts : s.acceptsModule m given = .ok ())
    {segments : List Segment} (h : Linking.allocModule m given s = .ok (inst, segments) s') :
    s.Adds m given inst s' := by
  obtain ⟨hvalid, himports⟩ := acceptsModule_eq_ok haccepts
  have hgiven := forall₂_of_matchImports himports
  have hkinds := kinds_of_matchImports himports
  obtain ⟨elems, datas, s₁, s₂, s₃, halloc, -⟩ := allocModule_eq_ok h
  have hvalues : s₁.valuesAt inst.globals = s.initialValues m given := by
    obtain ⟨globals, new, hglobals, hvalues⟩ := allocGlobals_of_checked (c := .ofModule m) m.globals hs
      (forall₂_importedGlobals hgiven) List.prefix_rfl (checked_of_validate hvalid).globals
    rw [halloc.globals] at hglobals
    cases hglobals
    exact hvalues
  obtain ⟨globals, rfl, hglobals, htypes⟩ := allocGlobals_eq_ok halloc.globals
  obtain ⟨htables, rfl⟩ := Linking.allocTables_eq_ok halloc.tables
  obtain ⟨hmemories, rfl⟩ := Linking.allocMemories_eq_ok halloc.memories
  obtain ⟨funcs, rfl, hfuncs⟩ := allocFuncs_spec halloc.funcs
  have hfresh : (List.range m.funcs.length).map (s.funcs.size + ·) =
      List.range' s.funcs.size m.funcs.length := List.range'_eq_map_range.symm
  refine
    { indexSpaces :=
        { types := by rw [halloc.types]
          funcs := ?_
          tables := ?_
          memories := ?_
          globals := ?_ }
      exports := halloc.exports
      funcs := ⟨funcs, rfl, ?_⟩
      tables := rfl
      memories := rfl
      globals := ⟨globals, rfl, htypes⟩
      values := hvalues }
  · rw [halloc.addresses, ← filterMap_ofKind External.func? (by rintro ⟨⟩ <;> rfl) hkinds,
      ← hfresh]
    rfl
  · rw [htables, ← filterMap_ofKind External.table? (by rintro ⟨⟩ <;> rfl) hkinds]
    simp
  · rw [hmemories, ← filterMap_ofKind External.memory? (by rintro ⟨⟩ <;> rfl) hkinds]
    simp [withTables]
  · rw [hglobals, ← filterMap_ofKind External.global? (by rintro ⟨⟩ <;> rfl) hkinds]
    simp
  · rw [halloc.types] at hfuncs
    simpa using hfuncs

/-- **What a module defines is in a store**, at the addresses that come after those of an earlier one.
    A function has the type that its index names, its own code, and the instance it was defined with. -/
structure Defines (s s' : Store) (m : Module) (inst : ModuleInst) : Prop where
  funcs : ∀ (n : Nat) f, m.funcs[n]? = some f → ∃ type, m.types[f.typeIdx.toNat]? = some type ∧
    s'.funcs[s.funcs.size + n]? = some (.defined type inst f)
  tables : ∀ (n : Nat) t, m.tables[n]? = some t →
    ∃ table, s'.tables[s.tables.size + n]? = some table ∧ table.type = t
  memories : ∀ (n : Nat) t, m.memories[n]? = some t →
    ∃ memory, s'.memories[s.memories.size + n]? = some memory ∧ (Memory.create t).GrownTo memory
  globals : ∀ (n : Nat) g, m.globals[n]? = some g →
    ∃ global, s'.globals[s.globals.size + n]? = some global ∧ global.type = g.type

theorem Adds.defines (h : s.Adds m given inst s') : s.Defines s' m inst where
  funcs := by
    intro n f hf
    obtain ⟨new, hfuncs, hnew⟩ := h.funcs
    obtain ⟨g, hg, type, htype, rfl⟩ := getElem?_of_forall₂ hnew.flip hf
    refine ⟨type, htype, ?_⟩
    rw [hfuncs, Array.getElem?_append_right (Nat.le_add_right _ _), Nat.add_sub_cancel_left]
    simpa using hg
  tables := by
    intro n t ht
    refine ⟨Table.create t, ?_, by simp [Table.create, Table.type]⟩
    rw [h.tables, Array.getElem?_append_right (Nat.le_add_right _ _), Nat.add_sub_cancel_left]
    simp [ht]
  memories := by
    intro n t ht
    refine ⟨Memory.create t, ?_, refl_of Memory.GrownTo _⟩
    rw [h.memories, Array.getElem?_append_right (Nat.le_add_right _ _), Nat.add_sub_cancel_left]
    simp [ht]
  globals := by
    intro n g hg
    obtain ⟨new, hglobals, htypes⟩ := h.globals
    have htype : (new.map GlobalInst.type)[n]? = some g.type := by
      rw [htypes, List.getElem?_map, hg, Option.map_some]
    rw [List.getElem?_map] at htype
    obtain ⟨global, hglobal, hsame⟩ := Option.map_eq_some_iff.mp htype
    refine ⟨global, ?_, hsame⟩
    rw [hglobals, Array.getElem?_append_right (Nat.le_add_right _ _), Nat.add_sub_cancel_left]
    simpa using hglobal

/-- What is defined stays so. -/
theorem Defines.mono (h : s.Defines s₁ m inst) (hextends : s₁.Extends s₂) : s.Defines s₂ m inst where
  funcs := by
    intro n f hf
    obtain ⟨type, htype, hfunc⟩ := h.funcs n f hf
    obtain ⟨new, hnew⟩ := hextends.funcs
    refine ⟨type, htype, ?_⟩
    rw [← Array.getElem?_toList] at hfunc ⊢
    rw [← hnew, List.getElem?_append_left (List.getElem?_eq_some_iff.mp hfunc).1]
    exact hfunc
  tables := by
    intro n t ht
    obtain ⟨table, htable, rfl⟩ := h.tables n t ht
    obtain ⟨table', htable', hshape⟩ := hextends.tables _ table htable
    exact ⟨table', htable', by rw [Table.type, Table.type, hshape.size, hshape.max]⟩
  memories := by
    intro n t ht
    obtain ⟨memory, hmemory, hgrown⟩ := h.memories n t ht
    obtain ⟨memory', hmemory', hgrown'⟩ := hextends.memories _ memory hmemory
    exact ⟨memory', hmemory', trans_of Memory.GrownTo hgrown hgrown'⟩
  globals := by
    intro n g hg
    obtain ⟨global, hglobal, htype⟩ := h.globals n g hg
    obtain ⟨global', hglobal', hset⟩ := hextends.globals _ global hglobal
    exact ⟨global', hglobal', hset.type.trans htype⟩

/-! ## Globals -/

/-- **A global holds the value of its initialiser**, as the globals of its instance give it. -/
def Initialised (s : Store) (inst : ModuleInst) (a : GlobalAddr) (g : Global) : Prop :=
  ∃ v, s.globals[a]? = some { type := g.type, value := v } ∧
    constantValue? (s.valuesAt inst.globals) g.initial = some v

/-- Allocation initialises the globals of a module. -/
theorem Adds.initialised (h : s.Adds m given inst s') (hvalid : m.Valid)
    (himports : s.matchImports m given = .ok ()) {n : Nat} {g : Global} (hg : m.globals[n]? = some g) :
    s'.Initialised inst (s.globals.size + n) g := by
  obtain ⟨global, hglobal, htype⟩ := h.defines.globals n g hg
  have hgiven := forall₂_of_matchImports himports
  have hlength := (forall₂_importedGlobals hgiven).length_eq
  have hkinds := kinds_of_matchImports himports
  -- Its value is found in the list of all values in two ways: at its address, and by its initialiser.
  have hindex : inst.globals.toList[m.importedGlobals.length + n]? = some (s.globals.size + n) := by
    have hn : n < m.globals.length := (List.getElem?_eq_some_iff.mp hg).1
    rw [h.indexSpaces.globals, ← filterMap_ofKind External.global?
      (by rintro ⟨⟩ <;> rfl) hkinds, ← hlength, List.getElem?_append_right (Nat.le_add_right _ _)]
    simp [hn]
  have hheld : (s'.valuesAt inst.globals)[m.importedGlobals.length + n]? = some (some global.value) := by
    rw [List.getElem?_map, hindex, Option.map_some, globalValue?, hglobal, Option.map_some]
  have hinitial : (s'.valuesAt inst.globals)[m.importedGlobals.length + n]? =
      some (constantValue? (s'.valuesAt inst.globals) g.initial) := by
    have hgive : ((given.filterMap External.global?).map s.globalValue?).length =
        m.importedGlobals.length := by rw [List.length_map, hlength]
    rw [← constantValue?_take (hvalid.globals n g hg), h.values, initialValues, ← hgive]
    exact getElem?_globalValues hg
  refine ⟨global.value, ?_, ?_⟩
  · rw [hglobal, ← htype]
  · rw [hheld] at hinitial
    exact (Option.some.inj hinitial).symm

/-- The value of a checked constant expression does not change when a store extends. -/
theorem constantValue?_mono {visible : Nat} {type : ValType} {e : Expr} {v : Value}
    (hinst : inst.Implements s₁ (.ofModule m)) (hextends : s₁.Extends s₂)
    (he : e.IsConstant (.ofModule m) visible type)
    (h : constantValue? (s₁.valuesAt inst.globals) e = some v) :
    constantValue? (s₂.valuesAt inst.globals) e = some v := by
  obtain ⟨i, rfl, hi⟩ := he
  cases hi with
  | const w => exact h
  | @globalGet g type _ htype hconst =>
    rw [← Array.getElem?_toList] at htype
    obtain ⟨a, ha, hahas⟩ := getElem?_of_forall₂ hinst.globals htype
    obtain ⟨global, hglobal, rfl⟩ := Option.map_eq_some_iff.mp hahas
    obtain ⟨global', hglobal', hset⟩ := hextends.globals a global hglobal
    have hvalue : global'.value = global.value := by
      refine hset.value ?_
      cases hmut : global.type.mutability with
      | const => rfl
      | var => simp [GlobalType.isMutable, hmut] at hconst
    simp only [constantValue?, List.getElem?_map, ha, Option.map_some, Option.join_some, globalValue?,
      hglobal, hglobal'] at h ⊢
    rw [hvalue]
    exact h

/-- A constant global goes on to hold the value of its initialiser. -/
theorem Initialised.mono {a : GlobalAddr} {g : Global} (h : s₁.Initialised inst a g)
    (hinst : inst.Implements s₁ (.ofModule m)) (hextends : s₁.Extends s₂) {visible : Nat}
    {type : ValType} (hinitial : g.initial.IsConstant (.ofModule m) visible type)
    (hconst : g.type.mutability = .const) : s₂.Initialised inst a g := by
  obtain ⟨v, hglobal, hvalue⟩ := h
  obtain ⟨⟨type', v'⟩, hglobal', htype', hvalue'⟩ := hextends.globals a _ hglobal
  obtain rfl : type' = g.type := htype'
  obtain rfl : v' = v := hvalue' hconst
  exact ⟨v', hglobal', constantValue?_mono hinst hextends hinitial hvalue⟩

/-- Segments change nothing but tables and memories. -/
theorem writeSegments_eq (s : Store) (gs : List Segment) :
    ∃ tables memories, (s.writeSegments gs).2 = { s with tables := tables, memories := memories } := by
  induction gs generalizing s with
  | nil => exact ⟨s.tables, s.memories, rfl⟩
  | cons g gs ih =>
    rcases s.writeSegments_cons_cases g gs with hstore | hstore
    · obtain ⟨tables, memories, hrest⟩ := ih (g.write s)
      rw [hstore, hrest]
      cases g with
      | elem a offset funcs => exact ⟨tables, memories, rfl⟩
      | data a offset bytes => exact ⟨tables, memories, rfl⟩
    · exact ⟨s.tables, s.memories, hstore⟩

theorem valuesAt_writeSegments (s : Store) (gs : List Segment) (globals : Array GlobalAddr) :
    (s.writeSegments gs).2.valuesAt globals = s.valuesAt globals := by
  obtain ⟨tables, memories, hstore⟩ := s.writeSegments_eq gs
  rw [hstore]
  rfl

/-! ## New instances -/

/-- **A new instance.** Take any store that can be reached, and any module that is instantiated there. Each
    index space of the instance is what is given for the imports of its kind, in order, and then the
    addresses that come next in the store. The function at such an address has the type that its index
    names, its own code, and the instance itself; tables, memories and globals are of the types that the
    module declares. Exports are looked up in the index spaces, and a name gives what the one export of
    that name refers to. When the start function begins, every global that the module defines holds the
    value of its initialiser; if there is none, or if the global is constant, it still does at the end. -/
theorem Reachable.instantiate_indexSpaces (hs : s.Reachable) {turns : Nat}
    (h : s.instantiate turns m given = (.done inst, s')) :
    inst.ImportsFirst s m given ∧ s.Defines s' m inst ∧ inst.ExportsOf m ∧
    ∃ s₁, s.link m given = (.ok inst, s₁) ∧ s' = (s₁.runStart turns inst m.start).2 ∧
      ∀ (n : Nat) g, m.globals[n]? = some g → s₁.Initialised inst (s.globals.size + n) g ∧
        (m.start = none ∨ g.type.mutability = .const →
          s'.Initialised inst (s.globals.size + n) g) := by
  obtain ⟨origins, hwf⟩ := hs.wellFormed
  obtain ⟨segments, s₁, haccepts, halloc, hstore⟩ := instantiate_done (congrArg Prod.fst h)
  obtain ⟨hvalidate, himports⟩ := acceptsModule_eq_ok haccepts
  have hvalid := valid_of_validate hvalidate
  have hadds := adds_of_allocModule hwf haccepts halloc
  obtain ⟨-, hwf₁, hinst, hrefers⟩ := allocModule_spec hwf haccepts halloc
  obtain ⟨hp, hwritten⟩ := hwf₁.writeSegments hrefers
  have hsegments := extends_writeSegments s₁ segments
  have hstart := hwritten.extends_runStart turns inst m.start
  rw [h] at hstore
  obtain rfl : s' = ((s₁.writeSegments segments).2.runStart turns inst m.start).2 := hstore
  refine ⟨hadds.indexSpaces, hadds.defines.mono (hsegments.trans hstart),
    ModuleInst.exportsOf_of_resolveExports hvalid.names hadds.exports, _,
    link_of_alloc_ok haccepts halloc, rfl, fun n g hg => ?_⟩
  have hlinked : (s₁.writeSegments segments).2.Initialised inst (s.globals.size + n) g := by
    obtain ⟨v, hglobal, hvalue⟩ := hadds.initialised hvalid himports hg
    refine ⟨v, ?_, ?_⟩
    · obtain ⟨tables, memories, hwrites⟩ := s₁.writeSegments_eq segments
      rw [hwrites]
      exact hglobal
    · rw [valuesAt_writeSegments, hvalue]
  refine ⟨hlinked, ?_⟩
  rintro (hnone | hconst)
  · rw [hnone]
    exact hlinked
  · exact hlinked.mono (hinst.mono hp) hstart (hvalid.globals n g hg) hconst

/-- A module with imports and definitions of two kinds, which exports something of each. -/
def mixed : Module where
  types := [⟨[], []⟩]
  imports := [{ source := "host", name := "base", desc := .global ⟨.i32, .const⟩ },
    { source := "host", name := "run", desc := .func 0 }]
  funcs := [{ typeIdx := 0, locals := [], body := [.call 0] }]
  globals := [{ type := ⟨.i32, .var⟩, initial := [.globalGet 0] }]
  exports := [{ name := "own", desc := .func 1 }, { name := "given", desc := .func 0 },
    { name := "copy", desc := .global 1 }]

/-- The instance of `mixed` in a store with two functions and one global, where it is given the second
    function. -/
def mixedInst : ModuleInst where
  types := #[⟨[], []⟩]
  funcs := #[1, 2]
  tables := #[]
  memories := #[]
  globals := #[0, 1]
  exports := [("own", .func 2), ("given", .func 1), ("copy", .global 1)]

/-- A store with two functions of the host and a global. -/
def hosted : Store :=
  (withConfig {}).performAll [.allocHost ⟨[], []⟩ fun _ _ => .ok [],
    .allocHost ⟨[], []⟩ fun _ _ => .ok [], .allocGlobal ⟨.i32, .const⟩ (.i32 7)]

theorem validate_mixed : validate mixed = .ok () := by
  have hrest : validate mixed = Validate.exports (.ofModule mixed) ∅ mixed.exports := by
    with_unfolding_all rfl
  rw [hrest, exports_eq_ok_iff]
  refine ⟨?_, by decide, fun e _ => Std.HashSet.not_mem_empty⟩
  intro e he
  simp only [mixed, List.mem_cons, List.not_mem_nil, or_false] at he
  rcases he with rfl | rfl | rfl <;> rfl

/-- Both index spaces of `mixed` have the import first, and its global is a copy of the one that it is
    given. -/
theorem mixed_indexSpaces : ∃ s', hosted.instantiate 0 mixed [.global 0, .func 1] = (.done mixedInst, s') ∧
    mixedInst.ImportsFirst hosted mixed [.global 0, .func 1] ∧ hosted.Defines s' mixed mixedInst ∧
    mixedInst.ExportsOf mixed ∧
    s'.Initialised mixedInst 1 { type := ⟨.i32, .var⟩, initial := [.globalGet 0] } := by
  have haccepts : hosted.acceptsModule mixed [.global 0, .func 1] = .ok () := by
    unfold acceptsModule
    rw [validate_mixed]
    with_unfolding_all rfl
  have halloc : ∃ t, Linking.allocModule mixed [.global 0, .func 1] hosted = .ok (mixedInst, []) t :=
    ⟨_, by with_unfolding_all rfl⟩
  obtain ⟨t, halloc⟩ := halloc
  have hdone := instantiate_of_no_start 0 (link_of_alloc_ok haccepts halloc) rfl
  have hreachable : hosted.Reachable := ⟨_, _, rfl⟩
  obtain ⟨hspaces, hdefines, hexports, s₁, -, -, hglobals⟩ := hreachable.instantiate_indexSpaces hdone
  have hsize : hosted.globals.size = 1 := by with_unfolding_all rfl
  refine ⟨_, hdone, hspaces, hdefines, hexports, ?_⟩
  rw [← hsize]
  exact (hglobals 0 _ rfl).2 (.inl rfl)

/-- A module whose start function sets its global. -/
def resetter : Module where
  types := [⟨[], []⟩]
  funcs := [{ typeIdx := 0, locals := [], body := [.const (.i32 1), .globalSet 0] }]
  globals := [{ type := ⟨.i32, .var⟩, initial := [.const (.i32 0)] }]
  start := some 0

/-- A start function may set a global, which then does not hold the value of its initialiser when its
    module is instantiated. -/
theorem resetter_sets : (withConfig {}).Reachable ∧
    ∃ inst s', (withConfig {}).instantiate 9 resetter [] = (.done inst, s') ∧
      ∀ g, resetter.globals[0]? = some g → ¬ s'.Initialised inst 0 g := by
  let done := (withConfig {}).instantiate 9 resetter []
  have hdone : ∃ inst, done.1 = .done inst := ⟨_, by with_unfolding_all rfl⟩
  have hglobal : done.2.globals[0]? = some { type := ⟨.i32, .var⟩, value := .i32 1 } := by
    with_unfolding_all rfl
  obtain ⟨inst, hinst⟩ := hdone
  refine ⟨⟨{}, [], rfl⟩, inst, done.2, Prod.ext hinst rfl, ?_⟩
  rintro g hg ⟨v, hheld, hvalue⟩
  cases hg
  rw [hglobal] at hheld
  cases hheld
  cases hvalue

end Store

end WasmCore
