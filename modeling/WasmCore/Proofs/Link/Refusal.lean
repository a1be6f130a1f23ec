import WasmCore.Proofs.Link.Definitions
import WasmCore.Proofs.Link.Integrity
import WasmCore.Proofs.Link.Matching

/-!
# `Link.Refusal` — when a module is refused, and with what error

Whether a module can be instantiated is decided by the module, by what is given for its imports and by
the store as it is before anything is allocated. The reasons against it can be listed from these alone,
in the order in which instantiation comes to them, and the first that applies is the one reported. No
other look-up on the way can fail, although every one of them is written so that it could.

* `LinkError.internal`: the errors that no checked module can cause;
* `Store.tableSizes`, `Store.memorySizes`, `Store.initialValues`: what the segments of a module will find;
* `Store.reasons`, `Store.refusal?`: **the reasons against a module**, and the first of them;
* `Placed`, `Placed.resolveElem`, `Placed.resolveData`: segments once the definitions are in place;
* `StopsAt`, `stopsAt_prepare`, `stopsAt_allocModule`: allocation stops at the first reason, or not at all;
* `acceptsModule_eq`, `link_stops`: so does linking, and nothing is left behind;
* `Reachable.instantiate_outcome`: **instantiation fails exactly when it should.**
-/

namespace WasmCore

/-- The errors that say that linking itself went wrong: checked modules must not cause them. -/
def LinkError.internal : LinkError → Bool
  | invalid _ | noExport _ | invalidIndex _ _ | globalValue _ _ => true
  | trap t => t.internal
  | importMismatch _ _ _ _ | importCount _ _ | memoryLimit _ _ | tableLimit _ _ => false

/-- Whether a segment of `count` entries fits at its offset, where tables or memories have the given
    sizes and globals the given values. -/
def segmentFits (sizes : List (Option Nat)) (values : List (Option Value)) (index : UInt32)
    (offset : Expr) (count : Nat) : Bool :=
  match sizes[index.toNat]?.join, constantValue? values offset with
  | some size, some (.i32 x) => x.toNat + count ≤ size
  | _, _ => false

namespace Store

/-! ## Reasons -/

section Reasons

variable (s : Store) (m : Module) (given : List External)

/-- The number of slots of the table at an address. -/
def tableSize? (a : TableAddr) : Option Nat := (s.tables[a]?).map fun t => t.slots.size

/-- The number of bytes of the memory at an address. -/
def memorySize? (a : MemAddr) : Option Nat := (s.memories[a]?).map Memory.size

/-- The sizes of the tables of a module: those given for its imports, as they are, and then those that
    it defines. -/
def tableSizes : List (Option Nat) :=
  (given.filterMap External.table?).map s.tableSize? ++ m.tables.map fun t => some t.min.toNat

/-- The sizes of the memories of a module in bytes. -/
def memorySizes : List (Option Nat) :=
  (given.filterMap External.memory?).map s.memorySize? ++
    m.memories.map fun t => some (t.min.toNat * pageSize)

/-- The values of the globals of a module. -/
def initialValues : List (Option Value) :=
  globalValues ((given.filterMap External.global?).map s.globalValue?) m.globals

/-- Whether an element segment of a module fits its table. -/
def elemFits (e : ElemSegment) : Bool :=
  segmentFits (s.tableSizes m given) (s.initialValues m given) e.table e.offset e.funcs.length

/-- Whether a data segment of a module fits its memory. -/
def dataFits (d : DataSegment) : Bool :=
  segmentFits (s.memorySizes m given) (s.initialValues m given) d.memory d.offset d.bytes.length

/-- The reasons against a module and what is given for its imports. -/
def acceptReasons : List (Option LinkError) :=
  [match validate m with
    | .ok () => none
    | .error e => some (.invalid e),
   if m.imports.length ≠ given.length then some (.importCount m.imports.length given.length) else none,
   s.importMismatch? m given]

/-- The reasons against the definitions and the segments of a module. -/
def allocReasons : List (Option LinkError) :=
  [m.tables.findSome? s.tableFault?,
   m.memories.findSome? s.memoryFault?,
   if m.elems.all (s.elemFits m given) then none else some (.trap .elemOutOfBounds),
   if m.datas.all (s.dataFits m given) then none else some (.trap .dataOutOfBounds)]

/-- **The reasons against a module**, in order. -/
def reasons : List (Option LinkError) := s.acceptReasons m given ++ s.allocReasons m given

/-- **The first reason against a module**, if there is any. -/
def refusal? : Option LinkError := (s.reasons m given).findSome? id

end Reasons

variable {s s' : Store} {origins : List (Option Module)} {m : Module} {given : List External}

theorem internal_of_importMismatch? {e : LinkError} (h : s.importMismatch? m given = some e) :
    e.internal = false := by
  obtain ⟨p, -, hp⟩ := List.exists_of_findSome?_eq_some h
  obtain ⟨fault, -, rfl⟩ := Option.map_eq_some_iff.mp hp
  rfl

theorem internal_of_tableFault? {t : TableType} {e : LinkError} (h : s.tableFault? t = some e) :
    e.internal = false := by
  simp only [tableFault?] at h
  split at h
  · cases h; rfl
  · cases h

theorem internal_of_memoryFault? {t : MemType} {e : LinkError} (h : s.memoryFault? t = some e) :
    e.internal = false := by
  simp only [memoryFault?] at h
  split at h
  · cases h; rfl
  · cases h

/-- No reason against a checked module is an internal one. -/
theorem internal_of_refusal? (hvalid : validate m = .ok ()) {e : LinkError}
    (h : s.refusal? m given = some e) : e.internal = false := by
  obtain ⟨r, hr, rfl⟩ := List.exists_of_findSome?_eq_some h
  simp only [reasons, acceptReasons, allocReasons, hvalid, List.cons_append, List.nil_append,
    List.mem_cons, List.not_mem_nil, or_false] at hr
  rcases hr with hr | hr | hr | hr | hr | hr | hr
  · cases hr
  · split at hr
    · cases hr; rfl
    · cases hr
  · exact internal_of_importMismatch? hr.symm
  · obtain ⟨t, -, ht⟩ := List.exists_of_findSome?_eq_some hr.symm
    exact internal_of_tableFault? ht
  · obtain ⟨t, -, ht⟩ := List.exists_of_findSome?_eq_some hr.symm
    exact internal_of_memoryFault? ht
  · split at hr
    · cases hr
    · cases hr; rfl
  · split at hr
    · cases hr
    · cases hr; rfl

/-! ## Segments -/

/-- **The definitions of a module are in place**: its instance has an address for every index, and the
    tables, the memories and the globals at these addresses are as the segments are to find them. -/
structure Placed (s : Store) (inst : ModuleInst) (c : Context) (tables memories : List (Option Nat))
    (values : List (Option Value)) : Prop where
  wellFormed : ∃ origins, s.WellFormed origins
  spans : inst.Spans c
  tables : inst.tables.toList.map s.tableSize? = tables
  memories : inst.memories.toList.map s.memorySize? = memories
  globals : List.Forall₂ s.GlobalHasType inst.globals.toList c.globals.toList
  values : s.valuesAt inst.globals = values

namespace Placed

variable {inst : ModuleInst} {c : Context} {tables memories : List (Option Nat)}
  {values : List (Option Value)}

/-- A checked offset has a value. -/
theorem evalOffset (h : s.Placed inst c tables memories values) {offset : Expr}
    (hoffset : checkConstant c c.globals.size .i32 offset = .ok ()) :
    ∃ x, s.evalOffset inst.globals offset = .ok x.toNat ∧
      constantValue? values offset = some (.i32 x) := by
  obtain ⟨origins, hs⟩ := h.wellFormed
  obtain ⟨i, rfl, hi⟩ := checkConstant_eq_ok hoffset
  obtain ⟨v, heval, hvalue, htype⟩ :=
    evalConstant_of_constant hs h.globals List.prefix_rfl hi
  rw [h.values] at hvalue
  cases v with
  | i32 x => exact ⟨x, by rw [Store.evalOffset, heval]; rfl, hvalue⟩
  | _ => cases htype

/-- **An element segment** is resolved if it fits, and nothing else can be wrong with it. -/
theorem resolveElem (h : s.Placed inst c tables memories values) {e : ElemSegment}
    (he : Validate.elem c e = .ok ()) :
    ∃ g, s.resolveElem inst e =
      if segmentFits tables values e.table e.offset e.funcs.length then .ok g
      else .error (.trap .elemOutOfBounds) := by
  obtain ⟨⟨⟩, htable, he⟩ := bind_eq_ok_iff.mp he
  obtain ⟨⟨⟩, hoffset, hfuncs⟩ := bind_eq_ok_iff.mp he
  obtain ⟨a, ha, htableAddr⟩ := h.spans.tableAddr htable
  obtain ⟨x, heval, hvalue⟩ := h.evalOffset hoffset
  obtain ⟨funcs, hresolved, hlength⟩ : ∃ funcs, e.funcs.mapM inst.funcAddr = .ok funcs ∧
      funcs.length = e.funcs.length := by
    refine mapM_of_ok fun f hf => ?_
    obtain ⟨type, htype, -⟩ := bind_eq_ok_iff.mp (of_forM_eq_ok hfuncs f hf)
    exact h.spans.funcAddr htype
  have hsize : tables[e.table.toNat]? = some (s.tableSize? a) := by
    rw [← h.tables, List.getElem?_map, Array.getElem?_toList, ha]
    rfl
  have hfits : segmentFits tables values e.table e.offset e.funcs.length =
      (Segment.elem a x.toNat funcs).fits s := by
    rw [segmentFits, hsize, hvalue, Segment.fits, tableFits, tableSize?, hlength]
    cases s.tables[a]? <;> rfl
  refine ⟨.elem a x.toNat funcs, ?_⟩
  rw [Store.resolveElem, htableAddr, heval, hresolved, hfits]
  rfl

/-- **A data segment** likewise. -/
theorem resolveData (h : s.Placed inst c tables memories values) {d : DataSegment}
    (hd : Validate.data c d = .ok ()) :
    ∃ g, s.resolveData inst d =
      if segmentFits memories values d.memory d.offset d.bytes.length then .ok g
      else .error (.trap .dataOutOfBounds) := by
  obtain ⟨⟨⟩, hmemory, hoffset⟩ := bind_eq_ok_iff.mp hd
  obtain ⟨a, ha, hmemAddr⟩ := h.spans.memAddr hmemory
  obtain ⟨x, heval, hvalue⟩ := h.evalOffset hoffset
  have hsize : memories[d.memory.toNat]? = some (s.memorySize? a) := by
    rw [← h.memories, List.getElem?_map, Array.getElem?_toList, ha]
    rfl
  have hfits : segmentFits memories values d.memory d.offset d.bytes.length =
      (Segment.data a x.toNat d.bytes).fits s := by
    rw [segmentFits, hsize, hvalue, Segment.fits, memoryFits, memorySize?]
    cases s.memories[a]? <;> rfl
  refine ⟨.data a x.toNat d.bytes, ?_⟩
  rw [Store.resolveData, hmemAddr, heval, hfits]
  rfl

end Placed

/-! ## Allocation -/

/-- **A step of linking stops with the first of the reasons against it**, and goes through if there is
    none. -/
def StopsAt {α : Type} (reasons : List (Option LinkError)) (r : EStateM.Result LinkError Store α) :
    Prop :=
  match reasons.findSome? id, r with
  | some e, .error e' _ => e' = e
  | none, .ok _ _ => True
  | _, _ => False

namespace StopsAt

variable {α β : Type} {reasons : List (Option LinkError)} {x : Linking α} {f : α → Linking β}

/-- The reason against what comes first. -/
theorem bind_of_error {e : LinkError} (h : x s = .error e s') :
    StopsAt (some e :: reasons) ((x >>= f) s) := by
  rw [Move.bind_of_error h]
  exact rfl

/-- Nothing against what comes first. -/
theorem bind_of_ok {a : α} (h : x s = .ok a s') (hf : StopsAt reasons (f a s')) :
    StopsAt (none :: reasons) ((x >>= f) s) := by
  rw [Move.bind_of_ok h]
  exact hf

/-- What comes last does not fail. -/
theorem bind (h : StopsAt reasons (x s)) (hf : ∀ a s₁, x s = .ok a s₁ → ∃ b s₂, f a s₁ = .ok b s₂) :
    StopsAt reasons ((x >>= f) s) := by
  unfold StopsAt at h ⊢
  generalize reasons.findSome? id = reason at h ⊢
  cases hx : x s with
  | error e s₁ =>
    rw [hx] at h
    rw [Move.bind_of_error hx]
    cases reason <;> exact h
  | ok a s₁ =>
    obtain ⟨b, s₂, hb⟩ := hf a s₁ hx
    rw [hx] at h
    rw [Move.bind_of_ok hx, hb]
    cases reason <;> exact h

end StopsAt

/-- The exports of a checked module are all resolved. -/
theorem resolveExports_of_checked {inst : ModuleInst} (hchecked : m.Checked)
    (hinst : inst.Spans (.ofModule m)) : ∃ exports, inst.resolveExports m.exports = .ok exports := by
  obtain ⟨exports, hexports, -⟩ := mapM_of_ok (f := fun e : Export =>
    (return (e.name, ← inst.resolve e.desc) : Except Trap (String × External))) fun e he => by
      obtain ⟨x, hx⟩ := hinst.resolve (hchecked.exports e he)
      exact ⟨(e.name, x), by rw [hx]; rfl⟩
  exact ⟨exports, hexports⟩

/-- The instance of a module whose globals have been allocated and whose other definitions follow what
    is in the store. -/
def instanceWith (s : Store) (m : Module) (given : List External) (globals : Array GlobalAddr)
    (exports : List (String × External)) : ModuleInst where
  types := m.types.toArray
  funcs := (given.filterMap External.func? ++
    (List.range m.funcs.length).map (s.funcs.size + ·)).toArray
  tables := (given.filterMap External.table?).toArray ++
    (List.range' s.tables.size m.tables.length).toArray
  memories := (given.filterMap External.memory?).toArray ++
    (List.range' s.memories.size m.memories.length).toArray
  globals
  exports

theorem WellFormed.withTables (hs : s.WellFormed origins) (ts : List TableType) :
    (s.withTables ts).WellFormed origins := by
  have hsize : s.tables.size ≤ (s.withTables ts).tables.size := by
    rw [Store.withTables, Array.size_append]
    exact Nat.le_add_right _ _
  refine hs.update (.of_eq rfl hsize (Nat.le_refl _) rfl) rfl (fun table ht a ha => ?_) hs.globals
  rcases Array.mem_append.mp ht with ht | ht
  · exact hs.slots table ht a ha
  · -- New tables have no function in them.
    obtain ⟨t, -, rfl⟩ := List.mem_map.mp (List.mem_toArray.mp ht)
    simp [Table.create] at ha

theorem WellFormed.withMemories (hs : s.WellFormed origins) (ts : List MemType) :
    (s.withMemories ts).WellFormed origins := by
  refine (hs.setMemories (s.memories ++ (ts.map Memory.create).toArray) ?_).2
  rw [Array.size_append]
  exact Nat.le_add_right _ _

/-- **Once the globals are allocated, the definitions are as good as in place.** -/
theorem placed_of_globals (himports : s.matchImports m given = .ok ()) {new : Array GlobalInst}
    {globals : Array GlobalAddr} (hs : WellFormed { s with globals := new } origins)
    (hglobals : List.Forall₂ (GlobalHasType { s with globals := new }) globals.toList m.globalTypes)
    (hvalues : valuesAt { s with globals := new } globals = s.initialValues m given)
    (exports : List (String × External)) :
    ((({ s with globals := new } : Store).withTables m.tables).withMemories m.memories).Placed
      (s.instanceWith m given globals exports) (.ofModule m) (s.tableSizes m given)
      (s.memorySizes m given) (s.initialValues m given) := by
  have hgiven := forall₂_of_matchImports himports
  have hfuncs := forall₂_importedFuncs hgiven
  have htables := forall₂_importedTables hgiven
  have hmemories := forall₂_importedMemories hgiven
  refine
    { wellFormed := ⟨origins, (hs.withTables _).withMemories _⟩
      spans :=
        { types := rfl
          funcs := by simp [instanceWith, Context.ofModule, Module.funcTypeIndices, hfuncs.length_eq]
          tables := by simp [instanceWith, Context.ofModule, Module.tableTypes, htables.length_eq]
          memories := by simp [instanceWith, Context.ofModule, Module.memTypes, hmemories.length_eq]
          globals := hglobals.length_eq }
      tables := ?_
      memories := ?_
      globals := hglobals
      values := hvalues }
  · have hsizes := map_appended s.tables Table.create m.tables (fun t => t.slots.size)
      (forall_of_forall₂ htables)
    simp only [Table.create, Array.size_replicate] at hsizes
    rw [instanceWith, Array.toList_append]
    exact hsizes
  · have hsizes := map_appended s.memories Memory.create m.memories Memory.size
      (forall_of_forall₂ hmemories)
    simp only [Memory.size, Memory.pages_create] at hsizes
    rw [instanceWith, Array.toList_append]
    exact hsizes

/-- **The segments** of a module whose definitions are in place. -/
theorem stopsAt_segments {inst : ModuleInst} (hchecked : m.Checked)
    (hplaced : s'.Placed inst (.ofModule m) (s.tableSizes m given) (s.memorySizes m given)
      (s.initialValues m given)) :
    StopsAt
      [if m.elems.all (s.elemFits m given) then none else some (.trap .elemOutOfBounds),
       if m.datas.all (s.dataFits m given) then none else some (.trap .dataOutOfBounds)]
      (Linking.ofExcept (s'.resolveSegments inst m) s') := by
  have helems : ∃ elems, m.elems.mapM (s'.resolveElem inst) =
      if m.elems.all (s.elemFits m given) then .ok elems else .error (.trap .elemOutOfBounds) :=
    mapM_of_test fun e he => hplaced.resolveElem (hchecked.elems e he)
  have hdatas : ∃ datas, m.datas.mapM (s'.resolveData inst) =
      if m.datas.all (s.dataFits m given) then .ok datas else .error (.trap .dataOutOfBounds) :=
    mapM_of_test fun d hd => hplaced.resolveData (hchecked.datas d hd)
  obtain ⟨elems, helems⟩ := helems
  obtain ⟨datas, hdatas⟩ := hdatas
  unfold resolveSegments
  rw [helems, hdatas]
  cases m.elems.all (s.elemFits m given) with
  | false => exact rfl
  | true =>
    cases m.datas.all (s.dataFits m given) with
    | false => exact rfl
    | true => exact trivial

/-- **Allocation stops at the first reason** against the definitions and the segments of a module. -/
theorem stopsAt_prepare (hs : s.WellFormed origins) (hchecked : m.Checked)
    (himports : s.matchImports m given = .ok ()) :
    StopsAt (s.allocReasons m given) (Linking.prepare m given s) := by
  have himported : List.Forall₂ s.GlobalHasType (given.filterMap External.global?).toArray.toList
      m.importedGlobals := forall₂_importedGlobals (forall₂_of_matchImports himports)
  obtain ⟨globals, new, hglobals, hvalues⟩ := allocGlobals_of_checked (c := .ofModule m) m.globals hs
    himported List.prefix_rfl hchecked.globals
  obtain ⟨hgrown, htypes⟩ := allocGlobals_spec hs himported hglobals
  have hplaced := placed_of_globals himports hgrown.wellFormed htypes hvalues
  obtain ⟨exports, hexports⟩ := resolveExports_of_checked hchecked (hplaced []).spans
  unfold allocReasons
  -- one chain of allocations, each of which is followed by all that comes after it
  simp only [Linking.prepare, Linking.allocInst, bind_assoc, pure_bind]
  rw [Move.bind_of_ok hglobals]
  rcases Linking.allocTables_cases (given.filterMap External.table?).toArray m.tables
    { s with globals := new } with ⟨e, s', hfault, htables⟩ | ⟨hfault, htables⟩
  · rw [show m.tables.findSome? s.tableFault? = some e from hfault]
    exact .bind_of_error htables
  rw [show m.tables.findSome? s.tableFault? = none from hfault]
  refine .bind_of_ok htables ?_
  rcases Linking.allocMemories_cases (given.filterMap External.memory?).toArray m.memories
    (({ s with globals := new } : Store).withTables m.tables) with
    ⟨e, s', hfault, hmemories⟩ | ⟨hfault, hmemories⟩
  · rw [show m.memories.findSome? s.memoryFault? = some e from hfault]
    exact .bind_of_error hmemories
  rw [show m.memories.findSome? s.memoryFault? = none from hfault]
  refine .bind_of_ok hmemories ?_
  rw [Move.get_bind, Move.bind_of_ok (a := exports)]
  · exact (stopsAt_segments hchecked (hplaced exports)).bind fun segments s₁ _ => ⟨_, _, rfl⟩
  · show Linking.ofExcept (LinkError.ofTrap
      ((s.instanceWith m given globals []).resolveExports m.exports)) _ = _
    rw [hexports]
    rfl

/-- Functions are added in the end, and there is never a reason against that. -/
theorem stopsAt_allocModule (hs : s.WellFormed origins) (hchecked : m.Checked)
    (himports : s.matchImports m given = .ok ()) :
    StopsAt (s.allocReasons m given) (Linking.allocModule m given s) := by
  refine (stopsAt_prepare hs hchecked himports).bind fun prepared s₁ hprepared => ?_
  obtain ⟨elems, datas, _, _, hprepared, -⟩ := prepare_eq_ok hprepared
  obtain ⟨s₂, hfuncs⟩ := allocFuncs_of_checked (s := s₁) hprepared.types hchecked.funcs
  exact ⟨prepared, s₂, Move.bind_of_ok hfuncs⟩

/-! ## Linking -/

/-- **A module is accepted unless there is a reason** against it or against what is given for its
    imports. -/
theorem acceptsModule_eq (s : Store) (m : Module) (given : List External) :
    s.acceptsModule m given = match (s.acceptReasons m given).findSome? id with
      | some e => .error e
      | none => .ok () := by
  unfold acceptsModule acceptReasons
  cases hvalid : validate m with
  | error e => rfl
  | ok u =>
    show s.matchImports m given = _
    rw [matchImports_eq (checked_of_validate hvalid)]
    by_cases hlength : m.imports.length ≠ given.length
    · rw [if_pos hlength, if_pos hlength]
      rfl
    · rw [if_neg hlength, if_neg hlength]
      cases s.importMismatch? m given <;> rfl

/-- **Linking stops at the first reason** against a module and leaves the store as it was, or there is
    none and the module is linked. -/
theorem link_stops (hs : s.WellFormed origins) (m : Module) (given : List External) :
    (∃ e, s.refusal? m given = some e ∧ s.link m given = (.error e, s)) ∨
    (s.refusal? m given = none ∧ ∃ inst s₁ origins', s.link m given = (.ok inst, s₁) ∧
      validate m = .ok () ∧ s₁.WellFormed origins' ∧ inst.Implements s₁ (.ofModule m)) := by
  have haccepts := s.acceptsModule_eq m given
  rw [refusal?, reasons, List.findSome?_append]
  cases haccept : (s.acceptReasons m given).findSome? id with
  | some e =>
    rw [haccept] at haccepts
    exact .inl ⟨e, rfl, by rw [link, haccepts]⟩
  | none =>
    rw [haccept] at haccepts
    obtain ⟨hvalid, himports⟩ := acceptsModule_eq_ok haccepts
    have hstops := stopsAt_allocModule hs (checked_of_validate hvalid) himports
    rw [Option.none_or]
    unfold StopsAt at hstops
    cases hreason : (s.allocReasons m given).findSome? id with
    | some e =>
      rw [hreason] at hstops
      cases halloc : Linking.allocModule m given s with
      | ok p s₁ => rw [halloc] at hstops; exact hstops.elim
      | error e' s₁ =>
        rw [halloc] at hstops
        obtain rfl : e' = e := hstops
        exact .inl ⟨e', rfl, link_of_alloc_error haccepts halloc⟩
    | none =>
      rw [hreason] at hstops
      cases halloc : Linking.allocModule m given s with
      | error e s₁ => rw [halloc] at hstops; exact hstops.elim
      | ok p s₁ =>
        obtain ⟨inst, segments⟩ := p
        obtain ⟨-, hwf, hinst, hrefers⟩ := allocModule_spec hs haccepts halloc
        obtain ⟨hp, hwritten⟩ := hwf.writeSegments hrefers
        exact .inr ⟨rfl, inst, _, _, link_of_alloc_ok haccepts halloc, hvalid, hwritten,
          hinst.mono hp⟩

/-! ## Instantiation -/

/-- What becomes of an instantiation that is left to its start function. -/
def afterStart (inst : ModuleInst) :
    Outcome Trap (List Value) × Store → Outcome LinkError ModuleInst × Store
  | (.done _, s) => (.done inst, s)
  | (.failed t, s) => (.failed (.trap t), s)
  | (.unfinished, s) => (.unfinished, s)

theorem instantiate_of_no_start {inst : ModuleInst} (turns : Nat)
    (hlink : s.link m given = (.ok inst, s')) (hstart : m.start = none) :
    s.instantiate turns m given = (.done inst, s') := by
  rw [instantiate, hlink, hstart]
  rfl

theorem instantiate_of_start {inst : ModuleInst} (turns : Nat)
    (hlink : s.link m given = (.ok inst, s')) {f : FuncIdx} (hstart : m.start = some f)
    {a : FuncAddr} (ha : inst.funcAddr f = .ok a) :
    s.instantiate turns m given = afterStart inst (s'.invoke turns a []) := by
  rw [instantiate, hlink, hstart]
  dsimp only
  rw [runStart, ha]
  dsimp only
  generalize s'.invoke turns a [] = called
  obtain ⟨outcome, s₂⟩ := called
  cases outcome <;> rfl

/-- **Instantiation fails exactly when it should, with the first reason in order.** Take any store that
    can be reached, any module and anything given for its imports. If there is a reason against the
    module, instantiation fails with the first one, and the store is what it was. If there is none, the
    module is linked, its instance provides what it declares, and all that can still fail is its start
    function: the outcome is that of the call of it, and success if there is none. An error of a checked
    module is never an internal one. -/
theorem Reachable.instantiate_outcome (hs : s.Reachable) (turns : Nat) (m : Module)
    (given : List External) :
    (∀ e, s.refusal? m given = some e → s.instantiate turns m given = (.failed e, s)) ∧
    (s.refusal? m given = none → ∃ inst s₁, s.link m given = (.ok inst, s₁) ∧
      inst.Implements s₁ (.ofModule m) ∧
      (m.start = none → s.instantiate turns m given = (.done inst, s₁)) ∧
      ∀ f, m.start = some f → ∃ a, inst.funcAddr f = .ok a ∧
        s.instantiate turns m given = afterStart inst (s₁.invoke turns a [])) ∧
    (validate m = .ok () → ∀ e, (s.instantiate turns m given).1 = .failed e → e.internal = false) := by
  obtain ⟨origins, hwf⟩ := hs.wellFormed
  rcases link_stops hwf m given with
    ⟨e, hrefusal, hlink⟩ | ⟨hrefusal, inst, s₁, origins', hlink, hvalid, hwf₁, hinst⟩
  · have hfailed := instantiate_of_error turns hlink
    rw [hrefusal]
    refine ⟨fun e' he' => ?_, nofun, fun hvalid e' he' => ?_⟩
    · cases he'
      exact hfailed
    · rw [hfailed] at he'
      cases he'
      exact internal_of_refusal? hvalid hrefusal
  · rw [hrefusal]
    refine ⟨nofun, fun _ => ⟨inst, s₁, hlink, hinst, instantiate_of_no_start turns hlink, ?_⟩,
      fun _ e he => ?_⟩
    · intro f hf
      obtain ⟨a, type, ha, -, -⟩ := start_of_validate hvalid hinst hf
      exact ⟨a, ha, instantiate_of_start turns hlink hf ha⟩
    · cases hstart : m.start with
      | none =>
        rw [instantiate_of_no_start turns hlink hstart] at he
        cases he
      | some f =>
        -- Only the start function is left to fail, and it is called with what it takes.
        obtain ⟨a, type, ha, htype, hparams⟩ := start_of_validate hvalid hinst hstart
        have hargs : ([] : List Value).map Value.type = type.params := hparams.symm
        obtain ⟨-, -, hsafe⟩ := hwf₁.invoke_of_types htype hargs turns
        rw [instantiate_of_start turns hlink hstart ha] at he
        generalize s₁.invoke turns a [] = called at he hsafe
        obtain ⟨outcome, s₂⟩ := called
        cases outcome with
        | done vs => cases he
        | failed t => cases he; exact hsafe
        | unfinished => cases he

/-- A module whose only segment reaches one slot beyond an imported table, and whose start function
    traps. -/
def overreaching : Module where
  types := [⟨[], []⟩]
  imports := [{ source := "host", name := "table", desc := .table ⟨1, none⟩ }]
  funcs := [{ typeIdx := 0, locals := [], body := [.unreachable] }]
  globals := [{ type := ⟨.i32, .const⟩, initial := [.const (.i32 1)] }]
  elems := [{ table := 0, offset := [.globalGet 0], funcs := [0] }]
  start := some 0

/-- A store with a table of one slot and one of two. -/
def twoTables : Store :=
  (withConfig {}).performAll [.allocTable ⟨1, none⟩, .allocTable ⟨2, none⟩]

/-- The module is refused for want of an import, for a table that is not there, and for one that is too
    small for its segment. With a table that is large enough it is its start function that traps. -/
theorem overreaching_refused :
    twoTables.instantiate 9 overreaching [] = (.failed (.importCount 1 0), twoTables) ∧
    twoTables.instantiate 9 overreaching [.table 2] =
      (.failed (.importMismatch 0 "host" "table" (.missing .table 2)), twoTables) ∧
    twoTables.instantiate 9 overreaching [.table 0] =
      (.failed (.trap .elemOutOfBounds), twoTables) ∧
    ∃ inst s₁, twoTables.link overreaching [.table 1] = (.ok inst, s₁) ∧
      (twoTables.instantiate 9 overreaching [.table 1]).1 = .failed (.trap .unreachable) := by
  have hreachable : twoTables.Reachable := ⟨{}, _, rfl⟩
  have hrefused := fun given => (hreachable.instantiate_outcome 9 overreaching given).1
  have hnone : twoTables.refusal? overreaching [.table 1] = none := by with_unfolding_all rfl
  obtain ⟨inst, s₁, hlink, -⟩ :=
    (hreachable.instantiate_outcome 9 overreaching [.table 1]).2.1 hnone
  refine ⟨hrefused [] _ ?_, hrefused [.table 2] _ ?_, hrefused [.table 0] _ ?_, inst, s₁, hlink, ?_⟩
  · with_unfolding_all rfl
  · with_unfolding_all rfl
  · with_unfolding_all rfl
  · with_unfolding_all rfl

end Store

end WasmCore
