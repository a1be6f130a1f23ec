import WasmCore.Proofs.Link.Spans

/-!
# `Link.Matching` — when an import is satisfied

What is given for an import has a type of its own: that of the function or the global, or the current
size and the maximum of the table or the memory. It satisfies the import if it is of the right kind, is
there, and has a type that may stand where the type of the import is asked for. The imports of a module
are matched in order, and the first that is not satisfied is reported.

* `Limits.Matches`, `ExternType.standsFor`: types that may stand where others are asked for;
* `Store.mismatch?`: what is wrong with one import, if anything;
* `Store.importMismatch?`: the first import that is not satisfied;
* `importFault?_eq`, `matchImports_eq`: **matching reports exactly that**;
* `forall₂_matchedTables`, `forall₂_matchedMemories`: the limits of what was matched.
-/

namespace WasmCore

/-! ## Types of what can be imported -/

/-- Limits that may stand where others are asked for: the minimum is no smaller, and if a maximum is
    asked for, there is one and it is no larger. -/
def Limits.Matches (found asked : Limits) : Prop :=
  asked.min ≤ found.min ∧
    ∀ bound, asked.max = some bound → ∃ max, found.max = some max ∧ max ≤ bound

instance (found asked : Limits) : Decidable (found.Matches asked) :=
  decidable_of_iff _ (Limits.satisfies_iff found asked)

/-- The type of something that a module can import or export. -/
inductive ExternType
  | func (t : FuncType)
  | table (t : TableType)
  | memory (t : MemType)
  | global (t : GlobalType)

namespace ExternType

/-- The kind of thing that has a type. -/
def kind : ExternType → ExternKind
  | func _ => .func
  | table _ => .table
  | memory _ => .memory
  | global _ => .global

/-- **Whether a type may stand where another is asked for.** Functions and globals have to have the very
    type that is asked for. -/
def standsFor : (found asked : ExternType) → Bool
  | func found, func asked => found = asked
  | table found, table asked => decide (found.Matches asked)
  | memory found, memory asked => decide (found.Matches asked)
  | global found, global asked => found = asked
  | _, _ => false

/-- What is reported of a type that may not stand where another is asked for. -/
def fault : (found asked : ExternType) → ImportFault
  | func found, func asked => .funcType asked found
  | table found, table asked => .tableLimits asked found
  | memory found, memory asked => .memoryLimits asked found
  | global found, global asked => .globalType asked found
  | found, asked => .kind asked.kind found.kind

end ExternType

/-- The type that an import asks for. -/
def Module.importType? (m : Module) : ImportDesc → Option ExternType
  | .func t => (m.types[t.toNat]?).map .func
  | .table t => some (.table t)
  | .memory t => some (.memory t)
  | .global t => some (.global t)

/-- The position that a reference names. -/
def External.address : External → Nat
  | func a => a
  | table a => a
  | memory a => a
  | global a => a

namespace Store

/-- The type of what is referred to, if it is there. -/
def externType? (s : Store) : External → Option ExternType
  | .func a => (s.funcType? a).map .func
  | .table a => (s.tables[a]?).map fun t => .table t.type
  | .memory a => (s.memories[a]?).map fun m => .memory m.type
  | .global a => (s.globals[a]?).map fun g => .global g.type

/-- **What is wrong with what is given for an import**, if anything: it is of another kind, it is not
    there, or its type may not stand where that of the import is asked for. -/
def mismatch? (s : Store) (m : Module) (desc : ImportDesc) (e : External) : Option ImportFault :=
  if desc.kind ≠ e.kind then some (.kind desc.kind e.kind)
  else
    match s.externType? e, m.importType? desc with
    | none, _ => some (.missing e.kind e.address)
    | some found, some asked => if found.standsFor asked then none else some (found.fault asked)
    | some _, none => none

/-- **The first import that is not satisfied**, with what is wrong with it. -/
def importMismatch? (s : Store) (m : Module) (given : List External) : Option LinkError :=
  (m.imports.zip given).zipIdx.findSome? fun p =>
    (s.mismatch? m p.1.1.desc p.1.2).map (.importMismatch p.2 p.1.1.source p.1.1.name)

variable {s : Store} {m : Module} {given : List External}

/-! ## One import -/

theorem satisfies_eq (found asked : Limits) :
    found.satisfies asked = decide (found.Matches asked) := by
  rw [Bool.eq_iff_iff, decide_eq_true_iff]
  exact Limits.satisfies_iff found asked

/-- **One import** of a checked module. -/
theorem importFault?_eq {desc : ImportDesc} (h : Validate.importDesc (.ofModule m) desc = .ok ())
    (e : External) : s.importFault? m.types.toArray desc e = .ok (s.mismatch? m desc e) := by
  unfold mismatch?
  cases desc with
  | func t =>
    cases e with
    | func a =>
      obtain ⟨asked, hlookup, -⟩ := bind_eq_ok_iff.mp h
      have htypes : m.types.toArray[t.toNat]? = some asked := Check.typeAt_eq_ok_iff.mp hlookup
      have hasked : m.importType? (.func t) = some (.func asked) := by
        rw [List.getElem?_toArray] at htypes
        rw [Module.importType?, htypes]
        rfl
      rw [if_neg (fun hkind => hkind rfl), importFault?, htypes, hasked, externType?]
      cases s.funcType? a with
      | none => rfl
      | some found => by_cases hsame : found = asked <;> simp [hsame, ExternType.standsFor, ExternType.fault]
    | table a => rfl
    | memory a => rfl
    | global a => rfl
  | table asked =>
    cases e with
    | table a =>
      rw [if_neg (fun hkind => hkind rfl), importFault?, externType?]
      cases s.tables[a]? with
      | none => rfl
      | some t => simp only [satisfies_eq]; rfl
    | func a => rfl
    | memory a => rfl
    | global a => rfl
  | memory asked =>
    cases e with
    | memory a =>
      rw [if_neg (fun hkind => hkind rfl), importFault?, externType?]
      cases s.memories[a]? with
      | none => rfl
      | some t => simp only [satisfies_eq]; rfl
    | func a => rfl
    | table a => rfl
    | global a => rfl
  | global asked =>
    cases e with
    | global a =>
      rw [if_neg (fun hkind => hkind rfl), importFault?, externType?]
      cases s.globals[a]? with
      | none => rfl
      | some g =>
        by_cases hsame : g.type = asked <;>
          simp [hsame, Module.importType?, ExternType.standsFor, ExternType.fault]
    | func a => rfl
    | table a => rfl
    | memory a => rfl

/-! ## All imports -/

theorem matchImportsFrom_eq {is : List Import} (index : Nat) (given : List External)
    (h : ∀ i ∈ is, Validate.importDesc (.ofModule m) i.desc = .ok ()) :
    s.matchImportsFrom m.types.toArray index is given =
      match ((is.zip given).zipIdx index).findSome? fun p =>
        (s.mismatch? m p.1.1.desc p.1.2).map (LinkError.importMismatch p.2 p.1.1.source p.1.1.name) with
      | some e => .error e
      | none => .ok () := by
  induction is generalizing index given with
  | nil => rfl
  | cons i is ih =>
    cases given with
    | nil => rfl
    | cons e given =>
      have hrest := ih (index + 1) given fun i' hi' => h i' (List.mem_cons_of_mem i hi')
      have hfault := importFault?_eq (s := s) (h i List.mem_cons_self) e
      rw [matchImportsFrom, hfault, List.zip_cons_cons, List.zipIdx_cons, List.findSome?_cons]
      cases hmismatch : s.mismatch? m i.desc e with
      | some fault => rfl
      | none => exact hrest

/-- **All imports** of a checked module: their number, and then the first that is not satisfied. -/
theorem matchImports_eq (h : m.Checked) :
    s.matchImports m given =
      if m.imports.length ≠ given.length then .error (.importCount m.imports.length given.length)
      else
        match s.importMismatch? m given with
        | some e => .error e
        | none => .ok () := by
  unfold matchImports
  split
  · rfl
  · exact matchImportsFrom_eq 0 given h.imports

/-! ## What was matched -/

/-- Imports that were matched are all satisfied. -/
theorem forall₂_of_matched (hchecked : m.Checked) (h : s.matchImports m given = .ok ()) :
    List.Forall₂ (fun e (i : Import) => s.mismatch? m i.desc e = none) given m.imports := by
  rw [matchImports_eq hchecked] at h
  by_cases hlength : m.imports.length = given.length
  · rw [if_neg (not_not.mpr hlength)] at h
    cases hfirst : s.importMismatch? m given with
    | some e => rw [hfirst] at h; cases h
    | none =>
      rw [importMismatch?, List.findSome?_eq_none_iff] at hfirst
      refine List.Forall₂.flip (List.forall₂_iff_zip.mpr ⟨hlength, fun {i e} hie => ?_⟩)
      obtain ⟨n, hn⟩ := List.mem_iff_getElem?.mp hie
      have hmem : ((i, e), n) ∈ (m.imports.zip given).zipIdx :=
        List.mem_iff_getElem?.mpr ⟨n, by simp [hn]⟩
      exact Option.map_eq_none_iff.mp (hfirst _ hmem)
  · rw [if_pos hlength] at h
    cases h

/-- What satisfies an import is of its kind. -/
theorem kind_of_mismatch? {desc : ImportDesc} {e : External} (h : s.mismatch? m desc e = none) :
    desc.kind = e.kind := by
  by_contra hkind
  rw [mismatch?, if_pos hkind] at h
  cases h

/-- A table that satisfies an import is there, and its limits match. -/
theorem matches_of_table {asked : TableType} {a : TableAddr}
    (h : s.mismatch? m (.table asked) (.table a) = none) :
    ∃ t, s.tables[a]? = some t ∧ t.type.Matches asked := by
  rw [mismatch?, if_neg (fun hkind => hkind rfl), externType?] at h
  cases ht : s.tables[a]? with
  | none => rw [ht] at h; cases h
  | some t =>
    rw [ht] at h
    refine ⟨t, rfl, ?_⟩
    by_contra hmatches
    simp [Module.importType?, ExternType.standsFor, hmatches] at h

/-- A memory that satisfies an import is there, and its limits match. -/
theorem matches_of_memory {asked : MemType} {a : MemAddr}
    (h : s.mismatch? m (.memory asked) (.memory a) = none) :
    ∃ t, s.memories[a]? = some t ∧ t.type.Matches asked := by
  rw [mismatch?, if_neg (fun hkind => hkind rfl), externType?] at h
  cases ht : s.memories[a]? with
  | none => rw [ht] at h; cases h
  | some t =>
    rw [ht] at h
    refine ⟨t, rfl, ?_⟩
    by_contra hmatches
    simp [Module.importType?, ExternType.standsFor, hmatches] at h

section Matched

variable (h : List.Forall₂ (fun e (i : Import) => s.mismatch? m i.desc e = none) given m.imports)

include h

theorem forall₂_matchedTables :
    List.Forall₂ (fun a asked => ∃ t, s.tables[a]? = some t ∧ t.type.Matches asked)
      (given.filterMap External.table?) m.importedTables := by
  refine List.rel_filterMap (fun e i hei => ?_) h
  have hkind := kind_of_mismatch? hei
  obtain ⟨_, _, desc⟩ := i
  cases desc <;> cases e <;> cases hkind
  · exact .none
  · exact .some (matches_of_table hei)
  · exact .none
  · exact .none

theorem forall₂_matchedMemories :
    List.Forall₂ (fun a asked => ∃ t, s.memories[a]? = some t ∧ t.type.Matches asked)
      (given.filterMap External.memory?) m.importedMemories := by
  refine List.rel_filterMap (fun e i hei => ?_) h
  have hkind := kind_of_mismatch? hei
  obtain ⟨_, _, desc⟩ := i
  cases desc <;> cases e <;> cases hkind
  · exact .none
  · exact .none
  · exact .some (matches_of_memory hei)
  · exact .none

end Matched

end Store

end WasmCore
