import WasmCore.Proofs.Typing.Checked
import WasmCore.Proofs.Typing.Constants

/-!
# `Typing.Validity` — the modules that are accepted

What makes a module valid is a list of conditions on its parts, and none of them says in which order
anything is looked at. The index spaces count imports first, so a condition on an index space covers what
is imported and what is defined alike. Each check of a module decides one of the conditions.

* `Expr.IsConstant`, `ExportDesc.InRange`, `Module.Valid`: **what a valid module is**;
* `Validate.funcType_eq_ok_iff`, …, `Validate.start_eq_ok_iff`: what each check decides;
* `valid_of_validate`, `validate_of_valid`: an accepted module is valid, and a valid one is accepted;
* `validate_eq_ok_iff_valid`: **a module is accepted exactly if it is valid.**
-/

namespace WasmCore

/-! ## Valid modules -/

/-- **A constant expression** of a type that may read the first `visible` globals: one instruction, which
    is a constant or reads an immutable global. -/
def Expr.IsConstant (c : Context) (visible : Nat) (type : ValType) (e : Expr) : Prop :=
  ∃ i, e = [i] ∧ i.Constant c visible type

namespace Module

/-- The signature of a function of a module, imports first. -/
def funcType? (m : Module) (f : FuncIdx) : Option FuncType :=
  (m.funcTypeIndices[f.toNat]?).bind fun t => m.types[t.toNat]?

variable {m : Module}

theorem mem_importedFuncs {t : TypeIdx} :
    t ∈ m.importedFuncs ↔ ∃ i ∈ m.imports, i.desc = .func t := by
  simp only [importedFuncs, List.mem_filterMap]
  refine exists_congr fun i => and_congr_right fun _ => ?_
  cases i.desc <;> simp

theorem mem_importedTables {l : TableType} :
    l ∈ m.importedTables ↔ ∃ i ∈ m.imports, i.desc = .table l := by
  simp only [importedTables, List.mem_filterMap]
  refine exists_congr fun i => and_congr_right fun _ => ?_
  cases i.desc <;> simp

theorem mem_importedMemories {l : MemType} :
    l ∈ m.importedMemories ↔ ∃ i ∈ m.imports, i.desc = .memory l := by
  simp only [importedMemories, List.mem_filterMap]
  refine exists_congr fun i => and_congr_right fun _ => ?_
  cases i.desc <;> simp

end Module

/-- What an export names is there. -/
def ExportDesc.InRange (m : Module) : ExportDesc → Prop
  | func f => f.toNat < m.funcTypeIndices.length
  | table t => t.toNat < m.tableTypes.length
  | memory a => a.toNat < m.memTypes.length
  | global g => g.toNat < m.globalTypes.length

/-- **A valid module.** -/
structure Module.Valid (m : Module) : Prop where
  /-- A function has at most one result. -/
  results : ∀ t ∈ m.types, t.results.length ≤ 1
  /-- Every function, imported or defined, has a type. -/
  typeIndices : ∀ t ∈ m.funcTypeIndices, t.toNat < m.types.length
  tables : ∀ l ∈ m.tableTypes, l.Ordered
  memories : ∀ l ∈ m.memTypes, l.Ordered ∧ l.Addressable
  singleTable : m.tableTypes.length ≤ 1
  singleMemory : m.memTypes.length ≤ 1
  /-- An initialiser may read the globals that come before its own. -/
  globals : ∀ (n : Nat) g, m.globals[n]? = some g →
    Expr.IsConstant (.ofModule m) (m.importedGlobals.length + n) g.type.type g.initial
  /-- The locals of a body are the parameters, and then one for each local that is declared. -/
  bodies : ∀ f ∈ m.funcs, ∀ type, m.types[f.typeIdx.toNat]? = some type →
    Expr.HasType (.ofFunc (.ofModule m) (type.params ++ f.localTypes) type.results) f.body []
      type.results
  elems : ∀ e ∈ m.elems, e.table.toNat < m.tableTypes.length ∧
    Expr.IsConstant (.ofModule m) m.globalTypes.length .i32 e.offset ∧
    ∀ f ∈ e.funcs, f.toNat < m.funcTypeIndices.length
  datas : ∀ d ∈ m.datas, d.memory.toNat < m.memTypes.length ∧
    Expr.IsConstant (.ofModule m) m.globalTypes.length .i32 d.offset
  start : ∀ f, m.start = some f → m.funcType? f = some ⟨[], []⟩
  names : (m.exports.map Export.name).Nodup
  exports : ∀ e ∈ m.exports, e.desc.InRange m

/-! ## What each check decides -/

theorem checkConstant_eq_ok_iff {c : Context} {visible : Nat} {type : ValType} {e : Expr} :
    checkConstant c visible type e = .ok () ↔ e.IsConstant c visible type := by
  constructor
  · exact checkConstant_eq_ok
  · rintro ⟨i, rfl, hi⟩
    exact checkConstant_of_constant hi

namespace Validate

variable {m : Module}

theorem funcType_eq_ok_iff {t : FuncType} : funcType t = .ok () ↔ t.results.length ≤ 1 := by
  unfold funcType
  by_cases h : 1 < t.results.length
  · simp [h]
  · simp [h, Nat.le_of_not_lt h]

theorem typeAt_iff {t : TypeIdx} :
    (∃ type, (Context.ofModule m).typeAt t = .ok type) ↔ t.toNat < m.types.length := by
  simp only [Check.typeAt_eq_ok_iff, Context.ofModule, List.getElem?_toArray]
  rw [← Option.isSome_iff_exists]
  simp

theorem globalType_iff {g : GlobalIdx} :
    (∃ type, (Context.ofModule m).globalType g = .ok type) ↔ g.toNat < m.globalTypes.length := by
  simp only [Check.globalType_eq_ok_iff, Context.ofModule, List.getElem?_toArray]
  rw [← Option.isSome_iff_exists]
  simp

theorem requireTable_iff {t : TableIdx} :
    (Context.ofModule m).requireTable t = .ok () ↔ t.toNat < m.tableTypes.length := by
  unfold Context.requireTable
  rw [Context.ofModule, List.size_toArray]
  split <;> simp_all

theorem requireMemory_iff {a : MemIdx} :
    (Context.ofModule m).requireMemory a = .ok () ↔ a.toNat < m.memTypes.length := by
  unfold Context.requireMemory
  rw [Context.ofModule, List.size_toArray]
  split <;> simp_all

theorem funcType_iff_funcType? {f : FuncIdx} {type : FuncType} :
    (Context.ofModule m).funcType f = .ok type ↔ m.funcType? f = some type := by
  rw [Check.funcType_eq_ok_iff, Module.funcType?, Option.bind_eq_some_iff]
  simp only [Context.ofModule, List.getElem?_toArray]

/-- Where every type index is in range, a function has a type if it is there. -/
theorem funcType_iff (h : ∀ t ∈ m.funcTypeIndices, t.toNat < m.types.length) {f : FuncIdx} :
    (∃ type, (Context.ofModule m).funcType f = .ok type) ↔ f.toNat < m.funcTypeIndices.length := by
  simp only [funcType_iff_funcType?, Module.funcType?, Option.bind_eq_some_iff]
  constructor
  · rintro ⟨type, t, ht, -⟩
    exact (List.getElem?_eq_some_iff.mp ht).1
  · intro hf
    have ht : m.funcTypeIndices[f.toNat].toNat < m.types.length := h _ (List.getElem_mem hf)
    exact ⟨m.types[m.funcTypeIndices[f.toNat].toNat], _, List.getElem?_eq_getElem hf,
      List.getElem?_eq_getElem ht⟩

theorem singleTable_eq_ok_iff :
    singleTable (.ofModule m) = .ok () ↔ m.tableTypes.length ≤ 1 := by
  unfold singleTable
  rw [Context.ofModule, List.size_toArray]
  split
  · rename_i h
    simp [Nat.not_le.mpr h]
  · rename_i h
    simp [Nat.le_of_not_lt h]

theorem singleMemory_eq_ok_iff :
    singleMemory (.ofModule m) = .ok () ↔ m.memTypes.length ≤ 1 := by
  unfold singleMemory
  rw [Context.ofModule, List.size_toArray]
  split
  · rename_i h
    simp [Nat.not_le.mpr h]
  · rename_i h
    simp [Nat.le_of_not_lt h]

/-- **Imports.** What is imported is in order exactly if it is so in each of the index spaces. -/
theorem imports_eq_ok_iff :
    (∀ i ∈ m.imports, importDesc (.ofModule m) i.desc = .ok ()) ↔
      (∀ t ∈ m.importedFuncs, t.toNat < m.types.length) ∧
      (∀ l ∈ m.importedTables, l.Ordered) ∧
      ∀ l ∈ m.importedMemories, l.Ordered ∧ l.Addressable := by
  constructor
  · intro h
    refine ⟨fun t ht => ?_, fun l hl => ?_, fun l hl => ?_⟩
    · obtain ⟨i, hi, hdesc⟩ := Module.mem_importedFuncs.mp ht
      have hok := h i hi
      rw [hdesc] at hok
      exact typeAt_iff.mp (discard_eq_ok_iff.mp hok)
    · obtain ⟨i, hi, hdesc⟩ := Module.mem_importedTables.mp hl
      have hok := h i hi
      rw [hdesc] at hok
      exact limits_eq_ok_iff.mp hok
    · obtain ⟨i, hi, hdesc⟩ := Module.mem_importedMemories.mp hl
      have hok := h i hi
      rw [hdesc] at hok
      exact memType_eq_ok_iff.mp hok
  · rintro ⟨hfuncs, htables, hmemories⟩ i hi
    cases hdesc : i.desc with
    | func t =>
      have ht := hfuncs t (Module.mem_importedFuncs.mpr ⟨i, hi, hdesc⟩)
      exact discard_eq_ok_iff.mpr (typeAt_iff.mpr ht)
    | table l => exact limits_eq_ok_iff.mpr (htables l (Module.mem_importedTables.mpr ⟨i, hi, hdesc⟩))
    | memory l =>
      exact memType_eq_ok_iff.mpr (hmemories l (Module.mem_importedMemories.mpr ⟨i, hi, hdesc⟩))
    | global t => rfl

/-- **Bodies**, where the type of a function is known. -/
theorem func_eq_ok_iff {f : Func} {type : FuncType} (htype : m.types[f.typeIdx.toNat]? = some type) :
    func (.ofModule m) f = .ok () ↔
      Expr.HasType (.ofFunc (.ofModule m) (type.params ++ f.localTypes) type.results) f.body []
        type.results := by
  have hlookup : (Context.ofModule m).typeAt f.typeIdx = .ok type := by
    rw [Check.typeAt_eq_ok_iff, Context.ofModule, List.getElem?_toArray]
    exact htype
  unfold func
  rw [hlookup]
  show checkFunc _ _ _ _ = _ ↔ _
  rcases checkFunc_cases (.ofModule m) (type.params ++ f.localTypes) type.results f.body with
    ⟨hbody, hok⟩ | ⟨hno, e, he⟩
  · exact ⟨fun _ => hbody, fun _ => hok⟩
  · rw [he]
    exact ⟨nofun, fun hbody => absurd hbody hno⟩

/-- **Globals.** Each initialiser may read those that come before it. -/
theorem globals_eq_ok_iff {c : Context} {gs : List Global} {imported : Nat} :
    (∀ p ∈ gs.zipIdx imported, global c p.2 p.1 = .ok ()) ↔
      ∀ (n : Nat) g, gs[n]? = some g → g.initial.IsConstant c (imported + n) g.type.type := by
  simp only [global, checkConstant_eq_ok_iff]
  constructor
  · intro h n g hg
    exact h (g, imported + n) (List.mk_add_mem_zipIdx_iff_getElem?.mpr hg)
  · rintro h ⟨g, i⟩ hp
    obtain ⟨n, hn⟩ := List.mem_iff_getElem?.mp hp
    rw [List.getElem?_zipIdx] at hn
    obtain ⟨g', hg', heq⟩ := Option.map_eq_some_iff.mp hn
    cases heq
    exact h n g hg'

section Functions

variable (h : ∀ t ∈ m.funcTypeIndices, t.toNat < m.types.length)

include h

/-- **Element segments**, where every function has a type. -/
theorem elem_eq_ok_iff {e : ElemSegment} :
    elem (.ofModule m) e = .ok () ↔ e.table.toNat < m.tableTypes.length ∧
      e.offset.IsConstant (.ofModule m) m.globalTypes.length .i32 ∧
      ∀ f ∈ e.funcs, f.toNat < m.funcTypeIndices.length := by
  unfold elem
  rw [seq_eq_ok_iff, seq_eq_ok_iff, requireTable_iff, checkConstant_eq_ok_iff, forM_eq_ok_iff]
  simp only [discard_eq_ok_iff, funcType_iff h]
  rfl

/-- **Exports**, where every function has a type. -/
theorem exportDesc_eq_ok_iff {d : ExportDesc} :
    exportDesc (.ofModule m) d = .ok () ↔ d.InRange m := by
  cases d with
  | func f => exact discard_eq_ok_iff.trans (funcType_iff h)
  | table t => exact requireTable_iff
  | memory a => exact requireMemory_iff
  | global g => exact discard_eq_ok_iff.trans globalType_iff

end Functions

/-- **Data segments.** -/
theorem data_eq_ok_iff {d : DataSegment} :
    data (.ofModule m) d = .ok () ↔ d.memory.toNat < m.memTypes.length ∧
      d.offset.IsConstant (.ofModule m) m.globalTypes.length .i32 := by
  unfold data
  rw [seq_eq_ok_iff, requireMemory_iff, checkConstant_eq_ok_iff]
  rfl

/-- **The start function.** -/
theorem start_eq_ok_iff {f : FuncIdx} :
    start (.ofModule m) f = .ok () ↔ m.funcType? f = some ⟨[], []⟩ := by
  unfold start
  rw [bind_eq_ok_iff]
  simp only [funcType_iff_funcType?]
  constructor
  · rintro ⟨⟨params, results⟩, htype, hshape⟩
    cases params with
    | cons t ts => cases hshape
    | nil =>
      cases results with
      | cons t ts => cases hshape
      | nil => exact htype
  · intro htype
    exact ⟨_, htype, rfl⟩

end Validate

/-! ## Modules -/

variable {m : Module}

open Validate in
/-- **An accepted module is valid.** -/
theorem valid_of_validate (h : validate m = .ok ()) : m.Valid := by
  have hchecked := checked_of_validate h
  obtain ⟨hfuncs, htables, hmemories⟩ := imports_eq_ok_iff.mp hchecked.imports
  have hindices : ∀ t ∈ m.funcTypeIndices, t.toNat < m.types.length := by
    refine List.forall_mem_append.mpr ⟨hfuncs, List.forall_mem_map.mpr fun f hf => ?_⟩
    exact typeAt_iff.mp (hchecked.typeIndices f hf)
  exact
    { results := fun t ht => funcType_eq_ok_iff.mp (hchecked.types t ht)
      typeIndices := hindices
      tables := List.forall_mem_append.mpr
        ⟨htables, fun l hl => limits_eq_ok_iff.mp (hchecked.tables l hl)⟩
      memories := List.forall_mem_append.mpr
        ⟨hmemories, fun l hl => memType_eq_ok_iff.mp (hchecked.memories l hl)⟩
      singleTable := singleTable_eq_ok_iff.mp hchecked.singleTable
      singleMemory := singleMemory_eq_ok_iff.mp hchecked.singleMemory
      globals := globals_eq_ok_iff.mp hchecked.globals
      bodies := fun f hf type htype => (func_eq_ok_iff htype).mp (hchecked.funcs f hf)
      elems := fun e he => (elem_eq_ok_iff hindices).mp (hchecked.elems e he)
      datas := fun d hd => data_eq_ok_iff.mp (hchecked.datas d hd)
      start := fun f hf => start_eq_ok_iff.mp (optionForM_eq_ok_iff.mp hchecked.start f hf)
      names := hchecked.names
      exports := fun e he => (exportDesc_eq_ok_iff hindices).mp (hchecked.exports e he) }

open Validate in
/-- **A valid module is accepted.** -/
theorem validate_of_valid (h : m.Valid) : validate m = .ok () := by
  obtain ⟨hfuncs, hdefined⟩ := List.forall_mem_append.mp h.typeIndices
  obtain ⟨himported, htables⟩ := List.forall_mem_append.mp h.tables
  obtain ⟨himported', hmemories⟩ := List.forall_mem_append.mp h.memories
  have hindices : ∀ f ∈ m.funcs, ∃ type, (Context.ofModule m).typeAt f.typeIdx = .ok type :=
    fun f hf => typeAt_iff.mpr (List.forall_mem_map.mp hdefined f hf)
  refine validate_eq_ok_iff_checked.mpr
    { types := fun t ht => funcType_eq_ok_iff.mpr (h.results t ht)
      imports := imports_eq_ok_iff.mpr ⟨hfuncs, himported, himported'⟩
      typeIndices := hindices
      tables := fun l hl => limits_eq_ok_iff.mpr (htables l hl)
      memories := fun l hl => memType_eq_ok_iff.mpr (hmemories l hl)
      singleTable := singleTable_eq_ok_iff.mpr h.singleTable
      singleMemory := singleMemory_eq_ok_iff.mpr h.singleMemory
      globals := globals_eq_ok_iff.mpr h.globals
      funcs := fun f hf => ?_
      elems := fun e he => (elem_eq_ok_iff h.typeIndices).mpr (h.elems e he)
      datas := fun d hd => data_eq_ok_iff.mpr (h.datas d hd)
      start := optionForM_eq_ok_iff.mpr fun f hf => start_eq_ok_iff.mpr (h.start f hf)
      exports := fun e he => (exportDesc_eq_ok_iff h.typeIndices).mpr (h.exports e he)
      names := h.names }
  -- A body is looked at with the type that its function turns out to have.
  obtain ⟨type, htype⟩ := hindices f hf
  rw [Check.typeAt_eq_ok_iff, Context.ofModule, List.getElem?_toArray] at htype
  exact (func_eq_ok_iff htype).mpr (h.bodies f hf type htype)

/-- **A module is accepted exactly if it is valid.** Its types have at most one result; every function,
    imported or defined, has a type; limits are in order, and those of memories within what 32 bits can
    address; imports and definitions together have at most one table and one memory; initialisers and
    offsets are constants of their type that read immutable globals only, initialisers only earlier ones;
    bodies have the type of their function by the typing rules; segments, the start function and exports
    name what is there, counted with imports first; and no two exports have the same name. -/
theorem validate_eq_ok_iff_valid (m : Module) : validate m = .ok () ↔ m.Valid :=
  ⟨valid_of_validate, validate_of_valid⟩

end WasmCore
