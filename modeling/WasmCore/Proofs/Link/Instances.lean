import WasmCore.Link.Instantiate
import WasmCore.Proofs.Exec.Moves
import WasmCore.Proofs.Store.WellFormed
import WasmCore.Proofs.Typing.Checked
import WasmCore.Proofs.Typing.Exact

/-!
# `Link.Instances` — an instance provides what its module declares

The allocation of a module hands out addresses of functions before the functions exist. What it leaves
behind is in order all the same: each index space of the new instance is, position by position, what
the module declares.

* `forall₂_of_matchImports`: what was matched with the imports has the types that they ask for;
* `allocGlobals_spec`, `allocTables_spec`, `allocMemories_spec`, `allocFuncs_spec`: definitions;
* `Preparation`, `Allocation`, `allocModule_eq_ok`: what the allocation of a module does, step by step;
* `allocModule_spec`: **the store with the definitions of a module is well-formed**, the new instance
  provides what the module declares, and segments name functions that are in the store.
-/

namespace WasmCore

namespace Linking

variable {α β : Type} {s s' : Store} {b : β}

/-- What follows a result goes on in the same store. -/
theorem ofExcept_bind_eq_ok {x : Except LinkError α} {f : α → Linking β}
    (h : (ofExcept x >>= f) s = .ok b s') : ∃ a, x = .ok a ∧ f a s = .ok b s' := by
  cases x with
  | error e => cases h
  | ok a => exact ⟨a, rfl, h⟩

/-- What follows an allocation goes on in the store that it leaves. -/
theorem add_bind_eq_ok {alloc : Store → Except LinkError (α × Store)} {f : α → Linking β}
    (h : (add alloc >>= f) s = .ok b s') :
    ∃ a s₁, alloc s = .ok (a, s₁) ∧ f a s₁ = .ok b s' := by
  obtain ⟨a, s₁, ha, h⟩ := Move.bind_eq_ok_iff.mp h
  refine ⟨a, s₁, ?_, h⟩
  unfold add at ha
  split at ha
  · cases ha; assumption
  · cases ha

end Linking

/-- The functions that a segment writes are in the store. -/
def Segment.Refers (s : Store) : Segment → Prop
  | .elem _ _ funcs => ∀ a ∈ funcs, a < s.funcs.size
  | .data _ _ _ => True

namespace Store

variable {s s' : Store} {origins : List (Option Module)} {m : Module} {given : List External}

/-! ## Imports -/

/-- What is given is what an import asks for, as far as types go. -/
def Provides (s : Store) (types : Array FuncType) : External → ImportDesc → Prop
  | .func a, .func t => ∃ type, types[t.toNat]? = some type ∧ s.funcType? a = some type
  | .table a, .table _ => a < s.tables.size
  | .memory a, .memory _ => a < s.memories.size
  | .global a, .global type => (s.globals[a]?).map GlobalInst.type = some type
  | _, _ => False

/-- An import without fault is provided for. -/
theorem provides_of_importFault? {types : Array FuncType} {desc : ImportDesc} {e : External}
    (h : s.importFault? types desc e = .ok none) : s.Provides types e desc := by
  cases desc with
  | func t =>
    cases e with
    | func a =>
      simp only [importFault?] at h
      cases ht : types[t.toNat]? with
      | none => rw [ht] at h; cases h
      | some expected =>
        rw [ht] at h
        cases hf : s.funcType? a with
        | none => rw [hf] at h; cases h
        | some found =>
          rw [hf] at h
          by_cases heq : found = expected
          · exact ⟨expected, ht, heq ▸ hf⟩
          · simp [heq] at h
    | _ => cases h
  | table t =>
    cases e with
    | table a =>
      simp only [importFault?] at h
      cases ht : s.tables[a]? with
      | none => rw [ht] at h; cases h
      | some table => exact (Array.getElem?_eq_some_iff.mp ht).1
    | _ => cases h
  | memory t =>
    cases e with
    | memory a =>
      simp only [importFault?] at h
      cases ht : s.memories[a]? with
      | none => rw [ht] at h; cases h
      | some memory => exact (Array.getElem?_eq_some_iff.mp ht).1
    | _ => cases h
  | global type =>
    cases e with
    | global a =>
      simp only [importFault?] at h
      cases hg : s.globals[a]? with
      | none => rw [hg] at h; cases h
      | some global =>
        rw [hg] at h
        by_cases heq : global.type = type
        · show (s.globals[a]?).map GlobalInst.type = some type
          rw [hg, ← heq]; rfl
        · simp [heq] at h
    | _ => cases h

theorem forall₂_of_matchImportsFrom {types : Array FuncType} {index : Nat} {is : List Import}
    (hlength : is.length = given.length)
    (h : s.matchImportsFrom types index is given = .ok ()) :
    List.Forall₂ (fun e (i : Import) => s.Provides types e i.desc) given is := by
  induction is generalizing index given with
  | nil =>
    cases given with
    | nil => exact .nil
    | cons e given => cases hlength
  | cons i is ih =>
    cases given with
    | nil => cases hlength
    | cons e given =>
      obtain ⟨fault, hfault, h⟩ := bind_eq_ok_iff.mp h
      cases fault with
      | some fault => cases h
      | none => exact .cons (provides_of_importFault? hfault) (ih (Nat.succ.inj hlength) h)

/-- What was matched with the imports of a module is, position by position, what they ask for. -/
theorem forall₂_of_matchImports (h : s.matchImports m given = .ok ()) :
    List.Forall₂ (fun e (i : Import) => s.Provides m.types.toArray e i.desc) given m.imports := by
  unfold matchImports at h
  by_cases hlength : m.imports.length = given.length
  · rw [if_neg (not_not.mpr hlength)] at h
    exact forall₂_of_matchImportsFrom hlength h
  · rw [if_pos hlength] at h; cases h

section Imports

variable {types : Array FuncType}
  (h : List.Forall₂ (fun e (i : Import) => s.Provides types e i.desc) given m.imports)

include h

theorem forall₂_importedFuncs :
    List.Forall₂ (fun a (t : TypeIdx) => ∃ type, types[t.toNat]? = some type ∧
      s.funcType? a = some type) (given.filterMap External.func?) m.importedFuncs := by
  refine List.rel_filterMap (fun e i hei => ?_) h
  obtain ⟨_, _, desc⟩ := i
  cases desc <;> cases e <;> first | exact hei.elim | exact .none | exact .some hei

theorem forall₂_importedTables :
    List.Forall₂ (fun a (_ : TableType) => a < s.tables.size)
      (given.filterMap External.table?) m.importedTables := by
  refine List.rel_filterMap (fun e i hei => ?_) h
  obtain ⟨_, _, desc⟩ := i
  cases desc <;> cases e <;> first | exact hei.elim | exact .none | exact .some hei

theorem forall₂_importedMemories :
    List.Forall₂ (fun a (_ : MemType) => a < s.memories.size)
      (given.filterMap External.memory?) m.importedMemories := by
  refine List.rel_filterMap (fun e i hei => ?_) h
  obtain ⟨_, _, desc⟩ := i
  cases desc <;> cases e <;> first | exact hei.elim | exact .none | exact .some hei

theorem forall₂_importedGlobals :
    List.Forall₂ (fun a type => (s.globals[a]?).map GlobalInst.type = some type)
      (given.filterMap External.global?) m.importedGlobals := by
  refine List.rel_filterMap (fun e i hei => ?_) h
  obtain ⟨_, _, desc⟩ := i
  cases desc <;> cases e <;> first | exact hei.elim | exact .none | exact .some hei

end Imports

/-! ## Definitions -/

/-- `s'` has everything that `s` has, and the same functions, and is in order. -/
structure Grown (s s' : Store) (origins : List (Option Module)) : Prop where
  persists : s.Persists s'
  funcs : s'.funcs = s.funcs
  wellFormed : s'.WellFormed origins

protected theorem Grown.refl (hs : s.WellFormed origins) : s.Grown s origins := ⟨.refl s, rfl, hs⟩

protected theorem Grown.trans {s'' : Store} (h : s.Grown s' origins) (h' : s'.Grown s'' origins) :
    s.Grown s'' origins :=
  ⟨h.persists.trans h'.persists, h'.funcs.trans h.funcs, h'.wellFormed⟩

theorem allocGlobal_spec (hs : s.WellFormed origins) {type : GlobalType} {v : Value}
    {a : GlobalAddr} (h : s.allocGlobal type v = .ok (a, s')) :
    s.Grown s' origins ∧ (s'.globals[a]?).map GlobalInst.type = some type := by
  unfold allocGlobal at h
  split at h
  · rename_i hv
    cases h
    have hp : s.Persists { s with globals := s.globals.push { type, value := v } } := by
      refine ⟨fun _ _ h => h, Nat.le_refl _, Nat.le_refl _, fun b g hb => ⟨g, ?_, rfl⟩⟩
      obtain ⟨hlt, -⟩ := Array.getElem?_eq_some_iff.mp hb
      show (s.globals.push _)[b]? = some g
      rw [Array.getElem?_push_lt hlt, ← hb, Array.getElem?_eq_getElem hlt]
    refine ⟨⟨hp, rfl, hs.update hp rfl hs.slots fun g hg => ?_⟩, ?_⟩
    · rcases Array.mem_push.mp hg with hg | rfl
      · exact hs.globals g hg
      · exact hv
    · show ((s.globals.push _)[s.globals.size]?).map GlobalInst.type = some type
      rw [Array.getElem?_push_size]; rfl
  · cases h

theorem allocTable_spec (hs : s.WellFormed origins) {t : TableType} {a : TableAddr}
    (h : s.allocTable t = .ok (a, s')) : s.Grown s' origins ∧ a < s'.tables.size := by
  simp only [allocTable] at h
  split at h
  · cases h
  · cases h
    have hp : s.Persists { s with tables := s.tables.push (.create t) } :=
      .of_eq rfl (by simp) (Nat.le_refl _) rfl
    refine ⟨⟨hp, rfl, hs.update hp rfl (fun table ht b hb => ?_) hs.globals⟩, by simp⟩
    rcases Array.mem_push.mp ht with ht | rfl
    · exact hs.slots table ht b hb
    · simp [Table.create] at hb

theorem allocMemory_spec (hs : s.WellFormed origins) {t : MemType} {a : MemAddr}
    (h : s.allocMemory t = .ok (a, s')) : s.Grown s' origins ∧ a < s'.memories.size := by
  simp only [allocMemory] at h
  split at h
  · cases h
  · cases h
    obtain ⟨hp, hwf⟩ := hs.setMemories (s.memories.push (.create t)) (by simp)
    exact ⟨⟨hp, rfl, hwf⟩, by simp⟩

/-- **Allocation of several definitions**, one after another: `all` adds an address for each of them,
    and what is said of an address stays true when the store grows. -/
theorem allocAll_spec {τ θ : Type} (type : τ → θ) (R : Store → Nat → θ → Prop)
    (all : Array Nat → List τ → Linking (Array Nat))
    (hmono : ∀ {s s' a t}, s.Persists s' → R s a t → R s' a t)
    (hnil : ∀ s as, all as [] s = .ok as s)
    (hcons : ∀ s as t ts as' s', s.WellFormed origins → all as (t :: ts) s = .ok as' s' →
      ∃ a s₁, s.Grown s₁ origins ∧ R s₁ a (type t) ∧ all (as.push a) ts s₁ = .ok as' s')
    (ts : List τ) {s : Store} (hs : s.WellFormed origins) {as as' : Array Nat} {earlier : List θ}
    (has : List.Forall₂ (R s) as.toList earlier) (h : all as ts s = .ok as' s') :
    s.Grown s' origins ∧ List.Forall₂ (R s') as'.toList (earlier ++ ts.map type) := by
  induction ts generalizing s as earlier with
  | nil =>
    rw [hnil] at h
    cases h
    rw [List.map_nil, List.append_nil]
    exact ⟨.refl hs, has⟩
  | cons t ts ih =>
    obtain ⟨a, s₁, hgrown, ha, h⟩ := hcons s as t ts as' s' hs h
    have has' : List.Forall₂ (R s₁) (as.push a).toList (earlier ++ [type t]) := by
      rw [Array.toList_push]
      exact List.rel_append (has.imp fun _ _ => hmono hgrown.persists) (.cons ha .nil)
    obtain ⟨hgrown', hall⟩ := ih hgrown.wellFormed has' h
    rw [List.append_assoc] at hall
    exact ⟨hgrown.trans hgrown', hall⟩

theorem map_type_mono {a : GlobalAddr} {type : GlobalType} (hs : s.Persists s')
    (h : (s.globals[a]?).map GlobalInst.type = some type) :
    (s'.globals[a]?).map GlobalInst.type = some type := by
  obtain ⟨g, hg, rfl⟩ := Option.map_eq_some_iff.mp h
  obtain ⟨g', hg', ht⟩ := hs.globals a g hg
  exact Option.map_eq_some_iff.mpr ⟨g', hg', ht⟩

theorem allocGlobals_spec (hs : s.WellFormed origins) {as as' : Array GlobalAddr}
    {earlier : List GlobalType} {gs : List Global}
    (has : List.Forall₂ (fun a type => (s.globals[a]?).map GlobalInst.type = some type)
      as.toList earlier) (h : Linking.allocGlobals as gs s = .ok as' s') :
    s.Grown s' origins ∧
      List.Forall₂ (fun a type => (s'.globals[a]?).map GlobalInst.type = some type)
        as'.toList (earlier ++ gs.map Global.type) := by
  refine allocAll_spec Global.type
    (fun s a type => (s.globals[a]?).map GlobalInst.type = some type) Linking.allocGlobals
    map_type_mono (fun _ _ => rfl) ?_ gs hs has h
  intro s as g gs as' s' hs h
  rw [Linking.allocGlobals, Move.get_bind] at h
  obtain ⟨v, -, h⟩ := Linking.ofExcept_bind_eq_ok h
  obtain ⟨a, s₁, ha, h⟩ := Linking.add_bind_eq_ok h
  obtain ⟨hgrown, htype⟩ := allocGlobal_spec hs ha
  exact ⟨a, s₁, hgrown, htype, h⟩

theorem allocTables_spec (hs : s.WellFormed origins) {as as' : Array TableAddr}
    {earlier ts : List TableType}
    (has : List.Forall₂ (fun a _ => a < s.tables.size) as.toList earlier)
    (h : Linking.allocTables as ts s = .ok as' s') :
    s.Grown s' origins ∧
      List.Forall₂ (fun a _ => a < s'.tables.size) as'.toList (earlier ++ ts) := by
  have hspec := allocAll_spec id (fun s a _ => a < s.tables.size) Linking.allocTables
    (fun hp ha => Nat.lt_of_lt_of_le ha hp.tables) (fun _ _ => rfl) ?_ ts hs has h
  · rwa [List.map_id] at hspec
  intro s as t ts as' s' hs h
  rw [Linking.allocTables] at h
  obtain ⟨a, s₁, ha, h⟩ := Linking.add_bind_eq_ok h
  obtain ⟨hgrown, hlt⟩ := allocTable_spec hs ha
  exact ⟨a, s₁, hgrown, hlt, h⟩

theorem allocMemories_spec (hs : s.WellFormed origins) {as as' : Array MemAddr}
    {earlier ts : List MemType}
    (has : List.Forall₂ (fun a _ => a < s.memories.size) as.toList earlier)
    (h : Linking.allocMemories as ts s = .ok as' s') :
    s.Grown s' origins ∧
      List.Forall₂ (fun a _ => a < s'.memories.size) as'.toList (earlier ++ ts) := by
  have hspec := allocAll_spec id (fun s a _ => a < s.memories.size) Linking.allocMemories
    (fun hp ha => Nat.lt_of_lt_of_le ha hp.memories) (fun _ _ => rfl) ?_ ts hs has h
  · rwa [List.map_id] at hspec
  intro s as t ts as' s' hs h
  rw [Linking.allocMemories] at h
  obtain ⟨a, s₁, ha, h⟩ := Linking.add_bind_eq_ok h
  obtain ⟨hgrown, hlt⟩ := allocMemory_spec hs ha
  exact ⟨a, s₁, hgrown, hlt, h⟩

/-- The functions of a module are added one after another. -/
theorem allocFuncs_spec {inst : ModuleInst} {fs : List Func}
    (h : Linking.allocFuncs inst fs s = .ok () s') :
    ∃ new : List FuncInst, s' = { s with funcs := s.funcs ++ new.toArray } ∧
      List.Forall₂ (fun f g => ∃ type, inst.types[f.typeIdx.toNat]? = some type ∧
        g = .defined type inst f) fs new := by
  induction fs generalizing s with
  | nil => cases h; exact ⟨[], by simp, .nil⟩
  | cons f fs ih =>
    rw [Linking.allocFuncs] at h
    obtain ⟨type, htype, h⟩ := Linking.ofExcept_bind_eq_ok h
    obtain ⟨new, rfl, hnew⟩ := ih (s := s.pushFunc (.defined type inst f)) h
    refine ⟨.defined type inst f :: new, ?_, .cons ⟨type, ?_, rfl⟩ hnew⟩
    · have harray : s.funcs.push (.defined type inst f) ++ new.toArray =
          s.funcs ++ (.defined type inst f :: new).toArray := by
        apply Array.ext'
        simp
      simp only [pushFunc, harray]
    · unfold ModuleInst.typeAt at htype
      cases ht : inst.types[f.typeIdx.toNat]? with
      | none => rw [ht] at htype; cases htype
      | some type' => rw [ht] at htype; cases htype; rfl

/-! ## All definitions of a module -/

/-- A store with functions added still has everything. -/
theorem persists_append (s : Store) (new : List FuncInst) :
    s.Persists { s with funcs := s.funcs ++ new.toArray } := by
  refine ⟨fun a f ha => ?_, Nat.le_refl _, Nat.le_refl _, fun _ g hg => ⟨g, hg, rfl⟩⟩
  obtain ⟨hlt, -⟩ := Array.getElem?_eq_some_iff.mp ha
  show (s.funcs ++ new.toArray)[a]? = some f
  rw [Array.getElem?_append_left hlt]; exact ha

/-- The addresses that were handed out in advance are those of the functions of the module. -/
theorem forall₂_fresh {inst : ModuleInst} {fs : List Func} {new : List FuncInst}
    (hnew : List.Forall₂ (fun f g => ∃ type, inst.types[f.typeIdx.toNat]? = some type ∧
      g = .defined type inst f) fs new) :
    List.Forall₂ (fun a (t : TypeIdx) => ∃ type, inst.types[t.toNat]? = some type ∧
        ({ s with funcs := s.funcs ++ new.toArray } : Store).funcType? a = some type)
      ((List.range fs.length).map (s.funcs.size + ·)) (fs.map Func.typeIdx) := by
  refine List.forall₂_iff_get.mpr ⟨by simp, fun i h₁ h₂ => ?_⟩
  have hi : i < fs.length := by simpa using h₂
  have hi' : i < new.length := hnew.length_eq ▸ hi
  obtain ⟨type, htype, hg⟩ := hnew.get hi hi'
  refine ⟨type, by simpa using htype, ?_⟩
  have hget : (s.funcs ++ new.toArray)[s.funcs.size + i]? = some (new.get ⟨i, hi'⟩) := by
    rw [Array.getElem?_append_right (Nat.le_add_right _ _)]; simp
  have haddr : ((List.range fs.length).map (s.funcs.size + ·)).get ⟨i, h₁⟩ = s.funcs.size + i := by
    simp
  rw [haddr, funcType?, hget, hg]; rfl

/-- The body of each function of a checked module checks against the type of the function. -/
theorem checkFunc_of_validate (h : validate m = .ok ()) {f : Func} (hf : f ∈ m.funcs)
    {type : FuncType} (ht : m.types.toArray[f.typeIdx.toNat]? = some type) :
    checkFunc (.ofModule m) (type.params ++ f.localTypes) type.results f.body = .ok () := by
  obtain ⟨type', htype', hbody⟩ := bind_eq_ok_iff.mp ((checked_of_validate h).funcs f hf)
  have htypeAt : (Context.ofModule m).typeAt f.typeIdx = .ok type := by
    have hc : (Context.ofModule m).types[f.typeIdx.toNat]? = some type := ht
    rw [Context.typeAt, hc]
  cases htypeAt.symm.trans htype'
  exact hbody

/-- The start function of a checked module is in the store, and takes nothing. -/
theorem start_of_validate (h : validate m = .ok ()) {inst : ModuleInst}
    (hinst : inst.Implements s (.ofModule m)) {f : FuncIdx} (hf : m.start = some f) :
    ∃ a type, inst.funcAddr f = .ok a ∧ s.funcType? a = some type ∧ type.params = [] := by
  have hstart := (checked_of_validate h).start
  rw [hf] at hstart
  obtain ⟨type, htype, hshape⟩ := bind_eq_ok_iff.mp hstart
  have hparams : type.params = [] := by
    by_contra hparams
    rw [if_pos (.inl hparams)] at hshape
    cases hshape
  unfold Context.funcType at htype
  cases hidx : (Context.ofModule m).funcs[f.toNat]? with
  | none => rw [hidx] at htype; cases htype
  | some t =>
    rw [hidx] at htype
    obtain ⟨a, ha, htypeOf⟩ := hinst.funcAddr hidx (Check.typeAt_eq_ok_iff.mp htype)
    exact ⟨a, type, ha, htypeOf, hparams⟩

/-- An instance of a checked module has its start function. -/
theorem funcAddr_start (h : validate m = .ok ()) {inst : ModuleInst}
    (hinst : inst.Implements s (.ofModule m)) {f : FuncIdx} (hf : m.start = some f) :
    ∃ a, inst.funcAddr f = .ok a := by
  obtain ⟨a, -, ha, -, -⟩ := start_of_validate h hinst hf
  exact ⟨a, ha⟩

/-- **The functions of a module**, added to a store in which their instance provides what the module
    declares. -/
theorem WellFormed.append_funcs (hs : s.WellFormed origins) (hvalid : validate m = .ok ())
    {inst : ModuleInst} {new : List FuncInst}
    (hnew : List.Forall₂ (fun f g => ∃ type, inst.types[f.typeIdx.toNat]? = some type ∧
      g = .defined type inst f) m.funcs new)
    (hinst : inst.Implements { s with funcs := s.funcs ++ new.toArray } (.ofModule m)) :
    ({ s with funcs := s.funcs ++ new.toArray } : Store).WellFormed
      (origins ++ List.replicate m.funcs.length (some m)) where
  length := by
    rw [List.length_append, List.length_replicate, hs.length, hnew.length_eq]; simp
  slots := by
    intro t ht a ha
    have hlt := hs.slots t ht a ha
    show a < (s.funcs ++ new.toArray).size
    rw [Array.size_append]
    exact Nat.lt_of_lt_of_le hlt (Nat.le_add_right _ _)
  funcs := by
    intro a type inst' code ha
    replace ha : (s.funcs ++ new.toArray)[a]? = some (.defined type inst' code) := ha
    -- An old function keeps its module; a new one is a function of `m` and has the new instance.
    by_cases hlt : a < s.funcs.size
    · rw [Array.getElem?_append_left hlt] at ha
      obtain ⟨m', hm', hdef⟩ := hs.funcs a type inst' code ha
      refine ⟨m', ?_, hdef.mem, hdef.implements.mono (persists_append s new), hdef.typeIdx, hdef.body⟩
      rw [List.getElem?_append_left (hs.length ▸ hlt)]; exact hm'
    · rw [Array.getElem?_append_right (Nat.le_of_not_lt hlt), List.getElem?_toArray] at ha
      obtain ⟨f, hf, type', htype', hg⟩ := getElem?_of_forall₂ hnew ha
      cases hg
      have hmem : code ∈ m.funcs := List.mem_of_getElem? hf
      have htypes : inst.types = m.types.toArray := hinst.types
      have hn : a - s.funcs.size < m.funcs.length := (List.getElem?_eq_some_iff.mp hf).1
      refine ⟨m, ?_, hmem, hinst, htype', checkFunc_of_validate hvalid hmem (htypes ▸ htype')⟩
      rw [List.getElem?_append_right (hs.length ▸ Nat.le_of_not_lt hlt), hs.length,
        List.getElem?_replicate, if_pos hn]
  globals := hs.globals

theorem ofTrap_eq_ok {α : Type} {x : Except Trap α} {y : α} (h : LinkError.ofTrap x = .ok y) :
    x = .ok y := by
  cases x with
  | error t => cases h
  | ok z => cases h; rfl

theorem ofValidation_eq_ok {α : Type} {x : Except ValidationError α} {y : α}
    (h : LinkError.ofValidation x = .ok y) : x = .ok y := by
  cases x with
  | error e => cases h
  | ok z => cases h; rfl

/-- The address of a function index of an instance is the address of a function. -/
theorem lt_of_funcAddr {inst : ModuleInst} {c : Context} (h : inst.Implements s c) {f : FuncIdx}
    {a : FuncAddr} (ha : inst.funcAddr f = .ok a) : a < s.funcs.size := by
  unfold ModuleInst.funcAddr at ha
  cases hget : inst.funcs[f.toNat]? with
  | none => rw [hget] at ha; cases ha
  | some a' =>
    rw [hget] at ha
    cases ha
    rw [← Array.getElem?_toList] at hget
    obtain ⟨t, -, type, -, htype⟩ := getElem?_of_forall₂ (List.Forall₂.flip h.funcs) hget
    obtain ⟨f, hf, -⟩ := Option.map_eq_some_iff.mp htype
    exact (Array.getElem?_eq_some_iff.mp hf).1

theorem checked_eq_ok {g g' : Segment} (h : g.checked s = .ok g') : g' = g ∧ g.fits s = true := by
  unfold Segment.checked at h
  split at h
  · cases h; exact ⟨rfl, ‹_›⟩
  · cases h

/-- An element segment names functions of the store that its instance belongs to. -/
theorem refers_of_resolveElem {inst : ModuleInst} {c : Context} (hinst : inst.Implements s' c)
    {e : ElemSegment} {g : Segment} (h : s.resolveElem inst e = .ok g) : g.Refers s' := by
  obtain ⟨table, -, h⟩ := bind_eq_ok_iff.mp h
  obtain ⟨offset, -, h⟩ := bind_eq_ok_iff.mp h
  obtain ⟨funcs, hfuncs, h⟩ := bind_eq_ok_iff.mp h
  obtain ⟨rfl, -⟩ := checked_eq_ok h
  intro a ha
  obtain ⟨n, hn⟩ := List.mem_iff_getElem?.mp ha
  obtain ⟨f, -, hf⟩ := getElem?_of_forall₂ (forall₂_of_mapM_eq_ok (ofTrap_eq_ok hfuncs)) hn
  exact lt_of_funcAddr hinst hf

theorem refers_of_resolveData {inst : ModuleInst} {d : DataSegment} {g : Segment}
    (h : s.resolveData inst d = .ok g) : g.Refers s' := by
  obtain ⟨memory, -, h⟩ := bind_eq_ok_iff.mp h
  obtain ⟨offset, -, h⟩ := bind_eq_ok_iff.mp h
  obtain ⟨rfl, -⟩ := checked_eq_ok h
  exact trivial

/-- What a module whose definitions are allocated has passed. -/
theorem acceptsModule_eq_ok (h : s.acceptsModule m given = .ok ()) :
    validate m = .ok () ∧ s.matchImports m given = .ok () := by
  obtain ⟨⟨⟩, hvalid, himports⟩ := bind_eq_ok_iff.mp h
  exact ⟨ofValidation_eq_ok hvalid, himports⟩

/-- **What allocation does before it adds the functions**, step by step: globals, tables, memories, then
    the instance, its exports and its segments. -/
structure Preparation (s : Store) (m : Module) (given : List External) (inst : ModuleInst)
    (elems datas : List Segment) (s₁ s₂ s₃ : Store) : Prop where
  globals : Linking.allocGlobals (given.filterMap External.global?).toArray m.globals s =
    .ok inst.globals s₁
  tables : Linking.allocTables (given.filterMap External.table?).toArray m.tables s₁ =
    .ok inst.tables s₂
  memories : Linking.allocMemories (given.filterMap External.memory?).toArray m.memories s₂ =
    .ok inst.memories s₃
  types : inst.types = m.types.toArray
  addresses : inst.funcs = (given.filterMap External.func? ++
    (List.range m.funcs.length).map (s₃.funcs.size + ·)).toArray
  exports : inst.resolveExports m.exports = .ok inst.exports
  elems : m.elems.mapM (s₃.resolveElem inst) = .ok elems
  datas : m.datas.mapM (s₃.resolveData inst) = .ok datas

/-- **What allocation does**: the functions come last. -/
structure Allocation (s : Store) (m : Module) (given : List External) (inst : ModuleInst)
    (elems datas : List Segment) (s₁ s₂ s₃ s' : Store) : Prop
    extends Preparation s m given inst elems datas s₁ s₂ s₃ where
  funcs : Linking.allocFuncs inst m.funcs s₃ = .ok () s'

theorem prepare_eq_ok {inst : ModuleInst} {segments : List Segment}
    (h : Linking.prepare m given s = .ok (inst, segments) s') :
    ∃ elems datas s₁ s₂, Preparation s m given inst elems datas s₁ s₂ s' ∧
      segments = elems ++ datas := by
  unfold Linking.prepare at h
  obtain ⟨_, s₃, hinst, h⟩ := Move.bind_eq_ok_iff.mp h
  obtain ⟨globals, s₁, hglobals, hinst⟩ := Move.bind_eq_ok_iff.mp hinst
  obtain ⟨tables, s₂, htables, hinst⟩ := Move.bind_eq_ok_iff.mp hinst
  obtain ⟨memories, s₄, hmemories, hinst⟩ := Move.bind_eq_ok_iff.mp hinst
  cases hinst
  obtain ⟨exports, hexports, h⟩ := Linking.ofExcept_bind_eq_ok h
  rw [Move.get_bind] at h
  obtain ⟨segments, hsegments, h⟩ := Linking.ofExcept_bind_eq_ok h
  cases h
  obtain ⟨elems, helems, hsegments⟩ := bind_eq_ok_iff.mp hsegments
  obtain ⟨datas, hdatas, hsegments⟩ := bind_eq_ok_iff.mp hsegments
  cases hsegments
  exact ⟨elems, datas, s₁, s₂,
    { globals := hglobals, tables := htables, memories := hmemories, types := rfl, addresses := rfl,
      exports := ofTrap_eq_ok hexports, elems := helems, datas := hdatas }, rfl⟩

theorem allocModule_eq_ok {inst : ModuleInst} {segments : List Segment}
    (h : Linking.allocModule m given s = .ok (inst, segments) s') :
    ∃ elems datas s₁ s₂ s₃, Allocation s m given inst elems datas s₁ s₂ s₃ s' ∧
      segments = elems ++ datas := by
  obtain ⟨prepared, s₃, hprepare, h⟩ := Move.bind_eq_ok_iff.mp h
  obtain ⟨⟨⟩, store, hfuncs, h⟩ := Move.bind_eq_ok_iff.mp h
  cases h
  obtain ⟨elems, datas, s₁, s₂, hprepared, hsegments⟩ := prepare_eq_ok hprepare
  exact ⟨elems, datas, s₁, s₂, s₃, { hprepared with funcs := hfuncs }, hsegments⟩

/-- Each segment of a module comes from one that the module declares. -/
theorem Allocation.segment {inst : ModuleInst} {elems datas : List Segment} {s₁ s₂ s₃ : Store}
    (h : Allocation s m given inst elems datas s₁ s₂ s₃ s') {g : Segment}
    (hg : g ∈ elems ++ datas) :
    (∃ e, s₃.resolveElem inst e = .ok g) ∨ ∃ d, s₃.resolveData inst d = .ok g := by
  rcases List.mem_append.mp hg with hg | hg
  · obtain ⟨n, hn⟩ := List.mem_iff_getElem?.mp hg
    obtain ⟨e, -, he⟩ := getElem?_of_forall₂ (forall₂_of_mapM_eq_ok h.elems) hn
    exact .inl ⟨e, he⟩
  · obtain ⟨n, hn⟩ := List.mem_iff_getElem?.mp hg
    obtain ⟨d, -, hd⟩ := getElem?_of_forall₂ (forall₂_of_mapM_eq_ok h.datas) hn
    exact .inr ⟨d, hd⟩

/-- **The definitions of a module**, added to a store in order. -/
theorem allocModule_spec (hs : s.WellFormed origins) (haccepts : s.acceptsModule m given = .ok ())
    {inst : ModuleInst} {segments : List Segment}
    (h : Linking.allocModule m given s = .ok (inst, segments) s') :
    s.Persists s' ∧ s'.WellFormed (origins ++ List.replicate m.funcs.length (some m)) ∧
      inst.Implements s' (.ofModule m) ∧ ∀ g ∈ segments, g.Refers s' := by
  obtain ⟨hvalid, himports⟩ := acceptsModule_eq_ok haccepts
  have hgiven := forall₂_of_matchImports himports
  obtain ⟨elems, datas, s₁, s₂, s₃, halloc, rfl⟩ := allocModule_eq_ok h
  obtain ⟨hgrown₁, hglobals⟩ :=
    allocGlobals_spec hs (forall₂_importedGlobals hgiven) halloc.globals
  obtain ⟨hgrown₂, htables⟩ := allocTables_spec hgrown₁.wellFormed
    ((forall₂_importedTables hgiven).imp fun _ _ ha => Nat.lt_of_lt_of_le ha hgrown₁.persists.tables)
    halloc.tables
  have hgrown₁₂ := hgrown₁.trans hgrown₂
  obtain ⟨hgrown₃, hmemories⟩ := allocMemories_spec hgrown₂.wellFormed
    ((forall₂_importedMemories hgiven).imp fun _ _ ha =>
      Nat.lt_of_lt_of_le ha hgrown₁₂.persists.memories) halloc.memories
  have hgrown := hgrown₁₂.trans hgrown₃
  obtain ⟨new, rfl, hnew⟩ := allocFuncs_spec halloc.funcs
  have hp := persists_append s₃ new
  -- Imports come first in every index space, and what was allocated follows. The instance refers to
  -- the functions of the module before they are in the store, so it is looked at only now.
  have hinst : inst.Implements { s₃ with funcs := s₃.funcs ++ new.toArray } (.ofModule m) :=
    { types := halloc.types
      funcs := by
        rw [halloc.addresses]
        refine List.rel_append
          ((forall₂_importedFuncs hgiven).imp fun _ _ ⟨type, ht, ha⟩ =>
            ⟨type, ht, (hgrown.persists.trans hp).funcType? ha⟩) ?_
        have hfresh := forall₂_fresh (s := s₃) hnew
        rw [halloc.types] at hfresh
        exact hfresh
      tables := htables.imp fun _ _ ha => Nat.lt_of_lt_of_le ha hgrown₃.persists.tables
      memories := hmemories
      globals := hglobals.imp fun _ _ ha => map_type_mono (hgrown₂.persists.trans hgrown₃.persists) ha }
  refine ⟨hgrown.persists.trans hp, hgrown.wellFormed.append_funcs hvalid hnew hinst, hinst, ?_⟩
  intro g hg
  rcases halloc.segment hg with ⟨e, he⟩ | ⟨d, hd⟩
  · exact refers_of_resolveElem hinst he
  · exact refers_of_resolveData hd

end Store

end WasmCore
