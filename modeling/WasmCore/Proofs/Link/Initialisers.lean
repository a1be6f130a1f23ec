import WasmCore.Proofs.Exec.Activation
import WasmCore.Proofs.Link.IndexSpaces

/-!
# `Link.Initialisers` — constant expressions, checked, evaluated and executed

Initialisers of globals and offsets of segments are constant expressions. The checker goes through them
like through a body in which little is allowed. Allocation looks at their one instruction, and has only
the globals that are there so far. The machine could execute the instruction like any other. All three
agree: what is checked can be evaluated when its turn comes, and the value is the one that the machine
would push in a function of the instance.

* `Linking.allocSpaces`, `Store.Evaluates`: where allocation evaluates a constant expression;
* `allocGlobals_before`: the globals that are there by then;
* `evalConstant_of_before`, `Evaluates.value`: **what is checked has a value** when its turn comes;
* `allocGlobals_at`, `allocSpaces_of_allocModule`: its turn does come;
* `Activation.step_of_constantValue?`: **the machine pushes the same value**;
* `constants_agree`: the checker, allocation and the machine.
-/

namespace WasmCore

/-! ## Values -/

/-- A value that is known stays the same when there are more globals. -/
theorem constantValue?_of_fewer {values values' : List (Option Value)} {e : Expr} {v : Value}
    (hfewer : values <+: values') (h : constantValue? values e = some v) :
    constantValue? values' e = some v := by
  obtain ⟨later, rfl⟩ := hfewer
  unfold constantValue? at h ⊢
  split at h
  · exact h
  · rename_i g
    have hg : values[g.toNat]? = some (some v) := Option.join_eq_some_iff.mp h
    have hlt := (List.getElem?_eq_some_iff.mp hg).1
    simp only [List.getElem?_append_left hlt, hg, Option.join_some]
  · cases h

theorem globalValues_append (values : List (Option Value)) (gs gs' : List Global) :
    globalValues values (gs ++ gs') = globalValues (globalValues values gs) gs' := by
  induction gs generalizing values with
  | nil => rfl
  | cons g gs ih => exact ih _

/-- **The machine pushes the value of a constant expression** in every function of an instance whose
    globals give it that value. -/
theorem Activation.step_of_constantValue? {a : Activation} {k : Surroundings} {i : Instr} {v : Value}
    (h : constantValue? (a.store.valuesAt a.inst.globals) [i] = some v) :
    Exec.step i (a.on k) = .ok () ({ a with operands := v :: a.operands }.on k) := by
  cases i with
  | const w =>
    cases h
    exact push_on v
  | globalGet g =>
    have hvalue : (a.store.valuesAt a.inst.globals)[g.toNat]? = some (some v) :=
      Option.join_eq_some_iff.mp h
    rw [List.getElem?_map, Option.map_eq_some_iff] at hvalue
    obtain ⟨addr, haddr, hheld⟩ := hvalue
    obtain ⟨global, hglobal, rfl⟩ := Option.map_eq_some_iff.mp hheld
    rw [Array.getElem?_toList] at haddr
    have hlookup : a.inst.globalAddr g = .ok addr := by rw [ModuleInst.globalAddr, haddr]
    exact (Move.bind_of_ok (globalAt_on hlookup hglobal)).trans (push_on global.value)
  | _ => cases h

/-! ## Where constant expressions are evaluated -/

/-- Allocation up to the point where segments are looked at: everything but the functions is there. -/
def Linking.allocSpaces (m : Module) (given : List External) : Linking (Array GlobalAddr) := do
  let inst ← allocInst m given
  return inst.globals

/-- Globals are allocated one after another. -/
theorem Linking.allocGlobals_append (globals : Array GlobalAddr) (gs gs' : List Global) :
    allocGlobals globals (gs ++ gs') =
      allocGlobals globals gs >>= fun globals => allocGlobals globals gs' := by
  induction gs generalizing globals with
  | nil => rfl
  | cons g gs ih => simp only [List.cons_append, allocGlobals, ih, bind_assoc]

namespace Store

variable {s s' s₁ : Store} {origins : List (Option Module)} {m : Module} {given : List External}
  {inst : ModuleInst} {globals : Array GlobalAddr} {e : Expr} {type : ValType}

/-- **Where allocation evaluates a constant expression** of a type: the globals that it has come to, and
    the store. An initialiser is evaluated when all globals before its own are there. -/
inductive Evaluates (s : Store) (m : Module) (given : List External) :
    Array GlobalAddr → Store → Expr → ValType → Prop
  | initial {before after : List Global} {g : Global} {globals : Array GlobalAddr} {s₁ : Store}
      (hg : m.globals = before ++ g :: after)
      (h : Linking.allocGlobals (given.filterMap External.global?).toArray before s = .ok globals s₁) :
      Evaluates s m given globals s₁ g.initial g.type.type
  | elem {e : ElemSegment} {globals : Array GlobalAddr} {s₁ : Store} (he : e ∈ m.elems)
      (h : Linking.allocSpaces m given s = .ok globals s₁) :
      Evaluates s m given globals s₁ e.offset .i32
  | data {d : DataSegment} {globals : Array GlobalAddr} {s₁ : Store} (hd : d ∈ m.datas)
      (h : Linking.allocSpaces m given s = .ok globals s₁) :
      Evaluates s m given globals s₁ d.offset .i32

/-- **The globals that are there when some have been allocated**: all of them are of the types that are
    declared, and hold the values that they have in the end. -/
theorem allocGlobals_before (hs : s.WellFormed origins) (haccepts : s.acceptsModule m given = .ok ())
    {before after : List Global} (hm : m.globals = before ++ after) :
    ∃ globals s₁,
      Linking.allocGlobals (given.filterMap External.global?).toArray before s = .ok globals s₁ ∧
      s₁.WellFormed origins ∧
      List.Forall₂ s₁.GlobalHasType globals.toList (m.importedGlobals ++ before.map Global.type) ∧
      s₁.valuesAt globals <+: s.initialValues m given := by
  obtain ⟨hvalidate, himports⟩ := acceptsModule_eq_ok haccepts
  have himported := forall₂_importedGlobals (forall₂_of_matchImports himports)
  have hfewer : m.importedGlobals ++ before.map Global.type <+: (Context.ofModule m).globals.toList := by
    refine ⟨after.map Global.type, ?_⟩
    rw [List.append_assoc, ← List.map_append, ← hm]
    rfl
  have hchecked : ∀ p ∈ before.zipIdx m.importedGlobals.length,
      Validate.global (.ofModule m) p.2 p.1 = .ok () := by
    intro p hp
    refine (checked_of_validate hvalidate).globals p ?_
    rw [hm, List.zipIdx_append]
    exact List.mem_append_left _ hp
  obtain ⟨globals, new, halloc, hvalues⟩ :=
    allocGlobals_of_checked before hs himported hfewer hchecked
  obtain ⟨hgrown, htypes⟩ := allocGlobals_spec hs himported halloc
  refine ⟨globals, _, halloc, hgrown.wellFormed, htypes, ?_⟩
  rw [hvalues, initialValues, hm, globalValues_append]
  exact prefix_globalValues _ _

/-- **What is checked has a value** where as many globals are there as it may read. -/
theorem evalConstant_of_before (hs : s₁.WellFormed origins) {earlier : List GlobalType}
    (hglobals : List.Forall₂ s₁.GlobalHasType globals.toList earlier)
    (hearlier : earlier <+: (Context.ofModule m).globals.toList)
    (hvalues : s₁.valuesAt globals <+: s.initialValues m given)
    (he : e.IsConstant (.ofModule m) earlier.length type) :
    checkConstant (.ofModule m) globals.size type e = .ok () ∧
      ∃ v, s₁.evalConstant globals e = .ok v ∧ v.type = type ∧
        constantValue? (s.initialValues m given) e = some v := by
  constructor
  · rw [← Array.length_toList, hglobals.length_eq]
    exact checkConstant_eq_ok_iff.mpr he
  · obtain ⟨i, rfl, hi⟩ := he
    obtain ⟨v, heval, hvalue, htype⟩ := evalConstant_of_constant hs hglobals hearlier hi
    exact ⟨v, heval, htype, constantValue?_of_fewer hvalues hvalue⟩

/-- Where segments are looked at, tables and memories have been added after the globals. -/
theorem allocSpaces_eq_ok (h : Linking.allocSpaces m given s = .ok globals s') :
    ∃ s₁ ts ms, Linking.allocGlobals (given.filterMap External.global?).toArray m.globals s =
      .ok globals s₁ ∧ s' = (s₁.withTables ts).withMemories ms := by
  obtain ⟨inst, _, hinst, h⟩ := Move.bind_eq_ok_iff.mp h
  cases h
  obtain ⟨globals', s₁, hglobals, hinst⟩ := Move.bind_eq_ok_iff.mp hinst
  obtain ⟨tables, s₂, htables, hinst⟩ := Move.bind_eq_ok_iff.mp hinst
  obtain ⟨memories, s₃, hmemories, hinst⟩ := Move.bind_eq_ok_iff.mp hinst
  cases hinst
  obtain ⟨-, rfl⟩ := Linking.allocTables_eq_ok htables
  obtain ⟨-, rfl⟩ := Linking.allocMemories_eq_ok hmemories
  exact ⟨s₁, m.tables, m.memories, hglobals, rfl⟩

/-- The offset of a segment has a value where segments are looked at. -/
theorem evalConstant_of_allocSpaces (hs : s.WellFormed origins)
    (haccepts : s.acceptsModule m given = .ok ()) (h : Linking.allocSpaces m given s = .ok globals s')
    (he : e.IsConstant (.ofModule m) m.globalTypes.length type) :
    checkConstant (.ofModule m) globals.size type e = .ok () ∧
      ∃ v, s'.evalConstant globals e = .ok v ∧ v.type = type ∧
        constantValue? (s.initialValues m given) e = some v := by
  obtain ⟨s₁, ts, ms, halloc, rfl⟩ := allocSpaces_eq_ok h
  obtain ⟨globals', s₁', hbefore, hwf, htypes, hvalues⟩ :=
    allocGlobals_before hs haccepts (List.append_nil m.globals).symm
  cases halloc.symm.trans hbefore
  -- tables and memories make no difference
  have hsame : ((s₁.withTables ts).withMemories ms).evalConstant globals e =
      s₁.evalConstant globals e := rfl
  rw [hsame]
  exact evalConstant_of_before hwf htypes List.prefix_rfl hvalues he

/-- **Every constant expression has a value of its type when its turn comes**: the one that the globals of
    the module give it in the end. -/
theorem Evaluates.value (hs : s.WellFormed origins) (haccepts : s.acceptsModule m given = .ok ())
    (h : s.Evaluates m given globals s₁ e type) :
    checkConstant (.ofModule m) globals.size type e = .ok () ∧
      ∃ v, s₁.evalConstant globals e = .ok v ∧ v.type = type ∧
        constantValue? (s.initialValues m given) e = some v := by
  have hvalid : m.Valid := valid_of_validate (acceptsModule_eq_ok haccepts).1
  cases h with
  | @initial before after g _ _ hg h =>
    obtain ⟨globals', s₁', hbefore, hwf, htypes, hvalues⟩ := allocGlobals_before hs haccepts hg
    cases h.symm.trans hbefore
    refine evalConstant_of_before hwf htypes ⟨(g :: after).map Global.type, ?_⟩ hvalues ?_
    · rw [List.append_assoc, ← List.map_append, ← hg]
      rfl
    · rw [List.length_append, List.length_map]
      exact hvalid.globals before.length g (by rw [hg]; simp)
  | elem he h => exact evalConstant_of_allocSpaces hs haccepts h (hvalid.elems _ he).2.1
  | data hd h => exact evalConstant_of_allocSpaces hs haccepts h (hvalid.datas _ hd).2

/-- **The way leads through every initialiser.** Allocation of the globals goes on with the value that the
    initialiser has where those before it are there. -/
theorem allocGlobals_at (hs : s.WellFormed origins) (haccepts : s.acceptsModule m given = .ok ())
    {before after : List Global} {g : Global} (hg : m.globals = before ++ g :: after) :
    ∃ globals s₁ v,
      Linking.allocGlobals (given.filterMap External.global?).toArray before s = .ok globals s₁ ∧
      s₁.evalConstant globals g.initial = .ok v ∧
      Linking.allocGlobals (given.filterMap External.global?).toArray m.globals s =
        Linking.allocGlobals (globals.push s₁.globals.size) after
          { s₁ with globals := s₁.globals.push { type := g.type, value := v } } := by
  obtain ⟨globals, s₁, halloc, -⟩ := allocGlobals_before hs haccepts hg
  obtain ⟨-, v, heval, htype, -⟩ := (Evaluates.initial hg halloc).value hs haccepts
  refine ⟨globals, s₁, v, halloc, heval, ?_⟩
  have hconst : Linking.ofExcept (s₁.evalConstant globals g.initial) s₁ = .ok v s₁ := by
    rw [heval]
    rfl
  rw [hg, Linking.allocGlobals_append, Move.bind_of_ok halloc, Linking.allocGlobals, Move.get_bind,
    Move.bind_of_ok hconst, Move.bind_of_ok (Linking.add_of_ok (allocGlobal_of_type htype))]

/-- **The way leads to the segments**: all of them are resolved at the same point. -/
theorem allocSpaces_of_allocModule {segments : List Segment}
    (h : Linking.allocModule m given s = .ok (inst, segments) s') :
    ∃ s₁ elems datas, Linking.allocSpaces m given s = .ok inst.globals s₁ ∧
      m.elems.mapM (s₁.resolveElem inst) = .ok elems ∧
      m.datas.mapM (s₁.resolveData inst) = .ok datas ∧ segments = elems ++ datas := by
  obtain ⟨elems, datas, s₁, s₂, s₃, halloc, hsegments⟩ := allocModule_eq_ok h
  refine ⟨s₃, elems, datas, ?_, halloc.elems, halloc.datas, hsegments⟩
  unfold Linking.allocSpaces Linking.allocInst
  rw [bind_assoc, Move.bind_of_ok halloc.globals, bind_assoc, Move.bind_of_ok halloc.tables, bind_assoc,
    Move.bind_of_ok halloc.memories]
  rfl

/-- What the globals of a new instance hold before any code has run. -/
theorem valuesAt_of_link (hs : s.WellFormed origins) (h : s.link m given = (.ok inst, s')) :
    s'.valuesAt inst.globals = s.initialValues m given := by
  rcases link_cases s m given with ⟨e, herror⟩ | ⟨inst', segments, s₁, haccepts, halloc, hlink⟩
  · rw [herror] at h; cases h
  · rw [hlink] at h
    cases h
    rw [valuesAt_writeSegments]
    exact (adds_of_allocModule hs haccepts halloc).values

end Store

/-! ## The three agree -/

/-- **Constant expressions.** The checker accepts an expression exactly if it is one instruction, which
    is a constant of the type that is asked for or reads a visible immutable global of that type. Take any
    module that is accepted in a store that can be reached. Allocation comes to every initialiser and goes
    on with its value, and resolves the segments where everything but the functions is there. Each
    initialiser and each offset has, where allocation evaluates it, a value of its type, and may read
    exactly the globals that are there by then. In every function of the finished instance, before any
    code has run, the machine that executes the one instruction pushes the same value. -/
theorem constants_agree :
    (∀ c visible type e, checkConstant c visible type e = .ok () ↔ Expr.IsConstant c visible type e) ∧
    ∀ (s : Store) (m : Module) (given : List External),
      s.Reachable → s.acceptsModule m given = .ok () →
      (∀ before g after, m.globals = before ++ g :: after → ∃ globals s₁ v,
        Linking.allocGlobals (given.filterMap External.global?).toArray before s = .ok globals s₁ ∧
        s₁.evalConstant globals g.initial = .ok v ∧
        Linking.allocGlobals (given.filterMap External.global?).toArray m.globals s =
          Linking.allocGlobals (globals.push s₁.globals.size) after
            { s₁ with globals := s₁.globals.push { type := g.type, value := v } }) ∧
      (∀ inst segments s', Linking.allocModule m given s = .ok (inst, segments) s' →
        ∃ s₁ elems datas, Linking.allocSpaces m given s = .ok inst.globals s₁ ∧
          m.elems.mapM (s₁.resolveElem inst) = .ok elems ∧
          m.datas.mapM (s₁.resolveData inst) = .ok datas ∧ segments = elems ++ datas) ∧
      ∀ globals s₁ e type, s.Evaluates m given globals s₁ e type →
        checkConstant (.ofModule m) globals.size type e = .ok () ∧
        ∃ i v, e = [i] ∧ s₁.evalConstant globals e = .ok v ∧ v.type = type ∧
          ∀ inst s', s.link m given = (.ok inst, s') →
            ∀ (a : Activation) (k : Surroundings), a.store = s' → a.inst = inst →
              Exec.step i (a.on k) = .ok () ({ a with operands := v :: a.operands }.on k) := by
  refine ⟨fun c visible type e => checkConstant_eq_ok_iff, fun s m given hs haccepts => ?_⟩
  obtain ⟨origins, hwf⟩ := hs.wellFormed
  refine ⟨fun before g after hg => Store.allocGlobals_at hwf haccepts hg,
    fun inst segments s' h => Store.allocSpaces_of_allocModule h, fun globals s₁ e type h => ?_⟩
  obtain ⟨hchecked, v, heval, htype, hvalue⟩ := h.value hwf haccepts
  obtain ⟨i, rfl, -⟩ := checkConstant_eq_ok hchecked
  refine ⟨hchecked, i, v, rfl, heval, htype, ?_⟩
  rintro inst s' hlink a k rfl rfl
  rw [← Store.valuesAt_of_link hwf hlink] at hvalue
  exact Activation.step_of_constantValue? hvalue

/-- A module whose global is a copy of the one that it is given, and says where its segment begins. -/
def copied : Module where
  imports := [{ source := "host", name := "base", desc := .global ⟨.i32, .const⟩ }]
  tables := [⟨8, none⟩]
  globals := [{ type := ⟨.i32, .const⟩, initial := [.globalGet 0] }]
  elems := [{ table := 0, offset := [.globalGet 1], funcs := [] }]

/-- The instance of `copied` in a store with one global. -/
def copiedInst : ModuleInst where
  types := #[]
  funcs := #[]
  tables := #[0]
  memories := #[]
  globals := #[0, 1]
  exports := []

open Store in
/-- The segment of `copied` begins where the given global says, and so would a function of its instance
    have it. -/
theorem copied_constants : ∃ s₁ s', hosted.Reachable ∧
    hosted.acceptsModule copied [.global 0] = .ok () ∧
    hosted.Evaluates copied [.global 0] #[0, 1] s₁ [.globalGet 1] .i32 ∧
    s₁.evalConstant #[0, 1] [.globalGet 1] = .ok (.i32 7) ∧
    hosted.link copied [.global 0] = (.ok copiedInst, s') ∧
    ∀ (a : Activation) (k : Surroundings), a.store = s' → a.inst = copiedInst →
      Exec.step (.globalGet 1) (a.on k) = .ok () ({ a with operands := .i32 7 :: a.operands }.on k) := by
  have hreachable : hosted.Reachable := ⟨_, _, rfl⟩
  have haccepts : hosted.acceptsModule copied [.global 0] = .ok () := by with_unfolding_all rfl
  have halloc : ∃ t segments,
      Linking.allocModule copied [.global 0] hosted = .ok (copiedInst, segments) t :=
    ⟨_, _, by with_unfolding_all rfl⟩
  obtain ⟨t, segments, halloc⟩ := halloc
  have hlink := link_of_alloc_ok haccepts halloc
  have hspaces : ∃ s₁, Linking.allocSpaces copied [.global 0] hosted = .ok #[0, 1] s₁ ∧
      s₁.evalConstant #[0, 1] [.globalGet 1] = .ok (.i32 7) :=
    ⟨_, by with_unfolding_all rfl, by with_unfolding_all rfl⟩
  obtain ⟨s₁, hspaces, heval⟩ := hspaces
  have hevaluates : hosted.Evaluates copied [.global 0] #[0, 1] s₁ [.globalGet 1] .i32 :=
    .elem (e := { table := 0, offset := [.globalGet 1], funcs := [] }) List.mem_cons_self hspaces
  obtain ⟨-, i, v, hi, hvalue, -, hsteps⟩ :=
    (constants_agree.2 hosted copied [.global 0] hreachable haccepts).2.2 _ _ _ _ hevaluates
  cases hi
  cases heval.symm.trans hvalue
  exact ⟨s₁, _, hreachable, haccepts, hevaluates, heval, hlink, hsteps _ _ hlink⟩

end WasmCore
