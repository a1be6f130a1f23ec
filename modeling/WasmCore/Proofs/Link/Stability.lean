import WasmCore.Proofs.Link.Limits
import WasmCore.Proofs.Link.Matching
import WasmCore.Proofs.Link.Permanence

/-!
# `Link.Stability` — what could be linked once can be linked again

Whether something may stand for an import is a matter of its type, and the type of a table or a memory
tells its current size. Types change while a store is in use, but only in one direction: what comes later
may stand where what was there before was asked for. So imports that were matched once are matched ever
after, whatever has happened to the store in the meantime.

* `ExternType.standsFor_trans`: the order of types;
* `Store.Satisfies`, `matchImports_eq_ok_iff`: **imports are matched exactly if each is satisfied**;
* `Extends.standsFor`: a later type may stand for an earlier one;
* `Reachable.matchImports_performAll`: **matching is stable.**
-/

namespace WasmCore

/-! ## The order of types -/

theorem Limits.Matches.refl (l : Limits) : l.Matches l :=
  ⟨UInt32.le_refl _, fun bound h => ⟨bound, h, UInt32.le_refl _⟩⟩

theorem Limits.Matches.trans {a b c : Limits} (hab : a.Matches b) (hbc : b.Matches c) : a.Matches c := by
  rw [Limits.Matches, ← Limits.satisfies_iff] at *
  exact Limits.satisfies_trans hab hbc

/-- Types of different kinds never stand for each other, and within each kind the order is transitive. -/
theorem ExternType.standsFor_trans {a b c : ExternType} (hab : a.standsFor b = true)
    (hbc : b.standsFor c = true) : a.standsFor c = true := by
  cases a <;> cases b <;> simp only [standsFor, decide_eq_true_eq, Bool.false_eq_true] at hab
  all_goals
    cases c <;> simp only [standsFor, decide_eq_true_eq, Bool.false_eq_true] at hbc ⊢
    exact hab.trans hbc

namespace Store

variable {s s' : Store} {m : Module} {given : List External}

/-! ## What it takes to be matched -/

/-- **What is given satisfies an import**: it is there, and its type may stand for the one that is asked
    for. -/
def Satisfies (s : Store) (m : Module) (e : External) (desc : ImportDesc) : Prop :=
  ∃ found asked, s.externType? e = some found ∧ m.importType? desc = some asked ∧
    found.standsFor asked = true

theorem importFault?_eq_ok_none_iff {desc : ImportDesc} {e : External} :
    s.importFault? m.types.toArray desc e = .ok none ↔ s.Satisfies m e desc := by
  unfold Satisfies
  cases desc with
  | func t =>
    cases e with
    | func a =>
      rw [importFault?, externType?, Module.importType?, List.getElem?_toArray]
      cases m.types[t.toNat]? with
      | none => simp
      | some asked =>
        cases s.funcType? a with
        | none => simp
        | some found => simp [ExternType.standsFor]
    | _ => simp [importFault?, externType?, Module.importType?, ExternType.standsFor]
  | table asked =>
    cases e with
    | table a =>
      rw [importFault?, externType?, Module.importType?]
      cases s.tables[a]? with
      | none => simp
      | some t => simp [ExternType.standsFor, satisfies_eq]
    | _ => simp [importFault?, externType?, Module.importType?, ExternType.standsFor]
  | memory asked =>
    cases e with
    | memory a =>
      rw [importFault?, externType?, Module.importType?]
      cases s.memories[a]? with
      | none => simp
      | some t => simp [ExternType.standsFor, satisfies_eq]
    | _ => simp [importFault?, externType?, Module.importType?, ExternType.standsFor]
  | global asked =>
    cases e with
    | global a =>
      rw [importFault?, externType?, Module.importType?]
      cases s.globals[a]? with
      | none => simp
      | some g => simp [ExternType.standsFor]
    | _ => simp [importFault?, externType?, Module.importType?, ExternType.standsFor]

theorem matchImportsFrom_eq_ok_iff {is : List Import} (index : Nat)
    (hlength : is.length = given.length) :
    s.matchImportsFrom m.types.toArray index is given = .ok () ↔
      List.Forall₂ (fun e (i : Import) => s.Satisfies m e i.desc) given is := by
  induction is generalizing index given with
  | nil =>
    cases given with
    | nil => exact ⟨fun _ => .nil, fun _ => rfl⟩
    | cons e given => cases hlength
  | cons i is ih =>
    cases given with
    | nil => cases hlength
    | cons e given =>
      rw [List.forall₂_cons, ← ih (index + 1) (Nat.succ.inj hlength), matchImportsFrom,
        bind_eq_ok_iff, ← importFault?_eq_ok_none_iff]
      constructor
      · rintro ⟨fault, hfault, hrest⟩
        cases fault with
        | some fault => cases hrest
        | none => exact ⟨hfault, hrest⟩
      · rintro ⟨hfault, hrest⟩
        exact ⟨none, hfault, hrest⟩

/-- **Imports are matched exactly if each of them is satisfied** by what is given for it. -/
theorem matchImports_eq_ok_iff : s.matchImports m given = .ok () ↔
    List.Forall₂ (fun e (i : Import) => s.Satisfies m e i.desc) given m.imports := by
  unfold matchImports
  by_cases hlength : m.imports.length = given.length
  · rw [if_neg (not_not.mpr hlength)]
    exact matchImportsFrom_eq_ok_iff 0 hlength
  · rw [if_pos hlength]
    exact ⟨nofun, fun h => absurd h.length_eq.symm hlength⟩

/-! ## Later types -/

theorem in_of_externType? {e : External} {t : ExternType} (h : s.externType? e = some t) : e.In s := by
  cases e with
  | func a =>
    obtain ⟨type, htype, -⟩ := Option.map_eq_some_iff.mp h
    obtain ⟨f, hf, -⟩ := Option.map_eq_some_iff.mp htype
    exact (Array.getElem?_eq_some_iff.mp hf).1
  | table a =>
    obtain ⟨t, ht, -⟩ := Option.map_eq_some_iff.mp h
    exact (Array.getElem?_eq_some_iff.mp ht).1
  | memory a =>
    obtain ⟨m, hm, -⟩ := Option.map_eq_some_iff.mp h
    exact (Array.getElem?_eq_some_iff.mp hm).1
  | global a =>
    obtain ⟨g, hg, -⟩ := Option.map_eq_some_iff.mp h
    exact (Array.getElem?_eq_some_iff.mp hg).1

end Store

/-- **A memory that has grown** may stand where the memory before was asked for, as long as its number of
    pages is one that its type can tell. -/
theorem Memory.GrownTo.matches {m m' : Memory} (h : m.GrownTo m') (hpages : m'.pages < UInt32.size) :
    m'.type.Matches m.type := by
  constructor
  · have hsize : m.pages < UInt32.size := Nat.lt_of_le_of_lt h.pages hpages
    rw [Memory.type, Memory.type, UInt32.le_iff_toNat_le, UInt32.toNat_ofNat_of_lt' hsize,
      UInt32.toNat_ofNat_of_lt' hpages]
    exact h.pages
  · intro bound hbound
    exact ⟨bound, h.max.trans hbound, UInt32.le_refl _⟩

namespace Store

variable {s s' : Store} {m : Module} {given : List External}

/-- **A later type may stand for an earlier one.** -/
theorem Extends.standsFor (h : s.Extends s') (hpages : ∀ m ∈ s'.memories, m.pages < UInt32.size)
    {e : External} {t : ExternType} (ht : s.externType? e = some t) :
    ∃ t', s'.externType? e = some t' ∧ t'.standsFor t = true := by
  have hkept := (in_of_externType? ht).keepsType h
  cases e with
  | func a =>
    obtain ⟨type, htype, htype'⟩ := hkept
    rw [externType?, htype] at ht
    cases ht
    exact ⟨.func type, by rw [externType?, htype']; rfl, decide_eq_true rfl⟩
  | table a =>
    obtain ⟨table, table', htable, htable', hsame⟩ := hkept
    rw [externType?, htable] at ht
    cases ht
    refine ⟨.table table'.type, by rw [externType?, htable']; rfl, decide_eq_true ?_⟩
    rw [hsame]
    exact .refl _
  | memory a =>
    obtain ⟨memory, memory', hmemory, hmemory', hgrown⟩ := hkept
    rw [externType?, hmemory] at ht
    cases ht
    refine ⟨.memory memory'.type, by rw [externType?, hmemory']; rfl, decide_eq_true ?_⟩
    exact hgrown.matches (hpages memory' (Array.mem_of_getElem? hmemory'))
  | global a =>
    obtain ⟨global, global', hglobal, hglobal', hsame⟩ := hkept
    rw [externType?, hglobal] at ht
    cases ht
    exact ⟨.global global'.type, by rw [externType?, hglobal']; rfl, decide_eq_true hsame⟩

/-- What satisfies an import goes on to do so. -/
theorem Satisfies.mono (h : s.Extends s') (hpages : ∀ m ∈ s'.memories, m.pages < UInt32.size)
    {e : External} {desc : ImportDesc} (he : s.Satisfies m e desc) : s'.Satisfies m e desc := by
  obtain ⟨found, asked, hfound, hasked, hstands⟩ := he
  obtain ⟨later, hlater, hlater'⟩ := h.standsFor hpages hfound
  exact ⟨later, asked, hlater, hasked, ExternType.standsFor_trans hlater' hstands⟩

/-- The number of pages of a memory is one that its type can tell. -/
theorem Reachable.pages_lt (hs : s.Reachable) : ∀ m ∈ s.memories, m.pages < UInt32.size := by
  obtain ⟨config, ops, rfl⟩ := hs
  intro m hm
  exact Nat.lt_of_le_of_lt ((every_cap config ops).memories m hm) (UInt32.toNat_lt_size _)

/-- **Matching is stable.** Take any store that can be reached, and whatever is done to it after that, be
    it successful, failing or trapping. Imports that were matched before are matched afterwards, by the
    same. -/
theorem Reachable.matchImports_performAll (hs : s.Reachable) (h : s.matchImports m given = .ok ())
    (ops : List Operation) : (s.performAll ops).matchImports m given = .ok () := by
  obtain ⟨origins, hwf⟩ := hs.wellFormed
  have hextends := hwf.extends_performAll ops
  have hpages := (hs.performAll ops).pages_lt
  rw [matchImports_eq_ok_iff] at h ⊢
  exact h.imp fun e i he => he.mono hextends hpages

/-- A module that imports a memory of at least one page, and of at most three. -/
def pageUser : Module where
  imports := [{ source := "host", name := "memory", desc := .memory ⟨1, some 3⟩ }]

/-- A store with a memory of one page, which may grow to three. -/
def onePage : Store :=
  (withConfig { maxMemoryPages := 70000 }).performAll [.allocMemory ⟨1, some 3⟩]

/-- The memory satisfies the import before another module grows it, and after that, when it has two
    pages. -/
theorem onePage_matched :
    let ops := [.instantiate 0 grower [.memory 0], .invoke 4 0 [.i32 1]]
    onePage.matchImports pageUser [.memory 0] = .ok () ∧
    (onePage.performAll ops).memories = #[(Memory.create ⟨1, some 3⟩).extend 1] ∧
    (onePage.performAll ops).matchImports pageUser [.memory 0] = .ok () := by
  intro ops
  have hmatched : onePage.matchImports pageUser [.memory 0] = .ok () := by with_unfolding_all rfl
  have hcan : (Memory.create ⟨1, some 3⟩).canGrow 1 70000 = true := by
    rw [Memory.canGrow, Memory.pages_create]
    decide
  have hreachable : onePage.Reachable := ⟨_, _, rfl⟩
  have hstore : onePage = { config := { maxMemoryPages := 70000 }, memories := #[.create ⟨1, some 3⟩] } :=
    rfl
  refine ⟨hmatched, ?_, hreachable.matchImports_performAll hmatched ops⟩
  rw [performAll_cons, performAll_cons, performAll_nil, hstore, instantiate_grower, invoke_grower hcan]
  rfl

end Store

end WasmCore
