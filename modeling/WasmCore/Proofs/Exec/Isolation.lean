import WasmCore.Proofs.Exec.Lockstep
import WasmCore.Proofs.Store.History

/-!
# `Exec.Isolation` — what a call can touch, and what it can see

A function has its own instance, and comes by further instances only through the functions it may call:
those that an instance it has refers to, and those in the tables of such an instance. All else in a store
is out of its reach: a call does not change it, and what becomes of the call does not depend on it. So
calls that have no memory and no global within the reach of both can be made in either order.

* `Store.Reach`: **the instances that a function can reach**;
* `Store.region`: the memories and globals of these instances;
* `Store.invoke_confined`: **a call changes nothing outside its region**;
* `Store.invoke_apart`: a call does not see what changes elsewhere;
* `Store.Independent`, `Store.Independent.invoke_comm`: **independent calls commute**.
-/

namespace WasmCore

namespace Store

/-! ## Reach -/

/-- The code of an instance has the function at hand: by its index, or in a slot of a table. -/
def Lists (s : Store) (i : ModuleInst) (b : FuncAddr) : Prop :=
  b ∈ i.funcs ∨ ∃ t ∈ i.tables, ∃ table, s.tables[t]? = some table ∧ some b ∈ table.slots

/-- **The instances that a function can reach**: its own, and with each of them those of the functions
    that are at hand there. -/
inductive Reach (s : Store) (f : FuncAddr) : ModuleInst → Prop
  | own {type : FuncType} {i : ModuleInst} {code : Func}
      (hf : s.funcs[f]? = some (.defined type i code)) : s.Reach f i
  | callee {i j : ModuleInst} {b : FuncAddr} {type : FuncType} {code : Func} (hi : s.Reach f i)
      (hb : s.Lists i b) (hj : s.funcs[b]? = some (.defined type j code)) : s.Reach f j

/-- The functions that are under way sooner or later in a call of a function. -/
def MayCall (s : Store) (f b : FuncAddr) : Prop := b = f ∨ ∃ i, s.Reach f i ∧ s.Lists i b

/-- A call of the function may come to call the host. -/
def ReachesHost (s : Store) (f : FuncAddr) : Prop :=
  ∃ b type run, s.MayCall f b ∧ s.funcs[b]? = some (.host type run)

theorem MayCall.reach {s : Store} {f b : FuncAddr} {type : FuncType} {i : ModuleInst} {code : Func}
    (hb : s.MayCall f b) (hi : s.funcs[b]? = some (.defined type i code)) : s.Reach f i := by
  rcases hb with rfl | ⟨j, hj, hb⟩
  · exact .own hi
  · exact .callee hj hb hi

/-- **What a call of a function can touch.** -/
def region (s : Store) (f : FuncAddr) : Region where
  memories a := ∃ i, s.Reach f i ∧ a ∈ i.memories
  globals a := ∃ i, s.Reach f i ∧ a ∈ i.globals
  hosts := s.ReachesHost f

theorem oneToOne_self (P : Nat → Prop) : OneToOne fun a a' => a = a' ∧ P a := by
  rintro a _ b _ ⟨rfl, -⟩ ⟨rfl, -⟩
  exact Iff.rfl

/-- All that a function can reach, paired with itself. -/
def reached (s : Store) (f : FuncAddr) : Pairing where
  funcs a a' := a = a' ∧ s.MayCall f a
  tables a a' := a = a' ∧ ∃ i, s.Reach f i ∧ a ∈ i.tables
  memories a a' := a = a' ∧ (s.region f).memories a
  globals a a' := a = a' ∧ (s.region f).globals a
  hosts := s.ReachesHost f
  tables_unique := oneToOne_self _
  memories_unique := oneToOne_self _
  globals_unique := oneToOne_self _

variable {s t : Store} {f : FuncAddr}

theorem Reach.alike {i : ModuleInst} (hi : s.Reach f i) : i.Alike (s.reached f) i where
  types := rfl
  funcs := .refl fun _ hb => ⟨rfl, .inr ⟨i, hi, .inl hb⟩⟩
  tables := .refl fun _ ht => ⟨rfl, i, hi, ht⟩
  memories := .refl fun _ ha => ⟨rfl, i, hi, ha⟩
  globals := .refl fun _ ha => ⟨rfl, i, hi, ha⟩

/-- What stands in the tables within reach may be called. -/
theorem Reach.table_alike {i : ModuleInst} (hi : s.Reach f i) {a : TableAddr} (ha : a ∈ i.tables)
    {table : Table} (htable : s.tables[a]? = some table) : table.Alike (s.reached f) table := by
  refine ⟨rfl, .refl fun slot hslot => ?_⟩
  cases slot with
  | none => exact .none
  | some b => exact .some ⟨rfl, .inr ⟨i, hi, .inr ⟨a, ha, table, htable, hslot⟩⟩⟩

/-! ## Two regions -/

/-- Regions that have nothing in common. -/
structure Region.Disjoint (r r' : Region) : Prop where
  memories : ∀ a, r.memories a → ¬ r'.memories a
  globals : ∀ a, r.globals a → ¬ r'.globals a
  hosts : r.hosts → ¬ r'.hosts

theorem Region.Disjoint.symm {r r' : Region} (h : r.Disjoint r') : r'.Disjoint r :=
  ⟨fun a h' hr => h.memories a hr h', fun a h' hr => h.globals a hr h', fun h' hr => h.hosts hr h'⟩

/-- The same in a region. -/
structure AgreeOn (r : Region) (s s' : Store) : Prop where
  memories : ∀ a : MemAddr, r.memories a → s'.memories[a]? = s.memories[a]?
  globals : ∀ a : GlobalAddr, r.globals a → s'.globals[a]? = s.globals[a]?
  hostCalls : r.hosts → s'.hostCalls = s.hostCalls

theorem ChangesOnly.mono {r r' : Region} (h : s.ChangesOnly r t)
    (hm : ∀ a, r.memories a → r'.memories a) (hg : ∀ a, r.globals a → r'.globals a)
    (hh : r.hosts → r'.hosts) : s.ChangesOnly r' t :=
  { h with
    memories := fun a ha => h.memories a fun hr => ha (hm a hr)
    globals := fun a ha => h.globals a fun hr => ha (hg a hr)
    hostCalls := fun ha => h.hostCalls fun hr => ha (hh hr) }

/-- **To a function, a store looks alike after changes out of its reach.** -/
theorem ChangesOnly.alike {r : Region} (h : s.ChangesOnly r t) (hr : r.Disjoint (s.region f)) :
    s.Alike (s.reached f) t where
  config := h.config
  funcs := by
    rintro b _ ⟨rfl, hb⟩
    rw [h.funcs]
    cases hfunc : s.funcs[b]? with
    | none => exact .missing b
    | some func =>
      cases func with
      | defined type i code => exact .defined type code (hb.reach hfunc).alike
      | host type run => exact .host b type run ⟨b, type, run, hb, hfunc⟩
  tables := by
    rintro a _ ⟨rfl, i, hi, ha⟩
    rw [h.tables]
    cases htable : s.tables[a]? with
    | none => exact .none
    | some table => exact .some (hi.table_alike ha htable)
  memories := by
    rintro a _ ⟨rfl, ha⟩
    exact h.memories a fun hra => hr.memories a hra ha
  globals := by
    rintro a _ ⟨rfl, ha⟩
    exact h.globals a fun hra => hr.globals a hra ha
  hostCalls hp := h.hostCalls fun hrh => hr.hosts hrh hp

/-! ## Confinement -/

/-- **A call does not see what changes elsewhere**: after changes out of its reach it comes to the same,
    leaves the same in its region, and changes nothing else. -/
theorem invoke_apart {r : Region} (h : s.ChangesOnly r t) (hr : r.Disjoint (s.region f)) (turns : Nat)
    (args : List Value) :
    (t.invoke turns f args).1 = (s.invoke turns f args).1 ∧
      AgreeOn (s.region f) (s.invoke turns f args).2 (t.invoke turns f args).2 ∧
      t.ChangesOnly (s.region f) (t.invoke turns f args).2 := by
  obtain ⟨hsame, htracks⟩ := (h.alike hr).invoke (a := f) ⟨rfl, .inl rfl⟩ turns args
  refine ⟨hsame, ?_, ?_⟩
  -- What is paired is paired with itself, so that pairs are the places of the region.
  · exact { memories := fun a ha => htracks.alike.memories ⟨rfl, ha⟩
            globals := fun a ha => htracks.alike.globals ⟨rfl, ha⟩
            hostCalls := htracks.alike.hostCalls }
  · refine htracks.changes.mono ?_ ?_ id
    · rintro a ⟨_, rfl, ha⟩
      exact ha
    · rintro a ⟨_, rfl, ha⟩
      exact ha

/-- A call changes only its own region. -/
theorem changesOnly_invoke (turns : Nat) (s : Store) (f : FuncAddr) (args : List Value) :
    s.ChangesOnly (s.region f) (s.invoke turns f args).2 := by
  -- Run the call beside itself, with nothing changed.
  let nothing : Region := ⟨fun _ => False, fun _ => False, False⟩
  have hr : nothing.Disjoint (s.region f) := ⟨fun _ h => h.elim, fun _ h => h.elim, fun h => h.elim⟩
  exact (invoke_apart (.refl s) hr turns args).2.2

/-- **Confinement.** Whatever becomes of a call, the configuration, the functions and the tables of the
    store stay as they are, and so do all memories and globals that no instance within reach of the
    function refers to. -/
theorem invoke_confined (turns : Nat) (s : Store) (f : FuncAddr) (args : List Value) :
    (s.invoke turns f args).2.config = s.config ∧
    (s.invoke turns f args).2.funcs = s.funcs ∧
    (s.invoke turns f args).2.tables = s.tables ∧
    (∀ a : MemAddr, (∀ i, s.Reach f i → a ∉ i.memories) →
      (s.invoke turns f args).2.memories[a]? = s.memories[a]?) ∧
    (∀ a : GlobalAddr, (∀ i, s.Reach f i → a ∉ i.globals) →
      (s.invoke turns f args).2.globals[a]? = s.globals[a]?) := by
  have h := changesOnly_invoke turns s f args
  refine ⟨h.config, h.funcs, h.tables, ?_, ?_⟩
  · intro a ha
    apply h.memories
    rintro ⟨i, hi, hmem⟩
    exact ha i hi hmem
  · intro a ha
    apply h.globals
    rintro ⟨i, hi, hmem⟩
    exact ha i hi hmem

/-! ## Independence -/

/-- **Two functions are independent** if they reach no memory and no global in common, and neither
    reaches the host. -/
structure Independent (s : Store) (f g : FuncAddr) : Prop where
  memories : ∀ i j, s.Reach f i → s.Reach g j → ∀ a ∈ i.memories, a ∉ j.memories
  globals : ∀ i j, s.Reach f i → s.Reach g j → ∀ a ∈ i.globals, a ∉ j.globals
  left : ¬ s.ReachesHost f
  right : ¬ s.ReachesHost g

theorem Independent.disjoint {g : FuncAddr} (h : s.Independent f g) :
    (s.region f).Disjoint (s.region g) where
  memories := by
    rintro a ⟨i, hi, ha⟩ ⟨j, hj, ha'⟩
    exact h.memories i j hi hj a ha ha'
  globals := by
    rintro a ⟨i, hi, ha⟩ ⟨j, hj, ha'⟩
    exact h.globals i j hi hj a ha ha'
  hosts hf := absurd hf h.left

/-- One place after two changes in either order. Each change touches it only if it is its own place, and
    does there what it does without the other. -/
theorem eq_of_apart {α : Type} {P Q : Prop} {start first second firstSecond secondFirst : α}
    (hPQ : P → ¬ Q) (hfirst : ¬ P → first = start) (hsecond : ¬ Q → second = start)
    (hthen : ¬ Q → firstSecond = first) (hthen' : ¬ P → secondFirst = second)
    (hsame : Q → firstSecond = second) (hsame' : P → secondFirst = first) :
    firstSecond = secondFirst := by
  by_cases hP : P
  · rw [hthen (hPQ hP), hsame' hP]
  · by_cases hQ : Q
    · rw [hsame hQ, hthen' hP]
    · rw [hthen hQ, hthen' hP, hfirst hP, hsecond hQ]

/-- Changes in two regions that are apart lead to the same store in either order. -/
theorem eq_of_regions_apart {r r' : Region} {s' t' u u' : Store} (hr : r.Disjoint r')
    (hs : s.ChangesOnly r s') (ht : s.ChangesOnly r' t') (hu : s'.ChangesOnly r' u)
    (hu' : t'.ChangesOnly r u') (hsame : AgreeOn r' t' u) (hsame' : AgreeOn r s' u') : u = u' := by
  have hmemories : u.memories = u'.memories := Array.ext_getElem? fun a =>
    eq_of_apart (hr.memories a) (hs.memories a) (ht.memories a) (hu.memories a) (hu'.memories a)
      (hsame.memories a) (hsame'.memories a)
  have hglobals : u.globals = u'.globals := Array.ext_getElem? fun a =>
    eq_of_apart (hr.globals a) (hs.globals a) (ht.globals a) (hu.globals a) (hu'.globals a)
      (hsame.globals a) (hsame'.globals a)
  have hhosts : u.hostCalls = u'.hostCalls :=
    eq_of_apart hr.hosts hs.hostCalls ht.hostCalls hu.hostCalls hu'.hostCalls hsame.hostCalls
      hsame'.hostCalls
  have hconfig : u.config = u'.config := by rw [hu.config, hs.config, hu'.config, ht.config]
  have hfuncs : u.funcs = u'.funcs := by rw [hu.funcs, hs.funcs, hu'.funcs, ht.funcs]
  have htables : u.tables = u'.tables := by rw [hu.tables, hs.tables, hu'.tables, ht.tables]
  cases u
  cases u'
  cases hconfig
  cases hfuncs
  cases htables
  cases hmemories
  cases hglobals
  cases hhosts
  rfl

/-- **Independent calls commute.** Each comes to the same whether it is made before or after the other,
    also if it traps, runs out of fuel or is cut off; and the store is the same after both. -/
theorem Independent.invoke_comm {g : FuncAddr} (h : s.Independent f g) (turns turns' : Nat)
    (args args' : List Value) :
    ((s.invoke turns' g args').2.invoke turns f args).1 = (s.invoke turns f args).1 ∧
    ((s.invoke turns f args).2.invoke turns' g args').1 = (s.invoke turns' g args').1 ∧
    ((s.invoke turns f args).2.invoke turns' g args').2 =
      ((s.invoke turns' g args').2.invoke turns f args).2 := by
  have hf := changesOnly_invoke turns s f args
  have hg := changesOnly_invoke turns' s g args'
  obtain ⟨houtcome, hsame, hchanges⟩ := invoke_apart hg h.disjoint.symm turns args
  obtain ⟨houtcome', hsame', hchanges'⟩ := invoke_apart hf h.disjoint turns' args'
  refine ⟨houtcome, houtcome', ?_⟩
  -- Place by place: each is touched by one of the calls at most.
  exact eq_of_regions_apart h.disjoint hf hg hchanges' hchanges hsame' hsame

/-! ### Two counters -/

/-- A module whose function adds one to a global of its own and gives its new value. -/
def ticker : Module where
  types := [⟨[], [.i32]⟩]
  globals := [{ type := ⟨.i32, .var⟩, initial := [.const (.i32 0)] }]
  funcs :=
    [{ typeIdx := 0, locals := []
       body := [.globalGet 0, .const (.i32 1), .numeric (.intBinary .w32 .add), .globalSet 0,
         .globalGet 0] }]

/-- The instance of `ticker` whose function and global have an address. -/
def tickerInst (a : Nat) : ModuleInst where
  types := #[⟨[], [.i32]⟩]
  funcs := #[a]
  tables := #[]
  memories := #[]
  globals := #[a]

/-- The store with two instances of `ticker`. -/
def twoTickers : Store :=
  (withConfig {}).performAll [.instantiate 0 ticker [], .instantiate 0 ticker []]

theorem funcs_twoTickers :
    twoTickers.funcs = #[.defined ⟨[], [.i32]⟩ (tickerInst 0) (ticker.funcs.get ⟨0, by decide⟩),
      .defined ⟨[], [.i32]⟩ (tickerInst 1) (ticker.funcs.get ⟨0, by decide⟩)] := by
  with_unfolding_all rfl

theorem inst_twoTickers {a : FuncAddr} {type : FuncType} {i : ModuleInst} {code : Func}
    (h : twoTickers.funcs[a]? = some (.defined type i code)) : i = tickerInst a := by
  rw [funcs_twoTickers] at h
  match a with
  | 0 => cases h; rfl
  | 1 => cases h; rfl
  | a + 2 => cases h

theorem reach_twoTickers {a : FuncAddr} {i : ModuleInst} (h : twoTickers.Reach a i) :
    i = tickerInst a := by
  induction h with
  | own hf => exact inst_twoTickers hf
  | callee _ hb hj ih =>
    subst ih
    rcases hb with hb | ⟨t, ht, -⟩
    · cases Array.mem_singleton.mp hb
      exact inst_twoTickers hj
    · exact absurd ht (Array.not_mem_empty t)

theorem not_reachesHost_twoTickers (a : FuncAddr) : ¬ twoTickers.ReachesHost a := by
  rintro ⟨b, type, run, -, hb⟩
  rw [funcs_twoTickers] at hb
  match b with
  | 0 => cases hb
  | 1 => cases hb
  | b + 2 => cases hb

theorem independent_twoTickers : twoTickers.Independent 0 1 where
  memories := by
    intro i j hi _ a ha
    rw [reach_twoTickers hi] at ha
    exact absurd ha (Array.not_mem_empty a)
  globals := by
    intro i j hi hj a ha ha'
    rw [reach_twoTickers hi] at ha
    rw [reach_twoTickers hj] at ha'
    have hzero : a = 0 := Array.mem_singleton.mp ha
    have hone : a = 1 := Array.mem_singleton.mp ha'
    exact absurd (hzero.symm.trans hone) (by decide)
  left := not_reachesHost_twoTickers 0
  right := not_reachesHost_twoTickers 1

/-- Two counters count on their own, in whatever order. -/
theorem twoTickers_comm :
    twoTickers.Reachable ∧ (twoTickers.invoke 7 0 []).1 = .done [.i32 1] ∧
    ((twoTickers.invoke 7 1 []).2.invoke 7 0 []).1 = (twoTickers.invoke 7 0 []).1 ∧
    ((twoTickers.invoke 7 0 []).2.invoke 7 1 []).1 = (twoTickers.invoke 7 1 []).1 ∧
    ((twoTickers.invoke 7 0 []).2.invoke 7 1 []).2 =
      ((twoTickers.invoke 7 1 []).2.invoke 7 0 []).2 :=
  ⟨⟨_, _, rfl⟩, by decide +kernel, independent_twoTickers.invoke_comm 7 7 [] []⟩

end Store

end WasmCore
