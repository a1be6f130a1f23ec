import WasmCore.Proofs.Exec.Access
import WasmCore.Proofs.Link.IndexSpaces
import WasmCore.Proofs.Link.Limits

/-!
# `Link.Growth` — a memory that a module defines, and how it grows

How many pages a memory may have is decided three times: by the limits that its module declares, by the
configuration when the memory is created, and by both of them whenever it is to grow. A memory that a
checked module defines starts within its bound, and only growing changes its size, so that it stays
there, whoever holds the memory and whatever is done to it. Hence growing by nothing always works, and
the number of pages is small enough for a word to hold it and for no one to mistake it for a failure.

* `Store.Respected`, `Respected.performAll`: relations between stores that every operation respects;
* `Memory.GrownWithin`, `respected_growsWithin`: **a memory within its bound stays there**;
* `Memory.size_data`, `Memory.data_extend`: the bytes of a memory, and of one that has grown;
* `Store.Grew`, `Activation.memoryGrow_on`, `Activation.memorySize_on`: the two instructions;
* `Store.memory_growth`: **a memory that a module defines**, in every history.
-/

namespace WasmCore

/-! ## What every operation respects -/

/-- **A relation between stores that every operation respects**, since everything that operations are
    made up of does. -/
structure Store.Respected (R : Store → Store → Prop) : Prop where
  effect : ∀ {s s' : Store}, s.Effect s' → R s s'
  setGlobal : ∀ (s : Store) (a : GlobalAddr) (v : Value),
    R s { s with globals := s.globals.modify a fun global => { global with value := v } }
  fillTable : ∀ (s : Store) (a : TableAddr) (start : Nat) (funcs : List FuncAddr),
    R s (s.fillTable a start funcs)
  appended : ∀ {s s' : Store}, s.Appended s' → R s s'

namespace Store.Respected

variable {R : Store → Store → Prop} [IsPreorder Store R] {s : Store}

theorem invoke (hR : Respected R) (turns : Nat) (s : Store) (a : FuncAddr) (args : List Value) :
    R s (s.invoke turns a args).2 :=
  keeps_invoke hR.effect hR.setGlobal turns s a args

theorem writeSegments (hR : Respected R) (s : Store) (gs : List Segment) :
    R s (s.writeSegments gs).2 := by
  refine rel_writeSegments (fun s g => ?_) s gs
  cases g with
  | elem a offset funcs => exact hR.fillTable s a offset funcs
  | data a offset bytes => exact hR.effect (.write a offset bytes)

theorem runStart (hR : Respected R) (turns : Nat) (s : Store) (inst : ModuleInst)
    (start : Option FuncIdx) : R s (s.runStart turns inst start).2 := by
  cases start with
  | none => exact refl_of R s
  | some f =>
    simp only [Store.runStart]
    cases inst.funcAddr f with
    | error t => exact refl_of R s
    | ok a =>
      have hcalled := hR.invoke turns s a []
      dsimp only
      generalize s.invoke turns a [] = outcome at hcalled ⊢
      obtain ⟨outcome, s'⟩ := outcome
      cases outcome with
      | done vs => exact hcalled
      | failed t => exact hcalled
      | unfinished => exact hcalled

theorem instantiate (hR : Respected R) (turns : Nat) (s : Store) (m : Module) (given : List External) :
    R s (s.instantiate turns m given).2 := by
  rcases link_cases s m given with ⟨e, hlink⟩ | ⟨inst, segments, s₁, haccepts, halloc, hlink⟩
  · rw [instantiate_of_error turns hlink]
    exact refl_of R s
  · have happended := appended_allocModule m given s
    rw [halloc] at happended
    rw [(instantiate_of_ok turns hlink).1]
    refine trans_of R (hR.appended happended) (trans_of R (hR.writeSegments s₁ segments) ?_)
    exact hR.runStart turns _ inst m.start

theorem afterAlloc (hR : Respected R) {α : Type} {r : Except LinkError (α × Store)}
    (h : ∀ a s', r = .ok (a, s') → s.Appended s') : R s (s.afterAlloc r) := by
  cases r with
  | error e => exact refl_of R s
  | ok p => exact hR.appended (h p.1 p.2 rfl)

/-- **One operation.** -/
theorem perform (hR : Respected R) (s : Store) (op : Operation) : R s (s.perform op) := by
  cases op with
  | allocHost type run => exact hR.appended (appended_pushFunc s _)
  | allocTable t => exact hR.afterAlloc fun _ _ h => appended_allocTable h
  | allocMemory t => exact hR.afterAlloc fun _ _ h => appended_allocMemory h
  | allocGlobal type value => exact hR.afterAlloc fun _ _ h => appended_allocGlobal h
  | instantiate turns m given => exact hR.instantiate turns s m given
  | invoke turns a args => exact hR.invoke turns s a args
  | writeMemory a start bytes =>
    show R s (s.writeMemory a start bytes).2
    rw [writeMemory_eq_ite]
    split
    · exact hR.effect (.write a start bytes)
    · exact refl_of R s

/-- **Every history.** -/
theorem performAll (hR : Respected R) (s : Store) (ops : List Operation) : R s (s.performAll ops) := by
  induction ops generalizing s with
  | nil => exact refl_of R s
  | cons op ops ih => exact trans_of R (hR.perform s op) (ih _)

end Store.Respected

/-! ## Growing within a bound -/

/-- The memory may have been written to and grown, under the same maximum, and not past what it may have
    under a cap. -/
structure Memory.GrownWithin (cap : UInt32) (m m' : Memory) : Prop where
  max : m'.max = m.max
  least : m.pages ≤ m'.pages
  most : m.pages ≤ m.bound cap → m'.pages ≤ m.bound cap

instance (cap : UInt32) : IsPreorder Memory (Memory.GrownWithin cap) where
  refl _ := ⟨rfl, Nat.le_refl _, id⟩
  trans m m' _ h h' := by
    have hbound : m'.bound cap = m.bound cap := by rw [Memory.bound, Memory.bound, h.max]
    refine ⟨h'.max.trans h.max, Nat.le_trans h.least h'.least, fun hm => ?_⟩
    rw [← hbound]
    exact h'.most (by rw [hbound]; exact h.most hm)

theorem Memory.grownWithin_overwrite (m : Memory) (cap : UInt32) (start : Nat) (bytes : List UInt8) :
    m.GrownWithin cap (m.overwrite start bytes) where
  max := max_overwrite m start bytes
  least := Nat.le_of_eq (pages_overwrite m start bytes).symm
  most h := by rwa [pages_overwrite]

theorem Memory.grownWithin_extend {m : Memory} {cap : UInt32} {delta : Nat}
    (h : m.canGrow delta cap = true) : m.GrownWithin cap (m.extend delta) where
  max := rfl
  least := by rw [pages_extend]; exact Nat.le_add_right _ _
  most _ := by rw [pages_extend]; exact of_decide_eq_true h

/-- The configuration is the same, and its memories have grown within their bounds. -/
structure Store.GrowsWithin (s s' : Store) : Prop where
  config : s'.config = s.config
  memories : Kept (Memory.GrownWithin s.config.maxMemoryPages) s.memories s'.memories

namespace Store

instance : IsPreorder Store GrowsWithin where
  refl _ := ⟨rfl, .refl _⟩
  trans s s' _ h h' := by
    refine ⟨h'.config.trans h.config, h.memories.trans ?_⟩
    rw [← h.config]
    exact h'.memories

/-- **A memory within its bound stays there**, whatever is done. -/
theorem respected_growsWithin : Respected GrowsWithin where
  effect := by
    intro s s' h
    cases h with
    | hostCall c => exact ⟨rfl, .refl _⟩
    | write a start bytes =>
      exact ⟨rfl, .modify a fun m _ => m.grownWithin_overwrite _ start bytes⟩
    | @grow a memory delta ha hdelta =>
      refine ⟨rfl, .modify a fun m hm => ?_⟩
      cases ha.symm.trans hm
      exact Memory.grownWithin_extend hdelta
  setGlobal _ _ _ := ⟨rfl, .refl _⟩
  fillTable _ _ _ _ := ⟨rfl, .refl _⟩
  appended h := ⟨h.config, .of_appended h.memories⟩

end Store

/-! ## The bytes of a memory -/

namespace Memory

/-- **A memory has as many bytes as its pages hold.** -/
theorem size_data (m : Memory) : m.data.size = pageSize * m.pages := by
  rw [data, Array.size_flatMap]
  simp only [Vector.size_toArray, Array.map_const']
  rw [Array.sum_replicate_nat, Nat.mul_comm, pages]

/-- **What has grown** has the bytes that it had, and zeros after them. -/
theorem data_extend (m : Memory) (delta : Nat) :
    (m.extend delta).data = m.data ++ Array.replicate (pageSize * delta) 0 := by
  have hzeros : Page.zero.toArray = Array.replicate pageSize 0 := rfl
  rw [data, extend, Array.flatMap_append, Array.flatMap_replicate, hzeros,
    Array.flatten_replicate_replicate, Nat.mul_comm, data]

end Memory

/-! ## The two instructions -/

/-- **The memory at an address has grown** by a number of pages of zeros, and nothing else has changed. -/
structure Store.Grew (s : Store) (addr : MemAddr) (delta : Nat) (s' : Store) : Prop where
  memory : ∃ m m', s.memories[addr]? = some m ∧ s'.memories[addr]? = some m' ∧ m'.max = m.max ∧
    m'.pages = m.pages + delta ∧ m'.data = m.data ++ Array.replicate (pageSize * delta) 0
  others : ∀ addr', addr' ≠ addr → s'.memories[addr']? = s.memories[addr']?
  rest : { s' with memories := s.memories } = s

theorem Store.grew_extend {s : Store} {addr : MemAddr} {m : Memory} (hm : s.memories[addr]? = some m)
    (delta : Nat) : s.Grew addr delta { s with memories := s.memories.modify addr (·.extend delta) } where
  memory := by
    refine ⟨m, m.extend delta, hm, ?_, rfl, m.pages_extend delta, m.data_extend delta⟩
    rw [Array.getElem?_modify, if_pos rfl, hm, Option.map_some]
  others := by
    intro addr' hother
    rw [Array.getElem?_modify, if_neg (Ne.symm hother)]
  rest := rfl

/-- **How code finds a memory that has at most a number of pages.** Code of any function whose memory it
    is may ask for its size and may grow it. -/
structure Store.GrowsUpTo (s : Store) (addr : MemAddr) (memory : Memory) (bound : Nat) : Prop where
  /-- Growing by a number of pages gives the old number exactly if the new one, which does not wrap
      around, is within the bound; the memory then has the new pages, and otherwise all is as it was.
      Growing by nothing works. -/
  grow : ∀ (a : Activation) (k : Surroundings) (delta : UInt32) (below : List Value),
    a.store = s → a.Uses addr memory → a.operands = .i32 delta :: below →
    ∃ r s', Exec.step .memoryGrow (a.on k) =
        .ok () ({ a with store := s', operands := .i32 r :: below }.on k) ∧
      (r.toNat = memory.pages ↔ memory.pages + delta.toNat ≤ bound) ∧
      (memory.pages + delta.toNat ≤ bound → s.Grew addr delta.toNat s') ∧
      (bound < memory.pages + delta.toNat → r = -1 ∧ s' = s) ∧
      (delta = 0 → r.toNat = memory.pages)
  /-- The size is the number of pages. -/
  size : ∀ (a : Activation) (k : Surroundings), a.store = s → a.Uses addr memory →
    ∃ r, Exec.step .memorySize (a.on k) = .ok () ({ a with operands := .i32 r :: a.operands }.on k) ∧
      r.toNat = memory.pages

/-- A number of pages that 32 bits can address is not taken for a failure. -/
theorem toNat_ofNat_pages {n : Nat} (hn : n ≤ maxMemoryPages.toNat) : (UInt32.ofNat n).toNat = n := by
  rw [UInt32.toNat_ofNat']
  exact Nat.mod_eq_of_lt (Nat.lt_of_le_of_lt hn (by decide))

/-- **A memory within its bound**, if 32 bits can address that. -/
theorem Store.growsUpTo_of_le {s : Store} {addr : MemAddr} {memory : Memory}
    (hpages : memory.pages ≤ memory.bound s.config.maxMemoryPages)
    (hbound : memory.bound s.config.maxMemoryPages ≤ maxMemoryPages.toNat) :
    s.GrowsUpTo addr memory (memory.bound s.config.maxMemoryPages) where
  grow := by
    rintro a k delta below rfl huses hops
    have hold := toNat_ofNat_pages (Nat.le_trans hpages hbound)
    have hstep := Activation.step_memoryGrow_eq (k := k) hops huses.memAddr huses.memory
    by_cases hgrow : memory.pages + delta.toNat ≤ memory.bound a.store.config.maxMemoryPages
    · have hcan : memory.canGrow delta.toNat a.store.config.maxMemoryPages = true :=
        decide_eq_true hgrow
      rw [if_pos hcan] at hstep
      refine ⟨_, _, hstep, ⟨fun _ => hgrow, fun _ => hold⟩, fun _ => grew_extend huses.memory _,
        fun hpast => absurd hgrow (Nat.not_le_of_lt hpast), fun _ => hold⟩
    · have hcannot : ¬ memory.canGrow delta.toNat a.store.config.maxMemoryPages = true := fun h =>
        hgrow (of_decide_eq_true h)
      have hfailed : (-1 : UInt32).toNat ≠ memory.pages := by
        have hlarge : maxMemoryPages.toNat < (-1 : UInt32).toNat := by decide
        omega
      rw [if_neg hcannot] at hstep
      refine ⟨_, _, hstep, ⟨fun h => absurd h hfailed, fun h => absurd h hgrow⟩,
        fun h => absurd h hgrow, fun _ => ⟨rfl, rfl⟩, fun hzero => ?_⟩
      rw [hzero, UInt32.toNat_zero, Nat.add_zero] at hgrow
      exact absurd hpages hgrow
  size := by
    rintro a k rfl huses
    exact ⟨_, Activation.step_memorySize_eq huses.memAddr huses.memory,
      toNat_ofNat_pages (Nat.le_trans hpages hbound)⟩

/-! ## Memories that modules define -/

/-- **The largest number of pages** that a memory of a type may have under a configuration. -/
def MemType.bound (t : MemType) (config : Config) : Nat :=
  min config.maxMemoryPages.toNat (t.max.getD maxMemoryPages).toNat

theorem MemType.bound_eq {t : MemType} {m : Memory} (h : m.max = t.max) (config : Config) :
    m.bound config.maxMemoryPages = t.bound config := by
  rw [Memory.bound, MemType.bound, h, Nat.min_comm]

/-- What 32 bits can address bounds every memory whose maximum is in order. -/
theorem MemType.bound_le {t : MemType} (h : t.Addressable) (config : Config) :
    t.bound config ≤ maxMemoryPages.toNat := by
  refine Nat.le_trans (Nat.min_le_right _ _) ?_
  cases hmax : t.max with
  | none => exact Nat.le_refl _
  | some max => exact UInt32.le_iff_toNat_le.mp (h.2 max hmax)

/-- The least size of a memory type that is in order is within its bound, if the configuration allows it
    at all. -/
theorem MemType.min_le_bound {t : MemType} {config : Config} (hordered : t.Ordered)
    (haddressable : t.Addressable) (hcap : t.min.toNat ≤ config.maxMemoryPages.toNat) :
    t.min.toNat ≤ t.bound config := by
  refine Nat.le_min.mpr ⟨hcap, ?_⟩
  cases hmax : t.max with
  | none => exact UInt32.le_iff_toNat_le.mp haddressable.1
  | some max => exact UInt32.le_iff_toNat_le.mp (hordered max hmax)

namespace Store

variable {s : Store} {m : Module} {given : List External} {inst : ModuleInst}
  {origins : List (Option Module)}

/-- **The memories of a module that has been linked** are as they were created, but for what was written
    to them and for how far they have grown. -/
theorem WellFormed.memory_of_link (hs : s.WellFormed origins) (hlink : (s.link m given).1 = .ok inst)
    (turns : Nat) {n : Nat} {t : MemType} (ht : m.memories[n]? = some t) :
    Validate.memType t = .ok () ∧
    ∃ memory, (s.instantiate turns m given).2.memories[s.memories.size + n]? = some memory ∧
      (Memory.create t).GrownWithin s.config.maxMemoryPages memory := by
  rcases link_cases s m given with ⟨e, h⟩ | ⟨inst', segments, s₁, haccepts, halloc, h⟩
  · rw [h] at hlink
    cases hlink
  · have hadds := adds_of_allocModule hs haccepts halloc
    have happended := appended_allocModule m given s
    rw [halloc] at happended
    have hcreated : s₁.memories[s.memories.size + n]? = some (.create t) := by
      rw [hadds.memories, Array.getElem?_append_right (Nat.le_add_right _ _), Nat.add_sub_cancel_left]
      simp [ht]
    have hgrows : s₁.GrowsWithin (s.instantiate turns m given).2 := by
      rw [(instantiate_of_ok turns h).1]
      exact trans_of GrowsWithin (respected_growsWithin.writeSegments s₁ segments)
        (respected_growsWithin.runStart turns _ inst' m.start)
    have hconfig : s₁.config = s.config := happended.config
    obtain ⟨memory, hmemory, hgrown⟩ := hgrows.memories _ _ hcreated
    rw [hconfig] at hgrown
    refine ⟨?_, memory, hmemory, hgrown⟩
    exact (checked_of_validate (acceptsModule_eq_ok haccepts).1).memories t (List.mem_of_getElem? ht)

/-- **Every history.** The memories of a module that has been linked stay within their bounds. -/
theorem Reachable.memory_within (hs : s.Reachable) (hlink : (s.link m given).1 = .ok inst)
    (turns : Nat) (after : List Operation) {n : Nat} {t : MemType} (ht : m.memories[n]? = some t) :
    (t.Ordered ∧ t.Addressable) ∧
    ∃ memory,
      (s.performAll (.instantiate turns m given :: after)).memories[s.memories.size + n]? =
        some memory ∧
      memory.max = t.max ∧ t.min.toNat ≤ memory.pages ∧ memory.pages ≤ t.bound s.config := by
  obtain ⟨origins, hwf⟩ := hs.wellFormed
  obtain ⟨hvalid, first, hfirst, hstarted⟩ := hwf.memory_of_link hlink turns ht
  obtain ⟨hordered, haddressable⟩ := memType_eq_ok_iff.mp hvalid
  -- What was created was within the cap, since it is so now that it has no fewer pages.
  have hcapped : (s.instantiate turns m given).2.Every s.config (fun _ => True)
      (fun memory => memory.pages ≤ s.config.maxMemoryPages.toNat) := by
    obtain ⟨config, before, rfl⟩ := hs
    have hbefore := every_cap config before
    rw [hbefore.sameConfig]
    exact hbefore.instantiate (lasting_cap config) turns m given
  have hmin : (Memory.create t).pages ≤ t.bound s.config := by
    rw [Memory.pages_create]
    refine MemType.min_le_bound hordered haddressable ?_
    rw [← Memory.pages_create]
    exact Nat.le_trans hstarted.least (hcapped.memories first (Array.mem_of_getElem? hfirst))
  have hlater := respected_growsWithin.performAll (s.instantiate turns m given).2 after
  obtain ⟨memory, hmemory, hgrew⟩ := hlater.memories _ _ hfirst
  rw [hcapped.sameConfig] at hgrew
  have hgrown := trans_of (Memory.GrownWithin s.config.maxMemoryPages) hstarted hgrew
  refine ⟨⟨hordered, haddressable⟩, memory, hmemory, hgrown.max, ?_, ?_⟩
  · rw [← Memory.pages_create]
    exact hgrown.least
  · have hbound : (Memory.create t).bound s.config.maxMemoryPages = t.bound s.config :=
      MemType.bound_eq rfl s.config
    rw [← hbound] at hmin ⊢
    exact hgrown.most hmin

/-- **A memory that a module defines.** Take any store that can be reached, under any configuration, and
    any module that is linked in it: it has been checked, so that the limits of its memories are in order.
    Whatever becomes of its start function, and whatever is done after that: each memory of the module
    has the bytes of its pages, at least as many pages as the module declares, and at most the smaller of
    what the configuration allows and the declared maximum, or 65536 if there is none. Code that grows it
    gets the old number of pages exactly if the new one is within that bound, and the memory then has the
    old bytes and zeros after them; otherwise the code gets -1 and nothing has changed. Growing by nothing
    works, and asking for the size gives the number of pages. -/
theorem Reachable.memory_growth (hs : s.Reachable) (hlink : (s.link m given).1 = .ok inst)
    (turns : Nat) (after : List Operation) {n : Nat} {t : MemType} (ht : m.memories[n]? = some t) :
    (t.Ordered ∧ t.Addressable) ∧
    ∃ memory,
      (s.performAll (.instantiate turns m given :: after)).memories[s.memories.size + n]? =
        some memory ∧
      memory.data.size = 65536 * memory.pages ∧
      t.min.toNat ≤ memory.pages ∧ memory.pages ≤ t.bound s.config ∧
      (s.performAll (.instantiate turns m given :: after)).GrowsUpTo (s.memories.size + n) memory
        (t.bound s.config) := by
  obtain ⟨hlimits, memory, hmemory, hmax, hmin, hpages⟩ := hs.memory_within hlink turns after ht
  refine ⟨hlimits, memory, hmemory, memory.size_data, hmin, hpages, ?_⟩
  have hconfig : (s.performAll (.instantiate turns m given :: after)).config = s.config :=
    (respected_growsWithin.performAll s _).config
  have hbound : memory.bound (s.performAll (.instantiate turns m given :: after)).config.maxMemoryPages =
      t.bound s.config := by
    rw [hconfig, MemType.bound_eq hmax]
  rw [← hbound]
  refine growsUpTo_of_le ?_ ?_
  · rw [hbound]
    exact hpages
  · rw [hbound]
    exact MemType.bound_le hlimits.2 s.config

/-- A module with a memory of one page, which may have three, and a function that grows it. -/
def resizable : Module where
  types := [⟨[.i32], [.i32]⟩]
  funcs := [{ typeIdx := 0, locals := [], body := [.localGet 0, .memoryGrow] }]
  memories := [⟨1, some 3⟩]

/-- The instance of `resizable` in an empty store. -/
def resizableInst : ModuleInst where
  types := #[⟨[.i32], [.i32]⟩]
  funcs := #[0]
  tables := #[]
  memories := #[0]
  globals := #[]

/-- A configuration that allows two pages keeps the memory of `resizable` from having three. -/
theorem resizable_growth :
    ((withConfig { maxMemoryPages := 2 }).link resizable []).1 = .ok resizableInst ∧
    ∃ memory,
      ((withConfig { maxMemoryPages := 2 }).performAll
        [.instantiate 0 resizable [], .invoke 4 0 [.i32 1]]).memories[0]? = some memory ∧
      memory.data.size = 65536 * memory.pages ∧ 1 ≤ memory.pages ∧ memory.pages ≤ 2 ∧
      ((withConfig { maxMemoryPages := 2 }).performAll
        [.instantiate 0 resizable [], .invoke 4 0 [.i32 1]]).GrowsUpTo 0 memory 2 := by
  have hlink : ((withConfig { maxMemoryPages := 2 }).link resizable []).1 = .ok resizableInst := by
    with_unfolding_all rfl
  obtain ⟨-, memory, h⟩ := (reachable_withConfig { maxMemoryPages := 2 }).memory_growth hlink 0
    [.invoke 4 0 [.i32 1]] (n := 0) rfl
  exact ⟨hlink, memory, h⟩

end Store

end WasmCore
