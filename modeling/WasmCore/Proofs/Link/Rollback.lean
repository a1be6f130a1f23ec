import WasmCore.Proofs.Link.Instances
import WasmCore.Proofs.Link.Segments

/-!
# `Link.Rollback` — the way back from a failed allocation

The definitions of a module are allocated in place, and any of them may turn out not to be possible
when others are there already. What makes the way back exact is that allocation only ever appends: cut
to its old sizes, the store is what it was. Once everything is allocated nothing can fail any more,
since all segments were found to fit.

* `Store.Appended`, `rollback_of_appended`: cutting a store back to its old sizes undoes what was
  appended;
* `keeps_allocModule`, `appended_allocModule`: **allocation only appends**, whether it succeeds or fails;
* `fits_of_allocModule`: the segments of an allocated module fit;
* `link_of_alloc_error`, `link_of_alloc_ok`, `link_cases`: **linking is all or nothing.**
-/

namespace WasmCore.Store

/-! ## Appending -/

/-- **Nothing was changed but for new entries at the end.** -/
structure Appended (s s' : Store) : Prop where
  config : s'.config = s.config
  funcs : s.funcs.toList <+: s'.funcs.toList
  tables : s.tables.toList <+: s'.tables.toList
  memories : s.memories.toList <+: s'.memories.toList
  globals : s.globals.toList <+: s'.globals.toList
  hostCalls : s'.hostCalls = s.hostCalls

instance : IsPreorder Store Appended where
  refl _ := ⟨rfl, List.prefix_rfl, List.prefix_rfl, List.prefix_rfl, List.prefix_rfl, rfl⟩
  trans _ _ _ h h' :=
    { config := h'.config.trans h.config
      funcs := h.funcs.trans h'.funcs
      tables := h.tables.trans h'.tables
      memories := h.memories.trans h'.memories
      globals := h.globals.trans h'.globals
      hostCalls := h'.hostCalls.trans h.hostCalls }

variable {s s' : Store} {m : Module} {given : List External}

/-- An array cut to the size of one that it continues. -/
theorem take_of_appended {α : Type} {xs ys : Array α} (h : xs.toList <+: ys.toList) :
    ys.take xs.size = xs := by
  apply Array.ext'
  rw [Array.take_eq_extract, Array.toList_extract, List.extract_eq_take_drop, List.drop_zero,
    Nat.sub_zero, ← Array.length_toList]
  exact (List.prefix_iff_eq_take.mp h).symm

/-- **The way back.** -/
theorem rollback_of_appended (h : s.Appended s') : s'.rollback s.marks = s := by
  obtain ⟨config, funcs, tables, memories, globals, hostCalls⟩ := s
  obtain ⟨config', funcs', tables', memories', globals', hostCalls'⟩ := s'
  obtain ⟨rfl, hfuncs, htables, hmemories, hglobals, rfl⟩ := h
  simp only [rollback, marks, take_of_appended hfuncs, take_of_appended htables,
    take_of_appended hmemories, take_of_appended hglobals]

theorem prefix_push {α : Type} (xs : Array α) (x : α) : xs.toList <+: (xs.push x).toList := by
  rw [Array.toList_push]
  exact List.prefix_append _ _

/-! ## Allocation -/

theorem appended_pushFunc (s : Store) (f : FuncInst) : s.Appended (s.pushFunc f) :=
  ⟨rfl, prefix_push _ f, List.prefix_rfl, List.prefix_rfl, List.prefix_rfl, rfl⟩

theorem appended_allocTable {t : TableType} {a : TableAddr} (h : s.allocTable t = .ok (a, s')) :
    s.Appended s' := by
  simp only [allocTable] at h
  split at h
  · cases h
  · cases h
    exact ⟨rfl, List.prefix_rfl, prefix_push _ _, List.prefix_rfl, List.prefix_rfl, rfl⟩

theorem appended_allocMemory {t : MemType} {a : MemAddr} (h : s.allocMemory t = .ok (a, s')) :
    s.Appended s' := by
  simp only [allocMemory] at h
  split at h
  · cases h
  · cases h
    exact ⟨rfl, List.prefix_rfl, List.prefix_rfl, prefix_push _ _, List.prefix_rfl, rfl⟩

theorem appended_allocGlobal {type : GlobalType} {v : Value} {a : GlobalAddr}
    (h : s.allocGlobal type v = .ok (a, s')) : s.Appended s' := by
  simp only [allocGlobal] at h
  split at h
  · cases h
    exact ⟨rfl, List.prefix_rfl, List.prefix_rfl, List.prefix_rfl, prefix_push _ _, rfl⟩
  · cases h

section Keeps

variable {R : Store → Store → Prop} [IsPreorder Store R]

theorem keeps_ofExcept {α : Type} (x : Except LinkError α) : Move.Keeps R (Linking.ofExcept x) := by
  cases x with
  | ok a => exact .pure a
  | error e => exact .throw e

/-- An allocation that fails changes nothing. -/
theorem keeps_add {α : Type} {alloc : Store → Except LinkError (α × Store)}
    (halloc : ∀ {s a s'}, alloc s = .ok (a, s') → R s s') : Move.Keeps R (Linking.add alloc) := by
  intro s
  unfold Linking.add
  cases h : alloc s with
  | ok p => exact halloc h
  | error e => exact refl_of R s

theorem keeps_allocGlobals
    (hglobal : ∀ {s type v a s'}, s.allocGlobal type v = .ok (a, s') → R s s')
    (globals : Array GlobalAddr) (gs : List Global) :
    Move.Keeps R (Linking.allocGlobals globals gs) := by
  induction gs generalizing globals with
  | nil => exact .pure globals
  | cons g gs ih =>
    refine .get_bind fun s => .bind (keeps_ofExcept _) fun v => ?_
    exact .bind (keeps_add hglobal) fun a => ih _

theorem keeps_allocTables (tables : Array TableAddr) (ts : List TableType)
    (htable : ∀ t ∈ ts, ∀ {s a s'}, s.allocTable t = .ok (a, s') → R s s') :
    Move.Keeps R (Linking.allocTables tables ts) := by
  induction ts generalizing tables with
  | nil => exact .pure tables
  | cons t ts ih =>
    refine .bind (keeps_add (htable t List.mem_cons_self)) fun a => ih _ fun t' ht' => ?_
    exact htable t' (List.mem_cons_of_mem t ht')

theorem keeps_allocMemories (memories : Array MemAddr) (ts : List MemType)
    (hmemory : ∀ t ∈ ts, ∀ {s a s'}, s.allocMemory t = .ok (a, s') → R s s') :
    Move.Keeps R (Linking.allocMemories memories ts) := by
  induction ts generalizing memories with
  | nil => exact .pure memories
  | cons t ts ih =>
    refine .bind (keeps_add (hmemory t List.mem_cons_self)) fun a => ih _ fun t' ht' => ?_
    exact hmemory t' (List.mem_cons_of_mem t ht')

theorem keeps_allocFuncs (hfunc : ∀ s f, R s (pushFunc s f)) (inst : ModuleInst) (fs : List Func) :
    Move.Keeps R (Linking.allocFuncs inst fs) := by
  induction fs with
  | nil => exact .pure ()
  | cons f fs ih =>
    refine .bind (keeps_ofExcept _) fun type => .bind (.modify fun s => ?_) fun _ => ih
    exact hfunc s _

/-- **The allocation of a module keeps what its single allocations keep**, also where it fails. -/
theorem keeps_allocModule (m : Module) (given : List External)
    (hglobal : ∀ {s type v a s'}, s.allocGlobal type v = .ok (a, s') → R s s')
    (htable : ∀ t ∈ m.tables, ∀ {s a s'}, s.allocTable t = .ok (a, s') → R s s')
    (hmemory : ∀ t ∈ m.memories, ∀ {s a s'}, s.allocMemory t = .ok (a, s') → R s s')
    (hfunc : ∀ s f, R s (pushFunc s f)) : Move.Keeps R (Linking.allocModule m given) := by
  refine .bind ?_ fun prepared => .bind (keeps_allocFuncs hfunc _ _) fun _ => .pure _
  refine .bind ?_ fun inst => .bind (keeps_ofExcept _) fun exports => .get_bind fun s =>
    .bind (keeps_ofExcept _) fun segments => .pure _
  refine .bind (keeps_allocGlobals hglobal _ _) fun globals => ?_
  refine .bind (keeps_allocTables _ _ htable) fun tables => ?_
  exact .bind (keeps_allocMemories _ _ hmemory) fun memories => .get_bind fun s => .pure _

end Keeps

/-- **Allocation only appends**, also where it fails. -/
theorem appended_allocModule (m : Module) (given : List External) :
    Move.Keeps Appended (Linking.allocModule m given) :=
  keeps_allocModule m given appended_allocGlobal (fun _ _ => appended_allocTable)
    (fun _ _ => appended_allocMemory) appended_pushFunc

/-! ## Segments -/

theorem fits_of_resolveElem {inst : ModuleInst} {e : ElemSegment} {g : Segment}
    (h : s.resolveElem inst e = .ok g) : g.fits s = true := by
  obtain ⟨a, -, h⟩ := bind_eq_ok_iff.mp h
  obtain ⟨offset, -, h⟩ := bind_eq_ok_iff.mp h
  obtain ⟨funcs, -, h⟩ := bind_eq_ok_iff.mp h
  obtain ⟨rfl, hfits⟩ := checked_eq_ok h
  exact hfits

theorem fits_of_resolveData {inst : ModuleInst} {d : DataSegment} {g : Segment}
    (h : s.resolveData inst d = .ok g) : g.fits s = true := by
  obtain ⟨a, -, h⟩ := bind_eq_ok_iff.mp h
  obtain ⟨offset, -, h⟩ := bind_eq_ok_iff.mp h
  obtain ⟨rfl, hfits⟩ := checked_eq_ok h
  exact hfits

/-- What was checked before the functions of the module were added still fits after that. -/
theorem fits_of_allocModule {inst : ModuleInst} {segments : List Segment}
    (h : Linking.allocModule m given s = .ok (inst, segments) s') :
    ∀ g ∈ segments, g.fits s' = true := by
  obtain ⟨elems, datas, s₁, s₂, s₃, halloc, rfl⟩ := allocModule_eq_ok h
  obtain ⟨new, rfl, -⟩ := allocFuncs_spec halloc.funcs
  have hfuncs : ∀ g : Segment, g.fits { s₃ with funcs := s₃.funcs ++ new.toArray } = g.fits s₃ := by
    intro g; cases g <;> rfl
  intro g hg
  rw [hfuncs]
  rcases halloc.segment hg with ⟨e, he⟩ | ⟨d, hd⟩
  · exact fits_of_resolveElem he
  · exact fits_of_resolveData hd

/-! ## Linking -/

/-- A module whose definitions cannot all be allocated leaves nothing behind. -/
theorem link_of_alloc_error {e : LinkError} (haccepts : s.acceptsModule m given = .ok ())
    (halloc : Linking.allocModule m given s = .error e s') : s.link m given = (.error e, s) := by
  have happended := appended_allocModule m given s
  rw [halloc] at happended
  have hback : s'.rollback s.marks = s := rollback_of_appended happended
  unfold link
  rw [haccepts, halloc]
  show (Except.error e, s'.rollback s.marks) = _
  rw [hback]

/-- A module whose definitions are allocated is linked. -/
theorem link_of_alloc_ok {inst : ModuleInst} {segments : List Segment}
    (haccepts : s.acceptsModule m given = .ok ())
    (halloc : Linking.allocModule m given s = .ok (inst, segments) s') :
    s.link m given = (.ok inst, (s'.writeSegments segments).2) := by
  have hwritten := writeSegments_of_fits (fits_of_allocModule halloc)
  unfold link
  rw [haccepts, halloc]
  dsimp only
  generalize s'.writeSegments segments = written at hwritten ⊢
  obtain ⟨result, s₂⟩ := written
  obtain rfl : result = .ok () := hwritten
  rfl

/-- **Linking is all or nothing.** Either it fails and leaves the store as it was, or the module is
    accepted and allocated, and all its segments are written. -/
theorem link_cases (s : Store) (m : Module) (given : List External) :
    (∃ e, s.link m given = (.error e, s)) ∨
    ∃ inst segments s₁, s.acceptsModule m given = .ok () ∧
      Linking.allocModule m given s = .ok (inst, segments) s₁ ∧
      s.link m given = (.ok inst, (s₁.writeSegments segments).2) := by
  cases haccepts : s.acceptsModule m given with
  | error e => exact .inl ⟨e, by rw [link, haccepts]⟩
  | ok u =>
    cases halloc : Linking.allocModule m given s with
    | error e s₁ => exact .inl ⟨e, link_of_alloc_error haccepts halloc⟩
    | ok p s₁ =>
      obtain ⟨inst, segments⟩ := p
      exact .inr ⟨inst, segments, s₁, rfl, rfl, link_of_alloc_ok haccepts halloc⟩

theorem instantiate_of_error {e : LinkError} {s₁ : Store} (turns : Nat)
    (h : s.link m given = (.error e, s₁)) : s.instantiate turns m given = (.failed e, s₁) := by
  rw [instantiate, h]

/-- **What an instantiation comes to once its module is linked**: the start function leaves the store,
    and only it can fail. -/
theorem instantiate_of_ok {inst : ModuleInst} {s₁ : Store} (turns : Nat)
    (h : s.link m given = (.ok inst, s₁)) :
    (s.instantiate turns m given).2 = (s₁.runStart turns inst m.start).2 ∧
    (∀ e, (s.instantiate turns m given).1 = .failed e →
      (s₁.runStart turns inst m.start).1 = .failed e) ∧
    (∀ inst', (s.instantiate turns m given).1 = .done inst' → inst' = inst) := by
  unfold instantiate
  rw [h]
  dsimp only
  generalize s₁.runStart turns inst m.start = outcome
  obtain ⟨started, s₂⟩ := outcome
  cases started with
  | done u =>
    refine ⟨rfl, ?_, ?_⟩
    · intro e he; cases he
    · intro inst' hi; cases hi; rfl
  | failed e =>
    refine ⟨rfl, ?_, ?_⟩
    · intro e' he; cases he; rfl
    · intro inst' hi; cases hi
  | unfinished =>
    refine ⟨rfl, ?_, ?_⟩
    · intro e he; cases he
    · intro inst' hi; cases hi

end WasmCore.Store
