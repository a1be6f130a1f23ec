import WasmCore.Proofs.Exec.Soundness
import WasmCore.Proofs.Link.Rollback
import WasmCore.Proofs.Store.History

/-!
# `Link.Integrity` — every store that can be reached is well-formed

Nothing that is done to a store from outside breaks the invariant: not an instantiation that fails
after it has written segments, not a start function that traps, not a call that is cut off.

* `WellFormed.writeSegments`, `WellFormed.instantiate`: instantiation, whatever becomes of it;
* `WellFormed.perform`: one operation;
* `wellFormed_performAll`: **every history**.
-/

namespace WasmCore.Store

variable {s : Store} {origins : List (Option Module)}

/-! ## Segments -/

/-- What is in a table after a run of functions was written was in it before or was written. -/
theorem mem_fill {t : Table} {start : Nat} {funcs : List FuncAddr} {a : FuncAddr}
    (h : some a ∈ (t.fill start funcs).slots) : some a ∈ t.slots ∨ a ∈ funcs := by
  obtain ⟨i, hi⟩ := Array.mem_iff_getElem?.mp h
  rw [Table.fill, getElem?_overwriteFrom] at hi
  split at hi
  · right
    rw [List.getElem?_map] at hi
    obtain ⟨b, hb, hab⟩ := Option.map_eq_some_iff.mp hi
    cases hab
    exact List.mem_of_getElem? hb
  · left
    exact Array.mem_of_getElem? hi

/-- A segment that names functions of the store can be written. -/
theorem WellFormed.write (hs : s.WellFormed origins) {g : Segment} (hg : g.Refers s) :
    s.Persists (g.write s) ∧ (g.write s).WellFormed origins ∧ (g.write s).funcs = s.funcs := by
  cases g with
  | data a offset bytes =>
    obtain ⟨hp, hwf⟩ := hs.setMemories (s.memories.modify a (·.overwrite offset bytes)) (by simp)
    exact ⟨hp, hwf, rfl⟩
  | elem a offset funcs =>
    have hp : s.Persists (s.fillTable a offset funcs) := by
      have hsize : (s.tables.modify a (·.fill offset funcs)).size = s.tables.size :=
        Array.size_modify
      exact .of_eq rfl (Nat.le_of_eq hsize.symm) (Nat.le_refl _) rfl
    refine ⟨hp, hs.update hp rfl (fun t ht b hb => ?_) hs.globals, rfl⟩
    obtain ⟨i, hi⟩ := Array.mem_iff_getElem?.mp ht
    replace hi : (s.tables.modify a (·.fill offset funcs))[i]? = some t := hi
    rw [Array.getElem?_modify] at hi
    by_cases hai : a = i
    · rw [if_pos hai] at hi
      obtain ⟨t', ht', rfl⟩ := Option.map_eq_some_iff.mp hi
      rcases mem_fill hb with hb | hb
      · exact hs.slots t' (Array.mem_of_getElem? ht') b hb
      · exact hg b hb
    · rw [if_neg hai] at hi
      exact hs.slots t (Array.mem_of_getElem? hi) b hb

/-- Segments can be written in order, up to the first that does not fit. -/
theorem WellFormed.writeSegments (hs : s.WellFormed origins) {gs : List Segment}
    (hgs : ∀ g ∈ gs, g.Refers s) :
    s.Persists (s.writeSegments gs).2 ∧ (s.writeSegments gs).2.WellFormed origins := by
  induction gs generalizing s with
  | nil => exact ⟨.refl s, hs⟩
  | cons g gs ih =>
    rcases s.writeSegments_cons_cases g gs with hstore | hstore
    · rw [hstore]
      obtain ⟨hp, hwf, hfuncs⟩ := hs.write (hgs g List.mem_cons_self)
      have hgs' : ∀ g' ∈ gs, g'.Refers (g.write s) := by
        intro g' hg'
        have hrefers := hgs g' (List.mem_cons_of_mem g hg')
        cases g' with
        | data => exact trivial
        | elem a offset funcs => intro b hb; rw [hfuncs]; exact hrefers b hb
      obtain ⟨hp', hwf'⟩ := ih hwf hgs'
      exact ⟨hp.trans hp', hwf'⟩
    · rw [hstore]
      exact ⟨.refl s, hs⟩

/-! ## Instantiation -/

/-- The start function keeps a store in order, whatever becomes of it. -/
theorem WellFormed.runStart (hs : s.WellFormed origins) (turns : Nat) (inst : ModuleInst)
    (start : Option FuncIdx) :
    s.Persists (s.runStart turns inst start).2 ∧
      (s.runStart turns inst start).2.WellFormed origins := by
  cases start with
  | none => exact ⟨.refl s, hs⟩
  | some f =>
    simp only [Store.runStart]
    cases inst.funcAddr f with
    | error t => exact ⟨.refl s, hs⟩
    | ok a =>
      have hinvoke := hs.invoke turns a []
      dsimp only at hinvoke ⊢
      generalize s.invoke turns a [] = outcome at hinvoke ⊢
      obtain ⟨outcome, s'⟩ := outcome
      cases outcome with
      | done vs => exact hinvoke
      | failed t => exact hinvoke
      | unfinished => exact hinvoke

/-- **Instantiation keeps a store in order**, whether it fails, traps or succeeds. All functions that it
    adds are those of its module. -/
theorem WellFormed.instantiate (hs : s.WellFormed origins) (turns : Nat) (m : Module)
    (given : List External) :
    ∃ n, (s.instantiate turns m given).2.WellFormed (origins ++ List.replicate n (some m)) := by
  rcases link_cases s m given with ⟨e, hlink⟩ | ⟨inst, segments, s₁, haccepts, halloc, hlink⟩
  · -- Nothing is left of an instantiation that fails before the segments are written.
    refine ⟨0, ?_⟩
    rw [instantiate_of_error turns hlink, List.replicate_zero, List.append_nil]
    exact hs
  · -- The functions stay in the store even if the start function traps.
    obtain ⟨-, hwf, -, hrefers⟩ := allocModule_spec hs haccepts halloc
    refine ⟨m.funcs.length, ?_⟩
    rw [(instantiate_of_ok turns hlink).1]
    exact ((hwf.writeSegments hrefers).2.runStart turns inst m.start).2

/-! ## Operations -/

theorem WellFormed.allocHost (hs : s.WellFormed origins) (type : FuncType) (run : HostFunc) :
    (s.allocHost type run).2.WellFormed (origins ++ [none]) where
  length := by
    show (origins ++ [none]).length = (s.funcs.push _).size
    rw [List.length_append, hs.length, Array.size_push]; rfl
  slots := by
    intro t ht a ha
    show a < (s.funcs.push _).size
    rw [Array.size_push]
    exact Nat.lt_succ_of_lt (hs.slots t ht a ha)
  funcs := by
    intro a type' inst code ha
    replace ha : (s.funcs.push (.host type run))[a]? = some (.defined type' inst code) := ha
    rw [Array.getElem?_push] at ha
    -- The new function is one of the host, so the function of a module was there before.
    split at ha
    · cases ha
    · obtain ⟨m, hm, hdef⟩ := hs.funcs a type' inst code ha
      have hlt : a < origins.length := (List.getElem?_eq_some_iff.mp hm).1
      have hp : s.Persists (s.allocHost type run).2 := by
        have happend := persists_append s [.host type run]
        rw [show (s.funcs ++ [FuncInst.host type run].toArray) = s.funcs.push (.host type run) from
          by simp] at happend
        exact happend
      refine ⟨m, ?_, hdef.mem, hdef.implements.mono hp, hdef.typeIdx, hdef.body⟩
      rw [List.getElem?_append_left hlt]; exact hm
  globals := hs.globals

/-- An allocation of something other than a function keeps a store in order, also when it fails. -/
theorem WellFormed.afterAlloc (hs : s.WellFormed origins) {α : Type}
    {r : Except LinkError (α × Store)}
    (h : ∀ a s', r = .ok (a, s') → s'.WellFormed origins) : (s.afterAlloc r).WellFormed origins := by
  cases r with
  | error e => exact hs
  | ok p => exact h p.1 p.2 rfl

/-- **One operation.** -/
theorem WellFormed.perform (hs : s.WellFormed origins) (op : Operation) :
    (s.perform op).WellFormed
      (origins ++ List.replicate ((s.perform op).funcs.size - s.funcs.size) op.module?) := by
  -- The number of new functions can be read off any list of origins that fits.
  have hsize : ∀ (n : Nat) {s' : Store},
      s'.WellFormed (origins ++ List.replicate n op.module?) →
      s'.WellFormed (origins ++ List.replicate (s'.funcs.size - s.funcs.size) op.module?) := by
    intro n s' h
    have hlength := h.length
    rw [List.length_append, List.length_replicate, hs.length] at hlength
    rw [← hlength, Nat.add_sub_cancel_left]
    exact h
  have hzero : ∀ {s' : Store}, s'.WellFormed origins →
      s'.WellFormed (origins ++ List.replicate 0 op.module?) := by
    intro s' h
    rw [List.replicate_zero, List.append_nil]
    exact h
  cases op with
  | allocHost type run => exact hsize 1 (hs.allocHost type run)
  | allocTable t =>
    exact hsize 0 (hzero (hs.afterAlloc fun _ _ h => (allocTable_spec hs h).1.wellFormed))
  | allocMemory t =>
    exact hsize 0 (hzero (hs.afterAlloc fun _ _ h => (allocMemory_spec hs h).1.wellFormed))
  | allocGlobal type value =>
    exact hsize 0 (hzero (hs.afterAlloc fun _ _ h => (allocGlobal_spec hs h).1.wellFormed))
  | instantiate turns m given =>
    obtain ⟨n, hn⟩ := hs.instantiate turns m given
    exact hsize n hn
  | invoke turns a args => exact hsize 0 (hzero (hs.invoke turns a args).2)
  | writeMemory a start bytes =>
    refine hsize 0 (hzero ?_)
    show (s.writeMemory a start bytes).2.WellFormed origins
    rw [writeMemory_eq_ite]
    split
    · exact (hs.setMemories _ (by simp)).2
    · exact hs

/-- **Every history of a store in order.** -/
theorem WellFormed.performAll (hs : s.WellFormed origins) (ops : List Operation) :
    (s.performAll ops).WellFormed (origins ++ s.origins ops) := by
  induction ops generalizing s origins with
  | nil => rw [performAll_nil, Store.origins, List.append_nil]; exact hs
  | cons op ops ih =>
    rw [performAll_cons, Store.origins, ← List.append_assoc]
    exact ih (hs.perform op)

/-- Every store that can be reached is in order. -/
theorem Reachable.wellFormed (h : s.Reachable) : ∃ origins, s.WellFormed origins := by
  obtain ⟨config, ops, rfl⟩ := h
  exact ⟨_, (WellFormed.empty config).performAll ops⟩

/-- **No dangling and no ill-typed reference, after any history.** Every filled slot of a table holds
    the address of a function; the instance of every function of a module provides what its module
    declares; every such function has the type that its index names, and a body that checks; and every
    global holds a value of its type. -/
theorem wellFormed_performAll (config : Config) (ops : List Operation) :
    ((withConfig config).performAll ops).WellFormed ((withConfig config).origins ops) :=
  (WellFormed.empty config).performAll ops

end WasmCore.Store
