import WasmCore.Proofs.Exec.Soundness
import WasmCore.Proofs.Store.Pairing

/-!
# `Exec.Lockstep` — the same code in two stores that look alike

Code that runs in two stores which are alike under a pairing does the same in both, move by move: the
machines keep the same operands, labels and code, their frames have the same locals and instances that
are alike, and what is written is paired. The stores need not be well-formed and the code need
not be checked: what goes wrong in one goes wrong in the other, with the same trap.

* `Machine.Alike`: machines that do the same;
* `inStep_step`: **every instruction keeps machines alike**;
* `inStep_turn`, `inStep_run`: turns;
* `Store.Alike.invoke`: **calls of paired functions come to the same**.
-/

namespace WasmCore

/-- Frames of the same function: the same locals, and instances that are alike. -/
structure Frame.Alike (p : Store.Pairing) (f f' : Frame) : Prop where
  locals : f'.locals = f.locals
  labelBase : f'.labelBase = f.labelBase
  inst : f.inst.Alike p f'.inst

/-- **Machines that do the same**, the second of them in a store that was `s` at the start. -/
structure Machine.Alike (p : Store.Pairing) (s : Store) (m m' : Machine) : Prop where
  store : Store.Tracks p s m.store m'.store
  fuel : m'.fuel = m.fuel
  stack : m'.stack = m.stack
  code : m'.code = m.code
  labels : m'.labels = m.labels
  frames : List.Forall₂ (Frame.Alike p) m.frames.toList m'.frames.toList

namespace Machine.Alike

variable {p : Store.Pairing} {s : Store} {m m' : Machine}

/-- As many calls are under way. -/
theorem height (h : m.Alike p s m') : m'.frames.height = m.frames.height := by
  rw [m'.frames.height_eq, m.frames.height_eq]
  exact h.frames.length_eq.symm

/-- The functions under way. -/
theorem top (h : m.Alike p s m') :
    (m.frames.toList = [] ∧ m'.frames.toList = []) ∨ ∃ frame frame' outer outer',
      m.frames.toList = frame :: outer ∧ m'.frames.toList = frame' :: outer' ∧
        frame.Alike p frame' := by
  have hframes := h.frames
  generalize m.frames.toList = frames, m'.frames.toList = frames' at hframes ⊢
  cases hframes with
  | nil => exact .inl ⟨rfl, rfl⟩
  | cons hframe _ => exact .inr ⟨_, _, _, _, rfl, rfl, hframe⟩

end Machine.Alike

namespace Exec

open Move (InStep)

variable {p : Store.Pairing} {s : Store} {α β : Type}

/-! ## Operands and locals -/

theorem inStep_onStack (f : OperandM α) :
    InStep (Machine.Alike p s) Eq (onStack f) (onStack f) := by
  intro m m' h
  have hstack : f m'.stack = f m.stack := by rw [h.stack]
  cases hf : f m.stack with
  | ok a stack =>
    rw [onStack_of_ok hf, onStack_of_ok (hstack.trans hf)]
    exact .ok rfl { h with stack := rfl }
  | error t stack =>
    rw [onStack_of_error hf, onStack_of_error (hstack.trans hf)]
    exact .error t { h with stack := rfl }

theorem inStep_ofExcept {Q : α → β → Prop} {x : Except Trap α} {y : Except Trap β}
    (h : Agree Q x y) : InStep (Machine.Alike p s) Q (ofExcept x) (ofExcept y) := by
  cases h with
  | ok h => exact .pure h
  | error t => exact .throw t

/-- The instances of the functions under way. -/
theorem inStep_inst : InStep (Machine.Alike p s) (ModuleInst.Alike p) inst inst := by
  intro m m' h
  unfold inst
  rcases h.top with ⟨hm, hm'⟩ | ⟨frame, frame', outer, outer', hm, hm', hframe⟩
  · rw [hm, hm']
    exact .error _ h
  · rw [hm, hm']
    exact .ok hframe.inst h

theorem inStep_getLocal (x : LocalIdx) :
    InStep (Machine.Alike p s) Eq (getLocal x) (getLocal x) := by
  intro m m' h
  unfold getLocal
  rcases h.top with ⟨hm, hm'⟩ | ⟨frame, frame', outer, outer', hm, hm', hframe⟩
  · rw [hm, hm']
    exact .error _ h
  · rw [hm, hm']
    dsimp only
    rw [hframe.locals]
    split
    · exact .error _ h
    · exact .ok rfl h

theorem inStep_setLocal (x : LocalIdx) (v : Value) :
    InStep (Machine.Alike p s) Eq (setLocal x v) (setLocal x v) := by
  rintro ⟨store, fuel, stack, code, labels, ⟨frames, height, hheight⟩⟩
    ⟨store', fuel', stack', code', labels', ⟨frames', height', hheight'⟩⟩ h
  cases h.frames with
  | nil => exact .error _ { h with frames := .nil }
  | @cons frame frame' outer outer' hframe houter =>
    obtain ⟨locals, inst, labelBase⟩ := frame
    obtain ⟨locals', inst', labelBase'⟩ := frame'
    have hlocals : locals' = locals := hframe.locals
    subst hlocals
    unfold setLocal
    dsimp only
    split
    · exact .ok rfl { h with frames := .cons { hframe with locals := rfl } houter }
    · exact .error _ h

/-! ## Control -/

theorem inStep_enter (kind : LabelKind) (t : BlockType) (body : List Instr) :
    InStep (Machine.Alike p s) Eq (enter kind t body) (enter kind t body) := by
  refine .modify fun m m' h => { h with code := rfl, labels := ?_ }
  dsimp only
  rw [h.stack, h.code, h.labels]

theorem inStep_branch (depth : Nat) :
    InStep (Machine.Alike p s) Eq (branch depth) (branch depth) := by
  refine .get_bind fun m m' h => ?_
  rw [h.labels]
  dsimp only
  split
  · exact .throw _
  · refine .bind_same (inStep_onStack _) fun _ => .modify fun m m' h => ?_
    exact { h with code := rfl, labels := rfl }

theorem inStep_branchToFunc : InStep (Machine.Alike p s) Eq branchToFunc branchToFunc := by
  refine .get_bind fun m m' h => ?_
  rcases h.top with ⟨hm, hm'⟩ | ⟨frame, frame', outer, outer', hm, hm', hframe⟩
  · rw [hm, hm']
    exact .throw _
  · rw [hm, hm']
    dsimp only
    rw [h.labels, hframe.labelBase]
    split
    · exact inStep_branch _
    · exact .throw _

theorem inStep_close (label : Label) (outer : Stack Label) :
    InStep (Machine.Alike p s) Eq (close label outer) (close label outer) := by
  refine .bind_same (.modify fun m m' h => { h with code := rfl, labels := rfl }) fun _ => ?_
  refine .bind_same (inStep_onStack _) fun _ => ?_
  split
  · refine .modify fun m m' h => { h with frames := ?_ }
    rw [Stack.toList_drop, Stack.toList_drop]
    exact List.forall₂_drop 1 h.frames
  · exact .pure rfl

/-! ## Calls -/

/-- A host function sees the arguments and the earlier calls of the host, which are the same. -/
theorem inStep_callHost (hp : p.hosts) (a : FuncAddr) (type : FuncType) (run : HostFunc) :
    InStep (Machine.Alike p s) Eq (callHost a type run) (callHost a type run) := by
  refine .bind_same (inStep_onStack _) fun args => .get_bind fun m m' h => ?_
  rw [h.store.alike.hostCalls hp]
  refine .bind_same (.modify fun m m' h => { h with store := h.store.hostCall hp _ }) fun _ => ?_
  dsimp only
  split
  · exact .throw _
  · split
    · exact .throw _
    · refine .modify fun m m' h => { h with stack := ?_ }
      dsimp only
      rw [h.stack]

theorem inStep_enterFunc {i i' : ModuleInst} (hi : i.Alike p i') (type : FuncType) (code : Func) :
    InStep (Machine.Alike p s) Eq (enterFunc type i code) (enterFunc type i' code) := by
  refine .get_bind fun m m' h => ?_
  rw [h.store.alike.config, h.height]
  split
  · exact .throw _
  · refine .bind_same (inStep_onStack _) fun args => .modify fun m m' h => ?_
    refine { h with code := rfl, labels := ?_, frames := ?_ }
    · dsimp only
      rw [h.stack, h.code, h.labels]
    · rw [Stack.toList_push, Stack.toList_push]
      refine .cons ⟨rfl, ?_, hi⟩ h.frames
      dsimp only
      rw [h.labels]

/-- **Calls of paired functions.** -/
theorem inStep_call {a a' : FuncAddr} (ha : p.funcs a a') :
    InStep (Machine.Alike p s) Eq (call a) (call a') := by
  refine .get_bind fun m m' h => ?_
  have hcallee := h.store.alike.funcs ha
  generalize m.store.funcs[a]? = f, m'.store.funcs[a']? = f' at hcallee ⊢
  cases hcallee with
  | missing => exact .throw _
  | defined type code hi => exact inStep_enterFunc hi type code
  | host type run hp => exact inStep_callHost hp a type run

theorem inStep_callIndirect (t : TypeIdx) :
    InStep (Machine.Alike p s) Eq (callIndirect t) (callIndirect t) := by
  refine .bind inStep_inst fun i i' hi => ?_
  rw [hi.typeAt]
  -- Types, slots and traps are the same; only addresses are paired.
  refine .bind_same (inStep_ofExcept (.refl _)) fun expected => ?_
  refine .bind (inStep_ofExcept (hi.tableAddr 0)) fun addr addr' haddr => ?_
  refine .bind_same (inStep_onStack _) fun slot => .get_bind fun m m' h => ?_
  have htable := h.store.alike.tables haddr
  generalize m.store.tables[addr]? = table, m'.store.tables[addr']? = table' at htable ⊢
  cases htable with
  | none => exact .throw _
  | some htable =>
    refine .bind (inStep_ofExcept (htable.get _)) fun a a' ha => .get_bind fun m m' h => ?_
    rw [h.store.alike.funcType ha]
    refine .bind_same (inStep_ofExcept (.refl _)) fun found => ?_
    split
    · exact inStep_call ha
    · exact .throw _

/-! ## Memory -/

theorem inStep_memAddr : InStep (Machine.Alike p s) p.memories memAddr memAddr :=
  .bind inStep_inst fun _ _ hi => inStep_ofExcept (hi.memAddr 0)

theorem inStep_memoryAt {a a' : MemAddr} (ha : p.memories a a') :
    InStep (Machine.Alike p s) Eq (memoryAt a) (memoryAt a') := by
  refine .get_bind fun m m' h => ?_
  rw [h.store.alike.memories ha]
  split
  · exact .throw _
  · exact .pure rfl

theorem inStep_load (op : LoadOp) (arg : MemArg) :
    InStep (Machine.Alike p s) Eq (load op arg) (load op arg) := by
  refine .bind_same (inStep_onStack _) fun base => .bind inStep_memAddr fun a a' ha => ?_
  refine .bind_same (inStep_memoryAt ha) fun memory => ?_
  dsimp only
  split
  · exact inStep_onStack _
  · exact .throw _

theorem inStep_store (op : StoreOp) (arg : MemArg) :
    InStep (Machine.Alike p s) Eq (store op arg) (store op arg) := by
  refine .bind_same (inStep_onStack _) fun v => .bind_same (inStep_onStack _) fun base => ?_
  refine .bind inStep_memAddr fun a a' ha => .bind_same (inStep_memoryAt ha) fun memory => ?_
  split
  · exact .modify fun m m' h => { h with store := h.store.modifyMemory ha _ }
  · exact .throw _

theorem inStep_memorySize : InStep (Machine.Alike p s) Eq memorySize memorySize := by
  refine .bind inStep_memAddr fun a a' ha => ?_
  exact .bind_same (inStep_memoryAt ha) fun memory => inStep_onStack _

theorem inStep_grow : InStep (Machine.Alike p s) Eq grow grow := by
  refine .bind_same (inStep_onStack _) fun delta => .get_bind fun m m' h => ?_
  rw [h.store.alike.config]
  refine .bind inStep_memAddr fun a a' ha => .bind_same (inStep_memoryAt ha) fun memory => ?_
  dsimp only
  split
  · refine .bind_same (.modify fun m m' h => ?_) fun _ => inStep_onStack _
    exact { h with store := h.store.modifyMemory ha _ }
  · exact inStep_onStack _

/-! ## Globals -/

/-- Two globals that are paired, in the same state. -/
theorem inStep_globalAt (g : GlobalIdx) :
    InStep (Machine.Alike p s) (fun found found' => p.globals found.1 found'.1 ∧ found'.2 = found.2)
      (globalAt g) (globalAt g) := by
  refine .bind inStep_inst fun i i' hi => .bind (inStep_ofExcept (hi.globalAddr g)) fun a a' ha => ?_
  refine .get_bind fun m m' h => ?_
  rw [h.store.alike.globals ha]
  split
  · exact .throw _
  · exact .pure ⟨ha, rfl⟩

theorem inStep_setGlobal (g : GlobalIdx) (v : Value) :
    InStep (Machine.Alike p s) Eq (setGlobal g v) (setGlobal g v) := by
  refine .bind (inStep_globalAt g) fun found found' hfound => .modify fun m m' h => ?_
  exact { h with store := h.store.modifyGlobal hfound.1 _ }

/-! ## All instructions -/

/-- **Every instruction keeps machines alike.** -/
theorem inStep_step (i : Instr) : InStep (Machine.Alike p s) Eq (step i) (step i) := by
  cases i with
  | unreachable => exact .throw _
  | nop => exact .pure rfl
  | block t body => exact inStep_enter _ _ _
  | loop t body => exact inStep_enter _ _ _
  | ifThen t body =>
    refine .bind_same (inStep_onStack _) fun condition => ?_
    split
    · exact inStep_enter _ _ _
    · exact .pure rfl
  | ifElse t body alternate =>
    exact .bind_same (inStep_onStack _) fun condition => inStep_enter _ _ _
  | br l => exact inStep_branch _
  | brIf l =>
    refine .bind_same (inStep_onStack _) fun condition => ?_
    split
    · exact inStep_branch _
    · exact .pure rfl
  | brTable ls default => exact .bind_same (inStep_onStack _) fun i => inStep_branch _
  | ret => exact inStep_branchToFunc
  | call f =>
    refine .bind inStep_inst fun i i' hi => ?_
    exact .bind (inStep_ofExcept (hi.funcAddr f)) fun a a' ha => inStep_call ha
  | callIndirect t => exact inStep_callIndirect t
  | drop => exact .bind_same (inStep_onStack _) fun _ => .pure rfl
  | select =>
    refine .bind_same (inStep_onStack _) fun condition => ?_
    refine .bind_same (inStep_onStack _) fun second => ?_
    exact .bind_same (inStep_onStack _) fun first => inStep_onStack _
  | localGet x => exact .bind_same (inStep_getLocal x) fun v => inStep_onStack _
  | localSet x => exact .bind_same (inStep_onStack _) fun v => inStep_setLocal x v
  | localTee x =>
    refine .bind_same (inStep_onStack _) fun v => ?_
    exact .bind_same (inStep_setLocal x v) fun _ => inStep_onStack _
  | globalGet g =>
    refine .bind (inStep_globalAt g) ?_
    rintro ⟨a, global⟩ ⟨a', global'⟩ ⟨-, hglobal⟩
    dsimp only at hglobal ⊢
    rw [hglobal]
    exact inStep_onStack _
  | globalSet g => exact .bind_same (inStep_onStack _) fun v => inStep_setGlobal g v
  | load op arg => exact inStep_load op arg
  | store op arg => exact inStep_store op arg
  | memorySize => exact inStep_memorySize
  | memoryGrow => exact inStep_grow
  | const v => exact inStep_onStack (OperandM.push v)
  | numeric op => exact inStep_onStack _

/-! ## Turns -/

theorem inStep_advance (i : Instr) (rest : List Instr) :
    InStep (Machine.Alike p s) Eq (advance i rest) (advance i rest) := by
  intro m m' h
  unfold advance
  rw [h.fuel]
  split
  · exact inStep_step i _ _ { h with code := rfl, fuel := rfl }
  · exact .error _ h
  · exact inStep_step i _ _ { h with code := rfl, fuel := rfl }

/-- **One turn.** -/
theorem inStep_turn : InStep (Machine.Alike p s) Eq turn turn := by
  refine .get_bind fun m m' h => ?_
  rw [h.code]
  split
  · exact .bind_same (inStep_advance _ _) fun _ => .pure rfl
  · refine .get_bind fun m m' h => ?_
    rw [h.labels]
    split
    · exact .pure rfl
    · exact .bind_same (inStep_close _ _) fun _ => .pure rfl

/-- **Any number of turns.** -/
theorem inStep_run (turns : Nat) : InStep (Machine.Alike p s) Eq (run turns) (run turns) := by
  induction turns with
  | zero =>
    refine .get_bind fun m m' h => .pure ?_
    rw [h.code, h.labels]
  | succ turns ih =>
    refine .bind_same inStep_turn fun more => ?_
    split
    · exact ih
    · exact .pure rfl

end Exec

/-! ## Calls from outside -/

namespace Store.Alike

variable {p : Store.Pairing} {s s' : Store} {a a' : FuncAddr}

/-- Paired functions accept the same arguments. -/
theorem acceptsArgs (h : s.Alike p s') (ha : p.funcs a a') (args : List Value) :
    s'.acceptsArgs a' args = s.acceptsArgs a args := by
  unfold Store.acceptsArgs
  rw [h.funcType ha]

theorem machine (h : s.Alike p s') (args : List Value) :
    (s.machine args).Alike p s' (s'.machine args) where
  store := ⟨h, .refl s'⟩
  fuel := congrArg Config.fuel h.config
  stack := rfl
  code := rfl
  labels := rfl
  frames := .nil

/-- **Calls of paired functions come to the same**, in stores that stay alike. -/
theorem invoke (h : s.Alike p s') (ha : p.funcs a a') (turns : Nat) (args : List Value) :
    (s'.invoke turns a' args).1 = (s.invoke turns a args).1 ∧
      Store.Tracks p s' (s.invoke turns a args).2 (s'.invoke turns a' args).2 := by
  have haccepts := h.acceptsArgs ha args
  cases hargs : s.acceptsArgs a args with
  | error t =>
    rw [hargs] at haccepts
    unfold Store.invoke
    rw [hargs, haccepts]
    exact ⟨rfl, h, .refl s'⟩
  | ok u =>
    rw [hargs] at haccepts
    rw [invoke_eq turns hargs, invoke_eq turns haccepts]
    have hrun : Move.InStep (Machine.Alike p s') Eq (do Exec.call a; Exec.run turns)
        (do Exec.call a'; Exec.run turns) :=
      .bind_same (Exec.inStep_call ha) fun _ => Exec.inStep_run turns
    rcases hrun.ends (h.machine args) with
      ⟨t, m, m', hm, hm', halike⟩ | ⟨finished, m, _, m', hm, hm', rfl, halike⟩
    · rw [hm, hm']
      exact ⟨rfl, halike.store⟩
    · rw [hm, hm']
      cases finished with
      | false => exact ⟨rfl, halike.store⟩
      | true =>
        refine ⟨?_, halike.store⟩
        unfold Store.outcome
        dsimp only
        rw [halike.stack]

end Store.Alike

end WasmCore
