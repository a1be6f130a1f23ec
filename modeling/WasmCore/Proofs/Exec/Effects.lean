import WasmCore.Proofs.Exec.Soundness
import WasmCore.Proofs.Store.Extension

/-!
# `Exec.Effects` — what running code does to a store

Code changes a store in four ways only: it writes bytes to a memory, grows one, sets a global, and calls
the host. So whatever relation between stores holds across each of them holds across any code. That the
store extends is seen that way for three of them, from the instruction alone. A global is set without a
look at its type, so that constant globals stay constant only because the code was checked: its module
declares the global as mutable, and what the instance refers to has exactly the declared type.

* `Store.Effect`: what an instruction may do, setting a global apart;
* `keeps_step`: **every instruction but one** keeps what all effects keep, checked or not;
* `keeps_turn`, `keeps_run`, `Store.keeps_invoke`: code of any kind, where setting a global is fine as
  well;
* `Machine.Extends`, `extends_globalSet`: the remaining instruction, on a mutable global;
* `Machine.Typed.extends_turn`, `Machine.Typed.extends_run`: **checked code only extends the store**;
* `Store.WellFormed.extends_invoke`: calls from outside.
-/

namespace WasmCore

/-- **What an instruction may do to a store**, other than to leave it alone or to set a global. -/
inductive Store.Effect (s : Store) : Store → Prop
  | hostCall (c : HostCall) : s.Effect { s with hostCalls := s.hostCalls.push c }
  | write (a : MemAddr) (start : Nat) (bytes : List UInt8) :
    s.Effect (s.overwriteMemory a start bytes)
  | grow {a : MemAddr} {memory : Memory} {delta : Nat} (ha : s.memories[a]? = some memory)
      (hdelta : memory.canGrow delta s.config.maxMemoryPages = true) :
    s.Effect { s with memories := s.memories.modify a (·.extend delta) }

/-- A relation between the stores of two machines. -/
def Machine.InStore (R : Store → Store → Prop) (m m' : Machine) : Prop := R m.store m'.store

instance (R : Store → Store → Prop) [IsPreorder Store R] : IsPreorder Machine (Machine.InStore R) where
  refl m := refl_of R m.store
  trans _ _ _ h h' := trans_of R h h'

namespace Exec

open Move (Keeps)
open Machine (InStore)

variable {α β : Type} {R : Store → Store → Prop} [IsPreorder Store R]

/-! ## Moves that leave the store alone -/

theorem keeps_onStack (f : OperandM α) : Keeps (InStore R) (onStack f) := by
  intro m
  cases h : f m.stack with
  | ok a stack => rw [onStack_of_ok h]; exact refl_of R m.store
  | error t stack => rw [onStack_of_error h]; exact refl_of R m.store

theorem keeps_ofExcept (x : Except Trap α) : Keeps (InStore R) (ofExcept x) := by
  cases x with
  | ok a => exact .pure a
  | error t => exact .throw t

theorem keeps_inst : Keeps (InStore R) inst := by
  intro m
  unfold inst
  split <;> exact refl_of R m.store

theorem keeps_getLocal (x : LocalIdx) : Keeps (InStore R) (getLocal x) := by
  intro m
  unfold getLocal
  split
  · exact refl_of R m.store
  · split <;> exact refl_of R m.store

theorem keeps_setLocal (x : LocalIdx) (v : Value) : Keeps (InStore R) (setLocal x v) := by
  intro m
  unfold setLocal
  split
  · dsimp only
    split <;> exact refl_of R _
  · exact refl_of R _

/-- A change of the machine outside the store. -/
theorem keeps_modify {g : Machine → Machine} (hg : ∀ m, (g m).store = m.store) :
    Keeps (InStore R) (modify g : Exec PUnit) := by
  refine .modify fun m => ?_
  unfold InStore
  rw [hg m]
  exact refl_of R m.store

theorem keeps_enter (kind : LabelKind) (t : BlockType) (body : List Instr) :
    Keeps (InStore R) (enter kind t body) := keeps_modify fun _ => rfl

theorem keeps_branch (depth : Nat) : Keeps (InStore R) (branch depth) := by
  refine .get_bind fun m => ?_
  dsimp only
  split
  · exact .throw _
  · exact .bind (keeps_onStack _) fun _ => keeps_modify fun _ => rfl

theorem keeps_branchToFunc : Keeps (InStore R) branchToFunc := by
  refine .get_bind fun m => ?_
  split
  · exact .throw _
  · split
    · exact keeps_branch _
    · exact .throw _

theorem keeps_close (label : Label) (outer : Stack Label) :
    Keeps (InStore R) (close label outer) := by
  refine .bind (keeps_modify fun _ => rfl) fun _ => .bind (keeps_onStack _) fun _ => ?_
  split
  · exact keeps_modify fun _ => rfl
  · exact .pure _

theorem keeps_enterFunc (type : FuncType) (inst : ModuleInst) (code : Func) :
    Keeps (InStore R) (enterFunc type inst code) := by
  refine .get_bind fun m => ?_
  split
  · exact .throw _
  · exact .bind (keeps_onStack _) fun args => keeps_modify fun _ => rfl

/-- Finding the memory of the function under way changes nothing at all. -/
theorem memAddr_cases (m : Machine) :
    (∃ t, memAddr m = .error t m) ∨ ∃ a, memAddr m = .ok a m := by
  unfold memAddr
  cases hinst : inst m with
  | error t m' =>
    have hm : m' = m := by
      unfold inst at hinst
      split at hinst <;> cases hinst
      rfl
    rw [Move.bind_of_error hinst, hm]
    exact .inl ⟨t, rfl⟩
  | ok i m' =>
    have hm : m' = m := by
      unfold inst at hinst
      split at hinst <;> cases hinst
      rfl
    rw [Move.bind_of_ok hinst, hm]
    cases i.memAddr 0 with
    | error t => exact .inl ⟨t, rfl⟩
    | ok a => exact .inr ⟨a, rfl⟩

theorem keeps_memAddr : Keeps (InStore R) memAddr := .bind keeps_inst fun _ => keeps_ofExcept _

theorem keeps_memoryAt (a : MemAddr) : Keeps (InStore R) (memoryAt a) := by
  refine .get_bind fun m => ?_
  split
  · exact .throw _
  · exact .pure _

theorem keeps_load (op : LoadOp) (arg : MemArg) : Keeps (InStore R) (load op arg) := by
  refine .bind (keeps_onStack _) fun base => .bind keeps_memAddr fun a => ?_
  refine .bind (keeps_memoryAt a) fun memory => ?_
  dsimp only
  split
  · exact keeps_onStack _
  · exact .throw _

theorem keeps_memorySize : Keeps (InStore R) memorySize :=
  .bind keeps_memAddr fun a => .bind (keeps_memoryAt a) fun _ => keeps_onStack _

theorem keeps_globalAt (g : GlobalIdx) : Keeps (InStore R) (globalAt g) := by
  refine .bind keeps_inst fun i => .bind (keeps_ofExcept _) fun a => .get_bind fun m => ?_
  split
  · exact .throw _
  · exact .pure _

/-! ## Moves that change the store -/

section Effects

variable (hR : ∀ {s s' : Store}, s.Effect s' → R s s')

include hR

/-- A host function cannot reach into the store; that it was called is recorded. -/
theorem keeps_callHost (a : FuncAddr) (type : FuncType) (run : HostFunc) :
    Keeps (InStore R) (callHost a type run) := by
  refine .bind (keeps_onStack _) fun args => .get_bind fun m => ?_
  refine .bind (.modify fun m => hR (.hostCall _)) fun _ => ?_
  split
  · exact .throw _
  · dsimp only
    split
    · exact .throw _
    · exact keeps_modify fun _ => rfl

theorem keeps_call (a : FuncAddr) : Keeps (InStore R) (call a) := by
  refine .get_bind fun m => ?_
  split
  · exact .throw _
  · exact keeps_enterFunc _ _ _
  · exact keeps_callHost hR _ _ _

theorem keeps_callIndirect (t : TypeIdx) : Keeps (InStore R) (callIndirect t) := by
  refine .bind keeps_inst fun i => .bind (keeps_ofExcept _) fun expected => ?_
  refine .bind (keeps_ofExcept _) fun tableAddr => .bind (keeps_onStack _) fun slot => ?_
  refine .get_bind fun m => ?_
  split
  · exact .throw _
  · refine .bind (keeps_ofExcept _) fun a => .get_bind fun m => ?_
    refine .bind (keeps_ofExcept _) fun found => ?_
    split
    · exact keeps_call hR a
    · exact .throw _

theorem keeps_store (op : StoreOp) (arg : MemArg) : Keeps (InStore R) (store op arg) := by
  refine .bind (keeps_onStack _) fun v => .bind (keeps_onStack _) fun base => ?_
  refine .bind keeps_memAddr fun a => .bind (keeps_memoryAt a) fun memory => ?_
  split
  · exact .modify fun m => hR (.write a _ _)
  · exact .throw _

/-- The memory that grows is the one that was asked whether it can. -/
theorem keeps_grow : Keeps (InStore R) grow := by
  refine .bind (keeps_onStack _) fun delta => ?_
  intro m
  rw [Move.get_bind]
  rcases memAddr_cases m with ⟨t, haddr⟩ | ⟨a, haddr⟩
  · rw [Move.bind_of_error haddr]
    exact refl_of R m.store
  · rw [Move.bind_of_ok haddr]
    cases hmemory : m.store.memories[a]? with
    | none =>
      have hat : memoryAt a m = .error (.invalidIndex .memory 0) m := by
        rw [memoryAt, Move.get_bind, hmemory]
        rfl
      rw [Move.bind_of_error hat]
      exact refl_of R m.store
    | some memory =>
      have hat : memoryAt a m = .ok memory m := by
        rw [memoryAt, Move.get_bind, hmemory]
        rfl
      rw [Move.bind_of_ok hat]
      dsimp only
      split
      · exact hR (.grow hmemory ‹_›)
      · exact refl_of R m.store

/-- **Every instruction but one** keeps what all effects keep, whatever state it is executed in. -/
theorem keeps_step (i : Instr) (hi : ∀ g, i ≠ .globalSet g) : Keeps (InStore R) (step i) := by
  cases i with
  | unreachable => exact .throw _
  | nop => exact .pure _
  | block t body => exact keeps_enter _ _ _
  | loop t body => exact keeps_enter _ _ _
  | ifThen t body =>
    refine .bind (keeps_onStack _) fun condition => ?_
    split
    · exact keeps_enter _ _ _
    · exact .pure _
  | ifElse t body alternate => exact .bind (keeps_onStack _) fun condition => keeps_enter _ _ _
  | br l => exact keeps_branch _
  | brIf l =>
    refine .bind (keeps_onStack _) fun condition => ?_
    split
    · exact keeps_branch _
    · exact .pure _
  | brTable ls default => exact .bind (keeps_onStack _) fun i => keeps_branch _
  | ret => exact keeps_branchToFunc
  | call f => exact .bind keeps_inst fun i => .bind (keeps_ofExcept _) fun a => keeps_call hR a
  | callIndirect t => exact keeps_callIndirect hR t
  | drop => exact .bind (keeps_onStack _) fun _ => .pure _
  | select =>
    refine .bind (keeps_onStack _) fun condition => .bind (keeps_onStack _) fun second => ?_
    exact .bind (keeps_onStack _) fun first => keeps_onStack _
  | localGet x => exact .bind (keeps_getLocal x) fun v => keeps_onStack _
  | localSet x => exact .bind (keeps_onStack _) fun v => keeps_setLocal x v
  | localTee x =>
    exact .bind (keeps_onStack _) fun v => .bind (keeps_setLocal x v) fun _ => keeps_onStack _
  | globalGet g => exact .bind (keeps_globalAt g) fun _ => keeps_onStack _
  | globalSet g => exact absurd rfl (hi g)
  | load op arg => exact keeps_load op arg
  | store op arg => exact keeps_store hR op arg
  | memorySize => exact keeps_memorySize
  | memoryGrow => exact keeps_grow hR
  | const v => exact keeps_onStack (OperandM.push v)
  | numeric op => exact keeps_onStack _

/-! ## Code of any kind -/

variable (hset : ∀ (s : Store) (a : GlobalAddr) (v : Value),
  R s { s with globals := s.globals.modify a fun global => { global with value := v } })

include hset

/-- An instruction of any kind, paid for or not. -/
theorem keeps_advance (i : Instr) (rest : List Instr) : Keeps (InStore R) (advance i rest) := by
  have hstep : Keeps (InStore R) (step i) := by
    by_cases hi : ∃ g, i = .globalSet g
    · obtain ⟨g, rfl⟩ := hi
      refine .bind (keeps_onStack _) fun v => .bind (keeps_globalAt g) fun found => ?_
      exact .modify fun m => hset m.store found.1 v
    · exact keeps_step hR i fun g hg => hi ⟨g, hg⟩
  intro m
  unfold advance
  split
  · exact hstep { m with code := rest }
  · exact refl_of R m.store
  · rename_i n _
    exact hstep { m with code := rest, fuel := some n }

theorem keeps_turn : Keeps (InStore R) turn := by
  refine .get_bind fun m => ?_
  split
  · exact .bind (keeps_advance hR hset _ _) fun _ => .pure _
  · refine .get_bind fun m' => ?_
    split
    · exact .pure _
    · exact .bind (keeps_close _ _) fun _ => .pure _

theorem keeps_run (turns : Nat) : Keeps (InStore R) (run turns) := by
  induction turns with
  | zero => exact .get_bind fun m => .pure _
  | succ turns ih =>
    refine .bind (keeps_turn hR hset) fun more => ?_
    split
    · exact ih
    · exact .pure _

end Effects

end Exec

namespace Store

theorem outcome_store (r : EStateM.Result Trap Machine Bool) :
    (outcome r).2 = (Move.after r).store := by
  cases r with
  | ok done m => cases done <;> rfl
  | error t m => rfl

/-- **A call from outside keeps what all effects keep**, whatever code it runs. -/
theorem keeps_invoke {R : Store → Store → Prop} [IsPreorder Store R]
    (hR : ∀ {s s' : Store}, s.Effect s' → R s s')
    (hset : ∀ (s : Store) (a : GlobalAddr) (v : Value),
      R s { s with globals := s.globals.modify a fun global => { global with value := v } })
    (turns : Nat) (s : Store) (a : FuncAddr) (args : List Value) :
    R s (s.invoke turns a args).2 := by
  cases h : s.acceptsArgs a args with
  | error t =>
    have hinvoke : s.invoke turns a args = (.failed t, s) := by rw [Store.invoke, h]
    rw [hinvoke]
    exact refl_of R s
  | ok u =>
    have hrun : Move.Keeps (Machine.InStore R) (do Exec.call a; Exec.run turns) :=
      .bind (Exec.keeps_call hR a) fun _ => Exec.keeps_run hR hset turns
    rw [invoke_eq turns h, outcome_store]
    exact hrun (s.machine args)

end Store

/-! ## Extension -/

/-- The store of a later machine extends that of an earlier one. -/
def Machine.Extends (m m' : Machine) : Prop := m.store.Extends m'.store

theorem grownTo_extend (m : Memory) (delta : Nat) : m.GrownTo (m.extend delta) := by
  constructor
  · rw [Memory.extend]
  · rw [Memory.pages_extend]
    exact Nat.le_add_right _ _

theorem Store.Effect.extends {s s' : Store} (h : s.Effect s') : s.Extends s' := by
  cases h with
  | hostCall c => exact ⟨rfl, List.prefix_rfl, .refl _, .refl _, .refl _⟩
  | write a start bytes => exact s.extends_overwriteMemory a start bytes
  | @grow a memory delta ha hdelta =>
    exact Store.extends_modifyMemory a fun m => grownTo_extend m delta

/-- **Setting a global that is mutable.** Any other global keeps its value. -/
theorem Exec.extends_globalSet {a : Activation} {k : Surroundings} {g : GlobalIdx} {addr : GlobalAddr}
    {global : GlobalInst} (haddr : a.inst.globalAddr g = .ok addr)
    (hglobal : a.store.globals[addr]? = some global) (hvar : global.type.mutability = .var)
    {v : Value} {rest : List Value} (hops : a.operands = v :: rest) :
    Machine.Extends (a.on k) (Move.after (step (.globalSet g) (a.on k))) := by
  have hstep : step (.globalSet g) (a.on k) = setGlobal g v ({ a with operands := rest }.on k) :=
    Move.bind_of_ok (Activation.pop_on (v := v) hops)
  have hset := Move.bind_of_ok (f := fun p : GlobalAddr × GlobalInst => (modify fun m : Machine =>
      { m with store := { m.store with
          globals := m.store.globals.modify p.1 fun global => { global with value := v } } }
      : Exec Unit))
    (Activation.globalAt_on (a := { a with operands := rest }) (k := k) haddr hglobal)
  rw [hstep, show setGlobal g v _ = _ from hset]
  refine Store.extends_modifyGlobal fun global' hglobal' => ?_
  cases hglobal.symm.trans hglobal'
  exact hvar

/-! ## Checked code -/

namespace Machine.Typed

open Activation (turn_step)

variable {m : Machine} {origins : List (Option Module)} {results : List ValType}

/-- An instruction of a checked body. -/
theorem extends_step {a : Activation} {k : Surroundings} {C : Scope} {i : Instr}
    {ins outs below : List ValType} (ha : a.Typed origins C) (hi : Instr.HasType C i ins outs)
    (hops : a.operands.map Value.type = (below ++ ins).reverse) :
    Machine.Extends (a.on k) (Move.after (Exec.step i (a.on k))) := by
  by_cases hset : ∃ g, i = .globalSet g
  · obtain ⟨g, rfl⟩ := hset
    cases hi with
    | globalSet hg hvar =>
      -- The instance refers to a global of exactly the declared type, and that is mutable.
      obtain ⟨addr, global, haddr, hglobal, rfl⟩ := ha.inst.globalAddr hg
      rw [List.reverse_concat] at hops
      obtain ⟨v, rest, hv, -, -⟩ := List.map_eq_cons_iff.mp hops
      exact Exec.extends_globalSet haddr hglobal hvar hv
  · exact Exec.keeps_step Store.Effect.extends i (fun g hg => hset ⟨g, hg⟩) _

/-- At the end of a block. -/
theorem extends_turn_of_nil (hcode : m.code = []) : m.Extends (Move.after (Exec.turn m)) := by
  obtain ⟨store, fuel, stack, code, ⟨labels, height, hheight⟩, frames⟩ := m
  subst hcode
  cases labels with
  | nil => exact .refl store
  | cons label outer =>
    have hkeeps : ∀ outer, Move.Keeps (Machine.InStore Store.Extends)
        (do Exec.close label outer; return true : Exec Bool) :=
      fun outer => .bind (Exec.keeps_close label outer) fun _ => .pure _
    exact hkeeps _ _

/-- **One turn.** -/
theorem extends_turn (h : m.Typed origins results) : m.Extends (Move.after (Exec.turn m)) := by
  cases h with
  | finished _ hcode => exact extends_turn_of_nil hcode
  | @running a k C ins ends ha hk hops htype =>
    cases hcode : k.code with
    | nil => exact extends_turn_of_nil hcode
    | cons i rest =>
      rw [hcode] at htype
      obtain ⟨below, ins', mid, rfl, hi, -⟩ := htype.inv_cons
      rw [turn_step hcode]
      cases hcharge : a.charge with
      | none => exact .refl _
      | some b =>
        obtain ⟨fuel, rfl⟩ := charge_some hcharge
        have hstep := extends_step (k := { k with code := rest }) (ha.setFuel fuel) hi hops
        dsimp only
        cases hrun : Exec.step i (({ a with fuel } : Activation).on { k with code := rest }) with
        | ok u m' => rw [hrun] at hstep; rw [Move.bind_of_ok hrun]; exact hstep
        | error t m' => rw [hrun] at hstep; rw [Move.bind_of_error hrun]; exact hstep

/-- **Any number of turns.** -/
theorem extends_run (h : m.Typed origins results) (turns : Nat) :
    m.Extends (Move.after (Exec.run turns m)) := by
  induction turns generalizing m with
  | zero => exact .refl _
  | succ turns ih =>
    have hturn := h.extends_turn
    have hsound := h.turn
    cases ht : Exec.turn m with
    | error t m' =>
      rw [ht] at hturn
      rw [show Exec.run (turns + 1) m = .error t m' from Move.bind_of_error ht]
      exact hturn
    | ok more m' =>
      rw [ht] at hturn hsound
      cases more with
      | true =>
        rw [show Exec.run (turns + 1) m = Exec.run turns m' from Move.bind_of_ok ht]
        exact Store.Extends.trans hturn (ih hsound.1)
      | false =>
        rw [show Exec.run (turns + 1) m = .ok true m' from Move.bind_of_ok ht]
        exact hturn

end Machine.Typed

/-! ## Calls from outside -/

namespace Store

variable {s : Store} {origins : List (Option Module)}

/-- **A call from outside only extends the store**, whether it ends, traps or is cut off. -/
theorem WellFormed.extends_invoke (hs : s.WellFormed origins) (turns : Nat) (a : FuncAddr)
    (args : List Value) : s.Extends (s.invoke turns a args).2 := by
  cases h : s.acceptsArgs a args with
  | error t =>
    have hinvoke : s.invoke turns a args = (.failed t, s) := by rw [Store.invoke, h]
    rw [hinvoke]
    exact .refl s
  | ok u =>
    obtain ⟨type, hf, hargs⟩ := acceptsArgs_eq_ok_iff.mp h
    have hcall : s.Extends (Move.after (Exec.call a (s.machine args))).store :=
      Exec.keeps_call Store.Effect.extends a (s.machine args)
    have hsound := hs.call hf hargs
    rw [invoke_eq turns h, outcome_store]
    cases hc : Exec.call a (s.machine args) with
    | error t m => rw [hc] at hcall; rw [Move.bind_of_error hc]; exact hcall
    | ok u m =>
      rw [hc] at hcall hsound
      rw [Move.bind_of_ok hc]
      exact hcall.trans (hsound.1.extends_run turns)

end Store

end WasmCore
