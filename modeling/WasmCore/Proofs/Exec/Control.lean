import WasmCore.Exec.Invoke
import WasmCore.Proofs.Exec.Activation

/-!
# `Exec.Control` — blocks, branches and calls

Entering a block moves the operands of the block around it into the surroundings, and leaving it
brings them back. This file says once what each transfer of control does to an activation and its
surroundings; nothing here depends on types.

* `Surroundings.enter`, `Surroundings.call`, `Surroundings.entry`: what a block, a call and the call
  from outside put around a body;
* `enter_on`, `turn_end_enter`, `turn_end_call`, `turn_end_entry`: the beginning and the end of a body;
* `branchToFunc_on`: a return as a branch;
* `Surroundings.Lands`, `lands_zero`, `lands_succ_enter`: **branches, one block at a time.** A branch to
  the innermost block keeps its values; a branch further out is a branch in the code around that block;
* `enterFunc_on`, `callHost_on`, `Leads`, `callIndirect_on`: calls.
-/

namespace WasmCore

/-- The number of values that a branch to a block carries. -/
def LabelKind.branchArity (kind : LabelKind) (t : BlockType) : Nat :=
  match kind with
  | .loop _ => 0
  | _ => t.arity

namespace Surroundings

/-- Inside one more block: `vs` are the operands that it does not see. -/
def enter (k : Surroundings) (vs : List Value) (kind : LabelKind) (branchArity endArity : Nat)
    (body : List Instr) : Surroundings :=
  { k with
    under := k.under.pushAll vs
    code := body
    labels := k.labels.push
      { kind, branchArity, endArity, height := k.under.height + vs.length, rest := k.code } }

/-- Inside a function that was called by `caller`. -/
def call (k : Surroundings) (caller : Activation) (arity : Nat) (body : List Instr) :
    Surroundings where
  under := k.under.pushAll caller.operands
  code := body
  labels := k.labels.push
    { kind := .func, branchArity := arity, endArity := arity,
      height := k.under.height + caller.operands.length, rest := k.code }
  labelBase := k.labels.height
  frames := k.frames.push ⟨caller.locals, caller.inst, k.labelBase⟩

/-- Inside the function that was called from outside. -/
def entry (arity : Nat) (body : List Instr) : Surroundings where
  under := ∅
  code := body
  labels := (∅ : Stack Label).push
    { kind := .func, branchArity := arity, endArity := arity, height := 0, rest := [] }
  labelBase := 0
  frames := ∅

end Surroundings

/-- **Where a branch leads.** A branch to the label at depth `d`, from an activation with `n` values to
    carry, keeps these and goes on in surroundings `k'`. -/
def Surroundings.Lands (k : Surroundings) (d n : Nat) (k' : Surroundings) : Prop :=
  ∀ (a : Activation) (top rest : List Value), a.operands = top ++ rest → top.length = n →
    Exec.branch d (a.on k) = .ok () ({ a with operands := top }.on k')

/-- What a call of a host function does to a store. The call is recorded whether the function fails
    or not. -/
def Store.callHost (s : Store) (addr : FuncAddr) (type : FuncType) (run : HostFunc)
    (args : List Value) : Except Trap (List Value) × Store :=
  let s' := { s with hostCalls := s.hostCalls.push { func := addr, args } }
  match run s.hostCalls args with
  | .error failure => (.error (.host failure), s')
  | .ok given =>
    let results := Exec.hostResults type.results given
    match mismatch? type.results results with
    | some m => (.error (.hostResult m.index m.expected m.found), s')
    | none => (.ok results, s')

namespace Activation

variable {a : Activation} {k : Surroundings}

theorem pushAll_pushAll (s : Operands) (xs ys : List Value) :
    (s.pushAll xs).pushAll ys = s.pushAll (ys ++ xs) := by
  apply Stack.ext
  simp only [Stack.toList_pushAll, List.append_assoc]

/-- Unwinding keeps the top operands and what is below the innermost block. -/
theorem unwind_on {top rest : List Value} (ha : a.operands = top ++ rest) :
    Exec.unwind k.under.height top.length (a.on k) = .ok () ({ a with operands := top }.on k) := by
  have hs : (a.on k).stack = (k.under.pushAll rest).pushAll top := by
    rw [pushAll_pushAll, ← ha]; rfl
  have h := OperandM.unwind_pushAll top rest k.under
  rw [← hs] at h
  exact Exec.onStack_of_ok h

/-! ## Blocks -/

theorem enter_on (kind : LabelKind) (t : BlockType) (body : List Instr) :
    Exec.enter kind t body (a.on k) = .ok ()
      ({ a with operands := [] }.on
        (k.enter a.operands kind (kind.branchArity t) t.arity body)) := by
  have hs : (k.under.pushAll a.operands).pushAll [] = k.under.pushAll a.operands := by
    rw [pushAll_pushAll]; rfl
  show EStateM.Result.ok () _ = _
  simp only [on, Surroundings.enter, hs]
  rfl

/-- What closing a block does to the frames. -/
def leave : LabelKind → Exec Unit
  | .func => modify fun m => { m with frames := m.frames.drop 1 }
  | _ => return ()

/-- What is left of the innermost block is nothing. -/
theorem turn_end {label : Label} {outer : Stack Label} (hcode : k.code = [])
    (hl : k.labels = outer.push label) (hheight : label.height = k.under.height)
    (harity : label.endArity = a.operands.length) :
    Exec.turn (a.on k) =
      (do leave label.kind; return true : Exec Bool)
        (a.on { k with code := label.rest, labels := outer }) := by
  obtain ⟨under, code, labels, labelBase, frames⟩ := k
  subst hcode hl
  let k' : Surroundings := ⟨under, label.rest, outer, labelBase, frames⟩
  have hunwind : Exec.unwind label.height label.endArity (a.on k') = .ok () (a.on k') := by
    rw [hheight, harity]
    exact unwind_on (k := k') (List.append_nil _).symm
  show (do (do Exec.unwind label.height label.endArity; leave label.kind); return true
    : Exec Bool) (a.on k') = _
  rw [bind_assoc]
  exact Move.bind_of_ok hunwind

/-- A block that has run to its end leaves its values above the operands that it did not see. -/
theorem turn_end_enter {vs : List Value} {kind : LabelKind} {branchArity : Nat}
    (hkind : kind ≠ .func) :
    Exec.turn (a.on (k.enter vs kind branchArity a.operands.length [])) =
      .ok true ({ a with operands := a.operands ++ vs }.on k) := by
  rw [turn_end rfl rfl rfl rfl]
  cases kind with
  | func => exact absurd rfl hkind
  | _ => simp only [on, Surroundings.enter, pushAll_pushAll]; rfl

/-- A function that has run to its end leaves its results above the operands of its caller. -/
theorem turn_end_call {caller : Activation} :
    Exec.turn (a.on (k.call caller a.operands.length [])) =
      .ok true ({ a with inst := caller.inst, locals := caller.locals,
                         operands := a.operands ++ caller.operands }.on k) := by
  rw [turn_end rfl rfl rfl rfl]
  simp only [on, Surroundings.call, pushAll_pushAll]; rfl

/-- The machine at the end of a call from outside. -/
def finished (a : Activation) : Machine where
  store := a.store
  fuel := a.fuel
  stack := .ofList a.operands
  code := []
  labels := ∅
  frames := ∅

theorem turn_end_entry :
    Exec.turn (a.on (.entry a.operands.length [])) = .ok true a.finished := by
  rw [turn_end rfl rfl rfl rfl]
  have hs : (∅ : Operands).pushAll a.operands = .ofList a.operands := by
    apply Stack.ext
    simp
  simp only [on, Surroundings.entry, hs]; rfl

/-! ## Branches -/

/-- A return is a branch to the label that is as far out as the function under way. -/
theorem branchToFunc_on (depth : Nat) (h : k.labels.height = k.labelBase + depth + 1) :
    Exec.branchToFunc (a.on k) = Exec.branch depth (a.on k) := by
  have hdepth : k.labels.height - 1 - k.labelBase = depth := by omega
  show (if k.labelBase < k.labels.height then Exec.branch (k.labels.height - 1 - k.labelBase)
    else _ : Exec Unit) (a.on k) = _
  rw [if_pos (by omega), hdepth]

/-- A branch looks only at the operands and the labels that are left. -/
theorem branch_eq_ok_iff {m m' : Machine} {d : Nat} :
    Exec.branch d m = .ok () m' ↔ ∃ label outer stack,
      (m.labels.drop d).toList = label :: outer ∧
      OperandM.unwind label.height label.branchArity m.stack = .ok () stack ∧
      m' = { m with stack, code := label.kind.target, labels := m.labels.drop d } := by
  simp only [Exec.branch, Move.get_bind]
  cases hl : (m.labels.drop d).toList with
  | nil =>
    constructor
    · intro h; cases h
    · rintro ⟨_, _, _, h, -⟩; cases h
  | cons label outer =>
    cases hu : OperandM.unwind label.height label.branchArity m.stack with
    | ok u stack =>
      have hrun : Exec.unwind label.height label.branchArity m = .ok u { m with stack } :=
        Exec.onStack_of_ok hu
      show (Exec.unwind label.height label.branchArity >>= fun _ => _ : Exec Unit) m = _ ↔ _
      rw [Move.bind_of_ok hrun]
      constructor
      · intro h; cases h; exact ⟨label, outer, stack, rfl, hu, rfl⟩
      · rintro ⟨_, _, stack', h, hu', rfl⟩
        cases h
        cases hu.symm.trans hu'
        rfl
    | error t stack =>
      have hrun : Exec.unwind label.height label.branchArity m = .error t { m with stack } :=
        Exec.onStack_of_error hu
      show (Exec.unwind label.height label.branchArity >>= fun _ => _ : Exec Unit) m = _ ↔ _
      rw [Move.bind_of_error hrun]
      constructor
      · intro h; cases h
      · rintro ⟨_, _, stack', h, hu', -⟩
        cases h
        cases hu.symm.trans hu'

/-- A branch to the innermost label goes on with the code of the label. -/
theorem lands_zero {label : Label} {outer : Stack Label} {n : Nat}
    (hl : k.labels = outer.push label) (hheight : label.height = k.under.height)
    (harity : label.branchArity = n) : k.Lands 0 n { k with code := label.kind.target } := by
  intro a top rest ha hn
  have htop : ((a.on k).labels.drop 0).toList = label :: outer.toList := by
    show k.labels.toList = _
    rw [hl]; rfl
  have hs : (a.on k).stack = (k.under.pushAll rest).pushAll top := by
    rw [pushAll_pushAll, ← ha]; rfl
  have hunwind := OperandM.unwind_pushAll top rest k.under
  rw [← hs, ← hheight, hn, ← harity] at hunwind
  exact branch_eq_ok_iff.mpr ⟨label, outer.toList, _, htop, hunwind, rfl⟩

/-- A branch to the body of a function ends the body. -/
theorem lands_call (caller : Activation) (n : Nat) :
    (k.call caller n []).Lands 0 n (k.call caller n []) :=
  lands_zero (k := k.call caller n []) rfl rfl rfl

theorem lands_entry (n : Nat) : (Surroundings.entry n []).Lands 0 n (.entry n []) :=
  lands_zero (k := .entry n []) rfl rfl rfl

/-- A branch past a block is a branch in the code around it. -/
theorem lands_succ_enter {k' : Surroundings} {vs : List Value} {kind : LabelKind}
    {branchArity endArity d n : Nat} {code : List Instr} (h : k.Lands d n k') :
    (k.enter vs kind branchArity endArity code).Lands (d + 1) n k' := by
  intro a top rest ha hn
  have hrest : a.operands ++ vs = top ++ (rest ++ vs) := by rw [ha, List.append_assoc]
  obtain ⟨label, outer, stack, hl, hu, hm⟩ :=
    branch_eq_ok_iff.mp (h { a with operands := a.operands ++ vs } top (rest ++ vs) hrest hn)
  have hs : (a.on (k.enter vs kind branchArity endArity code)).stack =
      k.under.pushAll (a.operands ++ vs) := pushAll_pushAll _ _ _
  have hdrop : (k.enter vs kind branchArity endArity code).labels.drop (d + 1) =
      k.labels.drop d := Stack.ext rfl
  refine branch_eq_ok_iff.mpr ⟨label, outer, stack, ?_, ?_, ?_⟩
  · show ((k.enter vs kind branchArity endArity code).labels.drop (d + 1)).toList = _
    rw [hdrop]; exact hl
  · rw [hs]; exact hu
  · refine hm.trans ?_
    simp only [on, hdrop]; rfl

/-! ## Fuel -/

/-- An activation that has paid for one instruction; none if it cannot. -/
def charge (a : Activation) : Option Activation :=
  match a.fuel with
  | none => some a
  | some 0 => none
  | some (n + 1) => some { a with fuel := some n }

/-- A turn that executes an instruction first pays for it. -/
theorem turn_step {i : Instr} {rest : List Instr} (hcode : k.code = i :: rest) :
    Exec.turn (a.on k) =
      match a.charge with
      | none => .error .outOfFuel (a.on k)
      | some a' => (do Exec.step i; return true : Exec Bool) (a'.on { k with code := rest }) := by
  obtain ⟨under, code, labels, labelBase, frames⟩ := k
  subst hcode
  obtain ⟨store, fuel, inst, locals, operands⟩ := a
  match fuel with
  | none => rfl
  | some 0 => rfl
  | some (n + 1) => rfl

/-! ## Calls -/

/-- A machine pops the arguments on top of its operands. -/
theorem popArgs_eq {m : Machine} {stack : Operands} {args : List Value}
    (hs : m.stack = stack.pushAll args.reverse) :
    Exec.popArgs args.length m = .ok args { m with stack } := by
  have h := OperandM.popArgs_pushAll args stack
  rw [← hs] at h
  exact Exec.onStack_of_ok h

/-- **A call of a host function** on a machine with its arguments on top. -/
theorem callHost_eq {m : Machine} {stack : Operands} {args : List Value} {addr : FuncAddr}
    {type : FuncType} {run : HostFunc} (hs : m.stack = stack.pushAll args.reverse)
    (hargs : args.length = type.params.length) :
    Exec.callHost addr type run m =
      match m.store.callHost addr type run args with
      | (.ok results, store) => .ok () { m with store, stack := stack.pushAll results.reverse }
      | (.error t, store) => .error t { m with store, stack } := by
  have hpop : Exec.popArgs type.params.length m = .ok args { m with stack } :=
    hargs ▸ popArgs_eq hs
  refine (Move.bind_of_ok hpop).trans ?_
  unfold Store.callHost
  let store := { m.store with hostCalls := m.store.hostCalls.push { func := addr, args } }
  show (match run m.store.hostCalls args with | .error failure => _ | .ok given => _ : Exec Unit)
    { m with store, stack } = _
  cases hrun : run m.store.hostCalls args with
  | error failure => rfl
  | ok given =>
    show (match mismatch? type.results (Exec.hostResults type.results given) with
      | some mismatch => _ | none => _ : Exec Unit) { m with store, stack } = _
    dsimp only
    cases mismatch? type.results (Exec.hostResults type.results given) with
    | some mismatch => rfl
    | none => rfl

/-- **A call of a function of a module** on a machine with its arguments on top. -/
theorem enterFunc_eq {m : Machine} {stack : Operands} {args : List Value} {type : FuncType}
    {inst : ModuleInst} {code : Func} (hs : m.stack = stack.pushAll args.reverse)
    (hargs : args.length = type.params.length) :
    Exec.enterFunc type inst code m =
      if m.store.config.maxCallDepth ≤ m.frames.height then .error .callStackExhausted m
      else .ok () { m with
        stack
        code := code.body
        frames := m.frames.push
          { locals := code.startLocals args, inst, labelBase := m.labels.height }
        labels := m.labels.push
          { kind := .func, branchArity := type.results.length, endArity := type.results.length,
            height := stack.height, rest := m.code } } := by
  have hpop : Exec.popArgs type.params.length m = .ok args { m with stack } :=
    hargs ▸ popArgs_eq hs
  show (if m.store.config.maxCallDepth ≤ m.frames.height then throw .callStackExhausted
    else _ : Exec Unit) m = _
  by_cases hdepth : m.store.config.maxCallDepth ≤ m.frames.height
  · rw [if_pos hdepth, if_pos hdepth]; rfl
  · rw [if_neg hdepth, if_neg hdepth]
    exact Move.bind_of_ok hpop

theorem call_of_defined {m : Machine} {addr : FuncAddr} {type : FuncType} {inst : ModuleInst}
    {code : Func} (h : m.store.funcs[addr]? = some (.defined type inst code)) :
    Exec.call addr m = Exec.enterFunc type inst code m := by
  rw [Exec.call, Move.get_bind, h]

theorem call_of_host {m : Machine} {addr : FuncAddr} {type : FuncType} {run : HostFunc}
    (h : m.store.funcs[addr]? = some (.host type run)) :
    Exec.call addr m = Exec.callHost addr type run m := by
  rw [Exec.call, Move.get_bind, h]

/-- The activation of a function of a module at the beginning of a call from outside. -/
def start (s : Store) (inst : ModuleInst) (code : Func) (args : List Value) : Activation where
  store := s
  fuel := s.config.fuel
  inst := inst
  locals := code.startLocals args
  operands := []

/-- The operands of a machine at the beginning of a call from outside. -/
theorem stack_machine (s : Store) (args : List Value) :
    (s.machine args).stack = (∅ : Operands).pushAll args.reverse := by
  apply Stack.ext
  simp [Store.machine]

/-- The call from outside, of a host function. -/
theorem call_machine_host {s : Store} {addr : FuncAddr} {type : FuncType} {run : HostFunc}
    {args : List Value} (h : s.funcs[addr]? = some (.host type run))
    (hargs : args.length = type.params.length) :
    Exec.call addr (s.machine args) =
      match s.callHost addr type run args with
      | (.ok results, store) =>
        .ok () { s.machine args with store, stack := (∅ : Operands).pushAll results.reverse }
      | (.error t, store) => .error t { s.machine args with store, stack := ∅ } := by
  have hcall : Exec.call addr (s.machine args) = Exec.callHost addr type run (s.machine args) :=
    call_of_host h
  rw [hcall, callHost_eq (stack_machine s args) hargs]; rfl

/-- The call from outside, of a function of a module. -/
theorem call_machine {s : Store} {addr : FuncAddr} {type : FuncType} {inst : ModuleInst}
    {code : Func} {args : List Value} (h : s.funcs[addr]? = some (.defined type inst code))
    (hargs : args.length = type.params.length) :
    Exec.call addr (s.machine args) =
      if s.config.maxCallDepth ≤ 0 then .error .callStackExhausted (s.machine args)
      else .ok () ((start s inst code args).on (.entry type.results.length code.body)) := by
  have hcall : Exec.call addr (s.machine args) = Exec.enterFunc type inst code (s.machine args) :=
    call_of_defined h
  rw [hcall, enterFunc_eq (stack_machine s args) hargs]
  rfl

/-- Calls inside a function. -/
theorem enterFunc_on {type : FuncType} {inst : ModuleInst} {code : Func} {args rest : List Value}
    (ha : a.operands = args.reverse ++ rest) (hargs : args.length = type.params.length) :
    Exec.enterFunc type inst code (a.on k) =
      if a.store.config.maxCallDepth ≤ k.frames.height + 1 then .error .callStackExhausted (a.on k)
      else .ok () ({ a with inst, locals := code.startLocals args, operands := [] }.on
        (k.call { a with operands := rest } type.results.length code.body)) := by
  have hs : (a.on k).stack = (k.under.pushAll rest).pushAll args.reverse := by
    rw [pushAll_pushAll, ← ha]; rfl
  rw [enterFunc_eq hs hargs]
  by_cases hdepth : a.store.config.maxCallDepth ≤ k.frames.height + 1
  · rw [if_pos hdepth]; exact if_pos hdepth
  · rw [if_neg hdepth]
    refine (if_neg hdepth).trans ?_
    simp only [on, Surroundings.call, pushAll_pushAll]
    rfl

theorem callHost_on {addr : FuncAddr} {type : FuncType} {run : HostFunc} {args rest : List Value}
    (ha : a.operands = args.reverse ++ rest) (hargs : args.length = type.params.length) :
    Exec.callHost addr type run (a.on k) =
      match a.store.callHost addr type run args with
      | (.ok results, store) => .ok () ({ a with store, operands := results.reverse ++ rest }.on k)
      | (.error t, store) => .error t ({ a with store, operands := rest }.on k) := by
  have hs : (a.on k).stack = (k.under.pushAll rest).pushAll args.reverse := by
    rw [pushAll_pushAll, ← ha]; rfl
  rw [callHost_eq hs hargs]
  -- A host function cannot see the operands below its arguments.
  show (match a.store.callHost addr type run args with
    | (.ok results, store) => _ | (.error t, store) => _) = _
  rcases a.store.callHost addr type run args with ⟨t | results, store⟩
  · rfl
  · simp only [on, pushAll_pushAll]

/-- The function that an indirect call leads to. -/
def callee (a : Activation) (t : TypeIdx) (slot : UInt32) : Except Trap FuncAddr := do
  let expected ← a.inst.typeAt t
  let tableAddr ← a.inst.tableAddr 0
  match a.store.tables[tableAddr]? with
  | none => throw (.invalidIndex .table 0)
  | some table =>
    let addr ← table.get slot.toNat
    let found ← a.store.funcType addr
    if found = expected then return addr else throw .indirectCallType

theorem ofExcept_of_ok {α : Type} {x : Except Trap α} {y : α} {m : Machine} (h : x = .ok y) :
    Exec.ofExcept x m = .ok y m := by
  rw [h]; rfl

theorem ofExcept_of_error {α : Type} {x : Except Trap α} {t : Trap} {m : Machine}
    (h : x = .error t) : Exec.ofExcept x m = .error t m := by
  rw [h]; rfl

/-- What an attempt to find a function and call it comes to, by what is found: the call of the
    function, or a trap that leaves the store alone. -/
def Leads (a : Activation) (k : Surroundings) (r : EStateM.Result Trap Machine Unit) :
    Except Trap FuncAddr → Prop
  | .ok addr => r = Exec.call addr (a.on k)
  | .error e => ∃ m, r = .error e m ∧ m.store = a.store

/-- One more look-up on the way to the function. -/
theorem leads_bind {α : Type} {x : Except Trap α} {found : α → Except Trap FuncAddr}
    {f : α → Exec Unit} {m : Machine} (hstore : m.store = a.store)
    (hnext : ∀ y, x = .ok y → a.Leads k (f y m) (found y)) :
    a.Leads k ((Exec.ofExcept x >>= f) m) (x >>= found) := by
  cases x with
  | error e => exact ⟨m, Move.bind_of_error (ofExcept_of_error rfl), hstore⟩
  | ok y =>
    rw [Move.bind_of_ok (ofExcept_of_ok rfl)]
    exact hnext y rfl

/-- **An indirect call** is a call of the function that it leads to, and traps if it leads to none. -/
theorem callIndirect_on {t : TypeIdx} {slot : UInt32} {rest : List Value}
    (ha : a.operands = .i32 slot :: rest) :
    Leads { a with operands := rest } k (Exec.callIndirect t (a.on k)) (a.callee t slot) := by
  have hpop : Exec.popI32 (a.on k) = .ok slot ({ a with operands := rest }.on k) := popI32_on ha
  rw [Exec.callIndirect, Move.bind_of_ok inst_on, callee]
  -- Both make the same look-ups in the same order, but the machine pops the slot in between: a failure
  -- before that leaves another machine than one after it, with the same store.
  refine leads_bind rfl fun expected _ => leads_bind rfl fun tableAddr _ => ?_
  have hstore : ({ a with operands := rest }.on k).store = a.store := rfl
  rw [Move.bind_of_ok hpop, Move.get_bind, hstore]
  cases a.store.tables[tableAddr]? with
  | none => exact ⟨_, rfl, rfl⟩
  | some table =>
    refine leads_bind rfl fun addr _ => ?_
    rw [Move.get_bind]
    refine leads_bind rfl fun found _ => ?_
    by_cases htypes : found = expected
    · rw [if_pos htypes, if_pos htypes]; rfl
    · rw [if_neg htypes, if_neg htypes]; exact ⟨_, rfl, rfl⟩

end Activation

end WasmCore
