import WasmCore.Proofs.Exec.Control

/-!
# `Exec.Structured` — evaluation along the structure of the code

A second account of what code does. There is no stack of labels and no stack of frames: blocks and
calls are evaluated by evaluating their bodies, and a branch is a way for a body to complete, which the
blocks around it pass on until it reaches the one it is for.

* `Completion`: how a piece of code may complete;
* `Activation.plain`: instructions that do not transfer control;
* `evalCode`, `evalInstr`, `evalLoop`, `evalCall`: code, instructions, loops and calls;
* `Store.evaluate`: a call from outside.

Evaluation takes an index that bounds its depth; where it does not suffice, nothing is said.
-/

namespace WasmCore

/-- How a piece of code completes. A branch and a return carry the values on top of the operands of the
    block in which they were executed. -/
inductive Completion where
  | next (a : Activation)
  /-- A branch that is to be passed on through as many blocks. -/
  | branch (depth : Nat) (a : Activation)
  | returned (a : Activation)
  | trapped (t : Trap) (s : Store)
  /-- The index was too small. -/
  | unfinished

namespace Completion

/-- One piece of code after another. -/
def andThen (c : Completion) (f : Activation → Completion) : Completion :=
  match c with
  | next a => f a
  | c => c

/-- What a block makes of how its body completes: it catches a branch to itself, and leaves its values
    above the operands that its body did not see. -/
def leave (arity : Nat) (outer : List Value) : Completion → Completion
  | next a => next { a with operands := a.operands.take arity ++ outer }
  | branch 0 a => next { a with operands := a.operands.take arity ++ outer }
  | branch (depth + 1) a => branch depth a
  | c => c

/-- What a call makes of how the body completes: the caller goes on with its own instance and locals,
    and with the results above its operands. -/
def resume (arity : Nat) (caller : Activation) : Completion → Completion
  | next a | branch 0 a | returned a =>
    next { a with inst := caller.inst, locals := caller.locals,
                  operands := a.operands.take arity ++ caller.operands }
  | branch (depth + 1) a => trapped (.invalidIndex .label depth) a.store
  | c => c

end Completion

namespace Activation

/-- Surroundings in which there is nothing. -/
def alone : Surroundings := ⟨∅, [], ∅, 0, ∅⟩

/-- An instruction that does not transfer control does what it does on a machine that holds nothing
    else. -/
def plain (a : Activation) (i : Instr) : Completion :=
  match Exec.step i (a.on alone) with
  | .error t m => .trapped t m.store
  | .ok () m =>
    match m.frames.toList with
    | [] => .trapped .stackUnderflow m.store
    | frame :: _ =>
      .next { store := m.store, fuel := m.fuel, inst := frame.inst, locals := frame.locals,
              operands := m.stack.toList }

/-- The integer on top of the operands, and the activation without it. -/
def popI32 (a : Activation) : Except Trap (UInt32 × Activation) :=
  match a.operands with
  | .i32 x :: rest => .ok (x, { a with operands := rest })
  | v :: _ => .error (.valueType .i32 v.type)
  | [] => .error .stackUnderflow

end Activation

mutual

/-- **Code** is evaluated one instruction after another, each of which is paid for. `depth` is the
    number of calls under way. -/
def evalCode : (index depth : Nat) → Activation → List Instr → Completion
  | 0, _, _, _ => .unfinished
  | _ + 1, _, a, [] => .next a
  | n + 1, depth, a, i :: rest =>
    match a.charge with
    | none => .trapped .outOfFuel a.store
    | some a => (evalInstr n depth a i).andThen fun a => evalCode n depth a rest
termination_by structural index => index

/-- **One instruction.** A block evaluates its body on operands of its own. -/
def evalInstr : (index depth : Nat) → Activation → Instr → Completion
  | 0, _, _, _ => .unfinished
  | n + 1, depth, a, i =>
    match i with
    | .block t body =>
      (evalCode n depth { a with operands := [] } body).leave t.arity a.operands
    | .loop t body => evalLoop n depth t.arity a.operands a body
    | .ifThen t body =>
      match a.popI32 with
      | .error e => .trapped e a.store
      | .ok (x, a) =>
        if x ≠ 0 then (evalCode n depth { a with operands := [] } body).leave t.arity a.operands
        else .next a
    | .ifElse t body alternate =>
      match a.popI32 with
      | .error e => .trapped e a.store
      | .ok (x, a) =>
        (evalCode n depth { a with operands := [] } (if x ≠ 0 then body else alternate)).leave
          t.arity a.operands
    | .br l => .branch l.toNat a
    | .brIf l =>
      match a.popI32 with
      | .error e => .trapped e a.store
      | .ok (x, a) => if x ≠ 0 then .branch l.toNat a else .next a
    | .brTable ls default =>
      match a.popI32 with
      | .error e => .trapped e a.store
      | .ok (x, a) => .branch (ls[x.toNat]?.getD default).toNat a
    | .ret => .returned a
    | .call f =>
      match a.inst.funcAddr f with
      | .error e => .trapped e a.store
      | .ok addr => evalCall n depth a addr
    | .callIndirect t =>
      match a.popI32 with
      | .error e => .trapped e a.store
      | .ok (slot, a) =>
        match a.callee t slot with
        | .error e => .trapped e a.store
        | .ok addr => evalCall n depth a addr
    | i => a.plain i
termination_by structural index => index

/-- **A loop** evaluates its body again whenever it completes with a branch to the loop. -/
def evalLoop : (index depth arity : Nat) → List Value → Activation → List Instr → Completion
  | 0, _, _, _, _, _ => .unfinished
  | n + 1, depth, arity, outer, a, body =>
    match evalCode n depth { a with operands := [] } body with
    | .branch 0 a => evalLoop n depth arity outer a body
    | c => c.leave arity outer
termination_by structural index => index

/-- **A call** evaluates the body of the function with the arguments and then zeros as its locals. The
    arguments are on top of the operands of the caller. -/
def evalCall : (index depth : Nat) → Activation → FuncAddr → Completion
  | 0, _, _, _ => .unfinished
  | n + 1, depth, a, addr =>
    match a.store.funcs[addr]? with
    | none => .trapped (.undefinedFunc addr) a.store
    | some (.host type run) =>
      let args := (a.operands.take type.params.length).reverse
      match a.store.callHost addr type run args with
      | (.error t, store) => .trapped t store
      | (.ok results, store) =>
        .next { a with store, operands := results.reverse ++ a.operands.drop type.params.length }
    | some (.defined type inst code) =>
      if a.store.config.maxCallDepth ≤ depth then .trapped .callStackExhausted a.store
      else
        let args := (a.operands.take type.params.length).reverse
        let caller := { a with operands := a.operands.drop type.params.length }
        (evalCode n (depth + 1) { a with inst, locals := code.startLocals args, operands := [] }
          code.body).resume type.results.length caller
termination_by structural index => index

end

/-! ## Calls with their arguments -/

section

variable {n depth : Nat} {a : Activation} {addr : FuncAddr} {type : FuncType} {vs rest : List Value}

/-- A call of a function of a module evaluates its body. -/
theorem evalCall_defined {inst : ModuleInst} {code : Func}
    (hf : a.store.funcs[addr]? = some (.defined type inst code)) (hops : a.operands = vs ++ rest)
    (hlength : vs.length = type.params.length) :
    evalCall (n + 1) depth a addr =
      if a.store.config.maxCallDepth ≤ depth then .trapped .callStackExhausted a.store
      else (evalCode n (depth + 1)
        { a with inst, locals := code.startLocals vs.reverse, operands := [] } code.body).resume
          type.results.length { a with operands := rest } := by
  have htake : a.operands.take type.params.length = vs := by rw [hops, ← hlength, List.take_left]
  have hdrop : a.operands.drop type.params.length = rest := by rw [hops, ← hlength, List.drop_left]
  simp only [evalCall, hf, htake, hdrop]

/-- A call of a host function. -/
theorem evalCall_host {run : HostFunc} (hf : a.store.funcs[addr]? = some (.host type run))
    (hops : a.operands = vs ++ rest) (hlength : vs.length = type.params.length) :
    evalCall (n + 1) depth a addr =
      match a.store.callHost addr type run vs.reverse with
      | (.error t, store) => .trapped t store
      | (.ok results, store) => .next { a with store, operands := results.reverse ++ rest } := by
  have htake : a.operands.take type.params.length = vs := by rw [hops, ← hlength, List.take_left]
  have hdrop : a.operands.drop type.params.length = rest := by rw [hops, ← hlength, List.drop_left]
  simp only [evalCall, hf, htake, hdrop]

end

/-- What is known to someone outside all modules: nothing but arguments. -/
def Activation.outside (s : Store) (args : List Value) : Activation where
  store := s
  fuel := s.config.fuel
  inst := { types := #[], funcs := #[], tables := #[], memories := #[], globals := #[] }
  locals := #[]
  operands := args.reverse

/-- **A call from outside**, evaluated along the structure of the code. -/
def Store.evaluate (index : Nat) (s : Store) (a : FuncAddr) (args : List Value) :
    Outcome Trap (List Value) × Store :=
  match evalCall index 0 (.outside s args) a with
  | .next a => (.done a.operands.reverse, a.store)
  | .branch _ a | .returned a => (.failed .stackUnderflow, a.store)
  | .trapped t s => (.failed t, s)
  | .unfinished => (.unfinished, s)

end WasmCore
