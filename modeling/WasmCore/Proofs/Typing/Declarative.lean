import WasmCore.Typing.Context

/-!
# `Typing.Declarative` — the typing rules of bodies

What it means for a body to have a type, said by rules alone: no operand stack, no marks for dead
code, no order in which anything is looked at. An instruction takes operands of some types from the
top of the stack and leaves others there. A rule may guess: `drop` and `select` work at any one type,
and an instruction that never goes on to the next one takes and leaves whatever its neighbours need.

* `Scope`: what a rule may refer to;
* `Instr.HasType`: one rule for each instruction;
* `Expr.HasType`: sequences, by composing stack types.

Stack types are written as the instructions see them grow: the last type is on top.
-/

namespace WasmCore

/-- What the typing rules may refer to: the index spaces of a module, the locals of a function, the
    types that a branch to each enclosing block carries, the innermost first, and the results of the
    function. -/
structure Scope extends Context where
  locals : List ValType
  labels : List (List ValType)
  results : List ValType

/-- The scope inside one more block, a branch to which carries the given types. -/
def Scope.enter (C : Scope) (label : List ValType) : Scope := { C with labels := label :: C.labels }

/-- The scope of a function body: its own label carries its results. -/
def Scope.ofFunc (c : Context) (locals results : List ValType) : Scope :=
  { toContext := c, locals, labels := [results], results }

mutual

/-- **The typing rules.** In scope `C`, an instruction takes operands of the first types and leaves
    operands of the second. -/
inductive Instr.HasType : Scope → Instr → List ValType → List ValType → Prop where
  | unreachable {C ins outs} : Instr.HasType C .unreachable ins outs
  | nop {C} : Instr.HasType C .nop [] []
  | block {C t body} :
      Expr.HasType (C.enter t.results) body [] t.results →
      Instr.HasType C (.block t body) [] t.results
  | loop {C t body} :
      Expr.HasType (C.enter []) body [] t.results →
      Instr.HasType C (.loop t body) [] t.results
  | ifThen {C body} :
      Expr.HasType (C.enter []) body [] [] →
      Instr.HasType C (.ifThen .empty body) [.i32] []
  | ifElse {C t body alternate} :
      Expr.HasType (C.enter t.results) body [] t.results →
      Expr.HasType (C.enter t.results) alternate [] t.results →
      Instr.HasType C (.ifElse t body alternate) [.i32] t.results
  | br {C l ts below outs} :
      C.labels[l.toNat]? = some ts →
      Instr.HasType C (.br l) (below ++ ts) outs
  | brIf {C l ts} :
      C.labels[l.toNat]? = some ts →
      Instr.HasType C (.brIf l) (ts ++ [.i32]) ts
  | brTable {C ls default ts below outs} :
      (∀ l ∈ ls.toList, C.labels[l.toNat]? = some ts) →
      C.labels[default.toNat]? = some ts →
      Instr.HasType C (.brTable ls default) (below ++ ts ++ [.i32]) outs
  | ret {C below outs} : Instr.HasType C .ret (below ++ C.results) outs
  | call {C f t type} :
      C.funcs[f.toNat]? = some t →
      C.types[t.toNat]? = some type →
      Instr.HasType C (.call f) type.params type.results
  | callIndirect {C t type} :
      0 < C.tables.size →
      C.types[t.toNat]? = some type →
      Instr.HasType C (.callIndirect t) (type.params ++ [.i32]) type.results
  | drop {C t} : Instr.HasType C .drop [t] []
  | select {C t} : Instr.HasType C .select [t, t, .i32] [t]
  | localGet {C x t} : C.locals[x.toNat]? = some t → Instr.HasType C (.localGet x) [] [t]
  | localSet {C x t} : C.locals[x.toNat]? = some t → Instr.HasType C (.localSet x) [t] []
  | localTee {C x t} : C.locals[x.toNat]? = some t → Instr.HasType C (.localTee x) [t] [t]
  | globalGet {C g type} :
      C.globals[g.toNat]? = some type →
      Instr.HasType C (.globalGet g) [] [type.type]
  | globalSet {C g type} :
      C.globals[g.toNat]? = some type →
      type.mutability = .var →
      Instr.HasType C (.globalSet g) [type.type] []
  | load {C op arg} :
      0 < C.memories.size →
      arg.align.toNat ≤ op.logBytes →
      Instr.HasType C (.load op arg) [.i32] [op.type]
  | store {C op arg} :
      0 < C.memories.size →
      arg.align.toNat ≤ op.logBytes →
      Instr.HasType C (.store op arg) [.i32, op.type] []
  | memorySize {C} : 0 < C.memories.size → Instr.HasType C .memorySize [] [.i32]
  | memoryGrow {C} : 0 < C.memories.size → Instr.HasType C .memoryGrow [.i32] [.i32]
  | const {C v} : Instr.HasType C (.const v) [] [v.type]
  | numeric {C op} : Instr.HasType C (.numeric op) op.operands [op.result]

/-- **Sequences.** The empty sequence leaves the operands as they are; otherwise the first
    instruction works above operands that it does not see, and the others go on from there. -/
inductive Expr.HasType : Scope → List Instr → List ValType → List ValType → Prop where
  | nil {C ts} : Expr.HasType C [] ts ts
  | cons {C i is below ins mid outs} :
      Instr.HasType C i ins mid →
      Expr.HasType C is (below ++ mid) outs →
      Expr.HasType C (i :: is) (below ++ ins) outs

end

/-- What a sequence needs at the least: its first instruction has a type that leaves what the others
    take. -/
theorem Expr.HasType.inv_cons {C : Scope} {i : Instr} {is : List Instr} {ts outs : List ValType}
    (h : Expr.HasType C (i :: is) ts outs) :
    ∃ below ins mid, ts = below ++ ins ∧ Instr.HasType C i ins mid ∧
      Expr.HasType C is (below ++ mid) outs := by
  cases h with
  | cons hi his => exact ⟨_, _, _, rfl, hi, his⟩

theorem Expr.HasType.inv_nil {C : Scope} {ts outs : List ValType}
    (h : Expr.HasType C [] ts outs) : ts = outs := by
  cases h; rfl

end WasmCore
