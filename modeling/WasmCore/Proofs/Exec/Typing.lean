import WasmCore.Proofs.Exec.Control
import WasmCore.Proofs.Typing.Exact

/-!
# `Exec.Typing` — typed machines

The types of a body say what it finds on the stack and what it leaves there; here they are extended to
a whole machine. The surroundings of a body are typed from the outside in: each label knows the types
that the code after it goes on with, and each frame fits the scope of its function.

* `Surroundings.Typed`, `Machine.Typed`: the invariant;
* `Surroundings.Typed.branch`: **a branch lands.** Every label that a scope names is on the stack, above
  as many values as it carries;
* `Sound`: what a move may come to;
* `Activation.sound_step`: **one instruction**, from one lemma for each transfer of control.
-/

namespace WasmCore

/-- **Surroundings of a body** in scope `C` that leaves values of types `ends` at its end, in a call
    from outside with the given results. Each constructor adds one label. -/
inductive Surroundings.Typed (s : Store) (results : List ValType) :
    Surroundings → Scope → List ValType → Prop where
  | entry {c : Context} {locals : List ValType} {code : List Instr} :
      Typed s results (.entry results.length code) (.ofFunc c locals results) results
  | block {k : Surroundings} {C : Scope} {ends below ts : List ValType} {vs : List Value}
      {code : List Instr} :
      Typed s results k C ends →
      vs.map Value.type = below.reverse →
      Expr.HasType C k.code (below ++ ts) ends →
      Typed s results (k.enter vs .block ts.length ts.length code) (C.enter ts) ts
  | loop {k : Surroundings} {C : Scope} {ends below ts : List ValType} {vs : List Value}
      {body code : List Instr} :
      Typed s results k C ends →
      vs.map Value.type = below.reverse →
      Expr.HasType C k.code (below ++ ts) ends →
      Expr.HasType (C.enter []) body [] ts →
      Typed s results (k.enter vs (.loop body) 0 ts.length code) (C.enter []) ts
  | call {k : Surroundings} {C : Scope} {ends below ts locals : List ValType} {caller : Activation}
      {c : Context} {code : List Instr} :
      Typed s results k C ends →
      caller.inst.Implements s C.toContext →
      caller.locals.toList.map Value.type = C.locals →
      caller.operands.map Value.type = below.reverse →
      Expr.HasType C k.code (below ++ ts) ends →
      Typed s results (k.call caller ts.length code) (.ofFunc c locals ts) ts

namespace Surroundings.Typed

open Activation (lands_zero lands_succ_enter)

variable {s s' : Store} {results ends : List ValType} {k : Surroundings} {C : Scope}

/-- Surroundings stay typed when the store grows. -/
theorem mono (h : k.Typed s results C ends) (hs : s.Persists s') : k.Typed s' results C ends := by
  induction h with
  | entry => exact .entry
  | block _ hvs hrest ih => exact .block ih hvs hrest
  | loop _ hvs hrest hbody ih => exact .loop ih hvs hrest hbody
  | call _ hinst hlocals hvs hrest ih => exact .call ih (hinst.mono hs) hlocals hvs hrest

/-- What is left of the body plays no part. -/
theorem setCode (h : k.Typed s results C ends) (code : List Instr) :
    ({ k with code } : Surroundings).Typed s results C ends := by
  cases h with
  | entry => exact .entry
  | block hk hvs hrest => exact .block hk hvs hrest
  | loop hk hvs hrest hbody => exact .loop hk hvs hrest hbody
  | call hk hinst hlocals hvs hrest => exact .call hk hinst hlocals hvs hrest

/-- One more label inside leaves the outermost one what it is. -/
theorem outermost_cons {labels : List (List ValType)} (label : List ValType)
    (hpos : 0 < labels.length) :
    (label :: labels)[(label :: labels).length - 1]? = labels[labels.length - 1]? := by
  rw [List.length_cons, Nat.add_sub_cancel, ← Nat.sub_add_cancel hpos, List.getElem?_cons_succ,
    Nat.add_sub_cancel]

/-- The labels of the function under way are those that its scope names, and the outermost of them
    carries its results. -/
theorem labels (h : k.Typed s results C ends) :
    k.labels.height = k.labelBase + C.labels.length ∧ 0 < C.labels.length ∧
      C.labels[C.labels.length - 1]? = some C.results := by
  induction h with
  | entry => exact ⟨rfl, Nat.one_pos, rfl⟩
  | block _ _ _ ih =>
    obtain ⟨hheight, hpos, hlast⟩ := ih
    exact ⟨congrArg (· + 1) hheight, Nat.succ_pos _, (outermost_cons _ hpos).trans hlast⟩
  | loop _ _ _ _ ih =>
    obtain ⟨hheight, hpos, hlast⟩ := ih
    exact ⟨congrArg (· + 1) hheight, Nat.succ_pos _, (outermost_cons _ hpos).trans hlast⟩
  | call => exact ⟨rfl, Nat.one_pos, rfl⟩

/-- **A branch lands.** It keeps the values that it carries, and goes on with code that takes them. -/
theorem branch (h : k.Typed s results C ends) {d : Nat} {ts : List ValType}
    (hd : C.labels[d]? = some ts) :
    ∃ k' C' ends', k.Lands d ts.length k' ∧ k'.Typed s results C' ends' ∧
      Expr.HasType C' k'.code ts ends' ∧ C'.toContext = C.toContext ∧ C'.locals = C.locals := by
  -- Inside out: either the innermost label is meant, or the branch leaves the innermost block.
  induction h generalizing d with
  | entry =>
    cases d with
    | zero => cases hd; exact ⟨_, _, _, lands_zero rfl rfl rfl, .entry, .nil, rfl, rfl⟩
    | succ d => cases hd
  | block hk hvs hrest ih =>
    cases d with
    | zero => cases hd; exact ⟨_, _, _, lands_zero rfl rfl rfl, .block hk hvs hrest, .nil, rfl, rfl⟩
    | succ d =>
      obtain ⟨k', C', ends', hland, hk', hcode, hc, hl⟩ := ih hd
      exact ⟨k', C', ends', lands_succ_enter hland, hk', hcode, hc, hl⟩
  | loop hk hvs hrest hbody ih =>
    cases d with
    | zero =>
      cases hd
      exact ⟨_, _, _, lands_zero rfl rfl rfl, .loop hk hvs hrest hbody, hbody, rfl, rfl⟩
    | succ d =>
      obtain ⟨k', C', ends', hland, hk', hcode, hc, hl⟩ := ih hd
      exact ⟨k', C', ends', lands_succ_enter hland, hk', hcode, hc, hl⟩
  | call hk hinst hlocals hvs hrest =>
    cases d with
    | zero =>
      cases hd
      exact ⟨_, _, _, lands_zero rfl rfl rfl, .call hk hinst hlocals hvs hrest, .nil, rfl, rfl⟩
    | succ d => cases hd

end Surroundings.Typed

/-! ## Machines -/

/-- **The invariant of a machine**: either a function is under way, or the results are there. -/
inductive Machine.Typed (origins : List (Option Module)) (results : List ValType) :
    Machine → Prop where
  | running {a : Activation} {k : Surroundings} {C : Scope} {ins ends : List ValType} :
      a.Typed origins C →
      k.Typed a.store results C ends →
      a.operands.map Value.type = ins.reverse →
      Expr.HasType C k.code ins ends →
      Typed origins results (a.on k)
  | finished {m : Machine} :
      m.store.WellFormed origins →
      m.code = [] →
      m.labels = ∅ →
      m.stack.toList.map Value.type = results.reverse →
      Typed origins results m

/-- **What a move may come to** on a machine with store `s`: a machine of the same results, or a trap
    that is no fault of the machine. In either case the store is in order, and has lost nothing. -/
def Sound (s : Store) (origins : List (Option Module)) (results : List ValType) {α : Type} :
    EStateM.Result Trap Machine α → Prop
  | .ok _ m => m.Typed origins results ∧ s.Persists m.store
  | .error t m => t.internal = false ∧ m.store.WellFormed origins ∧ s.Persists m.store

namespace Activation

variable {a : Activation} {k : Surroundings} {origins : List (Option Module)}
  {results ends ins outs below : List ValType} {C : Scope} {vs rest : List Value}

theorem Typed.setFuel (h : a.Typed origins C) (fuel : Option Nat) :
    ({ a with fuel } : Activation).Typed origins C := ⟨h.store, h.inst, h.locals⟩

theorem Typed.setOperands (h : a.Typed origins C) (operands : List Value) :
    ({ a with operands } : Activation).Typed origins C := ⟨h.store, h.inst, h.locals⟩

theorem types_nil : ([] : List Value).map Value.type = ([] : List ValType).reverse := rfl

/-- A branch keeps a machine in order. -/
theorem sound_branch (ha : a.Typed origins C) (hk : k.Typed a.store results C ends) {d : Nat}
    {ts : List ValType} (hd : C.labels[d]? = some ts) (hops : a.operands = vs ++ rest)
    (hvs : vs.map Value.type = ts.reverse) :
    Sound a.store origins results (Exec.branch d (a.on k)) := by
  obtain ⟨k', C', ends', hland, hk', hcode, hc, hl⟩ := hk.branch hd
  have ha' : ({ a with operands := vs } : Activation).Typed origins C' :=
    ⟨ha.store, by rw [hc]; exact ha.inst, by rw [hl]; exact ha.locals⟩
  rw [hland a vs rest hops (length_of_types hvs)]
  exact ⟨.running ha' hk' hvs hcode, .refl _⟩

/-- The locals that a function starts with have the types of its parameters and declared locals. -/
theorem types_startLocals (code : Func) {args : List Value} {params : List ValType}
    (h : args.map Value.type = params) :
    (code.startLocals args).toList.map Value.type = params ++ code.localTypes := by
  rw [Func.startLocals_eq, List.toList_toArray, List.map_append, h, List.map_map]
  congr 1
  exact (List.map_congr_left fun t _ => Value.type_zero t).trans (List.map_id _)

/-- A host function gives results of its types, or fails without a fault of the machine. -/
theorem callHost_sound {s : Store} (hs : s.WellFormed origins) (addr : FuncAddr) (type : FuncType)
    (run : HostFunc) (args : List Value) :
    s.Persists (s.callHost addr type run args).2 ∧
      (s.callHost addr type run args).2.WellFormed origins ∧
      match (s.callHost addr type run args).1 with
      | .ok results => results.map Value.type = type.results
      | .error t => t.internal = false := by
  let s' := { s with hostCalls := s.hostCalls.push { func := addr, args } }
  have hp : s.Persists s' := .of_eq rfl (Nat.le_refl _) (Nat.le_refl _) rfl
  have hwf : s'.WellFormed origins := hs.update hp rfl hs.slots hs.globals
  unfold Store.callHost
  cases run s.hostCalls args with
  | error failure => exact ⟨hp, hwf, rfl⟩
  | ok given =>
    dsimp only
    cases hm : mismatch? type.results (Exec.hostResults type.results given) with
    | some mismatch => exact ⟨hp, hwf, rfl⟩
    | none =>
      exact ⟨hp, hwf, (mismatch?_eq_none_iff (Exec.length_hostResults _ _)).mp hm⟩

/-- **A call keeps a machine in order**, whichever function it calls. -/
theorem sound_call (ha : a.Typed origins C) (hk : k.Typed a.store results C ends) {addr : FuncAddr}
    {type : FuncType} (hf : a.store.funcType? addr = some type) (hops : a.operands = vs ++ rest)
    (hvs : vs.map Value.type = type.params.reverse) (hrest : rest.map Value.type = below.reverse)
    (hcode : Expr.HasType C k.code (below ++ type.results) ends) :
    Sound a.store origins results (Exec.call addr (a.on k)) := by
  have hargs : vs.reverse.map Value.type = type.params := types_reverse hvs
  have hlength : vs.reverse.length = type.params.length := by
    rw [← hargs, List.length_map]
  have hops' : a.operands = vs.reverse.reverse ++ rest := by rw [List.reverse_reverse, hops]
  obtain ⟨f, hfunc, hft⟩ := Option.map_eq_some_iff.mp hf
  cases f with
  | defined type' inst code =>
    obtain rfl : type' = type := hft
    have hdef : (a.on k).store.funcs[addr]? = some (.defined type' inst code) := hfunc
    obtain ⟨m, -, hm⟩ := ha.store.funcs addr type' inst code hfunc
    rw [call_of_defined hdef, enterFunc_on hops' hlength]
    by_cases hdepth : a.store.config.maxCallDepth ≤ k.frames.height + 1
    · rw [if_pos hdepth]; exact ⟨rfl, ha.store, .refl _⟩
    · rw [if_neg hdepth]
      refine ⟨?_, .refl _⟩
      exact .running (C := .ofFunc (.ofModule m) (type'.params ++ code.localTypes) type'.results)
        ⟨ha.store, hm.implements, types_startLocals code hargs⟩
        (.call hk ha.inst ha.locals hrest hcode) types_nil (hasType_of_checkFunc hm.body)
  | host type' run =>
    obtain rfl : type' = type := hft
    have hhost : (a.on k).store.funcs[addr]? = some (.host type' run) := hfunc
    obtain ⟨hp, hwf, hres⟩ := callHost_sound ha.store addr type' run vs.reverse
    rw [call_of_host hhost, callHost_on hops' hlength]
    -- All that counts is the types of the results, which are checked before they are pushed.
    generalize a.store.callHost addr type' run vs.reverse = outcome at hp hwf hres ⊢
    rcases outcome with ⟨t | given, store⟩
    · exact ⟨hres, hwf, hp⟩
    · have ha' : ({ a with store, operands := given.reverse ++ rest } : Activation).Typed origins C :=
        ⟨hwf, ha.inst.mono hp, ha.locals⟩
      refine ⟨.running ha' (hk.mono hp) ?_ hcode, hp⟩
      rw [List.map_append, List.map_reverse, hres, hrest, List.reverse_append]

theorem sound_block (ha : a.Typed origins C) (hk : k.Typed a.store results C ends) {t : BlockType}
    {body : List Instr} (hops : a.operands.map Value.type = below.reverse)
    (hbody : Expr.HasType (C.enter t.results) body [] t.results)
    (hcode : Expr.HasType C k.code (below ++ t.results) ends) :
    Sound a.store origins results (Exec.enter .block t body (a.on k)) := by
  rw [enter_on]
  refine ⟨?_, .refl _⟩
  have hk' : (k.enter a.operands .block t.results.length t.results.length body).Typed a.store
      results (C.enter t.results) t.results := .block hk hops hcode
  rw [BlockType.length_results] at hk'
  exact .running (C := C.enter t.results) ⟨ha.store, ha.inst, ha.locals⟩ hk' types_nil hbody

theorem sound_loop (ha : a.Typed origins C) (hk : k.Typed a.store results C ends) {t : BlockType}
    {body : List Instr} (hops : a.operands.map Value.type = below.reverse)
    (hbody : Expr.HasType (C.enter []) body [] t.results)
    (hcode : Expr.HasType C k.code (below ++ t.results) ends) :
    Sound a.store origins results (Exec.enter (.loop body) t body (a.on k)) := by
  rw [enter_on]
  refine ⟨?_, .refl _⟩
  have hk' : (k.enter a.operands (.loop body) 0 t.results.length body).Typed a.store
      results (C.enter []) t.results := .loop hk hops hcode hbody
  rw [BlockType.length_results] at hk'
  exact .running (C := C.enter []) ⟨ha.store, ha.inst, ha.locals⟩ hk' types_nil hbody

/-- Nothing is done, and the code goes on. -/
theorem sound_skip (ha : a.Typed origins C) (hk : k.Typed a.store results C ends)
    (hops : a.operands.map Value.type = ins.reverse) (hcode : Expr.HasType C k.code ins ends) :
    Sound a.store origins results ((pure () : Exec Unit) (a.on k)) :=
  ⟨.running ha hk hops hcode, .refl _⟩

theorem sound_ifThen (ha : a.Typed origins C) (hk : k.Typed a.store results C ends)
    {body : List Instr} {x : UInt32} (hops : a.operands = .i32 x :: rest)
    (hrest : rest.map Value.type = below.reverse) (hbody : Expr.HasType (C.enter []) body [] [])
    (hcode : Expr.HasType C k.code (below ++ []) ends) :
    Sound a.store origins results (Exec.step (.ifThen .empty body) (a.on k)) := by
  have hrun : Exec.step (.ifThen .empty body) (a.on k) =
      (if x ≠ 0 then Exec.enter .block .empty body else pure () : Exec Unit)
        ({ a with operands := rest }.on k) := Move.bind_of_ok (popI32_on hops)
  rw [hrun]
  by_cases hx : x ≠ 0
  · rw [if_pos hx]; exact sound_block (ha.setOperands rest) hk hrest hbody hcode
  · rw [if_neg hx]
    rw [List.append_nil] at hcode
    exact sound_skip (ha.setOperands rest) hk hrest hcode

theorem sound_ifElse (ha : a.Typed origins C) (hk : k.Typed a.store results C ends)
    {t : BlockType} {body alternate : List Instr} {x : UInt32} (hops : a.operands = .i32 x :: rest)
    (hrest : rest.map Value.type = below.reverse)
    (hbody : Expr.HasType (C.enter t.results) body [] t.results)
    (halternate : Expr.HasType (C.enter t.results) alternate [] t.results)
    (hcode : Expr.HasType C k.code (below ++ t.results) ends) :
    Sound a.store origins results (Exec.step (.ifElse t body alternate) (a.on k)) := by
  have hrun : Exec.step (.ifElse t body alternate) (a.on k) =
      Exec.enter .block t (if x ≠ 0 then body else alternate) ({ a with operands := rest }.on k) :=
    Move.bind_of_ok (popI32_on hops)
  rw [hrun]
  by_cases hx : x ≠ 0
  · rw [if_pos hx]; exact sound_block (ha.setOperands rest) hk hrest hbody hcode
  · rw [if_neg hx]; exact sound_block (ha.setOperands rest) hk hrest halternate hcode

theorem sound_brIf (ha : a.Typed origins C) (hk : k.Typed a.store results C ends)
    {l : LabelIdx} {ts : List ValType} (hl : C.labels[l.toNat]? = some ts) {x : UInt32}
    (hops : a.operands = .i32 x :: vs ++ rest) (hvs : vs.map Value.type = ts.reverse)
    (hrest : rest.map Value.type = below.reverse)
    (hcode : Expr.HasType C k.code (below ++ ts) ends) :
    Sound a.store origins results (Exec.step (.brIf l) (a.on k)) := by
  have hrun : Exec.step (.brIf l) (a.on k) =
      (if x ≠ 0 then Exec.branch l.toNat else pure () : Exec Unit)
        ({ a with operands := vs ++ rest }.on k) := Move.bind_of_ok (popI32_on hops)
  rw [hrun]
  by_cases hx : x ≠ 0
  · rw [if_pos hx]; exact sound_branch (ha.setOperands (vs ++ rest)) hk hl rfl hvs
  · rw [if_neg hx]
    refine sound_skip (ha.setOperands _) hk ?_ hcode
    rw [List.map_append, hvs, hrest, List.reverse_append]

/-- Whatever the index, a branch through a list of labels goes to one of them. -/
theorem label_brTable {ls : Array LabelIdx} {default : LabelIdx} {ts : List ValType}
    (hls : ∀ l ∈ ls.toList, C.labels[l.toNat]? = some ts)
    (hdefault : C.labels[default.toNat]? = some ts) (n : Nat) :
    C.labels[(ls[n]?.getD default).toNat]? = some ts := by
  cases h : ls[n]? with
  | none => exact hdefault
  | some l => exact hls l (Array.mem_toList_iff.mpr (Array.mem_of_getElem? h))

theorem sound_brTable (ha : a.Typed origins C) (hk : k.Typed a.store results C ends)
    {ls : Array LabelIdx} {default : LabelIdx} {ts : List ValType}
    (hls : ∀ l ∈ ls.toList, C.labels[l.toNat]? = some ts)
    (hdefault : C.labels[default.toNat]? = some ts) {x : UInt32}
    (hops : a.operands = .i32 x :: vs ++ rest) (hvs : vs.map Value.type = ts.reverse) :
    Sound a.store origins results (Exec.step (.brTable ls default) (a.on k)) := by
  have hrun : Exec.step (.brTable ls default) (a.on k) =
      Exec.branch (ls[x.toNat]?.getD default).toNat ({ a with operands := vs ++ rest }.on k) :=
    Move.bind_of_ok (popI32_on hops)
  rw [hrun]
  exact sound_branch (ha.setOperands (vs ++ rest)) hk (label_brTable hls hdefault x.toNat) rfl hvs

theorem sound_ret (ha : a.Typed origins C) (hk : k.Typed a.store results C ends)
    (hops : a.operands = vs ++ rest) (hvs : vs.map Value.type = C.results.reverse) :
    Sound a.store origins results (Exec.step .ret (a.on k)) := by
  obtain ⟨hheight, hpos, hlast⟩ := hk.labels
  have hrun : Exec.step .ret (a.on k) = Exec.branch (C.labels.length - 1) (a.on k) :=
    branchToFunc_on _ (by omega)
  rw [hrun]
  exact sound_branch ha hk hlast hops hvs

/-- An indirect call leads to a function of the type that it asks for, or nowhere. -/
theorem Typed.callee (ha : a.Typed origins C) {t : TypeIdx} {type : FuncType}
    (htable : 0 < C.tables.size) (ht : C.types[t.toNat]? = some type) (slot : UInt32) :
    match a.callee t slot with
    | .ok addr => a.store.funcType? addr = some type
    | .error e => e.internal = false := by
  obtain ⟨tableAddr, table, haddr, htables⟩ := ha.inst.tableAddr htable
  have hcallee : a.callee t slot = (do
      let addr ← table.get slot.toNat
      let found ← a.store.funcType addr
      if found = type then return addr else throw .indirectCallType) := by
    simp only [Activation.callee, ha.inst.typeAt ht, haddr, htables, bind, Except.bind]
  rw [hcallee]
  cases hget : table.get slot.toNat with
  | error e =>
    show e.internal = false
    unfold Table.get at hget
    split at hget <;> cases hget <;> rfl
  | ok addr =>
    rw [Table.get_eq_ok_iff] at hget
    -- A filled slot never dangles, so only the type of the function can be wrong.
    have hlt : addr < a.store.funcs.size :=
      ha.store.slots table (Array.mem_of_getElem? htables) addr (Array.mem_of_getElem? hget)
    have hsome : a.store.funcType? addr = some a.store.funcs[addr].type := by
      rw [Store.funcType?, Array.getElem?_eq_getElem hlt]; rfl
    have hfound : a.store.funcType addr = .ok a.store.funcs[addr].type := by
      rw [Store.funcType, hsome]
    show match (do
      let found ← a.store.funcType addr
      if found = type then return addr else throw .indirectCallType : Except Trap FuncAddr) with
      | .ok addr => _
      | .error e => _
    rw [hfound]
    show match (if a.store.funcs[addr].type = type then return addr
      else throw .indirectCallType : Except Trap FuncAddr) with
      | .ok addr => _
      | .error e => _
    by_cases htype : a.store.funcs[addr].type = type
    · rw [if_pos htype, ← htype]; exact hsome
    · rw [if_neg htype]; rfl

theorem sound_callIndirect (ha : a.Typed origins C) (hk : k.Typed a.store results C ends)
    {t : TypeIdx} {type : FuncType} (htable : 0 < C.tables.size)
    (ht : C.types[t.toNat]? = some type) {slot : UInt32} (hops : a.operands = .i32 slot :: vs ++ rest)
    (hvs : vs.map Value.type = type.params.reverse) (hrest : rest.map Value.type = below.reverse)
    (hcode : Expr.HasType C k.code (below ++ type.results) ends) :
    Sound a.store origins results (Exec.step (.callIndirect t) (a.on k)) := by
  have hcallee := ha.callee htable ht slot
  have hrun := callIndirect_on (k := k) (t := t) hops
  cases hc : a.callee t slot with
  | error e =>
    rw [hc] at hcallee hrun
    obtain ⟨m, hm, hstore⟩ := hrun
    show Sound a.store origins results (Exec.callIndirect t (a.on k))
    rw [hm]
    exact ⟨hcallee, hstore ▸ ha.store, hstore ▸ .refl _⟩
  | ok addr =>
    rw [hc] at hcallee hrun
    show Sound a.store origins results (Exec.callIndirect t (a.on k))
    rw [show Exec.callIndirect t (a.on k) = _ from hrun]
    exact sound_call (ha.setOperands (vs ++ rest)) hk hcallee rfl hvs hrest hcode

/-- **One instruction.** -/
theorem sound_step (ha : a.Typed origins C) (hk : k.Typed a.store results C ends) {i : Instr}
    (hi : Instr.HasType C i ins outs) (hops : a.operands = vs ++ rest)
    (hvs : vs.map Value.type = ins.reverse) (hrest : rest.map Value.type = below.reverse)
    (hcode : Expr.HasType C k.code (below ++ outs) ends) :
    Sound a.store origins results (Exec.step i (a.on k)) := by
  cases hcontrol : i.isControl with
  | false =>
    rcases step_plain ha hcontrol hi hops hvs with
      ⟨a', vs', hrun, ha', hp, -, -, hops', hvs'⟩ | ⟨t, ht, herror⟩
    · rw [hrun]
      refine ⟨.running ha' (hk.mono hp) ?_ hcode, hp⟩
      rw [hops', List.map_append, hvs', hrest, List.reverse_append]
    · obtain ⟨m, hm, hstore⟩ := herror k
      rw [hm]
      exact ⟨ht, hstore ▸ ha.store, hstore ▸ .refl _⟩
  | true =>
  cases hi with
  | block hbody =>
    obtain rfl := List.map_eq_nil_iff.mp hvs
    obtain rfl : a.operands = rest := hops
    exact sound_block ha hk hrest hbody hcode
  | loop hbody =>
    obtain rfl := List.map_eq_nil_iff.mp hvs
    obtain rfl : a.operands = rest := hops
    exact sound_loop ha hk hrest hbody hcode
  | ifThen hbody =>
    obtain ⟨x, rfl⟩ := values_of_i32 hvs
    exact sound_ifThen ha hk hops hrest hbody hcode
  | ifElse hbody halternate =>
    obtain ⟨x, rfl⟩ := values_of_i32 hvs
    exact sound_ifElse ha hk hops hrest hbody halternate hcode
  | br hl =>
    obtain ⟨top, lower, rfl, htop, -⟩ := values_above hvs
    rw [List.append_assoc] at hops
    exact sound_branch ha hk hl hops htop
  | brIf hl =>
    obtain ⟨x, top, rfl, htop⟩ := values_i32_above hvs
    exact sound_brIf ha hk hl hops htop hrest hcode
  | brTable hls hdefault =>
    obtain ⟨x, vs', rfl, hvs'⟩ := values_i32_above hvs
    obtain ⟨top, lower, rfl, htop, -⟩ := values_above hvs'
    rw [List.cons_append, List.append_assoc] at hops
    exact sound_brTable ha hk hls hdefault hops htop
  | ret =>
    obtain ⟨top, lower, rfl, htop, -⟩ := values_above hvs
    rw [List.append_assoc] at hops
    exact sound_ret ha hk hops htop
  | call hf ht =>
    obtain ⟨addr, haddr, htype⟩ := ha.inst.funcAddr hf ht
    have hrun : Exec.step (.call _) (a.on k) = Exec.call addr (a.on k) :=
      (Move.bind_of_ok inst_on).trans (Move.bind_of_ok (ofExcept_of_ok haddr))
    rw [hrun]
    exact sound_call ha hk htype hops hvs hrest hcode
  | callIndirect htable ht =>
    obtain ⟨slot, args, rfl, hargs⟩ := values_i32_above hvs
    exact sound_callIndirect ha hk htable ht hops hargs hrest hcode
  | _ => cases hcontrol

end Activation

end WasmCore
