import WasmCore.Proofs.Typing.Decides

/-!
# `Typing.Exact` — the checker accepts exactly the bodies that have a type

Each instruction decides its own rules, a block decides the type of its body, and so, by induction
over the nesting of bodies, a body is accepted exactly when the rules give it its type.

* `decides_rule`: every instruction that holds no body;
* `decides_nested`: what is around a body;
* `decides_visit`, `decides_visitAll`: instructions with their bodies, and sequences;
* `checkFunc_eq_ok_iff_hasType`: whole functions.
-/

namespace WasmCore.Check

/-- The checker looks things up in the scope of the rules. -/
structure Reads (c : BodyContext) (C : Scope) : Prop where
  context : c.toContext = C.toContext
  locals : c.locals = C.locals.toArray

variable {c : BodyContext} {C : Scope}

/-! ## Branches -/

theorem decides_br (l : LabelIdx) : Decides C (rule c (.br l)) (Framed C (.br l)) := by
  refine Decides.label (fun ts hts => ?_) ?_
  · refine ((decides_popAll ts).bind decides_unreachable).congr fun ins outs => ?_
    constructor
    · rintro ⟨mid, rfl, -⟩
      exact ⟨[], mid.reverse ++ ts, outs.reverse, by simp, by simp, .br hts⟩
    · rintro ⟨below, a, b, rfl, rfl, hi⟩
      cases hi with
      | @br _ _ ts' under _ h =>
        cases hts.symm.trans h
        exact ⟨under.reverse ++ below, by simp, True.intro⟩
  · rintro hnone ins outs ⟨below, a, b, -, -, hi⟩
    cases hi with
    | br h => rw [hnone] at h; cases h

theorem decides_brIf (l : LabelIdx) : Decides C (rule c (.brIf l)) (Framed C (.brIf l)) := by
  have hlabel : Decides C (do let ts ← labelTypes l; popAll ts; pushAll ts)
      (fun ins outs => ∃ ts, C.labels[l.toNat]? = some ts ∧
        ∃ below, ins = ts.reverse ++ below ∧ outs = ts.reverse ++ below) := by
    refine Decides.label (fun ts hts => ?_) ?_
    · refine ((decides_popAll ts).bind (decides_pushAll ts)).congr fun ins outs => ?_
      constructor
      · rintro ⟨below, hin, hout⟩; exact ⟨ts, hts, below, hin, hout⟩
      · rintro ⟨ts', h, below, hin, hout⟩
        cases hts.symm.trans h
        exact ⟨below, hin, hout⟩
    · rintro hnone ins outs ⟨ts, h, -⟩
      rw [hnone] at h; cases h
  refine ((decides_pop .i32).bind hlabel).congr fun ins outs => ?_
  constructor
  · rintro ⟨_, rfl, ts, hts, below, rfl, rfl⟩
    exact ⟨below, ts ++ [.i32], ts, by simp, rfl, .brIf hts⟩
  · rintro ⟨below, a, b, rfl, rfl, hi⟩
    cases hi with
    | brIf hts => exact ⟨_, by simp, _, hts, below, rfl, rfl⟩

/-- Popping operands of known types and putting back what was found decides that they are there. -/
theorem decides_repush (ts : List ValType) :
    Decides C (do let found ← popOperands (ts.map .known); pushOperands found)
      (fun ins outs => outs = ins ∧ ∃ below, ins = ts.reverse ++ below) := by
  have h : Decides C (do popAll ts; pushAll ts)
      (fun ins outs => outs = ins ∧ ∃ below, ins = ts.reverse ++ below) := by
    refine ((decides_popAll ts).bind (decides_pushAll ts)).congr fun ins outs => ?_
    constructor
    · rintro ⟨below, rfl, rfl⟩; exact ⟨rfl, below, rfl⟩
    · rintro ⟨rfl, below, rfl⟩; exact ⟨below, rfl, rfl⟩
  refine h.of_eq fun base frame outer xs dead _ => ?_
  rcases popOperands_known base frame outer ts xs dead with ⟨xs', h', _⟩ | ⟨⟨e, h'⟩, _⟩
  · rw [bind_of_ok h', popAll, bind_assoc, bind_of_ok h']; rfl
  · rw [bind_of_error h', popAll, bind_assoc, bind_of_error h']

/-- The targets of a branch table, the default one apart: each is a label that carries as many values
    as asked for, and these are on top. -/
theorem decides_branchTargets (arity : Nat) (ls : List LabelIdx) :
    Decides C (branchTargets arity ls) (fun ins outs => outs = ins ∧
      ∀ l ∈ ls, ∃ ts, C.labels[l.toNat]? = some ts ∧ ts.length = arity ∧
        ∃ below, ins = ts.reverse ++ below) := by
  induction ls with
  | nil => exact Decides.pure.congr fun ins outs => by simp
  | cons l ls ih =>
    rw [branchTargets]
    refine Decides.label (fun ts hts => ?_) ?_
    · by_cases hlen : ts.length = arity
      · have hneg : ¬ ts.length ≠ arity := fun h => h hlen
        simp only [if_neg hneg, ← bind_assoc]
        refine ((decides_repush ts).bind ih).congr fun ins outs => ?_
        constructor
        · rintro ⟨mid, ⟨rfl, hbelow⟩, rfl, hls⟩
          exact ⟨rfl, List.forall_mem_cons.mpr ⟨⟨ts, hts, hlen, hbelow⟩, hls⟩⟩
        · rintro ⟨rfl, hall⟩
          obtain ⟨⟨ts', h, -, hbelow⟩, hls⟩ := List.forall_mem_cons.mp hall
          cases hts.symm.trans h
          exact ⟨outs, ⟨rfl, hbelow⟩, rfl, hls⟩
      · simp only [if_pos hlen]
        refine Decides.of_error (fun base frame outer xs dead _ => ⟨_, rfl⟩) ?_
        rintro ins outs ⟨-, hall⟩
        obtain ⟨ts', h, hlen', -⟩ := hall l List.mem_cons_self
        cases hts.symm.trans h
        exact hlen hlen'
    · rintro hnone ins outs ⟨-, hall⟩
      obtain ⟨ts, h, -⟩ := hall l List.mem_cons_self
      rw [hnone] at h; cases h

/-- Equally many types on top of one stack are the same types. -/
theorem eq_of_reverse_append_eq {ts ts' below below' : List ValType} (hlen : ts.length = ts'.length)
    (h : ts.reverse ++ below = ts'.reverse ++ below') : ts = ts' := by
  have := (List.append_inj h (by simpa using hlen)).1
  exact List.reverse_inj.mp this

theorem decides_brTable (ls : Array LabelIdx) (default : LabelIdx) :
    Decides C (rule c (.brTable ls default)) (Framed C (.brTable ls default)) := by
  have hlabel : Decides C (do
        let types ← labelTypes default
        branchTargets types.length ls.toList
        popAll types
        unreachable)
      (fun ins _ => ∃ ts, C.labels[default.toNat]? = some ts ∧
        (∀ l ∈ ls.toList, C.labels[l.toNat]? = some ts) ∧ ∃ below, ins = ts.reverse ++ below) := by
    refine Decides.label (fun ts hts => ?_) ?_
    · refine ((decides_branchTargets ts.length ls.toList).bind
        ((decides_popAll ts).bind decides_unreachable)).congr fun ins outs => ?_
      constructor
      · rintro ⟨mid, ⟨rfl, hall⟩, below, rfl, -⟩
        -- Labels that carry equally many values, all found on top of one stack, carry the same types.
        refine ⟨ts, hts, fun l hl => ?_, below, rfl⟩
        obtain ⟨ts', h, hlen, below', hin⟩ := hall l hl
        rw [eq_of_reverse_append_eq hlen.symm hin]; exact h
      · rintro ⟨ts', h, hall, below, rfl⟩
        cases hts.symm.trans h
        exact ⟨_, ⟨rfl, fun l hl => ⟨ts, hall l hl, rfl, below, rfl⟩⟩, below, rfl, True.intro⟩
    · rintro hnone ins outs ⟨ts, h, -⟩
      rw [hnone] at h; cases h
  refine ((decides_pop .i32).bind hlabel).congr fun ins outs => ?_
  constructor
  · rintro ⟨_, rfl, ts, hdefault, hall, below, rfl⟩
    exact ⟨[], below.reverse ++ ts ++ [.i32], outs.reverse, by simp, by simp,
      .brTable hall hdefault⟩
  · rintro ⟨below, a, b, rfl, rfl, hi⟩
    cases hi with
    | @brTable _ _ _ ts under _ hall hdefault =>
      exact ⟨ts.reverse ++ (under.reverse ++ below), by simp, ts, hdefault, hall, _, rfl⟩

theorem decides_ret : Decides C (rule c .ret) (Framed C .ret) := by
  have h : Decides C (do popAll C.results; unreachable) (Framed C .ret) := by
    refine ((decides_popAll C.results).bind decides_unreachable).congr fun ins outs => ?_
    constructor
    · rintro ⟨mid, rfl, -⟩
      exact ⟨[], mid.reverse ++ C.results, outs.reverse, by simp, by simp, .ret⟩
    · rintro ⟨below, a, b, rfl, rfl, hi⟩
      cases hi with
      | @ret _ under _ => exact ⟨under.reverse ++ below, by simp, True.intro⟩
  refine h.of_eq fun base frame outer xs dead hC => ?_
  have hlast : (inBlock base frame outer xs dead).frames.getLast?.map CtrlFrame.labelTypes =
      some C.results := by
    rw [← hC.results]
    cases outer <;> rfl
  obtain ⟨last, hl, hresults⟩ := Option.map_eq_some_iff.mp hlast
  rw [← hresults]
  simp only [rule, bind, StateT.bind, Except.bind, get, getThe, MonadStateOf.get, StateT.get, pure,
    Except.pure, hl]

/-! ## Look-ups in the index spaces -/

theorem typeAt_eq_ok_iff {c : Context} {t : TypeIdx} {type : FuncType} :
    c.typeAt t = .ok type ↔ c.types[t.toNat]? = some type := by
  unfold Context.typeAt
  cases c.types[t.toNat]? <;> simp

theorem funcType_eq_ok_iff {c : Context} {f : FuncIdx} {type : FuncType} :
    c.funcType f = .ok type ↔
      ∃ t, c.funcs[f.toNat]? = some t ∧ c.types[t.toNat]? = some type := by
  unfold Context.funcType
  cases c.funcs[f.toNat]? with
  | none => simp
  | some t => simp [typeAt_eq_ok_iff]

theorem globalType_eq_ok_iff {c : Context} {g : GlobalIdx} {type : GlobalType} :
    c.globalType g = .ok type ↔ c.globals[g.toNat]? = some type := by
  unfold Context.globalType
  cases c.globals[g.toNat]? <;> simp

theorem requireTable_zero_eq_ok_iff {c : Context} {u : Unit} :
    c.requireTable 0 = .ok u ↔ 0 < c.tables.size := by
  unfold Context.requireTable
  split <;> simp_all

theorem requireMemory_zero_eq_ok_iff {c : Context} {u : Unit} :
    c.requireMemory 0 = .ok u ↔ 0 < c.memories.size := by
  unfold Context.requireMemory
  split <;> simp_all

theorem localType_eq_ok_iff {x : LocalIdx} {t : ValType} (hc : Reads c C) :
    c.localType x = .ok t ↔ C.locals[x.toNat]? = some t := by
  unfold BodyContext.localType
  rw [hc.locals, List.getElem?_toArray]
  cases C.locals[x.toNat]? <;> simp

/-! ## Calls -/

theorem decides_call (hc : Reads c C) (f : FuncIdx) :
    Decides C (rule c (.call f)) (Framed C (.call f)) := by
  refine Decides.lookup (fun type => by rw [hc.context, funcType_eq_ok_iff])
    (fun type _ => decides_popAll_pushAll type.params type.results) fun a b => ?_
  constructor
  · intro hi
    cases hi with
    | call hf ht => exact ⟨_, ⟨_, hf, ht⟩, rfl, rfl⟩
  · rintro ⟨type, ⟨t, hf, ht⟩, rfl, rfl⟩; exact .call hf ht

theorem decides_callIndirect (hc : Reads c C) (t : TypeIdx) :
    Decides C (rule c (.callIndirect t)) (Framed C (.callIndirect t)) := by
  have hmoves : ∀ type : FuncType,
      Decides C (do pop .i32; popAll type.params; pushAll type.results)
        (Takes (type.params ++ [.i32]) type.results) := by
    intro type
    refine ((decides_pop .i32).bind
      (decides_popAll_pushAll type.params type.results)).congr fun ins outs => ?_
    constructor
    · rintro ⟨_, rfl, below, rfl, rfl⟩; exact ⟨below, by simp, rfl⟩
    · rintro ⟨below, rfl, rfl⟩; exact ⟨_, by simp, below, rfl, rfl⟩
  refine Decides.lift (fun u htable => ?_) ?_
  · rw [hc.context, requireTable_zero_eq_ok_iff] at htable
    refine Decides.lookup (fun type => by rw [hc.context, typeAt_eq_ok_iff])
      (fun type _ => hmoves type) fun a b => ?_
    constructor
    · intro hi
      cases hi with
      | callIndirect _ ht => exact ⟨_, ht, rfl, rfl⟩
    · rintro ⟨type, ht, rfl, rfl⟩; exact .callIndirect htable ht
  · rintro e herr ins outs ⟨below, a, b, -, -, hi⟩
    cases hi with
    | callIndirect h _ =>
      rw [hc.context, (requireTable_zero_eq_ok_iff (u := ())).mpr h] at herr; cases herr

/-! ## Operands and variables -/

theorem decides_drop_rule : Decides C (rule c .drop) (Framed C .drop) := by
  refine decides_drop.congr fun ins outs => ?_
  constructor
  · rintro ⟨t, rfl⟩; exact ⟨outs, [t], [], rfl, rfl, .drop⟩
  · rintro ⟨below, a, b, rfl, rfl, hi⟩
    cases hi with
    | @drop _ t => exact ⟨t, rfl⟩

theorem decides_select : Decides C (rule c .select) (Framed C .select) := by
  refine ((decides_pop .i32).bind decides_selected).congr fun ins outs => ?_
  constructor
  · rintro ⟨_, rfl, t, rest, rfl, rfl⟩
    exact ⟨rest, [t, t, .i32], [t], rfl, rfl, .select⟩
  · rintro ⟨below, a, b, rfl, rfl, hi⟩
    cases hi with
    | @select _ t => exact ⟨_, rfl, t, below, rfl, rfl⟩

theorem decides_localGet (hc : Reads c C) (x : LocalIdx) :
    Decides C (rule c (.localGet x)) (Framed C (.localGet x)) := by
  refine Decides.lookup (fun t => localType_eq_ok_iff hc) (fun t _ => decides_push_takes t)
    fun a b => ?_
  constructor
  · intro hi
    cases hi with
    | localGet h => exact ⟨_, h, rfl, rfl⟩
  · rintro ⟨t, h, rfl, rfl⟩; exact .localGet h

theorem decides_localSet (hc : Reads c C) (x : LocalIdx) :
    Decides C (rule c (.localSet x)) (Framed C (.localSet x)) := by
  refine Decides.lookup (fun t => localType_eq_ok_iff hc) (fun t _ => decides_pop_takes t)
    fun a b => ?_
  constructor
  · intro hi
    cases hi with
    | localSet h => exact ⟨_, h, rfl, rfl⟩
  · rintro ⟨t, h, rfl, rfl⟩; exact .localSet h

theorem decides_localTee (hc : Reads c C) (x : LocalIdx) :
    Decides C (rule c (.localTee x)) (Framed C (.localTee x)) := by
  refine Decides.lookup (fun t => localType_eq_ok_iff hc) (fun t _ => decides_pop_push t t)
    fun a b => ?_
  constructor
  · intro hi
    cases hi with
    | localTee h => exact ⟨_, h, rfl, rfl⟩
  · rintro ⟨t, h, rfl, rfl⟩; exact .localTee h

theorem decides_globalGet (hc : Reads c C) (g : GlobalIdx) :
    Decides C (rule c (.globalGet g)) (Framed C (.globalGet g)) := by
  refine Decides.lookup (fun type => by rw [hc.context, globalType_eq_ok_iff])
    (fun type _ => decides_push_takes type.type) fun a b => ?_
  constructor
  · intro hi
    cases hi with
    | globalGet h => exact ⟨_, h, rfl, rfl⟩
  · rintro ⟨type, h, rfl, rfl⟩; exact .globalGet h

theorem isMutable_iff {type : GlobalType} : type.isMutable = true ↔ type.mutability = .var := by
  simp [GlobalType.isMutable]

theorem decides_globalSet (hc : Reads c C) (g : GlobalIdx) :
    Decides C (rule c (.globalSet g)) (Framed C (.globalSet g)) := by
  refine Decides.lift (fun type htype => ?_) ?_
  · rw [hc.context, globalType_eq_ok_iff] at htype
    by_cases hm : type.isMutable = true
    · rw [if_pos hm]
      refine (decides_pop_takes type.type).framed fun a b => ?_
      constructor
      · intro hi
        cases hi with
        | globalSet h _ => cases htype.symm.trans h; exact ⟨rfl, rfl⟩
      · rintro ⟨rfl, rfl⟩; exact .globalSet htype (isMutable_iff.mp hm)
    · rw [if_neg hm]
      refine Decides.of_error (fun base frame outer xs dead _ => ⟨_, rfl⟩) ?_
      rintro ins outs ⟨below, a, b, -, -, hi⟩
      cases hi with
      | globalSet h hvar => cases htype.symm.trans h; exact hm (isMutable_iff.mpr hvar)
  · rintro e herr ins outs ⟨below, a, b, -, -, hi⟩
    cases hi with
    | globalSet h _ => rw [hc.context, globalType_eq_ok_iff.mpr h] at herr; cases herr

/-! ## Memory and numbers -/

/-- A memory access is admitted when there is a memory and the alignment is at most natural. -/
theorem access_eq_lift (arg : MemArg) (natural : Nat) :
    access c arg natural = liftM (if 0 < c.memories.size then
      if natural < arg.align.toNat then Except.error (.alignmentTooLarge arg.align.toNat natural)
      else .ok () else .error (ValidationError.unknownMemory 0)) := by
  unfold access Context.requireMemory
  by_cases hm : 0 < c.memories.size
  · rw [if_pos hm, if_pos (show UInt32.toNat 0 < c.memories.size from hm)]
    by_cases ha : natural < arg.align.toNat
    · rw [if_pos ha, if_pos ha]; rfl
    · rw [if_neg ha, if_neg ha]; rfl
  · rw [if_neg hm, if_neg (show ¬ UInt32.toNat 0 < c.memories.size from hm)]; rfl

theorem access_iff (hc : Reads c C) (arg : MemArg) (natural : Nat) (u : Unit) :
    (if 0 < c.memories.size then
      if natural < arg.align.toNat then Except.error (.alignmentTooLarge arg.align.toNat natural)
      else .ok () else .error (ValidationError.unknownMemory 0)) = .ok u ↔
      0 < C.memories.size ∧ arg.align.toNat ≤ natural := by
  rw [hc.context]
  split
  · split
    · simp; omega
    · simp; omega
  · simp; omega

theorem decides_load (hc : Reads c C) (op : LoadOp) (arg : MemArg) :
    Decides C (rule c (.load op arg)) (Framed C (.load op arg)) := by
  rw [rule, access_eq_lift]
  refine Decides.lookup (access_iff hc arg op.logBytes)
    (fun u _ => decides_pop_push .i32 op.type) fun a b => ?_
  constructor
  · intro hi
    cases hi with
    | load hm ha => exact ⟨(), ⟨hm, ha⟩, rfl, rfl⟩
  · rintro ⟨-, ⟨hm, ha⟩, rfl, rfl⟩; exact .load hm ha

theorem decides_store (hc : Reads c C) (op : StoreOp) (arg : MemArg) :
    Decides C (rule c (.store op arg)) (Framed C (.store op arg)) := by
  rw [rule, access_eq_lift]
  refine Decides.lookup (access_iff hc arg op.logBytes)
    (fun u _ => decides_popAll_takes [.i32, op.type]) fun a b => ?_
  constructor
  · intro hi
    cases hi with
    | store hm ha => exact ⟨(), ⟨hm, ha⟩, rfl, rfl⟩
  · rintro ⟨-, ⟨hm, ha⟩, rfl, rfl⟩; exact .store hm ha

theorem decides_memorySize (hc : Reads c C) :
    Decides C (rule c .memorySize) (Framed C .memorySize) := by
  refine Decides.lookup (fun u => by rw [hc.context, requireMemory_zero_eq_ok_iff])
    (fun u _ => decides_push_takes .i32) fun a b => ?_
  constructor
  · intro hi
    cases hi with
    | memorySize hm => exact ⟨(), hm, rfl, rfl⟩
  · rintro ⟨-, hm, rfl, rfl⟩; exact .memorySize hm

theorem decides_memoryGrow (hc : Reads c C) :
    Decides C (rule c .memoryGrow) (Framed C .memoryGrow) := by
  refine Decides.lookup (fun u => by rw [hc.context, requireMemory_zero_eq_ok_iff])
    (fun u _ => decides_pop_push .i32 .i32) fun a b => ?_
  constructor
  · intro hi
    cases hi with
    | memoryGrow hm => exact ⟨(), hm, rfl, rfl⟩
  · rintro ⟨-, hm, rfl, rfl⟩; exact .memoryGrow hm

theorem decides_const (v : Value) : Decides C (rule c (.const v)) (Framed C (.const v)) := by
  refine (decides_push_takes v.type).framed fun a b => ?_
  constructor
  · intro hi; cases hi; exact ⟨rfl, rfl⟩
  · rintro ⟨rfl, rfl⟩; exact .const

theorem decides_numeric (op : NumOp) : Decides C (rule c (.numeric op)) (Framed C (.numeric op)) := by
  refine (decides_popAll_pushAll op.operands [op.result]).framed fun a b => ?_
  constructor
  · intro hi; cases hi; exact ⟨rfl, rfl⟩
  · rintro ⟨rfl, rfl⟩; exact .numeric

theorem decides_nop : Decides C (rule c .nop) (Framed C .nop) := by
  have h : Decides C (rule c .nop) (Takes [] []) :=
    Decides.pure.congr fun ins outs => ⟨fun h => ⟨ins, rfl, h⟩, by rintro ⟨_, rfl, rfl⟩; rfl⟩
  refine h.framed fun a b => ?_
  constructor
  · intro hi; cases hi; exact ⟨rfl, rfl⟩
  · rintro ⟨rfl, rfl⟩; exact .nop

theorem decides_unreachable_rule : Decides C (rule c .unreachable) (Framed C .unreachable) :=
  decides_unreachable.congr fun ins outs =>
    ⟨fun _ => ⟨[], ins.reverse, outs.reverse, by simp, by simp, .unreachable⟩, fun _ => True.intro⟩

/-- **Every instruction that holds no body decides its rules.** -/
theorem decides_rule (hc : Reads c C) {i : Instr} (hi : i.opened = none) :
    Decides C (rule c i) (Framed C i) := by
  cases i with
  | block | loop | ifThen | ifElse => cases hi
  | unreachable => exact decides_unreachable_rule
  | nop => exact decides_nop
  | br l => exact decides_br l
  | brIf l => exact decides_brIf l
  | brTable ls default => exact decides_brTable ls default
  | ret => exact decides_ret
  | call f => exact decides_call hc f
  | callIndirect t => exact decides_callIndirect hc t
  | drop => exact decides_drop_rule
  | select => exact decides_select
  | localGet x => exact decides_localGet hc x
  | localSet x => exact decides_localSet hc x
  | localTee x => exact decides_localTee hc x
  | globalGet g => exact decides_globalGet hc g
  | globalSet g => exact decides_globalSet hc g
  | load op arg => exact decides_load hc op arg
  | store op arg => exact decides_store hc op arg
  | memorySize => exact decides_memorySize hc
  | memoryGrow => exact decides_memoryGrow hc
  | const v => exact decides_const v
  | numeric op => exact decides_numeric op

/-! ## Blocks -/

/-- **Closing a block.** It succeeds exactly if the operands of the block can be its results, and then
    only what was there before the block is left. -/
theorem popFrame_inBlock (base : Stack OperandType) (frame : CtrlFrame) (outer : List CtrlFrame)
    (xs : List OperandType) (dead : Bool) :
    (Fits dead xs frame.results.reverse ∧ popFrame (inBlock base frame outer xs dead) =
      .ok ({ frame with height := base.height, unreachable := dead }, ⟨base, outer⟩)) ∨
    (¬ Fits dead xs frame.results.reverse ∧
      ∃ e, popFrame (inBlock base frame outer xs dead) = .error e) := by
  have hin : innermost (inBlock base frame outer xs dead) =
      .ok ({ frame with height := base.height, unreachable := dead },
        inBlock base frame outer xs dead) := rfl
  have hget : ∀ xs, (get : Check CheckState) (inBlock base frame outer xs dead) =
      .ok (inBlock base frame outer xs dead, inBlock base frame outer xs dead) := fun _ => rfl
  rcases popOperands_known base frame outer frame.results xs dead with
    ⟨xs', h, hf⟩ | ⟨⟨e, h⟩, hno⟩
  · have hpop : popAll frame.results (inBlock base frame outer xs dead) =
        .ok ((), inBlock base frame outer xs' dead) := by rw [popAll, bind_of_ok h]; rfl
    have hfits := hf []
    rw [List.append_nil] at hfits
    cases xs' with
    | nil =>
      refine Or.inl ⟨hfits.mp (Or.inr rfl), ?_⟩
      have hb : base.pushAll [] = base := Stack.ext rfl
      rw [popFrame, bind_of_ok hin, bind_of_ok hpop, bind_of_ok (hget [])]
      rw [if_neg (by rw [inBlock, hb]; exact fun h => h rfl)]
      show Except.ok (_, (⟨base.pushAll [], outer⟩ : CheckState)) = _
      rw [hb]
    | cons x xs' =>
      -- An operand is left over, whatever types are read into the dead part.
      refine Or.inr ⟨fun hx => not_fits_cons_nil (hfits.mpr hx),
        .operandsLeft ((base.pushAll (x :: xs')).height - base.height), ?_⟩
      rw [popFrame, bind_of_ok hin, bind_of_ok hpop, bind_of_ok (hget (x :: xs'))]
      have hh : (base.pushAll (x :: xs')).height ≠ base.height := by
        rw [Stack.height_pushAll, List.length_cons]; omega
      exact congrFun (if_pos hh) _
  · refine Or.inr ⟨fun hx => hno [] (by rw [List.append_nil]; exact hx), e, ?_⟩
    have hpop : popAll frame.results (inBlock base frame outer xs dead) = .error e := by
      rw [popAll, bind_of_error h]
    rw [popFrame, bind_of_ok hin, bind_of_error hpop]

/-- The relation that a body decides: its type, read from the top. -/
def Typed (C : Scope) (is : List Instr) (ins outs : List ValType) : Prop :=
  Expr.HasType C is ins.reverse outs.reverse

/-- **A block accepts its body exactly if the body takes nothing and leaves the results of the
    block**, and then only what was there before the block is left. -/
theorem closed_inBlock {m : Check Unit} {is : List Instr} {frame : CtrlFrame}
    {outer : List CtrlFrame} (base : Stack OperandType) (hm : Decides C m (Typed C is))
    (hC : Scoped C (frame :: outer)) :
    (Expr.HasType C is [] frame.results ∧ ∃ f, f.kind = frame.kind ∧ f.results = frame.results ∧
      (do m; popFrame) (inBlock base frame outer [] false) = .ok (f, ⟨base, outer⟩)) ∨
    (¬ Expr.HasType C is [] frame.results ∧
      ∃ e, (do m; popFrame) (inBlock base frame outer [] false) = .error e) := by
  have hstart : Fits false [] [] := Or.inr rfl
  have htyped : Expr.HasType C is [] frame.results → Typed C is [] frame.results.reverse := by
    intro h
    rw [Typed, List.reverse_reverse]; exact h
  cases hrun : m (inBlock base frame outer [] false) with
  | error e =>
    refine Or.inr ⟨fun htype => ?_, e, bind_of_error hrun⟩
    -- A body with the right type would have been followed to its end.
    obtain ⟨xs', dead', h, -⟩ := hm.complete hC hstart (htyped htype)
    rw [hrun] at h; cases h
  | ok p =>
    obtain ⟨⟨⟩, s'⟩ := p
    obtain ⟨xs', dead', rfl, hsound⟩ := hm.sound hC hrun
    rw [bind_of_ok hrun]
    rcases popFrame_inBlock base frame outer xs' dead' with ⟨hf, h⟩ | ⟨hf, e, h⟩
    · obtain ⟨ins, hins, hins'⟩ := hsound _ hf
      have hnil : ins = [] := hins.resolve_left (by simp)
      rw [hnil, Typed, List.reverse_reverse] at hins'
      exact Or.inl ⟨hins', { frame with height := base.height, unreachable := dead' }, rfl, rfl, h⟩
    · refine Or.inr ⟨fun htype => hf ?_, e, h⟩
      -- The body has only one run, so what completeness says is about the run at hand.
      obtain ⟨xs₂, dead₂, h₂, hf₂⟩ := hm.complete hC hstart (htyped htype)
      rw [hrun] at h₂
      have hstate : inBlock base frame outer xs' dead' = inBlock base frame outer xs₂ dead₂ :=
        congrArg Prod.snd (Except.ok.inj h₂)
      obtain ⟨rfl, rfl⟩ := inBlock_inj hstate
      exact hf₂

/-- Checks something in a block of its own. -/
def within (kind : FrameKind) (results : List ValType) (m : Check Unit) : Check CtrlFrame := do
  pushFrame kind results
  m
  popFrame

/-- The types that a branch to a block of a kind carries. -/
def blockLabel (kind : FrameKind) (results : List ValType) : List ValType :=
  if kind = .loop then [] else results

/-- A block inside another accepts its body exactly if the body has the type of the block, and leaves
    what was there before. -/
theorem within_inBlock {kind : FrameKind} {results : List ValType} {m : Check Unit}
    {is : List Instr} (hkind : kind ≠ .constant)
    (hm : Decides (C.enter (blockLabel kind results)) m
      (Typed (C.enter (blockLabel kind results)) is))
    {frame : CtrlFrame} {outer : List CtrlFrame} (base : Stack OperandType)
    (xs : List OperandType) (dead : Bool) (hC : Scoped C (frame :: outer)) :
    (Expr.HasType (C.enter (blockLabel kind results)) is [] results ∧
      ∃ f, f.kind = kind ∧ f.results = results ∧
        within kind results m (inBlock base frame outer xs dead) =
          .ok (f, inBlock base frame outer xs dead)) ∨
    (¬ Expr.HasType (C.enter (blockLabel kind results)) is [] results ∧
      ∃ e, within kind results m (inBlock base frame outer xs dead) = .error e) := by
  let inner : CtrlFrame :=
    { kind, results, height := (base.pushAll xs).height, unreachable := false }
  let outer' := { frame with height := base.height, unreachable := dead } :: outer
  have hpush : pushFrame kind results (inBlock base frame outer xs dead) =
      .ok ((), inBlock (base.pushAll xs) inner outer' [] false) := by
    show Except.ok ((), (⟨base.pushAll xs, inner :: outer'⟩ : CheckState)) = _
    have hb : (base.pushAll xs).pushAll [] = base.pushAll xs := Stack.ext rfl
    simp only [inBlock, hb]; rfl
  have hscope : Scoped (C.enter (blockLabel kind results)) (inner :: outer') := by
    refine ⟨?_, ?_, ?_⟩
    · show _ :: _ :: _ = _ :: C.labels
      rw [← hC.labels]; rfl
    · rw [← show _ = some (C.enter _).results from hC.results]
      cases outer <;> rfl
    · intro f hf
      rcases List.mem_cons.mp hf with rfl | hf
      · exact hkind
      · rcases List.mem_cons.mp hf with rfl | hf
        · exact hC.body frame List.mem_cons_self
        · exact hC.body f (List.mem_cons_of_mem _ hf)
  unfold within
  rw [bind_of_ok hpush]
  exact closed_inBlock (base.pushAll xs) hm hscope

/-- What follows a block is checked only where the body of the block has its type. -/
theorem decides_nested (kind : FrameKind) (results : List ValType) (is : List Instr)
    {m : Check Unit} {k : CtrlFrame → Check Unit} {R : List ValType → List ValType → Prop}
    (hkind : kind ≠ .constant)
    (hm : Decides (C.enter (blockLabel kind results)) m
      (Typed (C.enter (blockLabel kind results)) is))
    (hk : Expr.HasType (C.enter (blockLabel kind results)) is [] results →
      ∀ f, f.kind = kind → f.results = results → Decides C (k f) R)
    (hR : ∀ ins outs, R ins outs → Expr.HasType (C.enter (blockLabel kind results)) is [] results) :
    Decides C (do let f ← within kind results m; k f) R where
  sound := by
    intro base frame outer xs dead s' hC h
    rcases within_inBlock hkind hm base xs dead hC with ⟨htype, f, h₁, h₂, hw⟩ | ⟨-, e, hw⟩
    · rw [bind_of_ok hw] at h
      exact (hk htype f h₁ h₂).sound hC h
    · rw [bind_of_error hw] at h; cases h
  complete := by
    intro base frame outer xs dead ins outs hC hf hr
    rcases within_inBlock hkind hm base xs dead hC with ⟨htype, f, h₁, h₂, hw⟩ | ⟨hno, -⟩
    · rw [bind_of_ok hw]
      exact (hk htype f h₁ h₂).complete hC hf hr
    · exact absurd (hR ins outs hr) hno

/-- Inside a function an instruction is checked by its rule alone. -/
theorem instr_inBlock {i : Instr} {base : Stack OperandType} {frame : CtrlFrame}
    {outer : List CtrlFrame} {xs : List OperandType} {dead : Bool} (hC : Scoped C (frame :: outer)) :
    instr c i (inBlock base frame outer xs dead) = rule c i (inBlock base frame outer xs dead) := by
  have hkind : frame.kind ≠ .constant := hC.body frame List.mem_cons_self
  have hany : ¬ (inBlock base frame outer xs dead).frames.head?.any (·.kind = .constant) = true := by
    simpa [inBlock] using hkind
  have hget : (get : Check CheckState) (inBlock base frame outer xs dead) =
      .ok (inBlock base frame outer xs dead, inBlock base frame outer xs dead) := rfl
  rw [instr, bind_of_ok hget, if_neg hany]

/-! ## Whole bodies -/

theorem Reads.enter (hc : Reads c C) (label : List ValType) : Reads c (C.enter label) :=
  ⟨hc.context, hc.locals⟩

/-- Leaves a block that has been closed: its results come on top, but a conditional without another
    arm must have none. -/
def leave (frame : CtrlFrame) : Check Unit :=
  if frame.kind = .ifThen ∧ frame.results ≠ [] then throw .elseRequired else pushAll frame.results

theorem leave_of_ne {frame : CtrlFrame} (h : frame.kind ≠ .ifThen) :
    leave frame = pushAll frame.results := if_neg fun hk => h hk.1

/-- A structured instruction opens its block by its rule. -/
theorem visit_inBlock {i : Instr} {m : Check Unit} {base : Stack OperandType} {frame : CtrlFrame}
    {outer : List CtrlFrame} {xs : List OperandType} {dead : Bool} (hC : Scoped C (frame :: outer)) :
    (do instr c i; m) (inBlock base frame outer xs dead) =
      (do rule c i; m) (inBlock base frame outer xs dead) := by
  show (instr c i _ >>= _) = (rule c i _ >>= _)
  rw [instr_inBlock hC]

theorem decides_block {t : BlockType} {body : List Instr}
    (hbody : Decides (C.enter t.results) (visitAll c body) (Typed (C.enter t.results) body)) :
    Decides C (visit c (.block t body)) (Framed C (.block t body)) := by
  have hnested : Decides C (do let f ← within .block t.results (visitAll c body); leave f)
      (Framed C (.block t body)) := by
    refine decides_nested .block t.results body (by simp) hbody (fun htype f hk hr => ?_) ?_
    · rw [leave_of_ne (by rw [hk]; simp), hr]
      refine (decides_pushAll_takes t.results).framed fun a b => ?_
      constructor
      · intro hi; cases hi; exact ⟨rfl, rfl⟩
      · rintro ⟨rfl, rfl⟩; exact .block htype
    · rintro ins outs ⟨below, a, b, -, -, hi⟩
      cases hi with
      | block h => exact h
  refine hnested.of_eq fun base frame outer xs dead hC => ?_
  rw [visit, visit_inBlock hC, within]
  simp only [bind_assoc]; rfl

theorem decides_loop {t : BlockType} {body : List Instr}
    (hbody : Decides (C.enter []) (visitAll c body) (Typed (C.enter []) body)) :
    Decides C (visit c (.loop t body)) (Framed C (.loop t body)) := by
  have hnested : Decides C (do let f ← within .loop t.results (visitAll c body); leave f)
      (Framed C (.loop t body)) := by
    refine decides_nested .loop t.results body (by simp) hbody (fun htype f hk hr => ?_) ?_
    · rw [leave_of_ne (by rw [hk]; simp), hr]
      refine (decides_pushAll_takes t.results).framed fun a b => ?_
      constructor
      · intro hi; cases hi; exact ⟨rfl, rfl⟩
      · rintro ⟨rfl, rfl⟩; exact .loop htype
    · rintro ins outs ⟨below, a, b, -, -, hi⟩
      cases hi with
      | loop h => exact h
  refine hnested.of_eq fun base frame outer xs dead hC => ?_
  rw [visit, visit_inBlock hC, within]
  simp only [bind_assoc]; rfl

theorem decides_ifThen {t : BlockType} {body : List Instr}
    (hbody : Decides (C.enter t.results) (visitAll c body) (Typed (C.enter t.results) body)) :
    Decides C (visit c (.ifThen t body)) (Framed C (.ifThen t body)) := by
  have hnested : Decides C (do let f ← within .ifThen t.results (visitAll c body); leave f)
      (fun ins outs => t = .empty ∧ Expr.HasType (C.enter t.results) body [] t.results ∧
        outs = ins) := by
    refine decides_nested .ifThen t.results body (by simp) hbody (fun htype f hk hr => ?_)
      fun ins outs h => h.2.1
    cases t with
    | empty =>
      have hl : leave f = pushAll [] := by
        rw [leave, hr, if_neg fun h => h.2 rfl]; rfl
      rw [hl]
      exact (decides_pushAll []).congr fun ins outs => ⟨fun h => ⟨rfl, htype, h⟩, fun h => h.2.2⟩
    | value t =>
      -- With one arm there is nothing that leaves a value when the condition is zero.
      refine Decides.of_error (fun base frame outer xs dead _ => ⟨.elseRequired, ?_⟩) ?_
      · rw [leave, if_pos ⟨hk, by rw [hr]; simp [BlockType.results]⟩]; rfl
      · rintro ins outs ⟨h, -⟩; cases h
  refine (((decides_pop .i32).bind hnested).of_eq fun base frame outer xs dead hC => ?_).congr
    fun ins outs => ?_
  · rw [visit, visit_inBlock hC, rule, within]
    simp only [bind_assoc]; rfl
  · constructor
    · rintro ⟨mid, rfl, rfl, htype, rfl⟩
      exact ⟨outs, [.i32], [], rfl, rfl, .ifThen htype⟩
    · rintro ⟨below, a, b, rfl, rfl, hi⟩
      cases hi with
      | ifThen h => exact ⟨below, rfl, rfl, h, rfl⟩

theorem decides_ifElse {t : BlockType} {body alternate : List Instr}
    (hbody : Decides (C.enter t.results) (visitAll c body) (Typed (C.enter t.results) body))
    (halternate : Decides (C.enter t.results) (visitAll c alternate)
      (Typed (C.enter t.results) alternate)) :
    Decides C (visit c (.ifElse t body alternate)) (Framed C (.ifElse t body alternate)) := by
  have hsecond : Decides C (do let f ← within .elseArm t.results (visitAll c alternate); leave f)
      (fun ins outs => Expr.HasType (C.enter t.results) alternate [] t.results ∧
        outs = t.results.reverse ++ ins) := by
    refine decides_nested .elseArm t.results alternate (by simp) halternate
      (fun htype f hk hr => ?_) fun ins outs h => h.1
    rw [leave_of_ne (by rw [hk]; simp), hr]
    exact (decides_pushAll t.results).congr fun ins outs => ⟨fun h => ⟨htype, h⟩, fun h => h.2⟩
  have hnested : Decides C (do
        let f ← within .ifThen t.results (visitAll c body)
        let f ← within .elseArm f.results (visitAll c alternate)
        leave f)
      (fun ins outs => Expr.HasType (C.enter t.results) body [] t.results ∧
        Expr.HasType (C.enter t.results) alternate [] t.results ∧
        outs = t.results.reverse ++ ins) := by
    refine decides_nested .ifThen t.results body (by simp) hbody (fun htype f hk hr => ?_)
      fun ins outs h => h.1
    rw [hr]
    exact hsecond.congr fun ins outs => ⟨fun h => ⟨htype, h⟩, fun h => h.2⟩
  refine (((decides_pop .i32).bind hnested).of_eq fun base frame outer xs dead hC => ?_).congr
    fun ins outs => ?_
  · rw [visit, visit_inBlock hC, rule]
    simp only [within, endBody, bind_assoc]; rfl
  · constructor
    · rintro ⟨mid, rfl, hthen, helse, rfl⟩
      exact ⟨mid, [.i32], t.results, rfl, rfl, .ifElse hthen helse⟩
    · rintro ⟨below, a, b, rfl, rfl, hi⟩
      cases hi with
      | ifElse hthen helse => exact ⟨below, rfl, hthen, helse, rfl⟩

mutual

/-- **An instruction with its bodies decides its rules.** -/
theorem decides_visit {C : Scope} (hc : Reads c C) (i : Instr) :
    Decides C (visit c i) (Framed C i) := by
  cases i with
  | block t body => exact decides_block (decides_visitAll (hc.enter t.results) body)
  | loop t body => exact decides_loop (decides_visitAll (hc.enter []) body)
  | ifThen t body => exact decides_ifThen (decides_visitAll (hc.enter t.results) body)
  | ifElse t body alternate =>
    exact decides_ifElse (decides_visitAll (hc.enter t.results) body)
      (decides_visitAll (hc.enter t.results) alternate)
  | _ =>
    refine (decides_rule hc rfl).of_eq fun base frame outer xs dead hC => ?_
    rw [visit, instr_inBlock hC]
    all_goals simp

/-- **A body decides its type.** -/
theorem decides_visitAll {C : Scope} (hc : Reads c C) (is : List Instr) :
    Decides C (visitAll c is) (Typed C is) := by
  cases is with
  | nil =>
    rw [visitAll]
    refine Decides.pure.congr fun ins outs => ?_
    constructor
    · rintro rfl; exact .nil
    · intro h; exact (List.reverse_inj.mp h.inv_nil).symm
  | cons i is =>
    rw [visitAll]
    refine ((decides_visit hc i).bind (decides_visitAll hc is)).congr fun ins outs => ?_
    constructor
    · rintro ⟨mid, ⟨below, a, b, rfl, rfl, hi⟩, his⟩
      rw [Typed, List.reverse_append, List.reverse_reverse] at *
      exact .cons hi his
    · intro h
      obtain ⟨below, a, b, hin, hi, his⟩ := Expr.HasType.inv_cons h
      refine ⟨b.reverse ++ below.reverse, ⟨below.reverse, a, b, ?_, rfl, hi⟩, ?_⟩
      · rw [← List.reverse_append, ← hin, List.reverse_reverse]
      · rw [Typed, ← List.reverse_append, List.reverse_reverse]; exact his

end

end WasmCore.Check

namespace WasmCore

open Check in
/-- A function body is either accepted and has its type, or refused and has not. -/
theorem checkFunc_cases (c : Context) (locals results : List ValType) (is : Expr) :
    (Expr.HasType (Scope.ofFunc c locals results) is [] results ∧
      checkFunc c locals results is = .ok ()) ∨
    (¬ Expr.HasType (Scope.ofFunc c locals results) is [] results ∧
      ∃ e, checkFunc c locals results is = .error e) := by
  let bc : BodyContext := { toContext := c, locals := locals.toArray }
  let frame : CtrlFrame := { kind := .func, results, height := 0, unreachable := false }
  have hreads : Reads bc (Scope.ofFunc c locals results) := ⟨rfl, rfl⟩
  have hscope : Scoped (Scope.ofFunc c locals results) [frame] :=
    ⟨rfl, rfl, fun f hf => by rw [List.mem_singleton.mp hf]; simp [frame]⟩
  have hpush : pushFrame .func results .initial = .ok ((), inBlock ∅ frame [] [] false) := rfl
  have hrun : checkFunc c locals results is =
      (do let _ ← (do let _ ← (do visitAll bc is; popFrame)) (inBlock ∅ frame [] [] false)) := by
    show (do let _ ← Check.body bc .func results is .initial) = _
    rw [Check.body, bind_of_ok hpush, walk_single, bind_assoc]
  rw [hrun]
  rcases closed_inBlock ∅ (decides_visitAll hreads is) hscope with ⟨htype, f, -, -, h⟩ | ⟨hno, e, h⟩
  · rw [bind_of_ok h]; exact Or.inl ⟨htype, rfl⟩
  · rw [bind_of_error h]; exact Or.inr ⟨hno, e, rfl⟩

/-- An accepted body has its type. -/
theorem hasType_of_checkFunc {c : Context} {locals results : List ValType} {is : Expr}
    (h : checkFunc c locals results is = .ok ()) :
    Expr.HasType (Scope.ofFunc c locals results) is [] results := by
  rcases checkFunc_cases c locals results is with ⟨htype, -⟩ | ⟨-, e, he⟩
  · exact htype
  · rw [h] at he; cases he

/-- **The checker decides the typing rules.** A body is accepted exactly if the rules give it a type
    from no operands to the results of its function. -/
theorem checkFunc_eq_ok_iff_hasType (c : Context) (locals results : List ValType) (is : Expr) :
    checkFunc c locals results is = .ok () ↔
      Expr.HasType (Scope.ofFunc c locals results) is [] results := by
  rcases checkFunc_cases c locals results is with ⟨htype, h⟩ | ⟨hno, e, h⟩
  · exact ⟨fun _ => htype, fun _ => h⟩
  · rw [h]; exact ⟨nofun, fun htype => absurd htype hno⟩

end WasmCore
