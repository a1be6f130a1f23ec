import WasmCore.Proofs.Binary.Grammar
import WasmCore.Proofs.Exec.Fuel

/-!
# `Exec.Stacks` — labels and frames belong together

Labels of all functions under way stand on one stack, and frames on another. A frame knows which label is
its own, and nothing else ties the two together: a branch cuts the labels and leaves the frames alone, a
return is a branch, and only the end of a body takes a frame away. That no label and no frame is ever left
behind shows in how the two stacks are built up. It rests on the code having been checked, since a branch
past the label of its own function would take labels of the caller away.

How many labels a function can have is bounded by how deep its body is nested. A label remembers what
follows its block, and a loop its body: these are all parts of the body of the function, at their depths.

* `Nested`: **labels and frames in step**, function by function and block by block;
* `Nested.length_eq`, `Nested.drop`: the labels of the innermost function, and branches among them;
* `Nested.mem_bases_iff`, `Nested.increasing`, `Nested.length_le`: what it says of positions and numbers;
* `Instr.Transfer`, `transfer_step`: **what an instruction does to labels and frames**;
* `Machine.Orderly`, `Orderly.turn`, `Orderly.reaches`: **the invariant**, for a turn and for a run;
* `Store.Visits`, `WellFormed.orderly_visits`: calls from outside.
-/

namespace WasmCore

/-- Whether a label is that of a function. -/
def LabelKind.isFunc : LabelKind → Bool
  | func => true
  | _ => false

/-- A branch to the label of a function ends its body. -/
theorem LabelKind.target_of_isFunc {kind : LabelKind} (h : kind.isFunc = true) : kind.target = [] := by
  cases kind with
  | func => rfl
  | _ => cases h

/-- The positions that frames give their labels, the innermost first. -/
def Machine.bases (m : Machine) : List Nat := m.frames.toList.map Frame.labelBase

theorem Machine.length_bases (m : Machine) : m.bases.length = m.frames.height := by
  rw [bases, List.length_map, Stack.length_toList]

/-! ## Labels and frames in step -/

/-- **Labels and frames in step.** Of the innermost function `n` blocks have been entered. What follows a
    block, and what a branch to it goes on with, is nested so deep at most that not more than `limit`
    blocks of one function can be entered. -/
inductive Nested (limit : Nat) : Nat → List Label → List Nat → Prop
  | outside : Nested limit 0 [] []
  | func {n : Nat} {labels : List Label} {bases : List Nat} {label : Label} :
      Nested limit n labels bases → label.kind.isFunc = true → n + nestingOfBody label.rest ≤ limit →
      Nested limit 0 (label :: labels) (labels.length :: bases)
  | block {n : Nat} {labels : List Label} {base : Nat} {bases : List Nat} {label : Label} :
      Nested limit n labels (base :: bases) → label.kind.isFunc = false →
      n + nestingOfBody label.rest ≤ limit → n + 1 + nestingOfBody label.kind.target ≤ limit →
      Nested limit (n + 1) (label :: labels) (base :: bases)

namespace Nested

variable {limit n : Nat} {labels : List Label} {base : Nat} {bases : List Nat}

/-- **The labels of the innermost function** are its own and those of its blocks. -/
theorem length_eq (h : Nested limit n labels (base :: bases)) : labels.length = base + n + 1 := by
  generalize hall : base :: bases = all at h
  induction h with
  | outside => cases hall
  | func => cases hall; rfl
  | block _ _ _ _ ih => rw [List.length_cons, ih hall]; rfl

/-- Where no function is under way there are no labels. -/
theorem eq_nil (h : Nested limit n labels []) : labels = [] := by
  cases h
  rfl

/-- **A branch to a label of the innermost function** leaves blocks, and what it goes on with is nested no
    deeper than there is room for. -/
theorem drop (h : Nested limit n labels (base :: bases)) {d : Nat} (hd : d ≤ n) {label : Label}
    {outer : List Label} (hl : labels.drop d = label :: outer) :
    Nested limit (n - d) (label :: outer) (base :: bases) ∧
      n - d + nestingOfBody label.kind.target ≤ limit := by
  -- Inside out, one block at a time; the label of the function is the last that a branch may mean.
  generalize hall : base :: bases = all at h ⊢
  induction h generalizing d with
  | outside => cases hall
  | func hout hfunc hrest =>
    obtain rfl := Nat.le_zero.mp hd
    cases hl
    refine ⟨.func hout hfunc hrest, ?_⟩
    rw [LabelKind.target_of_isFunc hfunc]
    exact Nat.zero_le limit
  | block hout hblock hrest htarget ih =>
    cases d with
    | zero => cases hl; exact ⟨.block hout hblock hrest htarget, htarget⟩
    | succ d =>
      rw [Nat.add_sub_add_right]
      exact ih (Nat.le_of_succ_le_succ hd) hl hall

/-! ### Positions and numbers -/

/-- An entry on top, seen from below. -/
theorem getElem?_reverse_cons {α : Type} (x : α) (xs : List α) (p : Nat) :
    (x :: xs).reverse[p]? = if p = xs.length then some x else xs.reverse[p]? := by
  rw [List.reverse_cons, List.getElem?_append, List.length_reverse]
  rcases Nat.lt_trichotomy p xs.length with hp | rfl | hp
  · rw [if_pos hp, if_neg (Nat.ne_of_lt hp)]
  · rw [if_neg (Nat.lt_irrefl _), if_pos rfl, Nat.sub_self]
    rfl
  · rw [if_neg (Nat.not_lt_of_gt hp), if_neg (Nat.ne_of_gt hp), List.getElem?_eq_none (by simp; omega),
      List.getElem?_eq_none (by simp; omega)]

/-- **Frames give the positions of the labels of functions**, and of all of them. -/
theorem mem_bases_iff (h : Nested limit n labels bases) (p : Nat) :
    p ∈ bases ↔ ∃ label, labels.reverse[p]? = some label ∧ label.kind.isFunc = true := by
  induction h with
  | outside => simp
  | @func n labels bases label _ hfunc _ ih =>
    rw [List.mem_cons, ih, getElem?_reverse_cons]
    by_cases hp : p = labels.length
    · simp [hp, hfunc]
    · simp [hp]
  | @block n labels base bases label _ hblock _ _ ih =>
    rw [ih, getElem?_reverse_cons]
    by_cases hp : p = labels.length
    · simp [hp, hblock]
    · simp [hp]

/-- **Positions increase** from the outermost frame to the innermost. -/
theorem increasing (h : Nested limit n labels bases) : bases.reverse.Pairwise (· < ·) := by
  rw [List.pairwise_reverse]
  induction h with
  | outside => exact .nil
  | func hout _ _ ih =>
    refine .cons (fun p hp => ?_) ih
    obtain ⟨label, hlabel, -⟩ := (hout.mem_bases_iff p).mp hp
    rw [← List.length_reverse]
    exact (List.getElem?_eq_some_iff.mp hlabel).1
  | block _ _ _ _ ih => exact ih

/-- **One label of a function for each frame.** -/
theorem countP_isFunc (h : Nested limit n labels bases) :
    labels.countP (fun label => label.kind.isFunc) = bases.length := by
  induction h with
  | outside => rfl
  | func _ hfunc _ ih => simp [ih, hfunc]
  | block _ hblock _ _ ih => simp [ih, hblock]

/-- The labels of callers are as many as their bodies can be nested deep, and one for each of them. -/
theorem length_le_of_cons (h : Nested limit n labels (base :: bases)) :
    labels.length ≤ bases.length * (1 + limit) + 1 + n := by
  -- A function is entered from a body of its caller, so that the blocks of the caller are within the limit.
  generalize hall : base :: bases = all at h
  induction h generalizing base bases with
  | outside => cases hall
  | @func n labels outer label hout _ hrest ih =>
    cases hall
    rw [List.length_cons]
    cases outer with
    | nil => rw [hout.eq_nil]; simp
    | cons base' outer =>
      have hlength := ih rfl
      rw [List.length_cons, Nat.succ_mul]
      omega
  | block _ _ _ _ ih =>
    have hlength := ih hall
    rw [List.length_cons]
    omega

/-- **How many labels there are.** -/
theorem length_le (h : Nested limit n labels bases) (hn : n ≤ limit) :
    labels.length ≤ bases.length * (1 + limit) := by
  cases bases with
  | nil => rw [h.eq_nil]; exact Nat.zero_le _
  | cons base bases =>
    have hlength := h.length_le_of_cons
    rw [List.length_cons, Nat.succ_mul]
    omega

end Nested

/-! ## What an instruction does to labels and frames -/

/-- **What an instruction does to labels and frames**, of a machine whose code is what follows it. -/
inductive Instr.Transfer (i : Instr) (m m' : Machine) : Prop
  | stay (hcode : m'.code = m.code) (hlabels : m'.labels = m.labels) (hbases : m'.bases = m.bases)
  | enter (base : Nat) (outer : List Nat) (label : Label) (hframe : m.bases = base :: outer)
      (hkind : label.kind.isFunc = false) (hrest : label.rest = m.code)
      (htarget : 1 + nestingOfBody label.kind.target ≤ i.nesting)
      (hcode : 1 + nestingOfBody m'.code ≤ i.nesting) (hlabels : m'.labels = m.labels.push label)
      (hbases : m'.bases = m.bases)
  | branch (depth base : Nat) (outer : List Nat) (label : Label) (below : List Label)
      (hframe : m.bases = base :: outer) (hdepth : base + depth < m.labels.height)
      (hlabel : (m.labels.drop depth).toList = label :: below) (hcode : m'.code = label.kind.target)
      (hlabels : m'.labels = m.labels.drop depth) (hbases : m'.bases = m.bases)
  | call (addr : FuncAddr) (type : FuncType) (inst : ModuleInst) (f : Func) (label : Label)
      (hfunc : m.store.funcs[addr]? = some (.defined type inst f))
      (hroom : m.bases.length < m.store.config.maxCallDepth) (hkind : label.kind.isFunc = true)
      (hrest : label.rest = m.code) (hcode : m'.code = f.body) (hlabels : m'.labels = m.labels.push label)
      (hbases : m'.bases = m.labels.height :: m.bases)

namespace Activation

variable {a : Activation} {k : Surroundings} {origins : List (Option Module)} {C : Scope}
  {results ends ins outs : List ValType} {vs rest : List Value} {i : Instr} {m' : Machine}

theorem transfer_enter {kind : LabelKind} {t : BlockType} {body : List Instr} {operands : List Value}
    (hrun : Exec.enter kind t body ({ a with operands }.on k) = .ok () m') (hkind : kind.isFunc = false)
    (htarget : 1 + nestingOfBody kind.target ≤ i.nesting) (hbody : 1 + nestingOfBody body ≤ i.nesting) :
    i.Transfer (a.on k) m' := by
  rw [enter_on] at hrun
  cases hrun
  exact .enter k.labelBase _ _ rfl hkind rfl htarget hbody rfl rfl

/-- A branch to a block other than a loop goes on with nothing. -/
theorem transfer_block {t : BlockType} {body : List Instr} {operands : List Value}
    (hrun : Exec.enter .block t body ({ a with operands }.on k) = .ok () m')
    (hbody : 1 + nestingOfBody body ≤ i.nesting) : i.Transfer (a.on k) m' := by
  refine transfer_enter hrun rfl (Nat.le_trans ?_ hbody) hbody
  show 1 + nestingOfBody [] ≤ 1 + nestingOfBody body
  rw [nestingOfBody]
  exact Nat.le_add_right 1 _

/-- A branch to a label that the scope names leaves labels of the function under way only. -/
theorem transfer_branch (hk : k.Typed a.store results C ends) {d : Nat} {ts : List ValType}
    (hd : C.labels[d]? = some ts) {operands : List Value}
    (hrun : Exec.branch d ({ a with operands }.on k) = .ok () m') : i.Transfer (a.on k) m' := by
  obtain ⟨label, below, stack, hlabel, -, rfl⟩ := branch_eq_ok_iff.mp hrun
  obtain ⟨hheight, -, -⟩ := hk.labels
  have hlt : d < C.labels.length := (List.getElem?_eq_some_iff.mp hd).1
  have hdepth : k.labelBase + d < k.labels.height := by omega
  exact .branch d k.labelBase _ label below rfl hdepth hlabel rfl rfl rfl

/-- A call enters the body of a function, or comes back at once from the host. -/
theorem transfer_call {addr : FuncAddr} {type : FuncType} (hf : a.store.funcType? addr = some type)
    {operands : List Value} (hops : operands = vs ++ rest)
    (hvs : vs.map Value.type = type.params.reverse)
    (hrun : Exec.call addr ({ a with operands }.on k) = .ok () m') : i.Transfer (a.on k) m' := by
  have hlength : vs.reverse.length = type.params.length := by
    rw [← types_reverse hvs, List.length_map]
  have hops' : operands = vs.reverse.reverse ++ rest := by rw [List.reverse_reverse, hops]
  obtain ⟨f, hfunc, hft⟩ := Option.map_eq_some_iff.mp hf
  cases f with
  | defined type' inst f =>
    obtain rfl : type' = type := hft
    have hdef : ({ a with operands }.on k).store.funcs[addr]? = some (.defined type' inst f) := hfunc
    rw [call_of_defined hdef, enterFunc_on (a := { a with operands }) hops' hlength] at hrun
    by_cases hdepth : a.store.config.maxCallDepth ≤ k.frames.height + 1
    · rw [if_pos hdepth] at hrun; cases hrun
    · rw [if_neg hdepth] at hrun
      cases hrun
      have hroom : (a.on k).bases.length < a.store.config.maxCallDepth := by
        rw [Machine.length_bases]
        exact Nat.lt_of_not_le hdepth
      exact .call addr type' inst f _ hfunc hroom rfl rfl rfl rfl rfl
  | host type' run =>
    obtain rfl : type' = type := hft
    have hhost : ({ a with operands }.on k).store.funcs[addr]? = some (.host type' run) := hfunc
    rw [call_of_host hhost, callHost_on (a := { a with operands }) hops' hlength] at hrun
    split at hrun
    · cases hrun; exact .stay rfl rfl rfl
    · cases hrun

/-- A return is a branch to the outermost label that the scope names. -/
theorem transfer_ret (hk : k.Typed a.store results C ends)
    (hrun : Exec.branchToFunc (a.on k) = .ok () m') : i.Transfer (a.on k) m' := by
  obtain ⟨hheight, hpos, hlast⟩ := hk.labels
  rw [branchToFunc_on (C.labels.length - 1) (by omega)] at hrun
  exact transfer_branch hk hlast hrun

/-- An indirect call is a call of the function that it leads to. -/
theorem transfer_callIndirect (ha : a.Typed origins C) {t : TypeIdx} {type : FuncType}
    (htable : 0 < C.tables.size) (ht : C.types[t.toNat]? = some type) {slot : UInt32}
    (hops : a.operands = .i32 slot :: vs ++ rest) (hvs : vs.map Value.type = type.params.reverse)
    (hrun : Exec.callIndirect t (a.on k) = .ok () m') : i.Transfer (a.on k) m' := by
  have hcallee := ha.callee htable ht slot
  have hleads := callIndirect_on (k := k) (t := t) hops
  cases hc : a.callee t slot with
  | error e =>
    rw [hc] at hleads
    obtain ⟨m, hm, -⟩ := hleads
    rw [hm] at hrun
    cases hrun
  | ok addr =>
    rw [hc] at hcallee hleads
    rw [show Exec.callIndirect t (a.on k) = _ from hleads] at hrun
    exact transfer_call hcallee rfl hvs hrun

/-- **What an instruction of a checked body does to labels and frames.** -/
theorem transfer_step (ha : a.Typed origins C) (hk : k.Typed a.store results C ends)
    (hi : Instr.HasType C i ins outs) (hops : a.operands = vs ++ rest)
    (hvs : vs.map Value.type = ins.reverse) (hrun : Exec.step i (a.on k) = .ok () m') :
    i.Transfer (a.on k) m' := by
  cases hcontrol : i.isControl with
  | false =>
    -- All else does the same in all surroundings, so that it cannot change them.
    rcases step_plain ha hcontrol hi hops hvs with ⟨a', vs', hok, -⟩ | ⟨t, -, herror⟩
    · rw [hok] at hrun
      cases hrun
      exact .stay rfl rfl rfl
    · obtain ⟨m, hm, -⟩ := herror k
      rw [hm] at hrun
      cases hrun
  | true =>
  cases hi with
  | block => exact transfer_block hrun (by simp [Instr.nesting])
  | loop =>
    exact transfer_enter hrun rfl (by simp [Instr.nesting, LabelKind.target]) (by simp [Instr.nesting])
  | ifThen =>
    obtain ⟨x, rfl⟩ := values_of_i32 hvs
    rw [show Exec.step (.ifThen _ _) (a.on k) = _ from Move.bind_of_ok (popI32_on hops)] at hrun
    by_cases hx : x ≠ 0
    · rw [if_pos hx] at hrun
      exact transfer_block hrun (by simp [Instr.nesting])
    · rw [if_neg hx] at hrun
      cases hrun
      exact .stay rfl rfl rfl
  | @ifElse _ t body alternate =>
    obtain ⟨x, rfl⟩ := values_of_i32 hvs
    rw [show Exec.step (.ifElse t body alternate) (a.on k) = _ from
      Move.bind_of_ok (popI32_on hops)] at hrun
    refine transfer_block hrun ?_
    rw [Instr.nesting]
    by_cases hx : x ≠ 0
    · rw [if_pos hx]; omega
    · rw [if_neg hx]; omega
  | br hl => exact transfer_branch hk hl hrun
  | brIf hl =>
    obtain ⟨x, top, rfl, htop⟩ := values_i32_above hvs
    rw [show Exec.step (.brIf _) (a.on k) = _ from Move.bind_of_ok (popI32_on hops)] at hrun
    by_cases hx : x ≠ 0
    · rw [if_pos hx] at hrun
      exact transfer_branch hk hl hrun
    · rw [if_neg hx] at hrun
      cases hrun
      exact .stay rfl rfl rfl
  | brTable hls hdefault =>
    obtain ⟨x, vs', rfl, -⟩ := values_i32_above hvs
    rw [show Exec.step (.brTable _ _) (a.on k) = _ from Move.bind_of_ok (popI32_on hops)] at hrun
    exact transfer_branch hk (label_brTable hls hdefault x.toNat) hrun
  | ret => exact transfer_ret hk hrun
  | call hf ht =>
    obtain ⟨addr, haddr, htype⟩ := ha.inst.funcAddr hf ht
    have hcall : Exec.step (.call _) (a.on k) = Exec.call addr (a.on k) :=
      (Move.bind_of_ok inst_on).trans (Move.bind_of_ok (ofExcept_of_ok haddr))
    rw [hcall] at hrun
    exact transfer_call htype hops hvs hrun
  | callIndirect htable ht =>
    obtain ⟨slot, args, rfl, hargs⟩ := values_i32_above hvs
    exact transfer_callIndirect ha htable ht hops hargs hrun
  | _ => cases hcontrol

end Activation

/-- A move of the operands leaves all else alone. -/
theorem Exec.onStack_eq_ok {α : Type} {f : OperandM α} {x : α} {m m' : Machine}
    (h : Exec.onStack f m = .ok x m') : ∃ stack, m' = { m with stack } := by
  cases hf : f m.stack with
  | ok y stack =>
    rw [Exec.onStack_of_ok hf] at h
    cases h
    exact ⟨stack, rfl⟩
  | error t stack => rw [Exec.onStack_of_error hf] at h; cases h

/-- **What closing a block does to labels and frames.** -/
theorem Exec.close_eq_ok {label : Label} {outer : Stack Label} {m m' : Machine}
    (h : Exec.close label outer m = .ok () m') :
    m'.code = label.rest ∧ m'.labels = outer ∧
      m'.bases = if label.kind.isFunc then m.bases.tail else m.bases := by
  obtain ⟨_, m₁, hstart, h⟩ := Move.bind_eq_ok_iff.mp h
  cases hstart
  obtain ⟨_, m₂, hunwind, h⟩ := Move.bind_eq_ok_iff.mp h
  obtain ⟨stack, rfl⟩ := Exec.onStack_eq_ok hunwind
  cases hkind : label.kind with
  | func =>
    rw [hkind] at h
    cases h
    refine ⟨rfl, rfl, ?_⟩
    rw [LabelKind.isFunc, if_pos rfl]
    show (m.frames.toList.drop 1).map Frame.labelBase = (m.frames.toList.map Frame.labelBase).tail
    rw [List.drop_one, List.map_tail]
  | _ =>
    rw [hkind] at h
    cases h
    exact ⟨rfl, rfl, rfl⟩

/-! ## The invariant -/

/-- No body in the store is nested deeper than the limit. -/
def Store.Shallow (limit : Nat) (s : Store) : Prop :=
  ∀ (addr : FuncAddr) type inst f, s.funcs[addr]? = some (.defined type inst f) →
    nestingOfBody f.body ≤ limit

/-- The same functions, under the same limits. -/
structure Store.SameCode (s s' : Store) : Prop where
  funcs : s'.funcs = s.funcs
  config : s'.config = s.config

instance : IsPreorder Store Store.SameCode where
  refl _ := ⟨rfl, rfl⟩
  trans _ _ _ h h' := ⟨h'.funcs.trans h.funcs, h'.config.trans h.config⟩

theorem Store.Effect.sameCode {s s' : Store} (h : s.Effect s') : s.SameCode s' := by
  cases h <;> exact ⟨rfl, rfl⟩

theorem Store.Shallow.mono {limit : Nat} {s s' : Store} (hs : s.Shallow limit) (h : s.SameCode s') :
    s'.Shallow limit := by
  intro addr type inst f hf
  rw [h.funcs] at hf
  exact hs addr type inst f hf

/-- Labels and frames are in step, and the code that is left is nested no deeper than there is room for. -/
def Machine.Nests (limit : Nat) (m : Machine) : Prop :=
  ∃ n, Nested limit n m.labels.toList m.bases ∧ n + nestingOfBody m.code ≤ limit

/-- **The invariant of labels and frames**, in a call into a store. -/
structure Machine.Orderly (limit : Nat) (s : Store) (m : Machine) : Prop where
  sameCode : s.SameCode m.store
  room : m.bases.length ≤ s.config.maxCallDepth
  nests : m.Nests limit

variable {limit n : Nat} {s : Store} {m m' : Machine} {i : Instr}

/-- An instruction keeps labels and frames in step, whatever it does to them. -/
theorem Instr.Transfer.nests (h : i.Transfer m m') (hshallow : m.store.Shallow limit)
    (hnested : Nested limit n m.labels.toList m.bases) (hi : n + i.nesting ≤ limit)
    (hrest : n + nestingOfBody m.code ≤ limit) : m'.Nests limit := by
  unfold Machine.Nests
  cases h with
  | stay hcode hlabels hbases =>
    rw [hcode, hlabels, hbases]
    exact ⟨n, hnested, hrest⟩
  | enter base outer label hframe hkind hlabel htarget hcode hlabels hbases =>
    rw [hframe] at hnested hbases
    rw [hlabels, hbases]
    refine ⟨n + 1, .block hnested hkind (hlabel ▸ hrest) ?_, ?_⟩
    · omega
    · omega
  | branch depth base outer label below hframe hdepth hlabel hcode hlabels hbases =>
    rw [hframe] at hnested hbases
    have hlength := hnested.length_eq
    rw [Stack.length_toList] at hlength
    obtain ⟨hinner, htarget⟩ := hnested.drop (d := depth) (by omega) hlabel
    rw [hcode, hlabels, hbases, hlabel]
    exact ⟨n - depth, hinner, htarget⟩
  | call addr type inst f label hfunc _ hkind hlabel hcode hlabels hbases =>
    rw [hcode, hlabels, hbases, ← Stack.length_toList]
    refine ⟨0, .func hnested hkind (hlabel ▸ hrest), ?_⟩
    rw [Nat.zero_add]
    exact hshallow addr type inst f hfunc

/-- Only calls add a frame, and they look whether there is room for it. -/
theorem Instr.Transfer.room (h : i.Transfer m m')
    (hroom : m.bases.length ≤ m.store.config.maxCallDepth) :
    m'.bases.length ≤ m.store.config.maxCallDepth := by
  cases h with
  | stay _ _ hbases => rwa [hbases]
  | enter _ _ _ _ _ _ _ _ _ hbases => rwa [hbases]
  | branch _ _ _ _ _ _ _ _ _ _ hbases => rwa [hbases]
  | call _ _ _ _ _ _ hlt _ _ _ _ hbases =>
    rw [hbases, List.length_cons]
    exact hlt

namespace Machine

variable {origins : List (Option Module)} {results : List ValType}

/-- A turn that executes an instruction of a checked body. -/
theorem Typed.transfer_turn (hm : m.Typed origins results) {rest : List Instr}
    (hcode : m.code = i :: rest) (hturn : Exec.turn m = .ok true m') :
    ∃ fuel, i.Transfer { m with code := rest, fuel } m' := by
  cases hm with
  | finished _ hnil => rw [hcode] at hnil; cases hnil
  | @running a k C ins ends ha hk hops htype =>
    replace hcode : k.code = i :: rest := hcode
    rw [hcode] at htype
    obtain ⟨below, ins', mid, rfl, hi, -⟩ := htype.inv_cons
    obtain ⟨vs, lower, hvs, htop, -⟩ := values_above hops
    rw [Activation.turn_step hcode] at hturn
    cases hcharge : a.charge with
    | none => rw [hcharge] at hturn; cases hturn
    | some b =>
      obtain ⟨fuel, rfl⟩ := Typed.charge_some hcharge
      rw [hcharge] at hturn
      obtain ⟨_, m₁, hstep, hm₁⟩ := Move.bind_eq_ok_iff.mp hturn
      cases hm₁
      exact ⟨fuel, Activation.transfer_step (ha.setFuel fuel) (hk.setCode rest) hi hvs htop hstep⟩

/-- The end of a block, checked or not. -/
theorem Nests.turn_of_nil (hn : m.Nests limit) (hcode : m.code = [])
    (hturn : Exec.turn m = .ok true m') : m'.Nests limit ∧ m'.bases.length ≤ m.bases.length := by
  rw [Exec.turn_nil hcode] at hturn
  cases hpop : m.labels.pop? with
  | none => rw [hpop] at hturn; cases hturn
  | some p =>
    obtain ⟨label, outer⟩ := p
    rw [hpop] at hturn
    obtain ⟨_, m₁, hclose, hm₁⟩ := Move.bind_eq_ok_iff.mp hturn
    cases hm₁
    obtain ⟨hcode', hlabels', hbases'⟩ := Exec.close_eq_ok hclose
    obtain ⟨n, hnested, -⟩ := hn
    rw [(Stack.pop?_eq_some_iff _ _ _).mp hpop, Stack.toList_push] at hnested
    rw [Nests, hcode', hlabels', hbases']
    generalize m.bases = bases at hnested ⊢
    cases hnested with
    | func hout hfunc hrest =>
      rw [if_pos hfunc, List.tail_cons]
      exact ⟨⟨_, hout, hrest⟩, Nat.le_succ _⟩
    | block hout hblock hrest _ =>
      rw [hblock, if_neg Bool.false_ne_true]
      exact ⟨⟨_, hout, hrest⟩, Nat.le_refl _⟩

/-- **One turn.** -/
theorem Orderly.turn (ho : m.Orderly limit s) (hshallow : s.Shallow limit) (hm : m.Typed origins results)
    (hturn : Exec.turn m = .ok true m') : m'.Orderly limit s := by
  have hsame : m.store.SameCode m'.store := by
    have hkeeps := Exec.keeps_turn Store.Effect.sameCode (fun _ _ _ => ⟨rfl, rfl⟩) m
    rwa [hturn] at hkeeps
  have hmain : m'.Nests limit ∧ m'.bases.length ≤ s.config.maxCallDepth := by
    cases hcode : m.code with
    | nil =>
      obtain ⟨hnests, hbases⟩ := ho.nests.turn_of_nil hcode hturn
      exact ⟨hnests, Nat.le_trans hbases ho.room⟩
    | cons i rest =>
      obtain ⟨n, hnested, hlimit⟩ := ho.nests
      rw [hcode, nestingOfBody] at hlimit
      obtain ⟨fuel, hstep⟩ := hm.transfer_turn hcode hturn
      have hi : n + i.nesting ≤ limit := by omega
      have hrest : n + nestingOfBody rest ≤ limit := by omega
      have hroom := ho.room
      rw [← ho.sameCode.config] at hroom ⊢
      exact ⟨hstep.nests (hshallow.mono ho.sameCode) hnested hi hrest, hstep.room hroom⟩
  exact ⟨trans_of Store.SameCode ho.sameCode hsame, hmain.2, hmain.1⟩

/-- **Any number of turns.** -/
theorem Orderly.reaches (ho : m.Orderly limit s) (hshallow : s.Shallow limit)
    (hm : m.Typed origins results) (hreach : Exec.Reaches n m m') : m'.Orderly limit s := by
  induction hreach with
  | refl m => exact ho
  | step hturn _ ih =>
    have hsound := hm.turn
    rw [hturn] at hsound
    exact ih (ho.turn hshallow hm hturn) hsound.1

end Machine

/-! ## Calls from outside -/

namespace Store

variable {a : FuncAddr} {args : List Value} {origins : List (Option Module)}

/-- **The machines that a call goes through**, if its arguments are accepted: the one with the arguments,
    the one inside of the function, and those after each turn. -/
def Visits (s : Store) (a : FuncAddr) (args : List Value) (m : Machine) : Prop :=
  s.acceptsArgs a args = .ok () ∧
    (m = s.machine args ∨ ∃ m₀ n, Exec.call a (s.machine args) = .ok () m₀ ∧ Exec.Reaches n m₀ m)

/-- Before anything is entered. -/
theorem orderly_machine (limit : Nat) (s : Store) (args : List Value) :
    (s.machine args).Orderly limit s where
  sameCode := ⟨rfl, rfl⟩
  room := Nat.zero_le _
  nests := ⟨0, .outside, by simp [machine, nestingOfBody]⟩

/-- The call itself enters at most one function. -/
theorem Shallow.orderly_call (hs : s.Shallow limit) (hargs : s.acceptsArgs a args = .ok ())
    (hcall : Exec.call a (s.machine args) = .ok () m) : m.Orderly limit s := by
  have hsame : s.SameCode m.store := by
    have hkeeps := Exec.keeps_call Effect.sameCode a (s.machine args)
    rwa [hcall] at hkeeps
  obtain ⟨type, hf, htypes⟩ := acceptsArgs_eq_ok_iff.mp hargs
  have hlength : args.length = type.params.length := by rw [← htypes, List.length_map]
  obtain ⟨f, hfunc, rfl⟩ := Option.map_eq_some_iff.mp hf
  cases f with
  | defined type inst f =>
    rw [Activation.call_machine hfunc hlength] at hcall
    by_cases hdepth : s.config.maxCallDepth ≤ 0
    · rw [if_pos hdepth] at hcall; cases hcall
    · rw [if_neg hdepth] at hcall
      cases hcall
      refine ⟨hsame, Nat.lt_of_not_le hdepth, 0, .func .outside rfl (by simp [nestingOfBody]), ?_⟩
      rw [Nat.zero_add]
      exact hs a type inst f hfunc
  | host type run =>
    rw [Activation.call_machine_host hfunc hlength] at hcall
    split at hcall
    · cases hcall
      exact ⟨hsame, Nat.zero_le _, 0, .outside, by simp [machine, nestingOfBody]⟩
    · cases hcall

/-- **Labels and frames stay in step**, throughout every call into a well-formed store. -/
theorem WellFormed.orderly_visits (hs : s.WellFormed origins) (hshallow : s.Shallow limit)
    (h : s.Visits a args m) : m.Orderly limit s := by
  obtain ⟨hargs, rfl | ⟨m₀, n, hcall, hreach⟩⟩ := h
  · exact orderly_machine limit s args
  · obtain ⟨type, hf, htypes⟩ := acceptsArgs_eq_ok_iff.mp hargs
    have hsound := hs.call hf htypes
    rw [hcall] at hsound
    exact (hshallow.orderly_call hargs hcall).reaches hshallow hsound.1 hreach

end Store

end WasmCore
