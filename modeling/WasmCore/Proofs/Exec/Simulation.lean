import WasmCore.Proofs.Exec.Soundness
import WasmCore.Proofs.Exec.Structured

/-!
# `Exec.Simulation` — the machine follows the structure of the code

However a piece of code completes when it is evaluated along its structure, the machine gets to the
corresponding place: after the code, to where a branch leads, or to the same trap. And if evaluation
does not come to an end, the machine takes as many turns as one likes.

* `Exec.Reaches.trans`: turns in sequence;
* `Follows`: what the machine does, for each way to complete;
* `Follows.leave`, `Follows.resume`: from the body of a block, and of a function, to the code around it;
* `follows_all`: **the simulation**, by induction on the index of the evaluation.
-/

namespace WasmCore

/-! ## Turns -/

theorem Exec.Reaches.trans {i j : Nat} {m m' m'' : Machine} (h : Exec.Reaches i m m')
    (h' : Exec.Reaches j m' m'') : Exec.Reaches (i + j) m m'' := by
  induction h with
  | refl m => rw [Nat.zero_add]; exact h'
  | step hturn _ ih => rw [Nat.add_right_comm]; exact .step hturn (ih h')

theorem Exec.reaches_one {m m' : Machine} (h : Exec.turn m = .ok true m') : Exec.Reaches 1 m m' :=
  .step h (.refl m')

/-- The next turn of a machine `m` executes a move on `m'`. -/
def Exec.Executes (m : Machine) (f : Exec Unit) (m' : Machine) : Prop :=
  Exec.turn m = (do f; return true : Exec Bool) m'

namespace Exec.Executes

variable {f g : Exec Unit} {m m' m'' : Machine}

theorem of_ok (h : Exec.Executes m f m') (hf : f m' = .ok () m'') : Exec.turn m = .ok true m'' :=
  h.trans (Move.bind_of_ok hf)

theorem of_error (h : Exec.Executes m f m') {t : Trap} (hf : f m' = .error t m'') :
    Exec.turn m = .error t m'' :=
  h.trans (Move.bind_of_error hf)

/-- A move may be replaced by another one that does the same. -/
theorem congr (h : Exec.Executes m f m') (hf : f m' = g m'') : Exec.Executes m g m'' := by
  refine h.trans ?_
  show EStateM.bind f _ m' = EStateM.bind g _ m''
  simp only [EStateM.bind, hf]

end Exec.Executes

/-- What is left of a body plays no part in where its branches lead. -/
theorem Surroundings.Lands.setCode {k k' : Surroundings} {d n : Nat} (h : k.Lands d n k')
    (code : List Instr) : ({ k with code } : Surroundings).Lands d n k' := by
  intro a top rest ha hn
  obtain ⟨label, outer, stack, hl, hu, hm⟩ :=
    Activation.branch_eq_ok_iff.mp (h a top rest ha hn)
  exact Activation.branch_eq_ok_iff.mpr ⟨label, outer, stack, hl, hu, hm⟩

/-! ## The relation -/

/-- The machine gets from `m` to where a branch to the label at depth `d` leads, with values of types
    `ts`. -/
def Jumps (origins : List (Option Module)) (C : Scope) (s : Store) (m : Machine) (k : Surroundings)
    (d : Nat) (ts : List ValType) (a : Activation) : Prop :=
  a.Typed origins C ∧ s.Persists a.store ∧ ∃ vs rest, a.operands = vs ++ rest ∧
    vs.map Value.type = ts.reverse ∧ ∀ k', k.Lands d ts.length k' →
      ∃ j, 1 ≤ j ∧ Exec.Reaches j m ({ a with operands := vs }.on k')

/-- **The machine follows an evaluation** that was in scope `C` and with store `s` when the machine was
    `m`. `least` is a number of turns that it takes at the least where the code goes on, and `bound`
    says how many it takes where the evaluation was cut off. -/
def Follows (origins : List (Option Module)) (C : Scope) (outs : List ValType) (s : Store)
    (m : Machine) (k : Surroundings) (least bound : Nat) : Completion → Prop
  | .next a => a.Typed origins C ∧ s.Persists a.store ∧ a.operands.map Value.type = outs.reverse ∧
      ∃ j, least ≤ j ∧ Exec.Reaches j m (a.on k)
  | .branch d a => ∃ ts, C.labels[d]? = some ts ∧ Jumps origins C s m k d ts a
  | .returned a => Jumps origins C s m k (C.labels.length - 1) C.results a
  | .trapped t s' => ∃ j m' m'', Exec.Reaches j m m' ∧ Exec.turn m' = .error t m'' ∧ m''.store = s'
  | .unfinished => ∃ j m', bound ≤ 4 * j ∧ Exec.Reaches j m m'

section

variable {origins : List (Option Module)} {C : Scope} {outs ts below : List ValType} {s s' : Store}
  {m m' : Machine} {k : Surroundings} {i d least least' bound bound' : Nat} {a : Activation}
  {c : Completion}

theorem Jumps.after (hr : Exec.Reaches i m m') (hs : s.Persists s')
    (h : Jumps origins C s' m' k d ts a) : Jumps origins C s m k d ts a := by
  obtain ⟨ha, hp, vs, rest, hops, hvs, hland⟩ := h
  refine ⟨ha, hs.trans hp, vs, rest, hops, hvs, fun k' hk' => ?_⟩
  obtain ⟨j, hj, hreach⟩ := hland k' hk'
  exact ⟨i + j, by omega, hr.trans hreach⟩

/-- What the machine does after some turns it does in all. -/
theorem Follows.after (hr : Exec.Reaches i m m') (hs : s.Persists s')
    (h : Follows origins C outs s' m' k least bound c) (hleast : least' ≤ least + i)
    (hbound : bound' ≤ bound + 4 * i) : Follows origins C outs s m k least' bound' c := by
  cases c with
  | next a =>
    obtain ⟨ha, hp, hops, j, hj, hreach⟩ := h
    exact ⟨ha, hs.trans hp, hops, i + j, by omega, hr.trans hreach⟩
  | branch d a =>
    obtain ⟨ts, hd, hjumps⟩ := h
    exact ⟨ts, hd, hjumps.after hr hs⟩
  | returned a => exact Jumps.after hr hs h
  | trapped t s'' =>
    obtain ⟨j, m₁, m₂, hreach, hturn, hstore⟩ := h
    exact ⟨i + j, m₁, m₂, hr.trans hreach, hturn, hstore⟩
  | unfinished =>
    obtain ⟨j, m₁, hj, hreach⟩ := h
    exact ⟨i + j, m₁, by omega, hr.trans hreach⟩

/-- **One piece of code after another.** Code that does not go on completes as its first part does. -/
theorem Follows.andThen {mid : List ValType} {code : List Instr} {b b' : Nat}
    {f : Activation → Completion}
    (h : Follows origins C mid s m { k with code } 1 b c)
    (hthen : ∀ a, a.Typed origins C → s.Persists a.store → a.operands.map Value.type = mid.reverse →
      Follows origins C outs a.store (a.on { k with code }) k 0 b' (f a))
    (hb : bound ≤ b) (hb' : bound ≤ b' + 4) : Follows origins C outs s m k 0 bound (c.andThen f) := by
  have hlands : ∀ {d n : Nat} {k' : Surroundings}, k.Lands d n k' →
      ({ k with code } : Surroundings).Lands d n k' := fun hk' => hk'.setCode code
  cases c with
  | next a =>
    obtain ⟨ha, hp, hops, j, hj, hreach⟩ := h
    exact (hthen a ha hp hops).after hreach hp (Nat.zero_le _) (by omega)
  | branch d a =>
    obtain ⟨ts, hd, ha, hp, vs, rest, hops, hvs, hreach⟩ := h
    exact ⟨ts, hd, ha, hp, vs, rest, hops, hvs, fun k' hk' => hreach k' (hlands hk')⟩
  | returned a =>
    obtain ⟨ha, hp, vs, rest, hops, hvs, hreach⟩ := h
    exact ⟨ha, hp, vs, rest, hops, hvs, fun k' hk' => hreach k' (hlands hk')⟩
  | trapped t s'' => exact h
  | unfinished =>
    obtain ⟨j, m₁, hj, hreach⟩ := h
    exact ⟨j, m₁, by omega, hreach⟩

/-! ## Blocks and calls -/

/-- The values of a block that has completed, above the operands that it did not see. -/
theorem reaches_leave {vs top : List Value} {kind : LabelKind} {b j : Nat} (hkind : kind ≠ .func)
    (htop : top.length = ts.length)
    (hreach : Exec.Reaches j m ({ a with operands := top }.on (k.enter vs kind b ts.length []))) :
    Exec.Reaches (j + 1) m ({ a with operands := top ++ vs }.on k) := by
  have hturn : Exec.turn ({ a with operands := top }.on (k.enter vs kind b top.length [])) =
      .ok true ({ a with operands := top ++ vs }.on k) :=
    Activation.turn_end_enter (a := { a with operands := top }) hkind
  rw [htop] at hturn
  exact hreach.trans (Exec.reaches_one hturn)

/-- **From a body to the code around its block**, unless the body branches to the block itself. -/
theorem Follows.leave {vs : List Value} {kind : LabelKind} {b : Nat} {label : List ValType}
    (hkind : kind ≠ .func) (hpos : 0 < C.labels.length) (hvs : vs.map Value.type = below.reverse)
    (h : Follows origins (C.enter label) ts s m (k.enter vs kind b ts.length []) least bound c)
    (hc : ∀ a, c ≠ .branch 0 a) (hbound : bound' ≤ bound) :
    Follows origins C (below ++ ts) s m k 1 bound' (c.leave ts.length vs) := by
  cases c with
  | next a =>
    obtain ⟨ha, hp, hops, j, -, hreach⟩ := h
    have hlength := length_of_types hops
    have htake : a.operands.take ts.length = a.operands :=
      List.take_of_length_le (Nat.le_of_eq hlength)
    refine ⟨⟨ha.store, ha.inst, ha.locals⟩, hp, ?_, j + 1, by omega, ?_⟩
    · show (a.operands.take ts.length ++ vs).map Value.type = _
      rw [htake, List.map_append, hops, hvs, List.reverse_append]
    · rw [htake]; exact reaches_leave hkind hlength hreach
  | branch d a =>
    cases d with
    | zero => exact absurd rfl (hc a)
    | succ d =>
      obtain ⟨ts', hd, ha, hp, vs', rest, hops, hvs', hreach⟩ := h
      exact ⟨ts', hd, ⟨ha.store, ha.inst, ha.locals⟩, hp, vs', rest, hops, hvs', fun k' hk' =>
        hreach k' (Activation.lands_succ_enter hk')⟩
  | returned a =>
    obtain ⟨ha, hp, vs', rest, hops, hvs', hreach⟩ := h
    refine ⟨⟨ha.store, ha.inst, ha.locals⟩, hp, vs', rest, hops, hvs', fun k' hk' => ?_⟩
    refine hreach k' ?_
    -- A return is a branch to the outermost label, and inside the block that is one label further out.
    show (k.enter vs kind b ts.length []).Lands C.labels.length C.results.length k'
    rw [← Nat.sub_add_cancel hpos]
    exact Activation.lands_succ_enter hk'
  | trapped t s' => exact h
  | unfinished =>
    obtain ⟨j, m₁, hj, hreach⟩ := h
    exact ⟨j, m₁, by omega, hreach⟩

/-- A block catches a branch to itself. -/
theorem Follows.leave_block {vs : List Value} (hpos : 0 < C.labels.length)
    (hvs : vs.map Value.type = below.reverse)
    (h : Follows origins (C.enter ts) ts s m (k.enter vs .block ts.length ts.length []) least bound c)
    (hbound : bound' ≤ bound) :
    Follows origins C (below ++ ts) s m k 1 bound' (c.leave ts.length vs) := by
  by_cases hc : ∀ a, c ≠ .branch 0 a
  · exact Follows.leave (by simp) hpos hvs h hc hbound
  · obtain ⟨a, ha⟩ := not_forall.mp hc
    obtain rfl := not_not.mp ha
    obtain ⟨ts', hd, ha, hp, top, rest, hops, htop, hreach⟩ := h
    obtain rfl : ts = ts' := Option.some.inj hd
    have hlength := length_of_types htop
    obtain ⟨j, hj, hreach⟩ := hreach _ (Activation.lands_zero rfl rfl rfl)
    have htake : a.operands.take ts.length = top := by rw [hops, ← hlength, List.take_left]
    refine ⟨⟨ha.store, ha.inst, ha.locals⟩, hp, ?_, j + 1, by omega, ?_⟩
    · show (a.operands.take ts.length ++ vs).map Value.type = _
      rw [htake, List.map_append, htop, hvs, List.reverse_append]
    · rw [htake]; exact reaches_leave (by simp) hlength hreach

/-- The results of a function that has completed, above the operands of its caller. -/
theorem reaches_resume {caller : Activation} {top : List Value} {j : Nat}
    (htop : top.length = ts.length)
    (hreach : Exec.Reaches j m ({ a with operands := top }.on (k.call caller ts.length []))) :
    Exec.Reaches (j + 1) m ({ a with inst := caller.inst, locals := caller.locals,
                                     operands := top ++ caller.operands }.on k) := by
  have hturn : Exec.turn ({ a with operands := top }.on (k.call caller top.length [])) =
      .ok true ({ a with inst := caller.inst, locals := caller.locals,
                         operands := top ++ caller.operands }.on k) :=
    Activation.turn_end_call (a := { a with operands := top })
  rw [htop] at hturn
  exact hreach.trans (Exec.reaches_one hturn)

/-- **How the body of a function completes.** Either its results are on top, and the machine is at the
    end of the body with them; or it traps; or it was cut off. -/
theorem Follows.completes {ctx : Context} {locals : List ValType} (hland : k.Lands 0 ts.length k)
    (h : Follows origins (.ofFunc ctx locals ts) ts s m k least bound c) :
    (∃ a top rest j, (c = .next a ∨ c = .branch 0 a ∨ c = .returned a) ∧
      a.Typed origins (.ofFunc ctx locals ts) ∧ s.Persists a.store ∧ a.operands = top ++ rest ∧
      top.map Value.type = ts.reverse ∧ Exec.Reaches j m ({ a with operands := top }.on k)) ∨
    (∃ t s', c = .trapped t s' ∧
      ∃ j m' m'', Exec.Reaches j m m' ∧ Exec.turn m' = .error t m'' ∧ m''.store = s') ∨
    (c = .unfinished ∧ ∃ j m', bound ≤ 4 * j ∧ Exec.Reaches j m m') := by
  cases c with
  | next a =>
    obtain ⟨ha, hp, hops, j, -, hreach⟩ := h
    exact .inl ⟨a, a.operands, [], j, .inl rfl, ha, hp, (List.append_nil _).symm, hops, hreach⟩
  | branch d a =>
    obtain ⟨ts', hd, ha, hp, top, rest, hops, htop, hreach⟩ := h
    cases d with
    | succ d => cases hd
    | zero =>
      obtain rfl : ts = ts' := Option.some.inj hd
      obtain ⟨j, -, hreach⟩ := hreach k hland
      exact .inl ⟨a, top, rest, j, .inr (.inl rfl), ha, hp, hops, htop, hreach⟩
  | returned a =>
    obtain ⟨ha, hp, top, rest, hops, htop, hreach⟩ := h
    obtain ⟨j, -, hreach⟩ := hreach k hland
    exact .inl ⟨a, top, rest, j, .inr (.inr rfl), ha, hp, hops, htop, hreach⟩
  | trapped t s' => exact .inr (.inl ⟨t, s', rfl, h⟩)
  | unfinished => exact .inr (.inr ⟨rfl, h⟩)

/-- The caller of a function that has completed goes on with the results. -/
theorem resume_of_completed (caller : Activation) {top rest : List Value}
    (hc : c = .next a ∨ c = .branch 0 a ∨ c = .returned a) (hops : a.operands = top ++ rest)
    (htop : top.length = ts.length) :
    c.resume ts.length caller =
      .next { a with inst := caller.inst, locals := caller.locals,
                     operands := top ++ caller.operands } := by
  have htake : a.operands.take ts.length = top := by rw [hops, ← htop, List.take_left]
  rcases hc with rfl | rfl | rfl <;> simp only [Completion.resume, htake]

/-- **From the body of a function to its caller.** -/
theorem Follows.resume (caller : Activation) {ctx : Context} {locals : List ValType}
    (hinst : caller.inst.Implements s C.toContext)
    (hlocals : caller.locals.toList.map Value.type = C.locals)
    (hcaller : caller.operands.map Value.type = below.reverse)
    (h : Follows origins (.ofFunc ctx locals ts) ts s m (k.call caller ts.length []) least bound c) :
    Follows origins C (below ++ ts) s m k 1 bound (c.resume ts.length caller) := by
  rcases h.completes (Activation.lands_call caller ts.length) with
    ⟨a, top, rest, j, hc, ha, hp, hops, htop, hreach⟩ | ⟨t, s', rfl, htrap⟩ | ⟨rfl, hcut⟩
  · have hlength := length_of_types htop
    rw [resume_of_completed caller hc hops hlength]
    refine ⟨⟨ha.store, hinst.mono hp, hlocals⟩, hp, ?_, j + 1, by omega,
      reaches_resume hlength hreach⟩
    show (top ++ caller.operands).map Value.type = _
    rw [List.map_append, htop, hcaller, List.reverse_append]
  · exact htrap
  · exact hcut

end

/-! ## One more step of the evaluation -/

/-- The machine follows the evaluation of code. -/
def CodeFollows (n : Nat) : Prop :=
  ∀ {origins : List (Option Module)} {results ins ends : List ValType} {C : Scope}
    {a : Activation} {k : Surroundings},
    a.Typed origins C → k.Typed a.store results C ends →
    a.operands.map Value.type = ins.reverse → Expr.HasType C k.code ins ends →
    Follows origins C ends a.store (a.on k) { k with code := [] } 0 (n - 3)
      (evalCode n (k.frames.height + 1) a k.code)

/-- The machine follows the evaluation of an instruction that it is about to execute. -/
def InstrFollows (n : Nat) : Prop :=
  ∀ {origins : List (Option Module)} {results ins outs below ends : List ValType} {C : Scope}
    {a : Activation} {k : Surroundings} {m : Machine} {i : Instr} {vs rest : List Value},
    a.Typed origins C → k.Typed a.store results C ends →
    Instr.HasType C i ins outs → a.operands = vs ++ rest → vs.map Value.type = ins.reverse →
    rest.map Value.type = below.reverse → Expr.HasType C k.code (below ++ outs) ends →
    Exec.Executes m (Exec.step i) (a.on k) →
    Follows origins C (below ++ outs) a.store m k 1 (n - 2)
      (evalInstr n (k.frames.height + 1) a i)

/-- The machine follows the evaluation of a loop that it has entered. -/
def LoopFollows (n : Nat) : Prop :=
  ∀ {origins : List (Option Module)} {results ts below ends : List ValType} {C : Scope}
    {a : Activation} {k : Surroundings} {vs : List Value} {body : List Instr},
    a.Typed origins C → k.Typed a.store results C ends →
    vs.map Value.type = below.reverse → Expr.HasType C k.code (below ++ ts) ends →
    Expr.HasType (C.enter []) body [] ts →
    Follows origins C (below ++ ts) a.store
      ({ a with operands := [] }.on (k.enter vs (.loop body) 0 ts.length body)) k 1 (n - 4)
      (evalLoop n (k.frames.height + 1) ts.length vs a body)

/-- The machine follows the evaluation of a call that it is about to make. -/
def CallFollows (n : Nat) : Prop :=
  ∀ {origins : List (Option Module)} {results below ends : List ValType} {C : Scope}
    {a : Activation} {k : Surroundings} {m : Machine} {addr : FuncAddr} {type : FuncType}
    {vs rest : List Value},
    a.Typed origins C → k.Typed a.store results C ends →
    a.store.funcType? addr = some type → a.operands = vs ++ rest →
    vs.map Value.type = type.params.reverse → rest.map Value.type = below.reverse →
    Expr.HasType C k.code (below ++ type.results) ends →
    Exec.Executes m (Exec.call addr) (a.on k) →
    Follows origins C (below ++ type.results) a.store m k 1 (n - 1)
      (evalCall n (k.frames.height + 1) a addr)

theorem codeFollows_succ {n : Nat} (hinstr : InstrFollows n) (hcode : CodeFollows n) :
    CodeFollows (n + 1) := by
  intro origins results ins ends C a k ha hk hops htype
  obtain ⟨under, code, labels, labelBase, frames⟩ := k
  cases code with
  | nil =>
    have hends : ins = ends := htype.inv_nil
    show Follows _ _ _ _ _ _ _ _ (.next a)
    exact ⟨ha, .refl _, hends ▸ hops, 0, Nat.le_refl 0, .refl _⟩
  | cons i rest =>
    let k : Surroundings := ⟨under, rest, labels, labelBase, frames⟩
    obtain ⟨below, ins', mid, rfl, hi, hrest⟩ := htype.inv_cons
    obtain ⟨vs, lower, hvs, htop, hlower⟩ := values_above hops
    have hturn := Activation.turn_step (a := a) (k := ⟨under, i :: rest, labels, labelBase, frames⟩)
      rfl
    show Follows _ _ _ _ _ _ _ _ (evalCode (n + 1) (frames.height + 1) a (i :: rest))
    rw [evalCode]
    cases hcharge : a.charge with
    | none =>
      rw [hcharge] at hturn
      exact ⟨0, _, _, .refl _, hturn, rfl⟩
    | some b =>
      rw [hcharge] at hturn
      obtain ⟨fuel, rfl⟩ := Machine.Typed.charge_some hcharge
      have hk' : k.Typed a.store results C ends := hk.setCode rest
      have hfirst := hinstr (ha.setFuel fuel) hk' hi hvs htop hlower hrest hturn
      exact Follows.andThen (k := ⟨under, [], labels, labelBase, frames⟩) hfirst
        (fun b hb hp hbops => hcode hb (hk'.mono hp) hbops hrest) (by omega) (by omega)

theorem loopFollows_succ {n : Nat} (hcode : CodeFollows n) (hloop : LoopFollows n) :
    LoopFollows (n + 1) := by
  intro origins results ts below ends C a k vs body ha hk hvs hrest hbody
  let inner := k.enter vs (.loop body) 0 ts.length body
  have hinner : inner.Typed a.store results (C.enter []) ts := .loop hk hvs hrest hbody
  have hfirst := hcode (a := { a with operands := [] }) (C := C.enter [])
    ⟨ha.store, ha.inst, ha.locals⟩ hinner Activation.types_nil hbody
  rw [evalLoop]
  change Follows _ _ _ _ _ _ _ _
    (evalCode n (k.frames.height + 1) { a with operands := [] } body) at hfirst
  generalize evalCode n (k.frames.height + 1) { a with operands := [] } body = c at hfirst ⊢
  have hleave : (∀ b, c ≠ .branch 0 b) → Follows origins C (below ++ ts) a.store
      ({ a with operands := [] }.on inner) k 1 (n + 1 - 4) (c.leave ts.length vs) := fun hc =>
    Follows.leave (by simp) hk.labels.2.1 hvs hfirst hc (by omega)
  cases c with
  | branch d b =>
    cases d with
    | zero =>
      -- A branch to the loop carries nothing, and the machine starts the body again.
      obtain ⟨ts', hd, hb, hp, top, rest, hops, htop, hreach⟩ := hfirst
      obtain rfl : [] = ts' := Option.some.inj hd
      obtain rfl : top = [] := List.map_eq_nil_iff.mp htop
      obtain ⟨j, hj, hreach⟩ := hreach _ (Activation.lands_zero rfl rfl rfl)
      have hagain := hloop (a := b) (C := C) ⟨hb.store, hb.inst, hb.locals⟩ (hk.mono hp) hvs hrest hbody
      exact hagain.after hreach hp (by omega) (by omega)
    | succ d => exact hleave (by simp)
  | next b => exact hleave (by simp)
  | returned b => exact hleave (by simp)
  | trapped t s => exact hleave (by simp)
  | unfinished => exact hleave (by simp)

open Activation in
theorem callFollows_succ {n : Nat} (hcode : CodeFollows n) : CallFollows (n + 1) := by
  intro origins results below ends C a k m addr type vs rest ha hk hf hops hvs hrest htype hturn
  have hargs : vs.reverse.map Value.type = type.params := types_reverse hvs
  have hlength : vs.reverse.length = type.params.length := by
    rw [← hargs, List.length_map]
  have hops' : a.operands = vs.reverse.reverse ++ rest := by rw [List.reverse_reverse, hops]
  have hlength' : vs.length = type.params.length := by rw [← hlength, List.length_reverse]
  obtain ⟨f, hfunc, hft⟩ := Option.map_eq_some_iff.mp hf
  cases f with
  | defined type' inst code =>
    obtain rfl : type' = type := hft
    have hdef : (a.on k).store.funcs[addr]? = some (.defined type' inst code) := hfunc
    obtain ⟨origin, -, horigin⟩ := ha.store.funcs addr type' inst code hfunc
    have hcall := call_of_defined hdef
    rw [enterFunc_on hops' hlength] at hcall
    rw [evalCall_defined hfunc hops hlength']
    by_cases hdepth : a.store.config.maxCallDepth ≤ k.frames.height + 1
    · rw [if_pos hdepth] at hcall ⊢
      exact ⟨0, m, _, .refl m, hturn.of_error hcall, rfl⟩
    · rw [if_neg hdepth] at hcall ⊢
      -- The callee starts on operands of its own, and the surroundings keep the caller until it returns.
      let caller : Activation := { a with operands := rest }
      let callee : Activation := { a with inst, locals := code.startLocals vs.reverse, operands := [] }
      have hcallee : callee.Typed origins
          (.ofFunc (.ofModule origin) (type'.params ++ code.localTypes) type'.results) :=
        ⟨ha.store, horigin.implements, types_startLocals code hargs⟩
      have hbody := hcode (k := k.call caller type'.results.length code.body) hcallee
        (.call hk ha.inst ha.locals hrest htype) types_nil (hasType_of_checkFunc horigin.body)
      have hresume := Follows.resume (C := C) caller ha.inst ha.locals hrest hbody
      exact hresume.after (Exec.reaches_one (hturn.of_ok hcall)) (.refl _) (by omega) (by omega)
  | host type' run =>
    obtain rfl : type' = type := hft
    have hhost : (a.on k).store.funcs[addr]? = some (.host type' run) := hfunc
    obtain ⟨hp, hwf, hres⟩ := callHost_sound ha.store addr type' run vs.reverse
    have hcall := call_of_host hhost
    rw [callHost_on hops' hlength] at hcall
    rw [evalCall_host hfunc hops hlength']
    -- Both accounts run the host function on the same arguments, so its outcome may be anything.
    generalize a.store.callHost addr type' run vs.reverse = outcome at hp hwf hres hcall ⊢
    rcases outcome with ⟨t | given, store⟩
    · exact ⟨0, m, _, .refl m, hturn.of_error hcall, rfl⟩
    · refine ⟨⟨hwf, ha.inst.mono hp, ha.locals⟩, hp, ?_, 1, Nat.le_refl 1,
        Exec.reaches_one (hturn.of_ok hcall)⟩
      show (given.reverse ++ rest).map Value.type = _
      rw [List.map_append, List.map_reverse, hres, hrest, List.reverse_append]

/-! ### Instructions -/

section

open Activation

variable {origins : List (Option Module)} {results ins outs below ends ts : List ValType} {C : Scope}
  {a : Activation} {k : Surroundings} {m : Machine} {vs rest : List Value} {n bound : Nat}

theorem popI32_eq {x : UInt32} (h : a.operands = .i32 x :: rest) :
    a.popI32 = .ok (x, { a with operands := rest }) := by
  simp only [Activation.popI32, h]

theorem evalInstr_plain {i : Instr} (hi : i.isControl = false) (depth : Nat) :
    evalInstr (n + 1) depth a i = a.plain i := by
  cases i <;> first | rfl | cases hi

theorem follows_plain (ha : a.Typed origins C) {i : Instr} (hi : i.isControl = false)
    (htype : Instr.HasType C i ins outs) (hops : a.operands = vs ++ rest)
    (hvs : vs.map Value.type = ins.reverse) (hrest : rest.map Value.type = below.reverse)
    (hturn : Exec.Executes m (Exec.step i) (a.on k)) :
    Follows origins C (below ++ outs) a.store m k 1 bound (a.plain i) := by
  rcases step_plain ha hi htype hops hvs with
    ⟨a', vs', hrun, ha', hp, -, -, hops', hvs'⟩ | ⟨t, ht, herror⟩
  · have hplain : a.plain i = .next a' := by
      rw [Activation.plain, hrun alone]
      show Completion.next { a' with operands := a'.operands ++ [] } = .next a'
      rw [List.append_nil]
    rw [hplain]
    refine ⟨ha', hp, ?_, 1, Nat.le_refl 1, Exec.reaches_one (hturn.of_ok (hrun k))⟩
    rw [hops', List.map_append, hvs', hrest, List.reverse_append]
  · obtain ⟨m₁, hm₁, hstore₁⟩ := herror alone
    obtain ⟨m₂, hm₂, hstore₂⟩ := herror k
    have hplain : a.plain i = .trapped t a.store := by
      rw [Activation.plain, hm₁, ← hstore₁]
    rw [hplain]
    exact ⟨0, m, m₂, .refl m, hturn.of_error hm₂, hstore₂⟩

theorem follows_skip (ha : a.Typed origins C) (hops : a.operands.map Value.type = outs.reverse)
    (hturn : Exec.Executes m (pure ()) (a.on k)) :
    Follows origins C outs a.store m k 1 bound (.next a) :=
  ⟨ha, .refl _, hops, 1, Nat.le_refl 1, Exec.reaches_one hturn⟩

theorem follows_block (hcode : CodeFollows n) (ha : a.Typed origins C)
    (hk : k.Typed a.store results C ends) {t : BlockType} {body : List Instr}
    (hops : a.operands.map Value.type = below.reverse)
    (hbody : Expr.HasType (C.enter t.results) body [] t.results)
    (htype : Expr.HasType C k.code (below ++ t.results) ends)
    (hturn : Exec.Executes m (Exec.enter .block t body) (a.on k)) :
    Follows origins C (below ++ t.results) a.store m k 1 (n + 1 - 2)
      ((evalCode n (k.frames.height + 1) { a with operands := [] } body).leave t.arity
        a.operands) := by
  have hfirst := hturn.of_ok (enter_on .block t body)
  rw [← BlockType.length_results]
  rw [show LabelKind.block.branchArity t = t.results.length from (BlockType.length_results t).symm,
    ← BlockType.length_results] at hfirst
  have hinner := hcode (C := C.enter t.results) (a := { a with operands := [] })
    (k := k.enter a.operands .block t.results.length t.results.length body)
    ⟨ha.store, ha.inst, ha.locals⟩ (.block hk hops htype) types_nil hbody
  exact (Follows.leave_block hk.labels.2.1 hops hinner (Nat.le_refl _)).after
    (Exec.reaches_one hfirst) (.refl _) (by omega) (by omega)

theorem jumps_of_branch (ha : a.Typed origins C) {d : Nat} (hops : a.operands = vs ++ rest)
    (hvs : vs.map Value.type = ts.reverse)
    (hturn : Exec.Executes m (Exec.branch d) (a.on k)) :
    Jumps origins C a.store m k d ts a := by
  refine ⟨ha, .refl _, vs, rest, hops, hvs, fun k' hk' => ⟨1, Nat.le_refl 1, ?_⟩⟩
  exact Exec.reaches_one (hturn.of_ok (hk' a vs rest hops (length_of_types hvs)))

theorem follows_loop (hloop : LoopFollows n) (ha : a.Typed origins C)
    (hk : k.Typed a.store results C ends) {t : BlockType} {body : List Instr}
    (hops : a.operands.map Value.type = below.reverse)
    (hbody : Expr.HasType (C.enter []) body [] t.results)
    (htype : Expr.HasType C k.code (below ++ t.results) ends)
    (hturn : Exec.Executes m (Exec.step (.loop t body)) (a.on k)) :
    Follows origins C (below ++ t.results) a.store m k 1 (n + 1 - 2)
      (evalInstr (n + 1) (k.frames.height + 1) a (.loop t body)) := by
  have hfirst := hturn.of_ok (enter_on (.loop body) t body)
  show Follows _ _ _ _ _ _ _ _ (evalLoop n (k.frames.height + 1) t.arity a.operands a body)
  rw [← BlockType.length_results] at hfirst ⊢
  exact (hloop ha hk hops htype hbody).after (Exec.reaches_one hfirst) (.refl _) (by omega)
    (by omega)

theorem follows_ifThen (hcode : CodeFollows n) (ha : a.Typed origins C)
    (hk : k.Typed a.store results C ends) {body : List Instr} {x : UInt32}
    (hops : a.operands = .i32 x :: rest) (hrest : rest.map Value.type = below.reverse)
    (hbody : Expr.HasType (C.enter []) body [] [])
    (htype : Expr.HasType C k.code (below ++ []) ends)
    (hturn : Exec.Executes m (Exec.step (.ifThen .empty body)) (a.on k)) :
    Follows origins C (below ++ []) a.store m k 1 (n + 1 - 2)
      (evalInstr (n + 1) (k.frames.height + 1) a (.ifThen .empty body)) := by
  have hthen : Exec.Executes m (if x ≠ 0 then Exec.enter .block .empty body else pure ())
      ({ a with operands := rest }.on k) := hturn.congr (Move.bind_of_ok (popI32_on hops))
  simp only [evalInstr, popI32_eq hops]
  by_cases hx : x ≠ 0
  · rw [if_pos hx] at hthen ⊢
    exact follows_block hcode (ha.setOperands rest) hk hrest hbody htype hthen
  · rw [if_neg hx] at hthen ⊢
    rw [List.append_nil]
    exact follows_skip (ha.setOperands rest) hrest hthen

theorem follows_ifElse (hcode : CodeFollows n) (ha : a.Typed origins C)
    (hk : k.Typed a.store results C ends) {t : BlockType} {body alternate : List Instr} {x : UInt32}
    (hops : a.operands = .i32 x :: rest) (hrest : rest.map Value.type = below.reverse)
    (hbody : Expr.HasType (C.enter t.results) body [] t.results)
    (halternate : Expr.HasType (C.enter t.results) alternate [] t.results)
    (htype : Expr.HasType C k.code (below ++ t.results) ends)
    (hturn : Exec.Executes m (Exec.step (.ifElse t body alternate)) (a.on k)) :
    Follows origins C (below ++ t.results) a.store m k 1 (n + 1 - 2)
      (evalInstr (n + 1) (k.frames.height + 1) a (.ifElse t body alternate)) := by
  have henter : Exec.Executes m (Exec.enter .block t (if x ≠ 0 then body else alternate))
      ({ a with operands := rest }.on k) := hturn.congr (Move.bind_of_ok (popI32_on hops))
  have harm : Expr.HasType (C.enter t.results) (if x ≠ 0 then body else alternate) [] t.results := by
    by_cases hx : x ≠ 0
    · rw [if_pos hx]; exact hbody
    · rw [if_neg hx]; exact halternate
  simp only [evalInstr, popI32_eq hops]
  exact follows_block hcode (ha.setOperands rest) hk hrest harm htype henter

theorem follows_brIf (ha : a.Typed origins C) {l : LabelIdx} (hl : C.labels[l.toNat]? = some ts)
    {x : UInt32} (hops : a.operands = .i32 x :: vs ++ rest) (hvs : vs.map Value.type = ts.reverse)
    (hrest : rest.map Value.type = below.reverse)
    (hturn : Exec.Executes m (Exec.step (.brIf l)) (a.on k)) (depth : Nat) :
    Follows origins C (below ++ ts) a.store m k 1 bound (evalInstr (n + 1) depth a (.brIf l)) := by
  have hthen : Exec.Executes m (if x ≠ 0 then Exec.branch l.toNat else pure ())
      ({ a with operands := vs ++ rest }.on k) := hturn.congr (Move.bind_of_ok (popI32_on hops))
  simp only [evalInstr, popI32_eq hops]
  by_cases hx : x ≠ 0
  · rw [if_pos hx] at hthen ⊢
    exact ⟨ts, hl, jumps_of_branch (ha.setOperands (vs ++ rest)) rfl hvs hthen⟩
  · rw [if_neg hx] at hthen ⊢
    refine follows_skip (ha.setOperands (vs ++ rest)) ?_ hthen
    show (vs ++ rest).map Value.type = _
    rw [List.map_append, hvs, hrest, List.reverse_append]

theorem follows_brTable (ha : a.Typed origins C) {ls : Array LabelIdx} {default : LabelIdx}
    (hls : ∀ l ∈ ls.toList, C.labels[l.toNat]? = some ts)
    (hdefault : C.labels[default.toNat]? = some ts) {x : UInt32}
    (hops : a.operands = .i32 x :: vs ++ rest) (hvs : vs.map Value.type = ts.reverse)
    (hturn : Exec.Executes m (Exec.step (.brTable ls default)) (a.on k)) (depth : Nat) :
    Follows origins C outs a.store m k 1 bound
      (evalInstr (n + 1) depth a (.brTable ls default)) := by
  have hbranch : Exec.Executes m (Exec.branch (ls[x.toNat]?.getD default).toNat)
      ({ a with operands := vs ++ rest }.on k) := hturn.congr (Move.bind_of_ok (popI32_on hops))
  simp only [evalInstr, popI32_eq hops]
  exact ⟨ts, label_brTable hls hdefault x.toNat,
    jumps_of_branch (ha.setOperands (vs ++ rest)) rfl hvs hbranch⟩

theorem evalInstr_callIndirect {t : TypeIdx} {slot : UInt32} {depth : Nat}
    (hops : a.operands = .i32 slot :: rest) :
    evalInstr (n + 1) depth a (.callIndirect t) =
      match a.callee t slot with
      | .error e => .trapped e a.store
      | .ok addr => evalCall n depth { a with operands := rest } addr := by
  simp only [evalInstr, popI32_eq hops]
  rfl

theorem follows_callIndirect (hcall : CallFollows n) (ha : a.Typed origins C)
    (hk : k.Typed a.store results C ends) {t : TypeIdx} {type : FuncType}
    (htable : 0 < C.tables.size) (ht : C.types[t.toNat]? = some type) {slot : UInt32}
    (hops : a.operands = .i32 slot :: vs ++ rest) (hvs : vs.map Value.type = type.params.reverse)
    (hrest : rest.map Value.type = below.reverse)
    (htype : Expr.HasType C k.code (below ++ type.results) ends)
    (hturn : Exec.Executes m (Exec.step (.callIndirect t)) (a.on k)) :
    Follows origins C (below ++ type.results) a.store m k 1 (n + 1 - 2)
      (evalInstr (n + 1) (k.frames.height + 1) a (.callIndirect t)) := by
  have hcallee := ha.callee htable ht slot
  have hrun := callIndirect_on (k := k) (t := t) hops
  rw [evalInstr_callIndirect hops]
  cases hc : a.callee t slot with
  | error e =>
    rw [hc] at hrun
    obtain ⟨m₁, hm₁, hstore⟩ := hrun
    exact ⟨0, m, m₁, .refl m, hturn.of_error hm₁, hstore⟩
  | ok addr =>
    rw [hc] at hcallee hrun
    have hfollows := hcall (ha.setOperands (vs ++ rest)) hk hcallee rfl hvs hrest htype
      (hturn.congr hrun)
    exact hfollows.after (.refl m) (.refl _) (by omega) (by omega)

/-- **One instruction.** -/
theorem instrFollows_succ (hcode : CodeFollows n) (hloop : LoopFollows n) (hcall : CallFollows n) :
    InstrFollows (n + 1) := by
  intro origins results ins outs below ends C a k m i vs rest ha hk hi hops hvs hrest htype hturn
  cases hcontrol : i.isControl with
  | false =>
    rw [evalInstr_plain hcontrol]
    exact follows_plain ha hcontrol hi hops hvs hrest hturn
  | true =>
  cases hi with
  | block hbody =>
    obtain rfl := List.map_eq_nil_iff.mp hvs
    obtain rfl : a.operands = rest := hops
    exact follows_block hcode ha hk hrest hbody htype hturn
  | loop hbody =>
    obtain rfl := List.map_eq_nil_iff.mp hvs
    obtain rfl : a.operands = rest := hops
    exact follows_loop hloop ha hk hrest hbody htype hturn
  | ifThen hbody =>
    obtain ⟨x, rfl⟩ := values_of_i32 hvs
    exact follows_ifThen hcode ha hk hops hrest hbody htype hturn
  | ifElse hbody halternate =>
    obtain ⟨x, rfl⟩ := values_of_i32 hvs
    exact follows_ifElse hcode ha hk hops hrest hbody halternate htype hturn
  | br hl =>
    obtain ⟨top, lower, rfl, htop, -⟩ := values_above hvs
    rw [List.append_assoc] at hops
    exact ⟨_, hl, jumps_of_branch ha hops htop hturn⟩
  | brIf hl =>
    obtain ⟨x, top, rfl, htop⟩ := values_i32_above hvs
    exact follows_brIf ha hl hops htop hrest hturn _
  | brTable hls hdefault =>
    obtain ⟨x, vs', rfl, hvs'⟩ := values_i32_above hvs
    obtain ⟨top, lower, rfl, htop, -⟩ := values_above hvs'
    rw [List.cons_append, List.append_assoc] at hops
    exact follows_brTable ha hls hdefault hops htop hturn _
  | ret =>
    obtain ⟨top, lower, rfl, htop, -⟩ := values_above hvs
    rw [List.append_assoc] at hops
    -- The machine finds the label of the function by its distance from the label base.
    obtain ⟨hheight, hpos, -⟩ := hk.labels
    have hrun : Exec.step .ret (a.on k) = Exec.branch (C.labels.length - 1) (a.on k) :=
      branchToFunc_on _ (by omega)
    exact jumps_of_branch ha hops htop (hturn.congr hrun)
  | @call _ f t type hf ht =>
    obtain ⟨addr, haddr, hft⟩ := ha.inst.funcAddr hf ht
    have hrun : Exec.step (.call f) (a.on k) = Exec.call addr (a.on k) :=
      (Move.bind_of_ok inst_on).trans (Move.bind_of_ok (ofExcept_of_ok haddr))
    have heval : evalInstr (n + 1) (k.frames.height + 1) a (.call f) =
        evalCall n (k.frames.height + 1) a addr := by
      simp only [evalInstr, haddr]
    rw [heval]
    have hfollows := hcall ha hk hft hops hvs hrest htype (hturn.congr hrun)
    exact hfollows.after (.refl m) (.refl _) (by omega) (by omega)
  | callIndirect htable ht =>
    obtain ⟨slot, args, rfl, hargs⟩ := values_i32_above hvs
    exact follows_callIndirect hcall ha hk htable ht hops hargs hrest htype hturn
  | _ => cases hcontrol

end

/-- **The simulation.** The machine follows every evaluation. -/
theorem follows_all (n : Nat) : CodeFollows n ∧ InstrFollows n ∧ LoopFollows n ∧ CallFollows n := by
  induction n with
  | zero =>
    -- Index zero says nothing: the machine has no turns to take.
    refine ⟨?_, ?_, ?_, ?_⟩
    · intro origins results ins ends C a k _ _ _ _
      exact ⟨0, a.on k, by omega, .refl _⟩
    · intro origins results ins outs below ends C a k m i vs rest _ _ _ _ _ _ _ _
      exact ⟨0, m, by omega, .refl _⟩
    · intro origins results ts below ends C a k vs body _ _ _ _ _
      exact ⟨0, _, by omega, .refl _⟩
    · intro origins results below ends C a k m addr type vs rest _ _ _ _ _ _ _ _
      exact ⟨0, m, by omega, .refl _⟩
  | succ n ih =>
    obtain ⟨hcode, hinstr, hloop, hcall⟩ := ih
    exact ⟨codeFollows_succ hinstr hcode, instrFollows_succ hcode hloop hcall,
      loopFollows_succ hcode hloop, callFollows_succ hcode⟩

end WasmCore
