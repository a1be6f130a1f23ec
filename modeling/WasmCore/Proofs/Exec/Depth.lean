import WasmCore.Proofs.Binary.RoundTrip
import WasmCore.Proofs.Exec.Stacks

/-!
# `Exec.Depth` — the limit on calls

The limit on calls is looked at where a function is entered, and nowhere else. So two runs that differ
in it only go along with each other, turn by turn, until the one with less room has none left. As long as
a run goes on, the limit bounds its frames, and with them its labels: a body that was decoded is nested
only so deep, and labels and frames are in step.

* `Machine.deepen`: more room for calls;
* `ignoresUnless_turn`, `ignoresUnless_run`: **a run with more room** is the same, unless room runs out;
* `invoke_deepen`: calls from outside;
* `nesting_of_decode`, `shallow_performAll`: what was decoded is not nested deep;
* `Store.depth_limits`: **the limit on calls only cuts runs short, and bounds both stacks**.
-/

namespace WasmCore

/-! ## More room for calls -/

/-- The machine with room for more calls. -/
def Machine.deepen (more : Nat) : Machine → Machine :=
  Machine.retune (fun c => { c with maxCallDepth := c.maxCallDepth + more }) id

namespace Exec

open Machine (deepen)
open Move (IgnoresUnless)

/-- More room for calls is seen only by what runs out of it. -/
theorem hidden_depth (more : Nat) :
    Config.Hidden (· = .callStackExhausted) fun c => { c with maxCallDepth := c.maxCallDepth + more } :=
  ⟨fun _ => rfl, fun c => Nat.le_add_right c.maxCallDepth more, .inl rfl⟩

variable {more : Nat}

/-- An instruction costs the same, and does the same. -/
theorem ignoresUnless_advance (i : Instr) (rest : List Instr) :
    IgnoresUnless (· = .callStackExhausted) (deepen more) (advance i rest) := by
  have hstep : IgnoresUnless (· = .callStackExhausted) (deepen more) (step i) :=
    ignoresUnless_step (hidden_depth more) i
  rintro ⟨store, fuel, stack, code, labels, frames⟩
  match fuel with
  | none => exact hstep ⟨store, none, stack, rest, labels, frames⟩
  | some 0 => exact .inr rfl
  | some (n + 1) => exact hstep ⟨store, some n, stack, rest, labels, frames⟩

/-- **A turn with more room.** -/
theorem ignoresUnless_turn : IgnoresUnless (· = .callStackExhausted) (deepen more) turn := by
  refine .get_bind (fun _ => rfl) fun m => ?_
  split
  · exact .bind (ignoresUnless_advance _ _) fun _ => .pure _
  · refine .get_bind (fun _ => rfl) fun m' => ?_
    split
    · exact .pure _
    · exact .bind (ignoresUnless_close _ _) fun _ => .pure _

/-- **A run with more room.** -/
theorem ignoresUnless_run (turns : Nat) :
    IgnoresUnless (· = .callStackExhausted) (deepen more) (run turns) := by
  induction turns with
  | zero => exact .get_bind (fun _ => rfl) fun m => .pure _
  | succ turns ih =>
    refine .bind ignoresUnless_turn fun more => ?_
    split
    · exact ih
    · exact .pure _

end Exec

namespace Store

variable {s : Store} {a : FuncAddr} {args : List Value}

theorem outcome_deepen (more : Nat) (r : EStateM.Result Trap Machine Bool) :
    outcome (Move.inState (Machine.deepen more) r) =
      ((outcome r).1, (outcome r).2.withLimits (outcome r).2.config.fuel
        ((outcome r).2.config.maxCallDepth + more)) := by
  cases r with
  | ok done m => cases done <;> rfl
  | error t m => rfl

/-- **A call with more room** comes to the same, unless without it the room runs out. -/
theorem invoke_deepen {fuel : Option Nat} {depth depth' turns : Nat} {r : Outcome Trap (List Value)}
    {s' : Store} (hinvoke : (s.withLimits fuel depth).invoke turns a args = (r, s'))
    (hr : r ≠ .failed .callStackExhausted) (hdepth : depth ≤ depth') :
    (s.withLimits fuel depth').invoke turns a args = (r, s'.withLimits fuel depth') := by
  obtain ⟨more, rfl⟩ := Nat.exists_eq_add_of_le hdepth
  have hconfig := config_invoke turns (s.withLimits fuel depth) a args
  rw [hinvoke] at hconfig
  cases hargs : (s.withLimits fuel depth).acceptsArgs a args with
  | error t =>
    have hargs' : (s.withLimits fuel (depth + more)).acceptsArgs a args = .error t := hargs
    rw [invoke, hargs] at hinvoke
    cases hinvoke
    rw [invoke, hargs']
    rfl
  | ok u =>
    have hargs' : (s.withLimits fuel (depth + more)).acceptsArgs a args = .ok () := hargs
    have hrun : Move.IgnoresUnless (· = .callStackExhausted) (Machine.deepen more)
        (do Exec.call a; Exec.run turns) :=
      .bind (Exec.ignoresUnless_call (Exec.hidden_depth more) a) fun _ => Exec.ignoresUnless_run turns
    rw [invoke_eq turns hargs] at hinvoke
    -- A run that fails for want of room is the only one that more room could change.
    rcases hrun ((s.withLimits fuel depth).machine args) with ⟨t, m, hfail, rfl⟩ | hsame
    · rw [hfail] at hinvoke
      cases hinvoke
      exact absurd rfl hr
    · have hstart : ((s.withLimits fuel depth).machine args).deepen more =
          (s.withLimits fuel (depth + more)).machine args := rfl
      rw [hstart] at hsame
      rw [invoke_eq turns hargs', hsame, outcome_deepen, hinvoke]
      dsimp only
      rw [hconfig]
      rfl

end Store

/-! ## What was decoded is not nested deep -/

namespace Form

/-- Each item has bytes of its own. -/
theorem form_of_mem {α : Type} {F : Form α} {bs : List UInt8} {xs : List α} (h : items F bs xs) {x : α}
    (hx : x ∈ xs) : ∃ b, F b x := by
  induction h with
  | nil => cases hx
  | cons hb _ ih =>
    rcases List.mem_cons.mp hx with rfl | hx
    · exact ⟨_, hb⟩
    · exact ih hx

theorem nesting_of_code {b : List UInt8} {c : Code} (h : code b c) : nestingOfBody c.body ≤ maxNesting := by
  obtain ⟨-, hfunction, -⟩ := h
  obtain ⟨-, hexpr, -⟩ := hfunction
  obtain ⟨-, hnesting⟩ := hexpr
  exact hnesting

end Form

/-- **Bodies that were decoded** are nested only so deep. -/
theorem nesting_of_decode {b : List UInt8} {m : Module} (h : decode b = .ok m) {f : Func}
    (hf : f ∈ m.funcs) : nestingOfBody f.body ≤ maxNesting := by
  obtain ⟨ss, bs, -, hitems, -, -, rfl⟩ := conforms_of_decode h
  -- A function is joined from two sections; its body is an item of one of them.
  rw [Module.ofSections, ← List.map_uncurry_zip_eq_zipWith] at hf
  obtain ⟨⟨t, c⟩, hjoined, rfl⟩ := List.mem_map.mp hf
  obtain ⟨x, hx, hc⟩ := List.mem_flatMap.mp (List.of_mem_zip hjoined).2
  obtain ⟨b, hb⟩ := Form.form_of_mem hitems hx
  cases x with
  | codes cs =>
    obtain ⟨⟨-, hcontents, -⟩⟩ := hb
    obtain ⟨-, hcodes, -⟩ := hcontents
    obtain ⟨b', hcode⟩ := Form.form_of_mem hcodes hc
    exact Form.nesting_of_code hcode
  | _ => cases hc

namespace Store

/-- The modules that functions come from were instantiated. -/
theorem mem_origins {s : Store} {ops : List Operation} {m : Module} (h : some m ∈ s.origins ops) :
    ∃ op ∈ ops, op.module? = some m := by
  induction ops generalizing s with
  | nil => cases h
  | cons op ops ih =>
    rw [origins, List.mem_append] at h
    rcases h with h | h
    · exact ⟨op, List.mem_cons_self, (List.eq_of_mem_replicate h).symm⟩
    · obtain ⟨op', hop', hm⟩ := ih h
      exact ⟨op', List.mem_cons_of_mem op hop', hm⟩

/-- **Stores whose modules were decoded** have no body that is nested deep. -/
theorem shallow_performAll (config : Config) {ops : List Operation}
    (hdecoded : ∀ op ∈ ops, ∀ m, op.module? = some m → ∃ b, decode b = .ok m) :
    ((withConfig config).performAll ops).Shallow maxNesting := by
  intro addr type inst f hf
  obtain ⟨m, horigin, hdefined⟩ := ((WellFormed.empty config).performAll ops).funcs addr type inst f hf
  obtain ⟨op, hop, hm⟩ := mem_origins (List.mem_of_getElem? horigin)
  obtain ⟨b, hb⟩ := hdecoded op hop m hm
  exact nesting_of_decode hb hdefined.mem

/-- **Depth limits.** Take any store that a history leads to, all of whose modules were decoded, any limits
    on fuel and calls, and any of its functions with any arguments. Throughout the call, no more functions
    are under way than the limit says; from the outermost frame to the innermost, the positions that frames
    give for their labels increase, and they are exactly those where a label of a function stands, one for
    each frame; and for each frame there are no more labels, on the whole, than that of its function and as
    many as blocks may be nested. If the call does not run out of room, then with more room it comes to the
    same, and leaves the same store but for the limit. -/
theorem depth_limits (config : Config) (ops : List Operation)
    (hdecoded : ∀ op ∈ ops, ∀ m, op.module? = some m → ∃ b, decode b = .ok m) (fuel : Option Nat)
    (depth : Nat) (a : FuncAddr) (args : List Value) :
    (∀ m, (((withConfig config).performAll ops).withLimits fuel depth).Visits a args m →
      m.frames.height ≤ depth ∧
      m.bases.reverse.Pairwise (· < ·) ∧
      (∀ p, p ∈ m.bases ↔
        ∃ label, m.labels.toList.reverse[p]? = some label ∧ label.kind.isFunc = true) ∧
      m.labels.toList.countP (fun label => label.kind.isFunc) = m.frames.height ∧
      m.labels.height ≤ m.frames.height * (1 + maxNesting)) ∧
    (∀ turns r s',
      (((withConfig config).performAll ops).withLimits fuel depth).invoke turns a args = (r, s') →
      r ≠ .failed .callStackExhausted →
      ∀ depth', depth ≤ depth' →
        (((withConfig config).performAll ops).withLimits fuel depth').invoke turns a args =
          (r, s'.withLimits fuel depth')) := by
  have hwf := ((WellFormed.empty config).performAll ops).withLimits fuel depth
  have hshallow : (((withConfig config).performAll ops).withLimits fuel depth).Shallow maxNesting :=
    shallow_performAll config hdecoded
  refine ⟨fun m hm => ?_, fun turns r s' hinvoke hr depth' hdepth => invoke_deepen hinvoke hr hdepth⟩
  obtain ⟨-, hroom, n, hnested, hlimit⟩ := hwf.orderly_visits hshallow hm
  have hcount := hnested.countP_isFunc
  have hlength := hnested.length_le (Nat.le_of_add_right_le hlimit)
  rw [m.length_bases] at hroom hcount hlength
  rw [Stack.length_toList] at hlength
  exact ⟨hroom, hnested.increasing, hnested.mem_bases_iff, hcount, hlength⟩

/-- A module with one function, which calls itself with one less until its argument is zero. -/
def descent : Module where
  types := [⟨[.i32], []⟩]
  funcs :=
    [{ typeIdx := 0, locals := []
       body := [.localGet 0, .ifThen .empty [.localGet 0, .const (.i32 1),
         .numeric (.intBinary .w32 .sub), .call 0]] }]

/-- The store with an instance of `descent`. -/
def descending : Store := (withConfig {}).performAll [.instantiate 0 descent []]

/-- Descending from two, three functions are under way at the end: with room for three or more the call
    ends, and with room for two it does not. -/
theorem descending_depth_limits :
    (∀ m, (descending.withLimits none 3).Visits 0 [.i32 2] m →
      m.frames.height ≤ 3 ∧ m.labels.height ≤ m.frames.height * 1025) ∧
    (∀ depth, 3 ≤ depth → ((descending.withLimits none depth).invoke 40 0 [.i32 2]).1 = .done []) ∧
    ((descending.withLimits none 2).invoke 40 0 [.i32 2]).1 = .failed .callStackExhausted := by
  have hencodable : descent.Encodable := ⟨by decide +kernel, by decide +kernel, by decide +kernel⟩
  have hdecoded : ∀ op ∈ [Operation.instantiate 0 descent []], ∀ m, op.module? = some m →
      ∃ b, decode b = .ok m := by
    intro op hop m hm
    obtain rfl := List.mem_singleton.mp hop
    cases hm
    exact ⟨encode descent .specimen, decode_of_conforms hencodable.conforms⟩
  have hdone : (descending.withLimits none 3).invoke 40 0 [.i32 2] =
      (.done [], ((descending.withLimits none 3).invoke 40 0 [.i32 2]).2) :=
    Prod.ext (by decide +kernel) rfl
  obtain ⟨hbounded, hsame⟩ := depth_limits {} [.instantiate 0 descent []] hdecoded none 3 0 [.i32 2]
  refine ⟨fun m hm => ?_, fun depth hdepth => ?_, by decide +kernel⟩
  · obtain ⟨hframes, -, -, -, hlabels⟩ := hbounded m hm
    exact ⟨hframes, hlabels⟩
  · exact congrArg Prod.fst (hsame 40 _ _ hdone nofun depth hdepth)

end Store

end WasmCore
