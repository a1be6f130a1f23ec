import WasmCore.Proofs.Link.Integrity

/-!
# `Link.Atomicity` — a failed instantiation leaves nothing behind

A module that cannot be instantiated must not be half there: the tables and memories that its segments
are meant for may be shared with instances that are in use. Only the start function can fail after the
point of no return, and then it is the program itself that trapped.

* `Store.StartTraps`: the start function ran, and trapped;
* `Store.Reachable.instantiate_atomic`: **failed instantiation is atomic**, and no segment fails to be
  written once everything is allocated.
-/

namespace WasmCore.Store

variable {s : Store} {m : Module} {given : List External}

/-- **The error comes from running the start function**: the module was linked, and a call of its start
    function trapped. -/
def StartTraps (s : Store) (turns : Nat) (m : Module) (given : List External) (e : LinkError) : Prop :=
  ∃ inst s₁ f a t, s.link m given = (.ok inst, s₁) ∧ m.start = some f ∧ inst.funcAddr f = .ok a ∧
    (s₁.invoke turns a []).1 = .failed t ∧ e = .trap t

/-- Of a linked module only the start function can fail. -/
theorem runStart_failed {inst : ModuleInst} {start : Option FuncIdx} {turns : Nat} {e : LinkError}
    (hstart : ∀ f, start = some f → ∃ a, inst.funcAddr f = .ok a)
    (h : (s.runStart turns inst start).1 = .failed e) :
    ∃ f a t, start = some f ∧ inst.funcAddr f = .ok a ∧
      (s.invoke turns a []).1 = .failed t ∧ e = .trap t := by
  cases start with
  | none => cases h
  | some f =>
    obtain ⟨a, ha⟩ := hstart f rfl
    simp only [runStart, ha] at h
    refine ⟨f, a, ?_⟩
    generalize s.invoke turns a [] = outcome at h ⊢
    obtain ⟨called, s'⟩ := outcome
    cases called with
    | done vs => cases h
    | failed t => cases h; exact ⟨t, rfl, ha, rfl, rfl⟩
    | unfinished => cases h

/-- **Failed instantiation is atomic.** Take any store that can be reached, any module and anything
    given for its imports. If instantiation fails and it was not the start function that trapped, the
    store is what it was, down to every slot, byte and value, and no host function was called. And once
    everything is allocated, every segment of the module can be written. -/
theorem Reachable.instantiate_atomic (hs : s.Reachable) (turns : Nat) (m : Module)
    (given : List External) :
    (∀ e s', s.instantiate turns m given = (.failed e, s') → ¬ s.StartTraps turns m given e →
      s' = s) ∧
    (∀ inst segments s₁, Linking.allocModule m given s = .ok (inst, segments) s₁ →
      (s₁.writeSegments segments).1 = .ok ()) := by
  obtain ⟨origins, hwf⟩ := hs.wellFormed
  refine ⟨fun e s' h hnot => ?_, fun inst segments s₁ h => ?_⟩
  · rcases link_cases s m given with ⟨e', hlink⟩ | ⟨inst, segments, s₁, haccepts, halloc, hlink⟩
    · rw [instantiate_of_error turns hlink] at h
      cases h
      rfl
    · -- The module is linked, so it is its start function that failed.
      obtain ⟨-, -, hinst, -⟩ := allocModule_spec hwf haccepts halloc
      obtain ⟨hvalid, -⟩ := acceptsModule_eq_ok haccepts
      obtain ⟨-, hfailed, -⟩ := instantiate_of_ok turns hlink
      replace hfailed := hfailed e (by rw [h])
      obtain ⟨f, a, t, hf, ha, ht, he⟩ :=
        runStart_failed (fun f hf => funcAddr_start hvalid hinst hf) hfailed
      exact absurd ⟨inst, _, f, a, t, hlink, hf, ha, ht, he⟩ hnot
  · exact writeSegments_of_fits (fits_of_allocModule h)

/-- A module with two segments for an imported table: the first fits a table of one slot, the second
    does not. -/
def overfull : Module where
  types := [⟨[], []⟩]
  imports := [{ source := "host", name := "table", desc := .table ⟨1, none⟩ }]
  funcs := [{ typeIdx := 0, locals := [], body := [] }]
  globals := [{ type := ⟨.i32, .var⟩, initial := [.const (.i32 1)] }]
  elems :=
    [{ table := 0, offset := [.const (.i32 0)], funcs := [0] },
     { table := 0, offset := [.const (.i32 1)], funcs := [0] }]

/-- A store with a table of one slot, which is shared with whoever imports it. -/
def shared : Store := (withConfig {}).perform (.allocTable ⟨1, none⟩)

/-- The segment that fits is not written either, and the global is gone. -/
theorem overfull_atomic :
    (shared.instantiate 0 overfull [.table 0]).1 = .failed (.trap .elemOutOfBounds) ∧
    (shared.instantiate 0 overfull [.table 0]).2 = shared := by
  have hfailed : (shared.instantiate 0 overfull [.table 0]).1 =
      .failed (.trap .elemOutOfBounds) := by with_unfolding_all rfl
  have hreachable : shared.Reachable := (reachable_withConfig {}).perform _
  refine ⟨hfailed, ?_⟩
  refine (hreachable.instantiate_atomic 0 overfull [.table 0]).1 (.trap .elemOutOfBounds) _
    (Prod.ext hfailed rfl) ?_
  rintro ⟨-, -, f, -, -, -, hstart, -⟩
  cases hstart

end WasmCore.Store
