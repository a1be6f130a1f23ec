import WasmCore.Proofs.Link.Integrity

/-!
# `Exec.Safety` — calls into reachable stores

Whatever was done to a store before, a call of one of its functions with arguments of the right types
meets no fault of the machine.

* `Store.withLimits`: a store whose calls are limited otherwise;
* `Store.Reachable.invoke_safe`: **type safety of the whole engine**.
-/

namespace WasmCore.Store

/-- The store with other limits on calls. -/
def withLimits (s : Store) (fuel : Option Nat) (depth : Nat) : Store :=
  { s with config := { s.config with fuel, maxCallDepth := depth } }

theorem WellFormed.withLimits {s : Store} {origins : List (Option Module)}
    (hs : s.WellFormed origins) (fuel : Option Nat) (depth : Nat) :
    (s.withLimits fuel depth).WellFormed origins :=
  hs.update (.of_eq rfl (Nat.le_refl _) (Nat.le_refl _) rfl) rfl hs.slots hs.globals

/-- **Validation soundness.** Take any store that can be reached, any limits on fuel and calls, and any
    of its functions with arguments of the right types. The call never ends in an internal trap; if it
    ends, it gives values of the result types of the function; and whenever on the way a body has run to
    its end, there are exactly the values that it leaves above the operands that it started with. -/
theorem Reachable.invoke_safe {s : Store} (hs : s.Reachable) (fuel : Option Nat) (depth : Nat)
    {a : FuncAddr} {type : FuncType} (hf : s.funcType? a = some type) {args : List Value}
    (hargs : args.map Value.type = type.params) :
    (∀ turns t, ((s.withLimits fuel depth).invoke turns a args).1 = .failed t →
      t.internal = false) ∧
    (∀ turns vs, ((s.withLimits fuel depth).invoke turns a args).1 = .done vs →
      vs.map Value.type = type.results) ∧
    (∀ m₀ n m label outer, Exec.call a ((s.withLimits fuel depth).machine args) = .ok () m₀ →
      Exec.Reaches n m₀ m → m.code = [] → m.labels.pop? = some (label, outer) →
      m.stack.height = label.height + label.endArity) := by
  obtain ⟨origins, hwf⟩ := hs.wellFormed
  have hlimits := hwf.withLimits fuel depth
  have hf' : (s.withLimits fuel depth).funcType? a = some type := hf
  refine ⟨fun turns t h => ?_, fun turns vs h => ?_, fun m₀ n m label outer hcall hm hcode hl => ?_⟩
  · obtain ⟨-, -, hsafe⟩ := hlimits.invoke_of_types hf' hargs turns
    rw [h] at hsafe
    exact hsafe
  · obtain ⟨-, -, hsafe⟩ := hlimits.invoke_of_types hf' hargs turns
    rw [h] at hsafe
    exact hsafe
  · have hsound := hlimits.call hf' hargs
    rw [hcall] at hsound
    exact (hsound.1.reaches hm).1.height_at_end hcode hl

/-- A module with one function, which counts its argument down to zero in a loop. -/
def countdown : Module where
  types := [⟨[.i32], [.i32]⟩]
  funcs :=
    [{ typeIdx := 0, locals := []
       body := [.loop .empty [.localGet 0, .const (.i32 1), .numeric (.intBinary .w32 .sub),
         .localTee 0, .brIf 0], .localGet 0] }]

/-- The store with an instance of `countdown`. -/
def counting : Store := (withConfig {}).perform (.instantiate 0 countdown [])

theorem reachable_counting : counting.Reachable := (reachable_withConfig {}).perform _

theorem funcType?_counting : counting.funcType? 0 = some ⟨[.i32], [.i32]⟩ := by decide +kernel

/-- Counting down is safe, whether the fuel lasts or not. -/
theorem counting_safe :
    (∀ turns t, ((counting.withLimits (some 9) 1).invoke turns 0 [.i32 3]).1 = .failed t →
      t.internal = false) ∧
    (∀ turns vs, ((counting.withLimits (some 9) 1).invoke turns 0 [.i32 3]).1 = .done vs →
      vs.map Value.type = [.i32]) ∧
    (∀ m₀ n m label outer,
      Exec.call 0 ((counting.withLimits (some 9) 1).machine [.i32 3]) = .ok () m₀ →
      Exec.Reaches n m₀ m → m.code = [] → m.labels.pop? = some (label, outer) →
      m.stack.height = label.height + label.endArity) :=
  reachable_counting.invoke_safe (some 9) 1 funcType?_counting rfl

end WasmCore.Store
