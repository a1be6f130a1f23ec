import WasmCore.Proofs.Binary.Integers

/-!
# `Binary.Shortest` — the shortest bytes of an integer

An integer can be written with leading groups that add nothing. Here it is written without them: groups
are split off while what is left does not fit in one.

* `Leb.shortest`, `Leb.shortestSigned`: the bytes;
* `Leb.shortest_spec`, `Leb.shortestSigned_spec`: they make up the number;
* `Leb.length_shortest_le`, `Leb.length_shortestSigned_le`: **no other bytes that do are fewer**;
* `Form.unsigned_shortest`, `Form.signed_shortest`: integers of a width.
-/

namespace WasmCore

-- Powers of numbers are those of the core library.
attribute [local instance (high)] instPowNat

namespace Leb

variable {b : UInt8} {bs : List UInt8}

/-- The shortest bytes of a number, at most `more` of which are followed by another one. -/
def shortest : (more : Nat) → Nat → List UInt8
  | 0, v => [UInt8.ofNat v]
  | more + 1, v =>
    if v < 128 then [UInt8.ofNat v]
    else UInt8.ofNat (v % 128 + 128) :: shortest more (v / 128)

/-- The shortest bytes of a number in two's complement, at most `more` of which are followed by another
    one. -/
def shortestSigned : (more : Nat) → Int → List UInt8
  | 0, v => [UInt8.ofNat (v % 128).toNat]
  | more + 1, v =>
    if -64 ≤ v ∧ v < 64 then [UInt8.ofNat (v % 128).toNat]
    else UInt8.ofNat ((v % 128).toNat + 128) :: shortestSigned more (v / 128)

/-! ## One byte more -/

theorem chained_singleton (hb : b < 128) : Chained [b] :=
  ⟨[], b, rfl, by simp, hb⟩

theorem chained_cons (hb : 128 ≤ b) (h : Chained bs) : Chained (b :: bs) := by
  obtain ⟨lead, last, rfl, hlead, hlast⟩ := h
  refine ⟨b :: lead, last, rfl, ?_, hlast⟩
  intro x hx
  obtain rfl | hx := List.mem_cons.mp hx
  · exact hb
  · exact hlead x hx

/-- The bytes of an integer begin with its last byte, or with one that another follows. -/
theorem Chained.cases (h : Chained bs) :
    (∃ b, bs = [b]) ∨ ∃ b rest, bs = b :: rest ∧ Chained rest := by
  obtain ⟨lead, last, rfl, hlead, hlast⟩ := h
  cases lead with
  | nil => exact .inl ⟨last, rfl⟩
  | cons b lead =>
    refine .inr ⟨b, lead ++ [last], rfl, lead, last, rfl, ?_, hlast⟩
    intro x hx
    exact hlead x (List.mem_cons_of_mem b hx)

theorem value_singleton (b : UInt8) : value [b] = payload b := rfl

theorem signedValue_singleton (b : UInt8) : signedValue [b] = lastGroup b := by
  have h := signedValue_eq [] b
  simpa [value] using h

theorem signedValue_cons (b : UInt8) (h : Chained bs) :
    signedValue (b :: bs) = payload b + 128 * signedValue bs := by
  obtain ⟨lead, last, rfl, -, -⟩ := h
  rw [← List.cons_append, signedValue_snoc, signedValue_snoc, List.cons_append, value_cons,
    List.length_cons, Nat.pow_succ 128 (lead.length + 1)]
  split <;> omega

/-- A byte that is the last one. -/
theorem last_ofNat {v : Nat} (hv : v < 128) :
    (UInt8.ofNat v) < 128 ∧ payload (UInt8.ofNat v) = v := by
  have hbyte : (UInt8.ofNat v).toNat = v := UInt8.toNat_ofNat_of_lt' (by show v < 256; omega)
  refine ⟨UInt8.lt_iff_toNat_lt.mpr (by rw [hbyte]; exact hv), ?_⟩
  rw [payload, hbyte, Nat.mod_eq_of_lt hv]

/-- A byte that another one follows. -/
theorem lead_ofNat {v : Nat} (hv : v < 128) :
    128 ≤ UInt8.ofNat (v + 128) ∧ payload (UInt8.ofNat (v + 128)) = v := by
  have hbyte : (UInt8.ofNat (v + 128)).toNat = v + 128 :=
    UInt8.toNat_ofNat_of_lt' (by show v + 128 < 256; omega)
  refine ⟨UInt8.le_iff_toNat_le.mpr (by rw [hbyte]; exact Nat.le_add_left 128 v), ?_⟩
  rw [payload, hbyte]
  omega

/-! ## Unsigned numbers -/

/-- **The shortest bytes make up the number.** -/
theorem shortest_spec (more : Nat) {v : Nat} (hv : v < 128 ^ (more + 1)) :
    Chained (shortest more v) ∧ (shortest more v).length ≤ more + 1 ∧ value (shortest more v) = v := by
  induction more generalizing v with
  | zero =>
    obtain ⟨hlast, hvalue⟩ := last_ofNat (show v < 128 from hv)
    exact ⟨chained_singleton hlast, Nat.le_refl 1, hvalue⟩
  | succ more ih =>
    unfold shortest
    by_cases hsmall : v < 128
    · obtain ⟨hlast, hvalue⟩ := last_ofNat hsmall
      rw [if_pos hsmall]
      exact ⟨chained_singleton hlast, Nat.le_add_left 1 _, hvalue⟩
    · have hrest : v / 128 < 128 ^ (more + 1) := by
        rw [Nat.pow_succ] at hv
        omega
      obtain ⟨hchained, hlength, hvalue⟩ := ih hrest
      obtain ⟨hlead, hpayload⟩ := lead_ofNat (Nat.mod_lt v (show 0 < 128 by decide))
      rw [if_neg hsmall]
      refine ⟨chained_cons hlead hchained, Nat.succ_le_succ hlength, ?_⟩
      rw [value_cons, hpayload, hvalue]
      omega

/-- **No bytes that make up the number are fewer.** -/
theorem length_shortest_le (more : Nat) (h : Chained bs) :
    (shortest more (value bs)).length ≤ bs.length := by
  induction more generalizing bs with
  | zero =>
    obtain ⟨b, rfl⟩ | ⟨b, rest, rfl, -⟩ := h.cases
    · exact Nat.le_refl 1
    · exact Nat.le_add_left 1 _
  | succ more ih =>
    unfold shortest
    obtain ⟨b, rfl⟩ | ⟨b, rest, rfl, hrest⟩ := h.cases
    · rw [value_singleton, if_pos (payload_lt b)]
      exact Nat.le_refl 1
    · split
      · exact Nat.le_add_left 1 _
      · have hpayload := payload_lt b
        have hdiv : value (b :: rest) / 128 = value rest := by
          rw [value_cons]
          omega
        rw [hdiv]
        exact Nat.succ_le_succ (ih hrest)

/-! ## Numbers in two's complement -/

theorem emod_lt (v : Int) : (v % 128).toNat < 128 := by omega

/-- A number of seven bits is its own last group. -/
theorem lastGroup_emod {v : Int} (h : -64 ≤ v ∧ v < 64) : lastGroup (UInt8.ofNat (v % 128).toNat) = v := by
  rw [lastGroup, (last_ofNat (emod_lt v)).2]
  split <;> omega

theorem lastGroup_range (b : UInt8) : -64 ≤ lastGroup b ∧ lastGroup b < 64 := by
  have hb := payload_lt b
  rw [lastGroup]
  split <;> omega

/-- **The shortest bytes make up the number.** -/
theorem shortestSigned_spec (more : Nat) {v : Int} (hlow : -((64 * 128 ^ more : Nat) : Int) ≤ v)
    (hhigh : v < (64 * 128 ^ more : Nat)) :
    Chained (shortestSigned more v) ∧ (shortestSigned more v).length ≤ more + 1 ∧
      signedValue (shortestSigned more v) = v := by
  induction more generalizing v with
  | zero =>
    obtain ⟨hlast, -⟩ := last_ofNat (emod_lt v)
    refine ⟨chained_singleton hlast, Nat.le_refl 1, ?_⟩
    rw [shortestSigned, signedValue_singleton]
    rw [Nat.pow_zero] at hlow hhigh
    exact lastGroup_emod (by omega)
  | succ more ih =>
    unfold shortestSigned
    by_cases hsmall : -64 ≤ v ∧ v < 64
    · obtain ⟨hlast, -⟩ := last_ofNat (emod_lt v)
      rw [if_pos hsmall]
      refine ⟨chained_singleton hlast, Nat.le_add_left 1 _, ?_⟩
      rw [signedValue_singleton, lastGroup_emod hsmall]
    · -- division rounds down, so that what is left keeps its sign
      rw [Nat.pow_succ] at hlow hhigh
      obtain ⟨hchained, hlength, hvalue⟩ := ih (v := v / 128) (by omega) (by omega)
      obtain ⟨hlead, hpayload⟩ := lead_ofNat (emod_lt v)
      rw [if_neg hsmall]
      refine ⟨chained_cons hlead hchained, Nat.succ_le_succ hlength, ?_⟩
      rw [signedValue_cons _ hchained, hpayload, hvalue]
      omega

/-- **No bytes that make up the number are fewer.** -/
theorem length_shortestSigned_le (more : Nat) (h : Chained bs) :
    (shortestSigned more (signedValue bs)).length ≤ bs.length := by
  induction more generalizing bs with
  | zero =>
    obtain ⟨b, rfl⟩ | ⟨b, rest, rfl, -⟩ := h.cases
    · exact Nat.le_refl 1
    · exact Nat.le_add_left 1 _
  | succ more ih =>
    unfold shortestSigned
    obtain ⟨b, rfl⟩ | ⟨b, rest, rfl, hrest⟩ := h.cases
    · rw [signedValue_singleton, if_pos (lastGroup_range b)]
      exact Nat.le_refl 1
    · split
      · exact Nat.le_add_left 1 _
      · have hpayload := payload_lt b
        have hdiv : signedValue (b :: rest) / 128 = signedValue rest := by
          rw [signedValue_cons b hrest]
          omega
        rw [hdiv]
        exact Nat.succ_le_succ (ih hrest)

end Leb

/-! ## Integers of a width -/

namespace Form

open Leb

variable {n : Nat}

/-- An unsigned integer of at least one bit. -/
theorem unsigned_shortest (hn : 0 < n) (x : BitVec n) :
    unsigned n (shortest ((n + 6) / 7 - 1) x.toNat) x := by
  have hgroups : (n + 6) / 7 - 1 + 1 = (n + 6) / 7 := by omega
  have hfits : x.toNat < 128 ^ ((n + 6) / 7 - 1 + 1) := by
    rw [pow_groups]
    exact Nat.lt_of_lt_of_le x.isLt (Nat.pow_le_pow_right (by decide) (by omega))
  obtain ⟨hchained, hlength, hvalue⟩ := shortest_spec _ hfits
  exact ⟨⟨hgroups ▸ hlength, hchained⟩, hvalue⟩

/-- A signed integer of at least one bit. -/
theorem signed_shortest (hn : 0 < n) (x : BitVec n) :
    signed n (shortestSigned ((n + 6) / 7 - 1) x.toInt) x := by
  have hgroups : (n + 6) / 7 - 1 + 1 = (n + 6) / 7 := by omega
  have hfits : 2 ^ (n - 1) ≤ 64 * 128 ^ ((n + 6) / 7 - 1) := by
    have hpow : 2 ^ (n - 1) ≤ 2 ^ (6 + 7 * ((n + 6) / 7 - 1)) :=
      Nat.pow_le_pow_right (by decide) (by omega)
    rw [Nat.pow_add] at hpow
    rw [pow_groups]
    exact hpow
  have hcast : ((2 ^ (n - 1) : Nat) : Int) = 2 ^ (n - 1) := Int.natCast_pow 2 (n - 1)
  have hlow := x.le_toInt
  have hhigh := x.toInt_lt
  obtain ⟨hchained, hlength, hvalue⟩ :=
    shortestSigned_spec ((n + 6) / 7 - 1) (v := x.toInt) (by omega) (by omega)
  exact ⟨⟨hgroups ▸ hlength, hchained⟩, hvalue⟩

end Form

end WasmCore
