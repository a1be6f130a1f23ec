import WasmCore.Proofs.Binary.Reads

/-!
# `Binary.Integers` — integers in groups of seven bits

The decoder joins groups of bits by shifting them into place, and decides from the last group alone
whether the integer is too large. The grammar speaks of numbers. Both come to the same because groups
that stand in different places share no bits, and because only the last of the longest forms can reach
past the width of the integer.

* `value_snoc`, `value_lt`: numbers from groups;
* `join_eq`, `joined_eq`: bits that are joined make up the number;
* `too_large_iff`, `out_of_range_iff`: the check of the last group is a check of the range;
* `extended_eq`: copies of the sign bit make up a negative number;
* `groups_of_endless`, `groups_of_ended`: which bytes are taken for an integer;
* `reads_unsigned`, `reads_signed`: **integers are read exactly.**
-/

namespace WasmCore

-- Powers of numbers are those of the core library.
attribute [local instance (high)] instPowNat

namespace Leb

variable {n : Nat}

/-! ## Numbers from groups -/

theorem payload_lt (b : UInt8) : payload b < 128 := Nat.mod_lt _ (by decide)

/-- Groups of seven bits count in powers of 128. -/
theorem pow_groups (k : Nat) : 128 ^ k = 2 ^ (7 * k) := by
  rw [Nat.pow_mul]

theorem value_cons (b : UInt8) (rest : List UInt8) : value (b :: rest) = payload b + 128 * value rest :=
  rfl

theorem value_lt (bs : List UInt8) : value bs < 128 ^ bs.length := by
  induction bs with
  | nil => exact Nat.one_pos
  | cons b rest ih =>
    have hb := payload_lt b
    rw [value_cons, List.length_cons, Nat.pow_succ]
    omega

theorem value_snoc (lead : List UInt8) (last : UInt8) :
    value (lead ++ [last]) = value lead + 128 ^ lead.length * payload last := by
  induction lead with
  | nil => simp [value, payload]
  | cons b rest ih =>
    rw [List.cons_append, value_cons, ih, value_cons, List.length_cons, Nat.pow_succ, Nat.mul_add,
      Nat.add_assoc, Nat.mul_comm (128 ^ rest.length) 128, Nat.mul_assoc]

theorem signedValue_snoc (lead : List UInt8) (last : UInt8) :
    signedValue (lead ++ [last]) =
      (value (lead ++ [last]) : Int) - (if payload last < 64 then 0 else 128 ^ (lead.length + 1) : Nat) := by
  rw [signedValue, List.getLast?_concat, List.length_append, List.length_singleton]
  rfl

/-! ## Bits from groups -/

/-- Bits that stand above others do not meet them. -/
theorem ofNat_or_shiftLeft {shift v : Nat} (hv : v < 2 ^ shift) (p : Nat) :
    BitVec.ofNat n v ||| BitVec.ofNat n p <<< shift = BitVec.ofNat n (v + 2 ^ shift * p) := by
  have hshift : BitVec.ofNat n p <<< shift = BitVec.ofNat n (2 ^ shift * p) := by
    apply BitVec.eq_of_toNat_eq
    rw [BitVec.toNat_shiftLeft, BitVec.toNat_ofNat, BitVec.toNat_ofNat, Nat.shiftLeft_eq,
      Nat.mod_mul_mod, Nat.mul_comm]
  rw [hshift, Nat.add_comm v, Nat.two_pow_add_eq_or_of_lt hv, BitVec.ofNat_or, BitVec.or_comm]

/-- Groups that are joined to lower bits add their number, in its place. -/
theorem join_eq (lead : List UInt8) {shift v : Nat} (hv : v < 2 ^ shift) :
    join shift (BitVec.ofNat n v) lead = BitVec.ofNat n (v + 2 ^ shift * value lead) := by
  induction lead generalizing shift v with
  | nil => simp [join, value]
  | cons b rest ih =>
    have hb := payload_lt b
    have hv' : v + 2 ^ shift * payload b < 2 ^ (shift + 7) := by
      rw [Nat.pow_add]
      have hle : 2 ^ shift * (payload b + 1) ≤ 2 ^ shift * 2 ^ 7 := Nat.mul_le_mul_left _ (by omega)
      rw [Nat.mul_add] at hle
      omega
    rw [join, ofNat_or_shiftLeft hv, ih hv', value_cons, Nat.pow_add, Nat.mul_add, Nat.mul_assoc,
      Nat.add_assoc]

/-- **All groups together.** -/
theorem joined_eq (lead : List UInt8) (last : UInt8) :
    (join 0 0 lead ||| BitVec.ofNat n (payload last) <<< (7 * lead.length) : BitVec n) =
      BitVec.ofNat n (value (lead ++ [last])) := by
  have hlead := value_lt lead
  have hjoin : (join 0 0 lead : BitVec n) = BitVec.ofNat n (value lead) := by
    have h := join_eq (n := n) lead (show 0 < 2 ^ 0 by decide)
    rw [Nat.zero_add, Nat.pow_zero, Nat.one_mul] at h
    exact h
  rw [pow_groups] at hlead
  rw [hjoin, ofNat_or_shiftLeft hlead, value_snoc, pow_groups]

/-! ## Range -/

/-- In an integer of the longest form the last group begins below the width of the integer and ends at
    or above it. -/
theorem width_of_longest {k : Nat} (h : k + 1 = maxBytes n) : 7 * k < n ∧ n ≤ 7 * k + 7 := by
  unfold maxBytes at h
  omega

theorem width_of_shorter {k : Nat} (h : k + 1 < maxBytes n) : 7 * k + 7 < n := by
  unfold maxBytes at h
  omega

/-- **Whether an unsigned integer is too large** shows in its last group. -/
theorem too_large_iff {lead : List UInt8} {last : UInt8} (hlength : lead.length + 1 ≤ maxBytes n) :
    (lead.length + 1 = maxBytes n ∧ payload last >>> (n - 7 * lead.length) ≠ 0) ↔
      2 ^ n ≤ value (lead ++ [last]) := by
  have hlead := value_lt lead
  by_cases hlongest : lead.length + 1 = maxBytes n
  · obtain ⟨hlow, -⟩ := width_of_longest hlongest
    have hpow : 2 ^ n = 128 ^ lead.length * 2 ^ (n - 7 * lead.length) := by
      rw [pow_groups, ← Nat.pow_add]
      congr 1
      omega
    rw [value_snoc, hpow]
    simp only [hlongest, true_and, Nat.shiftRight_eq_div_pow, ne_eq, Nat.div_eq_zero_iff]
    constructor
    · intro h
      have hp : 2 ^ (n - 7 * lead.length) ≤ payload last := by
        have := Nat.two_pow_pos (n - 7 * lead.length)
        omega
      exact Nat.le_trans (Nat.mul_le_mul_left _ hp) (Nat.le_add_left _ _)
    · intro h hp
      -- The groups before the last one cannot make up for what the last one lacks.
      have hp' : payload last + 1 ≤ 2 ^ (n - 7 * lead.length) := by
        have := Nat.two_pow_pos (n - 7 * lead.length)
        omega
      have hle := Nat.mul_le_mul_left (128 ^ lead.length) hp'
      rw [Nat.mul_add] at hle
      omega
  · have hshort := width_of_shorter (Nat.lt_of_le_of_ne hlength hlongest)
    have hvalue := value_lt (lead ++ [last])
    rw [List.length_append, List.length_singleton, pow_groups] at hvalue
    have hpow : 2 ^ (7 * (lead.length + 1)) ≤ 2 ^ n := Nat.pow_le_pow_right (by decide) (by omega)
    simp only [hlongest, false_and, false_iff]
    omega

/-- The last group as a number of seven bits in two's complement. -/
def lastGroup (b : UInt8) : Int := (payload b : Int) - (if payload b < 64 then 0 else 128 : Nat)

theorem signedValue_eq (lead : List UInt8) (last : UInt8) :
    signedValue (lead ++ [last]) = value lead + (128 ^ lead.length : Nat) * lastGroup last := by
  rw [signedValue_snoc, value_snoc, lastGroup, Nat.pow_succ, Int.mul_sub]
  split <;> omega

/-- The bits of the last group above a position are all zeros or all ones exactly if the group is a
    number of that many bits in two's complement. -/
theorem extension_iff : ∀ k < 7, ∀ p < 128,
    (p >>> k = 0 ∨ p >>> k = 127 >>> k) ↔
      -((2 ^ k : Nat) : Int) ≤ (p : Int) - (if p < 64 then 0 else 128 : Nat) ∧
        (p : Int) - (if p < 64 then 0 else 128 : Nat) < (2 ^ k : Nat) := by
  decide +kernel

/-- What stands below a group does not reach into it. -/
theorem scaled_range {A v : Nat} (hv : v < A) (x : Int) (B : Nat) :
    (-((A * B : Nat) : Int) ≤ v + A * x ∧ v + A * x < (A * B : Nat)) ↔ -(B : Int) ≤ x ∧ x < B := by
  have hscale : ∀ {x y : Int}, x ≤ y → (A : Int) * x ≤ A * y :=
    fun h => Int.mul_le_mul_of_nonneg_left h (Int.natCast_nonneg A)
  rw [Int.natCast_mul]
  constructor
  · rintro ⟨hlow, hhigh⟩
    constructor
    · refine Int.not_lt.mp fun hx => ?_
      have h := hscale (show x ≤ -(B : Int) - 1 by omega)
      rw [Int.mul_sub, Int.mul_neg] at h
      omega
    · refine Int.not_le.mp fun hx => ?_
      have h := hscale hx
      omega
  · rintro ⟨hlow, hhigh⟩
    have h := hscale hlow
    have h' := hscale (show x ≤ (B : Int) - 1 by omega)
    rw [Int.mul_neg] at h
    rw [Int.mul_sub] at h'
    omega

/-- **Whether a signed integer is out of range** shows in its last group. -/
theorem out_of_range_iff {lead : List UInt8} {last : UInt8} (hlength : lead.length + 1 ≤ maxBytes n) :
    (lead.length + 1 = maxBytes n ∧ payload last >>> (n - 7 * lead.length - 1) ≠ 0 ∧
        payload last >>> (n - 7 * lead.length - 1) ≠ 127 >>> (n - 7 * lead.length - 1)) ↔
      ¬ (-2 ^ (n - 1) ≤ signedValue (lead ++ [last]) ∧ signedValue (lead ++ [last]) < 2 ^ (n - 1)) := by
  have hlast := payload_lt last
  have hcast : (2 : Int) ^ (n - 1) = ((2 ^ (n - 1) : Nat) : Int) := by rw [Int.natCast_pow]; rfl
  rw [hcast, signedValue_eq]
  by_cases hlongest : lead.length + 1 = maxBytes n
  · obtain ⟨hlow, hhigh⟩ := width_of_longest hlongest
    have hpow : 2 ^ (n - 1) = 128 ^ lead.length * 2 ^ (n - 7 * lead.length - 1) := by
      rw [pow_groups, ← Nat.pow_add]
      congr 1
      omega
    have hext := extension_iff (n - 7 * lead.length - 1) (by omega) (payload last) hlast
    rw [hpow, scaled_range (value_lt lead), lastGroup, ← hext]
    simp only [hlongest, true_and, not_or, ne_eq]
  · have hshort := width_of_shorter (Nat.lt_of_le_of_ne hlength hlongest)
    have hlow : -((64 : Nat) : Int) ≤ lastGroup last ∧ lastGroup last < (64 : Nat) := by
      unfold lastGroup
      split <;> omega
    have hpow : 128 ^ lead.length * 64 ≤ 2 ^ (n - 1) := by
      rw [pow_groups, show 64 = 2 ^ 6 from rfl, ← Nat.pow_add]
      exact Nat.pow_le_pow_right (by decide) (by omega)
    have hrange := (scaled_range (value_lt lead) (lastGroup last) 64).mpr hlow
    simp only [hlongest, false_and, false_iff, Decidable.not_not]
    omega

/-! ## Signs -/

/-- Numbers that differ by a multiple of `2 ^ n` have the same `n` bits. -/
theorem ofInt_eq_of_dvd {x y : Int} (h : ((2 ^ n : Nat) : Int) ∣ x - y) :
    BitVec.ofInt n x = BitVec.ofInt n y := by
  apply BitVec.eq_of_toNat_eq
  rw [BitVec.toNat_ofInt, BitVec.toNat_ofInt,
    Int.emod_eq_emod_iff_emod_sub_eq_zero.mpr (Int.emod_eq_zero_of_dvd h)]

theorem testBit_payload (b : UInt8) : (payload b).testBit 6 = true ↔ 64 ≤ payload b := by
  have hb := payload_lt b
  rw [Nat.testBit_eq_decide_div_mod_eq, decide_eq_true_iff]
  omega

theorem allOnes_eq (n : Nat) : BitVec.allOnes n = BitVec.ofNat n (2 ^ n - 1) := by
  apply BitVec.eq_of_toNat_eq
  rw [BitVec.toNat_allOnes, BitVec.toNat_ofNat, Nat.mod_eq_of_lt]
  exact Nat.sub_lt (Nat.two_pow_pos n) Nat.one_pos

/-- **The sign is copied** into the bits above the last group. -/
theorem extended_eq (lead : List UInt8) (last : UInt8) :
    (if 7 * lead.length + 7 < n ∧ (payload last).testBit 6 then
        BitVec.ofNat n (value (lead ++ [last])) ||| BitVec.allOnes n <<< (7 * lead.length + 7)
      else BitVec.ofNat n (value (lead ++ [last]))) =
      BitVec.ofInt n (signedValue (lead ++ [last])) := by
  have hvalue := value_lt (lead ++ [last])
  rw [List.length_append, List.length_singleton, pow_groups, Nat.mul_add, Nat.mul_one] at hvalue
  rw [signedValue_snoc, pow_groups, Nat.mul_add, Nat.mul_one, ← BitVec.ofInt_natCast]
  by_cases hsign : 64 ≤ payload last
  · rw [if_neg (Nat.not_lt.mpr hsign)]
    by_cases hspare : 7 * lead.length + 7 < n
    · -- Ones above the last group add up to the next power of two, less one.
      rw [if_pos ⟨hspare, (testBit_payload last).mpr hsign⟩, BitVec.ofInt_natCast,
        allOnes_eq, ofNat_or_shiftLeft hvalue, ← BitVec.ofInt_natCast]
      apply ofInt_eq_of_dvd
      refine ⟨(2 ^ (7 * lead.length + 7) : Nat), ?_⟩
      have hpos := Nat.two_pow_pos n
      rw [Nat.mul_sub, Nat.mul_one, ← Int.natCast_mul, Nat.mul_comm (2 ^ n)]
      have hle : 2 ^ (7 * lead.length + 7) ≤ 2 ^ (7 * lead.length + 7) * 2 ^ n :=
        Nat.le_mul_of_pos_right _ hpos
      omega
    · -- The sign is above the width of the integer, where nothing is left of it.
      rw [if_neg fun h => hspare h.1]
      apply ofInt_eq_of_dvd
      refine ⟨(2 ^ (7 * lead.length + 7 - n) : Nat), ?_⟩
      rw [← Int.natCast_mul, ← Nat.pow_add, Nat.add_sub_cancel' (Nat.le_of_not_lt hspare)]
      omega
  · rw [if_pos (Nat.lt_of_not_le hsign), if_neg fun h => hsign ((testBit_payload last).mp h.2)]
    simp

/-! ## Exactness -/

end Leb

namespace Decoder

open Leb

variable {n k : Nat}

/-- Bytes all of which say that another one follows. -/
theorem groups_of_endless (n : Nat) {s : Input} (h : ∀ b ∈ s.bytes, 128 ≤ b) :
    groups n s = .error ⟨.unexpectedEnd, s.offset + s.bytes.length⟩ := by
  have hcontinues : ∀ b ∈ s.bytes, continues b = true := fun b hb => decide_eq_true (h b hb)
  have htake : s.bytes.takeWhile continues = s.bytes := by
    have h : (s.bytes ++ []).takeWhile continues = s.bytes ++ [] := List.takeWhile_append_of_pos hcontinues
    rwa [List.append_nil] at h
  have hdrop : s.bytes.dropWhile continues = [] := by
    have h : (s.bytes ++ []).dropWhile continues = [] := List.dropWhile_append_of_pos hcontinues
    rwa [List.append_nil] at h
  simp only [groups, htake, hdrop, refuse_ended]

/-- Bytes that end as they should are taken off, if there are not too many of them. -/
theorem groups_of_ended (n : Nat) {lead : List UInt8} {last : UInt8} (hlead : ∀ b ∈ lead, 128 ≤ b)
    (hlast : last < 128) (rest : List UInt8) (offset : Nat) :
    groups n ⟨lead ++ [last] ++ rest, offset⟩ =
      if maxBytes n < lead.length + 1 then .error ⟨.integerTooLong, offset⟩
      else .ok ((lead, last), ⟨rest, offset + lead.length + 1⟩) := by
  have hlead : ∀ x ∈ lead, continues x = true := fun x hx => decide_eq_true (hlead x hx)
  have hlast : continues last = false := decide_eq_false (UInt8.not_le.mpr hlast)
  have htake : (lead ++ [last] ++ rest).takeWhile continues = lead := by
    rw [List.append_assoc, List.takeWhile_append_of_pos hlead]
    simp [hlast]
  have hdrop : (lead ++ [last] ++ rest).dropWhile continues = last :: rest := by
    rw [List.append_assoc, List.dropWhile_append_of_pos hlead]
    simp [hlast]
  simp only [groups, htake, hdrop]

/-- The bytes of one integer. -/
theorem reads_groups : Reads k (groups n) fun b p =>
    b = p.1 ++ [p.2] ∧ b.length ≤ maxBytes n ∧ (∀ x ∈ p.1, 128 ≤ x) ∧ p.2 < 128 where
  sound := by
    rintro s s' ⟨lead, last⟩ h
    simp only [groups] at h
    split at h
    · cases h
    · rename_i last' rest hdrop
      split at h
      · cases h
      · cases h
        have hsplit := List.takeWhile_append_dropWhile (p := continues) (l := s.bytes)
        rw [hdrop] at hsplit
        refine ⟨s.bytes.takeWhile continues ++ [last], ⟨rfl, ?_, ?_, ?_⟩, ?_, ?_⟩
        · rw [List.length_append, List.length_singleton]; omega
        · intro x hx; exact of_decide_eq_true (List.all_eq_true.mp List.all_takeWhile x hx)
        · have hhead := List.head?_dropWhile_not continues s.bytes
          rw [hdrop] at hhead
          simpa [continues] using hhead
        · rw [List.append_assoc]; exact hsplit.symm
        · rw [List.length_append, List.length_singleton, Nat.add_assoc]
  complete := by
    rintro b ⟨lead, last⟩ ⟨rfl, hlength, hlead, hlast⟩ - rest offset
    rw [List.length_append, List.length_singleton] at hlength
    rw [groups_of_ended n hlead hlast, if_neg (Nat.not_lt.mpr hlength), List.length_append,
      List.length_singleton, Nat.add_assoc]

/-- An unsigned integer of at least one bit is the number that its groups make up. -/
theorem reads_unsigned : Reads k (unsigned n) (Form.unsigned n) := by
  refine Reads.position_bind fun start => ?_
  refine (Reads.bind reads_groups fun p => Reads.ite (fun _ => Reads.fail _ _)
    fun _ => Reads.pure _).congr fun b x => ?_
  constructor
  · rintro ⟨⟨lead, last⟩, b, _, rfl, ⟨rfl, hlength, hlead, hlast⟩, ⟨-, h⟩ | ⟨hfits, rfl, rfl⟩⟩
    · exact h.elim
    · rw [List.length_append, List.length_singleton] at hlength
      have hrange : value (lead ++ [last]) < 2 ^ n :=
        Nat.lt_of_not_le fun h => hfits ((too_large_iff hlength).mpr h)
      rw [List.append_nil, joined_eq]
      refine ⟨⟨by rwa [List.length_append], lead, last, rfl, hlead, hlast⟩, ?_⟩
      rw [BitVec.toNat_ofNat, Nat.mod_eq_of_lt hrange]
  · rintro ⟨⟨hlength, lead, last, rfl, hlead, hlast⟩, hvalue⟩
    have hlength' := hlength
    rw [List.length_append, List.length_singleton] at hlength'
    refine ⟨(lead, last), _, [], (List.append_nil _).symm, ⟨rfl, hlength, hlead, hlast⟩,
      .inr ⟨fun hlarge => ?_, rfl, ?_⟩⟩
    · have h := (too_large_iff hlength').mp hlarge
      rw [hvalue] at h
      exact absurd x.isLt (Nat.not_lt.mpr h)
    · rw [joined_eq, hvalue, BitVec.ofNat_toNat, BitVec.setWidth_eq]

/-- An integer in range is the value of its bits. -/
theorem eq_toInt_iff (hn : 0 < n) {v : Int} {x : BitVec n} :
    v = x.toInt ↔ (-2 ^ (n - 1) ≤ v ∧ v < 2 ^ (n - 1)) ∧ x = BitVec.ofInt n v := by
  constructor
  · rintro rfl
    exact ⟨⟨x.le_toInt, x.toInt_lt⟩, BitVec.ofInt_toInt.symm⟩
  · rintro ⟨⟨hlow, hhigh⟩, rfl⟩
    exact (BitVec.toInt_ofInt_eq_self hn hlow hhigh).symm

/-- What is made of groups that are in range. -/
theorem signed_result (lead : List UInt8) (last : UInt8) :
    (if 7 * lead.length + 7 < n ∧ (payload last).testBit 6 then
        pure ((join 0 0 lead ||| BitVec.ofNat n (payload last) <<< (7 * lead.length)) |||
          BitVec.allOnes n <<< (7 * lead.length + 7))
      else pure (join 0 0 lead ||| BitVec.ofNat n (payload last) <<< (7 * lead.length))
      : Decoder (BitVec n)) = pure (BitVec.ofInt n (signedValue (lead ++ [last]))) := by
  rw [← extended_eq, joined_eq]
  split <;> rfl

/-- A signed integer is the number that its groups make up in two's complement. -/
theorem reads_signed (hn : 0 < n) : Reads k (signed n) (Form.signed n) := by
  refine Reads.position_bind fun start => ?_
  refine (Reads.bind (H := fun p b x => (¬ (p.1.length + 1 = maxBytes n ∧
      payload p.2 >>> (n - 7 * p.1.length - 1) ≠ 0 ∧
      payload p.2 >>> (n - 7 * p.1.length - 1) ≠ 127 >>> (n - 7 * p.1.length - 1))) ∧
      b = [] ∧ x = BitVec.ofInt n (signedValue (p.1 ++ [p.2])))
    reads_groups fun p => ?_).congr fun b x => ?_
  · have hresult := signed_result (n := n) p.1 p.2
    refine (Reads.ite (fun _ => Reads.fail _ _) fun _ => hresult ▸ Reads.pure _).congr fun b x => ?_
    constructor
    · rintro (⟨-, h⟩ | h)
      · exact h.elim
      · exact h
    · exact .inr
  · constructor
    · rintro ⟨⟨lead, last⟩, b, _, rfl, ⟨rfl, hlength, hlead, hlast⟩, hrange, rfl, rfl⟩
      have hlength' := hlength
      rw [List.length_append, List.length_singleton] at hlength'
      rw [List.append_nil]
      refine ⟨⟨hlength, lead, last, rfl, hlead, hlast⟩, (eq_toInt_iff hn).mpr ⟨?_, rfl⟩⟩
      exact Decidable.not_not.mp fun h => hrange ((out_of_range_iff hlength').mpr h)
    · rintro ⟨⟨hlength, lead, last, rfl, hlead, hlast⟩, hvalue⟩
      have hlength' := hlength
      rw [List.length_append, List.length_singleton] at hlength'
      obtain ⟨hrange, hx⟩ := (eq_toInt_iff hn).mp hvalue
      exact ⟨(lead, last), _, [], (List.append_nil _).symm, ⟨rfl, hlength, hlead, hlast⟩,
        fun h => (out_of_range_iff hlength').mp h hrange, rfl, hx⟩

end Decoder

end WasmCore
