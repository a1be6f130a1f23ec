import Mathlib.Data.Int.ModEq
import WasmCore.Exec.Step
import WasmCore.Proofs.Exec.Moves
import WasmCore.Proofs.Numeric.Words

/-!
# `Numeric.Instructions` — integer instructions as operations on integers

What the integer instructions do, in terms of the numbers that words stand for and of nothing else. An
instruction takes its operands off the stack and leaves its result there, or traps; whatever else is on
the machine makes no difference to it.

* `NumOp.Gives`: what an instruction makes of its operands, and `NumOp.Gives.iff_eq`: nothing else;
* `gives_intBinary`, `gives_intUnary`, `gives_intCompare`, …: each family of instructions;
* `ExactIntegers`, `ExactResizing`: **the mathematics of the instructions**;
* `integers_exact`: **they compute it, at both widths.**
-/

namespace WasmCore

-- Powers of numbers are those of the core library.
attribute [local instance (high)] instPowNat

open Width (Word)

variable {w : Width}

/-! ## Outcomes -/

/-- **What a number instruction makes of its operands**, which are given in the order in which they were
    pushed: it takes them off the stack and leaves a value in their place, or traps. The rest of the
    machine does not matter and stays as it is. -/
def NumOp.Gives (op : NumOp) (args : List Value) (outcome : Except Trap Value) : Prop :=
  ∀ (m : Machine) (below : Operands), m.stack = below.pushAll args.reverse →
    Exec.step (.numeric op) m =
      match outcome with
      | .ok v => .ok () { m with stack := below.push v }
      | .error t => .error t { m with stack := below }

/-- An instruction is described by what it does to the stack alone. -/
theorem NumOp.gives_of_eval {op : NumOp} {args : List Value} {outcome : Except Trap Value}
    (h : ∀ below : Operands, op.eval (below.pushAll args.reverse) =
      match outcome with
      | .ok v => .ok () (below.push v)
      | .error t => .error t below) : op.Gives args outcome := by
  intro m below hstack
  have heval := h below
  rw [← hstack] at heval
  cases outcome with
  | ok v => exact Exec.onStack_of_ok heval
  | error t => exact Exec.onStack_of_error heval

/-- An instruction makes one thing only of its operands. -/
theorem NumOp.Gives.iff_eq {op : NumOp} {args : List Value} {outcome other : Except Trap Value}
    (h : op.Gives args outcome) : op.Gives args other ↔ outcome = other := by
  constructor
  · intro h'
    let m : Machine :=
      { store := {}, fuel := none, stack := (∅ : Operands).pushAll args.reverse, code := [], labels := ∅,
        frames := ∅ }
    have heq := (h m ∅ rfl).symm.trans (h' m ∅ rfl)
    cases outcome <;> cases other <;> cases heq <;> rfl
  · rintro rfl
    exact h

/-! ## Families of instructions -/

theorem gives_intTest (a : w.Word) :
    (NumOp.intTest w).Gives [.int w a] (.ok (.ofBool (a = .ofNat 0))) :=
  NumOp.gives_of_eval fun below => Move.bind_of_ok (OperandM.popInt_push w a below)

theorem gives_intCompare (op : IntCompare) (a b : w.Word) :
    (NumOp.intCompare w op).Gives [.int w a, .int w b] (.ok (.ofBool (op.eval a b))) :=
  NumOp.gives_of_eval fun below =>
    (Move.bind_of_ok (OperandM.popInt_push w b (below.push _))).trans
      (Move.bind_of_ok (OperandM.popInt_push w a below))

theorem gives_intUnary (op : IntUnary) (a : w.Word) :
    (NumOp.intUnary w op).Gives [.int w a] (.ok (.int w (op.eval a))) :=
  NumOp.gives_of_eval fun below => Move.bind_of_ok (OperandM.popInt_push w a below)

theorem gives_intBinary (op : IntBinary) (a b : w.Word) :
    (NumOp.intBinary w op).Gives [.int w a, .int w b] ((op.eval a b).map (.int w)) := by
  apply NumOp.gives_of_eval
  intro below
  have h := NumOp.eval_intBinary w op a b below
  cases hx : op.eval a b with
  | ok x => rw [hx] at h; exact h
  | error t => rw [hx] at h; exact h

theorem gives_wrap (a : UInt64) : (NumOp.convert .wrap).Gives [.i64 a] (.ok (.i32 a.toUInt32)) :=
  NumOp.gives_of_eval fun _ => rfl

theorem gives_extend (s : Signedness) (a : UInt32) :
    (NumOp.convert (.extend s)).Gives [.i32 a] (.ok (.i64 (Word.extend32 s a))) :=
  NumOp.gives_of_eval fun _ => rfl

/-- An instruction on one operand leaves a result. -/
def IntUnary.Yields (op : IntUnary) (a r : w.Word) : Prop :=
  (NumOp.intUnary w op).Gives [.int w a] (.ok (.int w r))

/-- An instruction on two operands leaves a result. -/
def IntBinary.Yields (op : IntBinary) (a b r : w.Word) : Prop :=
  (NumOp.intBinary w op).Gives [.int w a, .int w b] (.ok (.int w r))

/-- An instruction on two operands traps. -/
def IntBinary.Traps (op : IntBinary) (a b : w.Word) (t : Trap) : Prop :=
  (NumOp.intBinary w op).Gives [.int w a, .int w b] (.error t)

theorem IntBinary.yields_of_eval {op : IntBinary} {a b r : w.Word} (h : op.eval a b = .ok r) :
    op.Yields a b r := by
  have hgives := gives_intBinary op a b
  rw [h] at hgives
  exact hgives

theorem IntBinary.traps_iff {op : IntBinary} {a b : w.Word} {t : Trap} :
    op.Traps a b t ↔ op.eval a b = .error t := by
  refine (gives_intBinary op a b).iff_eq.trans ?_
  cases op.eval a b with
  | ok x => simp [Except.map]
  | error t' => simp [Except.map]

/-- The relation between numbers that a comparison tests. -/
def IntCompare.Holds (op : IntCompare) (a b : w.Word) : Prop :=
  match op with
  | eq => a.toNat = b.toNat
  | ne => a.toNat ≠ b.toNat
  | lt s => s.read a < s.read b
  | gt s => s.read a > s.read b
  | le s => s.read a ≤ s.read b
  | ge s => s.read a ≥ s.read b

theorem IntCompare.eval_iff (op : IntCompare) (a b : w.Word) : op.eval a b = true ↔ op.Holds a b := by
  cases op with
  | eq => exact decide_eq_true_iff.trans Word.toNat_inj.symm
  | ne => exact decide_eq_true_iff.trans (not_congr Word.toNat_inj.symm)
  | lt s => exact below_iff s a b
  | gt s => exact below_iff s b a
  | le s =>
    show (!below s b a) = true ↔ s.read a ≤ s.read b
    rw [Bool.not_eq_true', ← Bool.not_eq_true, below_iff, Int.not_lt]
  | ge s =>
    show (!below s a b) = true ↔ s.read b ≤ s.read a
    rw [Bool.not_eq_true', ← Bool.not_eq_true, below_iff, Int.not_lt]

/-- The outcome of a test is one or zero. -/
theorem ofBool_eq_iff {p : Prop} {b : Bool} (h : b = true ↔ p) :
    ((.ok (.ofBool b) : Except Trap Value) = .ok (.i32 1) ↔ p) ∧
      ((.ok (.ofBool b) : Except Trap Value) = .ok (.i32 0) ↔ ¬p) := by
  rw [← h]
  cases b <;> decide

/-! ## Division -/

theorem divide_signed_eq (a b : w.Word) :
    (IntBinary.div .signed).eval a b =
      if b.toInt = 0 then .error .divideByZero
      else if a.toInt = -2 ^ (w.bits - 1) ∧ b.toInt = -1 then .error .integerOverflow
      else .ok (a.sdiv b) := by
  simp only [IntBinary.eval, divide, ← Word.toInt_inj, Word.toInt_zero, Word.toInt_intMin,
    Word.toInt_allOnes]

theorem remainder_signed_eq (a b : w.Word) :
    (IntBinary.rem .signed).eval a b =
      if b.toInt = 0 then .error .divideByZero else .ok (a.srem b) := by
  simp only [IntBinary.eval, remainder, ← Word.toInt_inj, Word.toInt_zero]

theorem divide_unsigned_eq (a b : w.Word) :
    (IntBinary.div .unsigned).eval a b =
      if b.toNat = 0 then .error .divideByZero else .ok (a.udiv b) := by
  simp only [IntBinary.eval, divide, ← Word.toNat_inj, Word.toNat_zero]

theorem remainder_unsigned_eq (a b : w.Word) :
    (IntBinary.rem .unsigned).eval a b =
      if b.toNat = 0 then .error .divideByZero else .ok (a.umod b) := by
  simp only [IntBinary.eval, remainder, ← Word.toNat_inj, Word.toNat_zero]

/-- An instruction that refuses one kind of operands traps on these and in this way alone. -/
theorem IntBinary.traps_iff_of_ite {op : IntBinary} {a b r : w.Word} {p : Prop} [Decidable p] {t t' : Trap}
    (h : op.eval a b = if p then .error t else .ok r) : op.Traps a b t' ↔ t' = t ∧ p := by
  rw [traps_iff, h]
  by_cases hp : p
  · simp [hp, eq_comm]
  · simp [hp]

/-- What a remainder is. -/
theorem tmod_spec {a b : Int} (hb : b ≠ 0) :
    a = b * a.tdiv b + a.tmod b ∧ (a.tmod b).natAbs < b.natAbs ∧
      (a.tmod b = 0 ∨ (a.tmod b).sign = a.sign) := by
  refine ⟨(Int.mul_tdiv_add_tmod a b).symm, ?_, ?_⟩
  · rw [Int.natAbs_tmod]
    exact Nat.mod_lt _ (Int.natAbs_pos.mpr hb)
  · by_cases hdvd : b ∣ a
    · exact .inl (Int.tmod_eq_zero_of_dvd hdvd)
    · right
      rw [Int.sign_tmod, if_neg hdvd]

/-! ## All integer instructions -/

/-- **The mathematics of the integer instructions** of a width of `n` bits. -/
structure ExactIntegers (w : Width) : Prop where
  /-- Sums, differences and products are exact modulo `2 ^ n`, with and without a sign. -/
  add : ∀ a b : w.Word, ∃ r, IntBinary.add.Yields a b r ∧
    ∀ s : Signedness, s.read r ≡ s.read a + s.read b [ZMOD 2 ^ w.bits]
  sub : ∀ a b : w.Word, ∃ r, IntBinary.sub.Yields a b r ∧
    ∀ s : Signedness, s.read r ≡ s.read a - s.read b [ZMOD 2 ^ w.bits]
  mul : ∀ a b : w.Word, ∃ r, IntBinary.mul.Yields a b r ∧
    ∀ s : Signedness, s.read r ≡ s.read a * s.read b [ZMOD 2 ^ w.bits]
  /-- Signed division has no result for a zero divisor, nor if the quotient is `2 ^ (n - 1)`. -/
  div_s_zero : ∀ a b : w.Word, (IntBinary.div .signed).Traps a b .divideByZero ↔ b.toInt = 0
  div_s_overflow : ∀ a b : w.Word, (IntBinary.div .signed).Traps a b .integerOverflow ↔
    a.toInt = -2 ^ (w.bits - 1) ∧ b.toInt = -1
  /-- Otherwise it gives the quotient, rounded toward zero. -/
  div_s : ∀ a b : w.Word, b.toInt ≠ 0 → ¬ (a.toInt = -2 ^ (w.bits - 1) ∧ b.toInt = -1) →
    ∃ r, (IntBinary.div .signed).Yields a b r ∧ r.toInt = a.toInt.tdiv b.toInt
  /-- The signed remainder goes with that quotient, also where the quotient does not fit. -/
  rem_s_trap : ∀ (a b : w.Word) (t : Trap),
    (IntBinary.rem .signed).Traps a b t ↔ t = .divideByZero ∧ b.toInt = 0
  rem_s : ∀ a b : w.Word, b.toInt ≠ 0 → ∃ r, (IntBinary.rem .signed).Yields a b r ∧
    a.toInt = b.toInt * a.toInt.tdiv b.toInt + r.toInt ∧ r.toInt.natAbs < b.toInt.natAbs ∧
    (r.toInt = 0 ∨ r.toInt.sign = a.toInt.sign)
  rem_s_overflow : (IntBinary.rem .signed).Yields (.intMin : w.Word) .allOnes (.ofNat 0)
  /-- Division without a sign is Euclidean. -/
  div_u_trap : ∀ (a b : w.Word) (t : Trap),
    (IntBinary.div .unsigned).Traps a b t ↔ t = .divideByZero ∧ b.toNat = 0
  rem_u_trap : ∀ (a b : w.Word) (t : Trap),
    (IntBinary.rem .unsigned).Traps a b t ↔ t = .divideByZero ∧ b.toNat = 0
  div_u : ∀ a b : w.Word, b.toNat ≠ 0 → ∃ q r, (IntBinary.div .unsigned).Yields a b q ∧
    (IntBinary.rem .unsigned).Yields a b r ∧ a.toNat = b.toNat * q.toNat + r.toNat ∧ r.toNat < b.toNat
  /-- Shifts and rotations go by the second operand modulo `n`. -/
  shl : ∀ a b : w.Word, ∃ r, IntBinary.shl.Yields a b r ∧
    r.toNat = a.toNat * 2 ^ (b.toNat % w.bits) % 2 ^ w.bits
  shr_u : ∀ a b : w.Word, ∃ r, (IntBinary.shr .unsigned).Yields a b r ∧
    r.toNat = a.toNat / 2 ^ (b.toNat % w.bits)
  shr_s : ∀ a b : w.Word, ∃ r, (IntBinary.shr .signed).Yields a b r ∧
    r.toInt = a.toInt / 2 ^ (b.toNat % w.bits)
  rotl : ∀ a b : w.Word, ∃ r, IntBinary.rotl.Yields a b r ∧ ∀ i < w.bits,
    r.toNat.testBit ((i + b.toNat % w.bits) % w.bits) = a.toNat.testBit i
  rotr : ∀ a b : w.Word, ∃ r, IntBinary.rotr.Yields a b r ∧ ∀ i < w.bits,
    r.toNat.testBit i = a.toNat.testBit ((i + b.toNat % w.bits) % w.bits)
  /-- Zeros are counted from the highest bit down, or from the lowest bit up, to the first one. -/
  clz : ∀ a : w.Word, ∃ r, IntUnary.clz.Yields a r ∧
    r.toNat = ((lowBits w.bits a.toNat).reverse.takeWhile (! ·)).length
  ctz : ∀ a : w.Word, ∃ r, IntUnary.ctz.Yields a r ∧
    r.toNat = ((lowBits w.bits a.toNat).takeWhile (! ·)).length
  popcnt : ∀ a : w.Word, ∃ r, IntUnary.popcnt.Yields a r ∧
    r.toNat = (lowBits w.bits a.toNat).count true
  clz_zero : IntUnary.clz.Yields (.ofNat 0 : w.Word) (.ofNat w.bits)
  ctz_zero : IntUnary.ctz.Yields (.ofNat 0 : w.Word) (.ofNat w.bits)
  /-- Tests and comparisons give one where the relation holds and zero where it does not. -/
  test : ∀ a : w.Word,
    ((NumOp.intTest w).Gives [.int w a] (.ok (.i32 1)) ↔ a.toNat = 0) ∧
    ((NumOp.intTest w).Gives [.int w a] (.ok (.i32 0)) ↔ a.toNat ≠ 0)
  compare : ∀ (op : IntCompare) (a b : w.Word),
    ((NumOp.intCompare w op).Gives [.int w a, .int w b] (.ok (.i32 1)) ↔ op.Holds a b) ∧
    ((NumOp.intCompare w op).Gives [.int w a, .int w b] (.ok (.i32 0)) ↔ ¬ op.Holds a b)

/-- **The mathematics of the changes of width.** -/
structure ExactResizing : Prop where
  /-- Wrapping keeps the number modulo `2 ^ 32`. -/
  wrap : ∀ a : UInt64, ∃ r : UInt32, (NumOp.convert .wrap).Gives [.i64 a] (.ok (.i32 r)) ∧
    ∀ s : Signedness, s.read (w := .w32) r ≡ s.read (w := .w64) a [ZMOD 2 ^ 32]
  /-- Extending keeps the number that is read with or without the sign, so modulo `2 ^ 64` too. -/
  extend : ∀ (s : Signedness) (a : UInt32), ∃ r : UInt64,
    (NumOp.convert (.extend s)).Gives [.i32 a] (.ok (.i64 r)) ∧
    s.read (w := .w64) r = s.read (w := .w32) a ∧
    ∀ s' : Signedness, s'.read (w := .w64) r ≡ s.read (w := .w32) a [ZMOD 2 ^ 64]

/-- A count of bits fits in a word. -/
theorem IntUnary.yields_count {op : IntUnary} {a : w.Word} {count : Nat} (h : op.eval a = .ofNat count)
    (hcount : count ≤ w.bits) : ∃ r, op.Yields a r ∧ r.toNat = count := by
  have hfits : count < 2 ^ w.bits := Nat.lt_of_le_of_lt hcount Nat.lt_two_pow_self
  exact ⟨op.eval a, gives_intUnary op a, by rw [h, Word.toNat_ofNat_of_lt hfits]⟩

theorem leadingZeros_le (count n : Nat) : leadingZeros count n ≤ count := by
  unfold leadingZeros
  split <;> omega

/-- The integer instructions of one width. -/
theorem exactIntegers (w : Width) : ExactIntegers w where
  add a b := ⟨a.add b, IntBinary.yields_of_eval rfl, fun s => s.read_add a b⟩
  sub a b := ⟨a.sub b, IntBinary.yields_of_eval rfl, fun s => s.read_sub a b⟩
  mul a b := ⟨a.mul b, IntBinary.yields_of_eval rfl, fun s => s.read_mul a b⟩
  div_s_zero := by
    intro a b
    rw [IntBinary.traps_iff, divide_signed_eq]
    split
    · simp [*]
    · split <;> simp [*]
  div_s_overflow := by
    intro a b
    rw [IntBinary.traps_iff, divide_signed_eq]
    split
    · -- a zero divisor is not minus one
      simp [*]
    · split <;> simp [*]
  div_s := by
    intro a b hb hfits
    refine ⟨a.sdiv b, IntBinary.yields_of_eval ?_, ?_⟩
    · rw [divide_signed_eq, if_neg hb, if_neg hfits]
    · apply Word.toInt_sdiv
      rwa [← Word.toInt_inj, ← Word.toInt_inj, Word.toInt_intMin, Word.toInt_allOnes]
  rem_s_trap _ _ _ := IntBinary.traps_iff_of_ite (remainder_signed_eq _ _)
  rem_s := by
    intro a b hb
    refine ⟨a.srem b, IntBinary.yields_of_eval ?_, ?_⟩
    · rw [remainder_signed_eq, if_neg hb]
    · rw [Word.toInt_srem]
      exact tmod_spec hb
  rem_s_overflow := by
    apply IntBinary.yields_of_eval
    rw [remainder_signed_eq, if_neg (by simp)]
    congr 1
    rw [← Word.toInt_inj, Word.toInt_srem, Word.toInt_allOnes, Word.toInt_zero, Int.tmod_neg,
      Int.tmod_one]
  div_u_trap _ _ _ := IntBinary.traps_iff_of_ite (divide_unsigned_eq _ _)
  rem_u_trap _ _ _ := IntBinary.traps_iff_of_ite (remainder_unsigned_eq _ _)
  div_u := by
    intro a b hb
    refine ⟨a.udiv b, a.umod b, IntBinary.yields_of_eval ?_, IntBinary.yields_of_eval ?_, ?_, ?_⟩
    · rw [divide_unsigned_eq, if_neg hb]
    · rw [remainder_unsigned_eq, if_neg hb]
    · rw [Word.toNat_udiv, Word.toNat_umod]
      exact (Nat.div_add_mod _ _).symm
    · rw [Word.toNat_umod]
      exact Nat.mod_lt _ (Nat.pos_of_ne_zero hb)
  shl a b := ⟨a.shl b, IntBinary.yields_of_eval rfl, a.toNat_shl b⟩
  shr_u a b := ⟨a.shr b, IntBinary.yields_of_eval rfl, a.toNat_shr b⟩
  shr_s a b := ⟨a.sar b, IntBinary.yields_of_eval rfl, a.toInt_sar b⟩
  rotl a b := ⟨a.rotl b, IntBinary.yields_of_eval rfl, fun _ hi => a.testBit_rotl b hi⟩
  rotr a b := ⟨a.rotr b, IntBinary.yields_of_eval rfl, fun _ hi => a.testBit_rotr b hi⟩
  clz := by
    intro a
    rw [← leadingZeros_eq a.toNat_lt]
    exact IntUnary.yields_count rfl (leadingZeros_le _ _)
  ctz := by
    intro a
    rw [← trailingZeros_eq]
    exact IntUnary.yields_count rfl (trailingZeros_le _ _)
  popcnt := by
    intro a
    rw [← onesCount_eq]
    exact IntUnary.yields_count rfl (onesCount_le _ _)
  clz_zero := by
    have hgives := gives_intUnary .clz (.ofNat 0 : w.Word)
    rwa [IntUnary.eval, Word.toNat_zero, leadingZeros_zero] at hgives
  ctz_zero := by
    have hgives := gives_intUnary .ctz (.ofNat 0 : w.Word)
    rwa [IntUnary.eval, Word.toNat_zero, trailingZeros_zero] at hgives
  test := by
    intro a
    rw [(gives_intTest a).iff_eq, (gives_intTest a).iff_eq]
    apply ofBool_eq_iff
    rw [decide_eq_true_iff, ← Word.toNat_inj, Word.toNat_zero]
  compare := by
    intro op a b
    rw [(gives_intCompare op a b).iff_eq, (gives_intCompare op a b).iff_eq]
    exact ofBool_eq_iff (op.eval_iff a b)

/-- **Integer instructions compute the mathematics of integers**, at both widths and from one to the
    other. -/
theorem integers_exact : (∀ w, ExactIntegers w) ∧ ExactResizing := by
  refine ⟨exactIntegers, ?_, ?_⟩
  · intro a
    exact ⟨a.toUInt32, gives_wrap a, fun s => s.read_toUInt32 a⟩
  · intro s a
    have hread := s.read_extend32 a
    refine ⟨Word.extend32 s a, gives_extend s a, hread, fun s' => ?_⟩
    have hmod := (s'.read_modEq (w := .w64) (Word.extend32 s a)).trans (s.read_modEq (w := .w64) _).symm
    rwa [hread] at hmod

end WasmCore
