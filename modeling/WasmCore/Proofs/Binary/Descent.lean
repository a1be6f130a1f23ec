import WasmCore.Proofs.Binary.Expressions

/-!
# `Binary.Descent` — expressions by recursive descent

The grammar of expressions is recursive, and the parser that follows it calls itself for every body: a
body ends with `0x0b`, and the first one of a conditional may end with `0x05` instead, after which a
second one begins. The decoder goes through the bytes without calling itself and keeps blocks that are
half done on a list. On every input the two come to the same: the same expression with the same rest, or
the same error at the same place.

* `Decoder.NeverLonger`: no decoder leaves more than there was, so that a descent ends;
* `Descent.readInstr`, `Descent.readBody`: **the parser that calls itself**;
* `Descent.instr_eq`, `Descent.body_eq`: how it goes on, as decoders;
* `Descent.finish`, `Descent.resume`: a list of open blocks as what is left to do of a descent;
* `Descent.resume_opcode`, `Decoder.exprFrom_eq_resume`: **one opcode at a time**, then the whole run;
* `Decoder.expr_eq_descent`: **the decoder is the parser.**
-/

namespace WasmCore

namespace Decoder

variable {α : Type}

/-- **A decoder never leaves more than there was.** -/
def NeverLonger (d : Decoder α) : Prop :=
  ∀ ⦃s x s'⦄, d s = .ok (x, s') → s'.bytes.length ≤ s.bytes.length

theorem Reads.neverLonger {n : Nat} {d : Decoder α} {F : Form α} (hd : Reads n d F) :
    NeverLonger d := by
  intro s x s' h
  obtain ⟨b, -, hs, -⟩ := hd.sound h
  rw [hs, List.length_append]
  exact Nat.le_add_left _ _

/-- An instruction without bodies, whose opcode has been read at the given place. -/
def plainAt (start : Nat) (code : UInt8) : Decoder Instr :=
  match Opcode.ofByte? code with
  | some (.plain m) => plain m
  | _ => failAt start (.unknownOpcode code)

theorem neverLonger_plainAt (start : Nat) (code : UInt8) : NeverLonger (plainAt start code) := by
  unfold plainAt
  split
  · exact (reads_plain (n := 0) _).neverLonger
  · exact (Reads.fail (n := 0) start _).neverLonger

theorem neverLonger_blockType : NeverLonger blockType := (reads_blockType (n := 0)).neverLonger

/-- What follows on such a decoder only matters on inputs of the size there was. -/
theorem NeverLonger.bind_congr {β : Type} {d : Decoder α} {f g : α → Decoder β} {s : Input} {n : Nat}
    (hd : NeverLonger d) (hs : s.bytes.length ≤ n)
    (h : ∀ a s', s'.bytes.length ≤ n → f a s' = g a s') : (d >>= f) s = (d >>= g) s := by
  show Except.bind (d s) _ = Except.bind (d s) _
  cases hrun : d s with
  | error e => rfl
  | ok p => exact h p.1 p.2 (Nat.le_trans (hd hrun) hs)

end Decoder

/-- The block that a first byte opens. -/
def BlockForm.ofByte? (code : UInt8) : Option BlockForm :=
  if code = 0x02 then some .block
  else if code = 0x03 then some .loop
  else if code = 0x04 then some .ifThen
  else none

theorem BlockForm.ofByte?_eq_some_iff {code : UInt8} {form : BlockForm} :
    ofByte? code = some form ↔ Opcode.ofByte? code = some (.opening form) := by
  rw [Opcode.ofByte?_eq_some_iff]
  cases form <;> grind [ofByte?, Opcode.byte, BlockForm.opcode]

namespace Descent

open Decoder

/-! ## The parser -/

/-- The mark that ends a body. -/
inductive Mark
  | endMark
  | elseMark

/-- Runs a decoder that never leaves more than there was. -/
def run {α : Type} (d : Decoder α) (hd : NeverLonger d) (s : Input) :
    Except DecodeError (α × { r : Input // r.bytes.length ≤ s.bytes.length }) :=
  match h : d s with
  | .ok (x, r) => .ok (x, ⟨r, hd h⟩)
  | .error e => .error e

mutual

/-- **Reads an instruction** behind its opcode, which stood at the given place inside so many blocks. -/
def readInstr (depth start : Nat) (code : UInt8) (s : Input) :
    Except DecodeError (Instr × { r : Input // r.bytes.length ≤ s.bytes.length }) :=
  match BlockForm.ofByte? code with
  | none => run (plainAt start code) (neverLonger_plainAt start code) s
  | some form =>
    if 1024 ≤ depth then
      .error ⟨.nestingTooDeep 1024, start⟩
    else do
      let (t, ⟨s₁, h₁⟩) ← run blockType neverLonger_blockType s
      let ((is, mark), ⟨s₂, h₂⟩) ← readBody (depth + 1) (form = .ifThen) s₁
      match form, mark with
      | .ifThen, .elseMark =>
        let ((alternate, _), ⟨s₃, h₃⟩) ← readBody (depth + 1) false s₂
        return (.ifElse t is alternate, ⟨s₃, by omega⟩)
      | form, _ => return ((form.start t).close is, ⟨s₂, by omega⟩)
termination_by 2 * s.bytes.length + 1

/-- **Reads a body** up to and including the mark that ends it. Only the first body of a conditional
    may end with `0x05`. -/
def readBody (depth : Nat) (firstArm : Bool) (s : Input) :
    Except DecodeError ((List Instr × Mark) × { r : Input // r.bytes.length < s.bytes.length }) :=
  match hs : s.bytes with
  | [] => .error ⟨.unexpectedEnd, s.offset⟩
  | code :: bytes =>
    if code = 0x0b then
      .ok (([], .endMark), ⟨⟨bytes, s.offset + 1⟩, Nat.lt_succ_self _⟩)
    else if code = 0x05 then
      if firstArm then .ok (([], .elseMark), ⟨⟨bytes, s.offset + 1⟩, Nat.lt_succ_self _⟩)
      else .error ⟨.unexpectedElse, s.offset⟩
    else do
      have hlength : bytes.length < s.bytes.length := by rw [hs]; exact Nat.lt_succ_self _
      let (i, ⟨s₁, h₁⟩) ← readInstr depth s.offset code ⟨bytes, s.offset + 1⟩
      have hs₁ : s₁.bytes.length < s.bytes.length := Nat.lt_of_le_of_lt h₁ hlength
      let ((is, mark), ⟨s₂, h₂⟩) ← readBody depth firstArm s₁
      return ((i :: is, mark), ⟨s₂, Nat.lt_succ_of_lt (Nat.lt_of_lt_of_le h₂ h₁)⟩)
termination_by 2 * s.bytes.length

end

/-! ## The parser as decoders -/

section Decoders

variable {α β : Type} {P Q : Input → Prop}

/-- A value and what is left, when it no longer matters how much that is. -/
def forget : Except DecodeError (α × { r : Input // P r }) → Except DecodeError (α × Input)
  | .ok (x, r) => .ok (x, r.1)
  | .error e => .error e

theorem forget_run (d : Decoder α) (hd : NeverLonger d) (s : Input) : forget (run d hd s) = d s := by
  unfold run
  split
  · next h => exact h.symm
  · next h => exact h.symm

/-- In a sequence, it does not matter how much is left. -/
theorem forget_bind {d : Decoder α} {g : α → Decoder β} {s : Input}
    {x : Except DecodeError (α × { r : Input // P r })}
    {f : α × { r : Input // P r } → Except DecodeError (β × { r : Input // Q r })}
    (hd : forget x = d s) (hg : ∀ a r, forget (f (a, r)) = g a r.1) :
    forget (x >>= f) = (d >>= g) s := by
  show _ = Except.bind (d s) fun p => g p.1 p.2
  rw [← hd]
  cases x with
  | error e => rfl
  | ok p => exact hg p.1 p.2

end Decoders

/-- An instruction behind its opcode. -/
def instr (depth start : Nat) (code : UInt8) : Decoder Instr :=
  fun s => forget (readInstr depth start code s)

/-- A body and the mark that ends it. -/
def body (depth : Nat) (firstArm : Bool) : Decoder (List Instr × Mark) :=
  fun s => forget (readBody depth firstArm s)

/-- A whole expression, whose mark is `0x0b`. -/
def expr : Decoder Expr := do
  let (is, _) ← body 0 false
  return is

/-- **How the parser reads an instruction.** -/
theorem instr_eq (depth start : Nat) (code : UInt8) :
    instr depth start code = match BlockForm.ofByte? code with
      | none => plainAt start code
      | some form =>
        if 1024 ≤ depth then
          failAt start (.nestingTooDeep 1024)
        else do
          let t ← blockType
          let (is, mark) ← body (depth + 1) (form = .ifThen)
          match form, mark with
          | .ifThen, .elseMark =>
            let (alternate, _) ← body (depth + 1) false
            return .ifElse t is alternate
          | form, _ => return (form.start t).close is := by
  funext s
  unfold instr
  rw [readInstr]
  cases BlockForm.ofByte? code with
  | none => exact forget_run _ _ s
  | some form =>
    dsimp only
    by_cases hdepth : 1024 ≤ depth
    · rw [if_pos hdepth, if_pos hdepth]
      rfl
    · rw [if_neg hdepth, if_neg hdepth]
      refine forget_bind (forget_run _ _ s) fun t s₁ => ?_
      refine forget_bind (d := body _ _) rfl fun ⟨is, mark⟩ s₂ => ?_
      cases form with
      | ifThen =>
        cases mark with
        | endMark => rfl
        | elseMark => exact forget_bind (d := body _ _) rfl fun ⟨alternate, _⟩ s₃ => rfl
      | _ => rfl

/-- **How the parser reads a body.** -/
theorem body_eq (depth : Nat) (firstArm : Bool) :
    body depth firstArm = do
      let start ← position
      let code ← byte
      if code = 0x0b then
        return ([], .endMark)
      else if code = 0x05 then
        if firstArm then return ([], .elseMark) else failAt start .unexpectedElse
      else
        let i ← instr depth start code
        let (is, mark) ← body depth firstArm
        return (i :: is, mark) := by
  funext s
  obtain ⟨bytes, offset⟩ := s
  show forget (readBody depth firstArm ⟨bytes, offset⟩) = _
  rw [readBody]
  cases bytes with
  | nil => rfl
  | cons code bytes =>
    rw [bind_of_ok (d := position) rfl, bind_of_ok (byte_cons code bytes offset)]
    dsimp only
    split
    · rfl
    · split
      · split
        · rfl
        · rfl
      · refine forget_bind (d := instr _ _ _) rfl fun i s₁ => ?_
        exact forget_bind (d := body _ _) rfl fun ⟨is, mark⟩ s₂ => rfl

/-! ## Open blocks -/

/-- Whether the innermost open block is a conditional in its first body. -/
def inFirstArm : List OpenBlock → Bool
  | ⟨.ifThen _, _⟩ :: _ => true
  | _ => false

/-- **What is left to do of a descent** when the innermost body has been read with its mark. -/
def finish : List OpenBlock → List Instr → Mark → Decoder Expr
  | [], is, _ => return is
  | ⟨.ifThen t, outer⟩ :: opened, is, .elseMark => do
    let (alternate, _) ← body (opened.length + 1) false
    let (after, mark) ← body opened.length (inFirstArm opened)
    finish opened ((.ifElse t is alternate :: outer).reverse ++ after) mark
  | ⟨form, outer⟩ :: opened, is, _ => do
    let (after, mark) ← body opened.length (inFirstArm opened)
    finish opened ((form.close is :: outer).reverse ++ after) mark

/-- What is left to do of a descent in the middle of a body. -/
def resume (opened : List OpenBlock) (before : List Instr) : Decoder Expr := do
  let (is, mark) ← body opened.length (inFirstArm opened)
  finish opened (before.reverse ++ is) mark

variable {opened : List OpenBlock} {before outer is : List Instr}

theorem finish_close (form : OpenForm) :
    finish (⟨form, outer⟩ :: opened) is .endMark = resume opened (form.close is :: outer) := by
  cases form <;> rfl

/-- The second body of a conditional is a body like others, except that only `0x0b` ends it. -/
theorem finish_alternate (t : BlockType) :
    finish (⟨.ifThen t, outer⟩ :: opened) is .elseMark =
      resume (⟨.ifElse t is, outer⟩ :: opened) [] := rfl

theorem resume_nil (offset : Nat) :
    resume opened before ⟨[], offset⟩ = .error ⟨.unexpectedEnd, offset⟩ := by
  rw [resume, body_eq]
  rfl

/-- **A descent goes on by the next byte.** -/
theorem resume_cons (code : UInt8) (bytes : List UInt8) (offset : Nat) :
    resume opened before ⟨code :: bytes, offset⟩ =
      if code = 0x0b then finish opened before.reverse .endMark ⟨bytes, offset + 1⟩
      else if code = 0x05 then
        if inFirstArm opened then finish opened before.reverse .elseMark ⟨bytes, offset + 1⟩
        else .error ⟨.unexpectedElse, offset⟩
      else (instr opened.length offset code >>= fun i => resume opened (i :: before))
        ⟨bytes, offset + 1⟩ := by
  rw [resume, body_eq, bind_assoc, bind_of_ok (d := position) rfl, bind_assoc,
    bind_of_ok (byte_cons code bytes offset)]
  split
  · simp only [pure_bind, List.append_nil]
  · split
    · split
      · simp only [pure_bind, List.append_nil]
      · rfl
    · simp only [resume, bind_assoc, pure_bind, List.reverse_cons, List.append_assoc,
        List.singleton_append]

/-- **A block that is opened**: read in one go, or put on the list. -/
theorem instr_bind_resume {code : UInt8} {form : BlockForm} (hform : BlockForm.ofByte? code = some form)
    (hfree : ¬1024 ≤ opened.length) (start : Nat) :
    (instr opened.length start code >>= fun i => resume opened (i :: before)) =
      blockType >>= fun t => resume (⟨form.start t, before⟩ :: opened) [] := by
  rw [instr_eq, hform]
  dsimp only
  rw [if_neg hfree, bind_assoc]
  refine congrArg (blockType >>= ·) (funext fun t => ?_)
  have harm : inFirstArm (⟨form.start t, before⟩ :: opened) = decide (form = .ifThen) := by
    cases form <;> rfl
  rw [resume, harm, bind_assoc]
  refine congrArg (body _ _ >>= ·) (funext fun ⟨is, mark⟩ => ?_)
  cases form with
  | ifThen =>
    cases mark with
    | endMark => rfl
    | elseMark => exact bind_assoc _ _ _
  | _ => rfl

/-- A byte that opens no block is read as an instruction without bodies. -/
theorem instr_of_not_opening {code : UInt8}
    (h : ∀ form, Opcode.ofByte? code ≠ some (.opening form)) (depth start : Nat) :
    instr depth start code = plainAt start code := by
  have hform : BlockForm.ofByte? code = none :=
    Option.eq_none_iff_forall_ne_some.mpr fun form hform => h form (BlockForm.ofByte?_eq_some_iff.mp hform)
  rw [instr_eq, hform]

/-- **A descent goes on by what the next byte means.** -/
theorem resume_opcode (code : UInt8) (bytes : List UInt8) (offset : Nat) :
    resume opened before ⟨code :: bytes, offset⟩ =
      (match Opcode.ofByte? code with
        | none => failAt offset (.unknownOpcode code)
        | some (.opening form) =>
          if 1024 ≤ opened.length then failAt offset (.nestingTooDeep 1024)
          else blockType >>= fun t => resume (⟨form.start t, before⟩ :: opened) []
        | some .elseMark =>
          if inFirstArm opened then finish opened before.reverse .elseMark
          else failAt offset .unexpectedElse
        | some .endMark => finish opened before.reverse .endMark
        | some (.plain m) => plain m >>= fun i => resume opened (i :: before))
        ⟨bytes, offset + 1⟩ := by
  have hend : code = 0x0b ↔ Opcode.ofByte? code = some .endMark := by
    rw [Opcode.ofByte?_eq_some_iff]; rfl
  have helse : code = 0x05 ↔ Opcode.ofByte? code = some .elseMark := by
    rw [Opcode.ofByte?_eq_some_iff]; rfl
  simp only [resume_cons, hend, helse]
  cases hop : Opcode.ofByte? code with
  | none =>
    simp only [reduceCtorEq, if_false]
    rw [instr_of_not_opening (by simp [hop]), plainAt, hop]
    rfl
  | some op =>
    cases op with
    | opening form =>
      simp only [Option.some.injEq, reduceCtorEq, if_false]
      have hform : BlockForm.ofByte? code = some form := BlockForm.ofByte?_eq_some_iff.mpr hop
      by_cases hdepth : 1024 ≤ opened.length
      · rw [instr_eq, hform]
        simp only [if_pos hdepth]
        rfl
      · rw [if_neg hdepth, instr_bind_resume hform hdepth]
    | elseMark =>
      simp only [Option.some.injEq, reduceCtorEq, if_false, if_true]
      split
      · rfl
      · rfl
    | endMark => simp only [if_true]
    | plain m =>
      simp only [Option.some.injEq, reduceCtorEq, if_false]
      rw [instr_of_not_opening (by simp [hop]), plainAt, hop]

end Descent

/-! ## The decoder -/

namespace Decoder

/-- **A list of open blocks is what is left to do of a descent**, if the budget covers the bytes. -/
theorem exprFrom_eq_resume {budget : Nat} {opened : List OpenBlock} {before : List Instr} {s : Input}
    (hbudget : s.bytes.length ≤ budget) :
    exprFrom budget opened before s = Descent.resume opened before s := by
  induction budget generalizing opened before s with
  | zero =>
    obtain ⟨bytes, offset⟩ := s
    obtain rfl := List.length_eq_zero_iff.mp (Nat.le_zero.mp hbudget)
    exact (Descent.resume_nil offset).symm
  | succ budget ih =>
    obtain ⟨_ | ⟨code, bytes⟩, offset⟩ := s
    · exact (Descent.resume_nil offset).symm
    have hbytes : bytes.length ≤ budget := Nat.le_of_succ_le_succ hbudget
    unfold exprFrom
    rw [Descent.resume_opcode, bind_of_ok (d := position) rfl, bind_of_ok (byte_cons code bytes offset)]
    cases Opcode.ofByte? code with
    | none => rfl
    | some op =>
      cases op with
      | opening form =>
        by_cases hdepth : maxNesting ≤ opened.length
        · have hdepth' : 1024 ≤ opened.length := hdepth
          simp only [if_pos hdepth, if_pos hdepth']
          rfl
        · have hdepth' : ¬1024 ≤ opened.length := hdepth
          simp only [if_neg hdepth, if_neg hdepth']
          exact neverLonger_blockType.bind_congr hbytes fun t s' hs' => ih hs'
      | elseMark =>
        cases opened with
        | nil => rfl
        | cons block opened =>
          obtain ⟨form, outer⟩ := block
          cases form with
          | ifThen t =>
            have harm : Descent.inFirstArm (⟨.ifThen t, outer⟩ :: opened) = true := rfl
            dsimp only
            rw [if_pos harm, Descent.finish_alternate]
            exact ih hbytes
          | _ => rfl
      | endMark =>
        cases opened with
        | nil => rfl
        | cons block opened =>
          obtain ⟨form, outer⟩ := block
          dsimp only
          rw [Descent.finish_close]
          exact ih hbytes
      | plain m =>
        have hplain : NeverLonger (plain m) := (reads_plain (n := 0) m).neverLonger
        exact hplain.bind_congr hbytes fun i s' hs' => ih hs'

/-- **An expression is decoded as by recursive descent.** On every input, the decoder and the parser
    that calls itself give the same expression and leave the same rest, or stop for the same reason at
    the same place, with any budget that covers the bytes. What is read are the bytes of the
    instructions and the `0x0b` that ends them. -/
theorem expr_eq_descent (s : Input) :
    expr s = Descent.expr s ∧
    (∀ budget, s.bytes.length ≤ budget → exprWithin budget s = Descent.expr s) ∧
    ∀ e rest, Descent.expr s = .ok (e, rest) →
      ∃ b, Form.body b e ∧ s.bytes = b ++ 0x0b :: rest.bytes ∧
        rest.offset = s.offset + b.length + 1 := by
  have hwithin : ∀ budget, s.bytes.length ≤ budget → exprWithin budget s = Descent.expr s :=
    fun budget hbudget => exprFrom_eq_resume hbudget
  have hexpr : expr s = Descent.expr s := hwithin s.bytes.length (Nat.le_refl _)
  refine ⟨hexpr, hwithin, fun e rest h => ?_⟩
  obtain ⟨_, ⟨hbody, -⟩, hbytes, hoffset⟩ := (reads_expr (n := 0)).sound (hexpr.trans h)
  refine ⟨_, hbody, ?_, ?_⟩
  · rw [hbytes, List.append_assoc, List.singleton_append]
  · rw [hoffset, List.length_append, List.length_singleton, Nat.add_assoc]

end Decoder

end WasmCore
