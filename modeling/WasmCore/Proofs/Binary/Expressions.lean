import WasmCore.Proofs.Binary.Items
import WasmCore.Proofs.Binary.Opcodes

/-!
# `Binary.Expressions` — nested instructions, read with a list of open blocks

The decoder of expressions goes through the bytes once and keeps the blocks that are still open on a list.
The grammar nests instructions in each other. Between the two stands what a list of open blocks still asks
of the bytes: instructions up to the next mark, and then, for every open block from the inside out, the
rest of the block that surrounds it.

* `Completes`, `Closes`: what open blocks still ask for;
* `Completes.iff_after`: **one opcode at a time**;
* `reads_exprFrom`: the decoder, by induction on its budget;
* `reads_exprWithin`, `reads_expr`: whole expressions.
-/

namespace WasmCore

mutual

/-- What is left of an expression, given the open blocks and, in reverse order, the instructions since the
    last mark: further instructions of the innermost body, and what follows on them. -/
inductive Completes : List OpenBlock → List Instr → Form Expr
  | mk {opened : List OpenBlock} {before is : List Instr} {b₁ b₂ : List UInt8} {e : Expr} :
      Form.body b₁ is → opened.length + nestingOfBody is ≤ maxNesting →
      Closes opened (before.reverse ++ is) b₂ e → Completes opened before (b₁ ++ b₂) e

/-- What is left of an expression from a mark on, given the whole innermost body. -/
inductive Closes : List OpenBlock → List Instr → Form Expr
  | done {is : List Instr} : Closes [] is [0x0b] is
  | close {form : OpenForm} {outer is : List Instr} {opened : List OpenBlock} {b : List UInt8}
      {e : Expr} :
      Completes opened (form.close is :: outer) b e →
      Closes (⟨form, outer⟩ :: opened) is (0x0b :: b) e
  | alternate {t : BlockType} {outer is : List Instr} {opened : List OpenBlock} {b : List UInt8}
      {e : Expr} :
      Completes (⟨.ifElse t is, outer⟩ :: opened) [] b e →
      Closes (⟨.ifThen t, outer⟩ :: opened) is (0x05 :: b) e

end

variable {opened : List OpenBlock} {before outer is : List Instr} {b b₁ b₂ : List UInt8} {e : Expr}

namespace Completes

/-! ## One more instruction -/

/-- An instruction in front. -/
theorem prepend {i : Instr} (hi : Form.instr b₁ i) (hnesting : opened.length + i.nesting ≤ maxNesting)
    (h : Completes opened (i :: before) b₂ e) : Completes opened before (b₁ ++ b₂) e := by
  obtain ⟨hbody, hbound, hcloses⟩ := h
  rw [List.reverse_cons, List.append_assoc, List.singleton_append] at hcloses
  rw [← List.append_assoc]
  refine .mk (.cons hi hbody) ?_ hcloses
  rw [nestingOfBody]
  omega

/-- The mark stands right in front. -/
theorem of_closes (hopened : opened.length ≤ maxNesting) (h : Closes opened before.reverse b e) :
    Completes opened before b e := by
  rw [← List.nil_append b]
  refine .mk .nil ?_ ?_
  · rw [nestingOfBody]; exact hopened
  · rw [List.append_nil]; exact h

/-- A body, and the mark that closes the block around it. -/
theorem of_body {form : OpenForm} (hbody : Form.body b₁ is)
    (hbound : opened.length + 1 + nestingOfBody is ≤ maxNesting)
    (h : Completes opened (form.close is :: outer) b₂ e) :
    Completes (⟨form, outer⟩ :: opened) [] (b₁ ++ 0x0b :: b₂) e :=
  .mk hbody hbound (.close h)

/-! ## One opcode -/

/-- What is left of an expression behind an opcode. -/
def After (opened : List OpenBlock) (before : List Instr) : Opcode → Form Expr
  | .opening form, b, e => opened.length < maxNesting ∧ ∃ t b₁ b₂, b = b₁ ++ b₂ ∧
      Form.blockType b₁ t ∧ Completes (⟨form.start t, before⟩ :: opened) [] b₂ e
  | .elseMark, b, e => Closes opened before.reverse (0x05 :: b) e
  | .endMark, b, e => Closes opened before.reverse (0x0b :: b) e
  | .plain m, b, e => ∃ i b₁ b₂, b = b₁ ++ b₂ ∧
      Form.immediates m b₁ i ∧ Completes opened (i :: before) b₂ e

/-- Instructions without bodies are not nested. -/
theorem nesting_of_immediates {m : Mnemonic} {i : Instr} (h : Form.immediates m b i) : i.nesting = 0 := by
  cases h <;> rfl

/-- A block, its body and its end are one instruction. -/
theorem instr_close (form : BlockForm) {t : BlockType} (ht : Form.blockType b₁ t)
    (hbody : Form.body b₂ is) :
    Form.instr (form.opcode :: (b₁ ++ b₂ ++ [0x0b])) ((form.start t).close is) := by
  cases form with
  | block => exact .block ht hbody
  | loop => exact .loop ht hbody
  | ifThen => exact .ifThen ht hbody

theorem nesting_close (form : BlockForm) (t : BlockType) :
    ((form.start t).close is).nesting = 1 + nestingOfBody is := by
  cases form <;> exact Instr.nesting.eq_def _

/-- A block that has just been opened is completed by its body, or bodies, and is then one of the
    instructions around it. -/
theorem of_opening {form : BlockForm} {t : BlockType} (ht : Form.blockType b₁ t)
    (h : Completes (⟨form.start t, before⟩ :: opened) [] b₂ e) :
    Completes opened before (form.opcode :: (b₁ ++ b₂)) e := by
  obtain ⟨hbody, hbound, hcloses⟩ := h
  rw [List.length_cons] at hbound
  generalize hstart : form.start t = start at hcloses
  cases hcloses with
  | close h =>
    obtain rfl := hstart
    have hblock := prepend (instr_close form ht hbody) (by rw [nesting_close]; omega) h
    simpa only [List.cons_append, List.append_assoc, List.nil_append] using hblock
  | alternate h =>
    -- only a conditional has a second body
    cases form <;> cases hstart
    obtain ⟨hbody', hbound', ⟨⟩⟩ := h
    rename_i h
    rw [List.length_cons] at hbound'
    have hblock := prepend (.ifElse ht hbody hbody') (by rw [Instr.nesting]; omega) h
    simpa only [BlockForm.opcode, List.cons_append, List.append_assoc, List.nil_append] using hblock

/-- A body behind the opcode and the type of its block. -/
theorem after_opening {form : BlockForm} {t : BlockType} (ht : Form.blockType b₁ t)
    (hbody : Form.body b₂ is) (hbound : opened.length + (1 + nestingOfBody is) ≤ maxNesting)
    (h : Completes opened ((form.start t).close is :: before) b e) :
    After opened before (.opening form) (b₁ ++ b₂ ++ [0x0b] ++ b) e := by
  refine ⟨by omega, t, b₁, b₂ ++ 0x0b :: b, ?_, ht, of_body hbody (by omega) h⟩
  simp only [List.append_assoc, List.cons_append, List.nil_append]

/-- **The first opcode of what is left.** -/
theorem iff_after (hopened : opened.length ≤ maxNesting) :
    Completes opened before b e ↔
      ∃ code rest, b = code :: rest ∧ ∃ op, code = Opcode.byte op ∧ After opened before op rest e := by
  constructor
  · intro h
    obtain ⟨hbody, hbound, hcloses⟩ := h
    rename_i b₂
    cases hbody with
    | nil =>
      rw [List.append_nil] at hcloses
      cases hcloses with
      | done => exact ⟨_, [], rfl, .endMark, rfl, .done⟩
      | close h => exact ⟨_, _, rfl, .endMark, rfl, .close h⟩
      | alternate h => exact ⟨_, _, rfl, .elseMark, rfl, .alternate h⟩
    | @cons _ bs i is hi his =>
      rw [nestingOfBody] at hbound
      -- the first instruction joins those that were read already
      have hrest : Completes opened (i :: before) (bs ++ b₂) e := by
        refine .mk his (by omega) ?_
        rw [List.reverse_cons, List.append_assoc, List.singleton_append]
        exact hcloses
      rw [List.append_assoc]
      cases hi with
      | plain hi => exact ⟨_, _, rfl, .plain _, rfl, i, _, _, rfl, hi, hrest⟩
      | block ht hbody =>
        rw [Instr.nesting] at hbound
        exact ⟨_, _, rfl, .opening .block, rfl, after_opening ht hbody (by omega) hrest⟩
      | loop ht hbody =>
        rw [Instr.nesting] at hbound
        exact ⟨_, _, rfl, .opening .loop, rfl, after_opening ht hbody (by omega) hrest⟩
      | ifThen ht hbody =>
        rw [Instr.nesting] at hbound
        exact ⟨_, _, rfl, .opening .ifThen, rfl, after_opening ht hbody (by omega) hrest⟩
      | ifElse ht hbody halternate =>
        rw [Instr.nesting] at hbound
        rw [List.cons_append]
        refine ⟨_, _, rfl, .opening .ifThen, rfl, by omega, _, _, _, ?_, ht,
          .mk hbody ?_ (.alternate (of_body halternate (by omega) hrest))⟩
        · simp only [List.append_assoc, List.cons_append, List.nil_append]
        · rw [List.length_cons]; omega
  · rintro ⟨_, rest, rfl, op, rfl, h⟩
    cases op with
    | opening form =>
      obtain ⟨-, t, b₁, b₂, rfl, ht, h⟩ := h
      exact of_opening ht h
    | elseMark => exact of_closes hopened h
    | endMark => exact of_closes hopened h
    | plain m =>
      obtain ⟨i, b₁, b₂, rfl, hi, h⟩ := h
      refine prepend (.plain hi) ?_ h
      rw [nesting_of_immediates hi]
      exact hopened

end Completes

namespace Decoder

variable {n : Nat}

/-- An expression goes on behind an opcode. -/
theorem reads_after {code : UInt8} {op : Opcode} {d : Decoder Expr} (hop : Opcode.ofByte? code = some op)
    (hd : Reads n d (Completes.After opened before op)) :
    Reads n d fun b e => ∃ op, code = Opcode.byte op ∧ Completes.After opened before op b e := by
  obtain rfl := Opcode.ofByte?_eq_some_iff.mp hop
  refine hd.congr fun b e => ?_
  constructor
  · intro h; exact ⟨op, rfl, h⟩
  · rintro ⟨op', hop', h⟩
    rw [Opcode.ofByte?_eq_some_iff.mpr hop'] at hop
    cases hop
    exact h

/-- **The decoder with a list of open blocks** reads what they still ask for. -/
theorem reads_exprFrom (n : Nat) (opened : List OpenBlock) (before : List Instr)
    (hopened : opened.length ≤ maxNesting) :
    Reads n (exprFrom n opened before) (Completes opened before) := by
  induction n generalizing opened before with
  | zero =>
    constructor
    · intro s s' e h
      cases h
    · intro b e h hlength
      obtain ⟨code, rest, rfl, -⟩ := (Completes.iff_after hopened).mp h
      cases hlength
  | succ n ih =>
    unfold exprFrom
    refine Reads.congr ?_ fun b e => (Completes.iff_after hopened).symm
    refine Reads.position_bind fun start => Reads.tagged_succ fun code => ?_
    cases hop : Opcode.ofByte? code with
    | none =>
      refine Reads.fail_of ?_
      rintro b e ⟨op, hcode, -⟩
      rw [Opcode.ofByte?_eq_some_iff.mpr hcode] at hop
      cases hop
    | some op =>
      apply reads_after hop
      cases op with
      | opening form =>
        refine (Reads.ite (fun _ => Reads.fail _ _) fun hfree => reads_blockType.bind fun t =>
          ih _ [] (by rw [List.length_cons]; omega)).congr fun b e => ?_
        constructor
        · rintro (⟨-, h⟩ | ⟨hfree, h⟩)
          · exact h.elim
          · exact ⟨Nat.not_le.mp hfree, h⟩
        · rintro ⟨hfree, h⟩
          exact .inr ⟨Nat.not_le.mpr hfree, h⟩
      | elseMark =>
        cases opened with
        | nil => exact Reads.fail_of fun h => by cases h
        | cons block opened =>
          obtain ⟨form, outer⟩ := block
          cases form with
          | ifThen t =>
            refine (ih (⟨.ifElse t before.reverse, outer⟩ :: opened) [] hopened).congr fun b e => ?_
            constructor
            · intro h; exact .alternate h
            · intro h; cases h; assumption
          | _ => exact Reads.fail_of fun h => by cases h
      | endMark =>
        cases opened with
        | nil =>
          refine Reads.pure_of .done ?_
          intro b e h
          cases h
          exact ⟨rfl, rfl⟩
        | cons block opened =>
          refine (ih opened _ (Nat.le_of_succ_le hopened)).congr fun b e => ?_
          constructor
          · intro h; exact .close h
          · intro h; cases h; assumption
      | plain m => exact (reads_plain m).bind fun i => ih opened (i :: before) hopened

/-- **An expression**, for which its number of bytes is budget enough. -/
theorem reads_exprWithin : Reads n (exprWithin n) Form.expr := by
  refine (reads_exprFrom n [] [] (Nat.zero_le maxNesting)).congr fun b e => ?_
  constructor
  · rintro ⟨hbody, hbound, ⟨⟩⟩
    rw [List.length_nil, Nat.zero_add] at hbound
    exact .mk hbody hbound
  · rintro ⟨hbody, hbound⟩
    refine .mk hbody ?_ .done
    rw [List.length_nil, Nat.zero_add]
    exact hbound

theorem reads_expr : Reads n expr Form.expr where
  sound := by
    intro s s' e h
    exact (reads_exprWithin (n := s.bytes.length)).sound h
  complete := by
    intro b e hb _ rest offset
    refine (reads_exprWithin (n := (b ++ rest).length)).complete hb ?_ rest offset
    rw [List.length_append]
    exact Nat.le_add_right _ _

end Decoder

end WasmCore
