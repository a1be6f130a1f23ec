import WasmCore.Proofs.Binary.Grammar

/-!
# `Binary.Opcodes` — the opcode table

The decoder looks a byte up in one list that is put together from families in opcode order. The grammar
gives every operation its byte. The two agree: a byte means an operation exactly if it is the operation's
opcode.

* `Opcode.mem_assignment`: every operation is in the list;
* `Opcode.byte_of_assignment`: and stands at the place of its opcode;
* `Opcode.ofByte?_eq_some_iff`: **the meaning of a byte.**
-/

namespace WasmCore

/-! ## Every operation has a place -/

theorem LoadOp.mem_inOrder (op : LoadOp) : op ∈ inOrder := by
  rcases op with t | ⟨w, s⟩ | ⟨w, s⟩ | s
  · cases t <;> decide
  · cases w <;> cases s <;> decide
  · cases w <;> cases s <;> decide
  · cases s <;> decide

theorem StoreOp.mem_inOrder (op : StoreOp) : op ∈ inOrder := by
  rcases op with t | w | w | _
  · cases t <;> decide
  · cases w <;> decide
  · cases w <;> decide
  · decide

theorem IntCompare.mem_inOrder (op : IntCompare) : op ∈ inOrder := by
  rcases op with _ | _ | s | s | s | s <;> first | decide | (cases s <;> decide)

theorem FloatCompare.mem_inOrder (op : FloatCompare) : op ∈ inOrder := by
  cases op <;> decide

theorem IntUnary.mem_inOrder (op : IntUnary) : op ∈ inOrder := by cases op <;> decide

theorem IntBinary.mem_inOrder (op : IntBinary) : op ∈ inOrder := by
  rcases op with _ | _ | _ | s | s | _ | _ | _ | _ | s | _ | _ <;>
    first | decide | (cases s <;> decide)

theorem FloatUnary.mem_inOrder (op : FloatUnary) : op ∈ inOrder := by cases op <;> decide

theorem FloatBinary.mem_inOrder (op : FloatBinary) : op ∈ inOrder := by cases op <;> decide

theorem Conversion.mem_inOrder (c : Conversion) : c ∈ inOrder := by
  rcases c with _ | s | ⟨w, v, s⟩ | ⟨w, v, s⟩ | _ | _ | w | w
  · decide
  · cases s <;> decide
  · cases w <;> cases v <;> cases s <;> decide
  · cases w <;> cases v <;> cases s <;> decide
  · decide
  · decide
  · cases w <;> decide
  · cases w <;> decide

theorem NumOp.mem_inOrder (op : NumOp) : op ∈ inOrder := by
  have hinOrder : inOrder = List.flatten [
      intTest .w32 :: IntCompare.inOrder.map (intCompare .w32),
      intTest .w64 :: IntCompare.inOrder.map (intCompare .w64),
      FloatCompare.inOrder.map (floatCompare .w32), FloatCompare.inOrder.map (floatCompare .w64),
      IntUnary.inOrder.map (intUnary .w32) ++ IntBinary.inOrder.map (intBinary .w32),
      IntUnary.inOrder.map (intUnary .w64) ++ IntBinary.inOrder.map (intBinary .w64),
      FloatUnary.inOrder.map (floatUnary .w32) ++ FloatBinary.inOrder.map (floatBinary .w32),
      FloatUnary.inOrder.map (floatUnary .w64) ++ FloatBinary.inOrder.map (floatBinary .w64),
      Conversion.inOrder.map convert] := rfl
  simp only [hinOrder, List.flatten_cons, List.mem_append, List.mem_cons]
  rcases op with w | ⟨w, op⟩ | ⟨w, op⟩ | ⟨w, op⟩ | ⟨w, op⟩ | ⟨w, op⟩ | ⟨w, op⟩ | c
  · cases w <;> simp only [true_or, or_true]
  · cases w <;> simp only [List.mem_map_of_mem op.mem_inOrder, true_or, or_true]
  · cases w <;> simp only [List.mem_map_of_mem op.mem_inOrder, true_or, or_true]
  · cases w <;> simp only [List.mem_map_of_mem op.mem_inOrder, true_or, or_true]
  · cases w <;> simp only [List.mem_map_of_mem op.mem_inOrder, true_or, or_true]
  · cases w <;> simp only [List.mem_map_of_mem op.mem_inOrder, true_or, or_true]
  · cases w <;> simp only [List.mem_map_of_mem op.mem_inOrder, true_or, or_true]
  · simp only [List.mem_map_of_mem c.mem_inOrder, true_or, or_true]

/-- Every opcode is assigned to some byte. -/
theorem Opcode.mem_assignment (op : Opcode) : some op ∈ assignment := by
  have hassignment : assignment = List.flatten [
      [Mnemonic.unreachable, .nop].map (some ∘ plain),
      [some (opening .block), some (opening .loop), some (opening .ifThen), some elseMark],
      List.replicate 5 none,
      [some endMark],
      [Mnemonic.br, .brIf, .brTable, .ret, .call, .callIndirect].map (some ∘ plain),
      List.replicate 8 none,
      [Mnemonic.drop, .select].map (some ∘ plain),
      List.replicate 4 none,
      [Mnemonic.localGet, .localSet, .localTee, .globalGet, .globalSet].map (some ∘ plain),
      List.replicate 3 none,
      (LoadOp.inOrder.map Mnemonic.load).map (some ∘ plain),
      (StoreOp.inOrder.map Mnemonic.store).map (some ∘ plain),
      [Mnemonic.memorySize, .memoryGrow, .const .i32, .const .i64, .const .f32, .const .f64].map
        (some ∘ plain),
      (NumOp.inOrder.map Mnemonic.numeric).map (some ∘ plain)] := rfl
  simp only [hassignment, List.flatten_cons, List.mem_append, List.map_map]
  cases op with
  | opening form => cases form <;> simp
  | elseMark => simp
  | endMark => simp
  | plain m =>
    cases m with
    | load op => simp [op.mem_inOrder]
    | store op => simp [op.mem_inOrder]
    | const t => cases t <;> simp
    | numeric op => simp [op.mem_inOrder]
    | _ => simp

namespace Opcode

/-! ## Every place is the opcode of its operation -/

/-- All places of the list are gone through at once. -/
theorem assignment_places :
    (assignment.zipIdx.all fun p => p.1.all fun op => op.byte.toNat == p.2) = true := by
  decide +kernel

theorem byte_of_assignment {op : Opcode} {place : Nat} (h : assignment[place]? = some (some op)) :
    op.byte.toNat = place := by
  have hmem : (some op, place) ∈ assignment.zipIdx := List.mem_zipIdx_iff_getElem?.mpr h
  have hplace := List.all_eq_true.mp assignment_places _ hmem
  exact eq_of_beq hplace

/-- **A byte means an operation exactly if it is the opcode of that operation.** -/
theorem ofByte?_eq_some_iff {b : UInt8} {op : Opcode} : ofByte? b = some op ↔ b = op.byte := by
  rw [ofByte?_eq, Option.join_eq_some_iff]
  constructor
  · intro h
    exact (UInt8.toNat_inj.mp (byte_of_assignment h)).symm
  · rintro rfl
    -- the operation stands somewhere, and that place is its opcode
    obtain ⟨place, hplace⟩ := List.mem_iff_getElem?.mp op.mem_assignment
    rw [byte_of_assignment hplace]
    exact hplace

end Opcode

end WasmCore
