import WasmCore.Proofs.Link.Instances
import WasmCore.Proofs.Typing.Constants

/-!
# `Link.Spans` — look-ups that linking makes

The look-ups of linking are all written so that they can fail: an index may be out of range. A module
that was checked gives them no occasion to, once its instance has an address for every index.

* `ModuleInst.Spans`: an instance with as many addresses of each kind as a context declares;
* `ModuleInst.typeAt_of_types`, `Spans.funcAddr`, …, `Spans.resolve`: the look-ups that then succeed.
-/

namespace WasmCore

/-! ## Look-ups -/

/-- An instance with the types that a context declares. -/
theorem ModuleInst.typeAt_of_types {i : ModuleInst} {c : Context} (h : i.types = c.types) {t : TypeIdx}
    {type : FuncType} (ht : c.typeAt t = .ok type) : i.typeAt t = .ok type := by
  unfold Context.typeAt at ht
  unfold ModuleInst.typeAt
  rw [h]
  cases hget : c.types[t.toNat]? with
  | none => rw [hget] at ht; cases ht
  | some type' => rw [hget] at ht; cases ht; rfl

/-- **An instance has an address for every index** that a context declares. -/
structure ModuleInst.Spans (i : ModuleInst) (c : Context) : Prop where
  types : i.types = c.types
  funcs : i.funcs.size = c.funcs.size
  tables : i.tables.size = c.tables.size
  memories : i.memories.size = c.memories.size
  globals : i.globals.size = c.globals.size

namespace ModuleInst.Spans

variable {i : ModuleInst} {c : Context}

theorem funcAddr (h : i.Spans c) {f : FuncIdx} {type : FuncType} (hf : c.funcType f = .ok type) :
    ∃ a, i.funcAddr f = .ok a := by
  have hlt : f.toNat < i.funcs.size := by
    unfold Context.funcType at hf
    cases hget : c.funcs[f.toNat]? with
    | none => rw [hget] at hf; cases hf
    | some t => rw [h.funcs]; exact (Array.getElem?_eq_some_iff.mp hget).1
  exact ⟨i.funcs[f.toNat], by rw [ModuleInst.funcAddr, Array.getElem?_eq_getElem hlt]⟩

theorem tableAddr (h : i.Spans c) {t : TableIdx} (ht : c.requireTable t = .ok ()) :
    ∃ a, i.tables[t.toNat]? = some a ∧ i.tableAddr t = .ok a := by
  have hlt : t.toNat < i.tables.size := by
    unfold Context.requireTable at ht
    by_cases hlt : t.toNat < c.tables.size
    · rw [h.tables]; exact hlt
    · rw [if_neg hlt] at ht; cases ht
  refine ⟨i.tables[t.toNat], Array.getElem?_eq_getElem hlt, ?_⟩
  rw [ModuleInst.tableAddr, Array.getElem?_eq_getElem hlt]

theorem memAddr (h : i.Spans c) {m : MemIdx} (hm : c.requireMemory m = .ok ()) :
    ∃ a, i.memories[m.toNat]? = some a ∧ i.memAddr m = .ok a := by
  have hlt : m.toNat < i.memories.size := by
    unfold Context.requireMemory at hm
    by_cases hlt : m.toNat < c.memories.size
    · rw [h.memories]; exact hlt
    · rw [if_neg hlt] at hm; cases hm
  refine ⟨i.memories[m.toNat], Array.getElem?_eq_getElem hlt, ?_⟩
  rw [ModuleInst.memAddr, Array.getElem?_eq_getElem hlt]

theorem globalAddr (h : i.Spans c) {g : GlobalIdx} {type : GlobalType}
    (hg : c.globalType g = .ok type) : ∃ a, i.globalAddr g = .ok a := by
  have hlt : g.toNat < i.globals.size := by
    rw [h.globals]
    exact (Array.getElem?_eq_some_iff.mp (Check.globalType_eq_ok_iff.mp hg)).1
  exact ⟨i.globals[g.toNat], by rw [ModuleInst.globalAddr, Array.getElem?_eq_getElem hlt]⟩

/-- What an export names has an address. -/
theorem resolve (h : i.Spans c) {d : ExportDesc} (hd : Validate.exportDesc c d = .ok ()) :
    ∃ e, i.resolve d = .ok e := by
  cases d with
  | func f =>
    obtain ⟨type, hf, -⟩ := bind_eq_ok_iff.mp hd
    obtain ⟨a, ha⟩ := h.funcAddr hf
    exact ⟨.func a, by rw [ModuleInst.resolve, ha]; rfl⟩
  | table t =>
    obtain ⟨a, -, ha⟩ := h.tableAddr hd
    exact ⟨.table a, by rw [ModuleInst.resolve, ha]; rfl⟩
  | memory m =>
    obtain ⟨a, -, ha⟩ := h.memAddr hd
    exact ⟨.memory a, by rw [ModuleInst.resolve, ha]; rfl⟩
  | global g =>
    obtain ⟨type, hg, -⟩ := bind_eq_ok_iff.mp hd
    obtain ⟨a, ha⟩ := h.globalAddr hg
    exact ⟨.global a, by rw [ModuleInst.resolve, ha]; rfl⟩

end ModuleInst.Spans

end WasmCore
