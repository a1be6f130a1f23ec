import WasmCore.Proofs.Exec.Isolation
import WasmCore.Proofs.Link.Refusal
import WasmCore.Proofs.Link.Twins

/-!
# `Link.Placement` — it does not matter where an instance lands

What an instance does can be seen from outside in two ways: by calling the functions that it exports, and
by looking at the memories, globals and tables that it has. Neither shows where in the store the instance
stands, or what else is there.

* `ExportCall`, `Store.callExports`: calls of exported functions, one after another;
* `ModuleInst.SameState`: what two instances have to themselves is the same;
* `Store.instantiate_placement`: **behaviour does not depend on placement**.
-/

namespace WasmCore

/-! ## Calls by name -/

/-- A call of an exported function. -/
structure ExportCall where
  turns : Nat
  name : String
  args : List Value

namespace Store

/-- Calls the function that an instance exports under a name; nothing happens if there is none. -/
def callExport (s : Store) (i : ModuleInst) (c : ExportCall) :
    Option (Outcome Trap (List Value)) × Store :=
  match (i.export? c.name).bind External.func? with
  | some a =>
    let called := s.invoke c.turns a c.args
    (some called.1, called.2)
  | none => (none, s)

/-- Calls exported functions one after another: what becomes of each of them, and the store at the
    end. -/
def callExports (i : ModuleInst) : Store → List ExportCall →
    List (Option (Outcome Trap (List Value))) × Store
  | s, [] => ([], s)
  | s, c :: cs =>
    let called := s.callExport i c
    let rest := callExports i called.2 cs
    (called.1 :: rest.1, rest.2)

end Store

/-- Two functions that have the same index in two instances. -/
def ModuleInst.SameFunc (i i' : ModuleInst) (a a' : FuncAddr) : Prop :=
  ∃ n : Nat, i.funcs[n]? = some a ∧ i'.funcs[n]? = some a'

/-- Tables with the same functions of two instances in their slots. -/
structure Table.SameUpTo (i i' : ModuleInst) (t t' : Table) : Prop where
  max : t'.max = t.max
  slots : Entrywise (Option.Rel (i.SameFunc i')) t.slots t'.slots

/-- **Two instances are in the same state**: their memories, globals and tables are the same one by one,
    functions in tables compared by their index. -/
structure ModuleInst.SameState (i : ModuleInst) (s : Store) (i' : ModuleInst) (s' : Store) : Prop where
  memories : Entrywise (fun a a' => s'.memories[a']? = s.memories[a]?) i.memories i'.memories
  globals : Entrywise (fun a a' => s'.globals[a']? = s.globals[a]?) i.globals i'.globals
  tables : Entrywise (fun a a' => Option.Rel (Table.SameUpTo i i') s.tables[a]? s'.tables[a']?)
    i.tables i'.tables

namespace ModuleInst.Twins

variable {p : Store.Pairing} {i i' : ModuleInst}

/-- The functions under a name. -/
theorem exported (h : i.Twins p i') (name : String) :
    Option.Rel p.funcs ((i.export? name).bind External.func?)
      ((i'.export? name).bind External.func?) := by
  have hexports := h.exports
  unfold ModuleInst.export?
  generalize i.exports = es, i'.exports = es' at hexports ⊢
  induction hexports with
  | nil => exact .none
  | @cons e e' es es' he _ ih =>
    obtain ⟨key, x⟩ := e
    obtain ⟨key', x'⟩ := e'
    obtain ⟨hkey, hx⟩ := he
    dsimp only at hkey hx
    subst hkey
    rw [List.lookup_cons, List.lookup_cons]
    split
    · cases hx with
      | func ha => exact .some ha
      | table => exact .none
      | memory => exact .none
      | global => exact .none
    · exact ih

/-- Tables with paired functions hold the same functions of two instances. -/
theorem sameUpTo (h : i.Twins p i') {table table' : Table} (ht : table.Alike p table') :
    Table.SameUpTo i i' table table' := by
  refine ⟨ht.max, ht.slots.mono fun slot slot' hslot => ?_⟩
  cases hslot with
  | none => exact .none
  | some ha => exact .some (h.index ha)

/-- In stores that are alike, instances of one module are in the same state. -/
theorem sameState (h : i.Twins p i') {s s' : Store} (hs : s.Alike p s') : i.SameState s i' s' where
  memories := h.alike.memories.mono fun _ _ ha => hs.memories ha
  globals := h.alike.globals.mono fun _ _ ha => hs.globals ha
  tables := by
    refine h.alike.tables.mono fun a a' ha => ?_
    have htable := hs.tables ha
    generalize s.tables[a]? = o, s'.tables[a']? = o' at htable ⊢
    cases htable with
    | none => exact .none
    | some htable => exact .some (h.sameUpTo htable)

end ModuleInst.Twins

namespace Store

variable {p : Pairing} {s s' t t' : Store} {i i' : ModuleInst}

theorem Alike.callExport (h : t.Alike p t') (hi : i.Twins p i') (c : ExportCall) :
    (t'.callExport i' c).1 = (t.callExport i c).1 ∧
      (t.callExport i c).2.Alike p (t'.callExport i' c).2 := by
  have hfunc := hi.exported c.name
  unfold Store.callExport
  generalize (i.export? c.name).bind External.func? = found,
    (i'.export? c.name).bind External.func? = found' at hfunc ⊢
  cases hfunc with
  | none => exact ⟨rfl, h⟩
  | some ha =>
    obtain ⟨hsame, htracks⟩ := h.invoke ha c.turns c.args
    exact ⟨congrArg some hsame, htracks.alike⟩

/-- **Any number of calls by name.** -/
theorem Alike.callExports (h : t.Alike p t') (hi : i.Twins p i') (calls : List ExportCall) :
    (t'.callExports i' calls).1 = (t.callExports i calls).1 ∧
      (t.callExports i calls).2.Alike p (t'.callExports i' calls).2 := by
  induction calls generalizing t t' with
  | nil => exact ⟨rfl, h⟩
  | cons c calls ih =>
    obtain ⟨hsame, hafter⟩ := h.callExport hi c
    obtain ⟨hrest, hend⟩ := ih hafter
    unfold Store.callExports
    dsimp only
    rw [hsame, hrest]
    exact ⟨rfl, hend⟩

/-- **Behaviour does not depend on placement.** Take any two stores with the same configuration, whatever
    else is in them, and a module without imports. It is instantiated in both, or fails in both with the
    same error, or is cut off in both. If it is instantiated, then whatever functions of the two
    instances are called by name, and with whatever arguments, the same comes of every call, and the
    instances are in the same state afterwards. -/
theorem instantiate_placement (hconfig : s'.config = s.config) {m : Module} (himports : m.imports = [])
    (turns : Nat) :
    match s.instantiate turns m [], s'.instantiate turns m [] with
    | (.done i, t), (.done i', t') => ∀ calls : List ExportCall,
      (t'.callExports i' calls).1 = (t.callExports i calls).1 ∧
        i.SameState (t.callExports i calls).2 i' (t'.callExports i' calls).2
    | (.failed e, _), (.failed e', _) => e' = e
    | (.unfinished, _), (.unfinished, _) => True
    | _, _ => False := by
  have halike := instantiate_alike hconfig himports turns
  generalize s.instantiate turns m [] = r, s'.instantiate turns m [] = r' at halike ⊢
  cases halike with
  | failed e t t' => exact rfl
  | unfinished t t' => trivial
  | done hi ht =>
    intro calls
    obtain ⟨hsame, hafter⟩ := ht.callExports hi calls
    exact ⟨hsame, hi.sameState hafter⟩

/-! ### A counter with a name -/

/-- The module `ticker` with a name for its function. -/
def namedTicker : Module := { ticker with exports := [{ name := "tick", desc := .func 0 }] }

/-- The instance of `namedTicker` whose function and global have an address. -/
def namedTickerInst (a : Nat) : ModuleInst := { tickerInst a with exports := [("tick", .func a)] }

theorem validate_namedTicker : validate namedTicker = .ok () := by
  have hrest : validate namedTicker =
      Validate.exports (.ofModule namedTicker) ∅ namedTicker.exports := by
    with_unfolding_all rfl
  rw [hrest]
  show (if (∅ : Std.HashSet String).contains "tick" = true then
    Except.error (ValidationError.duplicateExport "tick") else .ok ()) = .ok ()
  rw [Std.HashSet.contains_empty]
  rfl

theorem instantiate_namedTicker {a : Nat} (hfuncs : s.funcs.size = a) (hglobals : s.globals.size = a) :
    ∃ t, s.instantiate 0 namedTicker [] = (.done (namedTickerInst a), t) := by
  have haccepts : s.acceptsModule namedTicker [] = .ok () := by
    unfold acceptsModule
    rw [validate_namedTicker]
    rfl
  have halloc : ∃ t, Linking.allocModule namedTicker [] s =
      .ok ({ namedTickerInst s.funcs.size with globals := #[s.globals.size] }, []) t := ⟨_, rfl⟩
  rw [hfuncs, hglobals] at halloc
  obtain ⟨t, halloc⟩ := halloc
  exact ⟨_, instantiate_of_no_start 0 (link_of_alloc_ok haccepts halloc) rfl⟩

/-- A counter after two others counts like one that is alone. -/
theorem namedTicker_placement :
    twoTickers.Reachable ∧ ∃ t t',
      (withConfig {}).instantiate 0 namedTicker [] = (.done (namedTickerInst 0), t) ∧
      twoTickers.instantiate 0 namedTicker [] = (.done (namedTickerInst 2), t') ∧
      ∀ calls : List ExportCall,
        (t'.callExports (namedTickerInst 2) calls).1 = (t.callExports (namedTickerInst 0) calls).1 ∧
          (namedTickerInst 0).SameState (t.callExports (namedTickerInst 0) calls).2 (namedTickerInst 2)
            (t'.callExports (namedTickerInst 2) calls).2 := by
  have hconfig : twoTickers.config = (withConfig {}).config := by with_unfolding_all rfl
  have hglobals : twoTickers.globals.size = 2 := by with_unfolding_all rfl
  have hfuncs : twoTickers.funcs.size = 2 := by
    rw [funcs_twoTickers]
    rfl
  have hplacement := instantiate_placement hconfig (m := namedTicker) rfl 0
  obtain ⟨t, ht⟩ := instantiate_namedTicker (s := withConfig {}) rfl rfl
  obtain ⟨t', ht'⟩ := instantiate_namedTicker hfuncs hglobals
  rw [ht, ht'] at hplacement
  exact ⟨⟨_, _, rfl⟩, t, t', ht, ht', hplacement⟩

end Store

end WasmCore
