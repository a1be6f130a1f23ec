import WasmCore.Proofs.Link.Spans

/-!
# `Link.Definitions` — what the allocation of definitions comes to

Tables and memories are allocated one after another, up to the first that is larger than the
configuration allows. Globals are allocated one after another as well, each with the value of its
initialiser, which may be that of an earlier one. What the store is like after that, and what the globals
hold, can be said without going through the steps.

* `Store.tableFault?`, `Store.memoryFault?`: what stands against a single definition;
* `allocTables_cases`, `allocMemories_cases`: **tables and memories**, all of them or an error;
* `constantValue?`, `globalValues`: the values of constant expressions and of globals;
* `evalConstant_of_constant`, `allocGlobals_of_checked`: **globals** of a checked module;
* `allocTables_eq_ok`, `allocMemories_eq_ok`, `allocGlobals_eq_ok`: what was allocated comes last;
* `allocFuncs_of_checked`: functions of a checked module.
-/

namespace WasmCore

/-! ## Tables and memories -/

namespace Store

/-- What stands against a table: it is larger than the configuration allows. -/
def tableFault? (s : Store) (t : TableType) : Option LinkError :=
  let limit := s.config.maxTableElements
  if limit < t.min then some (.tableLimit t.min limit) else none

/-- What stands against a memory: it is larger than the configuration or 32 bits allow. -/
def memoryFault? (s : Store) (t : MemType) : Option LinkError :=
  let limit := min s.config.maxMemoryPages maxMemoryPages
  if limit < t.min then some (.memoryLimit t.min limit) else none

/-- The store with tables added. -/
def withTables (s : Store) (ts : List TableType) : Store :=
  { s with tables := s.tables ++ (ts.map Table.create).toArray }

/-- The store with memories added. -/
def withMemories (s : Store) (ts : List MemType) : Store :=
  { s with memories := s.memories ++ (ts.map Memory.create).toArray }

theorem withTables_cons (s : Store) (t : TableType) (ts : List TableType) :
    s.withTables (t :: ts) = (s.withTables [t]).withTables ts := by
  have h : s.tables ++ ((t :: ts).map Table.create).toArray =
      s.tables ++ ([t].map Table.create).toArray ++ (ts.map Table.create).toArray := by
    apply Array.ext'
    simp
  simp only [withTables, h]

theorem withMemories_cons (s : Store) (t : MemType) (ts : List MemType) :
    s.withMemories (t :: ts) = (s.withMemories [t]).withMemories ts := by
  have h : s.memories ++ ((t :: ts).map Memory.create).toArray =
      s.memories ++ ([t].map Memory.create).toArray ++ (ts.map Memory.create).toArray := by
    apply Array.ext'
    simp
  simp only [withMemories, h]

theorem withTables_nil (s : Store) : s.withTables [] = s := by simp [withTables]

theorem withMemories_nil (s : Store) : s.withMemories [] = s := by simp [withMemories]

/-- What is added to an array has the positions that come next. -/
theorem forall₂_appended {τ α : Type} (xs : Array α) (create : τ → α) (ts : List τ) :
    List.Forall₂ (fun a t => (xs ++ (ts.map create).toArray)[a]? = some (create t))
      (List.range' xs.size ts.length) ts := by
  refine List.forall₂_iff_get.mpr ⟨by simp, fun i h₁ h₂ => ?_⟩
  have hi : i < ts.length := by simpa using h₁
  have hget : (List.range' xs.size ts.length).get ⟨i, h₁⟩ = xs.size + i := by simp
  rw [hget, Array.getElem?_append_right (Nat.le_add_right _ _)]
  simp [hi]

/-- **What the entries of a grown array come to**: those that were there, and then those that were
    added. -/
theorem map_appended {τ α β : Type} (xs : Array α) (create : τ → α) (ts : List τ) (f : α → β)
    {old : List Nat} (hold : ∀ a ∈ old, a < xs.size) :
    (old ++ List.range' xs.size ts.length).map
        (fun a => ((xs ++ (ts.map create).toArray)[a]?).map f) =
      old.map (fun a => (xs[a]?).map f) ++ ts.map fun t => some (f (create t)) := by
  have hnew : List.Forall₂ (fun a t => ((xs ++ (ts.map create).toArray)[a]?).map f =
      some (f (create t))) (List.range' xs.size ts.length) ts :=
    (forall₂_appended xs create ts).imp fun a t h => by rw [h]; rfl
  rw [List.map_append]
  congr 1
  · refine List.map_congr_left fun a ha => ?_
    rw [Array.getElem?_append_left (hold a ha)]
  · rw [← List.forall₂_eq_eq_eq]
    exact List.forall₂_map_left_iff.mpr (List.forall₂_map_right_iff.mpr hnew)

/-- What is related by a fact about itself alone has it. -/
theorem forall_of_forall₂ {α β : Type} {P : α → Prop} {xs : List α} {ys : List β}
    (h : List.Forall₂ (fun x _ => P x) xs ys) : ∀ x ∈ xs, P x := by
  induction h with
  | nil => nofun
  | cons hx _ ih =>
    intro x' hx'
    rcases List.mem_cons.mp hx' with rfl | hx'
    · exact hx
    · exact ih x' hx'

theorem allocTable_eq (s : Store) (t : TableType) :
    s.allocTable t = match s.tableFault? t with
      | some e => .error e
      | none => .ok (s.tables.size, s.withTables [t]) := by
  unfold allocTable tableFault?
  dsimp only
  split
  · rfl
  · simp [withTables]

theorem allocMemory_eq (s : Store) (t : MemType) :
    s.allocMemory t = match s.memoryFault? t with
      | some e => .error e
      | none => .ok (s.memories.size, s.withMemories [t]) := by
  unfold allocMemory memoryFault?
  dsimp only
  split
  · rfl
  · simp [withMemories]

end Store

namespace Linking

variable {α : Type} {s s' : Store}

theorem add_of_ok {alloc : Store → Except LinkError (α × Store)} {a : α}
    (h : alloc s = .ok (a, s')) : add alloc s = .ok a s' := by
  rw [add, h]

theorem add_of_error {alloc : Store → Except LinkError (α × Store)} {e : LinkError}
    (h : alloc s = .error e) : add alloc s = .error e s := by
  rw [add, h]

/-- **Allocation of one definition after another**, where what stands against one of them does not
    depend on those that are there already: the first that something stands against is reported, and if
    there is none, all of them get the addresses that come next. -/
theorem allocEach_cases {τ : Type} (all : Array Nat → List τ → Linking (Array Nat))
    (alloc : τ → Store → Except LinkError (Nat × Store)) (fault : Store → τ → Option LinkError)
    (grown : Store → List τ → Store) (count : Store → Nat)
    (hnil : ∀ as s, all as [] s = .ok as s)
    (hcons : ∀ as t ts, all as (t :: ts) = do let a ← add (alloc t); all (as.push a) ts)
    (halloc : ∀ s t, alloc t s = match fault s t with
      | some e => .error e
      | none => .ok (count s, grown s [t]))
    (hgrown : ∀ s, grown s [] = s) (hgrown' : ∀ s t ts, grown s (t :: ts) = grown (grown s [t]) ts)
    (hfault : ∀ s t, fault (grown s [t]) = fault s)
    (hcount : ∀ s t, count (grown s [t]) = count s + 1)
    (as : Array Nat) (ts : List τ) (s : Store) :
    (∃ e s', ts.findSome? (fault s) = some e ∧ all as ts s = .error e s') ∨
    (ts.findSome? (fault s) = none ∧
      all as ts s = .ok (as ++ (List.range' (count s) ts.length).toArray) (grown s ts)) := by
  induction ts generalizing as s with
  | nil =>
    refine .inr ⟨rfl, ?_⟩
    rw [hnil, hgrown]
    simp
  | cons t ts ih =>
    have hone := halloc s t
    rw [hcons, List.findSome?_cons]
    cases hf : fault s t with
    | some e =>
      rw [hf] at hone
      exact .inl ⟨e, s, rfl, Move.bind_of_error (add_of_error hone)⟩
    | none =>
      rw [hf] at hone
      rw [Move.bind_of_ok (add_of_ok hone)]
      have hrest := ih (as.push (count s)) (grown s [t])
      rw [hfault, hcount, ← hgrown'] at hrest
      have haddresses : as.push (count s) ++ (List.range' (count s + 1) ts.length).toArray =
          as ++ (List.range' (count s) (ts.length + 1)).toArray := by
        apply Array.ext'
        simp [List.range'_succ]
      rw [haddresses] at hrest
      exact hrest

/-- **Tables.** -/
theorem allocTables_cases (as : Array TableAddr) (ts : List TableType) (s : Store) :
    (∃ e s', ts.findSome? s.tableFault? = some e ∧ allocTables as ts s = .error e s') ∨
    (ts.findSome? s.tableFault? = none ∧ allocTables as ts s =
      .ok (as ++ (List.range' s.tables.size ts.length).toArray) (s.withTables ts)) :=
  allocEach_cases allocTables (fun t s => s.allocTable t) Store.tableFault? Store.withTables
    (fun s => s.tables.size) (fun _ _ => rfl) (fun _ _ _ => rfl) Store.allocTable_eq
    Store.withTables_nil Store.withTables_cons (fun _ _ => rfl)
    (fun s t => by simp [Store.withTables]) as ts s

/-- **Memories.** -/
theorem allocMemories_cases (as : Array MemAddr) (ts : List MemType) (s : Store) :
    (∃ e s', ts.findSome? s.memoryFault? = some e ∧ allocMemories as ts s = .error e s') ∨
    (ts.findSome? s.memoryFault? = none ∧ allocMemories as ts s =
      .ok (as ++ (List.range' s.memories.size ts.length).toArray) (s.withMemories ts)) :=
  allocEach_cases allocMemories (fun t s => s.allocMemory t) Store.memoryFault? Store.withMemories
    (fun s => s.memories.size) (fun _ _ => rfl) (fun _ _ _ => rfl) Store.allocMemory_eq
    Store.withMemories_nil Store.withMemories_cons (fun _ _ => rfl)
    (fun s t => by simp [Store.withMemories]) as ts s

/-- Tables that were allocated are the last ones of the store. -/
theorem allocTables_eq_ok {as as' : Array TableAddr} {ts : List TableType}
    (h : allocTables as ts s = .ok as' s') :
    as' = as ++ (List.range' s.tables.size ts.length).toArray ∧ s' = s.withTables ts := by
  rcases allocTables_cases as ts s with ⟨e, s₁, -, herror⟩ | ⟨-, hok⟩
  · rw [herror] at h; cases h
  · rw [hok] at h; cases h; exact ⟨rfl, rfl⟩

/-- Memories that were allocated are the last ones of the store. -/
theorem allocMemories_eq_ok {as as' : Array MemAddr} {ts : List MemType}
    (h : allocMemories as ts s = .ok as' s') :
    as' = as ++ (List.range' s.memories.size ts.length).toArray ∧ s' = s.withMemories ts := by
  rcases allocMemories_cases as ts s with ⟨e, s₁, -, herror⟩ | ⟨-, hok⟩
  · rw [herror] at h; cases h
  · rw [hok] at h; cases h; exact ⟨rfl, rfl⟩

end Linking

/-! ## Globals -/

/-- The value of a constant expression where the globals have the given values. -/
def constantValue? (values : List (Option Value)) : Expr → Option Value
  | [.const v] => some v
  | [.globalGet g] => values[g.toNat]?.join
  | _ => none

/-- **The values of globals**, those of a module after the given ones: each initialiser may refer to all
    that come before it. -/
def globalValues (values : List (Option Value)) : List Global → List (Option Value)
  | [] => values
  | g :: gs => globalValues (values ++ [constantValue? values g.initial]) gs

namespace Store

variable {s s' : Store} {origins : List (Option Module)} {c : Context}

/-- The global at an address has a type. -/
abbrev GlobalHasType (s : Store) (a : GlobalAddr) (type : GlobalType) : Prop :=
  (s.globals[a]?).map GlobalInst.type = some type

/-- The values of globals at a list of addresses. -/
abbrev valuesAt (s : Store) (globals : Array GlobalAddr) : List (Option Value) :=
  globals.toList.map s.globalValue?

/-- The value of a constant expression is the one that the values of the globals give it. -/
theorem constantValue?_of_evalConstant {globals : Array GlobalAddr} {e : Expr} {v : Value}
    (h : s.evalConstant globals e = .ok v) : constantValue? (s.valuesAt globals) e = some v := by
  unfold evalConstant at h
  split at h
  · cases h
    rfl
  · rename_i g
    rw [constantValue?, List.getElem?_map, Array.getElem?_toList]
    cases hget : globals[g.toNat]? with
    | none => rw [hget] at h; cases h
    | some a =>
      rw [hget, Option.bind_some] at h
      rw [Option.map_some, Option.join_some]
      cases hvalue : s.globalValue? a with
      | none => rw [hvalue] at h; cases h
      | some w => rw [hvalue] at h; cases h; rfl
  · cases h
  · cases h

/-- **A checked constant expression has a value of its type**, and it is the one that the values of the
    globals give it. -/
theorem evalConstant_of_constant (hs : s.WellFormed origins) {globals : Array GlobalAddr}
    {earlier : List GlobalType} (hglobals : List.Forall₂ s.GlobalHasType globals.toList earlier)
    (hearlier : earlier <+: c.globals.toList) {i : Instr} {type : ValType}
    (hi : i.Constant c earlier.length type) :
    ∃ v, s.evalConstant globals [i] = .ok v ∧ constantValue? (s.valuesAt globals) [i] = some v ∧
      v.type = type := by
  cases hi with
  | const v => exact ⟨v, rfl, rfl, rfl⟩
  | @globalGet g type hg htype _ =>
    have hearly : earlier[g.toNat]? = some type := by
      obtain ⟨later, hlater⟩ := hearlier
      rw [← Array.getElem?_toList, ← hlater, List.getElem?_append_left hg] at htype
      exact htype
    obtain ⟨a, ha, hahas⟩ := getElem?_of_forall₂ hglobals hearly
    obtain ⟨global, hglobal, rfl⟩ := Option.map_eq_some_iff.mp hahas
    have hvalue : s.globalValue? a = some global.value := by
      rw [globalValue?, hglobal]
      rfl
    have heval : s.evalConstant globals [.globalGet g] = .ok global.value := by
      rw [Array.getElem?_toList] at ha
      simp only [evalConstant, ha, Option.bind_some, hvalue]
    exact ⟨global.value, heval, constantValue?_of_evalConstant heval,
      hs.globals global (Array.mem_of_getElem? hglobal)⟩

/-- The values of what comes first are those that were given. -/
theorem prefix_globalValues (values : List (Option Value)) (gs : List Global) :
    values <+: globalValues values gs := by
  induction gs generalizing values with
  | nil => exact List.prefix_rfl
  | cons g gs ih => exact (List.prefix_append _ _).trans (ih _)

/-- **The value of a global** is that of its initialiser where those before it have theirs. -/
theorem getElem?_globalValues {values : List (Option Value)} {gs : List Global} {n : Nat} {g : Global}
    (hg : gs[n]? = some g) : (globalValues values gs)[values.length + n]? =
      some (constantValue? ((globalValues values gs).take (values.length + n)) g.initial) := by
  induction gs generalizing values n with
  | nil => cases hg
  | cons g₀ gs ih =>
    rw [globalValues]
    cases n with
    | zero =>
      cases hg
      obtain ⟨later, hlater⟩ := prefix_globalValues (values ++ [constantValue? values g.initial]) gs
      rw [← hlater]
      simp
    | succ n =>
      have hlength : values.length + (n + 1) =
          (values ++ [constantValue? values g₀.initial]).length + n := by
        simp [Nat.add_comm, Nat.add_left_comm]
      rw [hlength]
      exact ih hg

/-- A global of its type is added after those that are there. -/
theorem allocGlobal_of_type {type : GlobalType} {v : Value} (hv : v.type = type.type) :
    s.allocGlobal type v =
      .ok (s.globals.size, { s with globals := s.globals.push { type, value := v } }) := by
  rw [allocGlobal, if_pos hv]

/-- The values of the globals that are there do not change when another is added. -/
theorem valuesAt_push {globals : Array GlobalAddr} {earlier : List GlobalType}
    (hglobals : List.Forall₂ s.GlobalHasType globals.toList earlier) (g : GlobalInst) :
    ({ s with globals := s.globals.push g } : Store).valuesAt (globals.push s.globals.size) =
      s.valuesAt globals ++ [some g.value] := by
  have hold : ∀ a ∈ globals.toList,
      ({ s with globals := s.globals.push g } : Store).globalValue? a = s.globalValue? a := by
    intro a ha
    obtain ⟨n, hn⟩ := List.mem_iff_getElem?.mp ha
    obtain ⟨type, -, htype⟩ := getElem?_of_forall₂ hglobals.flip hn
    obtain ⟨global, hglobal, -⟩ := Option.map_eq_some_iff.mp htype
    have hlt := (Array.getElem?_eq_some_iff.mp hglobal).1
    show ((s.globals.push g)[a]?).map _ = (s.globals[a]?).map _
    rw [Array.getElem?_push_lt hlt, Array.getElem?_eq_getElem hlt]
  have hnew : ({ s with globals := s.globals.push g } : Store).globalValue? s.globals.size =
      some g.value := by
    show ((s.globals.push g)[s.globals.size]?).map _ = _
    rw [Array.getElem?_push_size]
    rfl
  rw [valuesAt, Array.toList_push, List.map_append, List.map_congr_left hold]
  simp [hnew]

/-- **The globals of a checked module** are all allocated, with the values of their initialisers, and
    nothing else changes. -/
theorem allocGlobals_of_checked (gs : List Global) (hs : s.WellFormed origins)
    {globals : Array GlobalAddr} {earlier : List GlobalType}
    (hglobals : List.Forall₂ s.GlobalHasType globals.toList earlier)
    (hearlier : earlier ++ gs.map Global.type <+: c.globals.toList)
    (hchecked : ∀ p ∈ gs.zipIdx earlier.length, Validate.global c p.2 p.1 = .ok ()) :
    ∃ globals' new, Linking.allocGlobals globals gs s = .ok globals' { s with globals := new } ∧
      ({ s with globals := new } : Store).valuesAt globals' =
        globalValues (s.valuesAt globals) gs := by
  induction gs generalizing s globals earlier with
  | nil => exact ⟨globals, s.globals, rfl, rfl⟩
  | cons g gs ih =>
    rw [List.zipIdx_cons] at hchecked
    have hfirst : checkConstant c earlier.length g.type.type g.initial = .ok () :=
      hchecked (g, earlier.length) List.mem_cons_self
    obtain ⟨i, hinitial, hi⟩ := checkConstant_eq_ok hfirst
    have hprefix : earlier <+: c.globals.toList := (List.prefix_append _ _).trans hearlier
    obtain ⟨v, heval, hvalue, htype⟩ := evalConstant_of_constant hs hglobals hprefix hi
    have halloc := allocGlobal_of_type (s := s) htype
    obtain ⟨hgrown, hhas⟩ := allocGlobal_spec hs halloc
    have hglobals' : List.Forall₂
        ({ s with globals := s.globals.push { type := g.type, value := v } } : Store).GlobalHasType
        (globals.push s.globals.size).toList (earlier ++ [g.type]) := by
      rw [Array.toList_push]
      exact List.rel_append (hglobals.imp fun _ _ ha => map_type_mono hgrown.persists ha)
        (.cons hhas .nil)
    have hearlier' : (earlier ++ [g.type]) ++ gs.map Global.type <+: c.globals.toList := by
      rw [List.append_assoc]
      exact hearlier
    have hchecked' : ∀ p ∈ gs.zipIdx (earlier ++ [g.type]).length,
        Validate.global c p.2 p.1 = .ok () := by
      rw [List.length_append]
      exact fun p hp => hchecked p (List.mem_cons_of_mem _ hp)
    obtain ⟨globals', new, hrest, hvalues⟩ := ih hgrown.wellFormed hglobals' hearlier' hchecked'
    refine ⟨globals', new, ?_, ?_⟩
    · rw [Linking.allocGlobals, Move.get_bind, hinitial]
      have hconst : Linking.ofExcept (s.evalConstant globals [i]) s = .ok v s := by
        rw [heval]
        rfl
      rw [Move.bind_of_ok hconst, Move.bind_of_ok (Linking.add_of_ok halloc)]
      exact hrest
    · rw [valuesAt_push hglobals] at hvalues
      rw [globalValues, hinitial, hvalue]
      exact hvalues

/-- Globals that were allocated come after those that were there, with the types that they are declared
    with. -/
theorem allocGlobals_eq_ok {globals globals' : Array GlobalAddr} {gs : List Global}
    (h : Linking.allocGlobals globals gs s = .ok globals' s') :
    ∃ new : List GlobalInst, s' = { s with globals := s.globals ++ new.toArray } ∧
      globals' = globals ++ (List.range' s.globals.size gs.length).toArray ∧
      new.map GlobalInst.type = gs.map Global.type := by
  induction gs generalizing s globals with
  | nil => cases h; exact ⟨[], by simp, by simp, rfl⟩
  | cons g gs ih =>
    rw [Linking.allocGlobals, Move.get_bind] at h
    obtain ⟨v, -, h⟩ := Linking.ofExcept_bind_eq_ok h
    obtain ⟨a, s₁, ha, h⟩ := Linking.add_bind_eq_ok h
    unfold allocGlobal at ha
    split at ha
    · cases ha
      obtain ⟨new, rfl, rfl, htypes⟩ := ih h
      refine ⟨{ type := g.type, value := v } :: new, ?_, ?_, by simp [htypes]⟩
      · have harray : s.globals.push { type := g.type, value := v } ++ new.toArray =
            s.globals ++ ({ type := g.type, value := v } :: new).toArray := by
          apply Array.ext'
          simp
        rw [← harray]
      · apply Array.ext'
        simp [List.range'_succ]
    · cases ha

/-! ## Functions -/

/-- The functions of a checked module are all added. -/
theorem allocFuncs_of_checked {inst : ModuleInst} {fs : List Func} (hinst : inst.types = c.types)
    (hfs : ∀ f ∈ fs, Validate.func c f = .ok ()) :
    ∃ s', Linking.allocFuncs inst fs s = .ok () s' := by
  induction fs generalizing s with
  | nil => exact ⟨s, rfl⟩
  | cons f fs ih =>
    obtain ⟨type, htype, -⟩ := bind_eq_ok_iff.mp (hfs f List.mem_cons_self)
    have hlookup : Linking.ofExcept (LinkError.ofTrap (inst.typeAt f.typeIdx)) s = .ok type s := by
      rw [ModuleInst.typeAt_of_types hinst htype]
      rfl
    obtain ⟨s', hrest⟩ := ih (s := s.pushFunc (.defined type inst f))
      fun f' hf' => hfs f' (List.mem_cons_of_mem f hf')
    refine ⟨s', ?_⟩
    rw [Linking.allocFuncs, Move.bind_of_ok hlookup]
    exact hrest

end Store

end WasmCore
