import WasmCore.Exec.Step
import WasmCore.Proofs.Exec.Moves
import WasmCore.Proofs.Store.WellFormed
import WasmCore.Proofs.Typing.Declarative

/-!
# `Exec.Activation` — what a function under way works on

Of all that a machine holds, an instruction that does not transfer control reads and changes only a
small part: the store, the locals of the function under way, and the operands of the innermost block.
Everything else — operands further down, labels, frames of callers, the code that follows — is its
surroundings, on which nothing depends.

* `Activation`, `Surroundings`, `Activation.on`: the two parts, and the machine they make up;
* `Activation.Typed`: an activation in a scope;
* `Activation.step_plain`: **one instruction of the right type.** It does the same in all surroundings,
  and leaves operands of the type that the rules say or traps without a fault of the machine.
-/

namespace WasmCore

/-- Whether an instruction may transfer control: to a block, to a label or to another function. -/
def Instr.isControl : Instr → Bool
  | .block _ _ | .loop _ _ | .ifThen _ _ | .ifElse _ _ _ => true
  | .br _ | .brIf _ | .brTable _ _ | .ret | .call _ | .callIndirect _ => true
  | _ => false

/-- What the function under way works on. The operands are those of the innermost block, the top
    first. -/
structure Activation where
  store : Store
  fuel : Option Nat
  inst : ModuleInst
  locals : Array Value
  operands : List Value

/-- Everything else that a machine holds. -/
structure Surroundings where
  /-- The operands below those of the innermost block. -/
  under : Operands
  code : List Instr
  labels : Stack Label
  labelBase : Nat
  /-- The frames of the callers. -/
  frames : Stack Frame

/-- The machine that is made up of an activation and its surroundings. -/
def Activation.on (a : Activation) (k : Surroundings) : Machine where
  store := a.store
  fuel := a.fuel
  stack := k.under.pushAll a.operands
  code := k.code
  labels := k.labels
  frames := k.frames.push ⟨a.locals, a.inst, k.labelBase⟩

namespace Activation

variable {a : Activation} {k : Surroundings}

/-! ## Moves -/

/-- A move of the operands on top leaves the rest of the activation and its surroundings alone. -/
theorem onStack_on {α : Type} {f : OperandM α} {x : α} (vs vs' rest : List Value)
    (ha : a.operands = vs ++ rest) (hf : ∀ s : Operands, f (s.pushAll vs) = .ok x (s.pushAll vs')) :
    Exec.onStack f (a.on k) = .ok x ({ a with operands := vs' ++ rest }.on k) := by
  have hs : (a.on k).stack = (k.under.pushAll rest).pushAll vs := by
    apply Stack.ext
    simp only [on, ha, Stack.toList_pushAll, List.append_assoc]
  have hs' : (k.under.pushAll rest).pushAll vs' = k.under.pushAll (vs' ++ rest) := by
    apply Stack.ext
    simp only [Stack.toList_pushAll, List.append_assoc]
  have h := hf (k.under.pushAll rest)
  rw [hs', ← hs] at h
  exact Exec.onStack_of_ok h

theorem push_on (v : Value) :
    Exec.push v (a.on k) = .ok () ({ a with operands := v :: a.operands }.on k) :=
  onStack_on [] [v] a.operands rfl fun _ => rfl

theorem pop_on {v : Value} {rest : List Value} (ha : a.operands = v :: rest) :
    Exec.pop (a.on k) = .ok v ({ a with operands := rest }.on k) :=
  onStack_on [v] [] rest ha fun _ => rfl

theorem popI32_on {x : UInt32} {rest : List Value} (ha : a.operands = .i32 x :: rest) :
    Exec.popI32 (a.on k) = .ok x ({ a with operands := rest }.on k) :=
  onStack_on [.i32 x] [] rest ha fun _ => rfl

theorem popType_on {v : Value} {rest : List Value} (ha : a.operands = v :: rest) :
    Exec.popType v.type (a.on k) = .ok v ({ a with operands := rest }.on k) :=
  onStack_on [v] [] rest ha fun s => OperandM.popType_push v s

theorem inst_on : Exec.inst (a.on k) = .ok a.inst (a.on k) := rfl

theorem getLocal_on {x : LocalIdx} {v : Value} (h : a.locals[x.toNat]? = some v) :
    Exec.getLocal x (a.on k) = .ok v (a.on k) := by
  have hframes : (a.on k).frames.toList = ⟨a.locals, a.inst, k.labelBase⟩ :: k.frames.toList := rfl
  simp only [Exec.getLocal, hframes, h]

theorem setLocal_on {x : LocalIdx} {v : Value} (h : x.toNat < a.locals.size) :
    Exec.setLocal x v (a.on k) =
      .ok () ({ a with locals := a.locals.setIfInBounds x.toNat v }.on k) := by
  show (if x.toNat < a.locals.size then _ else _) = _
  rw [if_pos h]; rfl

/-! ## Types -/

/-- An activation in a scope: its store is well-formed, its instance provides what the scope declares,
    and its locals have the declared types. -/
structure Typed (a : Activation) (origins : List (Option Module)) (C : Scope) : Prop where
  store : a.store.WellFormed origins
  inst : a.inst.Implements a.store C.toContext
  locals : a.locals.toList.map Value.type = C.locals

/-- **What a move makes of an activation.** It does the same in all surroundings. Either it leaves an
    activation in the same scope, with operands of types `outs` above those that it does not see, or it
    traps, and then neither by a fault of the machine nor after a change of the store. -/
def Does (a : Activation) (f : Exec Unit) (origins : List (Option Module)) (C : Scope)
    (below : List Value) (outs : List ValType) : Prop :=
  (∃ (a' : Activation) (vs : List Value), (∀ k, f (a.on k) = .ok () (a'.on k)) ∧ a'.Typed origins C ∧
    a.store.Persists a'.store ∧ a'.inst = a.inst ∧ a'.fuel = a.fuel ∧
    a'.operands = vs ++ below ∧ vs.map Value.type = outs.reverse) ∨
  (∃ t : Trap, t.internal = false ∧ ∀ k, ∃ m, f (a.on k) = .error t m ∧ m.store = a.store)

variable {origins : List (Option Module)} {C : Scope} {below vs : List Value}
  {outs : List ValType} {f : Exec Unit}

/-- A move that only replaces operands. -/
theorem does_of_operands (vs : List Value) (ha : a.Typed origins C)
    (hf : ∀ k, f (a.on k) = .ok () ({ a with operands := vs ++ below }.on k))
    (hvs : vs.map Value.type = outs.reverse) : a.Does f origins C below outs :=
  Or.inl ⟨_, vs, hf, ⟨ha.store, ha.inst, ha.locals⟩, .refl _, rfl, rfl, rfl, hvs⟩

/-- A local of a declared type has a value of that type. -/
theorem Typed.getLocal (ha : a.Typed origins C) {x : LocalIdx} {t : ValType}
    (hx : C.locals[x.toNat]? = some t) : ∃ v, a.locals[x.toNat]? = some v ∧ v.type = t := by
  rw [← ha.locals, List.getElem?_map, Option.map_eq_some_iff, Array.getElem?_toList] at hx
  exact hx

/-- A local keeps its type when it gets a value of that type. -/
theorem Typed.setLocal (ha : a.Typed origins C) {x : LocalIdx} {v : Value}
    (hx : C.locals[x.toNat]? = some v.type) (vs : List Value) :
    ({ a with locals := a.locals.setIfInBounds x.toNat v, operands := vs } : Activation).Typed
      origins C where
  store := ha.store
  inst := ha.inst
  locals := by
    show (a.locals.setIfInBounds x.toNat v).toList.map Value.type = C.locals
    rw [Array.toList_setIfInBounds, List.map_set, ha.locals]
    obtain ⟨hlt, hget⟩ := List.getElem?_eq_some_iff.mp hx
    rw [← hget, List.set_getElem_self]

/-! ## Operands and variables -/

theorem step_drop (ha : a.Typed origins C) (hops : a.operands = vs ++ below) {t : ValType}
    (hvs : vs.map Value.type = [t]) : a.Does (Exec.step .drop) origins C below [] := by
  obtain ⟨v, rfl, -⟩ := values_of_one hvs
  exact does_of_operands [] ha (fun k => Move.bind_of_ok (pop_on hops)) rfl

theorem step_select (ha : a.Typed origins C) (hops : a.operands = vs ++ below) {t : ValType}
    (hvs : vs.map Value.type = [.i32, t, t]) :
    a.Does (Exec.step .select) origins C below [t] := by
  obtain ⟨v, second, first, rfl, hv, hsecond, hfirst⟩ := values_of_three hvs
  obtain ⟨condition, rfl⟩ := Value.eq_i32_of_type hv
  refine does_of_operands [if condition ≠ 0 then first else second] ha (fun k => ?_) ?_
  · calc Exec.step .select (a.on k)
      _ = (do let second ← Exec.pop
              let first ← Exec.pop
              Exec.push (if condition ≠ 0 then first else second) : Exec Unit)
            ({ a with operands := second :: first :: below }.on k) :=
          Move.bind_of_ok (popI32_on hops)
      _ = (do let first ← Exec.pop
              Exec.push (if condition ≠ 0 then first else second) : Exec Unit)
            ({ a with operands := first :: below }.on k) := Move.bind_of_ok (pop_on rfl)
      _ = Exec.push (if condition ≠ 0 then first else second)
            ({ a with operands := below }.on k) := Move.bind_of_ok (pop_on rfl)
      _ = _ := push_on _
  · by_cases hc : condition ≠ 0
    · rw [if_pos hc]; simp [hfirst]
    · rw [if_neg hc]; simp [hsecond]

theorem step_localGet (ha : a.Typed origins C) {x : LocalIdx} {t : ValType}
    (hx : C.locals[x.toNat]? = some t) :
    a.Does (Exec.step (.localGet x)) origins C a.operands [t] := by
  obtain ⟨v, hv, rfl⟩ := ha.getLocal hx
  refine does_of_operands [v] ha (fun k => ?_) rfl
  exact (Move.bind_of_ok (getLocal_on hv)).trans (push_on v)

theorem step_localSet (ha : a.Typed origins C) (hops : a.operands = vs ++ below) {x : LocalIdx}
    {t : ValType} (hx : C.locals[x.toNat]? = some t) (hvs : vs.map Value.type = [t]) :
    a.Does (Exec.step (.localSet x)) origins C below [] := by
  obtain ⟨v, rfl, rfl⟩ := values_of_one hvs
  obtain ⟨old, hold, -⟩ := ha.getLocal hx
  have hlt : x.toNat < a.locals.size := (Array.getElem?_eq_some_iff.mp hold).1
  refine Or.inl ⟨_, [], fun k => ?_, ha.setLocal hx below, .refl _, rfl, rfl, rfl, rfl⟩
  exact (Move.bind_of_ok (pop_on hops)).trans (setLocal_on hlt)

theorem step_localTee (ha : a.Typed origins C) (hops : a.operands = vs ++ below) {x : LocalIdx}
    {t : ValType} (hx : C.locals[x.toNat]? = some t) (hvs : vs.map Value.type = [t]) :
    a.Does (Exec.step (.localTee x)) origins C below [t] := by
  obtain ⟨v, rfl, rfl⟩ := values_of_one hvs
  obtain ⟨old, hold, -⟩ := ha.getLocal hx
  have hlt : x.toNat < a.locals.size := (Array.getElem?_eq_some_iff.mp hold).1
  let b : Activation := { a with locals := a.locals.setIfInBounds x.toNat v, operands := below }
  refine Or.inl ⟨{ b with operands := v :: below }, [v], fun k => ?_, ha.setLocal hx (v :: below),
    .refl _, rfl, rfl, rfl, rfl⟩
  exact (Move.bind_of_ok (pop_on hops)).trans ((Move.bind_of_ok
    (setLocal_on (a := { a with operands := below }) hlt)).trans (push_on (a := b) v))

/-- The state of a declared global. -/
theorem globalAt_on {g : GlobalIdx} {addr : GlobalAddr} {global : GlobalInst}
    (haddr : a.inst.globalAddr g = .ok addr) (hg : a.store.globals[addr]? = some global) :
    Exec.globalAt g (a.on k) = .ok (addr, global) (a.on k) := by
  have hof : Exec.ofExcept (a.inst.globalAddr g) (a.on k) = .ok addr (a.on k) := by rw [haddr]; rfl
  have hg' : (a.on k).store.globals[addr]? = some global := hg
  refine (Move.bind_of_ok inst_on).trans ((Move.bind_of_ok hof).trans ?_)
  rw [Move.get_bind, hg']; rfl

theorem step_globalGet (ha : a.Typed origins C) {g : GlobalIdx} {type : GlobalType}
    (hg : C.globals[g.toNat]? = some type) :
    a.Does (Exec.step (.globalGet g)) origins C a.operands [type.type] := by
  obtain ⟨addr, global, haddr, hglobal, rfl⟩ := ha.inst.globalAddr hg
  have hvalue := ha.store.globals global (Array.mem_of_getElem? hglobal)
  refine does_of_operands [global.value] ha (fun k => ?_) (by simp [hvalue])
  exact (Move.bind_of_ok (globalAt_on haddr hglobal)).trans (push_on global.value)

theorem step_globalSet (ha : a.Typed origins C) (hops : a.operands = vs ++ below) {g : GlobalIdx}
    {type : GlobalType} (hg : C.globals[g.toNat]? = some type)
    (hvs : vs.map Value.type = [type.type]) :
    a.Does (Exec.step (.globalSet g)) origins C below [] := by
  obtain ⟨v, rfl, hv⟩ := values_of_one hvs
  obtain ⟨addr, global, haddr, hglobal, rfl⟩ := ha.inst.globalAddr hg
  obtain ⟨hs, hwf⟩ := ha.store.setGlobal hglobal hv
  let a' : Activation := { a with
    store := { a.store with
      globals := a.store.globals.modify addr fun global => { global with value := v } },
    operands := below }
  refine Or.inl ⟨a', [], fun k => ?_, ⟨hwf, ha.inst.mono hs, ha.locals⟩, hs, rfl, rfl, rfl, rfl⟩
  refine (Move.bind_of_ok (pop_on hops)).trans ?_
  exact Move.bind_of_ok (globalAt_on (a := { a with operands := below }) haddr hglobal)

/-! ## Memory -/

theorem memAddr_on {addr : MemAddr} (haddr : a.inst.memAddr 0 = .ok addr) :
    Exec.memAddr (a.on k) = .ok addr (a.on k) := by
  refine (Move.bind_of_ok inst_on).trans ?_
  rw [haddr]; rfl

theorem memoryAt_on {addr : MemAddr} {memory : Memory}
    (h : a.store.memories[addr]? = some memory) :
    Exec.memoryAt addr (a.on k) = .ok memory (a.on k) := by
  have h' : (a.on k).store.memories[addr]? = some memory := h
  rw [Exec.memoryAt, Move.get_bind, h']; rfl

theorem type_loadValue (op : LoadOp) (x : UInt64) : (op.value x).type = op.type := by
  cases op with
  | whole t => exact Value.type_ofBits t x
  | byte w s => exact Value.type_int w _
  | half w s => exact Value.type_int w _
  | word s => rfl

/-- A load, once its memory has been found. -/
theorem step_load_eq {base : UInt32} {addr : MemAddr} {memory : Memory}
    (hops : a.operands = .i32 base :: below) (op : LoadOp) (arg : MemArg)
    (haddr : a.inst.memAddr 0 = .ok addr) (hmemory : a.store.memories[addr]? = some memory) :
    Exec.step (.load op arg) (a.on k) =
      (if memory.fits (base.toNat + arg.offset.toNat) op.bytes then
        Exec.push (op.value (memory.wordAt (base.toNat + arg.offset.toNat) op.bytes))
        else throw .memoryOutOfBounds : Exec Unit) ({ a with operands := below }.on k) :=
  (Move.bind_of_ok (popI32_on hops)).trans
    ((Move.bind_of_ok (memAddr_on (a := { a with operands := below }) haddr)).trans
      (Move.bind_of_ok (memoryAt_on (a := { a with operands := below }) hmemory)))

/-- A store, once its memory has been found. -/
theorem step_store_eq {op : StoreOp} {v : Value} {base : UInt32} {addr : MemAddr} {memory : Memory}
    (hops : a.operands = v :: .i32 base :: below) (hv : v.type = op.type) (arg : MemArg)
    (haddr : a.inst.memAddr 0 = .ok addr) (hmemory : a.store.memories[addr]? = some memory) :
    Exec.step (.store op arg) (a.on k) =
      (if memory.fits (base.toNat + arg.offset.toNat) op.bytes then
        modify fun m => { m with store :=
          m.store.overwriteMemory addr (base.toNat + arg.offset.toNat) (op.encode v) }
        else throw .memoryOutOfBounds : Exec Unit) ({ a with operands := below }.on k) := by
  have hpop := popType_on (a := a) (k := k) hops
  rw [hv] at hpop
  exact (Move.bind_of_ok hpop).trans ((Move.bind_of_ok (popI32_on rfl)).trans
    ((Move.bind_of_ok (memAddr_on (a := { a with operands := below }) haddr)).trans
      (Move.bind_of_ok (memoryAt_on (a := { a with operands := below }) hmemory))))

theorem step_load (ha : a.Typed origins C) (hops : a.operands = vs ++ below) {op : LoadOp}
    {arg : MemArg} (hm : 0 < C.memories.size) (hvs : vs.map Value.type = [.i32]) :
    a.Does (Exec.step (.load op arg)) origins C below [op.type] := by
  obtain ⟨x, rfl⟩ := values_of_i32 hvs
  obtain ⟨addr, memory, haddr, hmemory⟩ := ha.inst.memAddr hm
  let start := x.toNat + arg.offset.toNat
  have hrun := fun k => step_load_eq (k := k) hops op arg haddr hmemory
  by_cases hfits : memory.fits start op.bytes = true
  · refine does_of_operands [op.value (memory.wordAt start op.bytes)] ha (fun k => ?_) ?_
    · rw [hrun, if_pos hfits]; exact push_on _
    · simp [type_loadValue]
  · refine Or.inr ⟨.memoryOutOfBounds, rfl, fun k => ⟨{ a with operands := below }.on k, ?_, rfl⟩⟩
    rw [hrun, if_neg hfits]; rfl

theorem step_store (ha : a.Typed origins C) (hops : a.operands = vs ++ below) {op : StoreOp}
    {arg : MemArg} (hm : 0 < C.memories.size) (hvs : vs.map Value.type = [op.type, .i32]) :
    a.Does (Exec.step (.store op arg)) origins C below [] := by
  obtain ⟨v, v', rfl, hv, hv'⟩ := values_of_two hvs
  obtain ⟨x, rfl⟩ := Value.eq_i32_of_type hv'
  obtain ⟨addr, memory, haddr, hmemory⟩ := ha.inst.memAddr hm
  let start := x.toNat + arg.offset.toNat
  have hrun := fun k => step_store_eq (k := k) hops hv arg haddr hmemory
  by_cases hfits : memory.fits start op.bytes = true
  · obtain ⟨hs, hwf⟩ := ha.store.setMemories
      (a.store.memories.modify addr (·.overwrite start (op.encode v))) (by simp)
    let a' : Activation := { a with
      store := a.store.overwriteMemory addr start (op.encode v), operands := below }
    refine Or.inl ⟨a', [], fun k => ?_, ⟨hwf, ha.inst.mono hs, ha.locals⟩, hs, rfl, rfl, rfl, rfl⟩
    rw [hrun, if_pos hfits]; rfl
  · refine Or.inr ⟨.memoryOutOfBounds, rfl, fun k => ⟨{ a with operands := below }.on k, ?_, rfl⟩⟩
    rw [hrun, if_neg hfits]; rfl

/-- The number of pages, once the memory has been found. -/
theorem step_memorySize_eq {addr : MemAddr} {memory : Memory} (haddr : a.inst.memAddr 0 = .ok addr)
    (hmemory : a.store.memories[addr]? = some memory) :
    Exec.step .memorySize (a.on k) =
      .ok () ({ a with operands := .i32 (UInt32.ofNat memory.pages) :: a.operands }.on k) :=
  (Move.bind_of_ok (memAddr_on haddr)).trans
    ((Move.bind_of_ok (memoryAt_on hmemory)).trans (push_on _))

/-- Growing, once the memory has been found. -/
theorem step_memoryGrow_eq {delta : UInt32} {addr : MemAddr} {memory : Memory}
    (hops : a.operands = .i32 delta :: below) (haddr : a.inst.memAddr 0 = .ok addr)
    (hmemory : a.store.memories[addr]? = some memory) :
    Exec.step .memoryGrow (a.on k) =
      if memory.canGrow delta.toNat a.store.config.maxMemoryPages then
        .ok () ({ a with
          store := { a.store with memories := a.store.memories.modify addr (·.extend delta.toNat) }
          operands := .i32 (UInt32.ofNat memory.pages) :: below }.on k)
      else .ok () ({ a with operands := .i32 (-1) :: below }.on k) := by
  have hrun : Exec.step .memoryGrow (a.on k) =
      (if memory.canGrow delta.toNat a.store.config.maxMemoryPages then do
          modify fun m => { m with store := { m.store with
            memories := m.store.memories.modify addr (·.extend delta.toNat) } }
          Exec.push (.i32 (UInt32.ofNat memory.pages))
        else Exec.push (.i32 (-1)) : Exec Unit) ({ a with operands := below }.on k) :=
    (Move.bind_of_ok (popI32_on hops)).trans
      ((Move.bind_of_ok (memAddr_on (a := { a with operands := below }) haddr)).trans
        (Move.bind_of_ok (memoryAt_on (a := { a with operands := below }) hmemory)))
  rw [hrun]
  split
  · exact (Move.bind_of_ok rfl).trans (push_on (a := { a with
      store := { a.store with memories := a.store.memories.modify addr (·.extend delta.toNat) }
      operands := below }) _)
  · exact push_on _

theorem step_memorySize (ha : a.Typed origins C) (hm : 0 < C.memories.size) :
    a.Does (Exec.step .memorySize) origins C a.operands [.i32] := by
  obtain ⟨addr, memory, haddr, hmemory⟩ := ha.inst.memAddr hm
  exact does_of_operands [.i32 (UInt32.ofNat memory.pages)] ha
    (fun k => step_memorySize_eq haddr hmemory) rfl

theorem step_memoryGrow (ha : a.Typed origins C) (hops : a.operands = vs ++ below)
    (hm : 0 < C.memories.size) (hvs : vs.map Value.type = [.i32]) :
    a.Does (Exec.step .memoryGrow) origins C below [.i32] := by
  obtain ⟨delta, rfl⟩ := values_of_i32 hvs
  obtain ⟨addr, memory, haddr, hmemory⟩ := ha.inst.memAddr hm
  have hrun := fun k => step_memoryGrow_eq (k := k) hops haddr hmemory
  -- Growing fails without a trap: it gives minus one and leaves the memory as it is.
  by_cases hgrow : memory.canGrow delta.toNat a.store.config.maxMemoryPages = true
  · obtain ⟨hs, hwf⟩ := ha.store.setMemories
      (a.store.memories.modify addr (·.extend delta.toNat)) (by simp)
    refine Or.inl ⟨{ a with
        store := { a.store with
          memories := a.store.memories.modify addr (·.extend delta.toNat) }
        operands := .i32 (UInt32.ofNat memory.pages) :: below },
      [.i32 (UInt32.ofNat memory.pages)], fun k => ?_,
      ⟨hwf, ha.inst.mono hs, ha.locals⟩, hs, rfl, rfl, rfl, rfl⟩
    rw [hrun, if_pos hgrow]
    rfl
  · refine does_of_operands [.i32 (-1)] ha (fun k => ?_) rfl
    rw [hrun, if_neg hgrow]
    rfl

/-! ## Numbers -/

theorem step_numeric (ha : a.Typed origins C) (hops : a.operands = vs ++ below) {op : NumOp}
    (hvs : vs.map Value.type = op.operands.reverse) :
    a.Does (Exec.step (.numeric op)) origins C below [op.result] := by
  rcases op.eval_of_types hvs with ⟨v, hv, hok⟩ | ⟨t, ht, herror⟩
  · refine does_of_operands [v] ha (fun k => ?_) (by simp [hv])
    exact onStack_on vs [v] below hops hok
  · refine Or.inr ⟨t, ht, fun k => ?_⟩
    obtain ⟨stack, hstack⟩ := herror (k.under.pushAll below)
    have hs : (k.under.pushAll below).pushAll vs = (a.on k).stack := by
      apply Stack.ext
      simp only [on, hops, Stack.toList_pushAll, List.append_assoc]
    rw [hs] at hstack
    exact ⟨{ a.on k with stack }, Exec.onStack_of_error hstack, rfl⟩

/-! ## All instructions that stay in their block -/

/-- **One instruction that does not transfer control.** On operands of the types that it takes, it
    leaves operands of the types that it gives, or traps without a fault of the machine. -/
theorem step_plain (ha : a.Typed origins C) {i : Instr} (hi : i.isControl = false)
    {ins : List ValType} (h : Instr.HasType C i ins outs) (hops : a.operands = vs ++ below)
    (hvs : vs.map Value.type = ins.reverse) : a.Does (Exec.step i) origins C below outs := by
  cases h with
  | unreachable =>
    exact Or.inr ⟨.unreachable, rfl, fun k => ⟨a.on k, rfl, rfl⟩⟩
  | nop =>
    obtain rfl := List.map_eq_nil_iff.mp hvs
    obtain rfl : a.operands = below := hops
    exact does_of_operands [] ha (fun k => rfl) rfl
  | drop => exact step_drop ha hops hvs
  | select => exact step_select ha hops hvs
  | localGet hx =>
    obtain rfl := List.map_eq_nil_iff.mp hvs
    obtain rfl : a.operands = below := hops
    exact step_localGet ha hx
  | localSet hx => exact step_localSet ha hops hx hvs
  | localTee hx => exact step_localTee ha hops hx hvs
  | globalGet hg =>
    obtain rfl := List.map_eq_nil_iff.mp hvs
    obtain rfl : a.operands = below := hops
    exact step_globalGet ha hg
  | globalSet hg _ => exact step_globalSet ha hops hg hvs
  | load hm _ => exact step_load ha hops hm hvs
  | store hm _ => exact step_store ha hops hm hvs
  | memorySize hm =>
    obtain rfl := List.map_eq_nil_iff.mp hvs
    obtain rfl : a.operands = below := hops
    exact step_memorySize ha hm
  | memoryGrow hm => exact step_memoryGrow ha hops hm hvs
  | @const _ v =>
    obtain rfl := List.map_eq_nil_iff.mp hvs
    obtain rfl : a.operands = below := hops
    exact does_of_operands [v] ha (fun k => push_on v) rfl
  | numeric => exact step_numeric ha hops hvs
  | _ => cases hi

end Activation

end WasmCore
