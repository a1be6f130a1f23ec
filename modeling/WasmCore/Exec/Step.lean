import WasmCore.Exec.Machine

/-!
# Instructions on the machine

What each instruction does to the machine.

## Contents

* `LoadOp.value`, `StoreOp.encode`: values from and to bytes;
* `Exec.load`, `Exec.store`, `Exec.memorySize`, `Exec.grow`: memory;
* `Exec.globalAt`, `Exec.setGlobal`: globals;
* `Exec.callIndirect`: calls through a table;
* `Exec.step`: every instruction.
-/

namespace WasmCore

/-! ## Values in memory -/

/-- The value that a load makes of the bytes it reads, given as the low bytes of a word. -/
def LoadOp.value (op : LoadOp) (x : UInt64) : Value :=
  match op with
  | whole t => .ofBits t x
  | byte w s => .int w (.extend8 s x.toUInt8)
  | half w s => .int w (.extend16 s x.toUInt16)
  | word s => .i64 (Width.Word.extend32 s x.toUInt32)

/-- The bytes that a store writes of a value: the low ones. -/
def StoreOp.encode (op : StoreOp) (v : Value) : List UInt8 := Bytes.ofWord op.bytes v.bits

namespace Exec

/-! ## Memory -/

/-- The address of the memory of the function under way. -/
@[inline] def memAddr : Exec MemAddr := do
  let i ← inst
  ofExcept (i.memAddr 0)

/-- The memory at an address. -/
@[inline] def memoryAt (a : MemAddr) : Exec Memory := do
  match (← get).store.memories[a]? with
  | none => throw (.invalidIndex .memory 0)
  | some m => return m

/-- Reads a value from memory. -/
def load (op : LoadOp) (arg : MemArg) : Exec Unit := do
  let base ← popI32
  let a ← memAddr
  let memory ← memoryAt a
  let start := base.toNat + arg.offset.toNat
  if memory.fits start op.bytes then
    push (op.value (memory.wordAt start op.bytes))
  else
    throw .memoryOutOfBounds

/-- Writes a value to memory. -/
def store (op : StoreOp) (arg : MemArg) : Exec Unit := do
  let v ← popType op.type
  let base ← popI32
  let a ← memAddr
  let start := base.toNat + arg.offset.toNat
  if (← memoryAt a).fits start op.bytes then
    modify fun m => { m with store := m.store.overwriteMemory a start (op.encode v) }
  else
    throw .memoryOutOfBounds

/-- Pushes the number of pages of the memory. -/
def memorySize : Exec Unit := do
  let a ← memAddr
  let memory ← memoryAt a
  push (.i32 (UInt32.ofNat memory.pages))

/-- Grows the memory and pushes its old number of pages, or leaves it alone and pushes -1. -/
def grow : Exec Unit := do
  let delta ← popI32
  let cap := (← get).store.config.maxMemoryPages
  let a ← memAddr
  let memory ← memoryAt a
  if memory.canGrow delta.toNat cap then
    let old := memory.pages
    modify fun m =>
      { m with store := { m.store with
          memories := m.store.memories.modify a (·.extend delta.toNat) } }
    push (.i32 (UInt32.ofNat old))
  else
    push (.i32 (-1))

/-! ## Globals -/

/-- The address of a global, and its current state. -/
@[inline] def globalAt (g : GlobalIdx) : Exec (GlobalAddr × GlobalInst) := do
  let i ← inst
  let a ← ofExcept (i.globalAddr g)
  match (← get).store.globals[a]? with
  | none => throw (.invalidIndex .global g.toNat)
  | some global => return (a, global)

/-- Gives a global a value. -/
def setGlobal (g : GlobalIdx) (v : Value) : Exec Unit := do
  let (a, _) ← globalAt g
  modify fun m =>
    { m with store := { m.store with
        globals := m.store.globals.modify a fun global => { global with value := v } } }

/-! ## Indirect calls -/

/-- Calls the function in the slot of the table that is on top of the stack, if it has the given
type. -/
def callIndirect (t : TypeIdx) : Exec Unit := do
  let i ← inst
  let expected ← ofExcept (i.typeAt t)
  let tableAddr ← ofExcept (i.tableAddr 0)
  let slot ← popI32
  match (← get).store.tables[tableAddr]? with
  | none => throw (.invalidIndex .table 0)
  | some table =>
    let a ← ofExcept (table.get slot.toNat)
    let found ← ofExcept ((← get).store.funcType a)
    if found = expected then call a else throw .indirectCallType

/-! ## All instructions -/

/-- What an instruction does. -/
def step : Instr → Exec Unit
  | .unreachable => throw .unreachable
  | .nop => return ()
  | .block t body => enter .block t body
  | .loop t body => enter (.loop body) t body
  | .ifThen t body => do
    if (← popI32) ≠ 0 then enter .block t body
  | .ifElse t body alternate => do
    let condition ← popI32
    enter .block t (if condition ≠ 0 then body else alternate)
  | .br l => branch l.toNat
  | .brIf l => do
    if (← popI32) ≠ 0 then branch l.toNat
  | .brTable ls default => do
    let i ← popI32
    branch (ls[i.toNat]?.getD default).toNat
  | .ret => branchToFunc
  | .call f => do
    let i ← inst
    call (← ofExcept (i.funcAddr f))
  | .callIndirect t => callIndirect t
  | .drop => do
    let _ ← pop
  | .select => do
    let condition ← popI32
    let second ← pop
    let first ← pop
    push (if condition ≠ 0 then first else second)
  | .localGet x => do push (← getLocal x)
  | .localSet x => do setLocal x (← pop)
  | .localTee x => do
    let v ← pop
    setLocal x v
    push v
  | .globalGet g => do
    let (_, global) ← globalAt g
    push global.value
  | .globalSet g => do setGlobal g (← pop)
  | .load op arg => load op arg
  | .store op arg => store op arg
  | .memorySize => memorySize
  | .memoryGrow => grow
  | .const v => push v
  | .numeric op => onStack op.eval

end Exec

end WasmCore
