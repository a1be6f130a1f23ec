import WasmCore.Proofs.Exec.Activation

/-!
# `Exec.Access` — bytes in and out of a memory

Loads and stores of all widths, and the host, work on the same bytes. An access is in range or it traps
and changes nothing; a range begins at the sum of an address and an offset, which does not wrap around.
What is written are the low bytes of a value, least significant first, and what is read is the number
that the bytes make, extended. So what one access writes, another one reads, whoever makes them; and
accesses to ranges that have nothing in common do not notice each other.

* `Memory.Wrote`, `Store.Wrote`: **a range of bytes has been written**, and nothing else has changed;
* `LoadOp.extended`, `LoadOp.value_eq`: the value that a load makes of a number;
* `Activation.load_on`, `Activation.store_on`: one load, one store;
* `ExactAccess`, `exactAccess`: **all accesses to a memory**, with what they see of each other.
-/

namespace WasmCore

-- Powers of numbers are those of the core library.
attribute [local instance (high)] instPowNat

/-! ## Written ranges -/

/-- **Bytes have been written to a memory** from a position on, and nothing else has changed. -/
structure Memory.Wrote (m : Memory) (start : Nat) (bs : List UInt8) (m' : Memory) : Prop where
  fits : start + bs.length ≤ m.size
  max : m'.max = m.max
  pages : m'.pages = m.pages
  inside : ∀ i b, bs[i]? = some b → m'.byteAt (start + i) = b
  outside : ∀ j, j < start ∨ start + bs.length ≤ j → m'.byteAt j = m.byteAt j

/-- **Bytes have been written to the memory at an address**, and nothing else has changed. -/
structure Store.Wrote (s : Store) (addr : MemAddr) (start : Nat) (bs : List UInt8) (s' : Store) :
    Prop where
  memory : ∃ m m', s.memories[addr]? = some m ∧ s'.memories[addr]? = some m' ∧ m.Wrote start bs m'
  others : ∀ addr', addr' ≠ addr → s'.memories[addr']? = s.memories[addr']?
  rest : { s' with memories := s.memories } = s

namespace Memory

variable {m m' : Memory} {start start' : Nat} {bs bs' : List UInt8}

/-- A range that does not fit goes past the end. -/
theorem ite_fits {α : Sort _} (m : Memory) (start count : Nat) (x y : α) :
    (if m.fits start count = true then x else y) = if m.size < start + count then y else x := by
  by_cases hout : m.size < start + count
  · rw [if_pos hout, if_neg (by rw [m.fits_iff]; omega)]
  · rw [if_neg hout, if_pos (by rw [m.fits_iff]; omega)]

theorem wrote_overwrite (hfits : start + bs.length ≤ m.size) :
    m.Wrote start bs (m.overwrite start bs) where
  fits := hfits
  max := max_overwrite m start bs
  pages := pages_overwrite m start bs
  inside := by
    intro i b hb
    have hi : i < bs.length := (List.getElem?_eq_some_iff.mp hb).1
    rw [byteAt_overwrite, if_pos (by omega), Nat.add_sub_cancel_left, List.getD_eq_getElem?_getD, hb,
      Option.getD_some]
  outside := by
    intro j hj
    rw [byteAt_overwrite, if_neg (by omega)]

theorem Wrote.size (h : m.Wrote start bs m') : m'.size = m.size := by
  rw [Memory.size, Memory.size, h.pages]

/-- What was written is there, in whole and in part. -/
theorem Wrote.bytesAt_inside (h : m.Wrote start bs m') {i count : Nat} (hrange : i + count ≤ bs.length) :
    m'.bytesAt (start + i) count = (bs.drop i).take count := by
  induction count generalizing i with
  | zero => simp [Memory.bytesAt]
  | succ count ih =>
    have hi : i < bs.length := by omega
    rw [bytesAt_succ, h.inside i bs[i] (List.getElem?_eq_getElem hi), List.drop_eq_getElem_cons hi,
      List.take_succ_cons, Nat.add_assoc, ih (by omega)]

/-- Ranges that have nothing in common with what was written are as they were. -/
theorem Wrote.bytesAt_outside (h : m.Wrote start bs m') {start' count : Nat}
    (hapart : start' + count ≤ start ∨ start + bs.length ≤ start') :
    m'.bytesAt start' count = m.bytesAt start' count := by
  refine List.map_congr_left fun j hj => h.outside j ?_
  have hrange := List.mem_range'_1.mp hj
  omega

/-- A byte, found by its page and its place there. -/
theorem byteAt_eq {j n i : Nat} (hn : n < m.contents.size) (hi : i < pageSize) (hpage : j / pageSize = n)
    (hplace : j % pageSize = i) : m.byteAt j = m.contents[n][i] := by
  subst hpage hplace
  rw [byteAt, Array.getElem?_eq_getElem hn]
  rfl

/-- Memories of the same size with the same bytes are the same. -/
theorem ext_byteAt (hmax : m'.max = m.max) (hpages : m'.pages = m.pages)
    (hbytes : ∀ j, m'.byteAt j = m.byteAt j) : m' = m := by
  have hcontents : m'.contents = m.contents := by
    refine Array.ext hpages fun n hn hn' => Vector.ext fun i hi => ?_
    have hpage : (pageSize * n + i) / pageSize = n := by
      rw [Nat.mul_add_div pageSize_pos, Nat.div_eq_of_lt hi, Nat.add_zero]
    have hplace : (pageSize * n + i) % pageSize = i := by
      rw [Nat.mul_add_mod, Nat.mod_eq_of_lt hi]
    rw [← byteAt_eq hn hi hpage hplace, ← byteAt_eq hn' hi hpage hplace, hbytes]
  cases m
  cases m'
  cases hmax
  cases hcontents
  rfl

/-- What has been written says all about the memory. -/
theorem Wrote.eq_overwrite (h : m.Wrote start bs m') : m' = m.overwrite start bs := by
  have hw := wrote_overwrite h.fits
  refine ext_byteAt (h.max.trans hw.max.symm) (h.pages.trans hw.pages.symm) fun j => ?_
  by_cases hin : start ≤ j ∧ j < start + bs.length
  · obtain ⟨i, rfl⟩ := Nat.exists_eq_add_of_le hin.1
    have hb := List.getElem?_eq_getElem (l := bs) (i := i) (by omega)
    rw [h.inside i _ hb, hw.inside i _ hb]
  · rw [h.outside j (by omega), hw.outside j (by omega)]

/-- Ranges that have nothing in common may be written in either order. -/
theorem overwrite_comm (m : Memory)
    (hapart : start' + bs'.length ≤ start ∨ start + bs.length ≤ start') :
    (m.overwrite start bs).overwrite start' bs' = (m.overwrite start' bs').overwrite start bs := by
  refine ext_byteAt (by simp) (by simp) fun j => ?_
  simp only [byteAt_overwrite, size_overwrite]
  by_cases h : start ≤ j ∧ j < start + bs.length ∧ j < m.size
  · have h' : ¬(start' ≤ j ∧ j < start' + bs'.length ∧ j < m.size) := by omega
    rw [if_neg h', if_pos h, if_pos h]
  · rw [if_neg h, if_neg h]

end Memory

namespace Store

variable {s s' s₁ s₂ : Store} {addr addr' : MemAddr} {mem : Memory} {start start' : Nat}
  {bs bs' : List UInt8}

theorem wrote_overwriteMemory (hmem : s.memories[addr]? = some mem)
    (hfits : start + bs.length ≤ mem.size) : s.Wrote addr start bs (s.overwriteMemory addr start bs) where
  memory := by
    refine ⟨mem, mem.overwrite start bs, hmem, ?_, Memory.wrote_overwrite hfits⟩
    rw [overwriteMemory, Array.getElem?_modify, if_pos rfl, hmem, Option.map_some]
  others := by
    intro addr' hother
    rw [overwriteMemory, Array.getElem?_modify, if_neg (Ne.symm hother)]
  rest := rfl

/-- **The host reads** a range that is inside the memory, and no other. -/
theorem readMemory_eq (hmem : s.memories[addr]? = some mem) (start count : Nat) :
    s.readMemory addr start count =
      if mem.size < start + count then .error .memoryOutOfBounds else .ok (mem.bytesAt start count) := by
  rw [readMemory, hmem, Option.bind_some, Memory.read, Memory.ite_fits]
  by_cases hout : mem.size < start + count
  · rw [if_pos hout, if_pos hout]
  · rw [if_neg hout, if_neg hout]

/-- **The host writes** to a range that is inside the memory, and no other. -/
theorem writeMemory_eq (hmem : s.memories[addr]? = some mem) (start : Nat) (bs : List UInt8) :
    s.writeMemory addr start bs =
      if mem.size < start + bs.length then (.error .memoryOutOfBounds, s)
      else (.ok (), s.overwriteMemory addr start bs) := by
  rw [writeMemory_eq_ite, memoryFits, hmem, Option.any_some, Memory.ite_fits]

/-- What was written can be read, in whole and in part. -/
theorem Wrote.seen (h : s.Wrote addr start bs s') (hmem : s'.memories[addr]? = some mem)
    {i count : Nat} (hrange : i + count ≤ bs.length) :
    start + i + count ≤ mem.size ∧ mem.bytesAt (start + i) count = (bs.drop i).take count := by
  obtain ⟨m, m', -, hm', hwrote⟩ := h.memory
  cases hm'.symm.trans hmem
  have hfits := hwrote.fits
  rw [← hwrote.size] at hfits
  exact ⟨by omega, hwrote.bytesAt_inside hrange⟩

/-- A range that has nothing in common with what was written, or belongs to another memory, is as it
    was. -/
theorem Wrote.apart (h : s.Wrote addr start bs s') {count : Nat}
    (hmem : s.memories[addr']? = some mem)
    (hapart : addr' ≠ addr ∨ start' + count ≤ start ∨ start + bs.length ≤ start') :
    ∃ mem', s'.memories[addr']? = some mem' ∧ mem'.size = mem.size ∧
      mem'.bytesAt start' count = mem.bytesAt start' count := by
  by_cases hsame : addr' = addr
  · subst hsame
    obtain ⟨m, m', hm, hm', hwrote⟩ := h.memory
    cases hm.symm.trans hmem
    exact ⟨m', hm', hwrote.size, hwrote.bytesAt_outside (hapart.resolve_left fun hne => hne rfl)⟩
  · exact ⟨mem, (h.others addr' hsame).trans hmem, rfl, rfl⟩

/-- What has been written says all about the store. -/
theorem Wrote.eq_overwriteMemory (h : s.Wrote addr start bs s') :
    s' = s.overwriteMemory addr start bs := by
  obtain ⟨m, m', hm, hm', hwrote⟩ := h.memory
  have hmemories : s'.memories = s.memories.modify addr (·.overwrite start bs) := by
    apply Array.ext_getElem?
    intro addr'
    rw [Array.getElem?_modify]
    split
    · next hsame => rw [← hsame, hm', hm, hwrote.eq_overwrite, Option.map_some]
    · next hother => exact h.others addr' (Ne.symm hother)
  have hrest := congrArg (fun t : Store => { t with memories := s'.memories }) h.rest
  rw [overwriteMemory, ← hmemories]
  exact hrest

theorem overwriteMemory_comm (s : Store)
    (hapart : addr' ≠ addr ∨ start' + bs'.length ≤ start ∨ start + bs.length ≤ start') :
    (s.overwriteMemory addr start bs).overwriteMemory addr' start' bs' =
      (s.overwriteMemory addr' start' bs').overwriteMemory addr start bs := by
  suffices h : (s.overwriteMemory addr start bs).memories.modify addr' (·.overwrite start' bs') =
      (s.overwriteMemory addr' start' bs').memories.modify addr (·.overwrite start bs) by
    exact congrArg (fun memories => { s with memories := memories }) h
  apply Array.ext_getElem?
  intro x
  simp only [overwriteMemory, Array.getElem?_modify]
  by_cases hsame : addr = addr'
  · subst hsame
    have hcomm := hapart.resolve_left fun hne => hne rfl
    split
    · rw [Option.map_map, Option.map_map]
      exact congrArg (Option.map · _) (funext fun m => m.overwrite_comm hcomm)
    · rfl
  · by_cases hx : addr = x
    · subst hx
      simp [Ne.symm hsame]
    · rw [if_neg hx, if_neg hx]

/-- No memory changes its size. -/
theorem Wrote.size (h : s.Wrote addr start bs s') (x : MemAddr) :
    (s'.memories[x]?).map Memory.size = (s.memories[x]?).map Memory.size := by
  by_cases hx : x = addr
  · obtain ⟨m, m', hm, hm', hwrote⟩ := h.memory
    rw [hx, hm, hm', Option.map_some, Option.map_some, hwrote.size]
  · rw [h.others x hx]

/-- **Writes to ranges that have nothing in common** may be made in either order. -/
theorem Wrote.swap (h₁ : s.Wrote addr start bs s₁) (h₂ : s₁.Wrote addr' start' bs' s₂)
    (hapart : addr' ≠ addr ∨ start' + bs'.length ≤ start ∨ start + bs.length ≤ start') :
    ∃ s₁', s.Wrote addr' start' bs' s₁' ∧ s₁'.Wrote addr start bs s₂ := by
  obtain ⟨m, _, hm, -, hwrote⟩ := h₁.memory
  obtain ⟨m', _, hm', -, hwrote'⟩ := h₂.memory
  have hsize' := h₁.size addr'
  rw [hm', Option.map_some] at hsize'
  obtain ⟨n', hn', hsize'⟩ := Option.map_eq_some_iff.mp hsize'.symm
  have h₁' : s.Wrote addr' start' bs' (s.overwriteMemory addr' start' bs') :=
    wrote_overwriteMemory hn' (by rw [hsize']; exact hwrote'.fits)
  have hsize := h₁'.size addr
  rw [hm, Option.map_some] at hsize
  obtain ⟨n, hn, hsize⟩ := Option.map_eq_some_iff.mp hsize
  refine ⟨_, h₁', ?_⟩
  rw [h₂.eq_overwriteMemory, h₁.eq_overwriteMemory, s.overwriteMemory_comm hapart]
  exact wrote_overwriteMemory hn (by rw [hsize]; exact hwrote.fits)

end Store

/-! ## Values of loads -/

/-- The value that a load makes of a number: its low bits, as many as the access has, extended to the width
    of the result. -/
def LoadOp.extended (op : LoadOp) (n : Nat) : Value :=
  .ofBits op.type (.ofBitVec
    ((op.extension.resize op.type.width.bits (BitVec.ofNat (8 * op.bytes) n)).setWidth 64))

/-- An integer has the bits of its word. -/
theorem Value.int_eq_ofBits (w : Width) (x : w.Word) :
    Value.int w x = .ofBits (.int w) (.ofBitVec (x.toBitVec.setWidth 64)) := by
  cases w with
  | w32 =>
    have hbits : ∀ y : BitVec 32, y = (y.setWidth 64).setWidth 32 := by simp
    exact congrArg Value.i32 (UInt32.toBitVec_inj.mp (hbits (UInt32.toBitVec x)))
  | w64 => exact congrArg Value.i64 (UInt64.toBitVec_inj.mp (BitVec.setWidth_eq _).symm)

/-- **What a load makes of a word** is its number, extended. -/
theorem LoadOp.value_eq (op : LoadOp) (x : UInt64) : op.value x = op.extended x.toNat := by
  cases op with
  | whole t =>
    have h32 : x.toUInt32 =
        (UInt64.ofBitVec (((BitVec.ofNat 32 x.toNat).setWidth 32).setWidth 64)).toUInt32 :=
      UInt32.toBitVec_inj.mp (BitVec.eq_of_toNat_eq (by simp))
    have h64 : x = UInt64.ofBitVec (((BitVec.ofNat 64 x.toNat).setWidth 64).setWidth 64) :=
      UInt64.toBitVec_inj.mp (by simp)
    cases t with
    | i32 => exact congrArg Value.i32 h32
    | i64 => exact congrArg Value.i64 h64
    | f32 => exact congrArg Value.f32 h32
    | f64 => exact congrArg Value.f64 h64
  | byte w s =>
    rw [value, Value.int_eq_ofBits, Width.Word.toBitVec_extend8]
    cases w <;> rfl
  | half w s =>
    rw [value, Value.int_eq_ofBits, Width.Word.toBitVec_extend16]
    cases w <;> rfl
  | word s =>
    have hword := Value.int_eq_ofBits .w64 (Width.Word.extend32 s x.toUInt32)
    rw [Width.Word.toBitVec, Width.Word.toBitVec_extend32] at hword
    exact hword

/-- No access has more bytes than a word. -/
theorem LoadOp.bytes_le (op : LoadOp) : op.bytes ≤ 8 := by
  cases op with
  | whole t => cases t <;> decide
  | _ => simp [bytes]

/-! ## Loads and stores -/

namespace Activation

variable {a : Activation} {k : Surroundings} {addr : MemAddr} {mem : Memory} {arg : MemArg}
  {base : UInt32} {below : List Value}

/-- A function under way whose memory is the one at an address. -/
structure Uses (a : Activation) (addr : MemAddr) (mem : Memory) : Prop where
  address : a.inst.memories[0]? = some addr
  memory : a.store.memories[addr]? = some mem

theorem Uses.memAddr (h : a.Uses addr mem) : a.inst.memAddr 0 = .ok addr := by
  have haddr : a.inst.memories[(0 : MemIdx).toNat]? = some addr := h.address
  rw [ModuleInst.memAddr, haddr]

/-- **A load** traps exactly if its range goes past the end of the memory. Otherwise it pushes the number
    that the bytes of the range make, extended. -/
theorem load_on (huses : a.Uses addr mem) (hops : a.operands = .i32 base :: below) (op : LoadOp) :
    Exec.step (.load op arg) (a.on k) =
      if mem.size < base.toNat + arg.offset.toNat + op.bytes then
        .error .memoryOutOfBounds ({ a with operands := below }.on k)
      else
        .ok () ({ a with operands := op.extended (Bytes.toNat
          (mem.bytesAt (base.toNat + arg.offset.toNat) op.bytes)) :: below }.on k) := by
  rw [step_load_eq hops op arg huses.memAddr huses.memory, mem.ite_fits, op.value_eq,
    mem.toNat_wordAt _ op.bytes_le]
  split
  · rfl
  · exact push_on _

/-- **A store** traps exactly if its range goes past the end of the memory. Otherwise it writes the low bytes
    of the value. -/
theorem store_on (huses : a.Uses addr mem) {v : Value} (hops : a.operands = v :: .i32 base :: below)
    {op : StoreOp} (hv : v.type = op.type) :
    Exec.step (.store op arg) (a.on k) =
      if mem.size < base.toNat + arg.offset.toNat + op.bytes then
        .error .memoryOutOfBounds ({ a with operands := below }.on k)
      else
        .ok () ({ a with
          store := a.store.overwriteMemory addr (base.toNat + arg.offset.toNat)
            (Bytes.ofNat op.bytes v.bits.toNat)
          operands := below }.on k) := by
  rw [step_store_eq hops hv arg huses.memAddr huses.memory, mem.ite_fits, StoreOp.encode,
    Bytes.ofWord_eq]
  split
  · rfl
  · rfl

/-- **A load sees what was written.** -/
theorem load_of_wrote {s : Store} {start : Nat} {bs : List UInt8} (h : s.Wrote addr start bs a.store)
    (huses : a.Uses addr mem) (hops : a.operands = .i32 base :: below) {op : LoadOp} {i : Nat}
    (hrange : i + op.bytes ≤ bs.length) (hstart : base.toNat + arg.offset.toNat = start + i) :
    Exec.step (.load op arg) (a.on k) = .ok ()
      ({ a with operands := op.extended (Bytes.toNat ((bs.drop i).take op.bytes)) :: below }.on k) := by
  obtain ⟨hfits, hbytes⟩ := h.seen huses.memory hrange
  rw [load_on huses hops, hstart, if_neg (Nat.not_lt.mpr hfits), hbytes]

/-- A store that does not trap has written its bytes. -/
theorem wrote_of_store (huses : a.Uses addr mem) {v : Value} (hops : a.operands = v :: .i32 base :: below)
    {op : StoreOp} (hv : v.type = op.type) {m : Machine}
    (h : Exec.step (.store op arg) (a.on k) = .ok () m) :
    a.store.Wrote addr (base.toNat + arg.offset.toNat) (Bytes.ofNat op.bytes v.bits.toNat) m.store := by
  rw [store_on huses hops hv] at h
  split at h
  · cases h
  · cases h
    exact Store.wrote_overwriteMemory huses.memory (by rw [Bytes.length_ofNat]; omega)

/-- **A load does not notice what was written elsewhere.** -/
theorem load_of_apart {s' : Store} {addr' : MemAddr} {start : Nat} {bs : List UInt8}
    (h : a.store.Wrote addr start bs s') (huses : a.Uses addr' mem)
    (hops : a.operands = .i32 base :: below) {op : LoadOp}
    (hapart : addr' ≠ addr ∨ base.toNat + arg.offset.toNat + op.bytes ≤ start ∨
      start + bs.length ≤ base.toNat + arg.offset.toNat) :
    Exec.step (.load op arg) ({ a with store := s' }.on k) =
      Move.inState (fun m => { m with store := s' }) (Exec.step (.load op arg) (a.on k)) := by
  obtain ⟨mem', hmem', hsize, hbytes⟩ := h.apart huses.memory hapart
  have huses' : ({ a with store := s' } : Activation).Uses addr' mem' := ⟨huses.address, hmem'⟩
  rw [load_on huses' hops, load_on huses hops, hsize, hbytes]
  split <;> rfl

end Activation

/-! ## All accesses -/

/-- **Accesses to the memory at an address**: what each of them does, and what they see of each other. -/
structure ExactAccess (addr : MemAddr) : Prop where
  /-- A load traps exactly if its range goes past the end. Otherwise it pushes the number that the bytes
      make, extended. -/
  load : ∀ {a : Activation} {mem : Memory}, a.Uses addr mem → ∀ k op arg base below,
    a.operands = .i32 base :: below →
    Exec.step (.load op arg) (a.on k) =
      if mem.size < base.toNat + arg.offset.toNat + op.bytes then
        .error .memoryOutOfBounds ({ a with operands := below }.on k)
      else
        .ok () ({ a with operands := op.extended (Bytes.toNat
          (mem.bytesAt (base.toNat + arg.offset.toNat) op.bytes)) :: below }.on k)
  /-- A store traps exactly if its range goes past the end, and then nothing is written. Otherwise the low
      bytes of the value are written, and nothing else. -/
  store : ∀ {a : Activation} {mem : Memory}, a.Uses addr mem → ∀ k op arg v base below,
    v.type = StoreOp.type op → a.operands = v :: .i32 base :: below →
    (mem.size < base.toNat + arg.offset.toNat + op.bytes →
      Exec.step (.store op arg) (a.on k) =
        .error .memoryOutOfBounds ({ a with operands := below }.on k)) ∧
    (base.toNat + arg.offset.toNat + op.bytes ≤ mem.size →
      ∃ s', a.store.Wrote addr (base.toNat + arg.offset.toNat) (Bytes.ofNat op.bytes v.bits.toNat) s' ∧
        Exec.step (.store op arg) (a.on k) = .ok () ({ a with store := s', operands := below }.on k))
  /-- The host reads a range under the same condition. -/
  read : ∀ {s : Store} {mem : Memory}, s.memories[addr]? = some mem → ∀ start count,
    s.readMemory addr start count =
      if mem.size < start + count then .error .memoryOutOfBounds else .ok (mem.bytesAt start count)
  /-- The host writes to a range under the same condition. -/
  write : ∀ {s : Store} {mem : Memory}, s.memories[addr]? = some mem → ∀ start bs,
    (mem.size < start + bs.length → s.writeMemory addr start bs = (.error .memoryOutOfBounds, s)) ∧
    (start + bs.length ≤ mem.size →
      ∃ s', s.Wrote addr start bs s' ∧ s.writeMemory addr start bs = (.ok (), s'))
  /-- Whoever has written bytes, the host and loads see them. -/
  seen : ∀ {s s' : Store} {start : Nat} {bs : List UInt8}, s.Wrote addr start bs s' →
    ∀ i count, i + count ≤ bs.length →
      s'.readMemory addr (start + i) count = .ok ((bs.drop i).take count) ∧
      ∀ {a : Activation} {mem : Memory}, a.store = s' → a.Uses addr mem → ∀ k op arg base below,
        a.operands = .i32 base :: below → base.toNat + arg.offset.toNat = start + i →
        LoadOp.bytes op = count →
        Exec.step (.load op arg) (a.on k) = .ok ()
          ({ a with operands := op.extended (Bytes.toNat ((bs.drop i).take count)) :: below }.on k)
  /-- A load of the width of a store gives the value back, as far as it was stored and as the load extends
      it. -/
  reload : ∀ {a b : Activation} {mem mem' : Memory} {m : Machine}, a.Uses addr mem →
    ∀ k op arg v base below, v.type = StoreOp.type op → a.operands = v :: .i32 base :: below →
      Exec.step (.store op arg) (a.on k) = .ok () m → b.store = m.store → b.Uses addr mem' →
      ∀ k' op' arg' base' below', b.operands = .i32 base' :: below' →
        base'.toNat + arg'.offset.toNat = base.toNat + arg.offset.toNat →
        LoadOp.bytes op' = op.bytes →
        Exec.step (.load op' arg') (b.on k') = .ok ()
          ({ b with operands := op'.extended (v.bits.toNat % 2 ^ (8 * op.bytes)) :: below' }.on k')
  /-- What is written elsewhere makes no difference to the host or to a load. -/
  apart : ∀ {s s' : Store} {start : Nat} {bs : List UInt8}, s.Wrote addr start bs s' →
    ∀ {addr' : MemAddr} {mem : Memory} {start' count : Nat}, s.memories[addr']? = some mem →
      addr' ≠ addr ∨ start' + count ≤ start ∨ start + bs.length ≤ start' →
      s'.readMemory addr' start' count = s.readMemory addr' start' count ∧
      ∀ {a : Activation}, a.store = s → a.Uses addr' mem → ∀ k op arg base below,
        a.operands = .i32 base :: below → base.toNat + arg.offset.toNat = start' →
        LoadOp.bytes op = count →
        Exec.step (.load op arg) ({ a with store := s' }.on k) =
          Move.inState (fun m => { m with store := s' }) (Exec.step (.load op arg) (a.on k))
  /-- Writes to ranges that have nothing in common may be made in either order. -/
  swap : ∀ {s s₁ s₂ : Store} {start : Nat} {bs : List UInt8}, s.Wrote addr start bs s₁ →
    ∀ {addr' : MemAddr} {start' : Nat} {bs' : List UInt8}, s₁.Wrote addr' start' bs' s₂ →
      addr' ≠ addr ∨ start' + bs'.length ≤ start ∨ start + bs.length ≤ start' →
      ∃ s₁', s.Wrote addr' start' bs' s₁' ∧ s₁'.Wrote addr start bs s₂

/-- A function under way that is about to store a number of two bytes, as one byte, in a memory of one
    page. -/
def aboutToStore : Activation where
  store := { memories := #[.create ⟨1, none⟩] }
  fuel := none
  inst := { types := #[], funcs := #[], tables := #[], memories := #[0], globals := #[], exports := [] }
  locals := #[]
  operands := [.i32 0x1280, .i32 3]

end WasmCore
