import WasmCore.Bytes
import WasmCore.Types
import WasmCore.Trap
import WasmCore.Store.Overwrite

/-!
# Linear memory

A memory is an array of pages, each of which holds a fixed number of bytes. It can grow, up to its
own maximum and up to a cap that its owner sets. Pages that nothing was written to are one and the
same page of zeros, so that a large memory takes no more room than what is written to it.

## Contents

* `Page`: the bytes of a page;
* `Memory.create`, `Memory.pages`, `Memory.size`, `Memory.type`: a fresh memory, and its current size;
* `Memory.byteAt`, `Memory.data`: one byte, and all of them;
* `Memory.fits`, `Memory.read`, `Memory.overwrite`, `Memory.write`: access to a range of bytes;
* `Memory.wordAt`: a few bytes as one word;
* `Memory.bound`, `Memory.canGrow`, `Memory.extend`: growth;
* what each of them does to the size and to a byte.
-/

namespace WasmCore

/-! ## Pages -/

/-- Number of bytes of a page. -/
def pageSize : Nat := 65536

theorem pageSize_pos : 0 < pageSize := by decide

/-- The bytes of a page. -/
abbrev Page := Vector UInt8 pageSize

namespace Page

/-- The page that every fresh page is. -/
def zero : Page := Vector.replicate pageSize 0

/-- The byte of a page that an address refers to. -/
def byteAt (p : Page) (i : Nat) : UInt8 :=
  have h : i % pageSize < pageSize := Nat.mod_lt i pageSize_pos
  p[i % pageSize]

/-- The page with the byte written that an address refers to. -/
def setByte (p : Page) (i : Nat) (b : UInt8) : Page :=
  p.set (i % pageSize) b (Nat.mod_lt i pageSize_pos)

@[simp] theorem byteAt_zero (i : Nat) : zero.byteAt i = 0 := by
  simp [byteAt, zero]

@[simp] theorem byteAt_setByte_self (p : Page) (i : Nat) (b : UInt8) :
    (p.setByte i b).byteAt i = b := by
  simp [byteAt, setByte]

/-- A byte at another place of the page stays. -/
theorem byteAt_setByte_of_ne (p : Page) {i j : Nat} (h : i % pageSize ≠ j % pageSize) (b : UInt8) :
    (p.setByte i b).byteAt j = p.byteAt j := by
  simp only [byteAt, setByte]
  exact Vector.getElem_set_ne _ _ h

end Page

/-! ## Memories -/

/-- A linear memory. -/
structure Memory where
  max : Option UInt32
  contents : Array Page

namespace Memory

/-- A memory of the least size that its type allows, filled with zeros. -/
def create (t : MemType) : Memory where
  max := t.max
  contents := Array.replicate t.min.toNat .zero

/-- The current number of pages. -/
def pages (m : Memory) : Nat := m.contents.size

/-- The current number of bytes. -/
def size (m : Memory) : Nat := m.pages * pageSize

/-- The current type: the current size and the maximum. -/
def type (m : Memory) : MemType where
  min := UInt32.ofNat m.pages
  max := m.max

/-- The byte at an address, zero past the end. -/
def byteAt (m : Memory) (i : Nat) : UInt8 :=
  match m.contents[i / pageSize]? with
  | some page => page.byteAt i
  | none => 0

/-- All bytes. -/
def data (m : Memory) : Array UInt8 := m.contents.flatMap Vector.toArray

/-! ## Access -/

/-- Whether a range of bytes lies inside the memory. -/
def fits (m : Memory) (start count : Nat) : Bool := start + count ≤ m.size

/-- The bytes of a range. -/
def bytesAt (m : Memory) (start count : Nat) : List UInt8 :=
  (List.range' start count).map m.byteAt

/-- The bytes of a range, if it lies inside the memory. -/
def read (m : Memory) (start count : Nat) : Option (List UInt8) :=
  if m.fits start count then some (m.bytesAt start count) else none

/-- The word made of the given number of bytes from a position on, least significant first. -/
def wordAt (m : Memory) (start : Nat) : (count : Nat) → UInt64
  | 0 => 0
  | count + 1 => (m.byteAt start).toUInt64 + 256 * m.wordAt (start + 1) count

/-- The memory with a byte written. Past the end nothing is written. -/
def setByte (m : Memory) (i : Nat) (b : UInt8) : Memory :=
  { m with contents := m.contents.modify (i / pageSize) (·.setByte i b) }

/-- The memory with bytes written from a position on. -/
def overwrite (m : Memory) : (start : Nat) → List UInt8 → Memory
  | _, [] => m
  | start, b :: bs => (m.setByte start b).overwrite (start + 1) bs

/-- Writes bytes from a position on, if the range lies inside the memory. -/
def write (m : Memory) (start : Nat) (bs : List UInt8) : Except Trap Memory :=
  if m.fits start bs.length then .ok (m.overwrite start bs) else .error .memoryOutOfBounds

/-! ## Growth -/

/-- The largest number of pages that the memory may have under a cap. -/
def bound (m : Memory) (cap : UInt32) : Nat := min (m.max.getD maxMemoryPages).toNat cap.toNat

/-- Whether the memory may grow by a number of pages under a cap. -/
def canGrow (m : Memory) (delta : Nat) (cap : UInt32) : Bool := m.pages + delta ≤ m.bound cap

/-- The memory with a number of pages added, filled with zeros. -/
def extend (m : Memory) (delta : Nat) : Memory :=
  { m with contents := m.contents ++ Array.replicate delta .zero }

/-! ## Laws of sizes -/

@[simp] theorem pages_create (t : MemType) : (create t).pages = t.min.toNat := by
  simp [pages, create]

theorem fits_iff (m : Memory) (start count : Nat) :
    m.fits start count = true ↔ start + count ≤ m.size := by
  simp [fits]

@[simp] theorem max_setByte (m : Memory) (i : Nat) (b : UInt8) : (m.setByte i b).max = m.max := rfl

@[simp] theorem pages_setByte (m : Memory) (i : Nat) (b : UInt8) :
    (m.setByte i b).pages = m.pages := by
  simp [pages, setByte]

@[simp] theorem max_overwrite (m : Memory) (start : Nat) (bs : List UInt8) :
    (m.overwrite start bs).max = m.max := by
  induction bs generalizing m start with
  | nil => rfl
  | cons b bs ih => rw [overwrite, ih, max_setByte]

@[simp] theorem pages_overwrite (m : Memory) (start : Nat) (bs : List UInt8) :
    (m.overwrite start bs).pages = m.pages := by
  induction bs generalizing m start with
  | nil => rfl
  | cons b bs ih => rw [overwrite, ih, pages_setByte]

@[simp] theorem size_overwrite (m : Memory) (start : Nat) (bs : List UInt8) :
    (m.overwrite start bs).size = m.size := by
  simp [size]

@[simp] theorem fits_overwrite (m : Memory) (start : Nat) (bs : List UInt8) (i count : Nat) :
    (m.overwrite start bs).fits i count = m.fits i count := by
  simp [fits]

@[simp] theorem max_extend (m : Memory) (delta : Nat) : (m.extend delta).max = m.max := rfl

@[simp] theorem pages_extend (m : Memory) (delta : Nat) :
    (m.extend delta).pages = m.pages + delta := by
  simp [pages, extend]

/-! ## Laws of bytes -/

@[simp] theorem length_bytesAt (m : Memory) (start count : Nat) :
    (m.bytesAt start count).length = count := by
  simp [bytesAt]

theorem bytesAt_succ (m : Memory) (start count : Nat) :
    m.bytesAt start (count + 1) = m.byteAt start :: m.bytesAt (start + 1) count := by
  simp [bytesAt, List.range'_succ]

/-- As many bytes as a word holds make the word with their number. -/
theorem toNat_wordAt (m : Memory) (start : Nat) {count : Nat} (hc : count ≤ 8) :
    (m.wordAt start count).toNat = Bytes.toNat (m.bytesAt start count) := by
  induction count generalizing start with
  | zero => simp [wordAt, bytesAt, Bytes.toNat]
  | succ count ih =>
    have hlt : Bytes.toNat (m.bytesAt (start + 1) count) < 256 ^ 7 := by
      refine Nat.lt_of_lt_of_le (Bytes.toNat_lt _) ?_
      rw [length_bytesAt]
      exact Nat.pow_le_pow_right (by decide) (by omega)
    have hb := (m.byteAt start).toNat_lt
    rw [bytesAt_succ, Bytes.toNat, wordAt, UInt64.toNat_add, UInt64.toNat_mul, ih _ (by omega)]
    simp only [UInt8.toNat_toUInt64, UInt64.reduceToNat]
    omega

theorem lt_size_iff (m : Memory) (i : Nat) : i < m.size ↔ i / pageSize < m.contents.size :=
  (Nat.div_lt_iff_lt_mul pageSize_pos).symm

/-- The byte that is written stands there, and every other one is what it was. -/
theorem byteAt_setByte (m : Memory) (i j : Nat) (b : UInt8) :
    (m.setByte i b).byteAt j = if i = j ∧ i < m.size then b else m.byteAt j := by
  unfold byteAt setByte
  rw [Array.getElem?_modify]
  by_cases hpage : i / pageSize = j / pageSize
  · rw [if_pos hpage]
    by_cases hij : i = j
    · subst hij
      by_cases hlt : i < m.size
      · have hi := (m.lt_size_iff i).mp hlt
        simp [hlt, hi]
      · have hi : ¬ i / pageSize < m.contents.size := fun h => hlt ((m.lt_size_iff i).mpr h)
        simp [hlt, Array.getElem?_eq_none (Nat.le_of_not_lt hi)]
    · have hmod : i % pageSize ≠ j % pageSize := by
        intro hmod
        have hi := Nat.div_add_mod i pageSize
        rw [hpage, hmod, Nat.div_add_mod] at hi
        exact hij hi.symm
      rw [if_neg (fun h => hij h.1)]
      cases m.contents[j / pageSize]? with
      | none => rfl
      | some page => exact page.byteAt_setByte_of_ne hmod b
  · rw [if_neg hpage, if_neg (fun h => hpage (by rw [h.1]))]

/-- Before the run nothing changes. -/
theorem byteAt_overwrite_of_lt (m : Memory) {start j : Nat} (bs : List UInt8) (h : j < start) :
    (m.overwrite start bs).byteAt j = m.byteAt j := by
  induction bs generalizing m start with
  | nil => rfl
  | cons b bs ih =>
    rw [overwrite, ih _ (by omega), byteAt_setByte, if_neg (by omega)]

/-- Inside the run the written bytes stand, elsewhere the old ones. -/
theorem byteAt_overwrite (m : Memory) (start : Nat) (bs : List UInt8) (j : Nat) :
    (m.overwrite start bs).byteAt j =
      if start ≤ j ∧ j < start + bs.length ∧ j < m.size then bs.getD (j - start) 0
      else m.byteAt j := by
  induction bs generalizing m start with
  | nil =>
    rw [if_neg (by simp only [List.length_nil]; omega)]
    rfl
  | cons b bs ih =>
    rw [overwrite]
    rcases Nat.lt_trichotomy j start with h | h | h
    · rw [byteAt_overwrite_of_lt _ _ (by omega), byteAt_setByte, if_neg (by omega),
        if_neg (by omega)]
    · subst h
      rw [byteAt_overwrite_of_lt _ _ (by omega), byteAt_setByte]
      simp
    · have hs : j - start = (j - (start + 1)) + 1 := by omega
      have hsize : (m.setByte start b).size = m.size := by simp [size]
      have hold : (m.setByte start b).byteAt j = m.byteAt j := by
        rw [byteAt_setByte, if_neg (by omega)]
      rw [ih, hs, List.getD_cons_succ, hsize, hold]
      simp only [List.length_cons]
      congr 1
      simp only [eq_iff_iff]
      omega

end Memory

end WasmCore
