import Multicore.Memory.Basic
import Std.Data.TreeMap
import Std.Data.TreeSet

/-!
# Paged memory

The memory of a machine: bytes in pages of 256, and the set of the allocated pages. Only bytes
that were written are kept, and every other byte is zero, so a large memory costs nothing
until it is used.

An access checks its alignment before its bounds. The page allocator hands out the free page
with the least number.
-/

namespace Multicore

open Std

/-- A memory of whole pages. -/
structure PagedMemory where
  pageCount : Nat
  /-- The bytes that were written, by address. -/
  written : TreeMap Nat UInt8
  /-- The allocated pages. -/
  allocated : TreeSet Nat
  pageCount_pos : 0 < pageCount
  pageCount_lt : pageCount < 0x1000000
  lt_of_allocated : ∀ p ∈ allocated, p < pageCount

namespace PagedMemory

/-- The most pages of a memory: the byte count of one more would not fit a word. -/
def maxPages : Nat := 0xffffff

/-- The pages that hold `bytes` bytes: at least one, and no more than a memory can have. -/
def pagesFor (bytes : UInt32) : Nat := min maxPages (max 1 ((bytes.toNat + 255) / 256))

/-- A memory of zeros, of whole pages, without allocated pages. -/
def ofSize (bytes : UInt32) : PagedMemory where
  pageCount := pagesFor bytes
  written := ∅
  allocated := ∅
  pageCount_pos := by simp only [pagesFor, maxPages]; omega
  pageCount_lt := by simp only [pagesFor, maxPages]; omega
  lt_of_allocated p h := by simp at h

instance : Inhabited PagedMemory := ⟨ofSize 0⟩

/-- The number of bytes. -/
def size (m : PagedMemory) : Nat := m.pageCount * 256

/-- The byte at an address within the memory. -/
def byteAt (m : PagedMemory) (a : Nat) : UInt8 := m.written.getD a 0

/-- The memory with one byte replaced. -/
def setByte (m : PagedMemory) (a : Nat) (b : UInt8) : PagedMemory :=
  { m with written := m.written.insert a b }

/-- The memory with bytes replaced from an address on. -/
def setBytes (m : PagedMemory) (a : Nat) : List UInt8 → PagedMemory
  | [] => m
  | b :: rest => (m.setByte a b).setBytes (a + 1) rest

/-- The halfword at an address within the memory. -/
def halfAt (m : PagedMemory) (a : Nat) : UInt16 := halfOfBytes (m.byteAt a) (m.byteAt (a + 1))

/-- The word at an address within the memory. -/
def wordAt (m : PagedMemory) (a : Nat) : UInt32 :=
  wordOfBytes (m.byteAt a) (m.byteAt (a + 1)) (m.byteAt (a + 2)) (m.byteAt (a + 3))

/-- The reason to refuse an access of `width` bytes, if there is one. -/
def refusal (m : PagedMemory) (a : Address) (width : UInt32) : Option MemoryError :=
  if a % width ≠ 0 then some (.unaligned a width)
  else if m.size < a.toNat + width.toNat then some (.outOfBounds a width)
  else none

/-- Read at an address that allows it. -/
def readWith {α : Type} (width : UInt32) (f : PagedMemory → Nat → α) (a : Address) :
    EStateM MemoryError PagedMemory α := fun m =>
  match m.refusal a width with
  | some e => .error e m
  | none => .ok (f m a.toNat) m

/-- Write bytes at an address that allows it. -/
def writeWith (width : UInt32) (a : Address) (bytes : List UInt8) :
    EStateM MemoryError PagedMemory Unit := fun m =>
  match m.refusal a width with
  | some e => .error e m
  | none => .ok () (m.setBytes a.toNat bytes)

/-- The least free page of `count` pages from `first` on. -/
def firstFree? (m : PagedMemory) (first : Nat) : Nat → Option Nat
  | 0 => none
  | count + 1 => if m.allocated.contains first then m.firstFree? (first + 1) count else some first

/-- The first page of a segment and the number of its pages that lie in the memory. -/
def pagesOf (m : PagedMemory) : Option UInt32 → Nat × Nat
  | none => (0, m.pageCount)
  | some segment =>
    let first := segment.toNat * pagesPerSegment
    (first, min pagesPerSegment (m.pageCount - first))

/-- The page that the allocator hands out next. -/
def nextFree? (m : PagedMemory) (segment : Option UInt32) : Option Nat :=
  let (first, count) := m.pagesOf segment
  m.firstFree? first count

/-- A free page that is found lies in the range that was searched. -/
theorem firstFree?_lt {m : PagedMemory} {first count p : Nat}
    (h : m.firstFree? first count = some p) :
    first ≤ p ∧ p < first + count ∧ ¬ m.allocated.contains p := by
  induction count generalizing first with
  | zero => simp [firstFree?] at h
  | succ count ih =>
    unfold firstFree? at h
    split at h
    · obtain ⟨h₁, h₂, h₃⟩ := ih h
      exact ⟨by omega, by omega, h₃⟩
    · simp only [Option.some.injEq] at h
      subst h
      exact ⟨by omega, by omega, by assumption⟩

/-- A page that the allocator would hand out lies in the memory. -/
theorem lt_of_nextFree? {m : PagedMemory} {segment : Option UInt32} {p : Nat}
    (h : m.nextFree? segment = some p) : p < m.pageCount := by
  have := firstFree?_lt h
  cases segment with
  | none => simp at this; omega
  | some s => simp at this; omega

/-- The memory with a page marked as allocated. -/
def allocate (m : PagedMemory) (p : Nat) (h : p < m.pageCount) : PagedMemory :=
  { m with
    allocated := m.allocated.insert p
    lt_of_allocated := by
      intro q hq
      rw [TreeSet.mem_insert] at hq
      rcases hq with hq | hq
      · simp at hq
        omega
      · exact m.lt_of_allocated q hq }

/-- The memory with a page marked as free. -/
def release (m : PagedMemory) (p : Nat) : PagedMemory :=
  { m with
    allocated := m.allocated.erase p
    lt_of_allocated := fun q hq => m.lt_of_allocated q (TreeSet.mem_of_mem_erase hq) }

/-- The memory with a page filled with zeros. -/
def clearPage (m : PagedMemory) (p : Nat) : PagedMemory :=
  m.setBytes (p * 256) (List.replicate 256 0)

/-- A byte that is set leaves the number of pages. -/
@[simp] theorem setByte_pageCount (m : PagedMemory) (a : Nat) (b : UInt8) :
    (m.setByte a b).pageCount = m.pageCount := rfl

/-- Bytes that are set leave the number of pages. -/
@[simp] theorem setBytes_pageCount (m : PagedMemory) (a : Nat) (bytes : List UInt8) :
    (m.setBytes a bytes).pageCount = m.pageCount := by
  induction bytes generalizing m a with
  | nil => rfl
  | cons b rest ih => simp [setBytes, ih]

/-- A page that is cleared leaves the number of pages. -/
@[simp] theorem clearPage_pageCount (m : PagedMemory) (p : Nat) :
    (m.clearPage p).pageCount = m.pageCount := setBytes_pageCount ..

/-- Allocate the next free page and fill it with zeros. -/
def allocatePage (segment : Option UInt32) : EStateM MemoryError PagedMemory UInt32 := fun m =>
  match h : m.nextFree? segment with
  | none => .error .noFreePage m
  | some p =>
    .ok p.toUInt32 ((m.clearPage p).allocate p (by simpa using lt_of_nextFree? h))

/-- Give an allocated page back. -/
def freePage (page : UInt32) : EStateM MemoryError PagedMemory Unit := fun m =>
  if m.pageCount ≤ page.toNat then .error (.invalidPage page) m
  else if m.allocated.contains page.toNat then .ok () (m.release page.toNat)
  else .error (.pageNotAllocated page) m

/-- Describe a page. -/
def describePage (page : UInt32) : EStateM MemoryError PagedMemory PageDescriptor := fun m =>
  if m.pageCount ≤ page.toNat then .error (.invalidPage page) m
  else .ok ⟨page, pageBase page, m.allocated.contains page.toNat⟩ m

/-- The memory with `count` pages from `first` on marked as allocated. -/
def allocateRange (m : PagedMemory) (first : Nat) :
    (count : Nat) → first + count ≤ m.pageCount → PagedMemory
  | 0, _ => m
  | count + 1, h =>
    (m.allocate first (by omega)).allocateRange (first + 1) count (by simp [allocate]; omega)

/-- Mark every page that a range of addresses touches as allocated. A range of no bytes is
always accepted. -/
def reserve (a : Address) (length : UInt32) : EStateM MemoryError PagedMemory Unit := fun m =>
  if hl : length = 0 then .ok () m
  else if h : a.toNat + length.toNat ≤ m.size then
    let first := a.toNat / 256
    let last := (a.toNat + length.toNat - 1) / 256
    .ok () (m.allocateRange first (last + 1 - first) (by
      have : 0 < length.toNat := Nat.pos_of_ne_zero fun e => hl (UInt32.toNat_inj.1 e)
      simp only [size] at h
      omega))
  else .error (.outOfBounds a length) m

/-- Write an image, all of it or nothing. -/
def load (a : Address) (image : List UInt8) : EStateM MemoryError PagedMemory Unit := fun m =>
  if a.toNat + image.length ≤ m.size then .ok () (m.setBytes a.toNat image)
  else .error (.outOfBounds a image.length.toUInt32) m

instance : PhysicalMemory PagedMemory where
  size m := m.size.toUInt32
  readByte := readWith 1 byteAt
  readHalf := readWith 2 halfAt
  readWord := readWith 4 wordAt
  writeByte a b := writeWith 1 a [b]
  writeHalf a h := writeWith 2 a (bytesOfHalf h)
  writeWord a w := writeWith 4 a (bytesOfWord w)
  allocatePage := allocatePage
  freePage := freePage
  describePage := describePage
  freePageCount m := m.pageCount - m.allocated.size
  reserve := reserve
  load := load

end PagedMemory

end Multicore
