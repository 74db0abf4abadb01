import Multicore.Proofs.Computation
import Multicore.Memory.Paged

/-!
# The contents of a paged memory

What reads and writes do to a `PagedMemory`. A write changes the bytes that it names and
nothing else; the lemmas follow bytes (`byteAt_setBytes`) and then halfwords, of which two at
even addresses never overlap (`halfAt_setHalf`). `HasHalf` says that a halfword can be
accessed at all, which depends on the number of pages only. What only reads leaves memory alone
(`PagedMemory.Reads`), and what writes leaves its pages alone.
-/

namespace Multicore

open Std

theorem Address.mod_one (a : Address) : a % 1 = 0 :=
  UInt32.toNat_inj.1 (Nat.mod_one _)

/-- An address is even as a word if it is as a number. -/
theorem Address.even_iff {a : Address} : a % 2 = 0 ↔ a.toNat % 2 = 0 := by
  rw [← UInt32.toNat_inj, UInt32.toNat_mod]
  rfl

/-- An address is a multiple of four as a word if it is as a number. -/
theorem Address.dvd_four_iff {a : Address} : a % 4 = 0 ↔ a.toNat % 4 = 0 := by
  rw [← UInt32.toNat_inj, UInt32.toNat_mod]
  rfl

/-- An even address is that of its halfword. -/
theorem Address.halfword_of_even {a : Address} (h : a % 2 = 0) : a.halfword = a := by
  rw [halfword, h, UInt32.sub_zero]

/-- The address of the halfword around a byte, as a number. -/
theorem Address.toNat_halfword (a : Address) : a.halfword.toNat = a.toNat - a.toNat % 2 := by
  have hle : a % 2 ≤ a := by
    rw [UInt32.le_iff_toNat_le, UInt32.toNat_mod]
    exact Nat.mod_le ..
  rw [halfword, UInt32.toNat_sub_of_le _ _ hle, UInt32.toNat_mod]
  rfl

/-- An address is one of the two of its halfword. -/
theorem Address.eq_halfword_or (a : Address) : a = a.halfword ∨ a = a.halfword + 1 := by
  have hle := a.toNat_lt
  have hnat := Address.toNat_halfword a
  rcases Nat.mod_two_eq_zero_or_one a.toNat with h | h
  · left
    apply UInt32.toNat_inj.1
    omega
  · right
    apply UInt32.toNat_inj.1
    rw [UInt32.toNat_add]
    have hone : (1 : UInt32).toNat = 1 := rfl
    omega

/-- A halfword starts at an even address. -/
@[simp] theorem Address.halfword_even (a : Address) : a.halfword % 2 = 0 := by
  rw [Address.even_iff, Address.toNat_halfword]
  omega

/-- The second half of an aligned word lies two bytes on, without wrapping. -/
theorem Address.toNat_add_two {a : Address} (ha : a % 4 = 0) : (a + 2).toNat = a.toNat + 2 := by
  have := a.toNat_lt
  rw [Address.dvd_four_iff] at ha
  rw [UInt32.toNat_add]
  show (a.toNat + 2) % 4294967296 = _
  omega

/-- The page of an address is found by division, as a number too. -/
theorem Address.page_eq_iff {a : Address} {p : UInt32} :
    a.page = p ↔ a.toNat / 256 = p.toNat := by
  rw [page, ← UInt32.toNat_inj, UInt32.toNat_div]
  rfl

/-- Both halfwords of a word lie in its page. -/
theorem Address.page_add_two {a : Address} (ha : a % 4 = 0) : (a + 2).page = a.page := by
  have hself : a.toNat / 256 = a.page.toNat := page_eq_iff.1 rfl
  rw [page_eq_iff, toNat_add_two ha, ← hself]
  rw [Address.dvd_four_iff] at ha
  omega

/-- The halfword that holds a byte lies in its page. -/
theorem Address.page_halfword (a : Address) : a.halfword.page = a.page := by
  have hself : a.toNat / 256 = a.page.toNat := page_eq_iff.1 rfl
  rw [page_eq_iff, toNat_halfword, ← hself]
  omega

namespace PagedMemory

/-! ## Bytes -/

/-- A byte that was set reads back, and the others stay. -/
theorem byteAt_setByte (m : PagedMemory) (a c : Nat) (b : UInt8) :
    (m.setByte a b).byteAt c = if c = a then b else m.byteAt c := by
  simp only [byteAt, setByte, TreeMap.getD_insert, Nat.compare_eq_eq, eq_comm (a := a)]

/-- Bytes outside the range of a write stay. -/
theorem byteAt_setBytes_of_outside (m : PagedMemory) {a c : Nat} {bytes : List UInt8}
    (h : c < a ∨ a + bytes.length ≤ c) : (m.setBytes a bytes).byteAt c = m.byteAt c := by
  induction bytes generalizing m a with
  | nil => rfl
  | cons b rest ih =>
    simp only [List.length_cons] at h
    rw [setBytes, ih _ (by omega), byteAt_setByte, if_neg (by omega)]

/-- Bytes within the range of a write are the written ones. -/
theorem byteAt_setBytes_add (m : PagedMemory) (a : Nat) (bytes : List UInt8) {k : Nat}
    (h : k < bytes.length) : (m.setBytes a bytes).byteAt (a + k) = bytes[k] := by
  induction bytes generalizing m a k with
  | nil => simp at h
  | cons b rest ih =>
    rw [setBytes]
    cases k with
    | zero => rw [byteAt_setBytes_of_outside _ (by omega), byteAt_setByte]; simp
    | succ k =>
      rw [show a + (k + 1) = a + 1 + k by omega, ih _ _ (by simpa using h)]
      rfl

/-- Writing two ranges, one after the other. -/
theorem setBytes_append (m : PagedMemory) (a : Nat) (xs ys : List UInt8) :
    m.setBytes a (xs ++ ys) = (m.setBytes a xs).setBytes (a + xs.length) ys := by
  induction xs generalizing m a with
  | nil => rfl
  | cons x xs ih =>
    rw [List.cons_append, setBytes, setBytes, ih, List.length_cons, Nat.add_assoc,
      Nat.add_comm 1 xs.length]

/-- Bytes are set without any effect on the allocation of pages. -/
@[simp] theorem allocated_setBytes (m : PagedMemory) (a : Nat) (bytes : List UInt8) :
    (m.setBytes a bytes).allocated = m.allocated := by
  induction bytes generalizing m a with
  | nil => rfl
  | cons b rest ih => rw [setBytes, ih]; rfl

/-- Bytes are set without any effect on the size. -/
@[simp] theorem size_setBytes (m : PagedMemory) (a : Nat) (bytes : List UInt8) :
    (m.setBytes a bytes).size = m.size := by
  simp [size]

/-- Two memories have the same bytes and the same pages. -/
structure SameContents (m m' : PagedMemory) : Prop where
  bytes : ∀ b : Address, m'.byteAt b.toNat = m.byteAt b.toNat
  pages : (m'.pageCount, m'.allocated) = (m.pageCount, m.allocated)

/-! ## Halfwords -/

/-- The memory with one halfword replaced. -/
def setHalf (m : PagedMemory) (a : Nat) (v : UInt16) : PagedMemory := m.setBytes a (bytesOfHalf v)

@[simp] theorem pageCount_setHalf (m : PagedMemory) (a : Nat) (v : UInt16) :
    (m.setHalf a v).pageCount = m.pageCount := setBytes_pageCount ..

@[simp] theorem allocated_setHalf (m : PagedMemory) (a : Nat) (v : UInt16) :
    (m.setHalf a v).allocated = m.allocated := allocated_setBytes ..

/-- A halfword that was set reads back. -/
@[simp] theorem halfAt_setHalf_self (m : PagedMemory) (a : Nat) (v : UInt16) :
    (m.setHalf a v).halfAt a = v := by
  have h₀ : (m.setHalf a v).byteAt a = lowByte v :=
    m.byteAt_setBytes_add a (bytesOfHalf v) (k := 0) (by simp [bytesOfHalf])
  have h₁ : (m.setHalf a v).byteAt (a + 1) = highByte v :=
    m.byteAt_setBytes_add a (bytesOfHalf v) (k := 1) (by simp [bytesOfHalf])
  rw [halfAt, h₀, h₁, halfOfBytes_bytes]

/-- Two halfwords at different even addresses do not overlap. -/
theorem halfAt_setHalf_of_ne (m : PagedMemory) {a b : Address} (v : UInt16) (ha : a % 2 = 0)
    (hb : b % 2 = 0) (h : b ≠ a) : (m.setHalf a.toNat v).halfAt b.toNat = m.halfAt b.toNat := by
  have hne : b.toNat ≠ a.toNat := fun e => h (UInt32.toNat_inj.1 e)
  rw [Address.even_iff] at ha hb
  have hlen : (bytesOfHalf v).length = 2 := rfl
  rw [halfAt, halfAt, setHalf, byteAt_setBytes_of_outside _ (by omega),
    byteAt_setBytes_of_outside _ (by omega)]

/-- Memory accepts the accesses that are aligned to their width and end within memory. -/
theorem refusal_eq_none_iff {m : PagedMemory} {a : Address} {width : UInt32} :
    m.refusal a width = none ↔ a % width = 0 ∧ a.toNat + width.toNat ≤ m.size := by
  unfold refusal
  constructor
  · intro h
    split at h
    · cases h
    · next ha =>
      split at h
      · cases h
      · next hs => exact ⟨Decidable.not_not.1 ha, Nat.not_lt.1 hs⟩
  · rintro ⟨ha, hs⟩
    rw [if_neg (fun e => e ha), if_neg (Nat.not_lt.2 hs)]

/-- An aligned access beyond memory is out of bounds. -/
theorem refusal_of_lt {m : PagedMemory} {a : Address} {width : UInt32} (ha : a % width = 0)
    (h : m.size < a.toNat + width.toNat) : m.refusal a width = some (.outOfBounds a width) := by
  unfold refusal
  rw [if_neg fun hne => hne ha]
  exact if_pos h

/-- Written memory accepts the same accesses. -/
theorem refusal_setBytes (m : PagedMemory) (b : Nat) (bytes : List UInt8) :
    (m.setBytes b bytes).refusal = m.refusal := by
  funext a width
  rw [refusal, refusal, size_setBytes]

/-- A write that is not refused sets the bytes. -/
theorem writeWith_of_accepted {m : PagedMemory} {a : Address} {width : UInt32}
    (h : m.refusal a width = none) (bytes : List UInt8) :
    writeWith width a bytes m = .ok () (m.setBytes a.toNat bytes) := by
  rw [writeWith, h]

/-- The halfword at an address can be accessed: the address is even, and both bytes lie within
memory. -/
structure HasHalf (m : PagedMemory) (a : Address) : Prop where
  even : a % 2 = 0
  inside : a.toNat + 2 ≤ m.size

/-- An access to a halfword of memory is not refused. -/
theorem HasHalf.refusal {m : PagedMemory} {a : Address} (h : m.HasHalf a) :
    m.refusal a 2 = none :=
  refusal_eq_none_iff.2 ⟨h.even, h.inside⟩

/-- Which halfwords memory has depends on the number of its pages only. -/
theorem HasHalf.congr {m m' : PagedMemory} {a : Address} (h : m'.pageCount = m.pageCount) :
    m'.HasHalf a ↔ m.HasHalf a := by
  have hs : m'.size = m.size := by rw [size, h, size]
  exact ⟨fun ⟨he, hi⟩ => ⟨he, hs ▸ hi⟩, fun ⟨he, hi⟩ => ⟨he, hs.symm ▸ hi⟩⟩

/-- A halfword of memory is read. -/
theorem readHalf_of_hasHalf {m : PagedMemory} {a : Address} (h : m.HasHalf a) :
    PhysicalMemory.readHalf a m = .ok (m.halfAt a.toNat) m := by
  show readWith 2 halfAt a m = _
  rw [readWith, h.refusal]

/-- A halfword of memory is written. -/
theorem writeHalf_of_hasHalf {m : PagedMemory} {a : Address} (v : UInt16) (h : m.HasHalf a) :
    PhysicalMemory.writeHalf a v m = .ok () (m.setHalf a.toNat v) :=
  writeWith_of_accepted h.refusal (bytesOfHalf v)

/-- An even address whose halfword is not in memory is out of bounds. -/
theorem readHalf_of_not_hasHalf {m : PagedMemory} {a : Address} (he : a % 2 = 0)
    (h : ¬ m.HasHalf a) : PhysicalMemory.readHalf a m = .error (.outOfBounds a 2) m := by
  have hs : m.size < a.toNat + 2 := Nat.lt_of_not_le fun hle => h ⟨he, hle⟩
  show readWith 2 halfAt a m = _
  rw [readWith, refusal_of_lt he hs]

/-- A byte is part of its halfword. -/
theorem byteAt_of_halfAt_eq {m m' : PagedMemory} {b : Address}
    (h : m'.halfAt b.halfword.toNat = m.halfAt b.halfword.toNat) :
    m'.byteAt b.toNat = m.byteAt b.toNat := by
  have hlow := congrArg lowByte h
  have hhigh := congrArg highByte h
  simp only [halfAt, lowByte_halfOfBytes, highByte_halfOfBytes] at hlow hhigh
  have hb := Address.toNat_halfword b
  rcases Nat.mod_two_eq_zero_or_one b.toNat with hmod | hmod
  · rwa [hb, hmod, Nat.sub_zero] at hlow
  · rwa [hb, hmod, Nat.sub_add_cancel (by omega)] at hhigh

/-! ## Words -/

/-- The size fits a word. -/
theorem size_lt (m : PagedMemory) : m.size < 4294967296 := by
  have := m.pageCount_lt
  unfold size
  omega

/-- Memory is a number of whole pages. -/
theorem size_mod (m : PagedMemory) : m.size % 256 = 0 := by
  unfold size
  omega

/-- The upper half of an aligned word lies within memory if the lower half does. -/
theorem HasHalf.add_two {m : PagedMemory} {a : Address} (ha : a % 4 = 0) (h : m.HasHalf a) :
    m.HasHalf (a + 2) := by
  have hmod := m.size_mod
  have hin := h.inside
  have hn := Address.toNat_add_two ha
  rw [Address.dvd_four_iff] at ha
  exact ⟨by rw [Address.even_iff, hn]; omega, by omega⟩

/-! ## Computations that only read or write -/

/-- A computation that leaves memory alone, whether it succeeds or fails. -/
def Reads {α : Type} (x : EStateM MemoryError PagedMemory α) : Prop := ∀ m, finalState x m = m

/-- One computation that only reads, after another. -/
theorem Reads.bind {α γ : Type} {x : EStateM MemoryError PagedMemory α}
    {f : α → EStateM MemoryError PagedMemory γ} (hx : Reads x) (hf : ∀ a, Reads (f a)) :
    Reads (x >>= f) := by
  intro m
  have h := hx m
  rcases hrun : x m with ⟨a, m'⟩ | ⟨e, m'⟩
  · rw [finalState_of_ok hrun] at h
    rw [finalState_congr (bind_of_ok hrun), hf a m', h]
  · rw [finalState_of_error hrun] at h
    rw [finalState_of_error (bind_of_error hrun), h]

/-- What only reads preserves whatever can be seen of memory. -/
theorem Reads.preserves {α δ : Type} {x : EStateM MemoryError PagedMemory α} (hx : Reads x)
    (view : PagedMemory → δ) : Preserves view x :=
  fun m => congrArg view (hx m)

/-- A read of any width only reads, also when it is refused. -/
theorem reads_readWith {α : Type} (width : UInt32) (f : PagedMemory → Nat → α) (a : Address) :
    Reads (readWith width f a) := by
  intro m
  unfold finalState readWith
  split
  · next h => split at h <;> cases h; rfl
  · next h => split at h <;> cases h; rfl

/-- To describe a page only reads. -/
theorem reads_describePage (page : UInt32) : Reads (PhysicalMemory.describePage page) := by
  intro m
  show finalState (describePage page) m = m
  unfold finalState describePage
  split
  · next h => split at h <;> cases h; rfl
  · next h => split at h <;> cases h; rfl

theorem reads_readHalf (a : Address) :
    Reads (PhysicalMemory.readHalf a : EStateM MemoryError PagedMemory UInt16) :=
  reads_readWith 2 halfAt a

theorem reads_readWord (a : Address) :
    Reads (PhysicalMemory.readWord a : EStateM MemoryError PagedMemory UInt32) :=
  reads_readWith 4 wordAt a

/-- A vector is loaded by four reads, so that loading it only reads. -/
theorem reads_loadVector (table : Address) (index : UInt32) :
    Reads (PhysicalMemory.loadVector table index) := by
  refine (reads_readHalf _).bind fun cs => (reads_readHalf _).bind fun ds => ?_
  refine (reads_readWord _).bind fun ip => (reads_readWord _).bind fun sp => ?_
  exact fun _ => rfl

/-- The pages and their marks. -/
def pageMap (m : PagedMemory) : Nat × TreeSet Nat := (m.pageCount, m.allocated)

/-- A write of any width leaves the page map. -/
theorem preserves_writeWith (width : UInt32) (a : Address) (bytes : List UInt8) :
    Preserves pageMap (writeWith width a bytes) := by
  intro m
  unfold finalState writeWith
  rcases m.refusal a width with _ | e
  · simp [pageMap]
  · rfl

/-- An image is loaded without any effect on the page map. -/
theorem preserves_load (a : Address) (image : List UInt8) : Preserves pageMap (load a image) := by
  intro m
  unfold finalState load
  split
  · next h =>
    split at h <;> cases h
    simp [pageMap]
  · next h => split at h <;> cases h; rfl

end PagedMemory

end Multicore
