import Mathlib.Data.List.Nodup
import Mathlib.Order.Bounds.Basic
import Multicore.Proofs.Memory.Contents

/-!
# The pages of a paged memory

What the operations of a `PagedMemory` do to its pages. A search for a free page answers the least
one of the pages that were asked for (`PagedMemory.nextFree?_eq_some_iff`), and an allocation fills
that page with zeros and marks it (`PagedMemory.allocatePage_cases`). A page that is allocated can
be freed, and no other one (`PagedMemory.freePage_cases`). A range of addresses that ends within
memory can be reserved, which marks the pages that it touches (`PagedMemory.reserve_cases`). Every
page is either marked or counted as free (`PagedMemory.freePageCount_eq_countP`).
-/

namespace Multicore

open Std

namespace PagedMemory

variable {m : PagedMemory} {p q : Nat}

/-! ## Marks -/

/-- Memory as it was, but for some pages that are marked as allocated. -/
structure Marked (m : PagedMemory) (pages : Nat → Prop) (m' : PagedMemory) : Prop where
  pageCount : m'.pageCount = m.pageCount
  bytes : ∀ b, m'.byteAt b = m.byteAt b
  allocated : ∀ q, q ∈ m'.allocated ↔ pages q ∨ q ∈ m.allocated

/-- Marks leave the size of memory. -/
theorem Marked.size_eq {m' : PagedMemory} {pages : Nat → Prop} (h : m.Marked pages m') :
    m'.size = m.size := by
  rw [size, h.pageCount, size]

theorem allocated_allocate {h : p < m.pageCount} :
    (m.allocate p h).allocated = m.allocated.insert p := rfl

/-- One page is marked. -/
theorem marked_allocate (m : PagedMemory) (h : p < m.pageCount) :
    m.Marked (· = p) (m.allocate p h) := by
  refine ⟨rfl, fun _ => rfl, fun q => ?_⟩
  show q ∈ m.allocated.insert p ↔ _
  rw [TreeSet.mem_insert, Nat.compare_eq_eq, eq_comm]

/-- A range of pages is marked, by induction on its length. -/
theorem marked_allocateRange (m : PagedMemory) (first count : Nat)
    (h : first + count ≤ m.pageCount) :
    m.Marked (fun q => first ≤ q ∧ q < first + count) (m.allocateRange first count h) := by
  induction count generalizing m first with
  | zero =>
    refine ⟨rfl, fun _ => rfl, fun q => ?_⟩
    show q ∈ m.allocated ↔ _
    rw [or_iff_right (by omega)]
  | succ count ih =>
    have hmarked := m.marked_allocate (p := first) (by omega)
    obtain ⟨hcount, hbytes, hallocated⟩ := ih (m.allocate first (by omega)) (first + 1)
      (by rw [hmarked.pageCount]; omega)
    refine ⟨hcount, hbytes, fun q => ?_⟩
    rw [allocateRange, hallocated, hmarked.allocated, ← or_assoc]
    refine or_congr_left ?_
    omega

/-! ## Free pages -/

/-- The page lies in memory, and in the segment if one is given. -/
def HasPage (m : PagedMemory) (segment : Option UInt32) (p : Nat) : Prop :=
  p < m.pageCount ∧ ∀ s ∈ segment, p / pagesPerSegment = s.toNat

/-- The pages that are searched are the ones that were asked for, also if the segment lies beyond
memory or memory ends within it. -/
theorem mem_pagesOf_iff (m : PagedMemory) (segment : Option UInt32) (p : Nat) :
    ((m.pagesOf segment).1 ≤ p ∧ p < (m.pagesOf segment).1 + (m.pagesOf segment).2) ↔
      m.HasPage segment p := by
  cases segment with
  | none =>
    simp only [pagesOf, HasPage, Option.not_mem_none, false_imp_iff, implies_true, and_true]
    omega
  | some s =>
    simp only [pagesOf, HasPage, pagesPerSegment, Option.mem_def, Option.some.injEq,
      forall_eq']
    omega

/-- No page of a range is free just if all of them are allocated. -/
theorem firstFree?_eq_none_iff {first count : Nat} : m.firstFree? first count = none ↔
    ∀ q, first ≤ q → q < first + count → q ∈ m.allocated := by
  induction count generalizing first with
  | zero => exact iff_of_true rfl fun q h h' => by omega
  | succ count ih =>
    unfold firstFree?
    split
    · next hfirst =>
      rw [ih]
      constructor
      · intro h q hle hlt
        rcases Nat.eq_or_lt_of_le hle with rfl | hlt'
        · exact TreeSet.mem_iff_contains.2 hfirst
        · exact h q hlt' (by omega)
      · exact fun h q hle hlt => h q (by omega) (by omega)
    · next hfirst =>
      refine iff_of_false (Option.some_ne_none _) fun h => hfirst ?_
      exact TreeSet.mem_iff_contains.1 (h first (Nat.le_refl _) (by omega))

/-- A free page that is found is the least one. -/
theorem isLeast_of_firstFree? {first count : Nat} (h : m.firstFree? first count = some p) :
    IsLeast {q | (first ≤ q ∧ q < first + count) ∧ q ∉ m.allocated} p := by
  obtain ⟨hle, hlt, hfree⟩ := firstFree?_lt h
  refine ⟨⟨⟨hle, hlt⟩, fun hmem => hfree (TreeSet.mem_iff_contains.1 hmem)⟩, ?_⟩
  rintro q ⟨⟨hq, -⟩, hq'⟩
  clear hle hlt hfree
  induction count generalizing first with
  | zero => cases h
  | succ count ih =>
    unfold firstFree? at h
    split at h
    · next hfirst =>
      refine ih h ?_
      rcases Nat.eq_or_lt_of_le hq with rfl | hlt
      · exact absurd (TreeSet.mem_iff_contains.2 hfirst) hq'
      · exact hlt
    · cases h
      exact hq

/-- The allocator goes for the least free page of those that were asked for. -/
theorem nextFree?_eq_some_iff {segment : Option UInt32} : m.nextFree? segment = some p ↔
    IsLeast {q | m.HasPage segment q ∧ q ∉ m.allocated} p := by
  have hleast : ∀ {p}, m.nextFree? segment = some p →
      IsLeast {q | m.HasPage segment q ∧ q ∉ m.allocated} p := by
    intro p h
    have hfirst : m.firstFree? (m.pagesOf segment).1 (m.pagesOf segment).2 = some p := h
    have hleast := isLeast_of_firstFree? hfirst
    simp only [mem_pagesOf_iff] at hleast
    exact hleast
  refine ⟨hleast, fun h => ?_⟩
  rcases hp : m.nextFree? segment with _ | p'
  · obtain ⟨hpage, hfree⟩ := h.1
    obtain ⟨hle, hlt⟩ := (m.mem_pagesOf_iff segment p).2 hpage
    exact absurd (firstFree?_eq_none_iff.1 hp p hle hlt) hfree
  · rw [(hleast hp).unique h]

/-- There is no page to hand out just if all that could be are allocated. -/
theorem nextFree?_eq_none_iff {segment : Option UInt32} : m.nextFree? segment = none ↔
    ∀ q, m.HasPage segment q → q ∈ m.allocated := by
  simp only [← mem_pagesOf_iff, and_imp]
  exact firstFree?_eq_none_iff

/-- Which page is free next depends on the size of memory and on the allocated pages. -/
theorem nextFree?_congr {m m' : PagedMemory} (hcount : m'.pageCount = m.pageCount)
    (halloc : m'.allocated = m.allocated) (segment : Option UInt32) :
    m'.nextFree? segment = m.nextFree? segment := by
  refine Option.ext fun p => ?_
  simp only [nextFree?_eq_some_iff, HasPage, hcount, halloc]

/-- A page that the allocator goes for is free. -/
theorem not_mem_of_nextFree? {segment : Option UInt32} (h : m.nextFree? segment = some p) :
    p ∉ m.allocated :=
  (nextFree?_eq_some_iff.1 h).1.2

/-- Its number fits a word. -/
theorem toNat_of_nextFree? {segment : Option UInt32} (h : m.nextFree? segment = some p) :
    p.toUInt32.toNat = p := by
  have hcount := m.pageCount_lt
  have hlt := lt_of_nextFree? h
  exact UInt32.toNat_ofNat_of_lt' (by show p < 4294967296; omega)

/-! ## Allocation -/

/-- A page is filled with zeros, and no other. -/
theorem byteAt_clearPage (m : PagedMemory) (p c : Nat) :
    (m.clearPage p).byteAt c = if c / 256 = p then 0 else m.byteAt c := by
  have hlen : (List.replicate 256 (0 : UInt8)).length = 256 := List.length_replicate
  split
  · next h =>
    have hc : c = p * 256 + c % 256 := by omega
    have hk : c % 256 < (List.replicate 256 (0 : UInt8)).length := by omega
    rw [hc, clearPage, byteAt_setBytes_add _ _ _ hk, List.getElem_replicate]
  · next h =>
    rw [clearPage, byteAt_setBytes_of_outside _ (by omega)]

/-- Memory after a page was handed out: the page is filled with zeros and marked, and nothing else
changed. -/
structure HandedOut (m : PagedMemory) (p : Nat) (m' : PagedMemory) : Prop where
  pageCount : m'.pageCount = m.pageCount
  bytes : ∀ b, m'.byteAt b = if b / 256 = p then 0 else m.byteAt b
  allocated : ∀ q, q ∈ m'.allocated ↔ q = p ∨ q ∈ m.allocated

/-- A halfword at an even address lies in one page. -/
theorem HandedOut.halfAt {m' : PagedMemory} (h : m.HandedOut p m') {a : Address} (ha : a % 2 = 0) :
    m'.halfAt a.toNat = if a.toNat / 256 = p then 0 else m.halfAt a.toNat := by
  rw [Address.even_iff] at ha
  have hupper : (a.toNat + 1) / 256 = a.toNat / 256 := by omega
  rw [PagedMemory.halfAt, h.bytes, h.bytes, hupper]
  split
  · rfl
  · rfl

/-- A page that the allocator hands out is cleared and marked. -/
theorem allocatePage_of_some {segment : Option UInt32} (h : m.nextFree? segment = some p) :
    ∃ m', PhysicalMemory.allocatePage segment m = .ok p.toUInt32 m' ∧ m.HandedOut p m' ∧
      m'.allocated = m.allocated.insert p := by
  have hp : p < (m.clearPage p).pageCount := by
    rw [clearPage_pageCount]
    exact lt_of_nextFree? h
  have hrun : PhysicalMemory.allocatePage segment m =
      .ok p.toUInt32 ((m.clearPage p).allocate p hp) := by
    show allocatePage segment m = _
    unfold allocatePage
    split
    · next hn =>
      rw [hn] at h
      cases h
    · next q hq =>
      rw [hq] at h
      injection h with h
      subst h
      rfl
  obtain ⟨hcount, hbytes, hallocated⟩ := (m.clearPage p).marked_allocate hp
  have hmarks : (m.clearPage p).allocated = m.allocated := allocated_setBytes ..
  refine ⟨_, hrun, ⟨hcount.trans (clearPage_pageCount m p), fun b => ?_, fun q => ?_⟩, ?_⟩
  · rw [hbytes, byteAt_clearPage]
  · rw [hallocated, hmarks]
  · rw [allocated_allocate, hmarks]

/-- Without a free page an allocation is refused and changes nothing. -/
theorem allocatePage_of_none {segment : Option UInt32} (h : m.nextFree? segment = none) :
    PhysicalMemory.allocatePage segment m = .error .noFreePage m := by
  show allocatePage segment m = _
  unfold allocatePage
  split
  · rfl
  · next q hq =>
    rw [hq] at h
    cases h

/-- The least free page of those that were asked for is handed out, and if there is none, nothing
happens. -/
theorem allocatePage_cases (m : PagedMemory) (segment : Option UInt32) :
    (∃ p m', PhysicalMemory.allocatePage segment m = .ok p m' ∧
      IsLeast {q | m.HasPage segment q ∧ q ∉ m.allocated} p.toNat ∧ m.HandedOut p.toNat m') ∨
    PhysicalMemory.allocatePage segment m = .error .noFreePage m ∧
      ∀ q, m.HasPage segment q → q ∈ m.allocated := by
  rcases h : m.nextFree? segment with _ | p
  · exact .inr ⟨allocatePage_of_none h, nextFree?_eq_none_iff.1 h⟩
  · obtain ⟨m', hrun, hhanded, -⟩ := allocatePage_of_some h
    rw [← toNat_of_nextFree? h] at hhanded
    refine .inl ⟨_, m', hrun, ?_, hhanded⟩
    rw [toNat_of_nextFree? h]
    exact nextFree?_eq_some_iff.1 h

/-! ## Pages that are given back -/

/-- Memory after a page was given back. -/
structure GivenBack (m : PagedMemory) (p : Nat) (m' : PagedMemory) : Prop where
  pageCount : m'.pageCount = m.pageCount
  bytes : ∀ b, m'.byteAt b = m.byteAt b
  allocated : ∀ q, q ∈ m'.allocated ↔ q ≠ p ∧ q ∈ m.allocated

/-- The mark of one page is taken away, and its bytes stay. -/
theorem givenBack_release (m : PagedMemory) (p : Nat) : m.GivenBack p (m.release p) := by
  refine ⟨rfl, fun _ => rfl, fun q => ?_⟩
  show q ∈ m.allocated.erase p ↔ _
  rw [TreeSet.mem_erase, ne_eq, Nat.compare_eq_eq, eq_comm]

/-- A page that is allocated can be freed, and for every other one nothing happens. -/
theorem freePage_cases (m : PagedMemory) (page : UInt32) :
    (page.toNat ∈ m.allocated ∧
      ∃ m', PhysicalMemory.freePage page m = .ok () m' ∧ m.GivenBack page.toNat m') ∨
    page.toNat ∉ m.allocated ∧ ∃ e, PhysicalMemory.freePage page m = .error e m := by
  show (_ ∧ ∃ m', freePage page m = _ ∧ _) ∨ _ ∧ ∃ e, freePage page m = _
  unfold freePage
  split
  · next hcount =>
    exact .inr ⟨fun hmem => absurd (m.lt_of_allocated _ hmem) (Nat.not_lt.2 hcount), _, rfl⟩
  · split
    · next hmem =>
      exact .inl ⟨TreeSet.mem_iff_contains.2 hmem, _, rfl, m.givenBack_release _⟩
    · next hmem => exact .inr ⟨fun h => hmem (TreeSet.mem_iff_contains.1 h), _, rfl⟩

/-! ## Reserved ranges -/

/-- A byte of the range lies in the page. -/
def Touches (a length p : Nat) : Prop := ∃ b, a ≤ b ∧ b < a + length ∧ b / 256 = p

/-- The pages that a range touches are those from its first byte to its last one. -/
theorem touches_iff {a length : Nat} (h : 0 < length) :
    Touches a length p ↔ a / 256 ≤ p ∧ p ≤ (a + length - 1) / 256 := by
  constructor
  · rintro ⟨b, hle, hlt, rfl⟩
    exact ⟨Nat.div_le_div_right hle, Nat.div_le_div_right (by omega)⟩
  · rintro ⟨hle, hle'⟩
    rcases Nat.eq_or_lt_of_le hle with rfl | hlt
    · exact ⟨a, Nat.le_refl _, by omega, rfl⟩
    · exact ⟨p * 256, by omega, by omega, by omega⟩

/-- A range that ends within memory is reserved: the pages that it touches are marked. A range of no
bytes touches no page and is accepted anywhere, and for every other one nothing happens. -/
theorem reserve_cases (m : PagedMemory) (a : Address) (length : UInt32) :
    ((length = 0 ∨ a.toNat + length.toNat ≤ m.size) ∧
      ∃ m', PhysicalMemory.reserve a length m = .ok () m' ∧
        m.Marked (Touches a.toNat length.toNat) m') ∨
    (length ≠ 0 ∧ m.size < a.toNat + length.toNat) ∧
      PhysicalMemory.reserve a length m = .error (.outOfBounds a length) m := by
  show (_ ∧ ∃ m', reserve a length m = _ ∧ _) ∨ _ ∧ reserve a length m = _
  unfold reserve
  split
  · next hl =>
    refine .inl ⟨.inl hl, m, rfl, rfl, fun _ => rfl, fun q => ?_⟩
    rw [or_iff_right]
    rintro ⟨b, hle, hlt, -⟩
    rw [hl, UInt32.toNat_zero] at hlt
    omega
  · next hl =>
    split
    · next h =>
      have hpos : 0 < length.toNat := Nat.pos_of_ne_zero fun e => hl (UInt32.toNat_inj.1 e)
      obtain ⟨hcount, hbytes, hallocated⟩ := m.marked_allocateRange _ _ _
      refine .inl ⟨.inr h, _, rfl, hcount, hbytes, fun q => ?_⟩
      rw [hallocated, touches_iff hpos]
      refine or_congr_left ?_
      omega
    · next h => exact .inr ⟨⟨hl, Nat.lt_of_not_le h⟩, rfl⟩

/-! ## Counting -/

/-- A set of pages lists each of them once. -/
theorem nodup_toList (pages : TreeSet Nat) : pages.toList.Nodup :=
  pages.distinct_toList.imp fun h e => h (by rw [e]; exact compare_self)

/-- There are as many marks as marked pages. -/
theorem size_allocated_eq_countP (m : PagedMemory) :
    m.allocated.size = (List.range m.pageCount).countP fun p => p ∈ m.allocated := by
  have hperm : m.allocated.toList.Perm
      ((List.range m.pageCount).filter fun p => p ∈ m.allocated) := by
    refine (List.perm_ext_iff_of_nodup (nodup_toList _) (List.nodup_range.filter _)).2 fun p => ?_
    rw [TreeSet.mem_toList, List.mem_filter, List.mem_range, decide_eq_true_eq]
    exact ⟨fun h => ⟨m.lt_of_allocated p h, h⟩, fun h => h.2⟩
  rw [← TreeSet.length_toList, hperm.length_eq, List.countP_eq_length_filter]

/-- The free pages that are counted are the pages without a mark. -/
theorem freePageCount_eq_countP (m : PagedMemory) : PhysicalMemory.freePageCount m =
    (List.range m.pageCount).countP fun p => p ∉ m.allocated := by
  have hall := List.length_eq_countP_add_countP (fun p => decide (p ∈ m.allocated))
    (l := List.range m.pageCount)
  rw [List.length_range, ← size_allocated_eq_countP] at hall
  show m.pageCount - m.allocated.size = _
  simp only [decide_not] at hall ⊢
  simp only [decide_eq_true_eq] at hall
  omega

end PagedMemory

end Multicore
