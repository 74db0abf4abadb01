import Multicore.Proofs.Computation
import Multicore.Proofs.Memory.Pages

/-!
# The history of a paged memory

A memory is used by a sequence of operations, and its history records each one with what came of
it. From the history one can tell which pages are in use: those that were taken, by an allocation or
by a reservation, and not given back since (`PagedMemory.InUse`). The pages that a memory has marked
as allocated are exactly these (`PagedMemory.mem_allocated_history_iff`), so the allocator hands out
the least page that is not in use (`PagedMemory.allocation_follows_history`).
-/

namespace Multicore.PagedMemory

open Std

/-! ## Operations -/

/-- What may be done with a memory. -/
inductive Operation where
  | allocatePage (segment : Option UInt32)
  | freePage (page : UInt32)
  | reserve (a : Address) (length : UInt32)
  | describePage (page : UInt32)
  | readByte (a : Address)
  | readHalf (a : Address)
  | readWord (a : Address)
  | writeByte (a : Address) (b : UInt8)
  | writeHalf (a : Address) (v : UInt16)
  | writeWord (a : Address) (w : UInt32)
  | load (a : Address) (image : List UInt8)

/-- What a memory answers to an operation that succeeds. -/
inductive Answer where
  | done
  | page (p : UInt32)
  | description (d : PageDescriptor)
  | byte (b : UInt8)
  | half (v : UInt16)
  | word (w : UInt32)

/-- Do an operation. -/
def Operation.perform : Operation → EStateM MemoryError PagedMemory Answer
  | .allocatePage segment => return .page (← PhysicalMemory.allocatePage segment)
  | .freePage page => do PhysicalMemory.freePage page; return .done
  | .reserve a length => do PhysicalMemory.reserve a length; return .done
  | .describePage page => return .description (← PhysicalMemory.describePage page)
  | .readByte a => return .byte (← PhysicalMemory.readByte a)
  | .readHalf a => return .half (← PhysicalMemory.readHalf a)
  | .readWord a => return .word (← PhysicalMemory.readWord a)
  | .writeByte a b => do PhysicalMemory.writeByte a b; return .done
  | .writeHalf a v => do PhysicalMemory.writeHalf a v; return .done
  | .writeWord a w => do PhysicalMemory.writeWord a w; return .done
  | .load a image => do PhysicalMemory.load a image; return .done

/-- An operation that was done, and what came of it. -/
structure Event where
  operation : Operation
  outcome : Except MemoryError Answer

/-- What comes of an operation, and the memory that it leaves. -/
def Operation.happen (op : Operation) (m : PagedMemory) : Event × PagedMemory :=
  match op.perform m with
  | .ok answer m' => (⟨op, .ok answer⟩, m')
  | .error e m' => (⟨op, .error e⟩, m')

/-- The history of a sequence of operations, oldest event first, and the memory that it leaves. -/
def history (m : PagedMemory) : List Operation → List Event × PagedMemory
  | [] => ([], m)
  | op :: ops =>
    let (event, m') := op.happen m
    let (events, m'') := history m' ops
    (event :: events, m'')

/-! ## Pages in use -/

/-- The event takes the page: it was handed out, or lies in a range that was reserved. -/
def Event.Takes (e : Event) (p : Nat) : Prop :=
  match e.operation, e.outcome with
  | .allocatePage _, .ok (.page q) => p = q.toNat
  | .reserve a length, .ok _ => Touches a.toNat length.toNat p
  | _, _ => False

/-- The event gives the page back. -/
def Event.GivesBack (e : Event) (p : Nat) : Prop :=
  match e.operation, e.outcome with
  | .freePage q, .ok _ => p = q.toNat
  | _, _ => False

/-- The page was taken, and not given back since. -/
def InUse (events : List Event) (p : Nat) : Prop :=
  ∃ before e since, events = before ++ e :: since ∧ e.Takes p ∧ ∀ f ∈ since, ¬ f.GivesBack p

/-- A page that no event after the first one takes was taken by the first. -/
theorem inUse_cons_iff {e : Event} {events : List Event} {p : Nat} :
    InUse (e :: events) p ↔ InUse events p ∨ e.Takes p ∧ ∀ f ∈ events, ¬ f.GivesBack p := by
  constructor
  · rintro ⟨before, e', since, hevents, htakes, hsince⟩
    rcases List.cons_eq_append_iff.1 hevents with ⟨-, hcons⟩ | ⟨before', -, hevents'⟩
    · cases hcons
      exact .inr ⟨htakes, hsince⟩
    · exact .inl ⟨before', e', since, hevents', htakes, hsince⟩
  · rintro (⟨before, e', since, rfl, htakes, hsince⟩ | ⟨htakes, hsince⟩)
    · exact ⟨e :: before, e', since, rfl, htakes, hsince⟩
    · exact ⟨[], e, events, rfl, htakes, hsince⟩

/-! ## One operation -/

/-- The operation reads or writes, and neither allocates nor frees. -/
def Operation.IsAccess : Operation → Prop
  | .allocatePage _ | .freePage _ | .reserve .. => False
  | _ => True

/-- What an operation did to the marks: the pages that it takes are marked, and the page that it
gives back is not. -/
structure Follows (m : PagedMemory) (e : Event) (m' : PagedMemory) : Prop where
  pageCount : m'.pageCount = m.pageCount
  allocated : ∀ p, p ∈ m'.allocated ↔ e.Takes p ∨ p ∈ m.allocated ∧ ¬ e.GivesBack p

section
variable {m m' : PagedMemory} (op : Operation)

/-- What happened, when an operation succeeds. -/
theorem happen_of_ok {answer : Answer} (h : op.perform m = .ok answer m') :
    op.happen m = (⟨op, .ok answer⟩, m') := by
  rw [Operation.happen, h]

/-- What happened, when an operation is refused. -/
theorem happen_of_error {e : MemoryError} (h : op.perform m = .error e m') :
    op.happen m = (⟨op, .error e⟩, m') := by
  rw [Operation.happen, h]

/-- An event that takes no page and gives none back leaves the marks alone. -/
theorem Follows.of_pageMap {e : Event} (h : m'.pageMap = m.pageMap) (htakes : ∀ p, ¬ e.Takes p)
    (hgives : ∀ p, ¬ e.GivesBack p) : m.Follows e m' := by
  obtain ⟨hcount, hallocated⟩ := Prod.mk.inj h
  refine ⟨hcount, fun p => ?_⟩
  rw [hallocated, or_iff_right (htakes p), and_iff_left (hgives p)]

/-- An operation that fails and leaves memory alone takes no page and gives none back. -/
theorem Follows.of_error {e : MemoryError} (h : op.perform m = .error e m) :
    m.Follows (op.happen m).1 (op.happen m).2 := by
  rw [happen_of_error op h]
  cases op <;> exact .of_pageMap rfl (fun _ => not_false) fun _ => not_false

/-- An access to bytes leaves the page map. -/
theorem Operation.IsAccess.preserves {op : Operation} (h : op.IsAccess) :
    Preserves pageMap op.perform := by
  cases op with
  | allocatePage | freePage | reserve => exact h.elim
  | describePage page => exact ((reads_describePage page).bind fun _ _ => rfl).preserves _
  | readByte a => exact ((reads_readWith 1 byteAt a).bind fun _ _ => rfl).preserves _
  | readHalf a => exact ((reads_readHalf a).bind fun _ _ => rfl).preserves _
  | readWord a => exact ((reads_readWord a).bind fun _ _ => rfl).preserves _
  | writeByte a b => exact (preserves_writeWith 1 a [b]).bind fun _ _ => rfl
  | writeHalf a v => exact (preserves_writeWith 2 a (bytesOfHalf v)).bind fun _ _ => rfl
  | writeWord a w => exact (preserves_writeWith 4 a (bytesOfWord w)).bind fun _ _ => rfl
  | load a image => exact (preserves_load a image).bind fun _ _ => rfl

/-- An access to bytes follows any history of allocation. -/
theorem follows_of_isAccess {op : Operation} (h : op.IsAccess) (m : PagedMemory) :
    m.Follows (op.happen m).1 (op.happen m).2 := by
  have hnone : ∀ outcome p, ¬ Event.Takes ⟨op, outcome⟩ p ∧ ¬ Event.GivesBack ⟨op, outcome⟩ p := by
    intro outcome p
    cases op with
    | allocatePage | freePage | reserve => exact h.elim
    | _ => exact ⟨not_false, not_false⟩
  have hsame := h.preserves m
  rcases hrun : op.perform m with ⟨answer, m'⟩ | ⟨e, m'⟩
  · rw [finalState_of_ok hrun] at hsame
    rw [happen_of_ok op hrun]
    exact .of_pageMap hsame (fun p => (hnone _ p).1) fun p => (hnone _ p).2
  · rw [finalState_of_error hrun] at hsame
    rw [happen_of_error op hrun]
    exact .of_pageMap hsame (fun p => (hnone _ p).1) fun p => (hnone _ p).2

end

/-- The marks follow every operation. -/
theorem Operation.follows (op : Operation) (m : PagedMemory) :
    m.Follows (op.happen m).1 (op.happen m).2 := by
  cases op with
  | allocatePage segment =>
    rcases m.allocatePage_cases segment with ⟨p, m', hrun, -, hhanded⟩ | ⟨hrun, -⟩
    · rw [happen_of_ok (.allocatePage segment) (bind_of_ok hrun)]
      exact ⟨hhanded.pageCount, fun q =>
        (hhanded.allocated q).trans (or_congr_right (and_iff_left not_false).symm)⟩
    · exact .of_error (.allocatePage segment) (bind_of_error hrun)
  | freePage page =>
    rcases m.freePage_cases page with ⟨-, m', hrun, hgiven⟩ | ⟨-, e, hrun⟩
    · rw [happen_of_ok (.freePage page) (bind_of_ok hrun)]
      exact ⟨hgiven.pageCount, fun q =>
        (hgiven.allocated q).trans (and_comm.trans (or_iff_right not_false).symm)⟩
    · exact .of_error (.freePage page) (bind_of_error hrun)
  | reserve a length =>
    rcases m.reserve_cases a length with ⟨-, m', hrun, hmarked⟩ | ⟨-, hrun⟩
    · rw [happen_of_ok (.reserve a length) (bind_of_ok hrun)]
      exact ⟨hmarked.pageCount, fun q =>
        (hmarked.allocated q).trans (or_congr_right (and_iff_left not_false).symm)⟩
    · exact .of_error (.reserve a length) (bind_of_error hrun)
  | _ =>
    refine follows_of_isAccess ?_ m
    trivial

/-! ## Histories -/

/-- A page is marked if the history says that it is in use, or if it was marked before and not
given back. -/
theorem follows_history (m : PagedMemory) (ops : List Operation) :
    (m.history ops).2.pageCount = m.pageCount ∧
      ∀ p, p ∈ (m.history ops).2.allocated ↔
        InUse (m.history ops).1 p ∨
          p ∈ m.allocated ∧ ∀ f ∈ (m.history ops).1, ¬ f.GivesBack p := by
  induction ops generalizing m with
  | nil =>
    refine ⟨rfl, fun p => ?_⟩
    have hnone : ¬ InUse [] p := by
      rintro ⟨before, e, since, hevents, -⟩
      cases before <;> cases hevents
    simp [history, hnone]
  | cons op ops ih =>
    obtain ⟨hcount, hallocated⟩ := op.follows m
    obtain ⟨hcount', hallocated'⟩ := ih (op.happen m).2
    refine ⟨hcount'.trans hcount, fun p => ?_⟩
    rw [history, hallocated', hallocated, inUse_cons_iff, List.forall_mem_cons]
    tauto

/-- In a memory that was new, the marked pages are those that its history says are in use. -/
theorem mem_allocated_history_iff (bytes : UInt32) (ops : List Operation) (p : Nat) :
    p ∈ ((ofSize bytes).history ops).2.allocated ↔ InUse ((ofSize bytes).history ops).1 p := by
  have hnone : p ∉ (ofSize bytes).allocated := TreeSet.not_mem_emptyc
  rw [((ofSize bytes).follows_history ops).2, or_iff_left fun h => hnone h.1]

/-- Whatever was done with a memory of some size, its pages are those of that size, and the
allocated ones are those in use. Of the pages in memory, or in a segment of it, the allocator hands
out the least one that is not in use, filled with zeros, or it fails if there is none; so a page
that was taken is not handed out before it is given back. Pages in use can be given back. A range
is reserved if it ends within memory, or refused. The free pages are counted. -/
theorem allocation_follows_history (bytes : UInt32) (ops : List Operation) :
    let events := ((ofSize bytes).history ops).1
    let m := ((ofSize bytes).history ops).2
    m.pageCount = pagesFor bytes ∧ (∀ p, p ∈ m.allocated ↔ InUse events p) ∧
      (∀ segment,
        (∃ p m', PhysicalMemory.allocatePage segment m = .ok p m' ∧
          IsLeast {q | m.HasPage segment q ∧ ¬ InUse events q} p.toNat ∧
          m.HandedOut p.toNat m' ∧
          ∀ before e since, events = before ++ e :: since → e.Takes p.toNat →
            ∃ f ∈ since, f.GivesBack p.toNat) ∨
        PhysicalMemory.allocatePage segment m = .error .noFreePage m ∧
          ∀ q, m.HasPage segment q → InUse events q) ∧
      (∀ page,
        (InUse events page.toNat ∧
          ∃ m', PhysicalMemory.freePage page m = .ok () m' ∧ m.GivenBack page.toNat m') ∨
        ¬ InUse events page.toNat ∧ ∃ e, PhysicalMemory.freePage page m = .error e m) ∧
      (∀ a length,
        ((length = 0 ∨ a.toNat + length.toNat ≤ m.size) ∧
          ∃ m', PhysicalMemory.reserve a length m = .ok () m' ∧
            m.Marked (Touches a.toNat length.toNat) m') ∨
        (length ≠ 0 ∧ m.size < a.toNat + length.toNat) ∧
          PhysicalMemory.reserve a length m = .error (.outOfBounds a length) m) ∧
      PhysicalMemory.freePageCount m =
        (List.range m.pageCount).countP fun p => p ∉ m.allocated := by
  intro events m
  have hmem : ∀ p, p ∈ m.allocated ↔ InUse events p := mem_allocated_history_iff bytes ops
  refine ⟨((ofSize bytes).follows_history ops).1, hmem, fun segment => ?_, fun page => ?_,
    m.reserve_cases, m.freePageCount_eq_countP⟩
  · simp only [← hmem]
    refine (m.allocatePage_cases segment).imp_left ?_
    rintro ⟨p, m', hrun, hleast, hhanded⟩
    refine ⟨p, m', hrun, hleast, hhanded, fun before e since hevents htakes => ?_⟩
    -- a page taken and not given back since is in use, and none of those is handed out
    by_contra hkept
    have hlive : InUse events p.toNat :=
      ⟨before, e, since, hevents, htakes, fun f hf hgives => hkept ⟨f, hf, hgives⟩⟩
    exact hleast.1.2 ((hmem _).2 hlive)
  · rw [← hmem]
    exact m.freePage_cases page

end Multicore.PagedMemory
