import Multicore.Proofs.Coherence.Pages
import Multicore.Proofs.Coherence.Preserved
import Multicore.Proofs.Core.Effects

/-!
# Cores in front of a paged memory

What a core does past its data cache when the memory is a `PagedMemory`: it reads instructions
and interrupt vectors, which changes nothing but the instruction cache (`fetch_spec`), and it
allocates and frees pages, if there are any (`allocatePage_of_some`, `freePage_of_mem`).
-/

namespace Multicore

open Std

namespace Node

variable {n : Node PagedMemory}

/-- Reading memory past the data caches leaves the bus alone. -/
theorem finalState_onMemory_of_reads {α : Type} {x : EStateM MemoryError PagedMemory α}
    (hx : PagedMemory.Reads x) (bus : Bus PagedMemory) : finalState (Bus.onMemory x) bus = bus := by
  rw [Bus.finalState_onMemory, hx]

/-- The instruction that memory holds at an address, or the fault of a fetch from there. -/
def instructionAt (set : InstructionSet) (m : PagedMemory) (a : Address) :
    Except Fault Instruction :=
  match PhysicalMemory.readWord a m with
  | .ok w _ => set.decode w
  | .error e _ => .error (.ofMemory e)

/-- A fetch answers the cached instruction, or else the one in memory. It changes the
instruction cache only, and takes nothing in but the instruction that it answers, if that was not
cached. -/
theorem fetch_spec (set : InstructionSet) (a : Address) (n : Node PagedMemory) :
    ∃ fetched, (∀ b i, fetched.entries.peek? b = some i →
        n.core.fetched.entries.peek? b = some i ∨
          b = a ∧ n.core.fetched.entries.peek? a = none ∧
            instructionAt set n.bus.memory a = .ok i) ∧
      fetch set a n =
        match (n.core.fetched.entries.peek? a).elim (instructionAt set n.bus.memory a) .ok with
        | .ok i => .ok i (n.mapCore fun c => { c with fetched })
        | .error fault => .error fault (n.mapCore fun c => { c with fetched }) := by
  have hfst := n.core.fetched.entries.get_fst a
  have hpeek := n.core.fetched.entries.peek?_get a
  -- a miss that memory refuses, one whose word is no instruction, one taken in, and a hit
  rcases hget : n.core.fetched.entries.get a with ⟨_ | i, entries⟩
  · rw [hget] at hfst hpeek
    have hread := PagedMemory.reads_readWord a n.bus.memory
    rw [← hfst, Option.elim_none, instructionAt]
    rcases hrun : PhysicalMemory.readWord a n.bus.memory with ⟨w, m⟩ | ⟨e, m⟩
    · rw [finalState_of_ok hrun] at hread
      have hbus : Bus.onMemory (PhysicalMemory.readWord a) n.bus = .ok w n.bus := by
        rw [Bus.onMemory, hrun, hread]
      dsimp only
      rcases hdecode : set.decode w with fault | i
      · refine ⟨{ n.core.fetched with entries, misses := n.core.fetched.misses + 1 }, ?_, ?_⟩
        · exact fun b j hb => .inl ((hpeek b).symm.trans hb)
        · simp only [fetch, InstructionCache.get, hget, bind_of_ok hbus, hdecode]
          rfl
      · refine ⟨{ n.core.fetched with
          entries := (entries.insert a i).2
          misses := n.core.fetched.misses + 1 }, fun b j hb => ?_, ?_⟩
        · rcases RecencyMap.of_peek?_insert hb with hold | ⟨hba, rfl⟩
          · exact .inl ((hpeek b).symm.trans hold)
          · exact .inr ⟨hba, rfl, rfl⟩
        · simp only [fetch, InstructionCache.get, hget, bind_of_ok hbus, hdecode]
          rfl
    · rw [finalState_of_error hrun] at hread
      have hbus : Bus.onMemory (PhysicalMemory.readWord a) n.bus =
          .error (.ofMemory e) n.bus := by
        rw [Bus.onMemory, hrun, hread]
      refine ⟨{ n.core.fetched with entries, misses := n.core.fetched.misses + 1 }, ?_, ?_⟩
      · exact fun b j hb => .inl ((hpeek b).symm.trans hb)
      · simp only [fetch, InstructionCache.get, hget, bind_of_error hbus]
        rfl
  · rw [hget] at hfst hpeek
    refine ⟨{ n.core.fetched with entries, hits := n.core.fetched.hits + 1 }, ?_, ?_⟩
    · exact fun b j hb => .inl ((hpeek b).symm.trans hb)
    · rw [← hfst]
      simp only [fetch, InstructionCache.get, hget]
      rfl

/-- A fetch changes the instruction cache only. -/
theorem finalState_fetch (set : InstructionSet) (a : Address) (n : Node PagedMemory) :
    ∃ fetched, finalState (fetch set a) n = n.mapCore fun c => { c with fetched } := by
  obtain ⟨fetched, -, hrun⟩ := fetch_spec set a n
  refine ⟨fetched, ?_⟩
  split at hrun
  · exact finalState_of_ok hrun
  · exact finalState_of_error hrun

/-- The fetch at the start of a step changes the instruction cache only. -/
theorem primed_eq (p : Platform) (n : Node PagedMemory) :
    ∃ fetched, n.primed p = n.mapCore fun c => { c with fetched } := by
  rcases hset : p.sets[n.core.activeSet]? with _ | set
  · exact ⟨n.core.fetched, primed_of_none hset⟩
  · rw [primed_of_some hset]
    exact finalState_fetch set _ n

/-- Loading a vector changes nothing. -/
theorem finalState_loadVector (table : Address) (index : UInt32) (n : Node PagedMemory) :
    finalState (onMemory (PhysicalMemory.loadVector table index)) n = n := by
  show finalState (onBus _) n = n
  rw [finalState_onBus, finalState_onMemory_of_reads (PagedMemory.reads_loadVector table index)]

/-! ## Pages -/

/-- The caches drop their lines of the page that memory hands out. -/
theorem allocatePage_of_ok {segment : Option UInt32} {page : UInt32} {m : PagedMemory}
    (h : PhysicalMemory.allocatePage segment n.bus.memory = .ok page m) :
    allocatePage segment n = .ok page
      { n with
        bus := ({ n.bus with memory := m } : Bus PagedMemory).discard (.page page) false } := by
  have hmem : Bus.onMemory (PhysicalMemory.allocatePage segment) n.bus =
      .ok page { n.bus with memory := m } := by
    rw [Bus.onMemory, h]
  have hrun : onMemory (PhysicalMemory.allocatePage segment) n =
      .ok page { n with bus := { n.bus with memory := m } } := by
    rw [onMemory, onBus, hmem]
  exact (bind_of_ok hrun).trans rfl

/-- A page is allocated if one is free: the lowest one. No cache has a line of it then, and its
halfwords are zero. -/
theorem allocatePage_of_some (h : n.bus.Coherent) {segment : Option UInt32} {p : Nat}
    (hp : n.bus.memory.nextFree? segment = some p) :
    ∃ bus, allocatePage segment n = .ok p.toUInt32 { n with bus } ∧ p.toUInt32.toNat = p ∧
      n.bus.Cleared p.toUInt32 bus ∧
      bus.memory.allocated = n.bus.memory.allocated.insert p ∧
      ∀ {a : Address}, a % 2 = 0 → a.toNat / 256 = p → bus.halfAt a = 0 := by
  obtain ⟨m, halloc, hhanded, hallocated⟩ := PagedMemory.allocatePage_of_some hp
  have hnat := PagedMemory.toNat_of_nextFree? hp
  obtain ⟨hcleared, halloc', hin⟩ := Bus.cleared_discard h (p := p.toUInt32) hhanded.pageCount
    fun {a} ha hout => by rw [hhanded.halfAt ha, if_neg (hnat ▸ hout)]
  refine ⟨({ n.bus with memory := m } : Bus PagedMemory).discard (.page p.toUInt32) false,
    allocatePage_of_ok halloc, hnat, hcleared, halloc'.trans hallocated, fun {a} ha hpage => ?_⟩
  rw [hin ha (hpage.trans hnat.symm), hhanded.halfAt ha, if_pos hpage]

/-- Without a free page nothing happens. -/
theorem allocatePage_of_none {segment : Option UInt32}
    (hp : n.bus.memory.nextFree? segment = none) :
    allocatePage segment n = .error (.memory .noFreePage) n := by
  have hmem : Bus.onMemory (PhysicalMemory.allocatePage segment) n.bus =
      .error (.memory .noFreePage) n.bus := by
    rw [Bus.onMemory, PagedMemory.allocatePage_of_none hp]
    rfl
  have hrun : onMemory (PhysicalMemory.allocatePage segment) n =
      .error (.memory .noFreePage) n := by
    rw [onMemory, onBus, hmem]
  exact bind_of_error hrun

/-- The caches drop their lines of a page that is allocated, and then memory takes it back. -/
theorem freePage_eq_of_mem {page : UInt32} (hp : page.toNat ∈ n.bus.memory.allocated) :
    freePage page n = .ok ()
      { n with bus :=
        let bus := n.bus.discard (.page page) false
        { bus with memory := bus.memory.release page.toNat } } := by
  have hlt := n.bus.memory.lt_of_allocated _ hp
  have hcontains : n.bus.memory.allocated.contains page.toNat = true :=
    TreeSet.mem_iff_contains.1 hp
  have hdescribe : onMemory (PhysicalMemory.describePage page) n =
      .ok ⟨page, pageBase page, true⟩ n := by
    have hmem : PhysicalMemory.describePage page n.bus.memory =
        .ok ⟨page, pageBase page, true⟩ n.bus.memory := by
      show PagedMemory.describePage page n.bus.memory = _
      rw [PagedMemory.describePage, if_neg (Nat.not_le_of_lt hlt), hcontains]
    rw [onMemory, onBus, Bus.onMemory, hmem]
  obtain ⟨hcount, hallocated⟩ := Prod.ext_iff.1 (Bus.ofMemory_broadcast
    PagedMemory.unaffected_pages n.bus none (.page page) false true)
  have hrun : freePage page n = onMemory (PhysicalMemory.freePage page)
      { n with bus := n.bus.discard (.page page) false } := by
    rw [freePage, bind_of_ok hdescribe]
    rfl
  have hfree : PhysicalMemory.freePage page (n.bus.discard (.page page) false).memory =
      .ok () ((n.bus.discard (.page page) false).memory.release page.toNat) := by
    have hlt' : ¬ (n.bus.discard (.page page) false).memory.pageCount ≤ page.toNat := by
      rw [show (n.bus.discard (.page page) false).memory.pageCount = _ from hcount]
      exact Nat.not_le_of_lt hlt
    have hcontains' :
        (n.bus.discard (.page page) false).memory.allocated.contains page.toNat = true := by
      rw [show (n.bus.discard (.page page) false).memory.allocated = _ from hallocated]
      exact hcontains
    show PagedMemory.freePage page _ = _
    rw [PagedMemory.freePage, if_neg hlt', if_pos hcontains']
  rw [hrun, onMemory, onBus, Bus.onMemory, hfree]

/-- A page that is allocated is freed. No cache has a line of it then. -/
theorem freePage_of_mem (h : n.bus.Coherent) {page : UInt32}
    (hp : page.toNat ∈ n.bus.memory.allocated) :
    ∃ bus, freePage page n = .ok () { n with bus } ∧ n.bus.Cleared page bus ∧
      bus.memory.allocated = n.bus.memory.allocated.erase page.toNat := by
  obtain ⟨hcleared, hallocated, -⟩ := Bus.cleared_discard h (m := n.bus.memory) (p := page) rfl
    fun _ _ => rfl
  refine ⟨_, freePage_eq_of_mem hp, hcleared.memory rfl fun _ => rfl, ?_⟩
  exact congrArg (TreeSet.erase · page.toNat) hallocated

/-- A page that is not allocated is not freed. -/
theorem freePage_of_not_mem {page : UInt32} (hp : page.toNat ∉ n.bus.memory.allocated) :
    freePage page n = .error (.memory (if n.bus.memory.pageCount ≤ page.toNat then
      .invalidPage page else .pageNotAllocated page)) n := by
  have hcontains : n.bus.memory.allocated.contains page.toNat = false := by
    rwa [← Bool.not_eq_true, ← TreeSet.mem_iff_contains]
  by_cases hlt : n.bus.memory.pageCount ≤ page.toNat
  · have hmem : PhysicalMemory.describePage page n.bus.memory =
        .error (.invalidPage page) n.bus.memory := by
      show PagedMemory.describePage page n.bus.memory = _
      rw [PagedMemory.describePage, if_pos hlt]
    have hrun : onMemory (PhysicalMemory.describePage page) n =
        .error (.memory (.invalidPage page)) n := by
      rw [onMemory, onBus, Bus.onMemory, hmem]
      rfl
    rw [if_pos hlt]
    exact bind_of_error hrun
  · have hmem : PhysicalMemory.describePage page n.bus.memory =
        .ok ⟨page, pageBase page, false⟩ n.bus.memory := by
      show PagedMemory.describePage page n.bus.memory = _
      rw [PagedMemory.describePage, if_neg hlt, hcontains]
    have hrun : onMemory (PhysicalMemory.describePage page) n =
        .ok ⟨page, pageBase page, false⟩ n := by
      rw [onMemory, onBus, Bus.onMemory, hmem]
    rw [if_neg hlt]
    exact (bind_of_ok hrun).trans rfl

end Node

end Multicore
