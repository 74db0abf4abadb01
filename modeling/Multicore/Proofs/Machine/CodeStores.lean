import Multicore.Proofs.Machine.Coherence

/-!
# Stores to code

A core fetches past the data caches: what its instruction cache lacks comes from memory
(`Node.executeNext_of_uncached`). A store ends in a data cache, and memory has its value only once
the line is written back. So once the instruction cache is cleared, a core decodes what was stored
to its code exactly if no data cache has a dirty line there that differs from memory
(`Machine.decoded_word_eq_loaded_word_iff`). Clearing the instruction cache alone is not enough
(`Machine.decoded_word_stale_after_select`).
-/

namespace Multicore

/-! ## Words of memory -/

/-- A word is made of its halfwords. -/
theorem PagedMemory.wordAt_eq_halves (m : PagedMemory) {a : Address} (ha : a % 4 = 0) :
    m.wordAt a.toNat = wordOfHalves (m.halfAt a.toNat) (m.halfAt (a + 2).toNat) := by
  rw [Address.toNat_add_two ha]
  rfl

/-- Words are equal if both of their halves are. -/
theorem wordOfHalves_inj {lo hi lo' hi' : UInt16} :
    wordOfHalves lo hi = wordOfHalves lo' hi' ↔ lo = lo' ∧ hi = hi' := by
  refine ⟨fun h => ⟨?_, ?_⟩, fun ⟨hlo, hhi⟩ => by rw [hlo, hhi]⟩
  · simpa using congrArg lowHalf h
  · simpa using congrArg highHalf h

namespace Bus

variable {bus : Bus PagedMemory} {a : Address}

/-- Memory is up to date at an address: a cache that has a dirty line of the halfword has the value
of memory there. -/
def UpToDate (bus : Bus PagedMemory) (a : Address) : Prop :=
  ∀ i l, bus.isRegistered i = true → (bus.store i).line? a = some l → l.dirty = true →
    l.value = bus.memory.halfAt a.toNat

/-- Memory is up to date where it has the value of the halfword. -/
theorem Coherent.memory_eq_halfAt_iff (h : bus.Coherent) :
    bus.memory.halfAt a.toNat = bus.halfAt a ↔ bus.UpToDate a := by
  constructor
  · intro he i l hi hl _
    have hholds := (h.each a).holds_of_cached (cached_eq_some_iff.2 ⟨hi, hl⟩)
    exact (hholds.unique (h.each a) (bus.holds_halfAt a)).trans he.symm
  · intro hu
    cases bus.holds_halfAt a with
    | dirty i hi =>
      obtain ⟨hreg, hl⟩ := cached_eq_some_iff.1 hi
      exact (hu i _ hreg hl rfl).symm
    | clean _ hs => exact hs

/-- Memory has the coherent word at an address if it is up to date with both its halfwords. -/
theorem Coherent.memory_eq_word_iff (h : bus.Coherent) (ha : a % 4 = 0) :
    bus.memory.wordAt a.toNat = bus.valueAt a .word ↔ bus.UpToDate a ∧ bus.UpToDate (a + 2) := by
  rw [bus.memory.wordAt_eq_halves ha, ← h.memory_eq_halfAt_iff, ← h.memory_eq_halfAt_iff]
  exact wordOfHalves_inj

end Bus

/-! ## Steps -/

namespace Node

variable {n : Node PagedMemory} {a : Address}

/-- Memory has an instruction at an address if the word there encodes one. -/
theorem instructionAt_of_inside (set : InstructionSet) {m : PagedMemory} (ha : a % 4 = 0)
    (hin : a.toNat + 4 ≤ m.size) : instructionAt set m a = set.decode (m.wordAt a.toNat) := by
  have hread : PhysicalMemory.readWord a m = .ok (m.wordAt a.toNat) m := by
    show PagedMemory.readWith 4 PagedMemory.wordAt a m = _
    rw [PagedMemory.readWith, PagedMemory.refusal_eq_none_iff.2 ⟨ha, hin⟩]
  rw [instructionAt, hread]

/-- A core that has not cached the instruction at its instruction pointer decodes the word that
memory has there, and changes nothing else before it carries the instruction out. -/
theorem executeNext_of_uncached {p : Platform} {set : InstructionSet}
    (hset : p.sets[n.core.activeSet]? = some set)
    (hnone : n.core.fetched.entries.peek? (n.core.codeAddress n.core.regs.ip) = none) :
    ∃ fetched, executeNext p n =
      match instructionAt set n.bus.memory (n.core.codeAddress n.core.regs.ip) with
      | .ok i => carryOut p set n.core.regs.ip i (n.mapCore fun c => { c with fetched })
      | .error fault => .error fault (n.mapCore fun c => { c with fetched }) := by
  obtain ⟨fetched, -, hrun⟩ := fetch_spec set (n.core.codeAddress n.core.regs.ip) n
  rw [hnone, Option.elim_none] at hrun
  refine ⟨fetched, ?_⟩
  rw [executeNext_of_some hset]
  rcases hi : instructionAt set n.bus.memory (n.core.codeAddress n.core.regs.ip) with fault | i
  · rw [hi] at hrun
    exact bind_of_error hrun
  · rw [hi] at hrun
    exact bind_of_ok hrun

/-- A data load of a word answers its value. -/
theorem loadFrom_word (h : n.bus.Coherent) (hi : n.bus.isRegistered n.core.id = true)
    (ha : a % 4 = 0) (hin : a.toNat + 4 ≤ n.bus.memory.size) :
    ∃ bus, loadFrom .word a n = .ok (n.bus.valueAt a .word) { n with bus } := by
  have hhalf : n.bus.memory.HasHalf a.halfword := by
    rw [Address.halfword_of_even (Bus.even_of_word ha).1]
    exact ⟨(Bus.even_of_word ha).1, by omega⟩
  obtain ⟨bus, hrun, -⟩ := (Bus.load_spec h hi .word a).accepted
    (Bus.refusal_eq_none_iff.2 ⟨ha, hhalf⟩)
  exact ⟨bus, (loadFrom_eq .word a n).trans (onBus_of_ok hrun)⟩

end Node

/-- An instruction cache without entries has no instruction. -/
theorem InstructionCache.peek?_of_size_eq_zero {cache : InstructionCache} (h : cache.size = 0)
    (a : Address) : cache.entries.peek? a = none := by
  rw [RecencyMap.peek?_eq_none_iff]
  refine Std.TreeMap.not_mem_of_isEmpty ?_
  rw [Std.TreeMap.isEmpty_eq_size_eq_zero]
  exact decide_eq_true h

namespace Machine

variable (p : Platform) (memory : PagedMemory) (cores instructionCapacity dataCapacity : Nat)
  (recording : Bool)

/-- In every state that a machine can reach, a running core whose instruction cache is empty
decodes the word that memory has at its instruction pointer, and a data load of that word answers
its value. The two are the same exactly if memory is up to date there. -/
theorem decoded_word_eq_loaded_word_iff (ops : List (Nat × Operation)) {i : Nat}
    {n : Node PagedMemory} {set : InstructionSet}
    (hn : (Operation.runOn
      (Machine.new p memory cores instructionCapacity dataCapacity recording) ops).node? i = some n)
    (hrunning : n.core.isRunnable = true) (hempty : n.core.fetched.size = 0)
    (hset : p.sets[n.core.activeSet]? = some set)
    (ha : n.core.codeAddress n.core.regs.ip % 4 = 0)
    (hin : (n.core.codeAddress n.core.regs.ip).toNat + 4 ≤ n.bus.memory.size) :
    let a := n.core.codeAddress n.core.regs.ip
    (∃ fetched, Node.executeNext p n =
      match set.decode (n.bus.memory.wordAt a.toNat) with
      | .ok j => Node.carryOut p set n.core.regs.ip j (n.mapCore fun c => { c with fetched })
      | .error fault => .error fault (n.mapCore fun c => { c with fetched })) ∧
    (∃ bus, Node.loadFrom .word a n = .ok (n.bus.valueAt a .word) { n with bus }) ∧
    (n.bus.memory.wordAt a.toNat = n.bus.valueAt a .word ↔
      n.bus.UpToDate a ∧ n.bus.UpToDate (a + 2)) := by
  intro a
  have hsound := ((sound_new p memory cores instructionCapacity dataCapacity recording).runOn
    ops).1.nodes hn
  have hregistered : n.bus.isRegistered n.core.id = true := by
    rw [hsound.registered, Core.isAlive, of_decide_eq_true hrunning]
    rfl
  refine ⟨?_, Node.loadFrom_word hsound.coherent hregistered ha hin,
    hsound.coherent.memory_eq_word_iff ha⟩
  have hstep := Node.executeNext_of_uncached hset (InstructionCache.peek?_of_size_eq_zero hempty a)
  rw [Node.instructionAt_of_inside set ha hin] at hstep
  exact hstep

/-- A core that just booted decodes what a data load answers, since no line is dirty. -/
theorem decoded_word_eq_loaded_word_after_boot :
    let memory := (PagedMemory.ofSize 256).setBytes 0 (bytesOfWords [0x80028, 0x1000a, 0x84b])
    let m := Operation.runOn (Machine.new {} memory 1 4 4 false) [(0, .boot ⟨0, 0, 0, 0, true⟩)]
    ∃ n, m.node? 0 = some n ∧
      (n.core.isRunnable = true ∧ n.core.fetched.size = 0 ∧
        n.core.codeAddress n.core.regs.ip = 0) ∧
      (n.bus.memory.wordAt 0 = n.bus.valueAt 0 .word ↔ n.bus.UpToDate 0 ∧ n.bus.UpToDate 2) := by
  intro memory m
  obtain ⟨n, hn, hrunning, hempty, ha, hset, hin⟩ := exists_node_of_any (m := m) (i := 0)
    (P := fun n => n.core.isRunnable = true ∧ n.core.fetched.size = 0 ∧
      n.core.codeAddress n.core.regs.ip = 0 ∧
      InstructionSets.standard[n.core.activeSet]? = some .base ∧ 4 ≤ n.bus.memory.size)
    (by decide +kernel)
  have h := decoded_word_eq_loaded_word_iff {} memory 1 4 4 false _ hn hrunning hempty hset
    (by rw [ha]; rfl) (by rw [ha]; exact hin)
  rw [ha] at h
  exact ⟨n, hn, ⟨hrunning, hempty, ha⟩, h.2.2⟩

/-- A core stores to the next instruction but one and then selects its instruction set again, which
clears the instruction cache. A data load answers the word that was stored, that of a `nop`, and
the core still executes the old instruction. -/
theorem decoded_word_stale_after_select :
    let memory := (PagedMemory.ofSize 256).setBytes 0 (bytesOfWords [0x80028, 0x1000a, 0x84b])
    let m := Operation.runOn (Machine.new {} memory 1 4 4 false)
      [(0, .boot ⟨0, 0, 0, 0, true⟩), (0, .step), (0, .step)]
    InstructionSet.base.decode 0 = .ok .nop ∧
      ∃ n, m.node? 0 = some n ∧ n.core.isRunnable = true ∧ n.core.fetched.size = 0 ∧
        n.core.codeAddress n.core.regs.ip = 8 ∧ n.bus.memory.size = 256 ∧
        n.bus.valueAt 8 .word = 0 ∧ (Node.step {} n).2.core.regs.read (.general 1) = 1 :=
  ⟨rfl, exists_node_of_any (by decide +kernel)⟩

end Machine

end Multicore
