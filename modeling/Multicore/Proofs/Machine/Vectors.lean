import Multicore.Proofs.Core.Vectors
import Multicore.Proofs.Machine.CodeStores
import Multicore.Proofs.Machine.Reachability

/-!
# Vectors that code stores

A core looks its interrupt vectors up in memory, past the data caches. Code that installs a vector
stores it through a data cache, and memory has it only once the lines are written back. So a handler
that is entered is always that of the record in memory, and a data load of the record answers the
values that were stored last. The two are the same exactly if no data cache has a dirty line of the
record that differs from memory (`Machine.handler_of_vector_in_memory`). A core that has just stored
a vector itself may enter the old handler (`Machine.stored_vector_missed`).
-/

namespace Multicore

open Node

/-! ## Records on a bus -/

namespace Bus

variable {bus : Bus PagedMemory} {a : Address}

/-- The record at an address by the values of its parts. -/
def vectorAt (bus : Bus PagedMemory) (a : Address) : InterruptVector where
  cs := bus.halfAt a
  ds := bus.halfAt (a + 2)
  ip := bus.valueAt (a + 4) .word
  sp := bus.valueAt (a + 8) .word

/-- Load the record at an address through data cache `i`. -/
def loadVector {β : Type} [PhysicalMemory β] (i : Nat) (a : Address) :
    EStateM Fault (Bus β) InterruptVector := do
  let cs ← readHalf i a
  let ds ← readHalf i (a + 2)
  let ip ← readWord i (a + 4)
  let sp ← readWord i (a + 8)
  return { cs, ds, ip, sp }

/-- Among reads and write-backs a halfword is read as its value. -/
theorem Written.readHalf {bus' : Bus PagedMemory} {i : Nat} (h : bus.Written i .none bus')
    (hi : bus.isRegistered i = true) (ha : bus.memory.refusal a 2 = none) :
    ∃ bus'', Bus.readHalf i a bus' = .ok (bus.halfAt a) bus'' ∧ bus.Written i .none bus'' := by
  have hr : bus'.refusal a .half = none :=
    (refusal_congr h.steady.pageCount a .half).trans (refusal_eq_none_iff_memory.2 ha)
  obtain ⟨bus'', hrun, hw⟩ :=
    (readHalf_spec h.coherent ((h.isRegistered i).trans hi) a).accepted hr
  rw [h.halfAt (PagedMemory.refusal_eq_none_iff.1 ha).1] at hrun
  exact ⟨bus'', hrun, h.none_trans hw⟩

/-- Among reads and write-backs a word is read as its value. -/
theorem Written.readWord {bus' : Bus PagedMemory} {i : Nat} (h : bus.Written i .none bus')
    (hi : bus.isRegistered i = true) (ha : bus.memory.refusal a 4 = none) :
    ∃ bus'', Bus.readWord i a bus' = .ok (bus.valueAt a .word) bus'' ∧
      bus.Written i .none bus'' := by
  have hr : bus'.refusal a .word = none :=
    (refusal_congr h.steady.pageCount a .word).trans (refusal_eq_none_iff_memory.2 ha)
  obtain ⟨bus'', hrun, hw⟩ :=
    (readWord_spec h.coherent ((h.isRegistered i).trans hi) a).accepted hr
  have hvalue : wordOfHalves (bus'.halfAt a) (bus'.halfAt (a + 2)) = bus.valueAt a .word :=
    h.word (PagedMemory.refusal_eq_none_iff.1 ha).1
  rw [hvalue] at hrun
  exact ⟨bus'', hrun, h.none_trans hw⟩

/-- A data load of a record answers the values of its parts. -/
theorem loadVector_of_hasVector (h : bus.Coherent) {i : Nat} (hi : bus.isRegistered i = true)
    (ha : bus.memory.HasVector a) :
    ∃ bus', loadVector i a bus = .ok (bus.vectorAt a) bus' ∧ bus.Written i .none bus' := by
  obtain ⟨hcs, hds, hip, hsp⟩ := PagedMemory.hasVector_iff_refusals.1 ha
  obtain ⟨bus₁, hrun₁, h₁⟩ := (h.written_refl i).readHalf hi hcs
  obtain ⟨bus₂, hrun₂, h₂⟩ := h₁.readHalf hi hds
  obtain ⟨bus₃, hrun₃, h₃⟩ := h₂.readWord hi hip
  obtain ⟨bus₄, hrun₄, h₄⟩ := h₃.readWord hi hsp
  refine ⟨bus₄, ?_, h₄⟩
  refine (bind_of_ok hrun₁).trans ((bind_of_ok hrun₂).trans ?_)
  exact (bind_of_ok hrun₃).trans (bind_of_ok hrun₄)

/-- Memory has the values of a record exactly if it is up to date at all halfwords of it. -/
theorem Coherent.memory_eq_vectorAt_iff (h : bus.Coherent) (ha : bus.memory.HasVector a) :
    bus.memory.vectorAt a = bus.vectorAt a ↔
      ∀ d ∈ [0, 2, 4, 6, 8, 10], bus.UpToDate (a + d) := by
  obtain ⟨-, -, hip, hsp⟩ := PagedMemory.hasVector_iff_refusals.1 ha
  have hsix : a + 4 + 2 = a + 6 := UInt32.add_assoc ..
  have hten : a + 8 + 2 = a + 10 := UInt32.add_assoc ..
  rw [PagedMemory.vectorAt, vectorAt, InterruptVector.mk.injEq, h.memory_eq_halfAt_iff,
    h.memory_eq_halfAt_iff, h.memory_eq_word_iff (PagedMemory.refusal_eq_none_iff.1 hip).1,
    h.memory_eq_word_iff (PagedMemory.refusal_eq_none_iff.1 hsp).1, hsix, hten]
  simp only [List.forall_mem_cons, UInt32.add_zero, List.not_mem_nil, false_implies, implies_true,
    and_true, and_assoc]

end Bus

namespace Machine

variable {p : Platform} {m : Machine PagedMemory} {i : Nat} {n : Node PagedMemory}

/-- In every state that a machine can reach, whenever a core enters the handler of an interrupt, be
it a software interrupt that no service takes or any operation that raises the interrupt, it enters
that of the record that memory has. A data load of this record, through whichever data cache,
answers the values that were stored last. The two are the same exactly if memory is up to date at
all halfwords of the record. -/
theorem handler_of_vector_in_memory (h : Reachable p m) (hn : m.node? i = some n) {index : UInt32}
    (hhas : n.bus.memory.HasVector (PhysicalMemory.vectorAddress p.vectorTable index)) :
    let a := PhysicalMemory.vectorAddress p.vectorTable index
    (p.services[index]? = none → ∀ n', softwareInterrupt p index n = .ok () n' →
      Starts (n.bus.memory.vectorAt a) n'.core) ∧
    (∀ op n', Raises p n op index → (op.onMachine m i).node? i = some n' →
      n'.core.state ≠ .halted → n.core.interruptDepth < n'.core.interruptDepth →
      Starts (n.bus.memory.vectorAt a) n'.core) ∧
    (∀ j, n.bus.isRegistered j = true →
      ∃ bus, Bus.loadVector j a n.bus = .ok (n.bus.vectorAt a) bus) ∧
    (n.bus.memory.vectorAt a = n.bus.vectorAt a ↔
      ∀ d ∈ [0, 2, 4, 6, 8, 10], n.bus.UpToDate (a + d)) := by
  intro a
  have hregular := h.regular
  have hcoherent := (hregular.sound.nodes hn).coherent
  refine ⟨fun hnone n' hrun => ?_, fun op n' hraises hn' halive hdeeper => ?_,
    fun j hj => ?_, hcoherent.memory_eq_vectorAt_iff hhas⟩
  · rw [softwareInterrupt, hnone] at hrun
    exact (starts_of_enterHandler hrun).2
  · have hturn := hraises.isTurn
    rw [node?_onMachine_self hn op, Option.some.injEq, hregular.platform] at hn'
    subst hn'
    obtain ⟨index', n₁, n₂, hraises', poised, hrun, -, cnt, hcore⟩ :=
      (Operation.turn hturn p n).enters_of_deeper halive hdeeper
    cases hraises.unique hraises'
    obtain ⟨hcs, hip, hds, hsp⟩ := (starts_of_enterHandler hrun).2
    rw [poised.bus] at hcs hip hds hsp
    rw [hcore]
    exact ⟨hcs, hip, hds, hsp⟩
  · obtain ⟨bus, hload, -⟩ := Bus.loadVector_of_hasVector hcoherent hj hhas
    exact ⟨bus, hload⟩

/-- A core that has just booted gets an interrupt and enters the handler of the record in memory,
which is what a data load of the record answers. -/
theorem handler_of_vector_in_memory_after_boot :
    let memory := (PagedMemory.ofSize 512).setBytes 0 (bytesOfWords [0, 64, 512])
    let m := Operation.runOn (Machine.new {} memory 1 4 128 false)
      [(0, .boot ⟨0, 0, 256, 32, true⟩)]
    ∃ n n', m.node? 0 = some n ∧ n.bus.memory.HasVector 0 ∧
      ((Operation.interrupt 0).onMachine m 0).node? 0 = some n' ∧
      n.core.interruptDepth < n'.core.interruptDepth ∧ Starts ⟨0, 0, 64, 512⟩ n'.core ∧
      ∃ bus, Bus.loadVector 0 0 n.bus = .ok ⟨0, 0, 64, 512⟩ bus := by
  intro memory m
  obtain ⟨n, hn, hhas, hvector, hvalue, hregistered, halive, hdeeper⟩ :=
    exists_node_of_any (m := m) (i := 0)
      (P := fun n => n.bus.memory.HasVector 0 ∧ n.bus.memory.vectorAt 0 = ⟨0, 0, 64, 512⟩ ∧
        n.bus.vectorAt 0 = ⟨0, 0, 64, 512⟩ ∧ n.bus.isRegistered 0 = true ∧
        (interrupt {} 0 n).2.core.state ≠ .halted ∧
        n.core.interruptDepth < (interrupt {} 0 n).2.core.interruptDepth) (by decide +kernel)
  have hreachable : Reachable {} m := (Reachable.new memory 1 4 128 false).runOn _
  have hn' : ((Operation.interrupt 0).onMachine m 0).node? 0 = some (interrupt {} 0 n).2 :=
    node?_onMachine_self hn _
  obtain ⟨-, henters, hload, -⟩ := handler_of_vector_in_memory hreachable hn
    (show n.bus.memory.HasVector (PhysicalMemory.vectorAddress ({} : Platform).vectorTable 0)
      from hhas)
  have hstarts := henters _ _ (.hardware 0) hn' halive hdeeper
  have hloaded := hload 0 hregistered
  have hzero : PhysicalMemory.vectorAddress ({} : Platform).vectorTable 0 = 0 := rfl
  rw [hzero, hvector] at hstarts
  rw [hzero, hvalue] at hloaded
  exact ⟨n, _, hn, hhas, hn', hdeeper, hstarts, hloaded⟩

/-- A core that clears the entry point of the vector of an interrupt and then gets the interrupt
enters the old handler. A data load of the record answers the vector that was stored. -/
theorem stored_vector_missed :
    let memory := (PagedMemory.ofSize 512).setBytes 0
      (bytesOfWords [0, 64, 512, 0, 0, 0, 0, 0, 0x40028])
    let m := Operation.runOn (Machine.new {} memory 1 4 128 false)
      [(0, .boot ⟨0, 0, 256, 32, true⟩), (0, .step)]
    ∃ n, m.node? 0 = some n ∧ n.bus.memory.HasVector 0 ∧ n.bus.vectorAt 0 = ⟨0, 0, 0, 512⟩ ∧
      (interrupt {} 0 n).1 = true ∧ (interrupt {} 0 n).2.core.state = .running ∧
      (interrupt {} 0 n).2.core.interruptDepth = 1 ∧
      (interrupt {} 0 n).2.core.regs.ip = 64 :=
  exists_node_of_any (by decide +kernel)

end Machine

end Multicore
