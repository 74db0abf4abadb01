import Multicore.Proofs.Coherence.Refusals
import Multicore.Proofs.Machine.BusUse
import Multicore.Proofs.Machine.Reachability

/-!
# When a core's access fails

Whatever a core does, what it does on its bus is what can happen on a bus: the bus of a machine that
can be reached is a bus that can be reached (`Machine.Reachable.bus`). So in every state that a
machine can reach, each core's loads and stores fail because of their address only.
-/

namespace Multicore

namespace PagedMemory

/-- No operation on pages changes the size of memory. -/
theorem preserves_allocatePage (segment : Option UInt32) :
    Preserves pageCount (PhysicalMemory.allocatePage segment) := by
  intro m
  rcases m.allocatePage_cases segment with ⟨p, m', hrun, -, hhanded⟩ | ⟨hrun, -⟩
  · rw [finalState_of_ok hrun, hhanded.pageCount]
  · rw [finalState_of_error hrun]

/-- A release leaves the number of pages. -/
theorem preserves_freePage (page : UInt32) :
    Preserves pageCount (PhysicalMemory.freePage page) := by
  intro m
  rcases m.freePage_cases page with ⟨-, m', hrun, hgiven⟩ | ⟨-, e, hrun⟩
  · rw [finalState_of_ok hrun, hgiven.pageCount]
  · rw [finalState_of_error hrun]

end PagedMemory

namespace Node

variable {n : Node PagedMemory}

/-- From a bus that can be reached the core comes to one. -/
def StaysReached (n n' : Node PagedMemory) : Prop := n.bus.Reached → n'.bus.Reached

/-- Memory may change as long as it keeps its size. -/
theorem staysReached_onMemory {α : Type} {x : EStateM MemoryError PagedMemory α}
    (hx : Preserves PagedMemory.pageCount x) :
    Within (fun bus bus' : Bus PagedMemory => bus.Reached → bus'.Reached) (Bus.onMemory x) := by
  intro bus h
  rw [Bus.finalState_onMemory]
  exact h.memory (hx bus.memory)

/-- What a core does on a bus can happen there. -/
theorem allowsCore_reached (i : Nat) :
    Bus.AllowsCore i fun bus bus' : Bus PagedMemory => bus.Reached → bus'.Reached where
  refl _ h := h
  trans h h' hr := h' (h hr)
  readWord a := staysReached_onMemory ((PagedMemory.reads_readWord a).preserves _)
  loadVector table index :=
    staysReached_onMemory ((PagedMemory.reads_loadVector table index).preserves _)
  allocatePage segment := staysReached_onMemory (PagedMemory.preserves_allocatePage segment)
  describePage page := staysReached_onMemory ((PagedMemory.reads_describePage page).preserves _)
  freePage page := staysReached_onMemory (PagedMemory.preserves_freePage page)
  load width a _ h := h.load width i a
  storeAt width a v _ h := h.store width i a v
  release selector writeback remove _ h := h.release i selector writeback remove
  discard _ selector h := h.broadcast none selector false true
  register _ h := h.register i i
  unregister _ h := h.unregister i

/-- A core that does on its bus what obeys a refusal fails for it, and keeps all that it has. -/
theorem onBus_error_iff_of_obeys {α : Type} {x : EStateM Fault (Bus PagedMemory) α}
    {r : Option Fault} (hx : Bus.Obeys n.core.id x n.bus r) :
    (∀ fault, (∃ n', onBus x n = .error fault n') ↔ r = some fault) ∧
      ∀ fault n', onBus x n = .error fault n' → n'.core = n.core ∧ n.bus.Same n.core.id n'.bus := by
  refine ⟨fun fault => ?_, fun fault n' hrun => ?_⟩
  · rw [← hx.error_iff]
    constructor
    · rintro ⟨n', hrun⟩
      obtain ⟨bus, hbus, -⟩ := onBus_error_iff.1 hrun
      exact ⟨bus, hbus⟩
    · rintro ⟨bus, hbus⟩
      exact ⟨_, onBus_of_error hbus⟩
  · obtain ⟨bus, hbus, rfl⟩ := onBus_error_iff.1 hrun
    exact ⟨rfl, hx.same_of_error hbus⟩

end Node

/-- Whatever is done with a core, it comes to a bus that can be reached. -/
theorem Operation.staysReached_perform (p : Platform) (n : Node PagedMemory) (op : Operation) :
    n.StaysReached (op.perform p n) :=
  (op.staysWithin_perform Node.allowsCore_reached p n).2

namespace Machine

/-- The bus of a machine that can be reached is a bus that can be reached. -/
theorem Reachable.bus {p : Platform} {m : Machine PagedMemory} (h : Reachable p m) :
    m.bus.Reached := by
  induction h with
  | new memory cores instructionCapacity dataCapacity recording =>
    exact .start fun _ a => Bus.line?_empty dataCapacity a
  | @operation m h i op ih =>
    unfold Operation.onMachine
    rcases hn : m.node? i with _ | n
    · exact ih
    · refine op.staysReached_perform m.platform n ?_
      rw [congrArg Shared.bus (node?_eq_some_iff.1 hn).2]
      exact ih
  | flush _ _ _ ih => exact ih.release _ .all true false

/-- In every state that a machine can reach, what a core does to memory through its data cache
fails exactly if the address is faulty, and then nothing of the core has changed, nor of the memory
and of any data cache. -/
theorem Reachable.access_error_iff {p : Platform} {m : Machine PagedMemory} {i : Nat}
    {n n' : Node PagedMemory} (h : Reachable p m) (hn : m.node? i = some n) (width : Width)
    (a : Address) (v : UInt32) (fault : Fault) :
    ((∃ n', Node.loadFrom width a n = .error fault n') ↔
      Bus.FaultyAt n.bus.memory a width fault) ∧
    ((∃ n', Node.storeTo width a v n = .error fault n') ↔
      Bus.FaultyAt n.bus.memory a width fault) ∧
    (Node.loadFrom width a n = .error fault n' ∨ Node.storeTo width a v n = .error fault n' →
      n'.core = n.core ∧ n.bus.Same n.core.id n'.bus) := by
  have hinside : n.bus.Inside := by
    rw [congrArg Shared.bus (node?_eq_some_iff.1 hn).2]
    exact h.bus.inside
  obtain ⟨hload, hsame⟩ := Node.onBus_error_iff_of_obeys (hinside.load width n.core.id a)
  obtain ⟨hstore, hsame'⟩ := Node.onBus_error_iff_of_obeys (hinside.storeAt width n.core.id a v)
  rw [Node.loadFrom_eq, Node.storeTo_eq]
  exact ⟨(hload fault).trans Bus.refusal_eq_some_iff, (hstore fault).trans Bus.refusal_eq_some_iff,
    fun hrun => hrun.elim (hsame fault n') (hsame' fault n')⟩

end Machine

end Multicore
