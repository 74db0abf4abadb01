import Multicore.Proofs.Machine.CachedCode
import Multicore.Proofs.Machine.Lifecycle

/-!
# Machines that can be reached

A machine is `Reachable` if it was built, and brought where it is by operations on its cores and by
flushes of their data caches. What is known of every such machine is `Regular`
(`Machine.Reachable.regular`). If no alive core of it has a dirty line, it is `Flushed`, and then no
cache that takes part in the bus has one (`Machine.Regular.noDirty`).
-/

namespace Multicore

open Node

/-! ## Cores -/

/-- The active set of a core is there, and before the core starts it has no frame and no active
interrupt. -/
structure Core.Orderly (p : Platform) (c : Core) : Prop where
  set : c.SetInstalled p
  fresh : c.state = .reset → c.frames = [] ∧ c.interruptStacks = []

/-- Whatever is done with a core, it stays orderly. -/
theorem Operation.orderly_perform {p : Platform} {n : Node PagedMemory} (h : n.core.Orderly p)
    (hs : n.Sound) (op : Operation) : (op.perform p n).core.Orderly p := by
  refine ⟨op.setInstalled_perform h.set, fun hreset => ?_⟩
  have hsame := perform_of_reset hs p hreset
  rw [hsame] at hreset ⊢
  exact h.fresh hreset

/-! ## Machines -/

namespace Machine

/-- The machine after the dirty lines of a data cache were written back. -/
def flush (m : Machine PagedMemory) (i : Nat) : Machine PagedMemory :=
  { m with bus := finalState (Bus.flush i) m.bus }

/-- A machine that was built on a platform, after operations on its cores and flushes of the data
caches of alive ones. -/
inductive Reachable (p : Platform) : Machine PagedMemory → Prop
  | new (memory : PagedMemory) (cores instructionCapacity dataCapacity : Nat) (recording : Bool) :
    Reachable p (Machine.new p memory cores instructionCapacity dataCapacity recording)
  | operation {m : Machine PagedMemory} (h : Reachable p m) (i : Nat) (op : Operation) :
    Reachable p (op.onMachine m i)
  | flush {m : Machine PagedMemory} (h : Reachable p m) {i : Nat} {c : Core}
    (hc : m.cores[i]? = some c) (ha : c.isAlive = true) : Reachable p (m.flush i)

/-- A run of operations leads from reachable machines to reachable ones. -/
theorem Reachable.runOn {p : Platform} {m : Machine PagedMemory} (h : Reachable p m)
    (ops : List (Nat × Operation)) : Reachable p (Operation.runOn m ops) := by
  induction ops generalizing m with
  | nil => exact h
  | cons op rest ih => exact ih (h.operation op.1 op.2)

/-- What is known of every machine that can be reached. -/
structure Regular (p : Platform) (m : Machine PagedMemory) : Prop where
  platform : m.platform = p
  sound : m.Sound
  settled : m.Settled
  orderly : ∀ c ∈ m.cores, c.Orderly p

variable {p : Platform} {m : Machine PagedMemory} {i : Nat} {n n' : Node PagedMemory}

/-- The core of a node is one of the machine. -/
theorem mem_cores_of_node? (hn : m.node? i = some n) : n.core ∈ m.cores :=
  List.mem_of_getElem? (node?_eq_some_iff.1 hn).1

/-- What keeps one core regular and spares the others keeps the machine regular. -/
theorem Regular.setNode (h : m.Regular p) (hn : m.node? i = some n)
    (hs : n.Spares n') (hsound : n'.Sound) (hsettled : n'.Settled) (horderly : n'.core.Orderly p) :
    (m.setNode i n').Regular p := by
  refine ⟨h.platform, h.sound.setNode hn hs hsound, h.settled.setNode h.sound hn hs hsettled,
    fun c hc => ?_⟩
  rcases List.mem_or_eq_of_mem_set hc with hc | rfl
  · exact h.orderly c hc
  · exact horderly

/-- An operation on a core leaves a regular machine regular. -/
theorem Regular.operation (h : m.Regular p) (i : Nat) (op : Operation) :
    (op.onMachine m i).Regular p := by
  rcases hn : m.node? i with _ | n
  · rw [Operation.onMachine, hn]
    exact h
  · have hnode := h.sound.nodes hn
    obtain ⟨hs, hsound⟩ := Operation.perform_sound hnode m.platform op
    rw [onMachine_of_some hn]
    refine h.setNode hn hs hsound ((h.settled.nodes hn).perform hnode m.platform op) ?_
    rw [h.platform]
    exact op.orderly_perform (h.orderly _ (mem_cores_of_node? hn)) hnode

/-- A flush is something that happens on a core. -/
theorem Regular.flush (h : m.Regular p) (hn : m.node? i = some n) (ha : n.core.isAlive = true) :
    (m.flush i).Regular p := by
  have hnode := h.sound.nodes hn
  obtain ⟨hc, hshared⟩ := node?_eq_some_iff.1 hn
  have hs := Core.ne_halted_of_isAlive ha
  have hw := hnode.flush hs
  have hgoes := hnode.goes_of_keeps ha hw.steady.toKeeps hw.coherent
  have hflush : m.flush i =
      m.setNode i { n with bus := finalState (Bus.flush n.core.id) n.bus } := by
    have hcores : m.cores.set i n.core = m.cores := by
      obtain ⟨hi, hget⟩ := List.getElem?_eq_some_iff.1 hc
      rw [← hget, List.set_getElem_self]
    rw [Machine.flush, Machine.setNode, hcores, h.sound.ids hc, hshared]
  have horderly := h.orderly _ (mem_cores_of_node? hn)
  rw [hflush]
  exact h.setNode hn hgoes.spares hgoes.sound
    ((h.settled.nodes hn).of_sameEnd hs hs ⟨rfl, rfl⟩) horderly

/-- Every reachable machine is regular, by induction on how it is reached. -/
theorem Reachable.regular (h : Reachable p m) : m.Regular p := by
  induction h with
  | new memory cores instructionCapacity dataCapacity recording =>
    refine ⟨rfl, sound_new .., settled_new .., fun c hc => ?_⟩
    obtain ⟨i, hi⟩ := List.getElem?_of_mem hc
    rw [getElem?_cores_new p memory cores instructionCapacity dataCapacity recording hi]
    exact ⟨.inl rfl, fun _ => ⟨rfl, rfl⟩⟩
  | operation _ i op ih => exact ih.operation i op
  | flush _ hc ha ih =>
    obtain ⟨n, hn, rfl⟩ := exists_node_of_core hc
    exact ih.flush hn ha

/-! ## Flushed machines -/

/-- No alive core has a dirty line in its data cache. -/
def Flushed (m : Machine PagedMemory) : Prop :=
  ∀ c ∈ m.cores, c.isAlive = true →
    ∀ a l, (m.bus.store c.id).line? a = some l → l.dirty = false

/-- A machine that was just built has no alive core. -/
theorem flushed_new (p : Platform) (memory : PagedMemory)
    (cores instructionCapacity dataCapacity : Nat) (recording : Bool) :
    (Machine.new p memory cores instructionCapacity dataCapacity recording).Flushed := by
  intro c hc ha
  obtain ⟨i, hi⟩ := List.getElem?_of_mem hc
  rw [getElem?_cores_new p memory cores instructionCapacity dataCapacity recording hi] at ha
  cases ha

/-- If no alive core has a dirty line, no cache that takes part has one. -/
theorem Regular.noDirty (h : m.Regular p) (hf : m.Flushed) (a : Address) :
    (m.bus.copies a).NoDirty := by
  intro i l hl
  obtain ⟨hi, hline⟩ := Bus.cached_eq_some_iff.1 hl
  have hc := List.getElem?_eq_getElem (h.settled.registered hi)
  obtain ⟨n, hn, hcore⟩ := exists_node_of_core hc
  have hid : n.core.id = i := by rw [hcore, h.sound.ids hc]
  have hregistered := (h.sound.nodes hn).registered
  rw [congrArg Shared.bus (node?_eq_some_iff.1 hn).2, hid, hi] at hregistered
  exact hf n.core (mem_cores_of_node? hn) hregistered.symm a l (by rwa [hid])

/-- Once it is flushed, the only alive core has no dirty line. -/
theorem Regular.flushed_flush (h : m.Regular p)
    (halone : ∀ c ∈ m.cores, c.isAlive = true → c.id = i) : (m.flush i).Flushed := by
  intro c hc ha a l hl
  obtain ⟨j, hj⟩ := List.getElem?_of_mem hc
  obtain ⟨n, hn, rfl⟩ := exists_node_of_core (m := m) hj
  have hid := halone n.core hc ha
  refine (h.sound.nodes hn).clean_flush (Core.ne_halted_of_isAlive ha) (a := a) ?_
  rw [congrArg Shared.bus (node?_eq_some_iff.1 hn).2]
  nth_rewrite 1 [hid]
  exact hl

end Machine

end Multicore
