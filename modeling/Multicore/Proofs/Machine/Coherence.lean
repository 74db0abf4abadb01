import Multicore.Machine
import Multicore.Proofs.Core.Sound

/-!
# Coherence of a machine

An `Operation` is what may be done with one core of a machine: it is booted, restored, stepped,
interrupted, suspended, woken or halted, or dies. A machine is `Sound` if the nodes of all its
cores are. Every operation on any core keeps the machine sound, so the data caches of a machine
stay coherent with memory in every state that it can reach (`coherent_of_operations`).
-/

namespace Multicore

/-- What may be done with a core. -/
inductive Operation where
  | boot (init : BootState)
  | restore (s : Snapshot)
  | step
  | interrupt (index : UInt32)
  | suspend
  | wake
  | halt (code : UInt32)
  | die (fault : Fault)

namespace Operation

variable {β : Type} [PhysicalMemory β]

/-- The node of a core after an operation. An operation that is refused leaves it as it is. -/
def perform (p : Platform) (n : Node β) : Operation → Node β
  | .boot init => finalState (Node.boot init) n
  | .restore s => finalState (Node.restore p s) n
  | .step => (Node.step p n).2
  | .interrupt index => (Node.interrupt p index n).2
  | .suspend => n.suspend
  | .wake => n.wake
  | .halt code => n.halt code
  | .die fault => n.die fault

/-- The machine after an operation on the core with a number, if there is one. -/
def onMachine (m : Machine β) (i : Nat) (op : Operation) : Machine β :=
  match m.node? i with
  | none => m
  | some n => m.setNode i (op.perform m.platform n)

/-- The machine after a list of operations, each on the core with the number beside it. -/
def runOn (m : Machine β) (ops : List (Nat × Operation)) : Machine β :=
  ops.foldl (fun m op => op.2.onMachine m op.1) m

/-- An operation on a core leaves its node sound and spares the others. -/
theorem perform_sound {n : Node PagedMemory} (h : n.Sound) (p : Platform) (op : Operation) :
    n.Spares (op.perform p n) ∧ (op.perform p n).Sound := by
  cases op with
  | boot init => exact h.boot init
  | restore s => exact h.restore p s
  | step => exact h.step p
  | interrupt index => exact h.interrupt p index
  | suspend => exact h.suspend
  | wake => exact h.wake
  | halt code => exact h.halt code
  | die fault => exact h.die fault

end Operation

namespace Machine

/-- The number of each core is its place, the node of each core is sound, and each data cache
has the capacity of the machine. -/
structure Sound (m : Machine PagedMemory) : Prop where
  ids : ∀ {i : Nat} {core : Core}, m.cores[i]? = some core → core.id = i
  nodes : ∀ {i n}, m.node? i = some n → n.Sound
  coherent : m.bus.Coherent
  capacities : ∀ j, (m.bus.store j).lines.capacity = max 1 m.bus.capacity

variable {m : Machine PagedMemory} {i : Nat} {n n' : Node PagedMemory}

/-- The node of a core is made of the core and what the machine shares. -/
theorem node?_eq_some_iff {β : Type} {m : Machine β} {i : Nat} {n : Node β} :
    m.node? i = some n ↔ m.cores[i]? = some n.core ∧ n.toShared = m.toShared := by
  unfold node?
  constructor
  · intro h
    obtain ⟨core, hc, rfl⟩ := Option.map_eq_some_iff.1 h
    exact ⟨hc, rfl⟩
  · rintro ⟨hc, hs⟩
    rw [hc, Option.map_some, ← hs]

/-- A core has a node with a property that is found by checking. -/
theorem exists_node_of_any {β : Type} {m : Machine β} {i : Nat} {P : Node β → Prop}
    [DecidablePred P] (h : (m.node? i).any (fun n => decide (P n)) = true) :
    ∃ n, m.node? i = some n ∧ P n := by
  rcases hn : m.node? i with _ | n
  · rw [hn] at h
    cases h
  · rw [hn] at h
    exact ⟨n, rfl, of_decide_eq_true h⟩

/-- The cores of a new machine are numbered and have never started. -/
theorem getElem?_cores_new {β : Type} (p : Platform) (memory : β)
    (cores instructionCapacity dataCapacity : Nat) (recording : Bool) {i : Nat} {core : Core}
    (h : (Machine.new p memory cores instructionCapacity dataCapacity recording).cores[i]? =
      some core) : core = Core.new i instructionCapacity := by
  have hmap : ((List.range cores).map fun i => Core.new i instructionCapacity)[i]? = some core := h
  rw [List.getElem?_map, Option.map_eq_some_iff] at hmap
  obtain ⟨k, hk, rfl⟩ := hmap
  obtain ⟨_, rfl⟩ := List.getElem?_eq_some_iff.1 hk
  rw [List.getElem_range]

section
variable (p : Platform) (memory : PagedMemory) (cores instructionCapacity dataCapacity : Nat)
  (recording : Bool)

/-- A machine that was just built is sound. -/
theorem sound_new :
    (Machine.new p memory cores instructionCapacity dataCapacity recording).Sound := by
  have hempty : ∀ j a, ((Machine.new p memory cores instructionCapacity dataCapacity
      recording).bus.store j).line? a = none := fun j a => Bus.line?_empty dataCapacity a
  have hcoherent : (Machine.new p memory cores instructionCapacity dataCapacity
      recording).bus.Coherent := Bus.coherent_of_empty (by simp [Machine.new]) hempty
  have hids : ∀ {i : Nat} {core : Core}, (Machine.new p memory cores instructionCapacity
      dataCapacity recording).cores[i]? = some core → core.id = i := fun hc => by
    rw [getElem?_cores_new p memory cores instructionCapacity dataCapacity recording hc]
    rfl
  refine ⟨hids, fun {i n} hn => ?_, hcoherent, fun j => rfl⟩
  obtain ⟨hc, hs⟩ := node?_eq_some_iff.1 hn
  have hbus : n.bus = (Machine.new p memory cores instructionCapacity dataCapacity
      recording).bus := congrArg Shared.bus hs
  refine ⟨by rw [hbus]; exact hcoherent, ?_, fun _ a => by rw [hbus]; exact hempty _ a⟩
  rw [hbus, getElem?_cores_new p memory cores instructionCapacity dataCapacity recording hc]
  rfl

end

/-- The node of another core after something happened on a core. -/
theorem node?_setNode_of_ne {β : Type} {m : Machine β} {i : Nat} {n' : Node β} {j : Nat}
    (hj : j ≠ i) :
    (m.setNode i n').node? j = (m.node? j).map fun n => { n'.toShared with core := n.core } := by
  have hcores : (m.setNode i n').cores[j]? = m.cores[j]? := List.getElem?_set_ne (Ne.symm hj)
  rw [node?, node?, hcores, Option.map_map]
  rfl

/-- The node of a core after something happened on it. -/
theorem node?_setNode_self {β : Type} {m : Machine β} {i : Nat} {n n' : Node β}
    (hn : m.node? i = some n) : (m.setNode i n').node? i = some n' := by
  obtain ⟨hc, -⟩ := node?_eq_some_iff.1 hn
  obtain ⟨hi, -⟩ := List.getElem?_eq_some_iff.1 hc
  exact node?_eq_some_iff.2 ⟨List.getElem?_set_self hi, rfl⟩

/-- An operation on a core is performed on its node. -/
theorem node?_onMachine_self (hn : m.node? i = some n) (op : Operation) :
    (op.onMachine m i).node? i = some (op.perform m.platform n) := by
  unfold Operation.onMachine
  rw [hn]
  exact node?_setNode_self hn

/-- An operation on another core leaves a core alone. -/
theorem node?_onMachine_of_ne {j : Nat} (hj : j ≠ i) (hn : m.node? i = some n) (op : Operation) :
    ∃ n', (op.onMachine m j).node? i = some n' ∧ n'.core = n.core := by
  unfold Operation.onMachine
  rcases m.node? j with _ | k
  · exact ⟨n, hn, rfl⟩
  · refine ⟨{ (op.perform m.platform k).toShared with core := n.core }, ?_, rfl⟩
    dsimp only
    rw [node?_setNode_of_ne hj.symm, hn]
    rfl

/-- An operation leaves the platform. -/
theorem platform_onMachine (m : Machine PagedMemory) (j : Nat) (op : Operation) :
    (op.onMachine m j).platform = m.platform := by
  unfold Operation.onMachine
  split <;> rfl

/-- A run leaves the platform. -/
theorem platform_runOn (m : Machine PagedMemory) (ops : List (Nat × Operation)) :
    (Operation.runOn m ops).platform = m.platform := by
  induction ops generalizing m with
  | nil => rfl
  | cons op rest ih => exact (ih _).trans (platform_onMachine m op.1 op.2)

/-- A run may be split anywhere. -/
theorem runOn_append {β : Type} [PhysicalMemory β] (m : Machine β)
    (ops ops' : List (Nat × Operation)) :
    Operation.runOn m (ops ++ ops') = Operation.runOn (Operation.runOn m ops) ops' :=
  List.foldl_append

/-- An operation that keeps the node of a core sound and spares the others keeps the machine
sound. -/
theorem Sound.setNode (h : m.Sound) (hn : m.node? i = some n) (hs : n.Spares n')
    (hn' : n'.Sound) : (m.setNode i n').Sound := by
  obtain ⟨hc, hshared⟩ := node?_eq_some_iff.1 hn
  have hbus : n.bus = m.bus := congrArg Shared.bus hshared
  have hid : n.core.id = i := h.ids hc
  have hself : (m.setNode i n').node? i = some n' := node?_setNode_self hn
  refine ⟨fun {j core} hj => ?_, fun {j k} hk => ?_, hn'.coherent, fun j => ?_⟩
  · by_cases hji : j = i
    · subst hji
      have hcore := (node?_eq_some_iff.1 hself).1.symm.trans hj
      cases hcore
      exact hs.id.trans hid
    · have hcores : (m.setNode i n').cores[j]? = m.cores[j]? :=
        List.getElem?_set_ne (Ne.symm hji)
      exact h.ids (hcores ▸ hj)
  · by_cases hji : j = i
    · subst hji
      cases hself.symm.trans hk
      exact hn'
    · rw [node?_setNode_of_ne hji, Option.map_eq_some_iff] at hk
      obtain ⟨k₀, hk₀, rfl⟩ := hk
      obtain ⟨hc₀, hshared₀⟩ := node?_eq_some_iff.1 hk₀
      have hbus₀ : k₀.bus = n.bus := (congrArg Shared.bus hshared₀).trans hbus.symm
      have hid₀ : k₀.core.id = j := h.ids hc₀
      have hne : k₀.core.id ≠ n.core.id := by rw [hid₀, hid]; exact hji
      have hsound₀ := h.nodes hk₀
      -- the core is as before, and it is spared what happened on the bus
      refine ⟨hn'.coherent, ?_, fun hr a => ?_⟩
      · show n'.bus.isRegistered k₀.core.id = k₀.core.isAlive
        rw [hs.registered hne, ← hbus₀]
        exact hsound₀.registered
      · have habsent : n.bus.isRegistered k₀.core.id = false := by
          rw [← hbus₀, hsound₀.registered, Core.isAlive]
          have hreset : k₀.core.state = .reset := hr
          rw [hreset]
          rfl
        show (n'.bus.store k₀.core.id).line? a = none
        rw [hs.absent hne habsent, ← hbus₀]
        exact hsound₀.fresh hr a
  · show (n'.bus.store j).lines.capacity = max 1 n'.bus.capacity
    rw [hs.capacities, hs.capacity, hbus]
    exact h.capacities j

/-- Every operation keeps a machine sound and its capacity. -/
theorem Sound.operation (h : m.Sound) (i : Nat) (op : Operation) :
    (op.onMachine m i).Sound ∧ (op.onMachine m i).bus.capacity = m.bus.capacity := by
  unfold Operation.onMachine
  rcases hn : m.node? i with _ | n
  · exact ⟨h, rfl⟩
  · obtain ⟨hs, hn'⟩ := Operation.perform_sound (h.nodes hn) m.platform op
    have hbus : n.bus = m.bus := congrArg Shared.bus (node?_eq_some_iff.1 hn).2
    exact ⟨h.setNode hn hs hn', hbus ▸ hs.capacity⟩

/-- Operations in any order keep a machine sound and its capacity. -/
theorem Sound.runOn (h : m.Sound) (ops : List (Nat × Operation)) :
    (Operation.runOn m ops).Sound ∧ (Operation.runOn m ops).bus.capacity = m.bus.capacity := by
  induction ops generalizing m with
  | nil => exact ⟨h, rfl⟩
  | cons op rest ih =>
    obtain ⟨hsound, hcapacity⟩ := h.operation op.1 op.2
    obtain ⟨hsound', hcapacity'⟩ := ih hsound
    exact ⟨hsound', hcapacity'.trans hcapacity⟩

/-- In every state that a machine can reach, whatever is done with which core, the data caches
that take part hold halfwords of memory, as many as they may; a dirty line is the only line of
its halfword; and a clean line has the value of memory. -/
theorem coherent_of_operations (p : Platform) (memory : PagedMemory)
    (cores instructionCapacity dataCapacity : Nat) (recording : Bool)
    (ops : List (Nat × Operation)) :
    let bus := (Operation.runOn
      (Machine.new p memory cores instructionCapacity dataCapacity recording) ops).bus
    (∀ i, bus.isRegistered i = true → (bus.store i).size ≤ max 1 dataCapacity ∧
      ∀ a l, (bus.store i).line? a = some l →
        a % 2 = 0 ∧ a.toNat + 2 ≤ bus.memory.size) ∧
    (∀ i j a l l', bus.isRegistered i = true → bus.isRegistered j = true →
      (bus.store i).line? a = some l → l.dirty = true → (bus.store j).line? a = some l' →
        j = i) ∧
    ∀ i a l, bus.isRegistered i = true → (bus.store i).line? a = some l → l.dirty = false →
      l.value = bus.memory.halfAt a.toNat := by
  intro bus
  obtain ⟨hsound, hcapacity⟩ :=
    (sound_new p memory cores instructionCapacity dataCapacity recording).runOn ops
  have hcoherent : bus.Coherent := hsound.coherent
  refine ⟨fun i hi => ⟨?_, fun a l hl => ?_⟩, fun i j a l l' hi hj hl hd hl' => ?_,
    fun i a l hi hl hd => ?_⟩
  · have hsize := (bus.store i).lines.size_le
    rw [hsound.capacities i, hcapacity] at hsize
    exact hsize
  · have hhalf := hcoherent.fits hi hl
    exact ⟨hhalf.even, hhalf.inside⟩
  · exact (hcoherent.each a).alone (Bus.cached_eq_some_iff.2 ⟨hi, hl⟩) hd
      (Bus.cached_eq_some_iff.2 ⟨hj, hl'⟩)
  · exact (hcoherent.each a).clean (Bus.cached_eq_some_iff.2 ⟨hi, hl⟩) hd

end Machine

end Multicore
