import Multicore.Core.Snapshot
import Multicore.Proofs.Core.Paged

/-!
# Sound nodes

A node is `Sound` if its bus is coherent, its core takes part in the bus exactly as long as it
is alive, and a core that never started has an empty data cache. Whatever a core does keeps its
node sound: effects (`Effects.sound`), the ends of its life (`Sound.halt`, `Sound.die`) and its
start (`Sound.boot`, `Sound.restore`). `Spares` says what the core leaves alone meanwhile, so
that the nodes of the other cores stay sound too.
-/

namespace Multicore

/-- A core that is alive is past its start. -/
theorem Core.ne_reset_of_isAlive {c : Core} (ha : c.isAlive = true) : c.state ≠ .reset := by
  intro hs
  rw [isAlive, hs] at ha
  cases ha

/-- A core that is alive is not at its end. -/
theorem Core.ne_halted_of_isAlive {c : Core} (ha : c.isAlive = true) : c.state ≠ .halted := by
  intro hs
  rw [isAlive, hs] at ha
  cases ha

namespace Node

/-- The bus is coherent, the core takes part in it as long as it is alive, and before it starts
its data cache is empty. -/
structure Sound (n : Node PagedMemory) : Prop where
  coherent : n.bus.Coherent
  registered : n.bus.isRegistered n.core.id = n.core.isAlive
  fresh : n.core.state = .reset → ∀ a, (n.bus.store n.core.id).line? a = none

/-- What a core leaves alone: its number, the size of memory, the capacities of the data caches,
who of the others takes part, and the caches of those who do not. -/
structure Spares (n n' : Node PagedMemory) : Prop where
  id : n'.core.id = n.core.id
  capacity : n'.bus.capacity = n.bus.capacity
  capacities : ∀ j, (n'.bus.store j).lines.capacity = (n.bus.store j).lines.capacity
  pageCount : n'.bus.memory.pageCount = n.bus.memory.pageCount
  registered : ∀ {j}, j ≠ n.core.id → n'.bus.isRegistered j = n.bus.isRegistered j
  absent : ∀ {j}, j ≠ n.core.id → n.bus.isRegistered j = false → n'.bus.store j = n.bus.store j

variable {p : Platform} {n n' n'' : Node PagedMemory}

theorem Spares.refl (n : Node PagedMemory) : n.Spares n :=
  ⟨rfl, rfl, fun _ => rfl, rfl, fun _ => rfl, fun _ _ => rfl⟩

/-- What is spared twice is spared. -/
theorem Spares.trans (h : n.Spares n') (h' : n'.Spares n'') : n.Spares n'' where
  id := h'.id.trans h.id
  capacity := h'.capacity.trans h.capacity
  capacities j := (h'.capacities j).trans (h.capacities j)
  pageCount := h'.pageCount.trans h.pageCount
  registered hj := (h'.registered (h.id ▸ hj)).trans (h.registered hj)
  absent hj hr :=
    (h'.absent (h.id ▸ hj) ((h.registered hj).trans hr)).trans (h.absent hj hr)

/-- What happens to the core but for its number does not concern the others. -/
theorem Spares.of_bus (hid : n'.core.id = n.core.id) (hbus : n'.bus = n.bus) : n.Spares n' :=
  ⟨hid, by rw [hbus], fun _ => by rw [hbus], by rw [hbus], fun _ => by rw [hbus],
    fun _ _ => by rw [hbus]⟩

/-- What a bus keeps, a core that works on it spares. -/
theorem Spares.of_keeps (hid : n'.core.id = n.core.id) (h : n.bus.Keeps n'.bus) : n.Spares n' :=
  ⟨hid, h.capacity, h.capacities, h.pageCount, fun _ => h.isRegistered _, fun _ hr => h.absent hr⟩

/-! ## Effects -/

/-- A sound node after something was done that left it sound: the core is in the same stage,
and the others are spared. -/
structure Goes (n n' : Node PagedMemory) : Prop where
  spares : n.Spares n'
  sound : n'.Sound
  state : n'.core.state = n.core.state

/-- One thing after another goes on soundly. -/
theorem Goes.trans (h : n.Goes n') (h' : n'.Goes n'') : n.Goes n'' :=
  ⟨h.spares.trans h'.spares, h'.sound, h'.state.trans h.state⟩

/-- A change of the core that keeps its number and its stage leaves the node sound. -/
theorem Sound.goes_of_bus (h : n.Sound) (hid : n'.core.id = n.core.id)
    (hstate : n'.core.state = n.core.state) (hbus : n'.bus = n.bus) : n.Goes n' := by
  refine ⟨.of_bus hid hbus, ⟨?_, ?_, fun hr => ?_⟩, hstate⟩
  · rw [hbus]
    exact h.coherent
  · rw [hbus, hid, h.registered, Core.isAlive, Core.isAlive, hstate]
  · rw [hbus, hid]
    exact h.fresh (hstate ▸ hr)

/-- A change of the registers has nothing to do with the bus. -/
theorem Sound.goes_mapRegs (h : n.Sound) (f : RegisterFile → RegisterFile) :
    n.Goes (n.mapRegs f) :=
  h.goes_of_bus rfl rfl rfl

/-- A change of the bus that keeps it coherent leaves the node of an alive core sound. -/
theorem Sound.goes_of_keeps (h : n.Sound) (ha : n.core.isAlive = true) {bus : Bus PagedMemory}
    (hk : n.bus.Keeps bus) (hc : bus.Coherent) : n.Goes { n with bus } := by
  refine ⟨.of_keeps rfl hk, ⟨hc, ?_, fun hr => ?_⟩, rfl⟩
  · exact (hk.isRegistered _).trans h.registered
  · exact absurd hr (Core.ne_reset_of_isAlive ha)

/-- An access leaves the node sound. -/
theorem Sound.goes_of_accesses (h : n.Sound) (ha : n.core.isAlive = true) {α : Type}
    {x : EStateM Fault (Bus PagedMemory) α} {r : Option Fault} {v : α} {patch : Bus.Patch}
    (hx : Bus.Accesses n.core.id x n.bus r v patch) :
    n.Goes { n with bus := finalState x n.bus } := by
  have hw := hx.written h.coherent (h.registered.trans ha)
  exact h.goes_of_keeps ha hw.steady.toKeeps hw.coherent

/-- An effect of an alive core leaves its node sound. -/
theorem Effect.goes (e : Effect p n n') (h : n.Sound) (ha : n.core.isAlive = true) : n.Goes n' := by
  have hi : n.bus.isRegistered n.core.id = true := h.registered.trans ha
  cases e with
  | regs f => exact h.goes_mapRegs f
  | frames l => exact h.goes_of_bus rfl rfl rfl
  | interrupts l => exact h.goes_of_bus rfl rfl rfl
  | math s => exact h.goes_of_bus rfl rfl rfl
  | select id _ => exact h.goes_of_bus rfl rfl rfl
  | record e => exact h.goes_of_bus rfl rfl rfl
  | tally index count => exact h.goes_of_bus rfl rfl rfl
  | vector table index =>
    rw [finalState_loadVector]
    exact h.goes_of_bus rfl rfl rfl
  | load width a => exact h.goes_of_accesses ha (Bus.load_spec h.coherent hi width a)
  | store width a v => exact h.goes_of_accesses ha (Bus.storeAt_spec h.coherent hi width a v)
  | allocate segment =>
    rcases hp : n.bus.memory.nextFree? segment with _ | p
    · rw [finalState_of_error (allocatePage_of_none hp)]
      exact h.goes_of_bus rfl rfl rfl
    · obtain ⟨bus, hrun, -, hcleared, -⟩ := allocatePage_of_some h.coherent hp
      rw [finalState_of_ok hrun]
      exact h.goes_of_keeps ha hcleared.keeps hcleared.coherent
  | free page =>
    by_cases hp : page.toNat ∈ n.bus.memory.allocated
    · obtain ⟨bus, hrun, hcleared, -⟩ := freePage_of_mem h.coherent hp
      rw [finalState_of_ok hrun]
      exact h.goes_of_keeps ha hcleared.keeps hcleared.coherent
    · rw [finalState_of_error (freePage_of_not_mem hp)]
      exact h.goes_of_bus rfl rfl rfl
  | drop page =>
    obtain ⟨bus, hrun, hsteady, hcoherent⟩ := Bus.drop_spec h.coherent hi (.page page)
    rw [finalState_of_ok hrun]
    exact h.goes_of_keeps ha hsteady.toKeeps hcoherent

/-- Any number of effects leave a sound node sound as long as the core is alive. -/
theorem Effects.goes (e : Effects p n n') (h : n.Sound) (ha : n.core.isAlive = true) :
    n.Goes n' := by
  induction e with
  | refl => exact h.goes_of_bus rfl rfl rfl
  | tail _ e ih =>
    refine ih.trans (e.goes ih.sound ?_)
    rw [Core.isAlive, ih.state]
    exact ha

/-- The fetch at the start of a step leaves the node sound. -/
theorem Sound.goes_primed (h : n.Sound) (p : Platform) : n.Goes (n.primed p) := by
  obtain ⟨fetched, hprimed⟩ := primed_eq p n
  rw [hprimed]
  exact h.goes_of_bus rfl rfl rfl

/-- An alive core stays so when it goes on. -/
theorem Goes.isAlive (h : n.Goes n') (ha : n.core.isAlive = true) : n'.core.isAlive = true := by
  rw [Core.isAlive, h.state]
  exact ha

/-! ## The life of a core -/

/-- A change of the stage leaves the bus. -/
@[simp] theorem setState_bus {β : Type} (n : Node β) (s : Lifecycle) :
    (n.setState s).bus = n.bus := by
  unfold setState
  split <;> rfl

/-- A change of the stage leaves the number of the core. -/
@[simp] theorem setState_id {β : Type} (n : Node β) (s : Lifecycle) :
    (n.setState s).core.id = n.core.id := by
  unfold setState
  split <;> rfl

/-- A change of the stage is one. -/
@[simp] theorem setState_state {β : Type} (n : Node β) (s : Lifecycle) :
    (n.setState s).core.state = s := by
  unfold setState
  split
  · next h => exact h
  · rfl

/-- An alive core may change between running and suspended. -/
theorem Sound.setState (h : n.Sound) (ha : n.core.isAlive = true) {s : Lifecycle}
    (hs : s.isAlive = true) : n.Spares (n.setState s) ∧ (n.setState s).Sound := by
  refine ⟨.of_bus (by simp) (by simp), ?_, ?_, fun hr => ?_⟩
  · rw [setState_bus]
    exact h.coherent
  · rw [setState_bus, setState_id, h.registered, ha, Core.isAlive, setState_state, hs]
  · rw [setState_state] at hr
    rw [hr] at hs
    cases hs

/-- A running core is alive. -/
theorem isAlive_of_isRunnable (hr : n.core.isRunnable = true) : n.core.isAlive = true := by
  rw [Core.isAlive, of_decide_eq_true hr]
  rfl

/-- To wake a core leaves the bus. -/
theorem bus_wake {β : Type} (n : Node β) : n.wake.bus = n.bus := by
  unfold Node.wake
  split
  · exact setState_bus n _
  · rfl

/-- An alive core stays alive when it is woken. -/
theorem isAlive_wake (ha : n.core.isAlive = true) : n.wake.core.isAlive = true := by
  unfold Node.wake
  split
  · rw [Core.isAlive, setState_state]
    rfl
  · exact ha

/-- A sound node is sound once its core is suspended. -/
theorem Sound.suspend (h : n.Sound) : n.Spares n.suspend ∧ n.suspend.Sound := by
  unfold Node.suspend
  split
  · next hr => exact h.setState (by rw [Core.isAlive, hr]; rfl) rfl
  · exact ⟨.refl n, h⟩

/-- A sound node is sound once its core is woken. -/
theorem Sound.wake (h : n.Sound) : n.Spares n.wake ∧ n.wake.Sound := by
  unfold Node.wake
  split
  · next hr => exact h.setState (by rw [Core.isAlive, hr]; rfl) rfl
  · exact ⟨.refl n, h⟩

/-- A flush before the end of a core changes no value. A core that never started has nothing
to flush. -/
theorem Sound.flush (h : n.Sound) (hs : n.core.state ≠ .halted) :
    n.bus.Written n.core.id .none (finalState (Bus.flush n.core.id) n.bus) := by
  have hreg := h.registered
  rcases ha : n.core.isAlive with _ | _
  · have hreset : n.core.state = .reset := by
      rw [Core.isAlive] at ha
      rcases hstate : n.core.state
      · rfl
      · rw [hstate] at ha
        cases ha
      · rw [hstate] at ha
        cases ha
      · exact absurd hstate hs
    have hnone : (n.bus.store n.core.id).covered .all = [] := by
      refine List.eq_nil_iff_forall_not_mem.2 fun a hm => ?_
      obtain ⟨-, l, hl⟩ := HalfwordCache.mem_covered_iff.1 hm
      cases (h.fresh hreset a).symm.trans hl
    exact (Bus.same_of_covered_eq_nil hnone n.core.id).written_of_absent h.coherent
      (fun j _ => Bus.store_of_covered_eq_nil hnone j) n.core.id
  · rw [ha] at hreg
    obtain ⟨bus, hrun, hw, -⟩ := Bus.flush_spec h.coherent hreg
    rw [finalState_of_ok hrun]
    exact hw

/-- A core that is halted takes no more part. -/
theorem Sound.halt (h : n.Sound) (code : UInt32) :
    n.Spares (n.halt code) ∧ (n.halt code).Sound := by
  unfold Node.halt
  split
  · exact ⟨.refl n, h⟩
  · next hs =>
    have hw := h.flush hs
    dsimp only [mapCore, record]
    generalize finalState (Bus.flush n.core.id) n.bus = bus at *
    refine ⟨⟨by simp, ?_, fun j => ?_, ?_, fun {j} hj => ?_, fun {j} hj hr => ?_⟩,
      ?_, ?_, fun hr => ?_⟩
    · rw [setState_bus]
      exact hw.steady.capacity
    · rw [setState_bus]
      exact hw.steady.capacities j
    · rw [setState_bus]
      exact hw.steady.pageCount
    · rw [setState_bus, Bool.eq_iff_iff, Bus.isRegistered_unregister_iff, and_iff_right hj,
        hw.isRegistered]
    · rw [setState_bus]
      exact hw.steady.absent hr
    · rw [setState_bus]
      exact hw.coherent.unregister _
    · rw [setState_bus, setState_id, Core.isAlive, setState_state]
      show (bus.unregister n.core.id).isRegistered n.core.id = false
      rw [← Bool.not_eq_true, Bus.isRegistered_unregister_iff]
      exact fun hc => hc.1 rfl
    · rw [setState_state] at hr
      cases hr

/-- A core that dies is halted. -/
theorem Sound.die (h : n.Sound) (fault : Fault) :
    n.Spares (n.die fault) ∧ (n.die fault).Sound := by
  unfold Node.die
  split
  · exact ⟨.refl n, h⟩
  · have hnoted : n.Goes ((n.record (.fault n.core.id n.core.regs.ip fault)).mapCore
        fun c => { c with lastFault := some fault }) := h.goes_of_bus rfl rfl rfl
    obtain ⟨hspares, hsound⟩ := hnoted.sound.halt 1
    exact ⟨hnoted.spares.trans hspares, hsound⟩

/-- An instruction leaves its node sound, whatever it comes to. -/
theorem Outcome.sound (o : Outcome p n n') (h : n.Sound) (ha : n.core.isAlive = true) :
    n.Spares n' ∧ n'.Sound := by
  cases o with
  | works e =>
    have hg := e.goes h ha
    exact ⟨hg.spares, hg.sound⟩
  | suspends e f =>
    have hg := e.goes h ha
    obtain ⟨hspares, hsound⟩ := hg.sound.suspend
    have hregs := hsound.goes_mapRegs f
    exact ⟨(hg.spares.trans hspares).trans hregs.spares, hregs.sound⟩
  | halts e code f =>
    have hg := e.goes h ha
    obtain ⟨hspares, hsound⟩ := hg.sound.halt code
    have hregs := hsound.goes_mapRegs f
    exact ⟨(hg.spares.trans hspares).trans hregs.spares, hregs.sound⟩

/-- A step leaves a sound node sound and spares the others, whatever it comes to. -/
theorem Sound.step (h : n.Sound) (p : Platform) :
    n.Spares (Node.step p n).2 ∧ (Node.step p n).2.Sound := by
  rcases step_cases p n with ⟨hrun, -⟩ | ⟨hr, n', ho, hrun⟩
  · rw [hrun]
    exact ⟨.refl n, h⟩
  · have hprimed := h.goes_primed p
    obtain ⟨hrest, hsound⟩ := ho.sound hprimed.sound (hprimed.isAlive (isAlive_of_isRunnable hr))
    have hspares := hprimed.spares.trans hrest
    rcases hrun with hrun | ⟨fault, hrun⟩
    · rw [hrun]
      exact ⟨hspares, hsound⟩
    · rw [hrun]
      obtain ⟨hspares', hsound'⟩ := hsound.die fault
      exact ⟨hspares.trans hspares', hsound'⟩

/-- So does a hardware interrupt, delivered or not. -/
theorem Sound.interrupt (h : n.Sound) (p : Platform) (index : UInt32) :
    n.Spares (Node.interrupt p index n).2 ∧ (Node.interrupt p index n).2.Sound := by
  rcases interrupt_cases p index n with hrun | ⟨ha, n', he, hrun⟩
  · rw [hrun]
    exact ⟨.refl n, h⟩
  · obtain ⟨hspares, hsound⟩ := h.wake
    have hg := he.goes hsound (isAlive_wake ha)
    rcases hrun with hrun | ⟨fault, hrun⟩
    · rw [hrun]
      exact ⟨hspares.trans hg.spares, hg.sound⟩
    · rw [hrun]
      obtain ⟨hspares', hsound'⟩ := hg.sound.die fault
      exact ⟨(hspares.trans hg.spares).trans hspares', hsound'⟩

/-! ## The start of a core -/

/-- A core that never started may take part, alive. -/
theorem Sound.start (h : n.Sound) (hr : n.core.state = .reset) (n' : Node PagedMemory)
    (hid : n'.core.id = n.core.id) (hbus : n'.bus = n.bus.register n.core.id n.core.id)
    {s : Lifecycle} (hs : s.isAlive = true) : n.Spares (n'.setState s) ∧ (n'.setState s).Sound := by
  have hempty := h.fresh hr
  refine ⟨⟨by rw [setState_id, hid], ?_, fun j => ?_, ?_, fun {j} hj => ?_, fun {j} _ _ => ?_⟩,
    ?_, ?_, fun hreset => ?_⟩
  · rw [setState_bus, hbus]
    rfl
  · rw [setState_bus, hbus]
    rfl
  · rw [setState_bus, hbus]
    rfl
  · rw [setState_bus, hbus, Bool.eq_iff_iff, Bus.isRegistered_register_iff, or_iff_right hj]
  · rw [setState_bus, hbus]
    rfl
  · rw [setState_bus, hbus]
    exact h.coherent.register hempty
  · rw [setState_bus, setState_id, Core.isAlive, setState_state, hs, hid, hbus,
      Bus.isRegistered_register_iff]
    exact .inl rfl
  · rw [setState_state] at hreset
    rw [hreset] at hs
    cases hs

/-- A core that is booted takes part with the empty data cache that it has, and one that cannot be
booted stays as it is. -/
theorem Sound.boot (h : n.Sound) (init : BootState) :
    n.Spares (finalState (Node.boot init) n) ∧ (finalState (Node.boot init) n).Sound := by
  by_cases hr : n.core.state = .reset
  · have hrun : Node.boot init n = .ok ()
        ((({ n with
            bus := n.bus.register n.core.id n.core.id
            core := bootedCore n.core init } : Node PagedMemory).record
          (.boot n.core.id init)).setState .running) := by
      rw [Node.boot, if_pos hr]
      rfl
    have hstart := h.start hr (s := .running) (({ n with
      bus := n.bus.register n.core.id n.core.id
      core := bootedCore n.core init } : Node PagedMemory).record (.boot n.core.id init))
      rfl rfl rfl
    rw [finalState_of_ok hrun]
    exact hstart
  · have hrun : Node.boot init n =
        .error (.invalidState n.core.id .boot n.core.state) n := by
      rw [Node.boot, if_neg hr]
    rw [finalState_of_error hrun]
    exact ⟨.refl n, h⟩

/-- A snapshot is refused, or it is restored to a core that never started, so that its data cache is
empty when it takes part. -/
theorem Sound.restore (h : n.Sound) (p : Platform) (s : Snapshot) :
    n.Spares (finalState (Node.restore p s) n) ∧ (finalState (Node.restore p s) n).Sound := by
  by_cases hr : n.core.state = .reset
  · rcases hs : s.state.isAlive with _ | _
    · have hrun : Node.restore p s n =
          .error (.invalidState n.core.id .restore s.state) n := by
        rw [Node.restore, if_neg (by simp [hr]), if_pos (by simp [hs])]
      rw [finalState_of_error hrun]
      exact ⟨.refl n, h⟩
    · have hrun : Node.restore p s n = .ok ()
          (({ n with
              bus := n.bus.register n.core.id n.core.id
              core := n.core.resumed p.sets s } : Node PagedMemory).setState s.state) := by
        rw [Node.restore, if_neg (by simp [hr]), if_neg (by simp [hs])]
        rfl
      rw [finalState_of_ok hrun]
      exact h.start hr { n with
        bus := n.bus.register n.core.id n.core.id
        core := n.core.resumed p.sets s } rfl rfl hs
  · have hrun : Node.restore p s n =
        .error (.invalidState n.core.id .restore n.core.state) n := by
      rw [Node.restore, if_pos hr]
    rw [finalState_of_error hrun]
    exact ⟨.refl n, h⟩

end Node

end Multicore
