import Multicore.Proofs.Core.Quiet
import Multicore.Proofs.Machine.Coherence

/-!
# What cores do on the bus

A core loads and stores through its own data cache, releases lines of it, makes all data caches
discard lines, reads instructions and vectors from memory, allocates and frees pages, and has its
data cache take part in the bus or not. A relation between buses that holds of each of these
(`Bus.AllowsCore`) holds of whatever may be done with a core (`Operation.staysWithin_perform`), on
whatever memory.
-/

namespace Multicore

/-- What is left of the state behind an instruction cache: nothing is done with it on a hit. -/
theorem InstructionCache.snd_finalState_get {σ : Type} (a : Address)
    (fetch : Address → EStateM Fault σ Instruction) (cache : InstructionCache) (s : σ) :
    (finalState (get a fetch) (cache, s)).2 = s ∨
      (finalState (get a fetch) (cache, s)).2 = finalState (fetch a) s := by
  rcases hget : cache.entries.get a with ⟨_ | i, entries⟩
  · right
    simp only [finalState, get, hget]
    rcases fetch a s with ⟨i, s'⟩ | ⟨fault, s'⟩
    · rfl
    · rfl
  · left
    simp only [finalState, get, hget]

/-- A relation that holds of each thing that the core with number `i` does on a bus. -/
structure Bus.AllowsCore {β : Type} [PhysicalMemory β] (i : Nat) (R : Bus β → Bus β → Prop) :
    Prop extends Chains R where
  readWord : ∀ a, Within R (onMemory (PhysicalMemory.readWord a))
  loadVector : ∀ table index, Within R (onMemory (PhysicalMemory.loadVector table index))
  allocatePage : ∀ segment, Within R (onMemory (PhysicalMemory.allocatePage segment))
  describePage : ∀ page, Within R (onMemory (PhysicalMemory.describePage page))
  freePage : ∀ page, Within R (onMemory (PhysicalMemory.freePage page))
  load : ∀ width a, Within R (Bus.load width i a)
  storeAt : ∀ width a v, Within R (Bus.storeAt width i a v)
  release : ∀ selector writeback remove, Within R (Bus.release i selector writeback remove)
  discard : ∀ bus selector, R bus (bus.discard selector false)
  register : ∀ bus, R bus (bus.register i i)
  unregister : ∀ bus, R bus (bus.unregister i)

namespace Node

variable {β : Type} {R : Nat → Bus β → Bus β → Prop} {p : Platform} {n n' : Node β}

/-- The core has its number still, and what happened on the bus is what the relation allows it. -/
def StaysWithin (R : Nat → Bus β → Bus β → Prop) (n n' : Node β) : Prop :=
  n'.core.id = n.core.id ∧ R n.core.id n.bus n'.bus

section
variable [PhysicalMemory β] (hR : ∀ i, Bus.AllowsCore i (R i))
include hR

/-- To stay within a relation between buses is a closed relation between nodes. -/
theorem closed_staysWithin : Closed (StaysWithin R) where
  refl n := ⟨rfl, (hR n.core.id).refl n.bus⟩
  trans h h' := ⟨h'.1.trans h.1, (hR _).trans h.2 (h.1 ▸ h'.2)⟩

/-- What does not change the bus stays within. -/
theorem staysWithin_of_bus (hid : n'.core.id = n.core.id) (hbus : n'.bus = n.bus) :
    StaysWithin R n n' :=
  ⟨hid, hbus ▸ (hR n.core.id).refl n.bus⟩

omit hR [PhysicalMemory β] in
/-- What is done on the bus stays within if it does so there. -/
theorem staysWithin_onBus {α : Type} {x : EStateM Fault (Bus β) α} (hx : ∀ i, Within (R i) x) :
    Does (StaysWithin R) (onBus x) := by
  intro n
  rw [finalState_onBus]
  exact ⟨rfl, hx n.core.id n.bus⟩

/-- An allocation is followed by a broadcast that drops old lines of the page. -/
theorem staysWithin_allocatePage (segment : Option UInt32) :
    Does (StaysWithin R) (Node.allocatePage segment) := by
  have hclosed := closed_staysWithin hR
  refine hclosed.bind (staysWithin_onBus fun i => (hR i).allocatePage segment) fun page => ?_
  exact hclosed.bind (fun n => ⟨rfl, (hR _).discard n.bus _⟩) fun _ => hclosed.pure page

/-- A release of a page broadcasts to the data caches before memory frees it. -/
theorem staysWithin_freePage (page : UInt32) : Does (StaysWithin R) (Node.freePage page) := by
  have hclosed := closed_staysWithin hR
  have hfree : Does (StaysWithin R) (do
      modify fun n => { n with bus := n.bus.discard (.page page) false }
      onMemory (PhysicalMemory.freePage page) : NodeM β Unit) :=
    hclosed.bind (fun n => ⟨rfl, (hR _).discard n.bus _⟩) fun _ =>
      staysWithin_onBus fun i => (hR i).freePage page
  refine hclosed.bind (staysWithin_onBus fun i => (hR i).describePage page) fun info => ?_
  exact .ite hfree (hclosed.bind (hclosed.throw _) fun _ => hfree)

/-- An effect on the bus is what the relation allows. -/
theorem Effect.staysWithin (e : Effect p n n') : StaysWithin R n n' := by
  cases e with
  | regs | frames | interrupts | math | select | record | tally =>
    exact staysWithin_of_bus hR rfl rfl
  | vector table index => exact staysWithin_onBus (fun i => (hR i).loadVector table index) n
  | load width a => exact ⟨rfl, (hR _).load width a n.bus⟩
  | store width a v => exact ⟨rfl, (hR _).storeAt width a v n.bus⟩
  | allocate segment => exact staysWithin_allocatePage hR segment n
  | free page => exact staysWithin_freePage hR page n
  | drop page => exact ⟨rfl, (hR _).release (.page page) false true n.bus⟩

/-- Any number of effects stay within, by induction on them. -/
theorem Effects.staysWithin (e : Effects p n n') : StaysWithin R n n' := by
  induction e with
  | refl => exact (closed_staysWithin hR).refl n
  | tail _ e ih => exact (closed_staysWithin hR).trans ih (e.staysWithin hR)

/-- A fetch reads memory at most. -/
theorem staysWithin_fetch (set : InstructionSet) (a : Address) :
    Does (StaysWithin R) (fetch set a) := by
  intro n
  obtain ⟨fetched, hcore⟩ := core_fetch set a n
  refine ⟨by rw [hcore], ?_⟩
  unfold fetch
  extract_lets fill
  have hfill : Within (R n.core.id) (fill a) := by
    refine (hR _).bind ((hR _).readWord a) fun w => ?_
    rcases set.decode w with fault | i
    · exact (hR _).throw fault
    · exact (hR _).pure i
  have hbus : R n.core.id n.bus
      (finalState (InstructionCache.get a fill) (n.core.fetched, n.bus)).2 := by
    rcases InstructionCache.snd_finalState_get a fill n.core.fetched n.bus with hhit | hmiss
    · rw [hhit]
      exact (hR _).refl n.bus
    · rw [hmiss]
      exact hfill n.bus
  unfold finalState at hbus ⊢
  rcases hrun : InstructionCache.get a fill (n.core.fetched, n.bus) with ⟨i, s⟩ | ⟨fault, s⟩
  · simp only [hrun] at hbus ⊢
    exact hbus
  · simp only [hrun] at hbus ⊢
    exact hbus

/-- A fetch reads memory and changes the instruction cache, which is no part of the bus. -/
theorem staysWithin_primed (p : Platform) (n : Node β) : StaysWithin R n (n.primed p) := by
  rcases hset : p.sets[n.core.activeSet]? with _ | set
  · rw [primed_of_none hset]
    exact (closed_staysWithin hR).refl n
  · rw [primed_of_some hset]
    exact staysWithin_fetch hR set _ n

/-! ## The life of a core -/

/-- A change of the stage is no use of the bus. -/
theorem staysWithin_setState (n : Node β) (s : Lifecycle) : StaysWithin R n (n.setState s) :=
  staysWithin_of_bus hR (setState_id n s) (setState_bus n s)

/-- To suspend a core is no use of the bus. -/
theorem staysWithin_suspend (n : Node β) : StaysWithin R n n.suspend := by
  unfold Node.suspend
  split
  · exact staysWithin_setState hR n _
  · exact (closed_staysWithin hR).refl n

/-- To wake a core is no use of the bus. -/
theorem staysWithin_wake (n : Node β) : StaysWithin R n n.wake := by
  unfold Node.wake
  split
  · exact staysWithin_setState hR n _
  · exact (closed_staysWithin hR).refl n

/-- A core that is halted flushes its data cache, which then takes no more part. -/
theorem staysWithin_halt (n : Node β) (code : UInt32) : StaysWithin R n (n.halt code) := by
  unfold Node.halt
  split
  · exact (closed_staysWithin hR).refl n
  · refine ⟨setState_id _ _, ?_⟩
    show R n.core.id n.bus (Node.setState _ _).bus
    rw [setState_bus]
    exact (hR _).trans ((hR _).release .all true false n.bus) ((hR _).unregister _)

/-- A core that dies is halted, which flushes its data cache. -/
theorem staysWithin_die (n : Node β) (fault : Fault) : StaysWithin R n (n.die fault) := by
  unfold Node.die
  split
  · exact (closed_staysWithin hR).refl n
  · exact staysWithin_halt hR ((n.record (.fault n.core.id n.core.regs.ip fault)).mapCore
      fun c => { c with lastFault := some fault }) 1

/-- Whatever an instruction comes to stays within. -/
theorem Outcome.staysWithin (o : Outcome p n n') : StaysWithin R n n' := by
  have hclosed := closed_staysWithin hR
  cases o with
  | works e => exact e.staysWithin hR
  | suspends e f =>
    exact hclosed.trans (hclosed.trans (e.staysWithin hR) (staysWithin_suspend hR _))
      (staysWithin_of_bus hR rfl rfl)
  | halts e code f =>
    exact hclosed.trans (hclosed.trans (e.staysWithin hR) (staysWithin_halt hR _ code))
      (staysWithin_of_bus hR rfl rfl)

/-- A step stays within, whether it ends in a fault or not. -/
theorem staysWithin_step (p : Platform) (n : Node β) : StaysWithin R n (Node.step p n).2 := by
  have hclosed := closed_staysWithin hR
  rcases step_cases p n with ⟨hrun, -⟩ | ⟨-, n', ho, hrun⟩
  · rw [hrun]
    exact hclosed.refl n
  · have h := hclosed.trans (staysWithin_primed hR p n) (ho.staysWithin hR)
    rcases hrun with hrun | ⟨fault, hrun⟩
    · rw [hrun]
      exact h
    · rw [hrun]
      exact hclosed.trans h (staysWithin_die hR n' fault)

/-- A hardware interrupt stays within, delivered or not. -/
theorem staysWithin_interrupt (p : Platform) (index : UInt32) (n : Node β) :
    StaysWithin R n (Node.interrupt p index n).2 := by
  have hclosed := closed_staysWithin hR
  rcases interrupt_cases p index n with hrun | ⟨-, n', he, hrun⟩
  · rw [hrun]
    exact hclosed.refl n
  · have h := hclosed.trans (staysWithin_wake hR n) (he.staysWithin hR)
    rcases hrun with hrun | ⟨fault, hrun⟩
    · rw [hrun]
      exact h
    · rw [hrun]
      exact hclosed.trans h (staysWithin_die hR n' fault)

/-- A boot registers the data cache. -/
theorem staysWithin_boot (init : BootState) (n : Node β) :
    StaysWithin R n (finalState (Node.boot init) n) := by
  by_cases hr : n.core.state = .reset
  · simp only [StaysWithin, finalState, Node.boot, if_pos hr, setState_id, setState_bus]
    exact ⟨rfl, (hR _).register n.bus⟩
  · simp only [finalState, Node.boot, if_neg hr]
    exact (closed_staysWithin hR).refl n

/-- A snapshot that is restored registers the data cache too. -/
theorem staysWithin_restore (p : Platform) (s : Snapshot) (n : Node β) :
    StaysWithin R n (finalState (Node.restore p s) n) := by
  by_cases hr : n.core.state ≠ .reset
  · simp only [finalState, Node.restore, if_pos hr]
    exact (closed_staysWithin hR).refl n
  · by_cases ha : ¬ s.state.isAlive = true
    · simp only [finalState, Node.restore, if_neg hr, if_pos ha]
      exact (closed_staysWithin hR).refl n
    · simp only [StaysWithin, finalState, Node.restore, if_neg hr, if_neg ha, setState_id,
        setState_bus]
      exact ⟨rfl, (hR _).register n.bus⟩

end

end Node

/-- Whatever may be done with a core does on the bus what the relation allows it. -/
theorem Operation.staysWithin_perform {β : Type} [PhysicalMemory β]
    {R : Nat → Bus β → Bus β → Prop} (hR : ∀ i, Bus.AllowsCore i (R i)) (p : Platform) (n : Node β)
    (op : Operation) : Node.StaysWithin R n (op.perform p n) := by
  cases op with
  | boot init => exact Node.staysWithin_boot hR init n
  | restore s => exact Node.staysWithin_restore hR p s n
  | step => exact Node.staysWithin_step hR p n
  | interrupt index => exact Node.staysWithin_interrupt hR p index n
  | suspend => exact Node.staysWithin_suspend hR n
  | wake => exact Node.staysWithin_wake hR n
  | halt code => exact Node.staysWithin_halt hR n code
  | die fault => exact Node.staysWithin_die hR n fault

end Multicore
