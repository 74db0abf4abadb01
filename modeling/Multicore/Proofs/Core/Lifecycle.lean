import Multicore.Proofs.Machine.Runs

/-!
# The life of a core

A core starts, is suspended and woken, and is halted, and `Lifecycle.Follows` says in which order.
Whatever is done with a core respects it (`Node.Sound.follows_perform`). Only the end of its life
leaves an exit code and a last fault, and takes its data cache out of the bus, without a dirty
line: a node for which this is so is `Settled`, and whatever is done with its core keeps it settled
(`Node.Settled.perform`).
-/

namespace Multicore

open Node

/-- What may follow a stage of a core, where a core may start suspended only if it is restored. -/
inductive Lifecycle.Follows (restored : Prop) : Lifecycle → Lifecycle → Prop
  | stay (s : Lifecycle) : Follows restored s s
  | start : Follows restored .reset .running
  | resume (h : restored) : Follows restored .reset .suspended
  | suspend : Follows restored .running .suspended
  | wake : Follows restored .suspended .running
  | halt {s : Lifecycle} (h : s ≠ .halted) : Follows restored s .halted

/-- The two stages in which a core is alive. -/
theorem Lifecycle.isAlive_iff {s : Lifecycle} :
    s.isAlive = true ↔ s = .running ∨ s = .suspended := by
  cases s <;> simp [Lifecycle.isAlive]

/-- What may follow without a restore may follow with one. -/
theorem Lifecycle.Follows.mono {restored restored' : Prop} {s s' : Lifecycle}
    (h : s.Follows restored s') (hr : restored → restored') : s.Follows restored' s' := by
  cases h with
  | stay => exact .stay _
  | start => exact .start
  | resume h => exact .resume (hr h)
  | suspend => exact .suspend
  | wake => exact .wake
  | halt h => exact .halt h

/-- An alive core may go on in any way but to start again. -/
theorem Lifecycle.follows_of_alive {restored : Prop} {s s' : Lifecycle} (hs : s.isAlive = true)
    (hs' : s' ≠ .reset) : s.Follows restored s' := by
  cases s with
  | reset => cases hs
  | running =>
    cases s' with
    | reset => exact absurd rfl hs'
    | running => exact .stay _
    | suspended => exact .suspend
    | halted => exact .halt nofun
  | suspended =>
    cases s' with
    | reset => exact absurd rfl hs'
    | running => exact .wake
    | suspended => exact .stay _
    | halted => exact .halt nofun
  | halted => cases hs

namespace Node

variable {n n' : Node PagedMemory}

/-! ## The start -/

/-- A core that starts. -/
theorem core_boot (hs : n.core.state = .reset) (init : BootState) :
    (finalState (Node.boot init) n).core = { bootedCore n.core init with state := .running } := by
  simp only [Node.boot, if_pos hs, finalState, core_setState]
  rfl

/-- A core that goes on from a snapshot. -/
theorem core_restore (hs : n.core.state = .reset) (p : Platform) {s : Snapshot}
    (ha : s.state.isAlive = true) :
    (finalState (Node.restore p s) n).core =
      { n.core.resumed p.sets s with state := s.state } := by
  simp only [Node.restore, ne_eq, hs, ha, not_true_eq_false, reduceIte, finalState, core_setState]
  rfl

/-- A snapshot of a core that is not alive is refused. -/
theorem restore_of_not_alive (p : Platform) {s : Snapshot} (ha : s.state.isAlive = false) :
    finalState (Node.restore p s) n = n := by
  by_cases hs : n.core.state = .reset
  · simp [Node.restore, finalState, hs, ha]
  · simp [Node.restore, finalState, hs]

/-- What is done with a core before its start, other than halting it, starts it or does nothing. -/
theorem follows_of_reset (hs : n.core.state = .reset) (p : Platform) (op : Operation) :
    Lifecycle.Follows (∃ s, op = .restore s) .reset (op.perform p n).core.state := by
  cases op with
  | boot init =>
    rw [Operation.perform, core_boot hs]
    exact .start
  | restore s =>
    rcases ha : s.state.isAlive with _ | _
    · rw [Operation.perform, restore_of_not_alive p ha, hs]
      exact .stay _
    · rw [Operation.perform, core_restore hs p ha]
      cases hstate : s.state with
      | reset => rw [hstate] at ha; cases ha
      | running => exact .start
      | suspended => exact .resume ⟨s, rfl⟩
      | halted => rw [hstate] at ha; cases ha
  | step =>
    rw [Operation.perform_of_not_started p hs rfl, hs]
    exact .stay _
  | interrupt index =>
    rw [Operation.perform_of_not_started p hs rfl, hs]
    exact .stay _
  | suspend =>
    rw [Operation.perform, suspend, if_neg (by rw [hs]; decide), hs]
    exact .stay _
  | wake =>
    rw [Operation.perform, wake, if_neg (by rw [hs]; decide), hs]
    exact .stay _
  | halt code =>
    rw [Operation.perform, state_halt]
    exact .halt (by decide)
  | die fault =>
    rw [Operation.perform, state_die]
    exact .halt (by decide)

/-- Whatever is done with a core, the stage after it may follow the stage before. -/
theorem Sound.follows_perform (h : n.Sound) (p : Platform) (op : Operation) :
    n.core.state.Follows (∃ s, op = .restore s) (op.perform p n).core.state := by
  cases hs : n.core.state with
  | reset => exact follows_of_reset hs p op
  | running =>
    exact Lifecycle.follows_of_alive rfl
      (Operation.started_perform h p (by rw [hs]; decide) op)
  | suspended =>
    exact Lifecycle.follows_of_alive rfl
      (Operation.started_perform h p (by rw [hs]; decide) op)
  | halted =>
    rw [Operation.perform_of_halted p hs, hs]
    exact .stay _

end Node

/-! ## What the end leaves -/

/-- The exit code and the last fault are the same. -/
structure Core.SameEnd (c c' : Core) : Prop where
  exitCode : c'.exitCode = c.exitCode
  lastFault : c'.lastFault = c.lastFault

/-- The same end twice is the same end. -/
theorem Core.SameEnd.trans {c c' c'' : Core} (h : c.SameEnd c') (h' : c'.SameEnd c'') :
    c.SameEnd c'' :=
  ⟨h'.exitCode.trans h.exitCode, h'.lastFault.trans h.lastFault⟩

namespace Node

/-- Only a halted core has an exit code other than zero, only a core that a fault has halted has a
last fault, and the data cache of a halted core has no dirty line. -/
structure Settled (n : Node PagedMemory) : Prop where
  exitCode : n.core.exitCode ≠ 0 → n.core.state = .halted
  lastFault : n.core.lastFault ≠ none → n.core.state = .halted ∧ n.core.exitCode = 1
  flushed : n.core.state = .halted →
    ∀ a l, (n.bus.store n.core.id).line? a = some l → l.dirty = false

variable {p : Platform} {n n' : Node PagedMemory}

/-- An effect leaves the exit code and the last fault alone. -/
theorem Effect.sameEnd (e : Effect p n n') : n.core.SameEnd n'.core := by
  cases e with
  | regs f => exact ⟨rfl, rfl⟩
  | frames l => exact ⟨rfl, rfl⟩
  | interrupts l => exact ⟨rfl, rfl⟩
  | math s => exact ⟨rfl, rfl⟩
  | select id _ => exact ⟨rfl, rfl⟩
  | vector table index =>
    rw [finalState_loadVector]
    exact ⟨rfl, rfl⟩
  | load width a => exact ⟨rfl, rfl⟩
  | store width a v => exact ⟨rfl, rfl⟩
  | allocate segment =>
    rw [core_allocatePage segment n]
    exact ⟨rfl, rfl⟩
  | free page =>
    rw [core_freePage page n]
    exact ⟨rfl, rfl⟩
  | drop page => exact ⟨rfl, rfl⟩
  | record e => exact ⟨rfl, rfl⟩
  | tally index count => exact ⟨rfl, rfl⟩

/-- Effects have nothing to do with how the core ended, by induction on them. -/
theorem Effects.sameEnd (e : Effects p n n') : n.core.SameEnd n'.core := by
  induction e with
  | refl => exact ⟨rfl, rfl⟩
  | tail _ e ih => exact ih.trans e.sameEnd

/-- A core that is not halted has nothing to show of its end. -/
theorem Settled.of_not_halted (hs : n.core.state ≠ .halted) (hcode : n.core.exitCode = 0)
    (hfault : n.core.lastFault = none) : n.Settled :=
  ⟨fun h => absurd hcode h, fun h => absurd hfault h, fun h => absurd h hs⟩

/-- A core that is not halted has no exit code yet. -/
theorem Settled.exitCode_eq (h : n.Settled) (hs : n.core.state ≠ .halted) :
    n.core.exitCode = 0 :=
  Classical.not_not.1 fun hn => hs (h.exitCode hn)

/-- A core that is not halted has no last fault. -/
theorem Settled.lastFault_eq (h : n.Settled) (hs : n.core.state ≠ .halted) :
    n.core.lastFault = none :=
  Classical.not_not.1 fun hn => hs (h.lastFault hn).1

/-- A core that goes on without an end stays settled. -/
theorem Settled.of_sameEnd (h : n.Settled) (hs : n.core.state ≠ .halted)
    (hs' : n'.core.state ≠ .halted) (hend : n.core.SameEnd n'.core) : n'.Settled :=
  .of_not_halted hs' (hend.exitCode.trans (h.exitCode_eq hs))
    (hend.lastFault.trans (h.lastFault_eq hs))

/-- A change of the registers leaves a settled node settled. -/
theorem Settled.mapRegs (h : n.Settled) (f : RegisterFile → RegisterFile) :
    (n.mapRegs f).Settled :=
  ⟨h.exitCode, h.lastFault, h.flushed⟩

/-- The fetch at the start of a step keeps its node settled. -/
theorem Settled.primed (h : n.Settled) (p : Platform) : (n.primed p).Settled := by
  obtain ⟨fetched, hprimed⟩ := primed_eq p n
  rw [hprimed]
  exact ⟨h.exitCode, h.lastFault, h.flushed⟩

/-- Once it is flushed, the data cache of a core that is not halted has no dirty line. -/
theorem Sound.clean_flush (h : n.Sound) (hs : n.core.state ≠ .halted) {a : Address}
    {l : CacheLine}
    (hl : ((finalState (Bus.flush n.core.id) n.bus).store n.core.id).line? a = some l) :
    l.dirty = false := by
  rcases ha : n.core.isAlive with _ | _
  · have hreset : n.core.state = .reset := by
      cases hstate : n.core.state with
      | reset => rfl
      | running => rw [Core.isAlive, hstate] at ha; cases ha
      | suspended => rw [Core.isAlive, hstate] at ha; cases ha
      | halted => exact absurd hstate hs
    have hnone : (n.bus.store n.core.id).covered .all = [] := by
      refine List.eq_nil_iff_forall_not_mem.2 fun b hb => ?_
      obtain ⟨-, l, hl⟩ := HalfwordCache.mem_covered_iff.1 hb
      cases (h.fresh hreset b).symm.trans hl
    have hsame : (finalState (Bus.flush n.core.id) n.bus).store n.core.id =
        n.bus.store n.core.id := Bus.store_of_covered_eq_nil hnone n.core.id
    rw [hsame, h.fresh hreset a] at hl
    cases hl
  · have hreg := h.registered.trans ha
    obtain ⟨bus, hrun, hw, hclean⟩ := Bus.flush_spec h.coherent hreg
    rw [finalState_of_ok hrun] at hl
    exact hclean (Bus.cached_eq_some_iff.2 ⟨(hw.isRegistered _).trans hreg, hl⟩)

/-- A core that is halted, by a fault with exit code 1, is settled. -/
theorem Sound.settled_halt (h : n.Sound) (hs : n.core.state ≠ .halted) {code : UInt32}
    (hfault : n.core.lastFault ≠ none → code = 1) : (n.halt code).Settled := by
  have hcore : (n.halt code).core = { n.core with exitCode := code, state := .halted } := by
    simp only [Node.halt, if_neg hs, record, core_setState, mapCore]
  have hbus : (n.halt code).bus =
      (finalState (Bus.flush n.core.id) n.bus).unregister n.core.id := by
    simp only [Node.halt, if_neg hs, record, setState_bus, mapCore]
  refine ⟨fun _ => by rw [hcore], fun hf => ?_, fun _ a l hl => ?_⟩
  · rw [hcore] at hf ⊢
    exact ⟨rfl, hfault hf⟩
  · rw [hcore, hbus] at hl
    exact h.clean_flush hs hl

/-- A core that is halted has flushed its data cache. -/
theorem Settled.halt (ha : n.Settled) (h : n.Sound) (code : UInt32) : (n.halt code).Settled := by
  by_cases hs : n.core.state = .halted
  · rw [Node.halt, if_pos hs]
    exact ha
  · exact h.settled_halt hs fun hf => absurd (ha.lastFault_eq hs) hf

/-- A core that dies has the exit code 1 and its fault. -/
theorem Settled.die (ha : n.Settled) (h : n.Sound) (fault : Fault) : (n.die fault).Settled := by
  by_cases hs : n.core.state = .halted
  · rw [Node.die, if_pos hs]
    exact ha
  · rw [Node.die, if_neg hs]
    have hnoted : n.Goes ((n.record (.fault n.core.id n.core.regs.ip fault)).mapCore
        fun c => { c with lastFault := some fault }) := h.goes_of_bus rfl rfl rfl
    exact hnoted.sound.settled_halt (hnoted.state ▸ hs) fun _ => rfl

/-- A suspended core is settled as before. -/
theorem Settled.suspend (ha : n.Settled) : n.suspend.Settled := by
  by_cases hs : n.core.state = .running
  · have hcore : n.suspend.core = { n.core with state := .suspended } := by
      rw [Node.suspend, if_pos hs, core_setState]
    refine ha.of_sameEnd (by rw [hs]; decide) (by rw [hcore]; simp) ?_
    rw [hcore]
    exact ⟨rfl, rfl⟩
  · rw [Node.suspend, if_neg hs]
    exact ha

/-- A woken core is settled as before. -/
theorem Settled.wake (ha : n.Settled) : n.wake.Settled := by
  by_cases hs : n.core.state = .suspended
  · have hcore : n.wake.core = { n.core with state := .running } := by
      rw [Node.wake, if_pos hs, core_setState]
    refine ha.of_sameEnd (by rw [hs]; decide) (by rw [hcore]; simp) ?_
    rw [hcore]
    exact ⟨rfl, rfl⟩
  · rw [Node.wake, if_neg hs]
    exact ha

/-- An instruction keeps its node settled, whatever it comes to. -/
theorem Outcome.settled (o : Outcome p n n') (ha : n.Settled) (h : n.Sound)
    (halive : n.core.isAlive = true) : n'.Settled := by
  have hs := Core.ne_halted_of_isAlive halive
  have hworks {n₁ : Node PagedMemory} (e : Effects p n n₁) : n₁.Settled :=
    ha.of_sameEnd hs ((e.goes h halive).state ▸ hs) e.sameEnd
  cases o with
  | works e => exact hworks e
  | suspends e f => exact (hworks e).suspend.mapRegs f
  | halts e code f => exact ((hworks e).halt (e.goes h halive).sound code).mapRegs f

/-- A step leaves a settled node settled, also if its core halts or dies. -/
theorem Settled.step (ha : n.Settled) (h : n.Sound) (p : Platform) :
    (Node.step p n).2.Settled := by
  rcases step_cases p n with ⟨hrun, -⟩ | ⟨hr, n', o, hrun⟩
  · rw [hrun]
    exact ha
  · have hgoes := h.goes_primed p
    have halive := hgoes.isAlive (isAlive_of_isRunnable hr)
    have hn' := o.settled (ha.primed p) hgoes.sound halive
    rcases hrun with hrun | ⟨fault, hrun⟩
    · rw [hrun]
      exact hn'
    · rw [hrun]
      exact hn'.die (o.sound hgoes.sound halive).2 fault

/-- A hardware interrupt leaves a settled node settled, also if its entry fails and kills the core.
-/
theorem Settled.interrupt (ha : n.Settled) (h : n.Sound) (p : Platform) (index : UInt32) :
    (Node.interrupt p index n).2.Settled := by
  rcases interrupt_cases p index n with hrun | ⟨halive, n', e, hrun | ⟨fault, hrun⟩⟩
  · rw [hrun]
    exact ha
  · rw [hrun]
    exact (Outcome.works e).settled ha.wake h.wake.2 (isAlive_wake halive)
  · rw [hrun]
    have hwoken := isAlive_wake halive
    exact ((Outcome.works e).settled ha.wake h.wake.2 hwoken).die (e.goes h.wake.2 hwoken).sound
      fault

/-- Whatever is done with a core keeps its node settled. -/
theorem Settled.perform (ha : n.Settled) (h : n.Sound) (p : Platform) (op : Operation) :
    (op.perform p n).Settled := by
  cases op with
  | boot init =>
    by_cases hs : n.core.state = .reset
    · refine .of_not_halted ?_ ?_ ?_ <;> rw [Operation.perform, core_boot hs]
      · simp
      · rfl
      · rfl
    · rw [Operation.perform, finalState, Node.boot, if_neg hs]
      exact ha
  | restore s =>
    rcases halive : s.state.isAlive with _ | _
    · rw [Operation.perform, restore_of_not_alive p halive]
      exact ha
    by_cases hs : n.core.state = .reset
    · have hs' : s.state ≠ .halted := fun hs' => by
        rw [hs'] at halive
        cases halive
      refine ha.of_sameEnd (by rw [hs]; decide) ?_ ?_ <;>
        rw [Operation.perform, core_restore hs p halive]
      · exact hs'
      · exact ⟨rfl, rfl⟩
    · rw [Operation.perform, finalState, Node.restore, if_pos hs]
      exact ha
  | step => exact ha.step h p
  | interrupt index => exact ha.interrupt h p index
  | suspend => exact ha.suspend
  | wake => exact ha.wake
  | halt code => exact ha.halt h code
  | die fault => exact ha.die h fault

end Node

end Multicore
