import Mathlib.Data.List.Induction
import Multicore.Proofs.Machine.Turns

/-!
# Runs

What holds of one core along a run of operations. A core that is halted stays as it is, and one
that was not started is as new (`Machine.core_eq_new_of_reset`). A core that survives an operation
was not halted before, and `Node.Moves` says what the operation did to its frames and its active
interrupts, if it changed them (`Machine.Survives.moves`). What a core does not keep of its past
can be kept beside the run (`Machine.follow`).
-/

namespace Multicore

open Node

/-! ## Stages -/

namespace Node

variable {n n' : Node PagedMemory}

/-- A core that has started is not brought back to its reset stage by a suspension. -/
theorem started_suspend (hs : n.core.state ≠ .reset) : n.suspend.core.state ≠ .reset := by
  unfold Node.suspend
  split
  · simp
  · exact hs

/-- Nor is it by being woken. -/
theorem started_wake (hs : n.core.state ≠ .reset) : n.wake.core.state ≠ .reset := by
  unfold Node.wake
  split
  · simp
  · exact hs

/-- A core that is halted is not in its reset stage. -/
theorem started_halt (n : Node PagedMemory) (code : UInt32) :
    (n.halt code).core.state ≠ .reset := by
  rw [state_halt]
  nofun

/-- Neither is a core that died. -/
theorem started_die (n : Node PagedMemory) (fault : Fault) :
    (n.die fault).core.state ≠ .reset := by
  rw [state_die]
  nofun

/-- A core that executed an instruction is past its start. -/
theorem Outcome.started {p : Platform} (o : Outcome p n n') (h : n.Sound)
    (halive : n.core.isAlive = true) : n'.core.state ≠ .reset := by
  have hs := Core.ne_reset_of_isAlive halive
  cases o with
  | works e => exact (e.goes h halive).state ▸ hs
  | suspends e f => exact started_suspend ((e.goes h halive).state ▸ hs)
  | halts e code f => exact started_halt _ code

/-- A step never brings a core back to its reset stage. -/
theorem Sound.started_step (h : n.Sound) (p : Platform) (hs : n.core.state ≠ .reset) :
    (Node.step p n).2.core.state ≠ .reset := by
  rcases step_cases p n with ⟨hrun, -⟩ | ⟨hr, n', ho, hrun | ⟨fault, hrun⟩⟩
  · rw [hrun]
    exact hs
  · have hgoes := h.goes_primed p
    rw [hrun]
    exact ho.started hgoes.sound (hgoes.isAlive (isAlive_of_isRunnable hr))
  · rw [hrun]
    exact started_die n' fault

/-- A hardware interrupt never brings a core back to its reset stage. -/
theorem Sound.started_interrupt (h : n.Sound) (p : Platform) (index : UInt32)
    (hs : n.core.state ≠ .reset) : (Node.interrupt p index n).2.core.state ≠ .reset := by
  rcases interrupt_cases p index n with hrun | ⟨ha, n', he, hrun | ⟨fault, hrun⟩⟩
  · rw [hrun]
    exact hs
  · rw [hrun]
    exact (he.goes h.wake.2 (isAlive_wake ha)).state ▸ started_wake hs
  · rw [hrun]
    exact started_die n' fault

end Node

namespace Operation

variable {n : Node PagedMemory}

/-- A halted core stays as it is. -/
theorem perform_of_halted (p : Platform) (h : n.core.state = .halted) (op : Operation) :
    op.perform p n = n := by
  cases op with
  | boot init => simp [perform, Node.boot, finalState, h]
  | restore s => simp [perform, Node.restore, finalState, h]
  | step => simp [perform, Node.step, Core.isRunnable, h]
  | interrupt index => simp [perform, Node.interrupt, Core.isAlive, Lifecycle.isAlive, h]
  | suspend => simp [perform, Node.suspend, h]
  | wake => simp [perform, Node.wake, h]
  | halt code => simp [perform, Node.halt, h]
  | die fault => simp [perform, Node.die, h]

/-- A core takes no turn before its start. -/
theorem perform_of_not_started (p : Platform) (h : n.core.state = .reset) {op : Operation}
    (ht : op.isTurn = true) : op.perform p n = n := by
  cases op with
  | step => simp [perform, Node.step, Core.isRunnable, h]
  | interrupt index => simp [perform, Node.interrupt, Core.isAlive, Lifecycle.isAlive, h]
  | _ => cases ht

/-- A core that was started stays started. -/
theorem started_perform (h : n.Sound) (p : Platform) (hs : n.core.state ≠ .reset)
    (op : Operation) : (op.perform p n).core.state ≠ .reset := by
  cases op with
  | boot init => simp [perform, Node.boot, finalState, hs]
  | restore s => simp [perform, Node.restore, finalState, hs]
  | step => exact h.started_step p hs
  | interrupt index => exact h.started_interrupt p index hs
  | suspend => exact started_suspend hs
  | wake => exact started_wake hs
  | halt code => exact started_halt n code
  | die fault => exact started_die n fault

/-- An operation that leaves a core before its start has not touched it. -/
theorem perform_of_reset (h : n.Sound) (p : Platform) {op : Operation}
    (hs : (op.perform p n).core.state = .reset) : op.perform p n = n := by
  have hreset : n.core.state = .reset :=
    Classical.not_not.1 fun hn => started_perform h p hn op hs
  cases op with
  | boot init => simp [perform, Node.boot, finalState, hreset] at hs
  | restore s =>
    rcases ha : s.state.isAlive with _ | _
    · simp [perform, Node.restore, finalState, hreset, ha]
    · simp [perform, Node.restore, finalState, hreset, ha] at hs
      rw [hs] at ha
      cases ha
  | step => exact perform_of_not_started p hreset rfl
  | interrupt index => exact perform_of_not_started p hreset rfl
  | suspend => simp [perform, Node.suspend, hreset]
  | wake => simp [perform, Node.wake, hreset]
  | halt code => exact absurd hs (started_halt n code)
  | die fault => exact absurd hs (started_die n fault)

end Operation

/-! ## Moves -/

namespace Node

/-- How an operation changes the frames and the active interrupts of a core that survives it. A
frame is taken down only where it left the stack pointer, if frames are checked. -/
inductive Moves (p : Platform) (op : Operation) (n n' : Node PagedMemory) : Prop
  | call {target : Operand} (executes : Executes p n op (.call target))
    (frame : ∃ frame, n'.core.frames = frame :: n.core.frames)
    (active : n'.core.interruptStacks = n.core.interruptStacks)
  | enter {index : UInt32} (raises : Raises p n op index)
    (frame : ∃ frame, n'.core.frames = frame :: n.core.frames)
    (active : ∃ page, n'.core.interruptStacks = page :: n.core.interruptStacks)
  | ret (executes : Executes p n op .ret) (frames : n'.core.frames = n.core.frames.tail)
    (active : n'.core.interruptStacks = n.core.interruptStacks)
    (checked : p.checkFrames = true →
      ∃ frame outer, n.core.frames = frame :: outer ∧ frame.sp = n.core.regs.sp)
  | leave (executes : Executes p n op .retint) (frames : n'.core.frames = n.core.frames.tail)
    (active : ∃ page, n.core.interruptStacks = page :: n'.core.interruptStacks)
    (checked : p.checkFrames = true →
      ∃ frame outer, n.core.frames = frame :: outer ∧ frame.sp = n.core.regs.sp)

variable {p : Platform} {op : Operation} {n n' n₁ n₂ : Node PagedMemory}

/-- A turn that leaves a handler does so from the frame that the core had. -/
theorem Poised.leaves (poised : Poised op n n₁) (run : leaveHandler p n₁ = .ok () n₂)
    (core : ∃ cnt, n'.core = { n₂.core with regs := { n₂.core.regs with cnt } }) :
    n'.core.frames = n.core.frames.tail ∧
      (∃ page, n.core.interruptStacks = page :: n'.core.interruptStacks) ∧
      (p.checkFrames = true →
        ∃ frame outer, n.core.frames = frame :: outer ∧ frame.sp = n.core.regs.sp) := by
  obtain ⟨⟨page, hactive⟩, hframes, n₃, hpop⟩ := stacks_of_leaveHandler run
  obtain ⟨fetched, state, hcore₁⟩ := poised.core
  obtain ⟨cnt, hcore⟩ := core
  have hchecked := fun hc => frame_of_popFrame (p := p) hc hpop
  rw [hcore₁] at hactive hframes hchecked
  rw [hcore]
  exact ⟨hframes, ⟨page, hactive⟩, hchecked⟩

/-- A turn moves the frames and the active interrupts of a core that survives it, or leaves them
alone. -/
theorem Turn.moves (h : Turn p n op n') (ha : n'.core.state ≠ .halted) :
    n.core.SameStacks n'.core ∨ Moves p op n n' := by
  cases h with
  | quiet same _ => exact .inl same
  | call executes frame active _ => exact .inr (.call executes frame active)
  | ret executes frames active _ checked => exact .inr (.ret executes frames active checked)
  | enter raises poised run _ core =>
    obtain ⟨v, -, henters⟩ := poised.enters run core
    obtain ⟨frame, hframe, -⟩ := henters.frame
    exact .inr (.enter raises ⟨frame, hframe⟩ henters.active)
  | leave executes _ poised run _ core =>
    obtain ⟨frames, active, checked⟩ := poised.leaves run core
    exact .inr (.leave executes frames active checked)
  | lost _ halted => exact absurd halted ha

/-- With one more active interrupt, a core that survives its turn has entered a handler. -/
theorem Turn.enters_of_deeper (h : Turn p n op n') (ha : n'.core.state ≠ .halted)
    (hdeeper : n.core.interruptDepth < n'.core.interruptDepth) :
    ∃ index n₁ n₂, Raises p n op index ∧ Poised op n n₁ ∧
      enterHandler p.vectorTable index n₁ = .ok () n₂ ∧ n'.bus = n₂.bus ∧
      ∃ cnt, n'.core = { n₂.core with regs := { n₂.core.regs with cnt } } := by
  have hchanged : n'.core.interruptStacks ≠ n.core.interruptStacks := fun e => by
    rw [Core.interruptDepth, Core.interruptDepth, e] at hdeeper
    omega
  cases h with
  | quiet same _ => exact absurd same.active hchanged
  | call _ _ active _ => exact absurd active hchanged
  | ret _ _ active _ _ => exact absurd active hchanged
  | enter raises poised run bus core => exact ⟨_, _, _, raises, poised, run, bus, core⟩
  | leave _ _ poised run _ core =>
    obtain ⟨-, ⟨page, hactive⟩, -⟩ := poised.leaves run core
    rw [Core.interruptDepth, Core.interruptDepth, hactive, List.length_cons] at hdeeper
    omega
  | lost _ halted => exact absurd halted ha

/-- A frame is recorded by a call, or by the entry of a handler. -/
theorem Moves.records (h : Moves p op n n')
    (hlonger : n.core.frames.length < n'.core.frames.length) :
    ∃ frame, n'.core.frames = frame :: n.core.frames ∧
      ((∃ target, Executes p n op (.call target)) ∧
          n'.core.interruptStacks = n.core.interruptStacks ∨
        (∃ index, Raises p n op index) ∧
          ∃ page, n'.core.interruptStacks = page :: n.core.interruptStacks) := by
  cases h with
  | call executes frame active =>
    obtain ⟨frame, hframe⟩ := frame
    exact ⟨frame, hframe, .inl ⟨⟨_, executes⟩, active⟩⟩
  | enter raises frame active =>
    obtain ⟨frame, hframe⟩ := frame
    exact ⟨frame, hframe, .inr ⟨⟨_, raises⟩, active⟩⟩
  | ret _ frames _ _ =>
    rw [frames, List.length_tail] at hlonger
    omega
  | leave _ frames _ _ =>
    rw [frames, List.length_tail] at hlonger
    omega

/-- Only the innermost frame is taken down, where it left the stack pointer, by a return from a
call or from a handler. -/
theorem Moves.returns (h : Moves p op n n') (hc : p.checkFrames = true)
    (hshorter : n'.core.frames.length < n.core.frames.length) :
    ∃ frame, n.core.frames = frame :: n'.core.frames ∧ frame.sp = n.core.regs.sp ∧
      (Executes p n op .ret ∧ n'.core.interruptStacks = n.core.interruptStacks ∨
        Executes p n op .retint ∧
          ∃ page, n.core.interruptStacks = page :: n'.core.interruptStacks) := by
  cases h with
  | call _ frame _ =>
    obtain ⟨frame, hframe⟩ := frame
    rw [hframe, List.length_cons] at hshorter
    omega
  | enter _ frame _ =>
    obtain ⟨frame, hframe⟩ := frame
    rw [hframe, List.length_cons] at hshorter
    omega
  | ret executes frames active checked =>
    obtain ⟨frame, outer, hframes, hsp⟩ := checked hc
    refine ⟨frame, ?_, hsp, .inl ⟨executes, active⟩⟩
    rw [frames, hframes, List.tail_cons]
  | leave executes frames active checked =>
    obtain ⟨frame, outer, hframes, hsp⟩ := checked hc
    refine ⟨frame, ?_, hsp, .inr ⟨executes, active⟩⟩
    rw [frames, hframes, List.tail_cons]

end Node

namespace Machine

variable {m : Machine PagedMemory} {i : Nat} {n n' : Node PagedMemory}

/-! ## Steps of a run -/

/-- An operation neither adds a core nor takes one away. -/
theorem length_cores_onMachine {β : Type} [PhysicalMemory β] (m : Machine β) (j : Nat)
    (op : Operation) : (op.onMachine m j).cores.length = m.cores.length := by
  unfold Operation.onMachine
  split
  · rfl
  · exact List.length_set

/-- A run neither adds cores nor takes any away. -/
theorem length_cores_runOn {β : Type} [PhysicalMemory β] (m : Machine β)
    (ops : List (Nat × Operation)) : (Operation.runOn m ops).cores.length = m.cores.length := by
  induction ops generalizing m with
  | nil => rfl
  | cons op rest ih => exact (ih _).trans (length_cores_onMachine m op.1 op.2)

/-- Where the node of a core comes from after an operation with some core. -/
theorem exists_node?_of_onMachine (op : Nat × Operation)
    (hn' : (op.2.onMachine m op.1).node? i = some n') :
    ∃ n, m.node? i = some n ∧
      (op.1 = i ∧ n' = op.2.perform m.platform n ∨ op.1 ≠ i ∧ n'.core = n.core) := by
  have hlength := length_cores_onMachine m op.1 op.2
  obtain ⟨hi, -⟩ := List.getElem?_eq_some_iff.1 (node?_eq_some_iff.1 hn').1
  obtain ⟨n, hn⟩ : ∃ n, m.node? i = some n := by
    rw [node?, List.getElem?_eq_getElem (hlength ▸ hi)]
    exact ⟨_, rfl⟩
  refine ⟨n, hn, ?_⟩
  by_cases hi : op.1 = i
  · rw [hi] at hn'
    exact .inl ⟨hi, Option.some.inj (hn'.symm.trans (node?_onMachine_self hn op.2))⟩
  · obtain ⟨k, hk, hcore⟩ := node?_onMachine_of_ne hi hn op.2
    cases hn'.symm.trans hk
    exact .inr ⟨hi, hcore⟩

/-- One more operation at the end of a run is performed on the machine that the run reached. -/
theorem runOn_concat (m : Machine PagedMemory) (ops : List (Nat × Operation))
    (op : Nat × Operation) :
    Operation.runOn m (ops ++ [op]) = op.2.onMachine (Operation.runOn m ops) op.1 :=
  runOn_append m ops [op]

section
variable (p : Platform) (memory : PagedMemory) (cores instructionCapacity dataCapacity : Nat)
  (recording : Bool)

/-- A core that was not started is as new. -/
theorem core_eq_new_of_reset (ops : List (Nat × Operation))
    (hn : (Operation.runOn (Machine.new p memory cores instructionCapacity dataCapacity recording)
      ops).node? i = some n) (hs : n.core.state = .reset) :
    n.core = Core.new i instructionCapacity := by
  induction ops using List.reverseRecOn generalizing n with
  | nil =>
    exact getElem?_cores_new p memory cores instructionCapacity dataCapacity recording
      (node?_eq_some_iff.1 hn).1
  | append_singleton ops op ih =>
    rw [runOn_concat] at hn
    obtain ⟨n₀, hn₀, ⟨-, rfl⟩ | ⟨-, hcore⟩⟩ := exists_node?_of_onMachine _ hn
    · have hsound := ((sound_new p memory cores instructionCapacity dataCapacity recording).runOn
        ops).1.nodes hn₀
      have hsame := Operation.perform_of_reset hsound _ hs
      rw [hsame] at hs ⊢
      exact ih hn₀ hs
    · rw [hcore] at hs ⊢
      exact ih hn₀ hs

end

/-- After some operations, the next one takes a core from one node to another, and the core
survives it. -/
structure Survives (m : Machine PagedMemory) (i : Nat) (ops : List (Nat × Operation))
    (op : Nat × Operation) (n n' : Node PagedMemory) : Prop where
  start : (Operation.runOn m ops).node? i = some n
  finish : (Operation.runOn m (ops ++ [op])).node? i = some n'
  alive : n'.core.state ≠ .halted

/-- A core that is not halted after an operation survived it. -/
theorem exists_survives {ops : List (Nat × Operation)} {op : Nat × Operation}
    (hn' : (Operation.runOn m (ops ++ [op])).node? i = some n')
    (halive : n'.core.state ≠ .halted) : ∃ n, Survives m i ops op n n' := by
  have hfinish := hn'
  rw [runOn_concat] at hfinish
  obtain ⟨n, hn, -⟩ := exists_node?_of_onMachine _ hfinish
  exact ⟨n, hn, hn', halive⟩

section
variable {p : Platform} {memory : PagedMemory} {cores instructionCapacity dataCapacity : Nat}
  {recording : Bool} {ops : List (Nat × Operation)} {op : Nat × Operation}

/-- A core that survives an operation was not halted before. The operation was done with another
core and left it alone, or was done with it. -/
theorem Survives.cases
    (h : Survives (Machine.new p memory cores instructionCapacity dataCapacity recording) i ops op
      n n') :
    n.core.state ≠ .halted ∧ (op.1 ≠ i ∧ n'.core = n.core ∨
      op.1 = i ∧ n' = op.2.perform p n ∧
        (n.core.state = .reset → n.core.frames = [] ∧ n.core.interruptStacks = [])) := by
  have hfinish := h.finish
  rw [runOn_concat] at hfinish
  obtain ⟨n₀, hn₀, hcase⟩ := exists_node?_of_onMachine _ hfinish
  cases hn₀.symm.trans h.start
  rw [platform_runOn] at hcase
  obtain ⟨hi, rfl⟩ | ⟨hi, hcore⟩ := hcase
  · refine ⟨fun hs => ?_, .inr ⟨hi, rfl, fun hs => ?_⟩⟩
    · have halive := h.alive
      rw [Operation.perform_of_halted _ hs] at halive
      exact halive hs
    · rw [core_eq_new_of_reset p memory cores instructionCapacity dataCapacity recording ops hn₀ hs]
      exact ⟨rfl, rfl⟩
  · exact ⟨hcore ▸ h.alive, .inl ⟨hi, hcore⟩⟩

/-- An operation leaves the frames and the active interrupts of a core that survives it alone, or
it is a turn that the core takes. -/
theorem Survives.turn
    (h : Survives (Machine.new p memory cores instructionCapacity dataCapacity recording) i ops op
      n n') :
    n.core.SameStacks n'.core ∨ n.core.isAlive = true ∧ op.1 = i ∧ Turn p n op.2 n' := by
  obtain ⟨hhalted, ⟨-, hcore⟩ | ⟨hi, rfl, hnew⟩⟩ := h.cases
  · exact .inl (hcore ▸ .refl n.core)
  · rcases ht : op.2.isTurn with _ | _
    · exact .inl (Operation.sameStacks ht p hnew)
    · have hturn := Operation.turn ht p n
      cases hs : n.core.state with
      | reset =>
        rw [Operation.perform_of_not_started p hs ht]
        exact .inl (.refl n.core)
      | running => exact .inr ⟨by rw [Core.isAlive, hs]; rfl, hi, hturn⟩
      | suspended => exact .inr ⟨by rw [Core.isAlive, hs]; rfl, hi, hturn⟩
      | halted => exact absurd hs hhalted

/-- An operation leaves the frames and the active interrupts of a core that survives it alone, or
the core moves them. -/
theorem Survives.moves
    (h : Survives (Machine.new p memory cores instructionCapacity dataCapacity recording) i ops op
      n n') : n.core.SameStacks n'.core ∨ op.1 = i ∧ Moves p op.2 n n' := by
  obtain hsame | ⟨-, hi, hturn⟩ := h.turn
  · exact .inl hsame
  · exact (hturn.moves h.alive).imp_right fun hmoves => ⟨hi, hmoves⟩

/-- A core that survives an operation with one more active interrupt was alive and has entered a
handler. -/
theorem Survives.enters
    (h : Survives (Machine.new p memory cores instructionCapacity dataCapacity recording) i ops op
      n n') (hdeeper : n.core.interruptDepth < n'.core.interruptDepth) :
    n.core.isAlive = true ∧ ∃ index n₁ n₂, op.1 = i ∧ Raises p n op.2 index ∧ Poised op.2 n n₁ ∧
      enterHandler p.vectorTable index n₁ = .ok () n₂ ∧ n'.bus = n₂.bus ∧
      ∃ cnt, n'.core = { n₂.core with regs := { n₂.core.regs with cnt } } := by
  obtain hsame | ⟨halive, hi, hturn⟩ := h.turn
  · rw [Core.interruptDepth, Core.interruptDepth, hsame.active] at hdeeper
    exact absurd hdeeper (Nat.lt_irrefl _)
  · obtain ⟨index, n₁, n₂, hentry⟩ := hturn.enters_of_deeper h.alive hdeeper
    exact ⟨halive, index, n₁, n₂, hi, hentry⟩

end

/-! ## Accounts -/

/-- What is kept of a core beside a run, updated with each operation by the core before and after
it. -/
def follow {α : Type} (update : Operation → Core → Core → α → α) (i : Nat)
    (m : Machine PagedMemory) (a : α) : List (Nat × Operation) → α
  | [] => a
  | op :: ops =>
    let m' := op.2.onMachine m op.1
    let a' := match m.node? i, m'.node? i with
      | some n, some n' => update op.2 n.core n'.core a
      | _, _ => a
    follow update i m' a' ops

/-- One more operation at the end of a run updates the account by what it did to the core. -/
theorem follow_concat {α : Type} (update : Operation → Core → Core → α → α) (a : α)
    {ops : List (Nat × Operation)} {op : Nat × Operation}
    (hn : (Operation.runOn m ops).node? i = some n)
    (hn' : (Operation.runOn m (ops ++ [op])).node? i = some n') :
    follow update i m a (ops ++ [op]) = update op.2 n.core n'.core (follow update i m a ops) := by
  induction ops generalizing m a with
  | nil =>
    have hfirst : m.node? i = some n := hn
    have hlast : (op.2.onMachine m op.1).node? i = some n' := hn'
    simp only [List.nil_append, follow, hfirst, hlast]
  | cons first ops ih => exact ih _ hn hn'

end Machine

end Multicore
