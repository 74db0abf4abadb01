import Multicore.Proofs.Core.Quiet
import Multicore.Proofs.Machine.Coherence

/-!
# What a turn does to frames and interrupts

A core takes a turn when it executes an instruction or gets a hardware interrupt. Whatever the
instruction, there are six things that a turn can come to (`Node.Turn`): the frames and the active
interrupts stay; a call records a frame; a return takes one down; a handler is entered; a handler
is left; or a handler cannot be left, and the core dies. With the standard instruction sets,
unprivileged code stays confined in the first three, and only privileged code comes to the last
two. An invariant of frames, interrupts or privilege is checked against these six and never
against instructions.
-/

namespace Multicore

open Node

/-- Where the instruction pointer is when an operation gets to the point: a step is past its
instruction then. -/
def Operation.ip : Operation → UInt32 → UInt32
  | .step, ip => ip + 4
  | _, ip => ip

namespace Node

/-- The node where a turn gets to the point: nothing that matters has changed but the instruction
pointer. -/
structure Poised (op : Operation) (n n₁ : Node PagedMemory) : Prop where
  bus : n₁.bus = n.bus
  core : ∃ fetched state,
    n₁.core =
      { n.core with fetched, state, regs := { n.core.regs with ip := op.ip n.core.regs.ip } }

/-- With the standard instruction sets, unprivileged code stays confined. -/
def Guarded (p : Platform) (n n' : Node PagedMemory) : Prop :=
  p.sets = .standard → n.core.regs.flags.privileged = false → n.core.Confined n'.core

/-- An operation executes an instruction of the base dialect: it is a step, and the core fetches
that instruction. -/
inductive Executes (p : Platform) (n : Node PagedMemory) : Operation → Instruction → Prop
  | step {set : InstructionSet} {i : Instruction} {n₁ : Node PagedMemory}
    (hset : p.sets[n.core.activeSet]? = some set) (hruns : set.runs = .base)
    (hfetch : fetch set (n.core.codeAddress n.core.regs.ip) n = .ok i n₁) : Executes p n .step i

/-- An operation raises the interrupt with a number: as a hardware interrupt, or by an instruction
whose number is not taken by a service. -/
inductive Raises (p : Platform) (n : Node PagedMemory) : Operation → UInt32 → Prop
  | hardware (index : UInt32) : Raises p n (.interrupt index) index
  | software {op : Operation} {x : Operand} (executes : Executes p n op (.int x))
    (hnone : p.services[{ n.core.regs with ip := n.core.regs.ip + 4 }.operand x]? = none) :
    Raises p n op ({ n.core.regs with ip := n.core.regs.ip + 4 }.operand x)

/-- An operation executes one instruction. -/
theorem Executes.unique {p : Platform} {n : Node PagedMemory} {op : Operation} {i j : Instruction}
    (hi : Executes p n op i) (hj : Executes p n op j) : i = j := by
  obtain @⟨_, _, _, hset, -, hfetch⟩ := hi
  obtain @⟨_, _, _, hset', -, hfetch'⟩ := hj
  cases hset.symm.trans hset'
  cases hfetch.symm.trans hfetch'
  rfl

/-- An operation raises one interrupt. -/
theorem Raises.unique {p : Platform} {n : Node PagedMemory} {op : Operation} {k l : UInt32}
    (hk : Raises p n op k) (hl : Raises p n op l) : k = l := by
  cases hk with
  | hardware index =>
    cases hl with
    | hardware => rfl
    | software executes _ => cases executes
  | software executes _ =>
    cases hl with
    | hardware => cases executes
    | software executes' _ =>
      cases executes.unique executes'
      rfl

/-- What a turn can come to. -/
inductive Turn (p : Platform) (n : Node PagedMemory) (op : Operation) (n' : Node PagedMemory) :
    Prop
  | quiet (same : n.core.SameStacks n'.core) (guarded : Guarded p n n')
  | call {target : Operand} (executes : Executes p n op (.call target))
    (frame : ∃ frame, n'.core.frames = frame :: n.core.frames)
    (active : n'.core.interruptStacks = n.core.interruptStacks) (guarded : Guarded p n n')
  | ret (executes : Executes p n op .ret) (frames : n'.core.frames = n.core.frames.tail)
    (active : n'.core.interruptStacks = n.core.interruptStacks) (guarded : Guarded p n n')
    (checked : p.checkFrames = true →
      ∃ frame outer, n.core.frames = frame :: outer ∧ frame.sp = n.core.regs.sp)
  | enter {n₁ n₂ : Node PagedMemory} {index : UInt32} (raises : Raises p n op index)
    (poised : Poised op n n₁) (run : enterHandler p.vectorTable index n₁ = .ok () n₂)
    (bus : n'.bus = n₂.bus)
    (core : ∃ cnt, n'.core = { n₂.core with regs := { n₂.core.regs with cnt } })
  | leave {n₁ n₂ : Node PagedMemory} (executes : Executes p n op .retint)
    (privileged : p.sets = .standard → n.core.regs.flags.privileged = true)
    (poised : Poised op n n₁) (run : leaveHandler p n₁ = .ok () n₂) (bus : n'.bus = n₂.bus)
    (core : ∃ cnt, n'.core = { n₂.core with regs := { n₂.core.regs with cnt } })
  | lost (privileged : p.sets = .standard → n.core.regs.flags.privileged = true)
    (halted : n'.core.state = .halted)

variable {p : Platform} {n n' n₁ n₂ : Node PagedMemory}

/-- What is quiet is a turn. -/
theorem Turn.of_quiet {op : Operation} (h : n.core.Quiet n'.core) : Turn p n op n' :=
  .quiet h.toSameStacks fun _ => h.confined

/-- The node after a computation, whose fault kills the core. -/
def concluded : EStateM.Result Fault (Node PagedMemory) Unit → Node PagedMemory
  | .ok _ n => n
  | .error fault n => n.die fault

/-- A running core executes its next instruction, and a fault kills it. -/
theorem step_of_runnable (hr : n.core.isRunnable = true) :
    step p n = (true, concluded (executeNext p n)) := by
  unfold step
  rw [if_pos hr]
  rcases executeNext p n with ⟨_, n'⟩ | ⟨fault, n'⟩
  · rfl
  · rfl

/-- To die is quiet, so that what is quiet stays so when it is concluded. -/
theorem quiet_concluded {x : NodeM PagedMemory Unit}
    (h : n.core.Quiet (finalState x n).core) : n.core.Quiet (concluded (x n)).core := by
  rcases hrun : x n with ⟨⟨⟩, n'⟩ | ⟨fault, n'⟩
  · rw [finalState_of_ok hrun] at h
    exact h
  · rw [finalState_of_error hrun] at h
    exact h.trans (quiet_die n' fault)

/-- What changes nothing but the registers leaves the stacks alone. -/
theorem sameStacks_concluded {x : NodeM PagedMemory Unit}
    (hx : Does KeepsStacks x) (n : Node PagedMemory) :
    n.core.SameStacks (concluded (x n)).core := by
  have h := hx n
  rcases hrun : x n with ⟨⟨⟩, n'⟩ | ⟨fault, n'⟩
  · rw [finalState_of_ok hrun] at h
    exact h
  · rw [finalState_of_error hrun] at h
    exact h.trans (quiet_die n' fault).toSameStacks

/-! ## Instructions -/

/-- The standard instruction sets execute what they read. -/
theorem reads_eq_runs_of_standard {id : UInt8} {set : InstructionSet}
    (h : InstructionSets.standard[id]? = some set) : set.reads = set.runs := by
  simp only [InstructionSets.standard, InstructionSets.ofList, List.foldl,
    Std.TreeMap.getElem?_insert] at h
  split at h
  · cases h
    rfl
  · split at h
    · cases h
      rfl
    · simp at h

/-- Nothing is left to guard where code is privileged. -/
theorem guarded_of_privileged
    (h : p.sets = .standard → n.core.regs.flags.privileged = true) : Guarded p n n' := by
  intro hs hu
  rw [h hs] at hu
  cases hu

/-- A service is quiet. -/
theorem quiet_serve (index : UInt32) (s : Service) :
    Does Quietly (serve index s : NodeM PagedMemory Unit) := by
  have hR := tolerant_quiet (β := PagedMemory)
  cases s with
  | halt => exact hR.bind (hR.read _) fun code n => quiet_halt n code
  | memory => exact hR.serve index _ nofun
  | counter => exact hR.serve index _ nofun
  | refuse => exact hR.serve index _ nofun

/-- An ordinary instruction is quiet. -/
theorem quiet_ordinary {i : Instruction} (hi : i.isOrdinary = true) :
    Does Quietly (execute p .base i : NodeM PagedMemory Unit) :=
  tolerant_quiet.executeBase p (quiet_selectSet p) hi

/-- A software interrupt is raised with the value of its operand. -/
theorem execute_int (p : Platform) (x : Operand) (n : Node PagedMemory) :
    execute p .base (.int x) n = softwareInterrupt p (n.core.regs.operand x) n :=
  rfl

/-- A call records a frame. -/
theorem call_tries (p : Platform) (target : Operand) :
    Tries (executeBase p (.call target) : NodeM PagedMemory Unit) Records := by
  refine .after .of_quiet (tolerant_quiet.jumpTarget target) fun ip n => ?_
  obtain ⟨n', hok, hframe, hrest⟩ | ⟨fault, n', herror, hquiet⟩ := pushFrame_tries n
  · refine .inl ⟨_, bind_of_ok hok, hframe, hrest.trans ?_⟩
    exact Core.quiet_of_eq rfl rfl (fun hu => ⟨hu, rfl, rfl, rfl⟩) rfl
  · exact .inr ⟨fault, n', bind_of_error herror, hquiet⟩

section
variable {d : Dialect} {i : Instruction} (poised : Poised .step n n₁)
  (quiet : n.core.Quiet n₁.core)
include quiet

/-- A step whose instruction is quiet is a quiet turn. -/
theorem turn_of_quiet (hx : n₁.core.Quiet (finalState (execute p d i) n₁).core) :
    Turn p n .step (concluded (retired p d i n₁)) := by
  refine .of_quiet (quiet.trans (quiet_concluded ?_))
  exact tolerant_quiet.bind_at hx fun _ =>
    tolerant_quiet.modifyRegs _ fun _ hu => ⟨hu, rfl, rfl, rfl⟩

/-- A step whose instruction does what it tries, or is quiet, is a turn accordingly. -/
theorem turn_of_tries {done : Core → Core → Prop}
    (hx : Tries (execute p d i : NodeM PagedMemory Unit) done)
    (hdone : ∀ n₂, execute p d i n₁ = .ok () n₂ → done n₁.core n₂.core →
      Turn p n .step (n₂.mapRegs fun regs => { regs with cnt := regs.cnt + 1 })) :
    Turn p n .step (concluded (retired p d i n₁)) := by
  unfold retired
  obtain ⟨n₂, hok, hd⟩ | ⟨fault, n₂, herror, hquiet⟩ := hx n₁
  · rw [bind_of_ok hok]
    exact hdone n₂ hok hd
  · rw [bind_of_error herror]
    exact .of_quiet ((quiet.trans hquiet).trans (quiet_die n₂ fault))

/-- A change of the mode needs privileged code. -/
theorem turn_of_mode (hx : Does KeepsStacks (execute p d i : NodeM PagedMemory Unit))
    (hp : p.sets = .standard → n.core.regs.flags.privileged = true) :
    Turn p n .step (concluded (retired p d i n₁)) := by
  refine .quiet (quiet.toSameStacks.trans (sameStacks_concluded ?_ n₁)) (guarded_of_privileged hp)
  exact tolerant_sameStacks.bind hx fun _ => sameStacks_modifyRegs _

include poised

/-- What the base dialect does in a turn, once the instruction is known to be allowed. -/
theorem turn_executeBase
    (hguard : p.sets = .standard → Dialect.base.isPrivileged i = true →
      n.core.regs.flags.privileged = true)
    (executes : Executes p n .step i) :
    Turn p n .step (concluded (retired p .base i n₁)) := by
  have hR := tolerant_quiet (β := PagedMemory)
  obtain ⟨fetched, state, hcore⟩ := poised.core
  cases i with
  | hlt code =>
    have hhalt : Does Quietly (execute p .base (.hlt code) : NodeM PagedMemory Unit) :=
      hR.bind (hR.operand code) fun code n => quiet_halt n code
    exact turn_of_quiet quiet (hhalt n₁)
  | idle =>
    refine turn_of_mode quiet (fun n => ?_) fun hs => hguard hs rfl
    obtain ⟨state, hcore⟩ := core_suspend n
    show n.core.SameStacks n.suspend.core
    rw [hcore]
    exact ⟨rfl, rfl⟩
  -- a service is quiet, and without one a handler is entered or the core dies
  | int x =>
    have hint := execute_int p x n₁
    rcases hs : p.services[n₁.core.regs.operand x]? with _ | s
    · rw [softwareInterrupt, hs] at hint
      unfold retired
      obtain ⟨n₂, _, _, hok, -, -⟩ | ⟨fault, n₂, herror, hquiet⟩ :=
        enterHandler_cases p.vectorTable (n₁.core.regs.operand x) n₁
      · rw [bind_of_ok (hint.trans hok)]
        have hraises : Raises p n .step (n₁.core.regs.operand x) := by
          rw [hcore] at hs ⊢
          exact .software executes hs
        exact .enter hraises poised hok rfl ⟨_, rfl⟩
      · rw [bind_of_error (hint.trans herror)]
        exact .of_quiet ((quiet.trans hquiet).trans (quiet_die n₂ fault))
    · rw [softwareInterrupt, hs] at hint
      refine turn_of_quiet quiet ?_
      rw [finalState_congr hint]
      exact quiet_serve _ s n₁
  | retint =>
    unfold retired
    rcases hrun : leaveHandler p n₁ with ⟨⟨⟩, n₂⟩ | ⟨fault, n₂⟩
    · have hexec : execute p .base .retint n₁ = .ok () n₂ := hrun
      rw [bind_of_ok hexec]
      exact .leave executes (fun hs => hguard hs rfl) poised hrun rfl ⟨_, rfl⟩
    · have hexec : execute p .base .retint n₁ = .error fault n₂ := hrun
      rw [bind_of_error hexec]
      exact .lost (fun hs => hguard hs rfl) (state_die n₂ fault)
  | call target =>
    refine turn_of_tries quiet (call_tries p target) fun n₂ _ hr => ?_
    obtain ⟨frame, hframe, -⟩ := hr.frame
    refine .call executes ⟨frame, hframe.trans (by rw [quiet.frames])⟩
      (hr.rest.active.trans quiet.active) fun _ hu => ?_
    have hc := (quiet.trans hr.rest).confined hu
    exact ⟨hc.unprivileged, hc.interruptsEnabled, hc.cs, hc.ds, hc.active, hc.stage⟩
  | ret =>
    refine turn_of_tries quiet (popFrame_tries p) fun n₂ hok ht => ?_
    refine .ret executes (ht.frames.trans (by rw [quiet.frames]))
      (ht.rest.active.trans quiet.active) (fun _ hu => ?_) fun hc => ?_
    · have hc := (quiet.trans ht.rest).confined hu
      exact ⟨hc.unprivileged, hc.interruptsEnabled, hc.cs, hc.ds, hc.active, hc.stage⟩
    · obtain ⟨frame, outer, hframes, hsp⟩ := frame_of_popFrame hc hok
      rw [hcore] at hframes hsp
      exact ⟨frame, outer, hframes, hsp⟩
  | cli => exact turn_of_mode quiet (sameStacks_modifyRegs _) fun hs => hguard hs rfl
  | sti => exact turn_of_mode quiet (sameStacks_modifyRegs _) fun hs => hguard hs rfl
  | lpm => exact turn_of_mode quiet (sameStacks_modifyRegs _) fun hs => hguard hs rfl
  | _ => exact turn_of_quiet quiet (quiet_ordinary rfl n₁)

end

/-! ## Turns -/

/-- What is left of a turn once the instruction is known. -/
theorem turn_carryOut {set : InstructionSet} {i : Instruction} {fetched : InstructionCache}
    (hset : p.sets[n.core.activeSet]? = some set)
    (hfetch : fetch set (n.core.codeAddress n.core.regs.ip) n =
      .ok i (n.mapCore fun c => { c with fetched })) :
    Turn p n .step (concluded (carryOut p set n.core.regs.ip i
      (n.mapCore fun c => { c with fetched }))) := by
  by_cases hguard : set.isPrivileged i = true → n.core.regs.flags.privileged = true
  · rw [carryOut_of_allowed (n := n.mapCore fun c => { c with fetched }) hguard]
    have hpoised : Poised .step n
        (begun set n.core.regs.ip i (n.mapCore fun c => { c with fetched })) :=
      ⟨rfl, fetched, n.core.state, rfl⟩
    have hquiet : n.core.Quiet
        (begun set n.core.regs.ip i (n.mapCore fun c => { c with fetched })).core :=
      Core.quiet_of_eq rfl rfl (fun hu => ⟨hu, rfl, rfl, rfl⟩) rfl
    rcases hd : set.runs with _ | _
    · refine turn_executeBase hpoised hquiet (fun hs hp => hguard ?_) (.step hset hd hfetch)
      rw [hs] at hset
      rw [InstructionSet.isPrivileged, reads_eq_runs_of_standard hset, hd]
      exact hp
    · exact turn_of_quiet hquiet (tolerant_quiet.executeMath p (quiet_selectSet p) i _)
  · obtain ⟨hi, hu⟩ := Classical.not_imp.1 hguard
    rw [carryOut_of_refused (n := n.mapCore fun c => { c with fetched }) hi
      (Bool.not_eq_true _ ▸ hu)]
    refine .of_quiet (.trans ?_ (quiet_die _ _))
    exact Core.quiet_of_eq rfl rfl (fun hu => ⟨hu, rfl, rfl, rfl⟩) rfl

/-- A core that executes an instruction takes a turn. -/
theorem turn_step (p : Platform) (n : Node PagedMemory) : Turn p n .step (step p n).2 := by
  rcases hr : n.core.isRunnable with _ | _
  · have hrun : step p n = (false, n) := by
      unfold step
      rw [if_neg (by simp [hr])]
    rw [hrun]
    exact .of_quiet (.refl n.core)
  · rw [step_of_runnable hr]
    rcases hset : p.sets[n.core.activeSet]? with _ | set
    · rw [executeNext_of_none hset]
      exact .of_quiet (quiet_die n _)
    · obtain ⟨fetched, -, hfetch⟩ := fetch_spec set (n.core.codeAddress n.core.regs.ip) n
      rw [executeNext_of_some hset]
      split at hfetch
      · rw [bind_of_ok hfetch]
        exact turn_carryOut hset hfetch
      · rw [bind_of_error hfetch]
        refine .of_quiet (.trans ?_ (quiet_die _ _))
        exact Core.quiet_of_eq rfl rfl (.refl _) rfl

/-- A core that gets a hardware interrupt takes a turn. -/
theorem turn_interrupt (p : Platform) (index : UInt32) (n : Node PagedMemory) :
    Turn p n (.interrupt index) (interrupt p index n).2 := by
  unfold interrupt
  split
  · obtain ⟨state, hcore⟩ := core_wake n
    obtain ⟨n', _, _, hok, -, -⟩ | ⟨fault, n', herror, hquiet⟩ :=
      enterHandler_cases p.vectorTable index n.wake
    · rw [hok]
      refine .enter (.hardware index) ⟨bus_wake n, n.core.fetched, state, hcore⟩ hok rfl ?_
      exact ⟨n'.core.regs.cnt, rfl⟩
    · rw [herror]
      have hdead := hquiet.trans (quiet_die n' fault)
      rw [hcore] at hdead
      refine .quiet ⟨hdead.frames, hdead.active⟩ fun _ hu => ?_
      have hc := hdead.confined hu
      exact ⟨hc.unprivileged, hc.interruptsEnabled, hc.cs, hc.ds, hc.active,
        .inr (state_die n' fault)⟩
  · exact .of_quiet (.refl n.core)

/-- A turn that enters a handler enters that of the vector that memory has for the interrupt. -/
theorem Poised.enters {op : Operation} {index : UInt32} (poised : Poised op n n₁)
    (run : enterHandler p.vectorTable index n₁ = .ok () n₂)
    (core : ∃ cnt, n'.core = { n₂.core with regs := { n₂.core.regs with cnt } }) :
    ∃ v, PhysicalMemory.loadVector p.vectorTable index n.bus.memory = .ok v n.bus.memory ∧
      Enters v n.core n'.core := by
  obtain ⟨_, v, memory, hok, hload, henters⟩ | ⟨_, _, herror, -⟩ :=
    enterHandler_cases p.vectorTable index n₁
  · cases run.symm.trans hok
    obtain ⟨cnt, hcore⟩ := core
    obtain ⟨fetched, state, hcore₁⟩ := poised.core
    have hmemory := PagedMemory.reads_loadVector p.vectorTable index n₁.bus.memory
    rw [finalState_of_ok hload] at hmemory
    rw [poised.bus] at hload hmemory
    rw [hmemory] at hload
    rw [hcore₁] at henters
    rw [hcore]
    exact ⟨v, hload, henters.frame, henters.active, henters.privileged, henters.cs, henters.ip⟩
  · cases run.symm.trans herror

end Node

/-- Whether an operation is a turn of the core: an instruction or a hardware interrupt. -/
def Operation.isTurn : Operation → Bool
  | .step | .interrupt _ => true
  | _ => false

/-- An operation that raises an interrupt is a turn. -/
theorem Node.Raises.isTurn {p : Platform} {n : Node PagedMemory} {op : Operation} {index : UInt32}
    (h : Raises p n op index) : op.isTurn = true := by
  cases h with
  | hardware => rfl
  | software executes _ =>
    cases executes
    rfl

/-- What an operation that is a turn comes to. -/
theorem Operation.turn {op : Operation} (h : op.isTurn = true) (p : Platform)
    (n : Node PagedMemory) : Turn p n op (op.perform p n) := by
  cases op with
  | step => exact turn_step p n
  | interrupt index => exact turn_interrupt p index n
  | _ => cases h

/-- An operation that is not a turn leaves the frames and the active interrupts alone. A core
starts without any. -/
theorem Operation.sameStacks {op : Operation} (h : op.isTurn = false) (p : Platform)
    {n : Node PagedMemory}
    (hnew : n.core.state = .reset → n.core.frames = [] ∧ n.core.interruptStacks = []) :
    n.core.SameStacks (op.perform p n).core := by
  cases op with
  | boot init =>
    by_cases hs : n.core.state = .reset
    · simp only [perform, Node.boot, if_pos hs, finalState, core_setState]
      exact ⟨(hnew hs).1.symm, (hnew hs).2.symm⟩
    · simp only [perform, Node.boot, if_neg hs, finalState]
      exact .refl n.core
  | restore s =>
    by_cases hs : n.core.state = .reset
    · rcases ha : s.state.isAlive with _ | _
      · simp only [perform, Node.restore, hs, ha, finalState]
        exact .refl n.core
      · simp only [perform, Node.restore, ne_eq, hs, ha, not_true_eq_false, reduceIte, finalState,
          core_setState]
        exact ⟨rfl, rfl⟩
    · simp only [perform, Node.restore, ne_eq, hs, not_false_eq_true, reduceIte, finalState]
      exact .refl n.core
  | step => cases h
  | interrupt index => cases h
  | suspend =>
    obtain ⟨state, hcore⟩ := core_suspend n
    show n.core.SameStacks n.suspend.core
    rw [hcore]
    exact ⟨rfl, rfl⟩
  | wake =>
    obtain ⟨state, hcore⟩ := core_wake n
    show n.core.SameStacks n.wake.core
    rw [hcore]
    exact ⟨rfl, rfl⟩
  | halt code => exact (quiet_halt n code).toSameStacks
  | die fault => exact (quiet_die n fault).toSameStacks

end Multicore
