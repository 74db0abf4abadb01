import Multicore.Proofs.Core.Ordinary

/-!
# Frames, active interrupts and unprivileged code

What a core does that records no frame and enters no handler, and takes none of them down, leaves
both as they are (`Core.SameStacks`). In unprivileged mode it also leaves the core `Confined`: in
unprivileged mode, in its segments, with hardware interrupts as they were, and with the same active
interrupts. All that is ordinary is `Quiet` in both senses (`Node.tolerant_quiet`), and so is the
end of the life of a core.

The rest says what becomes of the frames and of the active interrupts when a frame is recorded or
taken down and when a handler is entered or left.
-/

namespace Multicore

/-! ## What stays -/

/-- The recorded frames and the active interrupts are the same. -/
structure Core.SameStacks (c c' : Core) : Prop where
  frames : c'.frames = c.frames
  active : c'.interruptStacks = c.interruptStacks

/-- The core stayed unprivileged, with its segments, the delivery of hardware interrupts and its
active interrupts as they were, and its stage too unless it was halted. -/
structure Core.Confined (c c' : Core) : Prop where
  unprivileged : c'.regs.flags.privileged = false
  interruptsEnabled : c'.regs.flags.interruptsEnabled = c.regs.flags.interruptsEnabled
  cs : c'.regs.cs = c.regs.cs
  ds : c'.regs.ds = c.regs.ds
  active : c'.interruptStacks = c.interruptStacks
  stage : c'.state = c.state ∨ c'.state = .halted

/-- The stacks are the same, and unprivileged code stays confined. -/
structure Core.Quiet (c c' : Core) : Prop extends Core.SameStacks c c' where
  confined : c.regs.flags.privileged = false → c.Confined c'

namespace Core

variable {c c' c'' : Core}

theorem SameStacks.refl (c : Core) : c.SameStacks c := ⟨rfl, rfl⟩

/-- Stacks that stay the same twice stay the same. -/
theorem SameStacks.trans (h : c.SameStacks c') (h' : c'.SameStacks c'') : c.SameStacks c'' :=
  ⟨h'.frames.trans h.frames, h'.active.trans h.active⟩

theorem Confined.refl (h : c.regs.flags.privileged = false) : c.Confined c :=
  ⟨h, rfl, rfl, rfl, rfl, .inl rfl⟩

/-- Unprivileged code that is confined twice is confined. If it was halted in between, it stays
halted. -/
theorem Confined.trans (h : c.Confined c') (h' : c'.Confined c'') : c.Confined c'' where
  unprivileged := h'.unprivileged
  interruptsEnabled := h'.interruptsEnabled.trans h.interruptsEnabled
  cs := h'.cs.trans h.cs
  ds := h'.ds.trans h.ds
  active := h'.active.trans h.active
  stage := h'.stage.elim (fun e => e ▸ h.stage) .inr

theorem Quiet.refl (c : Core) : c.Quiet c := ⟨.refl c, .refl⟩

/-- What is quiet may be followed by what is quiet. -/
theorem Quiet.trans (h : c.Quiet c') (h' : c'.Quiet c'') : c.Quiet c'' :=
  ⟨h.toSameStacks.trans h'.toSameStacks, fun hu =>
    (h.confined hu).trans (h'.confined (h.confined hu).unprivileged)⟩

/-- A change that has nothing to do with the frames, the interrupts, the mode and the segments. -/
theorem quiet_of_eq (hframes : c'.frames = c.frames) (hactive : c'.interruptStacks =
    c.interruptStacks) (hregs : c.regs.Plain c'.regs) (hstate : c'.state = c.state) :
    c.Quiet c' := by
  refine ⟨⟨hframes, hactive⟩, fun hu => ?_⟩
  obtain ⟨hpriv, hint, hcs, hds⟩ := hregs hu
  exact ⟨hpriv, hint, hcs, hds, hactive, .inl hstate⟩

end Core

/-- Registers that stay are plain. -/
theorem RegisterFile.Plain.refl (f : RegisterFile) : f.Plain f := fun hu => ⟨hu, rfl, rfl, rfl⟩

namespace Node

variable {β : Type} {n n' : Node β}

/-- The core is the same. -/
abbrev KeepsCore (n n' : Node β) : Prop := n'.core = n.core

/-- The stacks of the core are the same. -/
abbrev KeepsStacks (n n' : Node β) : Prop := n.core.SameStacks n'.core

/-- What happened to the core is quiet. -/
abbrev Quietly (n n' : Node β) : Prop := n.core.Quiet n'.core

/-! ## Computations that leave the core alone -/

/-- What is done on the bus leaves the core alone. -/
theorem core_onBus {α : Type} (x : EStateM Fault (Bus β) α) :
    Does KeepsCore (onBus x) := by
  intro n
  rcases h : x n.bus with ⟨a, bus⟩ | ⟨e, bus⟩
  · rw [finalState_of_ok (onBus_of_ok h)]
  · rw [finalState_of_error (onBus_of_error h)]

/-- To leave the core alone is a closed relation. -/
theorem closed_core : Closed (KeepsCore (β := β)) where
  refl _ := rfl
  trans h h' := h'.trans h

variable [PhysicalMemory β]

/-- An allocation works on the bus only. -/
theorem core_allocatePage (segment : Option UInt32) :
    Does KeepsCore (allocatePage segment : NodeM β UInt32) :=
  closed_core.bind (core_onBus _) fun _ => closed_core.bind (fun _ => rfl) fun _ => fun _ => rfl

/-- A release of a page works on the bus only. -/
theorem core_freePage (page : UInt32) :
    Does KeepsCore (freePage page : NodeM β Unit) := by
  refine closed_core.bind (core_onBus _) fun info => ?_
  have hfree : Does KeepsCore (do
      modify fun n => { n with bus := n.bus.discard (.page page) false }
      onMemory (PhysicalMemory.freePage page) : NodeM β Unit) :=
    closed_core.bind (fun _ => rfl) fun _ => core_onBus _
  exact .ite hfree (closed_core.bind (closed_core.throw _) fun _ => hfree)

/-- A fetch changes nothing of the core but its instruction cache. -/
theorem core_fetch (set : InstructionSet) (a : Address) (n : Node β) :
    ∃ fetched, (finalState (fetch set a) n).core = { n.core with fetched } := by
  unfold finalState
  rcases hrun : fetch set a n with ⟨i, n'⟩ | ⟨fault, n'⟩
  · unfold fetch at hrun
    dsimp only at hrun
    split at hrun <;> cases hrun
    exact ⟨_, rfl⟩
  · unfold fetch at hrun
    dsimp only at hrun
    split at hrun <;> cases hrun
    exact ⟨_, rfl⟩

/-! ## Ordinary things -/

/-- Ordinary things are quiet. -/
theorem tolerant_quiet : Tolerant (Quietly (β := β)) where
  refl n := .refl n.core
  trans := .trans
  mild {n n'} h := by
    cases h with
    | regs f h => exact Core.quiet_of_eq rfl rfl h rfl
    | math s => exact Core.quiet_of_eq rfl rfl (.refl _) rfl
    | load width a => exact .refl n.core
    | store width a v => exact .refl n.core
    | record e => exact .refl n.core
    | tally index count => exact .refl n.core
  allocatePage segment n := by
    show n.core.Quiet _
    rw [core_allocatePage segment n]
    exact .refl n.core
  freePage page n := by
    show n.core.Quiet _
    rw [core_freePage page n]
    exact .refl n.core

/-- A fetch is quiet. -/
theorem quiet_fetch (set : InstructionSet) (a : Address) :
    Does Quietly (fetch set a : NodeM β Instruction) := by
  intro n
  obtain ⟨fetched, hcore⟩ := core_fetch set a n
  show n.core.Quiet _
  rw [hcore]
  exact Core.quiet_of_eq rfl rfl (.refl _) rfl

/-- The selection of an instruction set is quiet. -/
theorem quiet_selectSet (p : Platform) (id : UInt8) :
    Does Quietly (selectSet p id : NodeM β Unit) :=
  tolerant_quiet.selectSet p id fun _ _ => Core.quiet_of_eq rfl rfl (.refl _) rfl

/-- Ordinary things and any change of the registers leave the stacks alone. -/
theorem tolerant_sameStacks : Tolerant (KeepsStacks (β := β)) where
  refl n := .refl n.core
  trans := .trans
  mild h := (tolerant_quiet.mild h).toSameStacks
  allocatePage segment n := (tolerant_quiet.allocatePage segment n).toSameStacks
  freePage page n := (tolerant_quiet.freePage page n).toSameStacks

omit [PhysicalMemory β] in
/-- A change of the registers leaves the stacks. -/
theorem sameStacks_modifyRegs (f : RegisterFile → RegisterFile) :
    Does KeepsStacks (modifyRegs f : NodeM β Unit) :=
  fun _ => ⟨rfl, rfl⟩

/-! ## The end of a life -/

omit [PhysicalMemory β] in
/-- A change of the stage changes nothing else of the core. -/
theorem core_setState (n : Node β) (s : Lifecycle) :
    (n.setState s).core = { n.core with state := s } := by
  unfold setState
  split
  · next h => rw [← h]
  · rfl

omit [PhysicalMemory β] in
/-- A core that is suspended is the same but for its stage. -/
theorem core_suspend (n : Node β) : ∃ state, n.suspend.core = { n.core with state } := by
  unfold suspend
  split
  · exact ⟨.suspended, core_setState n _⟩
  · exact ⟨n.core.state, rfl⟩

omit [PhysicalMemory β] in
/-- A core that is woken is the same but for its stage. -/
theorem core_wake (n : Node β) : ∃ state, n.wake.core = { n.core with state } := by
  unfold wake
  split
  · exact ⟨.running, core_setState n _⟩
  · exact ⟨n.core.state, rfl⟩

/-- A core that is halted is quiet. -/
theorem quiet_halt (n : Node β) (code : UInt32) : n.core.Quiet (n.halt code).core := by
  unfold halt
  split
  · exact .refl n.core
  · refine ⟨⟨?_, ?_⟩, fun hu => ?_⟩
    · simp only [record, core_setState, mapCore]
    · simp only [record, core_setState, mapCore]
    · simp only [record, core_setState, mapCore]
      exact ⟨hu, rfl, rfl, rfl, rfl, .inr rfl⟩

/-- A core that is halted is halted, also if it was before. -/
theorem state_halt (n : Node β) (code : UInt32) : (n.halt code).core.state = .halted := by
  unfold halt
  split
  · next h => exact h
  · simp only [record, core_setState]

/-- A core that dies is quiet. -/
theorem quiet_die (n : Node β) (fault : Fault) : n.core.Quiet (n.die fault).core := by
  unfold die
  split
  · exact .refl n.core
  · refine .trans ?_ (quiet_halt _ 1)
    exact Core.quiet_of_eq rfl rfl (.refl _) rfl

/-- A core that dies is halted, also if it was before. -/
theorem state_die (n : Node β) (fault : Fault) : (n.die fault).core.state = .halted := by
  unfold die
  split
  · next h => exact h
  · exact state_halt _ 1

/-- What is left of a core that dies. -/
theorem core_die {n : Node β} (hs : n.core.state ≠ .halted) (fault : Fault) :
    (n.die fault).core =
      { n.core with state := .halted, exitCode := 1, lastFault := some fault } := by
  have hs' : n.core.state = .halted ↔ False := iff_false_intro hs
  simp only [die, halt, record, core_setState, mapCore, hs', reduceIte]

/-! ## Frames -/

/-- A computation that succeeds has done what is said to the core, and one that fails has been
quiet. -/
def Tries (x : NodeM β Unit) (done : Core → Core → Prop) : Prop :=
  ∀ n, (∃ n', x n = .ok () n' ∧ done n.core n'.core) ∨
    ∃ fault n', x n = .error fault n' ∧ n.core.Quiet n'.core

omit [PhysicalMemory β] in
/-- Something quiet may be done before. -/
theorem Tries.after {α : Type} {x : NodeM β α} {f : α → NodeM β Unit} {done : Core → Core → Prop}
    (hdone : ∀ {c c' c''}, c.Quiet c' → done c' c'' → done c c'')
    (hx : Does Quietly x) (hf : ∀ a, Tries (f a) done) :
    Tries (x >>= f) done := by
  intro n
  have h := hx n
  rcases hrun : x n with ⟨a, n₁⟩ | ⟨fault, n₁⟩
  · rw [finalState_of_ok hrun] at h
    rw [bind_of_ok hrun]
    obtain ⟨n₂, hok, hd⟩ | ⟨fault, n₂, herror, hquiet⟩ := hf a n₁
    · exact .inl ⟨n₂, hok, hdone h hd⟩
    · exact .inr ⟨fault, n₂, herror, h.trans hquiet⟩
  · rw [finalState_of_error hrun] at h
    exact .inr ⟨fault, n₁, bind_of_error hrun, h⟩

/-- A frame was recorded in front of the others, where the stack pointer is. All else is quiet. -/
structure Records (c c' : Core) : Prop where
  frame : ∃ frame, c'.frames = frame :: c.frames ∧ frame.sp = c'.regs.sp
  rest : c.Quiet { c' with frames := c.frames }

/-- The innermost frame was taken down. All else is quiet. -/
structure Takes (c c' : Core) : Prop where
  frames : c'.frames = c.frames.tail
  rest : c.Quiet { c' with frames := c.frames }

/-- A frame may be recorded after something quiet. -/
theorem Records.of_quiet {c c' c'' : Core} (h : c.Quiet c') (h' : Records c' c'') :
    Records c c'' := by
  refine ⟨h.frames ▸ h'.frame, h.trans ?_⟩
  rw [← h.frames]
  exact h'.rest

/-- A frame may be taken down after something quiet. -/
theorem Takes.of_quiet {c c' c'' : Core} (h : c.Quiet c') (h' : Takes c' c'') : Takes c c'' := by
  refine ⟨h.frames ▸ h'.frames, h.trans ?_⟩
  rw [← h.frames]
  exact h'.rest

/-- Setting up a frame records one. -/
theorem pushFrame_tries : Tries (pushFrame : NodeM β Unit) Records := by
  have hR := tolerant_quiet (β := β)
  refine .after .of_quiet hR.getRegs fun regs => .after .of_quiet (hR.push _) fun _ => ?_
  refine .after .of_quiet hR.getRegs fun _ => .after .of_quiet (hR.push _) fun _ n => .inl ?_
  refine ⟨_, rfl, ⟨⟨n.core.regs.cs, n.core.regs.ds, n.core.regs.sp, regs.ip, n.core.regs.sp⟩, rfl,
    rfl⟩, ?_⟩
  exact Core.quiet_of_eq rfl rfl (fun hu => ⟨hu, rfl, rfl, rfl⟩) rfl

/-- Saving the context records a frame. -/
theorem saveContext_tries (ds sp : UInt32) : Tries (saveContext ds sp : NodeM β Unit) Records := by
  have hR := tolerant_quiet (β := β)
  refine .after .of_quiet (hR.push _) fun _ => .after .of_quiet (hR.push _) fun _ => ?_
  refine .after .of_quiet hR.getRegs fun _ => .after .of_quiet (hR.push _) fun _ => ?_
  refine .after .of_quiet hR.getRegs fun _ => .after .of_quiet (hR.push _) fun _ => ?_
  refine .after .of_quiet hR.getRegs fun _ => .after .of_quiet (hR.forM _ hR.push) fun _ => ?_
  exact pushFrame_tries

omit [PhysicalMemory β] in
/-- The check of a frame lets a core pass exactly if its stack pointer is where the innermost frame
left it. -/
theorem checkFrame_cases (n : Node β) :
    (∃ frame outer, n.core.frames = frame :: outer ∧ frame.sp = n.core.regs.sp ∧
      checkFrame n = .ok () n) ∨
    ∃ expected, (∀ frame ∈ n.core.frames.head?, frame.sp = expected ∧ expected ≠ n.core.regs.sp) ∧
      checkFrame n = .error (.invalidFrame expected n.core.regs.sp) n := by
  unfold checkFrame
  rw [getCore_bind]
  rcases hframes : n.core.frames with _ | ⟨frame, outer⟩
  · exact .inr ⟨0, nofun, rfl⟩
  · by_cases hsp : frame.sp = n.core.regs.sp
    · refine .inl ⟨frame, outer, rfl, hsp, ?_⟩
      dsimp only
      rw [if_pos hsp]
      rfl
    · refine .inr ⟨frame.sp, fun f hf => ?_, ?_⟩
      · cases hf
        exact ⟨rfl, hsp⟩
      · dsimp only
        rw [if_neg hsp]
        rfl

/-- What is done once a frame may be taken down. -/
def takeFrame : NodeM β Unit := do
  let fp ← pop
  modifyRegs fun regs => { regs with fp }
  let ip ← pop
  modifyRegs fun regs => { regs with ip }
  modifyCore fun c => { c with frames := c.frames.tail }

/-- Two words are popped, and only then the frame is taken down. -/
theorem takeFrame_tries : Tries (takeFrame : NodeM β Unit) Takes := by
  have hR := tolerant_quiet (β := β)
  refine .after .of_quiet hR.pop fun fp => ?_
  refine .after .of_quiet (hR.modifyRegs _ fun _ hu => ⟨hu, rfl, rfl, rfl⟩) fun _ => ?_
  refine .after .of_quiet hR.pop fun ip => ?_
  refine .after .of_quiet (hR.modifyRegs _ fun _ hu => ⟨hu, rfl, rfl, rfl⟩) fun _ => ?_
  exact fun n => .inl ⟨_, rfl, rfl, .refl n.core⟩

/-- If the check passes, or if checks are off, the frame is taken down. -/
theorem popFrame_of_passed {p : Platform} {n : Node β}
    (h : p.checkFrames = true → checkFrame n = .ok () n) : popFrame p n = takeFrame n := by
  unfold popFrame
  by_cases hc : p.checkFrames = true
  · rw [if_pos hc, bind_of_ok (h hc)]
    rfl
  · rw [if_neg hc]
    rfl

/-- A check that fails ends it before anything is popped. -/
theorem popFrame_of_refused {p : Platform} {n n' : Node β} {fault : Fault}
    (hc : p.checkFrames = true) (h : checkFrame n = .error fault n') :
    popFrame p n = .error fault n' := by
  unfold popFrame
  rw [if_pos hc, bind_of_error h]

/-- Unless it is refused, taking a frame down takes one down. -/
theorem popFrame_tries (p : Platform) : Tries (popFrame p : NodeM β Unit) Takes := by
  intro n
  rcases checkFrame_cases n with ⟨_, _, _, _, hpass⟩ | ⟨expected, _, hrefuse⟩
  · rw [popFrame_of_passed fun _ => hpass]
    exact takeFrame_tries n
  · by_cases hc : p.checkFrames = true
    · exact .inr ⟨_, n, popFrame_of_refused hc hrefuse, .refl n.core⟩
    · rw [popFrame_of_passed fun h => absurd h hc]
      exact takeFrame_tries n

/-- With the checks of frames on, a frame is taken down only where it left the stack pointer. -/
theorem frame_of_popFrame {p : Platform} {n n' : Node β} (hc : p.checkFrames = true)
    (h : popFrame p n = .ok () n') :
    ∃ frame outer, n.core.frames = frame :: outer ∧ frame.sp = n.core.regs.sp := by
  rcases checkFrame_cases n with ⟨frame, outer, hframes, hsp, -⟩ | ⟨expected, -, hrefuse⟩
  · exact ⟨frame, outer, hframes, hsp⟩
  · rw [popFrame_of_refused hc hrefuse] at h
    cases h

/-! ## Handlers -/

/-- The core entered the handler of a vector: it recorded a frame, it has one more active
interrupt, and it is privileged at the entry point of the handler. -/
structure Enters (v : InterruptVector) (c c' : Core) : Prop where
  frame : ∃ frame, c'.frames = frame :: c.frames ∧ frame.sp = c'.regs.sp
  active : ∃ page, c'.interruptStacks = page :: c.interruptStacks
  privileged : c'.regs.flags.privileged = true
  cs : c'.regs.cs = v.cs.toUInt32
  ip : c'.regs.ip = v.ip

/-- A handler may be entered after something quiet. -/
theorem Enters.of_quiet {v : InterruptVector} {c c' c'' : Core} (h : c.Quiet c')
    (h' : Enters v c' c'') : Enters v c c'' :=
  ⟨h.frames ▸ h'.frame, h.active ▸ h'.active, h'.privileged, h'.cs, h'.ip⟩

omit [PhysicalMemory β] in
/-- What succeeds in memory past the data cache replaces the memory and nothing else. -/
theorem of_onMemory_eq_ok {α : Type} {x : EStateM MemoryError β α} {n n' : Node β} {a : α}
    (h : onMemory x n = .ok a n') :
    ∃ memory, x n.bus.memory = .ok a memory ∧ n' = { n with bus := { n.bus with memory } } := by
  unfold onMemory at h
  rcases hx : x n.bus.memory with ⟨b, memory⟩ | ⟨e, memory⟩
  · have hbus : Bus.onMemory x n.bus = .ok b { n.bus with memory } := by rw [Bus.onMemory, hx]
    rw [onBus_of_ok hbus] at h
    cases h
    exact ⟨memory, rfl, rfl⟩
  · have hbus : Bus.onMemory x n.bus = .error (.ofMemory e) { n.bus with memory } := by
      rw [Bus.onMemory, hx]
    rw [onBus_of_error hbus] at h
    cases h

/-- What is done to enter the handler of a vector once it has a stack. -/
def openHandler (index : UInt32) (v : InterruptVector) (sp : UInt32) (page : Option UInt32) :
    NodeM β Unit := do
  let old ← getRegs
  modifyRegs fun regs => { regs with ds := v.ds.toUInt32, sp }
  onFailure (saveContext old.ds old.sp) fun n =>
    let n := n.mapRegs fun regs => { regs with ds := old.ds, sp := old.sp }
    match page with
    | some page => finalState (freePage page) n
    | none => n
  modifyCore fun c => { c with
    interruptStacks := page :: c.interruptStacks
    regs := { c.regs with
      flags := { c.regs.flags with privileged := true }
      cs := v.cs.toUInt32
      ip := v.ip } }
  note fun id => .interrupt id index v

/-- A handler is entered in three parts: its vector is loaded, it gets a stack, and it is opened. -/
theorem enterHandler_eq (table : Address) (index : UInt32) :
    (enterHandler table index : NodeM β Unit) = (do
      let v ← onMemory (PhysicalMemory.loadVector table index)
      let stack ← handlerStack v
      openHandler index v stack.1 stack.2) :=
  rfl

/-- A handler that cannot be opened has failed to save the context. Then the stack of the
interrupted code is put back and the page, if there is one, is freed. -/
theorem openHandler_error_iff {n n' : Node β} {index : UInt32} {v : InterruptVector} {sp : UInt32}
    {page : Option UInt32} {fault : Fault} : openHandler index v sp page n = .error fault n' ↔
    ∃ n₁, saveContext n.core.regs.ds n.core.regs.sp
        (n.mapRegs fun regs => { regs with ds := v.ds.toUInt32, sp }) = .error fault n₁ ∧
      n' = (page.elim id fun page => finalState (freePage page))
        (n₁.mapRegs fun regs => { regs with ds := n.core.regs.ds, sp := n.core.regs.sp }) := by
  have hback : ∀ n₁ : Node β, (match page with
      | some page => finalState (freePage page)
          (n₁.mapRegs fun regs => { regs with ds := n.core.regs.ds, sp := n.core.regs.sp })
      | none => n₁.mapRegs fun regs => { regs with ds := n.core.regs.ds, sp := n.core.regs.sp }) =
      (page.elim id fun page => finalState (freePage page))
        (n₁.mapRegs fun regs => { regs with ds := n.core.regs.ds, sp := n.core.regs.sp }) := by
    intro n₁
    cases page with
    | none => rfl
    | some page => rfl
  unfold openHandler
  rw [getRegs_bind, modifyRegs_bind, bind_eq_error_iff, onFailure_eq_error_iff]
  simp only [hback]
  constructor
  · rintro (hsave | ⟨_, n₁, -, hlast⟩)
    · exact hsave
    · cases hlast
  · exact .inl

/-- After a failure the stack of the interrupted code is back in use. -/
theorem openHandler_tries (index : UInt32) (v : InterruptVector) (sp : UInt32)
    (page : Option UInt32) : Tries (openHandler index v sp page : NodeM β Unit) (Enters v) := by
  intro n
  obtain ⟨n', hok, hframe, hrest⟩ | ⟨fault, n', herror, hquiet⟩ :=
    saveContext_tries n.core.regs.ds n.core.regs.sp
      (n.mapRegs fun regs => { regs with ds := v.ds.toUInt32, sp })
  · unfold openHandler
    rw [getRegs_bind, modifyRegs_bind, bind_of_ok (onFailure_eq_ok_iff.2 hok)]
    refine .inl ⟨_, rfl, hframe, ⟨page, congrArg _ hrest.active⟩, rfl, rfl, rfl⟩
  · have hback : n.core.Quiet (n'.mapRegs fun regs =>
        { regs with ds := n.core.regs.ds, sp := n.core.regs.sp }).core := by
      refine ⟨⟨hquiet.frames, hquiet.active⟩, fun hu => ?_⟩
      have hc := hquiet.confined hu
      exact ⟨hc.unprivileged, hc.interruptsEnabled, hc.cs, rfl, hc.active, hc.stage⟩
    refine .inr ⟨fault, _, openHandler_error_iff.2 ⟨n', herror, rfl⟩, ?_⟩
    cases page with
    | none => exact hback
    | some page => exact hback.trans (tolerant_quiet.freePage page _)

/-- Either the core enters the handler of the vector that memory has, or it has been quiet. -/
theorem enterHandler_cases (table : Address) (index : UInt32) (n : Node β) :
    (∃ n' v memory, enterHandler table index n = .ok () n' ∧
      PhysicalMemory.loadVector table index n.bus.memory = .ok v memory ∧
      Enters v n.core n'.core) ∨
    ∃ fault n', enterHandler table index n = .error fault n' ∧ n.core.Quiet n'.core := by
  rw [enterHandler_eq]
  rcases hv : onMemory (PhysicalMemory.loadVector table index) n with ⟨v, n₁⟩ | ⟨fault, n₁⟩
  · obtain ⟨memory, hload, rfl⟩ := of_onMemory_eq_ok hv
    rw [bind_of_ok hv]
    obtain ⟨n', hok, henters⟩ | hquiet := Tries.after .of_quiet (tolerant_quiet.handlerStack v)
      (fun stack => openHandler_tries index v stack.1 stack.2)
      ({ n with bus := { n.bus with memory } } : Node β)
    · exact .inl ⟨n', v, memory, hok, hload, henters⟩
    · exact .inr hquiet
  · have hcore := core_onBus (Bus.onMemory (PhysicalMemory.loadVector table index)) n
    unfold onMemory at hv
    rw [finalState_of_error hv] at hcore
    exact .inr ⟨fault, n₁, bind_of_error hv, by rw [hcore]; exact .refl _⟩

/-- The page of a handler is freed without the core. -/
theorem core_freeStack (page : Option UInt32) :
    Does KeepsCore (freeStack page : NodeM β Unit) := by
  cases page with
  | none => exact fun _ => rfl
  | some page =>
    refine Does.getCore_bind fun n => closed_core.bind_at (core_onBus _ n) fun _ => ?_
    exact closed_core.bind (core_freePage page) fun _ => fun _ => rfl

/-- A handler that is left takes its frame and its place among the active interrupts along. -/
theorem stacks_of_leaveHandler {p : Platform} {n n' : Node β} (h : leaveHandler p n = .ok () n') :
    (∃ page, n.core.interruptStacks = page :: n'.core.interruptStacks) ∧
      n'.core.frames = n.core.frames.tail ∧ ∃ n₁, popFrame p n = .ok () n₁ := by
  have hR := tolerant_sameStacks (β := β)
  rcases hstacks : n.core.interruptStacks with _ | ⟨page, outer⟩
  · rw [leaveHandler_of_nil p hstacks] at h
    cases h
  · rw [leaveHandler_of_cons p hstacks] at h
    obtain ⟨_, n₁, hframe, h⟩ := of_bind_eq_ok h
    obtain ⟨_, n₂, hcontext, h⟩ := of_bind_eq_ok h
    rw [modifyCore_bind] at h
    have hcore := core_freeStack page (n₂.mapCore fun c => { c with interruptStacks := outer })
    rw [finalState_of_ok h] at hcore
    have hsame := hR.takeContext hR.pop sameStacks_modifyRegs n₁
    rw [finalState_of_ok hcontext] at hsame
    obtain ⟨_, hok, htakes⟩ | ⟨_, _, herror, -⟩ := popFrame_tries p n
    · cases hframe.symm.trans hok
      refine ⟨⟨page, ?_⟩, ?_, n₁, hframe⟩
      · rw [hcore]
        rfl
      · rw [hcore]
        exact hsame.frames.trans htakes.frames
    · cases hframe.symm.trans herror

end Node

end Multicore
