import Multicore.Proofs.Machine.Runs

/-!
# Nesting of calls and interrupts

A recorded frame does not say whether a call or the entry of a handler made it, and a return looks
at nothing but the stack pointer. `Machine.makers` follows a run and keeps the account that the
core does not keep: who made each of its frames. The frames of a core are `Core.Nested` if there is
one for each active interrupt, in the order of the entries, and the others come from calls. They
are so along a run exactly if every frame is taken down by the instruction that goes with its maker
(`Machine.nested_iff_matched`), which the stack pointer alone does not ensure
(`Machine.not_nested_of_wrong_return`).
-/

namespace Multicore

open Node

/-- Who made a frame: a call, or the entry of a handler, whose stack may have a page. -/
inductive Maker where
  | call
  | entry (page : Option UInt32)
  deriving DecidableEq

namespace Maker

/-- The active interrupt that goes with a frame. -/
def interrupt? : Maker → Option (Option UInt32)
  | .call => none
  | .entry page => some page

/-- The active interrupts that go with frames. -/
def interrupts (made : List Maker) : List (Option UInt32) := made.filterMap interrupt?

/-- A frame that a call made belongs to no interrupt. -/
@[simp] theorem interrupts_call (made : List Maker) :
    interrupts (.call :: made) = interrupts made :=
  List.filterMap_cons_none rfl

/-- A frame that an entry made belongs to its interrupt. -/
@[simp] theorem interrupts_entry (page : Option UInt32) (made : List Maker) :
    interrupts (.entry page :: made) = page :: interrupts made :=
  List.filterMap_cons_some rfl

/-- The makers of the frames of a core, innermost first, after it came from one state to the next.
A frame that is new was made by an entry if there is a new active interrupt too. -/
def account (before after : Core) (made : List Maker) : List Maker :=
  if before.frames.length < after.frames.length then
    if before.interruptStacks.length < after.interruptStacks.length then
      .entry (after.interruptStacks.headD none) :: made
    else .call :: made
  else if after.frames.length < before.frames.length then made.tail
  else made

/-- If a frame was taken down, an active interrupt went with it exactly if the entry of a handler
had made the frame. -/
def Matched (before after : Core) (made : List Maker) : Prop :=
  after.frames.length < before.frames.length →
    (after.interruptStacks.length < before.interruptStacks.length ↔
      ∃ page, made.head? = some (.entry page))

end Maker

/-- There is one frame for each active interrupt, in the order of the entries, and the other frames
come from calls. -/
structure Core.Nested (c : Core) (made : List Maker) : Prop where
  frames : c.frames.length = made.length
  active : c.interruptStacks = Maker.interrupts made

/-- There are no more active interrupts than frames. -/
theorem Core.Nested.depth_le {c : Core} {made : List Maker} (h : c.Nested made) :
    c.interruptDepth ≤ c.frames.length := by
  rw [interruptDepth, h.active, h.frames]
  exact List.length_filterMap_le ..

/-! ## Returns that are refused -/

namespace Node

variable {p : Platform} {n n' n₁ n₂ : Node PagedMemory}

/-- A return, from a call or from a handler, that finds the stack pointer elsewhere than the
innermost frame left it is refused, and the core dies. -/
theorem step_of_unbalanced {set : InstructionSet} {i : Instruction} (hc : p.checkFrames = true)
    (hr : n.core.isRunnable = true) (hset : p.sets[n.core.activeSet]? = some set)
    (hruns : set.runs = .base)
    (hfetch : fetch set (n.core.codeAddress n.core.regs.ip) n = .ok i n₁)
    (hi : i = .ret ∨ i = .retint)
    (hallowed : set.isPrivileged i = true → n.core.regs.flags.privileged = true)
    (hsp : ∀ frame ∈ n.core.frames.head?, frame.sp ≠ n.core.regs.sp) :
    ∃ expected, (step p n).2 =
      (begun set n.core.regs.ip i n₁).die (.invalidFrame expected n.core.regs.sp) := by
  obtain ⟨fetched, hcore⟩ := core_fetch set (n.core.codeAddress n.core.regs.ip) n
  rw [finalState_of_ok hfetch] at hcore
  have hallowed₁ : set.isPrivileged i = true → n₁.core.regs.flags.privileged = true := by
    rw [hcore]
    exact hallowed
  rw [step_of_runnable hr, executeNext_of_some hset, bind_of_ok hfetch,
    carryOut_of_allowed hallowed₁, hruns]
  generalize hbegun : begun set n.core.regs.ip i n₁ = n₂
  have hcore₂ : n₂.core.frames = n.core.frames ∧ n₂.core.regs.sp = n.core.regs.sp := by
    rw [← hbegun]
    show n₁.core.frames = _ ∧ n₁.core.regs.sp = _
    rw [hcore]
    exact ⟨rfl, rfl⟩
  obtain ⟨expected, hpop⟩ : ∃ expected, popFrame p n₂ =
      .error (.invalidFrame expected n₂.core.regs.sp) n₂ := by
    rcases checkFrame_cases n₂ with ⟨frame, outer, hframes, heq, -⟩ | ⟨expected, -, hrefuse⟩
    · rw [hcore₂.1] at hframes
      rw [hcore₂.2] at heq
      exact absurd heq (hsp frame (by rw [hframes]; rfl))
    · exact ⟨expected, popFrame_of_refused hc hrefuse⟩
  rw [← hcore₂.2]
  -- without an active interrupt, a handler is not left whatever the frame says
  rcases hi with rfl | rfl
  · refine ⟨expected, ?_⟩
    have hexec : execute p .base .ret n₂ = .error (.invalidFrame expected n₂.core.regs.sp) n₂ :=
      hpop
    rw [retired, bind_of_error hexec]
    rfl
  · rcases hstacks : n₂.core.interruptStacks with _ | ⟨page, outer⟩
    · have hexec : execute p .base .retint n₂ = .error (.invalidFrame 0 n₂.core.regs.sp) n₂ :=
        leaveHandler_of_nil p hstacks
      refine ⟨0, ?_⟩
      rw [retired, bind_of_error hexec]
      rfl
    · have hexec : execute p .base .retint n₂ =
          .error (.invalidFrame expected n₂.core.regs.sp) n₂ :=
        (leaveHandler_of_cons p hstacks).trans (bind_of_error hpop)
      refine ⟨expected, ?_⟩
      rw [retired, bind_of_error hexec]
      rfl

end Node

/-! ## The account -/

/-- A frame was recorded, and no interrupt became active. -/
theorem Core.Nested.call {c c' : Core} {made : List Maker} (hn : c.Nested made)
    (hframe : ∃ frame, c'.frames = frame :: c.frames)
    (hactive : c'.interruptStacks = c.interruptStacks) :
    c'.Nested (Maker.account c c' made) ↔ Maker.Matched c c' made := by
  obtain ⟨frame, hframe⟩ := hframe
  have haccount : Maker.account c c' made = .call :: made := by
    simp [Maker.account, hframe, hactive]
  rw [haccount]
  refine iff_of_true ⟨?_, ?_⟩ fun hshort => ?_
  · simp [hframe, hn.frames]
  · rw [hactive, hn.active, Maker.interrupts_call]
  · rw [hframe, List.length_cons] at hshort
    omega

/-- A frame was recorded, and an interrupt became active. -/
theorem Core.Nested.enter {c c' : Core} {made : List Maker} (hn : c.Nested made)
    (hframe : ∃ frame, c'.frames = frame :: c.frames)
    (hactive : ∃ page, c'.interruptStacks = page :: c.interruptStacks) :
    c'.Nested (Maker.account c c' made) ↔ Maker.Matched c c' made := by
  obtain ⟨frame, hframe⟩ := hframe
  obtain ⟨page, hactive⟩ := hactive
  have haccount : Maker.account c c' made = .entry page :: made := by
    simp [Maker.account, hframe, hactive]
  rw [haccount]
  refine iff_of_true ⟨?_, ?_⟩ fun hshort => ?_
  · simp [hframe, hn.frames]
  · rw [hactive, hn.active, Maker.interrupts_entry]
  · rw [hframe, List.length_cons] at hshort
    omega

/-- The innermost frame was taken down. What becomes of the active interrupts decides whether the
frames are still nested, and whether the frame matches. -/
theorem Core.Nested.taken {c c' : Core} {made : List Maker} (hn : c.Nested made) {frame : Frame}
    {outer : List Frame} (hframes : c.frames = frame :: outer) (htail : c'.frames = c.frames.tail) :
    ∃ maker rest, made = maker :: rest ∧ Maker.account c c' made = rest ∧
      (c'.Nested rest ↔ c'.interruptStacks = Maker.interrupts rest) ∧
      (Maker.Matched c c' made ↔ (c'.interruptStacks.length < c.interruptStacks.length ↔
        ∃ page, maker = .entry page)) := by
  have hlength := hn.frames
  rcases made with _ | ⟨maker, rest⟩
  · rw [hframes] at hlength
    cases hlength
  · rw [hframes, List.tail_cons] at htail
    rw [hframes, List.length_cons, List.length_cons, Nat.succ_inj] at hlength
    refine ⟨maker, rest, rfl, ?_, ⟨Core.Nested.active, fun h => ⟨htail ▸ hlength, h⟩⟩, ?_⟩
    · have hshort : ¬ outer.length + 1 < outer.length := by omega
      simp [Maker.account, hframes, htail, hshort]
    · simp [Maker.Matched, hframes, htail]

/-- The frames and the active interrupts stayed, and so did the account. -/
theorem Core.Nested.stay {c c' : Core} {made : List Maker} (hn : c.Nested made)
    (hsame : c.SameStacks c') :
    c'.Nested (Maker.account c c' made) ↔ Maker.Matched c c' made := by
  have haccount : Maker.account c c' made = made := by simp [Maker.account, hsame.frames]
  rw [haccount]
  refine iff_of_true ⟨hsame.frames ▸ hn.frames, hsame.active ▸ hn.active⟩ fun hshort => ?_
  rw [hsame.frames] at hshort
  omega

/-- The account of nested frames is right about the next state exactly if no frame was taken down
that does not match. -/
theorem Node.Moves.nested_iff {p : Platform} {op : Operation} {n n' : Node PagedMemory}
    {made : List Maker} (h : Moves p op n n') (hc : p.checkFrames = true)
    (hn : n.core.Nested made) :
    n'.core.Nested (Maker.account n.core n'.core made) ↔ Maker.Matched n.core n'.core made := by
  cases h with
  | call _ frame active => exact hn.call frame active
  | enter _ frame active => exact hn.enter frame active
  | ret _ frames active checked =>
    obtain ⟨_, _, hframes, -⟩ := checked hc
    obtain ⟨maker, rest, rfl, haccount, hnested, hmatched⟩ := hn.taken hframes frames
    rw [haccount, hnested, hmatched, active, hn.active]
    cases maker with
    | call => simp
    | entry page => simp
  | leave _ frames active checked =>
    obtain ⟨_, _, hframes, -⟩ := checked hc
    obtain ⟨page, active⟩ := active
    obtain ⟨maker, rest, rfl, haccount, hnested, hmatched⟩ := hn.taken hframes frames
    have hrest := hn.active
    rw [active] at hrest
    rw [haccount, hnested, hmatched, active]
    cases maker with
    | call =>
      rw [Maker.interrupts_call] at hrest
      simp [← hrest]
    | entry page =>
      rw [Maker.interrupts_entry] at hrest
      simp [(List.cons.inj hrest).2]

/-! ## Runs -/

namespace Machine

/-- The makers of the frames of a core after a run, innermost first. -/
def makers (m : Machine PagedMemory) (i : Nat) (ops : List (Nat × Operation)) : List Maker :=
  follow (fun _ => Maker.account) i m [] ops

variable {i : Nat} {n n' : Node PagedMemory}

section
variable {p : Platform} {memory : PagedMemory} {cores instructionCapacity dataCapacity : Nat}
  {recording : Bool}

/-- The frames of a core were nested after some operations, and still are after the next one
exactly if that took down no frame that does not match. -/
theorem Survives.nested_iff {ops : List (Nat × Operation)} {op : Nat × Operation}
    (h : Survives (Machine.new p memory cores instructionCapacity dataCapacity recording) i ops op
      n n') (hc : p.checkFrames = true)
    (hn : n.core.Nested (makers (Machine.new p memory cores instructionCapacity dataCapacity
      recording) i ops)) :
    n'.core.Nested (makers (Machine.new p memory cores instructionCapacity dataCapacity recording)
      i (ops ++ [op])) ↔
    Maker.Matched n.core n'.core (makers (Machine.new p memory cores instructionCapacity
      dataCapacity recording) i ops) := by
  rw [makers, follow_concat (fun _ => Maker.account) [] h.start h.finish]
  obtain hsame | ⟨-, hmoves⟩ := h.moves
  · exact hn.stay hsame
  · exact hmoves.nested_iff hc hn

end

/-- In every run with the checks of frames on, the frames of a core that is not halted are nested
as long as every frame is taken down by the instruction that goes with its maker, and no longer.
Frames are recorded by calls and by the entries of handlers, which have an active interrupt each,
and taken down by returns. The check ensures less than a match: the frame that a return takes down
is the innermost one, and the stack pointer is where that frame left it. A return that finds the
stack pointer elsewhere is refused, and the core dies. -/
theorem nested_iff_matched (p : Platform) (memory : PagedMemory)
    (cores instructionCapacity dataCapacity : Nat) (recording : Bool) (i : Nat)
    (ops : List (Nat × Operation)) :
    let q := { p with checkFrames := true }
    let m := Machine.new q memory cores instructionCapacity dataCapacity recording
    ((∀ before n, before <+: ops → (Operation.runOn m before).node? i = some n →
        n.core.state ≠ .halted → n.core.Nested (makers m i before)) ↔
      ∀ before op n n', before ++ [op] <+: ops → Survives m i before op n n' →
        Maker.Matched n.core n'.core (makers m i before)) ∧
    (∀ before op n n', before ++ [op] <+: ops → Survives m i before op n n' →
      (n.core.frames.length < n'.core.frames.length →
        op.1 = i ∧ ∃ frame, n'.core.frames = frame :: n.core.frames ∧
          ((∃ target, Executes q n op.2 (.call target)) ∧
              n'.core.interruptStacks = n.core.interruptStacks ∨
            (∃ index, Raises q n op.2 index) ∧
              ∃ page, n'.core.interruptStacks = page :: n.core.interruptStacks)) ∧
      (n'.core.frames.length < n.core.frames.length →
        op.1 = i ∧ ∃ frame, n.core.frames = frame :: n'.core.frames ∧
          frame.sp = n.core.regs.sp ∧
          (Executes q n op.2 .ret ∧ n'.core.interruptStacks = n.core.interruptStacks ∨
            Executes q n op.2 .retint ∧
              ∃ page, n.core.interruptStacks = page :: n'.core.interruptStacks))) ∧
    ∀ before n set instruction n₁, before ++ [(i, .step)] <+: ops →
      (Operation.runOn m before).node? i = some n → n.core.isRunnable = true →
      q.sets[n.core.activeSet]? = some set → set.runs = .base →
      fetch set (n.core.codeAddress n.core.regs.ip) n = .ok instruction n₁ →
      instruction = .ret ∨ instruction = .retint →
      (set.isPrivileged instruction = true → n.core.regs.flags.privileged = true) →
      (∀ frame ∈ n.core.frames.head?, frame.sp ≠ n.core.regs.sp) →
      ∃ expected, (Operation.runOn m (before ++ [(i, .step)])).node? i =
        some ((begun set n.core.regs.ip instruction n₁).die
          (.invalidFrame expected n.core.regs.sp)) := by
  intro q m
  refine ⟨⟨fun h before op n n' hops hs => ?_, fun h before => ?_⟩,
    fun before op n n' _ hs => ⟨fun hlonger => ?_, fun hshorter => ?_⟩,
    fun before n set instruction n₁ _ hn hr hset hruns hfetch hi hallowed hsp => ?_⟩
  · have hbefore : before <+: ops := (List.prefix_append before [op]).trans hops
    have hn := h before n hbefore hs.start hs.cases.1
    have hn' := h (before ++ [op]) n' hops hs.finish hs.alive
    exact (hs.nested_iff rfl hn).1 hn'
  · induction before using List.reverseRecOn with
    | nil =>
      intro n _ hn _
      rw [getElem?_cores_new _ _ _ _ _ _ (node?_eq_some_iff.1 hn).1]
      exact ⟨rfl, rfl⟩
    | append_singleton before op ih =>
      intro n' hops hn' halive
      obtain ⟨n, hs⟩ := exists_survives hn' halive
      have hnested := ih n ((List.prefix_append before [op]).trans hops) hs.start hs.cases.1
      exact (hs.nested_iff rfl hnested).2 (h before op n n' hops hs)
  · obtain hsame | ⟨hi, hmoves⟩ := hs.moves
    · rw [hsame.frames] at hlonger
      omega
    · exact ⟨hi, hmoves.records hlonger⟩
  · obtain hsame | ⟨hi, hmoves⟩ := hs.moves
    · rw [hsame.frames] at hshorter
      omega
    · exact ⟨hi, hmoves.returns rfl hshorter⟩
  · obtain ⟨expected, hstep⟩ := step_of_unbalanced (p := q) rfl hr hset hruns hfetch hi hallowed hsp
    refine ⟨expected, ?_⟩
    rw [runOn_concat]
    refine (node?_onMachine_self hn .step).trans ?_
    rw [platform_runOn]
    exact congrArg some hstep

/-- Two returns that go with the wrong frame and pass the check. A handler returns as if from a
call right after its entry: no frame is left, and its interrupt is still active. A handler calls
the next instruction, and that leaves the handler: no interrupt is active any more, and a frame is
left. -/
theorem not_nested_of_wrong_return :
    let machine := fun words => Machine.new { checkFrames := true }
      ((PagedMemory.ofSize 512).setBytes 0 (bytesOfWords words)) 1 4 128 false
    let entry := [(0, .boot ⟨0, 0, 256, 32, true⟩), (0, .interrupt 0), (0, .step)]
    (∃ n, (Operation.runOn (machine [0, 12, 512, 6]) entry).node? 0 = some n ∧
      n.core.state = .running ∧ n.core.frames.length = 0 ∧ n.core.interruptDepth = 1) ∧
    ∃ n, (Operation.runOn (machine [0, 12, 512, 0x10005, 4]) (entry ++ [(0, .step)])).node? 0 =
      some n ∧ n.core.state = .running ∧ n.core.frames.length = 1 ∧ n.core.interruptDepth = 0 :=
  ⟨exists_node_of_any (by decide +kernel), exists_node_of_any (by decide +kernel)⟩

end Machine

end Multicore
