import Multicore.Proofs.Core.Context

/-!
# Nested calls

Code that is well-nested undoes its pushes and calls in the reverse order: it pops what it pushed
last, and it returns from the call that it made last. `Node.WellNested` says which cores such code
reaches, and what is pending there. In between, anything may happen that leaves the stack alone
(`Node.SparesStack`), to this core and to the others.

The invariant is `Node.Unwindable`: the words of what is pending lie on the stack, and the stack
pointer and the frames are where the pending pushes and calls left them. So code like this never
finds its stack spoiled (`Node.nested_calls_unwind`), however deep it nests.
-/

namespace Multicore.Node

/-- A push or a call that is not undone yet, with the core before it. -/
inductive Pending where
  | word (v : UInt32) (c : Core)
  | call (c : Core)

/-- What a push or a call puts on the stack, the top first. -/
def Pending.words : Pending → List UInt32
  | word v _ => [v]
  | call c => [c.regs.fp, c.regs.ip]

/-- The words on the stack, the top first. -/
def stackOf (pending : List Pending) : List UInt32 := pending.flatMap Pending.words

/-- The number of calls that are not returned from. -/
def callDepth : List Pending → Nat
  | [] => 0
  | .word .. :: outer => callDepth outer
  | .call _ :: outer => callDepth outer + 1

/-- What may happen between two uses of the stack: the core keeps its stack pointer, its data
segment and its frames, and the words on its stack are not overwritten. -/
structure SparesStack (pending : List Pending) (n n' : Node PagedMemory) : Prop where
  coherent : n'.bus.Coherent
  registered : n'.bus.isRegistered n'.core.id = true
  pageCount : n'.bus.memory.pageCount = n.bus.memory.pageCount
  ds : n'.core.regs.ds = n.core.regs.ds
  sp : n'.core.regs.sp = n.core.regs.sp
  frames : n'.core.frames = n.core.frames
  words : ∀ k < (stackOf pending).length,
    n'.bus.valueAt (n.top + 4 * UInt32.ofNat k) .word =
      n.bus.valueAt (n.top + 4 * UInt32.ofNat k) .word

/-- Well-nested code that began at `start` has come to a core, where the pushes and calls that it
has not undone yet are pending, the innermost first. -/
inductive WellNested (p : Platform) (start : Node PagedMemory) :
    List Pending → Node PagedMemory → Prop
  | start : WellNested p start [] start
  | push {pending n n'} {v : UInt32} : WellNested p start pending n → push v n = .ok () n' →
      WellNested p start (.word v n.core :: pending) n'
  | call {pending n n'} : WellNested p start pending n → pushFrame n = .ok () n' →
      WellNested p start (.call n.core :: pending) n'
  | pop {pending n n'} {v w : UInt32} {c : Core} : WellNested p start (.word v c :: pending) n →
      pop n = .ok w n' → WellNested p start pending n'
  | ret {pending n n'} {c : Core} : WellNested p start (.call c :: pending) n →
      popFrame p n = .ok () n' → WellNested p start pending n'
  | between {pending n n'} : WellNested p start pending n → SparesStack pending n n' →
      WellNested p start pending n'

variable {p : Platform} {start n n' : Node PagedMemory} {pending outer : List Pending}

/-! ## The invariant -/

/-- Where the stack pointer and the frames of a core are that was `c₀` before all that is
pending. -/
def Left (c₀ : Core) : List Pending → UInt32 → List Frame → Prop
  | [], sp, frames => sp = c₀.regs.sp ∧ frames = c₀.frames
  | .word _ c :: outer, sp, frames =>
    (sp = c.regs.sp - 4 ∧ frames = c.frames) ∧ Left c₀ outer c.regs.sp c.frames
  | .call c :: outer, sp, frames =>
    (sp = c.regs.sp - 8 ∧ ∃ frame, frame.sp = sp ∧ frames = frame :: c.frames) ∧
      Left c₀ outer c.regs.sp c.frames

/-- Each pending call has recorded a frame. -/
theorem Left.length_frames {c₀ : Core} {sp : UInt32} {frames : List Frame}
    (h : Left c₀ pending sp frames) : frames.length = c₀.frames.length + callDepth pending := by
  induction pending generalizing sp frames with
  | nil => rw [h.2, callDepth, Nat.add_zero]
  | cons last outer ih =>
    cases last with
    | word v c =>
      obtain ⟨⟨-, rfl⟩, hrest⟩ := h
      exact ih hrest
    | call c =>
      obtain ⟨⟨-, frame, -, rfl⟩, hrest⟩ := h
      rw [List.length_cons, ih hrest, callDepth, Nat.add_assoc]

/-- All that is pending can be undone. -/
structure Unwindable (start : Node PagedMemory) (pending : List Pending) (n : Node PagedMemory) :
    Prop where
  stacked : n.bus.Stacked n.core.id n.top (stackOf pending)
  left : Left start.core pending n.core.regs.sp n.core.frames

/-- A push is pending after it. -/
theorem Unwindable.push {v : UInt32} (h : Unwindable start pending n)
    (hrun : push v n = .ok () n') : Unwindable start (.word v n.core :: pending) n' := by
  obtain ⟨hcore, -, hstacked⟩ := push_of_stacked h.stacked hrun
  refine ⟨hstacked, ⟨?_, ?_⟩, h.left⟩
  · rw [hcore]
    rfl
  · rw [hcore]
    rfl

/-- A call is pending after it. -/
theorem Unwindable.call (h : Unwindable start pending n) (hrun : pushFrame n = .ok () n') :
    Unwindable start (.call n.core :: pending) n' := by
  obtain ⟨hstacked, -, frame, hsp, hcore⟩ := pushFrame_of_stacked h.stacked hrun
  refine ⟨hstacked, ⟨?_, frame, ?_, ?_⟩, h.left⟩
  · rw [hcore, ← hsp]
  · rw [hcore]
  · rw [hcore]

/-- The word that was pushed last can be popped, and then the stack pointer is where it was. -/
theorem Unwindable.pop {v : UInt32} {c : Core} (h : Unwindable start (.word v c :: outer) n) :
    ∃ n', Node.pop n = .ok v n' ∧ n'.core = moved n.core c.regs.sp ∧ Unwindable start outer n' := by
  obtain ⟨hstacked, ⟨hsp, hframes⟩, hleft⟩ := h
  obtain ⟨n', hrun, hcore, -, hstacked'⟩ := pop_of_stacked hstacked
  rw [hsp, UInt32.sub_add_cancel] at hcore
  refine ⟨n', hrun, hcore, hstacked', ?_⟩
  rw [hcore]
  show Left start.core outer c.regs.sp n.core.frames
  rw [hframes]
  exact hleft

/-- The call that was made last can be returned from, and then the stack pointer, the frame
pointer, the instruction pointer and the frames are as they were before it. -/
theorem Unwindable.ret {c : Core} (h : Unwindable start (.call c :: outer) n) (p : Platform) :
    ∃ n', popFrame p n = .ok () n' ∧
      n'.core = { n.core with
        regs := { n.core.regs with ip := c.regs.ip, fp := c.regs.fp, sp := c.regs.sp }
        frames := c.frames } ∧
      Unwindable start outer n' := by
  obtain ⟨hstacked, ⟨hsp, frame, hframe, hframes⟩, hleft⟩ := h
  obtain ⟨n', hrun, hcore, -, hstacked'⟩ := popFrame_of_stacked p hstacked hframes hframe
  rw [hsp, UInt32.sub_add_cancel] at hcore
  refine ⟨n', hrun, hcore, hstacked', ?_⟩
  rw [hcore]
  exact hleft

/-- What spares the stack leaves all that is pending there. -/
theorem Unwindable.between (h : Unwindable start pending n) (hspares : SparesStack pending n n') :
    Unwindable start pending n' := by
  have htop : n'.top = n.top := by
    rw [top, top, Core.dataAddress, Core.dataAddress, hspares.ds, hspares.sp]
  refine ⟨⟨hspares.coherent, hspares.registered, ?_⟩, ?_⟩
  · rw [htop]
    exact h.stacked.words.congr (fun b => Bus.refusal_congr hspares.pageCount b .word)
      fun k hk _ => hspares.words k hk
  · rw [hspares.sp, hspares.frames]
    exact h.left

/-- Well-nested code can always undo all that is pending. -/
theorem WellNested.unwindable (hn : WellNested p start pending n) (h : start.bus.Coherent)
    (hi : start.bus.isRegistered start.core.id = true) : Unwindable start pending n := by
  induction hn with
  | start => exact ⟨⟨h, hi, trivial⟩, rfl, rfl⟩
  | push _ hrun ih => exact ih.push hrun
  | call _ hrun ih => exact ih.call hrun
  | pop _ hrun ih =>
    obtain ⟨n', hrun', -, hn'⟩ := ih.pop
    cases hrun.symm.trans hrun'
    exact hn'
  | ret _ hrun ih =>
    obtain ⟨n', hrun', -, hn'⟩ := ih.ret p
    cases hrun.symm.trans hrun'
    exact hn'
  | between _ hspares ih => exact ih.between hspares

/-! ## What spares a stack -/

/-- Jumps, computations and all else that only changes other registers. -/
theorem WellNested.regs (hn : WellNested p start pending n) (h : start.bus.Coherent)
    (hi : start.bus.isRegistered start.core.id = true) (f : RegisterFile → RegisterFile)
    (hds : (f n.core.regs).ds = n.core.regs.ds) (hsp : (f n.core.regs).sp = n.core.regs.sp) :
    WellNested p start pending (n.mapRegs f) :=
  have hstacked := (hn.unwindable h hi).stacked
  hn.between ⟨hstacked.coherent, hstacked.registered, rfl, hds, hsp, rfl, fun _ _ => rfl⟩

/-- Loads and stores of any core, as long as no store hits a word on the stack. -/
theorem WellNested.access (hn : WellNested p start pending n) (h : start.bus.Coherent)
    (hi : start.bus.isRegistered start.core.id = true) {i : Nat} {patch : Bus.Patch}
    {bus : Bus PagedMemory} (hw : n.bus.Written i patch bus)
    (hmiss : ∀ k < (stackOf pending).length,
      patch (n.top + 4 * UInt32.ofNat k) = none ∧ patch (n.top + 4 * UInt32.ofNat k + 2) = none) :
    WellNested p start pending { n with bus } := by
  have hstacked := (hn.unwindable h hi).stacked
  refine hn.between ⟨hw.coherent, (hw.isRegistered _).trans hstacked.registered,
    hw.steady.pageCount, rfl, rfl, rfl, fun k hk => ?_⟩
  have heven := Bus.even_of_word (Bus.aligned_of_refusal (hstacked.words.accepted hk))
  obtain ⟨hlo, hhi⟩ := hmiss k hk
  show wordOfHalves (bus.halfAt _) (bus.halfAt _) = _
  rw [hw.halfAt heven.1, hw.halfAt heven.2, hlo, hhi]
  rfl

/-! ## Unwinding -/

/-- With the checks of frames on, a frame is not taken down where its stack pointer is not, and
nothing changes then. Without a frame the stack pointer should have been zero. -/
theorem popFrame_of_misplaced (hc : p.checkFrames = true)
    (hsp : ∀ frame ∈ n.core.frames.head?, frame.sp ≠ n.core.regs.sp) :
    popFrame p n = .error
      (.invalidFrame ((n.core.frames.head?.map Frame.sp).getD 0) n.core.regs.sp) n := by
  refine popFrame_of_refused hc ?_
  unfold checkFrame
  rw [getCore_bind]
  rcases hframes : n.core.frames with _ | ⟨frame, rest⟩
  · rfl
  · dsimp only
    rw [if_neg (hsp frame (by rw [hframes, List.head?_cons, Option.mem_some_iff]))]
    rfl

/-- Nested calls unwind. Wherever well-nested code has come to, there is a frame more than at the
start for each call that is pending, and when nothing is pending, the stack pointer and the frames
are those of the start. The word that was pushed last can be popped, and the call that was made
last can be returned from: the instruction pointer, the frame pointer, the stack pointer and the
frames are then what they were before the call. A frame that is taken down anywhere else is
refused, if frames are checked. -/
theorem nested_calls_unwind (h : start.bus.Coherent)
    (hi : start.bus.isRegistered start.core.id = true) (hn : WellNested p start pending n) :
    n.core.frames.length = start.core.frames.length + callDepth pending ∧
    (pending = [] → n.core.regs.sp = start.core.regs.sp ∧ n.core.frames = start.core.frames) ∧
    (∀ v c outer, pending = .word v c :: outer →
      ∃ n', pop n = .ok v n' ∧ n'.core = moved n.core c.regs.sp) ∧
    (∀ c outer, pending = .call c :: outer →
      ∃ n', popFrame p n = .ok () n' ∧ n'.core = { n.core with
        regs := { n.core.regs with ip := c.regs.ip, fp := c.regs.fp, sp := c.regs.sp }
        frames := c.frames }) ∧
    (p.checkFrames = true → ∀ m : Node PagedMemory,
      (∀ frame ∈ m.core.frames.head?, frame.sp ≠ m.core.regs.sp) →
      popFrame p m = .error
        (.invalidFrame ((m.core.frames.head?.map Frame.sp).getD 0) m.core.regs.sp) m) := by
  have hunwindable := hn.unwindable h hi
  refine ⟨hunwindable.left.length_frames, ?_, ?_, ?_, fun hc m hsp => popFrame_of_misplaced hc hsp⟩
  · rintro rfl
    exact hunwindable.left
  · rintro v c outer rfl
    obtain ⟨n', hrun, hcore, -⟩ := hunwindable.pop
    exact ⟨n', hrun, hcore⟩
  · rintro c outer rfl
    obtain ⟨n', hrun, hcore, -⟩ := hunwindable.ret p
    exact ⟨n', hrun, hcore⟩

/-- A core calls, jumps, pushes a word and calls again. It then is two calls deep, and can return
from the inner one. -/
theorem two_calls_unwind :
    let regs : RegisterFile := { fp := 9, sp := 256, ip := 4 }
    let start : Node PagedMemory :=
      { bus := ({ memory := .ofSize 256, capacity := 128 } : Bus PagedMemory).register 0 0
        core := { Core.new 0 1 with regs } }
    ∃ n middle inner, WellNested {} start [.call inner, .word 7 middle, .call start.core] n ∧
      n.core.frames.length = 2 ∧
      ∃ n', popFrame {} n = .ok () n' ∧ n'.core.regs.ip = 32 ∧ n'.core.frames = inner.frames := by
  intro regs start
  have h : start.bus.Coherent := Bus.coherent_of_one (.ofSize 256) 128 0
  have hi : start.bus.isRegistered start.core.id = true := by decide
  have hok : (match (do
      pushFrame
      modifyRegs fun regs => { regs with ip := 32 }
      push 7
      pushFrame : NodeM PagedMemory Unit) start with
    | .ok .. => true
    | .error .. => false) = true := by decide +kernel
  split at hok
  · next n hrun =>
    obtain ⟨_, n₁, hcall, hrun⟩ := of_bind_eq_ok hrun
    rw [modifyRegs_bind] at hrun
    obtain ⟨_, n₂, hpush, hrun⟩ := of_bind_eq_ok hrun
    have hjumped := ((WellNested.start (p := {})).call hcall).regs h hi
      (fun regs => { regs with ip := 32 }) rfl rfl
    obtain ⟨hcore₂, -⟩ := push_of_stacked (hjumped.unwindable h hi).stacked hpush
    have hn := (hjumped.push hpush).call hrun
    obtain ⟨hdepth, -, -, hret, -⟩ := nested_calls_unwind h hi hn
    obtain ⟨n', hpop, hcore⟩ := hret _ _ rfl
    refine ⟨n, _, _, hn, hdepth, n', hpop, ?_, by rw [hcore]⟩
    rw [hcore, hcore₂]
    rfl
  · cases hok

end Multicore.Node
