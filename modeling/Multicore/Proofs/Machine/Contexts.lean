import Multicore.Proofs.Core.StackGrowth
import Multicore.Proofs.Machine.Runs

/-!
# Contexts of nested interrupts

Hardware interrupts stay on when a handler is entered, and nothing keeps the stacks of handlers
apart: a vector with a fixed stack pointer has the same stack each time, and a page that the
allocator hands out is cleared. `Machine.activations` keeps the account of the contexts that a core
has saved for its active interrupts. A further entry destroys those and only those that it saves
its own context over or that lie on the page it gets, and no context on a page that is still
allocated (`Machine.contexts_kept_by_entry`); the others can be restored in order. A vector that is
taken again while it is active destroys its own context (`Machine.context_lost_by_reentry`).

What an entry does is `Activation.Opened`, where a handler can be left is `Activation.Returns`, and
leaving one handler after the other is `Activation.Unwinds`.
-/

namespace Multicore

open Node

/-- An active interrupt: where the words of the saved context start, the page of the handler's
stack, if it has one, and the registers and the frames of the interrupted code. -/
structure Activation where
  top : Address
  page : Option UInt32
  regs : RegisterFile
  frames : List Frame

namespace Activation

variable {a b : Activation} {n n' : Node PagedMemory}

/-- The addresses of the words of the saved context. -/
def words (a : Activation) : List Address := a.top.row 36

/-- The words of the saved context are in place. -/
def Intact (a : Activation) (n : Node PagedMemory) : Prop :=
  n.bus.WordsFrom a.top a.regs.context

/-- A handler spares a word: it neither saves its context over the word, nor has the page with the
word. -/
def Spares (a : Activation) (w : Address) : Prop := w ∉ a.words ∧ a.page ≠ some w.page

/-- A handler keeps off an older context: it spares all words of it. -/
def Avoids (a b : Activation) : Prop := ∀ w ∈ b.words, a.Spares w

/-- The active interrupts of a core, innermost first, after an operation. -/
def account (op : Operation) (before after : Core) (active : List Activation) : List Activation :=
  if before.interruptStacks.length < after.interruptStacks.length then
    { top := after.dataAddress after.regs.sp
      page := after.interruptStacks.headD none
      regs := { before.regs with ip := op.ip before.regs.ip }
      frames := before.frames } :: active
  else if after.interruptStacks.length < before.interruptStacks.length then active.tail
  else active

/-- The words of a saved context are aligned. -/
theorem Intact.aligned (h : a.Intact n) {w : Address} (hw : w ∈ a.words) : w % 4 = 0 :=
  Address.aligned_of_mem_row (Bus.aligned_of_refusal h.1.1) hw

/-- A saved context stays in place if its words keep their values. -/
theorem Intact.congr (h : a.Intact n)
    (hcount : n'.bus.memory.pageCount = n.bus.memory.pageCount)
    (hwords : ∀ w ∈ a.words, n'.bus.valueAt w .word = n.bus.valueAt w .word) : a.Intact n' := by
  refine Bus.WordsFrom.congr h (fun b => Bus.refusal_congr hcount b .word) fun k hk _ => ?_
  rw [RegisterFile.length_context] at hk
  exact hwords _ (Address.mem_row_iff.2 ⟨k, hk, rfl⟩)

/-- The core stands where it stood when it entered the innermost handler, with one frame more than
the interrupted code, the contexts that were in place still are, and the page of the handler is
allocated. -/
structure Returns (n : Node PagedMemory) (a : Activation) (rest : List Activation)
    (r : Node PagedMemory) : Prop where
  coherent : r.bus.Coherent
  registered : r.bus.isRegistered r.core.id = true
  pageCount : r.bus.memory.pageCount = n.bus.memory.pageCount
  words : ∀ b ∈ a :: rest, ∀ w ∈ b.words, r.bus.valueAt w .word = n.bus.valueAt w .word
  top : r.top = a.top
  frame : ∃ frame, r.core.frames = frame :: a.frames ∧ frame.sp = r.core.regs.sp
  active : r.core.interruptStacks = (a :: rest).map Activation.page
  page : ∀ q, a.page = some q → q.toNat ∈ r.bus.memory.allocated

/-- The handlers can be left in order, and each time the interrupted code gets back its frames, and
its registers but for the count of instructions. In between, anything may happen that returns to
where the handler was entered. -/
def Unwinds (p : Platform) : List Activation → Node PagedMemory → Prop
  | [], _ => True
  | a :: rest, n => ∀ r, Returns n a rest r → ∃ r', leaveHandler p r = .ok () r' ∧
      r'.core = { r.core with
        regs := { a.regs with cnt := r.core.regs.cnt }
        frames := a.frames
        interruptStacks := rest.map Activation.page } ∧
      Unwinds p rest r'

/-- Contexts that are in place and that the handlers inside of them keep off can be restored in
order. -/
theorem unwinds_of_intact (p : Platform) {active : List Activation}
    (hintact : ∀ a ∈ active, a.Intact n) (havoids : active.Pairwise Avoids) :
    Unwinds p active n := by
  induction active generalizing n with
  | nil => trivial
  | cons a rest ih =>
    intro r hr
    obtain ⟨frame, hframes, hsp⟩ := hr.frame
    have hreturned : ∀ b ∈ a :: rest, b.Intact r := fun b hb =>
      (hintact b hb).congr hr.pageCount (hr.words b hb)
    have hstacked : r.bus.Stacked r.core.id r.top a.regs.context :=
      ⟨hr.coherent, hr.registered, hr.top ▸ hreturned a List.mem_cons_self⟩
    obtain ⟨r', hrun, hcore, -⟩ := leaveHandler_spec p hstacked hframes hsp hr.active hr.page
    obtain ⟨hcount, hspares⟩ := leaveHandler_spares hr.coherent hr.registered hr.active hrun
    obtain ⟨hafter, hrest⟩ := List.pairwise_cons.1 havoids
    refine ⟨r', hrun, hcore, ih (fun b hb => ?_) hrest⟩
    have hb' := hreturned b (List.mem_cons_of_mem a hb)
    exact hb'.congr hcount fun w hw => hspares w (hb'.aligned hw) (hafter b hb w hw).2

/-! ## Entry -/

/-- The core entered a handler: there is one frame more, and the context of the interrupted code is
in place, on the page of the handler if that has one, which was free and is not any more. What the
entry wrote over is only the words of the context and the page. -/
structure Opened (n : Node PagedMemory) (a : Activation) (n' : Node PagedMemory) : Prop where
  coherent : n'.bus.Coherent
  registered : n'.bus.isRegistered n'.core.id = true
  pageCount : n'.bus.memory.pageCount = n.bus.memory.pageCount
  top : n'.top = a.top
  active : n'.core.interruptStacks = a.page :: n.core.interruptStacks
  interrupted : a.frames = n.core.frames
  frame : ∃ frame, n'.core.frames = frame :: n.core.frames ∧ frame.sp = n'.core.regs.sp
  intact : a.Intact n'
  inside : ∀ q, a.page = some q → ∀ w ∈ a.words, w.page = q
  fresh : ∀ q, a.page = some q →
    q.toNat ∉ n.bus.memory.allocated ∧ q.toNat ∈ n'.bus.memory.allocated
  spared : ∀ w : Address, w % 4 = 0 → a.Spares w →
    n'.bus.valueAt w .word = n.bus.valueAt w .word

/-- An operation that enters a handler opens it, on whatever stack that has. -/
theorem opened_of_enterHandler {op : Operation} {n₁ n₂ : Node PagedMemory} {table : Address}
    {index : UInt32} (h : n.bus.Coherent) (hi : n.bus.isRegistered n.core.id = true)
    (poised : Poised op n n₁) (run : enterHandler table index n₁ = .ok () n₂)
    (bus : n'.bus = n₂.bus)
    (core : ∃ cnt, n'.core = { n₂.core with regs := { n₂.core.regs with cnt } })
    (pageCount : n'.bus.memory.pageCount = n.bus.memory.pageCount) :
    ∃ page, Opened n
      ⟨n'.top, page, { n.core.regs with ip := op.ip n.core.regs.ip }, n.core.frames⟩ n' := by
  obtain ⟨fetched, state, hcore₁⟩ := poised.core
  obtain ⟨cnt, hcore⟩ := core
  have hcoherent : n₁.bus.Coherent := poised.bus ▸ h
  have hregistered : n₁.bus.isRegistered n₁.core.id = true := by
    rw [poised.bus, hcore₁]
    exact hi
  obtain ⟨page, hentered⟩ := enterHandler_of_ok hcoherent hregistered run
  obtain ⟨hspares, hinside⟩ :=
    enterHandler_overwrites hcoherent hregistered run hentered.active
  have htop : n'.top = n₂.top := by
    rw [Node.top, Node.top, hcore]
    rfl
  have hframes : n'.core.frames = n₂.core.frames ∧ n₁.core.frames = n.core.frames := by
    rw [hcore, hcore₁]
    exact ⟨rfl, rfl⟩
  -- what the entry left is what the operation left, but for the count of instructions
  refine ⟨page, ⟨bus ▸ hentered.stacked.coherent, ?_, pageCount, rfl, ?_, rfl, ?_, ?_,
    fun q e w hw => hinside q e w (htop ▸ hw), fun q e => ⟨?_, ?_⟩, fun w hw hspares' => ?_⟩⟩
  · rw [bus, hcore]
    exact hentered.stacked.registered
  · rw [hcore]
    show n₂.core.interruptStacks = _
    rw [hentered.active, hcore₁]
  · obtain ⟨frame, hframe, hsp⟩ := hentered.frames
    refine ⟨frame, by rw [hframes.1, hframe, hframes.2], ?_⟩
    rw [hcore]
    exact hsp
  · show n'.bus.WordsFrom n'.top { n.core.regs with ip := op.ip n.core.regs.ip }.context
    have hwords := hentered.stacked.words
    rw [hcore₁] at hwords
    rw [bus, htop]
    exact hwords
  · rw [← poised.bus]
    exact hentered.fresh q e
  · rw [bus, hentered.allocated, mem_withPage_iff]
    exact .inl (congrArg (Option.map UInt32.toNat) e)
  · rw [bus, ← poised.bus]
    exact hspares w hw (htop ▸ hspares'.1) hspares'.2

/-- A context that the new handler keeps off stays in place. -/
theorem Opened.intact_of_avoids (h : Opened n a n') (hb : b.Intact n) (havoids : a.Avoids b) :
    b.Intact n' :=
  hb.congr h.pageCount fun w hw => h.spared w (hb.aligned hw) (havoids w hw)

/-- A handler that gets a page spares every word on a page that was allocated already. -/
theorem Opened.spares_of_allocated (h : Opened n a n') {q : UInt32} (hq : a.page = some q)
    {w : Address} (hw : w.page.toNat ∈ n.bus.memory.allocated) : a.Spares w := by
  have hne : w.page ≠ q := fun e => (h.fresh q hq).1 (e ▸ hw)
  refine ⟨fun ha => hne (h.inside q hq w ha), fun e => hne ?_⟩
  rw [hq] at e
  exact (Option.some.inj e).symm

/-- Right after the entry the core stands where the handler can be left. -/
theorem Opened.returns (h : Opened n a n') {active : List Activation}
    (hactive : active.map Activation.page = n.core.interruptStacks) : Returns n' a active n' where
  coherent := h.coherent
  registered := h.registered
  pageCount := rfl
  words _ _ _ _ := rfl
  top := h.top
  frame := h.interrupted ▸ h.frame
  active := by rw [h.active, List.map_cons, hactive]
  page q hq := (h.fresh q hq).2

end Activation

namespace Machine

/-- The active interrupts of a core after a run, innermost first. -/
def activations (m : Machine PagedMemory) (i : Nat) (ops : List (Nat × Operation)) :
    List Activation :=
  follow Activation.account i m [] ops

variable {i : Nat} {n n' : Node PagedMemory}

section
variable {p : Platform} {memory : PagedMemory} {cores instructionCapacity dataCapacity : Nat}
  {recording : Bool} {ops : List (Nat × Operation)} {op : Nat × Operation}

/-- With one more active interrupt, a core entered a handler. -/
theorem Survives.opened
    (h : Survives (Machine.new p memory cores instructionCapacity dataCapacity recording) i ops op
      n n') (hdeeper : n.core.interruptDepth < n'.core.interruptDepth)
    (active : List Activation) :
    ∃ a, Activation.account op.2 n.core n'.core active = a :: active ∧
      a.regs = { n.core.regs with ip := op.2.ip n.core.regs.ip } ∧ Activation.Opened n a n' := by
  have hsound := ((sound_new p memory cores instructionCapacity dataCapacity recording).runOn
    ops).1.nodes h.start
  obtain ⟨halive, index, n₁, n₂, -, -, poised, run, bus, core⟩ := h.enters hdeeper
  have hcount : n'.bus.memory.pageCount = n.bus.memory.pageCount := by
    obtain ⟨-, ⟨-, hcore⟩ | ⟨-, rfl, -⟩⟩ := h.cases
    · rw [hcore] at hdeeper
      exact absurd hdeeper (Nat.lt_irrefl _)
    · exact (Operation.perform_sound hsound p op.2).1.pageCount
  obtain ⟨page, hopened⟩ := Activation.opened_of_enterHandler hsound.coherent
    (hsound.registered.trans halive) poised run bus core hcount
  refine ⟨_, ?_, rfl, hopened⟩
  have hlonger : n.core.interruptStacks.length < n'.core.interruptStacks.length := hdeeper
  rw [Activation.account, if_pos hlonger, hopened.active]
  rfl

/-- The account is right: there is one activation for each active interrupt, and the words of its
context are aligned and lie on the page of the handler, if that has one. -/
structure Accounted (n : Node PagedMemory) (active : List Activation) : Prop where
  pages : active.map Activation.page = n.core.interruptStacks
  aligned : ∀ a ∈ active, ∀ w ∈ a.words, w % 4 = 0
  inside : ∀ a ∈ active, ∀ q, a.page = some q → ∀ w ∈ a.words, w.page = q

/-- The active interrupts stayed, and so did the account. -/
theorem Accounted.stay {active : List Activation} (hn : Accounted n active)
    (hactive : n'.core.interruptStacks = n.core.interruptStacks) (op : Operation) :
    Accounted n' (Activation.account op n.core n'.core active) := by
  have haccount : Activation.account op n.core n'.core active = active := by
    simp [Activation.account, hactive]
  rw [haccount]
  exact ⟨hn.pages.trans hactive.symm, hn.aligned, hn.inside⟩

/-- The innermost handler was left. -/
theorem Accounted.leave {active : List Activation} (hn : Accounted n active)
    (hactive : ∃ page, n.core.interruptStacks = page :: n'.core.interruptStacks) (op : Operation) :
    Accounted n' (Activation.account op n.core n'.core active) := by
  obtain ⟨page, hactive⟩ := hactive
  have hshorter : n'.core.interruptStacks.length < n.core.interruptStacks.length := by
    rw [hactive, List.length_cons]
    omega
  rw [Activation.account, if_neg (Nat.lt_asymm hshorter), if_pos hshorter]
  refine ⟨?_, fun a ha => hn.aligned a (List.mem_of_mem_tail ha),
    fun a ha => hn.inside a (List.mem_of_mem_tail ha)⟩
  rw [List.map_tail, hn.pages, hactive, List.tail_cons]

/-- A handler was entered. -/
theorem Accounted.enter {a : Activation} {active : List Activation} (hn : Accounted n active)
    (hopened : Activation.Opened n a n') : Accounted n' (a :: active) := by
  refine ⟨?_, List.forall_mem_cons.2 ⟨fun w => hopened.intact.aligned, hn.aligned⟩,
    List.forall_mem_cons.2 ⟨hopened.inside, hn.inside⟩⟩
  rw [List.map_cons, hn.pages, hopened.active]

/-- A core that survives an operation still has the right account. -/
theorem Survives.accounted
    (h : Survives (Machine.new p memory cores instructionCapacity dataCapacity recording) i ops op
      n n') {active : List Activation} (hn : Accounted n active) :
    Accounted n' (Activation.account op.2 n.core n'.core active) := by
  obtain same | ⟨-, hmoves⟩ := h.moves
  · exact hn.stay same.active op.2
  · cases hmoves with
    | call _ _ hactive => exact hn.stay hactive op.2
    | ret _ _ hactive _ => exact hn.stay hactive op.2
    | leave _ _ hactive _ => exact hn.leave hactive op.2
    | enter _ _ hactive =>
      obtain ⟨page, hactive⟩ := hactive
      have hdeeper : n.core.interruptDepth < n'.core.interruptDepth := by
        simp [Core.interruptDepth, hactive]
      obtain ⟨a, haccount, -, hopened⟩ := h.opened hdeeper active
      rw [haccount]
      exact hn.enter hopened

/-- The account of a core that is not halted is right after every run. -/
theorem accounted_of_run
    (hn : (Operation.runOn (Machine.new p memory cores instructionCapacity dataCapacity recording)
      ops).node? i = some n) (halive : n.core.state ≠ .halted) :
    Accounted n (activations (Machine.new p memory cores instructionCapacity dataCapacity recording)
      i ops) := by
  induction ops using List.reverseRecOn generalizing n with
  | nil =>
    have hcore := getElem?_cores_new p memory cores instructionCapacity dataCapacity recording
      (node?_eq_some_iff.1 hn).1
    exact ⟨by rw [hcore]; rfl, fun _ ha => absurd ha List.not_mem_nil,
      fun _ ha => absurd ha List.not_mem_nil⟩
  | append_singleton ops op ih =>
    obtain ⟨n₀, hs⟩ := exists_survives hn halive
    rw [activations, follow_concat Activation.account [] hs.start hs.finish]
    exact hs.accounted (ih hs.start hs.cases.1)

/-- In every state that a machine can reach, a core that enters a further handler destroys no word
of a saved context but those that it saves the new context over and those on the page that the new
handler gets. That page was free, so that a handler that gets one spares every word of a context
that lies on a page still allocated, whichever stack the context was saved on. Right after the entry
the core stands where the new handler can be left. If the contexts are in place and each handler
keeps off those outside of it, the handlers can be left in order, and each time the interrupted code
gets its registers and its frames back. -/
theorem contexts_kept_by_entry
    (h : Survives (Machine.new p memory cores instructionCapacity dataCapacity recording) i ops op
      n n') (hdeeper : n.core.interruptDepth < n'.core.interruptDepth) :
    let m := Machine.new p memory cores instructionCapacity dataCapacity recording
    let active := activations m i ops
    Accounted n active ∧
    ∃ a, activations m i (ops ++ [op]) = a :: active ∧ Accounted n' (a :: active) ∧
      a.top = n'.top ∧ a.regs = { n.core.regs with ip := op.2.ip n.core.regs.ip } ∧
      a.frames = n.core.frames ∧
      (∃ frame, n'.core.frames = frame :: n.core.frames ∧ frame.sp = n'.core.regs.sp) ∧
      n'.core.interruptStacks = a.page :: n.core.interruptStacks ∧ a.Intact n' ∧
      (∀ b ∈ active, ∀ w ∈ b.words, a.Spares w →
        n'.bus.valueAt w .word = n.bus.valueAt w .word) ∧
      (∀ q, a.page = some q →
        q.toNat ∉ n.bus.memory.allocated ∧ q.toNat ∈ n'.bus.memory.allocated ∧
        ∀ b ∈ active, ∀ w ∈ b.words, w.page.toNat ∈ n.bus.memory.allocated → a.Spares w) ∧
      Activation.Returns n' a active n' ∧
      ((∀ b ∈ active, b.Intact n) → (a :: active).Pairwise Activation.Avoids →
        Activation.Unwinds p (a :: active) n') := by
  intro m active
  obtain ⟨a, haccount, hregs, hopened⟩ := h.opened hdeeper active
  have hn : Accounted n active := accounted_of_run h.start h.cases.1
  have hactive : activations m i (ops ++ [op]) = a :: active :=
    (follow_concat Activation.account [] h.start h.finish).trans haccount
  refine ⟨hn, a, hactive, hn.enter hopened, hopened.top.symm, hregs, hopened.interrupted,
    hopened.frame, hopened.active, hopened.intact,
    fun b hb w hw => hopened.spared w (hn.aligned b hb w hw),
    fun q hq => ⟨(hopened.fresh q hq).1, (hopened.fresh q hq).2,
      fun _ _ _ _ => hopened.spares_of_allocated hq⟩,
    hopened.returns hn.pages, fun hintact havoids => Activation.unwinds_of_intact p ?_ havoids⟩
  exact List.forall_mem_cons.2 ⟨hopened.intact, fun b hb =>
    hopened.intact_of_avoids (hintact b hb) ((List.pairwise_cons.1 havoids).1 b hb)⟩

end

/-- In front of a memory of zeros, a core takes the same interrupt twice, each time on a page of its
own. The first context is kept, and the handlers can be left in order. -/
theorem contexts_kept_by_entry_on_pages :
    let m := Machine.new {} (PagedMemory.ofSize 512) 1 4 256 false
    let first := [(0, .boot ⟨0, 0, 512, 32, true⟩), (0, .interrupt 0)]
    ∃ n n', Survives m 0 first (0, .interrupt 0) n n' ∧
      n.core.interruptDepth < n'.core.interruptDepth ∧
      ∃ a b, activations m 0 (first ++ [(0, .interrupt 0)]) = [a, b] ∧ a.page = some 1 ∧
        b.page = some 0 ∧ a.frames.length = 1 ∧
        (∀ w ∈ b.words, n'.bus.valueAt w .word = n.bus.valueAt w .word) ∧
        Activation.Unwinds {} [a, b] n' := by
  intro m first
  obtain ⟨n₀, hn₀, hstacks₀⟩ := exists_node_of_any
    (m := Operation.runOn m [(0, .boot ⟨0, 0, 512, 32, true⟩)]) (i := 0)
    (P := fun n => n.core.interruptStacks = []) (by decide +kernel)
  obtain ⟨n, hn, halive, hstacks, hframes, hallocated⟩ :=
    exists_node_of_any (m := Operation.runOn m first) (i := 0)
      (P := fun n => n.core.state ≠ .halted ∧ n.core.interruptStacks = [some 0] ∧
        n.core.frames.length = 1 ∧ n.bus.memory.allocated.contains 0 = true) (by decide +kernel)
  obtain ⟨n', hn', halive', hstacks'⟩ := exists_node_of_any
    (m := Operation.runOn m (first ++ [(0, .interrupt 0)])) (i := 0)
    (P := fun n => n.core.state ≠ .halted ∧ n.core.interruptStacks = [some 1, some 0])
    (by decide +kernel)
  -- the first entry saves the context that the second has to keep
  have hs₀ : Survives m 0 [(0, .boot ⟨0, 0, 512, 32, true⟩)] (0, .interrupt 0) n₀ n :=
    ⟨hn₀, hn, halive⟩
  have hdeeper₀ : n₀.core.interruptDepth < n.core.interruptDepth := by
    rw [Core.interruptDepth, Core.interruptDepth, hstacks₀, hstacks]
    decide
  obtain ⟨-, b, hb, hcount, -, -, -, -, hentry₀, hintact, -⟩ :=
    contexts_kept_by_entry hs₀ hdeeper₀
  have hs : Survives m 0 first (0, .interrupt 0) n n' := ⟨hn, hn', halive'⟩
  have hdeeper : n.core.interruptDepth < n'.core.interruptDepth := by
    rw [Core.interruptDepth, Core.interruptDepth, hstacks, hstacks']
    decide
  obtain ⟨-, a, hactive, -, -, -, hinterrupted, -, hentry, -, hkept, hpages, -, hunwinds⟩ :=
    contexts_kept_by_entry hs hdeeper
  have hnone : activations m 0 [(0, .boot ⟨0, 0, 512, 32, true⟩)] = [] := by
    have hpages := hcount.pages
    rw [hstacks, List.map_cons] at hpages
    exact List.map_eq_nil_iff.1 (List.cons.inj hpages).2
  rw [hnone] at hb hcount
  have hone : activations m 0 first = [b] := hb
  have ha : a.page = some 1 := by
    rw [hstacks', hstacks] at hentry
    exact (List.cons.inj hentry).1.symm
  have hpage : b.page = some 0 := by
    rw [hstacks, hstacks₀] at hentry₀
    exact (List.cons.inj hentry₀).1.symm
  rw [hone] at hactive hkept hpages hunwinds
  have havoids : a.Avoids b := by
    intro w hw
    refine (hpages 1 ha).2.2 b (List.mem_singleton_self b) w hw ?_
    rw [hcount.inside b (List.mem_singleton_self b) 0 hpage w hw]
    exact Std.TreeSet.mem_iff_contains.2 hallocated
  refine ⟨n, n', hs, hdeeper, a, b, hactive, ha, hpage, hinterrupted ▸ hframes,
    fun w hw => hkept b (List.mem_singleton_self b) w hw (havoids w hw), hunwinds ?_ ?_⟩
  · intro b' hb'
    cases List.mem_singleton.1 hb'
    exact hintact
  · refine List.pairwise_cons.2 ⟨fun b' hb' => ?_, List.pairwise_singleton ..⟩
    cases List.mem_singleton.1 hb'
    exact havoids

/-- Two entries that destroy a context. A vector whose stack pointer is fixed is taken again while
it is active: the second context is saved over the first. A vector without a stack pointer is taken
while the context of another lies on a page that is free: the allocator hands out that very page.
In both runs, a word of the first context loses its value, the stack pointer of the interrupted
code. -/
theorem context_lost_by_reentry :
    let m := Machine.new {}
      ((PagedMemory.ofSize 512).setBytes 0 (bytesOfWords [0, 0, 256, 0, 0, 0])) 1 4 128 false
    let first := [(0, .boot ⟨0, 0, 512, 32, true⟩), (0, .interrupt 0)]
    (∃ n, (Operation.runOn m first).node? 0 = some n ∧ n.core.interruptDepth = 1 ∧
      248 ∈ n.top.row 36 ∧ n.bus.valueAt 248 .word = 512) ∧
    ∀ index ∈ [0, 1], ∃ n, (Operation.runOn m (first ++ [(0, .interrupt index)])).node? 0 = some n ∧
      n.core.state = .running ∧ n.core.interruptDepth = 2 ∧ n.bus.valueAt 248 .word = 112 := by
  intro m first
  refine ⟨exists_node_of_any (by decide +kernel), fun index hindex => ?_⟩
  rcases List.mem_cons.1 hindex with rfl | hindex
  · exact exists_node_of_any (by decide +kernel)
  · cases List.mem_singleton.1 hindex
    exact exists_node_of_any (by decide +kernel)

end Machine

end Multicore
