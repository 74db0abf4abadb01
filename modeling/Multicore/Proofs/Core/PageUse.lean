import Multicore.Proofs.Core.Atomicity
import Multicore.Proofs.Core.Context
import Multicore.Proofs.Core.Quiet
import Multicore.Proofs.Core.Sound

/-!
# What a core does with pages

There are five things that a core can come to do with pages (`Node.PageUse`): nothing; its guest is
granted a page by the memory service, or frees one; or a handler is entered, with or without a page
for its stack, or left, and its page is freed. An entry that fails has given its page back
(`Node.enterHandler_pages`). An exit that fails has failed before it frees the page
(`Node.leaveHandler_of_error`).
-/

namespace Multicore

open Std

namespace Node

variable {n n' n₁ n₂ : Node PagedMemory} {page : Option UInt32}

/-! ## Changes -/

/-- The same pages are allocated, and the active handlers have the same pages. -/
structure SamePages (n n' : Node PagedMemory) : Prop where
  allocated : ∀ q, q ∈ n'.bus.memory.allocated ↔ q ∈ n.bus.memory.allocated
  active : n'.core.interruptStacks = n.core.interruptStacks

/-- A page that was free is allocated, if one is given. -/
structure Gains (page : Option UInt32) (n n' : Node PagedMemory) : Prop where
  fresh : ∀ p, page = some p → p.toNat ∉ n.bus.memory.allocated
  allocated : ∀ q, q ∈ n'.bus.memory.allocated ↔
    page.map UInt32.toNat = some q ∨ q ∈ n.bus.memory.allocated

/-- If the page that is given was allocated, it is freed. -/
def Loses (page : Option UInt32) (n n' : Node PagedMemory) : Prop :=
  (∀ p, page = some p → p.toNat ∈ n.bus.memory.allocated) →
    ∀ q, q ∈ n'.bus.memory.allocated ↔
      page.map UInt32.toNat ≠ some q ∧ q ∈ n.bus.memory.allocated

/-- What a core does with pages, with the page that its guest is granted and the one that its guest
frees. -/
inductive PageUse (n n' : Node PagedMemory) : (granted freed : Option UInt32) → Prop
  | keeps (same : SamePages n n') : PageUse n n' none none
  | grants {page : UInt32} (gains : Gains (some page) n n')
    (active : n'.core.interruptStacks = n.core.interruptStacks) : PageUse n n' (some page) none
  | frees {page : UInt32} (loses : Loses (some page) n n')
    (active : n'.core.interruptStacks = n.core.interruptStacks) : PageUse n n' none (some page)
  | enters {page : Option UInt32} (gains : Gains page n n')
    (active : n'.core.interruptStacks = page :: n.core.interruptStacks) : PageUse n n' none none
  | leaves {page : Option UInt32} (loses : Loses page n n')
    (active : n.core.interruptStacks = page :: n'.core.interruptStacks) : PageUse n n' none none

theorem SamePages.refl (n : Node PagedMemory) : n.SamePages n := ⟨fun _ => .rfl, rfl⟩

/-- The same pages twice are the same pages. -/
theorem SamePages.trans (h : n.SamePages n₁) (h' : n₁.SamePages n') : n.SamePages n' :=
  ⟨fun q => (h'.allocated q).trans (h.allocated q), h'.active.trans h.active⟩

/-- What keeps the set of allocated pages as it is. -/
theorem SamePages.of_allocated (hallocated : n'.bus.memory.allocated = n.bus.memory.allocated)
    (hactive : n'.core.interruptStacks = n.core.interruptStacks) : n.SamePages n' :=
  ⟨fun q => by rw [hallocated], hactive⟩

/-- A page is gained also if nothing happens to pages before and after. -/
theorem Gains.of_same (h : n.SamePages n₁) (hg : Gains page n₁ n₂) (h' : n₂.SamePages n') :
    Gains page n n' where
  fresh p e hp := hg.fresh p e ((h.allocated _).2 hp)
  allocated q := by rw [h'.allocated, hg.allocated, h.allocated]

/-- A page is lost also if nothing happens to pages before and after. -/
theorem Loses.of_same (h : n.SamePages n₁) (hl : Loses page n₁ n₂) (h' : n₂.SamePages n') :
    Loses page n n' := by
  intro hp q
  rw [h'.allocated, hl (fun p e => (h.allocated _).2 (hp p e)), h.allocated]

/-- Before and after, other things may be done that have nothing to do with pages. -/
theorem PageUse.of_same {granted freed : Option UInt32} (h : n.SamePages n₁)
    (hu : PageUse n₁ n₂ granted freed) (h' : n₂.SamePages n') : PageUse n n' granted freed := by
  cases hu with
  | keeps same => exact .keeps ((h.trans same).trans h')
  | grants gains active =>
    exact .grants (gains.of_same h h') (h'.active.trans (active.trans h.active))
  | frees loses active =>
    exact .frees (loses.of_same h h') (h'.active.trans (active.trans h.active))
  | enters gains active => exact .enters (gains.of_same h h') (by rw [h'.active, active, h.active])
  | leaves loses active =>
    exact .leaves (loses.of_same h h') (by rw [h'.active, ← active, h.active])

/-! ## What has nothing to do with pages -/

/-- An alive core on a sound bus goes on, with the same pages. -/
def KeepsPages (n n' : Node PagedMemory) : Prop :=
  n.Sound → n.core.isAlive = true → n.Goes n' ∧ n.SamePages n'

/-- What changes neither the bus nor the active interrupts keeps the pages. -/
theorem keepsPages_of_bus (hid : n'.core.id = n.core.id) (hstate : n'.core.state = n.core.state)
    (hbus : n'.bus = n.bus) (hactive : n'.core.interruptStacks = n.core.interruptStacks) :
    KeepsPages n n' :=
  fun h _ => ⟨h.goes_of_bus hid hstate hbus, .of_allocated (by rw [hbus]) hactive⟩

/-- To keep the pages is a closed relation. -/
theorem closed_keepsPages : Closed KeepsPages where
  refl _ := keepsPages_of_bus rfl rfl rfl rfl
  trans h h' hs ha := by
    obtain ⟨hgoes, hsame⟩ := h hs ha
    obtain ⟨hgoes', hsame'⟩ := h' hgoes.sound (hgoes.isAlive ha)
    exact ⟨hgoes.trans hgoes', hsame.trans hsame'⟩

/-- Mild effects have nothing to do with pages. -/
theorem lenient_keepsPages : Lenient KeepsPages where
  toClosed := closed_keepsPages
  mild {n n'} h hs ha := by
    refine ⟨(h.effect (p := {})).goes hs ha, ?_⟩
    have hi : n.bus.isRegistered n.core.id = true := hs.registered.trans ha
    cases h with
    | regs f => exact .of_allocated rfl rfl
    | math s => exact .of_allocated rfl rfl
    | load width a =>
      have hw := (Bus.load_spec hs.coherent hi width a).written hs.coherent hi
      exact .of_allocated hw.steady.allocated rfl
    | store width a v =>
      have hw := (Bus.storeAt_spec hs.coherent hi width a v).written hs.coherent hi
      exact .of_allocated hw.steady.allocated rfl
    | record e => exact .of_allocated rfl rfl
    | tally index count => exact .of_allocated rfl rfl

/-- The selection of an instruction set keeps the pages. -/
theorem keepsPages_selectSet (p : Platform) (id : UInt8) :
    Does KeepsPages (selectSet p id : NodeM PagedMemory Unit) :=
  closed_keepsPages.selectSet p id fun _ _ => keepsPages_of_bus rfl rfl rfl rfl

/-- A change of the registers keeps the pages. -/
theorem keepsPages_modifyRegs (f : RegisterFile → RegisterFile) :
    Does KeepsPages (modifyRegs f : NodeM PagedMemory Unit) :=
  fun _ => keepsPages_of_bus rfl rfl rfl rfl

/-- A frame that is recorded keeps the pages. -/
theorem keepsPages_pushFrame : Does KeepsPages (pushFrame : NodeM PagedMemory Unit) := by
  have hR := lenient_keepsPages
  refine hR.bind hR.getRegs fun regs => hR.bind (hR.push _) fun _ => ?_
  refine hR.bind hR.getRegs fun regs' => hR.bind (hR.push _) fun _ n => ?_
  exact keepsPages_of_bus rfl rfl rfl rfl

/-- A frame that is taken down keeps the pages. -/
theorem keepsPages_popFrame (p : Platform) :
    Does KeepsPages (popFrame p : NodeM PagedMemory Unit) :=
  lenient_keepsPages.popFrame p lenient_keepsPages.pop (fun _ => keepsPages_modifyRegs _)
    (fun _ => keepsPages_modifyRegs _) fun _ => keepsPages_of_bus rfl rfl rfl rfl

/-- Take a saved context off the stack, with its frame first. -/
def restoreContext {β : Type} [PhysicalMemory β] (p : Platform) : NodeM β Unit := do
  popFrame p
  takeContext

/-- A context is taken off the stack before its page is freed. -/
theorem keepsPages_restoreContext (p : Platform) :
    Does KeepsPages (restoreContext p : NodeM PagedMemory Unit) :=
  lenient_keepsPages.bind (keepsPages_popFrame p) fun _ =>
    lenient_keepsPages.takeContext lenient_keepsPages.pop keepsPages_modifyRegs

/-! ## The life of a core -/

/-- A change of the stage leaves the pages. -/
theorem samePages_setState (n : Node PagedMemory) (s : Lifecycle) : n.SamePages (n.setState s) :=
  .of_allocated (by rw [setState_bus]) (by rw [core_setState])

/-- To suspend a core leaves the pages. -/
theorem samePages_suspend (n : Node PagedMemory) : n.SamePages n.suspend := by
  unfold Node.suspend
  split
  · exact samePages_setState n _
  · exact .refl n

/-- To wake a core leaves the pages. -/
theorem samePages_wake (n : Node PagedMemory) : n.SamePages n.wake := by
  unfold Node.wake
  split
  · exact samePages_setState n _
  · exact .refl n

/-- A flush writes to memory and leaves the pages, so that those of a halted core stay allocated. -/
theorem Sound.samePages_halt (h : n.Sound) (code : UInt32) : n.SamePages (n.halt code) := by
  refine ⟨fun q => ?_, (quiet_halt n code).active⟩
  by_cases hs : n.core.state = .halted
  · rw [Node.halt, if_pos hs]
  · have hbus : (n.halt code).bus =
        (finalState (Bus.flush n.core.id) n.bus).unregister n.core.id := by
      simp only [Node.halt, if_neg hs, record, setState_bus, mapCore]
    rw [hbus]
    show q ∈ (finalState (Bus.flush n.core.id) n.bus).memory.allocated ↔ _
    rw [(h.flush hs).steady.allocated]

/-- A core that dies leaves its pages allocated too. -/
theorem Sound.samePages_die (h : n.Sound) (fault : Fault) : n.SamePages (n.die fault) := by
  unfold Node.die
  split
  · exact .refl n
  · have hnoted : n.Goes ((n.record (.fault n.core.id n.core.regs.ip fault)).mapCore
        fun c => { c with lastFault := some fault }) := h.goes_of_bus rfl rfl rfl
    have hsame := hnoted.sound.samePages_halt 1
    exact ⟨hsame.allocated, hsame.active⟩

/-! ## Handlers -/

/-- Entering a handler takes a page or none. An entry that fails has given its page back. -/
theorem enterHandler_pages (h : n.Sound) (ha : n.core.isAlive = true) (table : Address)
    (index : UInt32) :
    (∃ n' page, enterHandler table index n = .ok () n' ∧ Gains page n n' ∧
      n'.core.interruptStacks = page :: n.core.interruptStacks) ∨
    ∃ fault n', enterHandler table index n = .error fault n' ∧ n'.Sound ∧ n.SamePages n' := by
  obtain ⟨n', -, -, hrun, -, -⟩ | ⟨fault, n', hrun, hquiet⟩ := enterHandler_cases table index n
  · obtain ⟨page, hentered⟩ := enterHandler_of_ok h.coherent (h.registered.trans ha) hrun
    refine .inl ⟨n', page, hrun, ⟨hentered.fresh, fun q => ?_⟩, hentered.active⟩
    rw [hentered.allocated, mem_withPage_iff]
  · have hgoes := (works_enterHandler (p := {}) table index n).goes h ha
    rw [finalState_of_error hrun] at hgoes
    refine .inr ⟨fault, n', hrun, hgoes.sound, fun q => ?_, hquiet.active⟩
    rw [TreeSet.mem_iff_contains, (pages_of_enterHandler_error hrun).2, TreeSet.mem_iff_contains]

/-- A handler is left by taking its context off the stack, and then freeing the stack. -/
theorem leaveHandler_eq (p : Platform) {outer : List (Option UInt32)}
    (hstacks : n.core.interruptStacks = page :: outer) :
    leaveHandler p n = (do
      restoreContext p
      modifyCore fun c => { c with interruptStacks := outer }
      freeStack page : NodeM PagedMemory Unit) n := by
  rw [leaveHandler_of_cons p hstacks, restoreContext, bind_assoc]

/-- The page of a handler's stack is freed, if it was allocated. -/
theorem loses_freeStack (h : n.Sound) (ha : n.core.isAlive = true) (page : Option UInt32) :
    Loses page n (finalState (freeStack page) n) := by
  intro hpage q
  obtain ⟨n', hrun, -, hallocated⟩ := freeStack_spec h.coherent (h.registered.trans ha) page hpage
  have hfree : freeStack page n = .ok () n' := hrun
  rw [finalState_of_ok hfree, hallocated, mem_withoutPage_iff]

/-- Leaving a handler frees its page. An exit that fails before that has kept the page. -/
theorem leaveHandler_pages (h : n.Sound) (ha : n.core.isAlive = true) (p : Platform) :
    PageUse n (finalState (leaveHandler p) n) none none := by
  rcases hstacks : n.core.interruptStacks with _ | ⟨page, outer⟩
  · rw [finalState_of_error (leaveHandler_of_nil p hstacks)]
    exact .keeps (.refl n)
  · obtain ⟨hgoes, hsame⟩ := keepsPages_restoreContext p n h ha
    rw [finalState_congr (leaveHandler_eq p hstacks)]
    rcases hrun : restoreContext p n with ⟨_, n₁⟩ | ⟨fault, n₁⟩
    · rw [finalState_of_ok hrun] at hgoes hsame
      rw [finalState_congr (bind_of_ok hrun), finalState_congr (modifyCore_bind _ _ n₁)]
      have hpopped : n₁.Goes (n₁.mapCore fun c => { c with interruptStacks := outer }) :=
        hgoes.sound.goes_of_bus rfl rfl rfl
      have hloses := loses_freeStack hpopped.sound (hpopped.isAlive (hgoes.isAlive ha)) page
      have hlost : Loses page n (finalState (freeStack page)
          (n₁.mapCore fun c => { c with interruptStacks := outer })) := fun hp q =>
        (hloses (fun p e => (hsame.allocated _).2 (hp p e)) q).trans
          (and_congr_right fun _ => hsame.allocated q)
      refine .leaves hlost ?_
      rw [core_freeStack page _, hstacks]
      rfl
    · rw [finalState_of_error hrun] at hsame
      rw [finalState_of_error (bind_of_error hrun)]
      exact .keeps hsame

/-- If the page of the innermost handler is allocated, freeing it does not fail: an exit that fails
has failed to take the context off the stack. -/
theorem leaveHandler_of_error {p : Platform} {fault : Fault} {outer : List (Option UInt32)}
    (h : n.Sound) (ha : n.core.isAlive = true) (hstacks : n.core.interruptStacks = page :: outer)
    (hpage : ∀ q, page = some q → q.toNat ∈ n.bus.memory.allocated)
    (hrun : leaveHandler p n = .error fault n') : restoreContext p n = .error fault n' := by
  obtain ⟨hgoes, hsame⟩ := keepsPages_restoreContext p n h ha
  rw [leaveHandler_eq p hstacks] at hrun
  rcases hrestore : restoreContext p n with ⟨_, n₁⟩ | ⟨e, n₁⟩
  · rw [finalState_of_ok hrestore] at hgoes hsame
    rw [bind_of_ok hrestore, modifyCore_bind] at hrun
    obtain ⟨n₂, hfree, -⟩ := freeStack_spec
      (n := n₁.mapCore fun c => { c with interruptStacks := outer }) hgoes.sound.coherent
      (hgoes.sound.registered.trans (hgoes.isAlive ha)) page
      fun q e => (hsame.allocated _).2 (hpage q e)
    cases hrun.symm.trans hfree
  · rw [bind_of_error hrestore] at hrun
    exact hrun

end Node

end Multicore
