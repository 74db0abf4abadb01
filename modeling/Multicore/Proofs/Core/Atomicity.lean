import Multicore.Proofs.Coherence.Refusals
import Multicore.Proofs.Core.Paged
import Multicore.Proofs.Core.Quiet
import Multicore.Proofs.Core.StackWords

/-!
# Frames and handlers that cannot be set up

Setting up a frame and entering a handler push words one after the other, and any of the pushes may
fail. Up to the failure nothing of the core has changed but its stack pointer (`Node.FailsWithin`
of `Node.MovesStack`). An entry that fails puts the stack pointer and the data segment back, and
gives back the page that it has taken: on the core, and in the allocation of pages, it leaves no
trace (`Node.failed_entry_leaves_no_trace`). The set-up of a frame puts nothing back, and so it
leaves the stack pointer lowered if the first of its two pushes has succeeded
(`Node.failed_frame_moves_stack_iff`).
-/

namespace Multicore.Node

open Std

/-! ## Pushes -/

section
variable {β : Type} {n n' : Node β} {R : Node β → Node β → Prop}

/-- Nothing of the core has changed but the stack pointer. -/
def MovesStack (n n' : Node β) : Prop := ∃ sp, n'.core = moved n.core sp

/-- To move the stack pointer is a closed relation. -/
theorem closed_movesStack : Closed (MovesStack (β := β)) where
  refl n := ⟨n.core.regs.sp, rfl⟩
  trans := by
    rintro n n' n'' ⟨sp, h⟩ ⟨sp', h'⟩
    exact ⟨sp', by rw [h', h]; rfl⟩

/-- If the computation fails, it has done no more than the relation allows. -/
def FailsWithin {α : Type} (R : Node β → Node β → Prop) (x : NodeM β α) : Prop :=
  ∀ n fault n', x n = .error fault n' → R n n'

/-- What comes before a computation has to keep to the relation also if it succeeds. -/
theorem FailsWithin.after {α γ : Type} {x : NodeM β α} {f : α → NodeM β γ} (hR : Closed R)
    (hx : Does R x) (hf : ∀ a, FailsWithin R (f a)) : FailsWithin R (x >>= f) := by
  intro n fault n' hrun
  have h := hx n
  rcases bind_eq_error_iff.1 hrun with hfirst | ⟨a, n₁, hfirst, hrest⟩
  · rwa [finalState_of_error hfirst] at h
  · rw [finalState_of_ok hfirst] at h
    exact hR.trans h (hf a n₁ fault n' hrest)

variable [PhysicalMemory β]

/-- A push stores its word and moves the stack pointer, or it fails as the store does, with nothing
changed but the bus. -/
theorem push_cases (v : UInt32) (n : Node β) :
    (∃ bus, Bus.writeWord n.core.id (n.core.dataAddress (n.core.regs.sp - 4)) v n.bus =
        .ok () bus ∧
      push v n = .ok () { n with bus, core := moved n.core (n.core.regs.sp - 4) }) ∨
    ∃ fault bus, Bus.writeWord n.core.id (n.core.dataAddress (n.core.regs.sp - 4)) v n.bus =
        .error fault bus ∧
      push v n = .error fault { n with bus } := by
  rw [push, getCore_bind]
  rcases hrun : Bus.writeWord n.core.id (n.core.dataAddress (n.core.regs.sp - 4)) v n.bus with
    ⟨_, bus⟩ | ⟨fault, bus⟩
  · exact .inl ⟨bus, rfl, bind_of_ok (onBus_of_ok hrun)⟩
  · exact .inr ⟨fault, bus, rfl, bind_of_error (onBus_of_error hrun)⟩

/-- A push that succeeds has moved the stack pointer by one word. -/
theorem core_of_push_ok {v : UInt32} (h : push v n = .ok () n') :
    n'.core = moved n.core (n.core.regs.sp - 4) := by
  obtain ⟨bus, -, hrun⟩ | ⟨fault, bus, -, hrun⟩ := push_cases v n
  · cases hrun.symm.trans h
    rfl
  · cases hrun.symm.trans h

/-- A push that fails has left the core alone. -/
theorem core_of_push_error {v : UInt32} {fault : Fault} (h : push v n = .error fault n') :
    n'.core = n.core := by
  obtain ⟨bus, -, hrun⟩ | ⟨fault', bus, -, hrun⟩ := push_cases v n
  · cases hrun.symm.trans h
  · cases hrun.symm.trans h
    rfl

/-- A push moves the stack pointer and changes nothing else of the core. -/
theorem movesStack_push (v : UInt32) : Does MovesStack (push v : NodeM β Unit) := by
  intro n
  rcases hrun : push v n with ⟨_, n'⟩ | ⟨fault, n'⟩
  · rw [finalState_of_ok hrun]
    exact ⟨_, core_of_push_ok hrun⟩
  · rw [finalState_of_error hrun]
    exact ⟨n.core.regs.sp, core_of_push_error hrun⟩

/-! ## Frames -/

/-- A frame that cannot be set up has failed at the first push, or at the second with the first one
done. -/
theorem pushFrame_error_iff {fault : Fault} : pushFrame n = .error fault n' ↔
    push n.core.regs.ip n = .error fault n' ∨
      ∃ n₁, push n.core.regs.ip n = .ok () n₁ ∧ push n.core.regs.fp n₁ = .error fault n' := by
  have hfp : ∀ {n₁}, push n.core.regs.ip n = .ok () n₁ → n₁.core.regs.fp = n.core.regs.fp := by
    intro n₁ hfirst
    rw [core_of_push_ok hfirst]
    rfl
  unfold pushFrame
  rw [getRegs_bind, bind_eq_error_iff]
  constructor
  · rintro (hfirst | ⟨_, n₁, hfirst, hrest⟩)
    · exact .inl hfirst
    · rw [getRegs_bind, hfp hfirst] at hrest
      rcases bind_eq_error_iff.1 hrest with hsecond | ⟨_, n₂, -, hlast⟩
      · exact .inr ⟨n₁, hfirst, hsecond⟩
      · cases hlast
  · rintro (hfirst | ⟨n₁, hfirst, hsecond⟩)
    · exact .inl hfirst
    · refine .inr ⟨⟨⟩, n₁, hfirst, ?_⟩
      rw [getRegs_bind, hfp hfirst]
      exact bind_of_error hsecond

/-- What is left of the core then: only the stack pointer may have moved, by one word, if the first
push has succeeded. -/
theorem core_of_pushFrame_error {fault : Fault} (h : pushFrame n = .error fault n') :
    push n.core.regs.ip n = .error fault n' ∧ n'.core = n.core ∨
      (∃ n₁, push n.core.regs.ip n = .ok () n₁) ∧
        n'.core = moved n.core (n.core.regs.sp - 4) := by
  rcases pushFrame_error_iff.1 h with hfirst | ⟨n₁, hfirst, hsecond⟩
  · exact .inl ⟨hfirst, core_of_push_error hfirst⟩
  · exact .inr ⟨⟨n₁, hfirst⟩, (core_of_push_error hsecond).trans (core_of_push_ok hfirst)⟩

/-- A frame that cannot be recorded has moved the stack pointer at most. -/
theorem pushFrame_failsWithin : FailsWithin MovesStack (pushFrame : NodeM β Unit) := by
  intro n fault n' hrun
  rcases core_of_pushFrame_error hrun with ⟨-, hcore⟩ | ⟨-, hcore⟩
  · exact ⟨n.core.regs.sp, hcore⟩
  · exact ⟨_, hcore⟩

/-- A context that cannot be saved has moved the stack pointer at most. -/
theorem saveContext_failsWithin (ds sp : UInt32) :
    FailsWithin MovesStack (saveContext ds sp : NodeM β Unit) := by
  have hR := closed_movesStack (β := β)
  have hpush := movesStack_push (β := β)
  refine .after hR (hpush ds) fun _ => .after hR (hpush sp) fun _ => ?_
  refine .after hR hR.getRegs fun _ => .after hR (hpush _) fun _ => ?_
  refine .after hR hR.getRegs fun _ => .after hR (hpush _) fun _ => ?_
  refine .after hR hR.getRegs fun _ => .after hR (hR.forM _ hpush) fun _ => ?_
  exact pushFrame_failsWithin

/-- A call fails as the set-up of its frame does. -/
theorem executeBase_call_error_iff (p : Platform) (target : Operand) {fault : Fault} :
    executeBase p (.call target) n = .error fault n' ↔ pushFrame n = .error fault n' := by
  have htarget : ∃ ip, jumpTarget target n = .ok ip n := by
    cases target with
    | imm offset => exact ⟨_, rfl⟩
    | reg r => exact ⟨_, rfl⟩
  obtain ⟨ip, htarget⟩ := htarget
  have hcall : executeBase p (.call target) n = (do pushFrame; jumpTo ip : NodeM β Unit) n :=
    bind_of_ok htarget
  rw [hcall, bind_eq_error_iff]
  constructor
  · rintro (hrun | ⟨_, n₁, -, hjump⟩)
    · exact hrun
    · cases hjump
  · exact .inl

end

/-! ## Frames in front of a paged memory -/

section
variable {n n' n₁ : Node PagedMemory} {v : UInt32} {fault : Fault}

/-- As long as all lines lie within memory, a push fails because of its address only. -/
theorem push_error_iff (h : n.bus.Inside) (v : UInt32) :
    (∃ n', push v n = .error fault n') ↔ Bus.FaultyAt n.bus.memory (n.top - 4) .word fault := by
  have htop : n.core.dataAddress (n.core.regs.sp - 4) = n.top - 4 := segmentAddress_sub ..
  rw [← Bus.refusal_eq_some_iff, ← (h.writeWord n.core.id (n.top - 4) v).error_iff, ← htop]
  obtain ⟨bus, hbus, hrun⟩ | ⟨fault', bus, hbus, hrun⟩ := push_cases v n
  · rw [hbus, hrun]
    constructor <;> rintro ⟨_, h⟩ <;> cases h
  · rw [hbus, hrun]
    constructor <;> rintro ⟨_, h⟩ <;> cases h <;> exact ⟨_, rfl⟩

/-- After a push all lines still lie within memory, and the top of the stack is a word lower. -/
theorem stays_of_push_ok (h : n.bus.Inside) (hrun : push v n = .ok () n₁) :
    n.bus.Stays n₁.bus ∧ n₁.top = n.top - 4 := by
  obtain ⟨bus, hbus, hok⟩ | ⟨fault', bus, -, herror⟩ := push_cases v n
  · cases hok.symm.trans hrun
    exact ⟨((h.writeWord _ _ v).of_ok hbus).2, segmentAddress_sub ..⟩
  · cases herror.symm.trans hrun

/-- Below an aligned word of memory there is another one, but below the first word the addresses
go around to the end of the address space. -/
theorem faultyAt_below {m : PagedMemory} {a : Address} (ha : a % 4 = 0)
    (hin : a.toNat + 4 ≤ m.size) :
    Bus.FaultyAt m (a - 4) .word fault ↔
      a = 0 ∧ fault = .memory (.outOfBounds 0xfffffffc 2) := by
  by_cases hz : a = 0
  · -- the address is `0xfffffffc`, and no memory goes as far
    subst hz
    have hfaulty : Bus.FaultyAt m (0 - 4) .word (.memory (.outOfBounds 0xfffffffc 2)) := by
      refine .outside (a := 0 - 4) rfl ?_
      exact m.size_lt
    constructor
    · rintro (hn | ⟨-, -⟩)
      · exact absurd rfl hn
      · exact ⟨rfl, rfl⟩
    · rintro ⟨-, rfl⟩
      exact hfaulty
  · have hpos : 4 ≤ a.toNat := by
      have hdvd := Address.dvd_four_iff.1 ha
      have hne : a.toNat ≠ 0 := fun e => hz (UInt32.toNat_inj.1 e)
      omega
    have hnat : (a - 4).toNat = a.toNat - 4 := UInt32.toNat_sub_of_le a 4 hpos
    refine ⟨?_, fun h => absurd h.1 hz⟩
    rintro (hn | ⟨-, hout⟩)
    · refine absurd ?_ hn
      have hdvd := Address.dvd_four_iff.1 ha
      exact Address.dvd_four_iff.2 (by omega)
    · have hbytes : Width.word.bytes.toNat = 4 := rfl
      omega

/-- Where a push succeeds there is an aligned word of memory. -/
theorem word_of_push_ok (h : n.bus.Inside) (hrun : push v n = .ok () n₁) :
    (n.top - 4) % 4 = 0 ∧ (n.top - 4).toNat + 4 ≤ n.bus.memory.size := by
  have hnot : ∀ fault, ¬ Bus.FaultyAt n.bus.memory (n.top - 4) .word fault := by
    intro fault hfaulty
    obtain ⟨n', herror⟩ := (push_error_iff h v).2 hfaulty
    cases hrun.symm.trans herror
  have ha : (n.top - 4) % 4 = 0 := Decidable.not_not.1 fun hn => hnot _ (.unaligned hn)
  exact ⟨ha, Nat.not_lt.1 fun hout => hnot _ (.outside ha hout)⟩

/-- A push to the first word of memory succeeds. -/
theorem exists_push_ok_of_top (h : n.bus.Inside) (htop : n.top = 4) (v : UInt32) :
    ∃ n₁, push v n = .ok () n₁ := by
  rcases hrun : push v n with ⟨_, n₁⟩ | ⟨fault, n₁⟩
  · exact ⟨n₁, rfl⟩
  · have hpages := n.bus.memory.pageCount_pos
    have hfaulty := (push_error_iff h v).1 ⟨n₁, hrun⟩
    rw [htop] at hfaulty
    rcases hfaulty with hn | ⟨-, hout⟩
    · exact absurd rfl hn
    · have hfirst : ((4 : Address) - 4).toNat + Width.word.bytes.toNat = 4 := rfl
      rw [hfirst, PagedMemory.size] at hout
      omega

/-- The second push fails, after the first one, only if the first one was to the first word of
memory. -/
theorem second_push_error_iff (h : n.bus.Inside) {w : UInt32} (hrun : push v n = .ok () n₁) :
    (∃ n', push w n₁ = .error fault n') ↔
      n.top = 4 ∧ fault = .memory (.outOfBounds 0xfffffffc 2) := by
  obtain ⟨hstays, htop⟩ := stays_of_push_ok h hrun
  obtain ⟨ha, hin⟩ := word_of_push_ok h hrun
  have hin' : (n.top - 4).toNat + 4 ≤ n₁.bus.memory.size := by
    rw [PagedMemory.size, hstays.pageCount]
    exact hin
  have hzero : n.top - 4 = 0 ↔ n.top = 4 := by
    constructor
    · intro e
      rw [← UInt32.sub_add_cancel n.top 4, e]
      rfl
    · intro e
      rw [e]
      rfl
  rw [push_error_iff hstays.inside, htop, faultyAt_below ha hin', hzero]

/-- A stack pointer that is lowered by a word is another one. -/
theorem moved_ne (c : Core) : moved c (c.regs.sp - 4) ≠ c := by
  intro h
  have hnat := congrArg (fun c : Core => c.regs.sp.toNat) h
  change (c.regs.sp - 4).toNat = c.regs.sp.toNat at hnat
  have hlt := c.regs.sp.toNat_lt
  have hfour : (4 : UInt32).toNat = 4 := rfl
  rw [UInt32.toNat_sub] at hnat
  omega

/-- If a frame cannot be set up, the core is as before, or else only its stack pointer is one word
lower, with the first of the two words stored. On a bus that can be reached the former happens
exactly if the address below the top of the stack is faulty, and the latter exactly if the top of
the stack is behind the first word of memory, so that the second word would go to the end of the
address space. A call comes to no other failure. -/
theorem failed_frame_moves_stack_iff (n : Node PagedMemory) :
    (∀ fault n', pushFrame n = .error fault n' →
      n'.core = n.core ∨
        n'.core = moved n.core (n.core.regs.sp - 4) ∧ ∃ n₁, push n.core.regs.ip n = .ok () n₁) ∧
    (n.bus.Reached → ∀ fault,
      ((∃ n', pushFrame n = .error fault n' ∧ n'.core = n.core) ↔
        Bus.FaultyAt n.bus.memory (n.top - 4) .word fault) ∧
      ((∃ n', pushFrame n = .error fault n' ∧
          n'.core = moved n.core (n.core.regs.sp - 4)) ↔
        n.top = 4 ∧ fault = .memory (.outOfBounds 0xfffffffc 2))) ∧
    ∀ p target fault n', executeBase p (.call target) n = .error fault n' ↔
      pushFrame n = .error fault n' := by
  have hmoved := moved_ne n.core
  refine ⟨fun fault n' hrun => ?_, fun h fault => ⟨⟨?_, fun hfaulty => ?_⟩, ⟨?_, ?_⟩⟩,
    fun p target fault n' => executeBase_call_error_iff p target⟩
  · rcases core_of_pushFrame_error hrun with ⟨-, hcore⟩ | ⟨hfirst, hcore⟩
    · exact .inl hcore
    · exact .inr ⟨hcore, hfirst⟩
  · rintro ⟨n', hrun, hsame⟩
    rcases core_of_pushFrame_error hrun with ⟨hfirst, -⟩ | ⟨-, hcore⟩
    · exact (push_error_iff h.inside _).1 ⟨n', hfirst⟩
    · exact absurd (hcore.symm.trans hsame) hmoved
  · obtain ⟨n', hfirst⟩ := (push_error_iff h.inside n.core.regs.ip).2 hfaulty
    exact ⟨n', pushFrame_error_iff.2 (.inl hfirst), core_of_push_error hfirst⟩
  · -- with the stack pointer lowered it can only be the second push that has failed
    rintro ⟨n', hrun, hlower⟩
    rcases pushFrame_error_iff.1 hrun with hfirst | ⟨n₁, hfirst, hsecond⟩
    · exact absurd (hlower.symm.trans (core_of_push_error hfirst)) hmoved
    · exact (second_push_error_iff h.inside hfirst).1 ⟨n', hsecond⟩
  · intro htop
    obtain ⟨n₁, hfirst⟩ := exists_push_ok_of_top h.inside htop.1 n.core.regs.ip
    obtain ⟨n', hsecond⟩ := (second_push_error_iff (w := n.core.regs.fp) h.inside hfirst).2 htop
    exact ⟨n', pushFrame_error_iff.2 (.inr ⟨n₁, hfirst, hsecond⟩),
      (core_of_push_error hsecond).trans (core_of_push_ok hfirst)⟩

/-- A stack that is not aligned leaves the core as it is. -/
theorem failed_frame_moves_stack_iff_of_unaligned :
    let n : Node PagedMemory :=
      { bus := { memory := .ofSize 256, capacity := 4 }
        core := { Core.new 0 4 with regs := { sp := 6 } } }
    n.bus.Reached ∧ ∃ n', pushFrame n = .error (.unalignedAccess 2) n' ∧ n'.core = n.core := by
  intro n
  have hreached : n.bus.Reached := .start fun _ a => Bus.line?_empty 4 a
  have htop : n.top - 4 = 2 := by decide +kernel
  have hfaulty : Bus.FaultyAt n.bus.memory (n.top - 4) .word (.unalignedAccess 2) := by
    rw [htop]
    exact .unaligned (by decide)
  exact ⟨hreached, (((failed_frame_moves_stack_iff n).2.1 hreached _).1).2 hfaulty⟩

/-- A stack behind the first word of memory takes the return address, and then the frame pointer
would go to the end of the address space. The frame fails with the stack pointer lowered. -/
theorem failed_frame_lowers_stack :
    let n : Node PagedMemory :=
      { bus := { memory := .ofSize 256, capacity := 4 }
        core := { Core.new 0 4 with regs := { sp := 4, ip := 36, fp := 4 } } }
    ∃ fault n', pushFrame n = .error fault n' ∧ fault = .memory (.outOfBounds 0xfffffffc 2) ∧
      n.core.regs.sp = 4 ∧ n'.core.regs.sp = 0 ∧ n'.core.regs.fp = 4 ∧ n'.core.frames = [] := by
  intro n
  exact exists_of_error_any (P := fun (fault : Fault) (n' : Node PagedMemory) =>
    fault = .memory (.outOfBounds 0xfffffffc 2) ∧ n.core.regs.sp = 4 ∧ n'.core.regs.sp = 0 ∧
      n'.core.regs.fp = 4 ∧ n'.core.frames = []) (by decide +kernel)

end

/-! ## Pages -/

section
variable {n n' : Node PagedMemory} {fault : Fault}

/-- The size of memory and the allocated pages. -/
def pageMap (n : Node PagedMemory) : Nat × TreeSet Nat :=
  (n.bus.memory.pageCount, n.bus.memory.allocated)

/-- The same pages are allocated, in a memory of the same size. -/
abbrev KeepsPageMap (n n' : Node PagedMemory) : Prop := n'.pageMap = n.pageMap

/-- Mild effects do not concern the allocation of pages, whatever the caches hold. -/
theorem lenient_keepsPageMap : Lenient KeepsPageMap where
  refl _ := rfl
  trans h h' := h'.trans h
  mild {n n'} h := by
    cases h with
    | regs | math | record | tally => rfl
    | load width a => exact Bus.preserves_load PagedMemory.unaffected_pages width _ a n.bus
    | store width a v => exact Bus.preserves_storeAt PagedMemory.unaffected_pages width _ a v n.bus

/-- A frame that is recorded leaves the page map. -/
theorem keepsPageMap_pushFrame : Does KeepsPageMap (pushFrame : NodeM PagedMemory Unit) := by
  have hR := lenient_keepsPageMap
  refine hR.bind hR.getRegs fun regs => hR.bind (hR.push _) fun _ => ?_
  exact hR.bind hR.getRegs fun regs' => hR.bind (hR.push _) fun _ _ => rfl

/-- The page that is allocated was free, and nothing else is allocated or freed with it. -/
theorem pageMap_allocatePage (segment : Option UInt32) (n : Node PagedMemory) :
    (∃ fault, allocatePage segment n = .error fault n) ∨
    ∃ p n', allocatePage segment n = .ok p.toUInt32 n' ∧ p.toUInt32.toNat = p ∧
      p ∉ n.bus.memory.allocated ∧
      n'.pageMap = (n.bus.memory.pageCount, n.bus.memory.allocated.insert p) := by
  rcases hp : n.bus.memory.nextFree? segment with _ | p
  · exact .inl ⟨_, allocatePage_of_none hp⟩
  · obtain ⟨m, halloc, hhanded, hallocated⟩ := PagedMemory.allocatePage_of_some hp
    have hbus := Bus.ofMemory_broadcast PagedMemory.unaffected_pages
      ({ n.bus with memory := m } : Bus PagedMemory) none (.page p.toUInt32) false true
    refine .inr ⟨p, _, allocatePage_of_ok halloc, PagedMemory.toNat_of_nextFree? hp,
      PagedMemory.not_mem_of_nextFree? hp, ?_⟩
    exact hbus.trans (Prod.ext hhanded.pageCount hallocated)

/-- If a free page is taken and given back, the pages that are allocated are the ones from before.
-/
theorem contains_erase_insert {pages : TreeSet Nat} {p : Nat} (hp : p ∉ pages) (q : Nat) :
    ((pages.insert p).erase p).contains q = pages.contains q := by
  rw [Bool.eq_iff_iff, ← TreeSet.mem_iff_contains, ← TreeSet.mem_iff_contains, TreeSet.mem_erase,
    TreeSet.mem_insert, ne_eq, Nat.compare_eq_eq]
  constructor
  · rintro ⟨hne, hpq | hq⟩
    · exact absurd hpq hne
    · exact hq
  · intro hq
    exact ⟨fun hpq => hp (hpq ▸ hq), .inr hq⟩

/-- A page that is allocated is freed, and nothing else is allocated or freed with it. -/
theorem pageMap_freePage {page : UInt32} (hp : page.toNat ∈ n.bus.memory.allocated) :
    (finalState (freePage page) n).pageMap =
      (n.bus.memory.pageCount, n.bus.memory.allocated.erase page.toNat) := by
  obtain ⟨hcount, hallocated⟩ := Prod.ext_iff.1 (Bus.ofMemory_broadcast
    PagedMemory.unaffected_pages n.bus none (.page page) false true)
  rw [finalState_of_ok (freePage_eq_of_mem hp)]
  exact Prod.ext hcount (congrArg (TreeSet.erase · page.toNat) hallocated)

end

/-! ## Handlers -/

section
variable {β : Type} [PhysicalMemory β] {n n' : Node β} {fault : Fault}

/-- A handler that cannot be opened leaves the core as it was. -/
theorem core_of_openHandler_error {index : UInt32} {v : InterruptVector} {sp : UInt32}
    {page : Option UInt32} (h : openHandler index v sp page n = .error fault n') :
    n'.core = n.core := by
  obtain ⟨n₁, hsave, rfl⟩ := openHandler_error_iff.1 h
  obtain ⟨sp₁, hmoved⟩ := saveContext_failsWithin _ _ _ _ _ hsave
  have hback : (n₁.mapRegs fun regs =>
      { regs with ds := n.core.regs.ds, sp := n.core.regs.sp }).core = n.core := by
    show ({ n₁.core with regs := { n₁.core.regs with
      ds := n.core.regs.ds
      sp := n.core.regs.sp } } : Core) = n.core
    rw [hmoved]
    rfl
  cases page with
  | none => exact hback
  | some page => exact (core_freePage page _).trans hback

/-- A handler gets its stack without the core. -/
theorem core_handlerStack (v : InterruptVector) :
    Does KeepsCore (handlerStack v : NodeM β (UInt32 × Option UInt32)) := by
  have hR := closed_core (β := β)
  unfold handlerStack
  exact .ite (hR.bind (core_allocatePage _) fun _ => hR.pure _) (hR.pure _)

/-- An entry that fails leaves the core as it was. -/
theorem enterHandler_failsWithin (table : Address) (index : UInt32) :
    FailsWithin KeepsCore (enterHandler table index : NodeM β Unit) := by
  have hR := closed_core (β := β)
  rw [enterHandler_eq]
  refine .after hR (core_onBus _) fun v => .after hR (core_handlerStack v) fun stack => ?_
  exact fun _ _ _ => core_of_openHandler_error

end

section
variable {n n' : Node PagedMemory} {fault : Fault}

/-- If a context cannot be saved, the page that was taken for it is given back. -/
theorem pageMap_of_openHandler_error {index : UInt32} {v : InterruptVector} {sp : UInt32}
    {page : Option UInt32} (hpage : ∀ p ∈ page, p.toNat ∈ n.bus.memory.allocated)
    (h : openHandler index v sp page n = .error fault n') :
    n'.pageMap = (n.bus.memory.pageCount,
      page.elim n.bus.memory.allocated fun p => n.bus.memory.allocated.erase p.toNat) := by
  obtain ⟨n₁, hsave, rfl⟩ := openHandler_error_iff.1 h
  have hsaved := lenient_keepsPageMap.saveContext n.core.regs.ds n.core.regs.sp
    keepsPageMap_pushFrame (n.mapRegs fun regs => { regs with ds := v.ds.toUInt32, sp })
  rw [finalState_of_error hsave] at hsaved
  obtain ⟨hcount, hallocated⟩ := Prod.ext_iff.1 hsaved
  cases page with
  | none => exact hsaved
  | some p =>
    have hp : p.toNat ∈ n₁.bus.memory.allocated := by
      rw [show n₁.bus.memory.allocated = _ from hallocated]
      exact hpage p rfl
    refine (pageMap_freePage (n := n₁.mapRegs _) hp).trans ?_
    exact Prod.ext hcount (congrArg (TreeSet.erase · p.toNat) hallocated)

/-- A handler gets no stack and nothing has changed, or it gets the one of its vector, or else a
page that was free. -/
theorem handlerStack_cases (v : InterruptVector) (n : Node PagedMemory) :
    (∃ fault, handlerStack v n = .error fault n) ∨
    handlerStack v n = .ok (v.sp, none) n ∨
    ∃ sp p n₁, handlerStack v n = .ok (sp, some p.toUInt32) n₁ ∧ p.toUInt32.toNat = p ∧
      p ∉ n.bus.memory.allocated ∧
      n₁.pageMap = (n.bus.memory.pageCount, n.bus.memory.allocated.insert p) := by
  unfold handlerStack
  by_cases hsp : v.sp = 0
  · rw [if_pos hsp]
    obtain ⟨fault, hrefused⟩ | ⟨p, n₁, hgranted, hnat, hfresh, hmap⟩ :=
      pageMap_allocatePage (some v.ds.toUInt32) n
    · exact .inl ⟨fault, bind_of_error hrefused⟩
    · exact .inr (.inr ⟨_, p, n₁, bind_of_ok hgranted, hnat, hfresh, hmap⟩)
  · rw [if_neg hsp]
    exact .inr (.inl rfl)

/-- An entry that fails has changed nothing, or it has failed with the stack of the handler found.
-/
theorem enterHandler_error_cases {table : Address} {index : UInt32}
    (h : enterHandler table index n = .error fault n') :
    n' = n ∨ ∃ v stack n₁, handlerStack v n = .ok stack n₁ ∧
      openHandler index v stack.1 stack.2 n₁ = .error fault n' := by
  rw [enterHandler_eq] at h
  have hvector := finalState_loadVector table index n
  rcases bind_eq_error_iff.1 h with hv | ⟨v, n₁, hv, hrest⟩
  · rw [finalState_of_error hv] at hvector
    exact .inl hvector
  · rw [finalState_of_ok hv] at hvector
    subst hvector
    rcases bind_eq_error_iff.1 hrest with hs | ⟨stack, n₂, hs, hopen⟩
    · obtain ⟨_, hnone⟩ | hnone | ⟨_, _, _, hnone, -⟩ := handlerStack_cases v n₁
      · cases hnone.symm.trans hs
        exact .inl rfl
      · cases hnone.symm.trans hs
      · cases hnone.symm.trans hs
    · exact .inr ⟨v, stack, n₂, hs, hopen⟩

/-- An entry that fails leaves the same pages allocated. -/
theorem pages_of_enterHandler_error {table : Address} {index : UInt32}
    (h : enterHandler table index n = .error fault n') :
    n'.bus.memory.pageCount = n.bus.memory.pageCount ∧
      ∀ q, n'.bus.memory.allocated.contains q = n.bus.memory.allocated.contains q := by
  rcases enterHandler_error_cases h with rfl | ⟨v, stack, n₁, hstack, hopen⟩
  · exact ⟨rfl, fun _ => rfl⟩
  obtain ⟨_, hs⟩ | hs | ⟨sp, p, n₂, hs, hnat, hfresh, hmap⟩ := handlerStack_cases v n
  · cases hs.symm.trans hstack
  · cases hs.symm.trans hstack
    obtain ⟨hcount, hallocated⟩ :=
      Prod.ext_iff.1 (pageMap_of_openHandler_error (fun p hp => by cases hp) hopen)
    exact ⟨hcount, fun q => congrArg (TreeSet.contains · q) hallocated⟩
  · -- the page that was taken for the handler was free, and it is given back
    cases hs.symm.trans hstack
    obtain ⟨hcount, hallocated⟩ := Prod.ext_iff.1 hmap
    have htaken : ∀ q ∈ some p.toUInt32, q.toNat ∈ n₁.bus.memory.allocated := by
      intro q hq
      cases hq
      rw [hnat, show n₁.bus.memory.allocated = _ from hallocated]
      exact TreeSet.mem_insert_self
    obtain ⟨hcount', hallocated'⟩ := Prod.ext_iff.1 (pageMap_of_openHandler_error htaken hopen)
    refine ⟨hcount'.trans hcount, fun q => ?_⟩
    rw [show n'.bus.memory.allocated = _ from hallocated', Option.elim_some, hnat,
      show n₁.bus.memory.allocated = _ from hallocated]
    exact contains_erase_insert hfresh q

/-- An entry that fails, through whichever table and vector and however its memory fails, leaves the
core exactly as it was: its registers, frames, active interrupts, instruction set and operand stack.
On a paged memory the same pages are allocated as well, whatever the caches hold. -/
theorem failed_entry_leaves_no_trace (table : Address) (index : UInt32) :
    (∀ {β : Type} [PhysicalMemory β] (n : Node β) fault n',
      enterHandler table index n = .error fault n' → n'.core = n.core) ∧
    ∀ (n : Node PagedMemory) fault n', enterHandler table index n = .error fault n' →
      n'.bus.memory.pageCount = n.bus.memory.pageCount ∧
        ∀ q, n'.bus.memory.allocated.contains q = n.bus.memory.allocated.contains q :=
  ⟨enterHandler_failsWithin table index, fun _ _ _ => pages_of_enterHandler_error⟩

/-- A handler whose stack has room for three words fails at the fourth. By then the core has got the
data segment and the stack of the handler, and it has its own back. -/
theorem failed_entry_leaves_no_trace_of_short_stack :
    let n : Node PagedMemory :=
      { bus := { memory := (PagedMemory.ofSize 256).setBytes 0 (bytesOfWords [1, 0, 12])
                 capacity := 16 }
        core := { Core.new 0 4 with regs := { ds := 1, sp := 200, ip := 36, fp := 200 } } }
    ∃ fault n', enterHandler 0 0 n = .error fault n' ∧
      fault = .memory (.outOfBounds 0xfffffffc 2) ∧ n'.core = n.core := by
  intro n
  have hfails : ∃ fault n', enterHandler 0 0 n = .error fault n' ∧
      fault = .memory (.outOfBounds 0xfffffffc 2) :=
    exists_of_error_any (P := fun (fault : Fault) (_ : Node PagedMemory) =>
      fault = .memory (.outOfBounds 0xfffffffc 2)) (by decide +kernel)
  obtain ⟨fault, n', hrun, hfault⟩ := hfails
  exact ⟨fault, n', hrun, hfault, (failed_entry_leaves_no_trace 0 0).1 n fault n' hrun⟩

end

end Multicore.Node
