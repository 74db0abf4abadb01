import Multicore.Proofs.Core.Effects
import Multicore.Proofs.Core.Paged

/-!
# Fresh pages

Memory fills a page with zeros when it hands it out, but behind the data caches, which may have
lines of the page from its last life, clean and dirty ones. They drop these lines without writing
them back, so the page is blank: memory has zeros there and no cache knows better
(`Bus.BlankPage`).

A page stays blank as long as no core writes into it (`Bus.SparesPage`, and `Effect.sparesPage`
for what a single core does), whatever is loaded, written back, dropped, allocated or freed in the
meantime, and a blank page reads as zero through every data cache that takes part.
-/

namespace Multicore

/-! ## Blank halfwords -/

namespace Copies

variable {c c' : Copies}

/-- Memory has zero, and no cache knows better. -/
structure Blank (c : Copies) : Prop where
  noDirty : c.NoDirty
  stored : c.stored = 0

/-- Reads and write-backs leave a halfword blank. -/
theorem Blank.became (h : c.Blank) {i : Nat} (hb : c.Became i none c') : c'.Blank := by
  have hn := hb.noDirty h.noDirty
  refine ⟨hn, ?_⟩
  cases hb.holds (.clean h.noDirty h.stored) with
  | dirty j hj => exact absurd (hn hj) (by simp)
  | clean _ hs => exact hs

/-- So do broadcasts. -/
theorem Blank.releaseAll (h : c.Blank) (hc : c.Coherent) (writeback remove : Bool)
    (l : List Nat) : (c.releaseAll writeback remove l).Blank := by
  cases writeback with
  | false =>
    exact ⟨h.noDirty.releaseAll false remove l, (stored_releaseAll remove c l).trans h.stored⟩
  | true => exact h.became (.releaseAll hc 0 remove l)

end Copies

namespace Bus

variable {bus bus' : Bus PagedMemory} {p : UInt32} {i : Nat} {a : Address}

/-- A store replaces halfwords of its page only. -/
theorem patch_outside {width : Width} (ha : a % width.bytes = 0) (v : UInt32) {b : Address}
    (hb : b.page ≠ a.page) : bus.patch a v width b = none := by
  have hself : b ≠ a := fun e => hb (by rw [e])
  cases width with
  | byte => exact if_neg fun e => hb (by rw [e, Address.page_halfword])
  | half => exact if_neg hself
  | word =>
    rw [patch_word, if_neg fun e => hb (by rw [e, Address.page_add_two ha]), if_neg hself]
    rfl

/-! ## Blank pages -/

/-- The bus is coherent and has nothing but blank halfwords in a page of memory. -/
structure BlankPage (p : UInt32) (bus : Bus PagedMemory) : Prop where
  coherent : bus.Coherent
  inside : p.toNat < bus.memory.pageCount
  blank : ∀ {a : Address}, a % 2 = 0 → a.page = p → (bus.copies a).Blank

/-- A blank page stays so where the copies of its halfwords are the same. -/
theorem BlankPage.of_copies (h : bus.BlankPage p) (hc : bus'.Coherent)
    (hcount : bus'.memory.pageCount = bus.memory.pageCount)
    (hcopies : ∀ {a : Address}, a % 2 = 0 → a.page = p → bus'.copies a = bus.copies a) :
    bus'.BlankPage p := by
  refine ⟨hc, hcount ▸ h.inside, fun ha hp => ?_⟩
  rw [hcopies ha hp]
  exact h.blank ha hp

/-- A blank page stays so if nothing is written into it. -/
theorem BlankPage.written (h : bus.BlankPage p) {patch : Patch} (hw : bus.Written i patch bus')
    (hpatch : ∀ {a : Address}, a.page = p → patch a = none) : bus'.BlankPage p := by
  refine ⟨hw.coherent, hw.steady.pageCount ▸ h.inside, fun ha hp => ?_⟩
  have hbecame := hw.each ha
  rw [hpatch hp] at hbecame
  exact (h.blank ha hp).became hbecame

/-- Lines of it may be written back and dropped. -/
theorem BlankPage.released (h : bus.BlankPage p) {selector : Selector} {writeback remove : Bool}
    {l : List Nat} (hsteady : bus.Steady bus') (hfitted : bus'.Fitted)
    (hcopies : ∀ b, b % 2 = 0 → bus'.copies b =
      if selector.covers b then (bus.copies b).releaseAll writeback remove l
      else bus.copies b) : bus'.BlankPage p := by
  refine ⟨hfitted.coherent fun b hb => ?_, hsteady.pageCount ▸ h.inside, fun {b} hb hp => ?_⟩
  · rw [hcopies b hb]
    split
    · exact (h.coherent.each b).releaseAll writeback remove l
    · exact h.coherent.each b
  · rw [hcopies b hb]
    split
    · exact (h.blank hb hp).releaseAll (h.coherent.each b) writeback remove l
    · exact h.blank hb hp

/-- A broadcast leaves a blank page blank, since none of its lines is dirty. -/
theorem BlankPage.broadcast (h : bus.BlankPage p) (except : Option Nat) (selector : Selector)
    (writeback remove : Bool) : (bus.broadcast except selector writeback remove).BlankPage p := by
  obtain ⟨hsteady, hfitted, hcopies⟩ :=
    broadcast_spec h.coherent.toFitted except selector writeback remove
  exact h.released hsteady hfitted hcopies

/-- A release by one data cache leaves a blank page blank. -/
theorem BlankPage.release (h : bus.BlankPage p) (hi : bus.isRegistered i = true)
    (selector : Selector) (writeback remove : Bool) :
    (finalState (Bus.release i selector writeback remove) bus).BlankPage p := by
  obtain ⟨bus', hrun, hsteady, hfitted, hcopies⟩ :=
    release_spec h.coherent.toFitted hi selector writeback remove
  rw [finalState_of_ok hrun]
  exact h.released (l := [i]) hsteady hfitted hcopies

/-- Another page may be taken out of the hands of the caches. -/
theorem BlankPage.cleared (h : bus.BlankPage p) {q : UInt32} (hc : bus.Cleared q bus')
    (hne : p ≠ q) : bus'.BlankPage p :=
  h.of_copies hc.coherent hc.keeps.pageCount fun {_} ha hp =>
    hc.outside ha fun hq => hne (hp.symm.trans (Address.page_eq_iff.2 hq))

/-- A page that is taken out of the hands of the caches is in none of them. -/
theorem Cleared.line?_inside (h : bus.Cleared p bus') (hi : bus'.isRegistered i = true)
    (hp : a.page = p) : (bus'.store i).line? a = none := by
  refine Option.eq_none_iff_forall_ne_some.2 fun l hl => ?_
  have hnone := h.inside (h.coherent.fits hi hl).even (Address.page_eq_iff.1 hp) i
  rw [cached_copies hi, hl] at hnone
  cases hnone

/-- The lines of the other pages stay. -/
theorem Cleared.line?_outside (h : bus.Cleared p bus') (hb : bus.Coherent) (i : Nat)
    (hp : a.page ≠ p) : (bus'.store i).line? a = (bus.store i).line? a := by
  rcases hi : bus.isRegistered i with _ | _
  · rw [h.keeps.absent hi]
  · have hi' : bus'.isRegistered i = true := (h.keeps.isRegistered i).trans hi
    by_cases ha : a % 2 = 0
    · have hcopies := h.outside ha fun hq => hp (Address.page_eq_iff.2 hq)
      rw [← cached_copies hi', ← cached_copies hi, hcopies]
    · have hodd : ∀ {b : Bus PagedMemory}, b.Coherent → b.isRegistered i = true →
          (b.store i).line? a = none := fun hb hi =>
        Option.eq_none_iff_forall_ne_some.2 fun _ hl => ha (hb.fits hi hl).even
      rw [hodd h.coherent hi', hodd hb hi]

/-- The bytes of the other pages stay. -/
theorem Cleared.byteAt (h : bus.Cleared p bus') (hp : a.page ≠ p) :
    bus'.byteAt a = bus.byteAt a := by
  have hhalf : bus'.halfAt a.halfword = bus.halfAt a.halfword :=
    h.halfAt (Address.halfword_even a) fun hq =>
      hp ((Address.page_halfword a).symm.trans (Address.page_eq_iff.2 hq))
  rw [Bus.byteAt, Bus.byteAt, hhalf]

/-- Every aligned load from a blank page answers zero. -/
theorem BlankPage.load (h : bus.BlankPage p) (hi : bus.isRegistered i = true) (width : Width)
    (ha : a % width.bytes = 0) (hp : a.page = p) :
    ∃ bus', Bus.load width i a bus = .ok 0 bus' := by
  have hzero : ∀ {b : Address}, b % 2 = 0 → b.page = p → bus.halfAt b = 0 := fun hb hbp => by
    rw [halfAt_of_noDirty (h.blank hb hbp).noDirty]
    exact (h.blank hb hbp).stored
  have hhalf : a.halfword.page = p := (Address.page_halfword a).trans hp
  have hvalue : bus.valueAt a width = 0 := by
    cases width with
    | byte =>
      show (bus.byteAt a).toUInt32 = 0
      rw [byteAt, hzero (Address.halfword_even a) hhalf]
      split <;> rfl
    | half =>
      show (bus.halfAt a).toUInt32 = 0
      rw [hzero ha hp]
      rfl
    | word =>
      show wordOfHalves (bus.halfAt a) (bus.halfAt (a + 2)) = 0
      have hp' : (a + 2).page = p := (Address.page_add_two ha).trans hp
      rw [hzero (even_of_word ha).1 hp, hzero (even_of_word ha).2 hp']
      rfl
  have haccepted : bus.refusal a width = none := by
    refine refusal_eq_none_iff.2 ⟨ha, Address.halfword_even a, ?_⟩
    have hpage := Address.page_eq_iff.1 hhalf
    have heven := Address.even_iff.1 (Address.halfword_even a)
    have hinside := h.inside
    show a.halfword.toNat + 2 ≤ bus.memory.pageCount * 256
    omega
  obtain ⟨bus', hrun, -⟩ := (load_spec h.coherent hi width a).accepted haccepted
  exact ⟨bus', hvalue ▸ hrun⟩

end Bus

open Node

/-! ## As long as nobody writes -/

/-- What cores can do on a bus while none of them writes into a page: load, store into other pages,
write lines back and drop them, allocate and free pages, and start and stop to take part. -/
inductive Bus.SparesPage (p : UInt32) (bus : Bus PagedMemory) : Bus PagedMemory → Prop
  | refl : SparesPage p bus bus
  | load {bus'} (h : SparesPage p bus bus') (width : Width) {i : Nat}
    (hi : bus'.isRegistered i = true) (a : Address) :
    SparesPage p bus (finalState (Bus.load width i a) bus')
  | store {bus'} (h : SparesPage p bus bus') (width : Width) {i : Nat}
    (hi : bus'.isRegistered i = true) {a : Address} (ha : a.page ≠ p) (v : UInt32) :
    SparesPage p bus (finalState (Bus.storeAt width i a v) bus')
  | release {bus'} (h : SparesPage p bus bus') {i : Nat} (hi : bus'.isRegistered i = true)
    (selector : Selector) (writeback remove : Bool) :
    SparesPage p bus (finalState (Bus.release i selector writeback remove) bus')
  | broadcast {bus'} (h : SparesPage p bus bus') (except : Option Nat) (selector : Selector)
    (writeback remove : Bool) : SparesPage p bus (bus'.broadcast except selector writeback remove)
  | allocate {n : Node PagedMemory} (h : SparesPage p bus n.bus) (segment : Option UInt32) :
    SparesPage p bus (finalState (allocatePage segment) n).bus
  | free {n : Node PagedMemory} (h : SparesPage p bus n.bus) (page : UInt32) :
    SparesPage p bus (finalState (freePage page) n).bus
  | join {bus'} (h : SparesPage p bus bus') {i : Nat}
    (hempty : ∀ a, (bus'.store i).line? a = none) : SparesPage p bus (bus'.register i i)
  | leave {bus'} (h : SparesPage p bus bus') (i : Nat) : SparesPage p bus (bus'.unregister i)

namespace Node

variable {n n' : Node PagedMemory} {p : UInt32}

/-- The page that is allocated is blank. -/
theorem allocatePage_blank (h : n.bus.Coherent) {segment : Option UInt32} {q : Nat}
    (hq : n.bus.memory.nextFree? segment = some q) :
    ∃ bus, allocatePage segment n = .ok q.toUInt32 { n with bus } ∧ q.toUInt32.toNat = q ∧
      n.bus.Cleared q.toUInt32 bus ∧ bus.BlankPage q.toUInt32 := by
  obtain ⟨bus, hrun, hnat, hcleared, -, hzero⟩ := allocatePage_of_some h hq
  refine ⟨bus, hrun, hnat, hcleared, hcleared.coherent, ?_, fun {a} ha hp => ?_⟩
  · rw [hnat, hcleared.keeps.pageCount]
    exact PagedMemory.lt_of_nextFree? hq
  · have hnoDirty : (bus.copies a).NoDirty := fun j l hl => by
      cases (hcleared.inside ha (Address.page_eq_iff.1 hp) j).symm.trans hl
    refine ⟨hnoDirty, ?_⟩
    rw [← hzero ha ((Address.page_eq_iff.1 hp).trans hnat), Bus.halfAt_of_noDirty hnoDirty]
    rfl

/-- Whatever page is allocated next, a blank page stays blank. -/
theorem blankPage_allocatePage (h : n.bus.BlankPage p) (segment : Option UInt32) :
    (finalState (allocatePage segment) n).bus.BlankPage p := by
  rcases hq : n.bus.memory.nextFree? segment with _ | q
  · rw [finalState_of_error (allocatePage_of_none hq)]
    exact h
  · obtain ⟨bus, hrun, -, hcleared, hblank⟩ := allocatePage_blank h.coherent hq
    rw [finalState_of_ok hrun]
    by_cases e : p = q.toUInt32
    · exact e ▸ hblank
    · exact h.cleared hcleared e

/-- Whatever page is freed, a blank page stays blank. -/
theorem blankPage_freePage (h : n.bus.BlankPage p) (page : UInt32) :
    (finalState (freePage page) n).bus.BlankPage p := by
  by_cases hq : page.toNat ∈ n.bus.memory.allocated
  · rw [finalState_of_ok (freePage_eq_of_mem hq)]
    obtain ⟨bus, hrun, hcleared, -⟩ := freePage_of_mem h.coherent hq
    rw [freePage_eq_of_mem hq] at hrun
    cases hrun
    exact (h.broadcast none (.page page) false true).of_copies hcleared.coherent rfl
      fun _ _ => rfl
  · rw [finalState_of_error (freePage_of_not_mem hq)]
    exact h

end Node

namespace Bus

variable {bus bus' : Bus PagedMemory} {p : UInt32}

/-- A blank page stays blank as long as no core writes into it. -/
theorem SparesPage.blankPage (h : bus.SparesPage p bus') (hblank : bus.BlankPage p) :
    bus'.BlankPage p := by
  induction h with
  | refl => exact hblank
  | load _ width hi a ih =>
    have hw := (load_spec ih.coherent hi width a).written ih.coherent hi
    rw [ite_self] at hw
    exact ih.written hw fun _ => rfl
  | @store bus' _ width i hi a ha v ih =>
    have hw := (storeAt_spec ih.coherent hi width a v).written ih.coherent hi
    refine ih.written hw fun {b} hb => ?_
    split
    · next hr => exact patch_outside (refusal_eq_none_iff.1 hr).1 v fun e => ha (e.symm.trans hb)
    · rfl
  | release _ hi selector writeback remove ih => exact ih.release hi selector writeback remove
  | broadcast _ except selector writeback remove ih =>
    exact ih.broadcast except selector writeback remove
  | allocate _ segment ih => exact blankPage_allocatePage ih segment
  | free _ page ih => exact blankPage_freePage ih page
  | join _ hempty ih =>
    exact ih.of_copies (ih.coherent.register hempty) rfl fun {a} _ _ => copies_register hempty a
  | @leave bus' _ i ih =>
    refine ⟨ih.coherent.unregister i, ih.inside, fun {a} ha hp => ?_⟩
    rw [copies_unregister]
    exact ⟨(ih.blank ha hp).noDirty.drop i, (ih.blank ha hp).stored⟩

end Bus

namespace Node

variable {n n' : Node PagedMemory} {p : UInt32}

/-- Whatever a core that takes part does, it spares the page, unless it stores into it. -/
theorem Effect.sparesPage {q : Platform} {bus : Bus PagedMemory} (e : Effect q n n')
    (h : bus.SparesPage p n.bus) (hi : n.bus.isRegistered n.core.id = true) :
    bus.SparesPage p n'.bus ∨ ∃ width a v, a.page = p ∧
      n' = { n with bus := finalState (Bus.storeAt width n.core.id a v) n.bus } := by
  cases e with
  | regs | frames | interrupts | math | select | record | tally => exact .inl h
  | vector table index =>
    rw [finalState_loadVector]
    exact .inl h
  | load width a => exact .inl (h.load width hi a)
  | store width a v =>
    by_cases ha : a.page = p
    · exact .inr ⟨width, a, v, ha, rfl⟩
    · exact .inl (h.store width hi ha v)
  | allocate segment => exact .inl (h.allocate segment)
  | free page => exact .inl (h.free page)
  | drop page => exact .inl (h.release hi (.page page) false true)

/-! ## Allocation -/

/-- A page that the allocator would hand out for a segment lies in it. -/
theorem segment_of_nextFree? {m : PagedMemory} {s : UInt32} {q : Nat}
    (h : m.nextFree? (some s) = some q) : (pageBase q.toUInt32).segment = s := by
  obtain ⟨⟨hlt, hsegment⟩, -⟩ := (PagedMemory.nextFree?_eq_some_iff.1 h).1
  have hin : q / 256 = s.toNat := hsegment s rfl
  have hcount := m.pageCount_lt
  refine UInt32.toNat_inj.1 ?_
  rw [Address.segment, pageBase, UInt32.toNat_div, UInt32.toNat_mul,
    PagedMemory.toNat_of_nextFree? h]
  show q * 256 % 4294967296 / 65536 = s.toNat
  omega

/-- A page that is allocated was free, and lies in the segment that was asked for. No cache that
takes part has a line of it then, and as long as no core writes into it, it reads as zero through
every one of them. The bytes of every other page, and every other line, are as before. -/
theorem allocatePage_fresh {segment : Option UInt32} (h : n.bus.Coherent)
    (hrun : allocatePage segment n = .ok p n') :
    (p.toNat ∉ n.bus.memory.allocated ∧ ∀ s, segment = some s → (pageBase p).segment = s) ∧
    (∀ i, n'.bus.isRegistered i = true → ∀ a : Address, a.page = p →
      (n'.bus.store i).line? a = none) ∧
    (∀ bus, n'.bus.SparesPage p bus → ∀ i, bus.isRegistered i = true →
      ∀ (width : Width) (a : Address), a % width.bytes = 0 → a.page = p →
        ∃ bus', Bus.load width i a bus = .ok 0 bus') ∧
    (∀ a : Address, a.page ≠ p → n'.bus.byteAt a = n.bus.byteAt a ∧
      ∀ i, (n'.bus.store i).line? a = (n.bus.store i).line? a) := by
  rcases hq : n.bus.memory.nextFree? segment with _ | q
  · rw [allocatePage_of_none hq] at hrun
    cases hrun
  · obtain ⟨bus, hrun', hnat, hcleared, hblank⟩ := allocatePage_blank h hq
    cases hrun.symm.trans hrun'
    refine ⟨⟨?_, ?_⟩, fun i hi a hp => hcleared.line?_inside hi hp,
      fun bus hspares i hi width a ha hp => (hspares.blankPage hblank).load hi width ha hp,
      fun a hp => ⟨hcleared.byteAt hp, fun i => hcleared.line?_outside h i hp⟩⟩
    · rw [hnat]
      exact PagedMemory.not_mem_of_nextFree? hq
    · rintro s rfl
      exact segment_of_nextFree? hq

/-- A core writes into a page that is free, and the halfword stays in its cache. Then it allocates
the page, writes into another one, and reads zero. -/
theorem allocatePage_fresh_after_write :
    let one : Bus PagedMemory := { memory := .ofSize 512, capacity := 128 }
    let n : Node PagedMemory :=
      { bus := finalState (Bus.storeAt .half 0 0 7) (one.register 0 0), core := Core.new 0 1 }
    ∃ n' bus', (n.bus.store 0).line? 0 = some ⟨true, 7⟩ ∧ allocatePage none n = .ok 0 n' ∧
      Bus.load .half 0 0 (finalState (Bus.storeAt .word 0 256 9) n'.bus) = .ok 0 bus' := by
  intro one n
  have hone : (one.register 0 0).Coherent := Bus.coherent_of_one (.ofSize 512) 128 0
  have hi : (one.register 0 0).isRegistered 0 = true :=
    (Bus.isRegistered_register_iff ..).2 (.inl rfl)
  have hw := (Bus.storeAt_spec hone hi .half 0 7).written hone hi
  have hcoherent : n.bus.Coherent := hw.coherent
  have hfree : n.bus.memory.nextFree? none = some 0 := by decide +kernel
  obtain ⟨bus, hrun, -, hcleared, -⟩ := allocatePage_blank hcoherent hfree
  obtain ⟨-, -, hzero, -⟩ := allocatePage_fresh hcoherent hrun
  have hi' : bus.isRegistered 0 = true :=
    (hcleared.keeps.isRegistered 0).trans ((hw.isRegistered 0).trans hi)
  have hw' := (Bus.storeAt_spec hcleared.coherent hi' .word 256 9).written hcleared.coherent hi'
  obtain ⟨bus', hload⟩ := hzero _ (.store .refl .word hi' (a := 256) (by decide) 9) 0
    ((hw'.isRegistered 0).trans hi') .half 0 rfl rfl
  exact ⟨_, bus', by decide +kernel, hrun, hload⟩

end Node

end Multicore
