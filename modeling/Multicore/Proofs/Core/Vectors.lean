import Multicore.Proofs.Core.Atomicity
import Multicore.Proofs.Core.Sound
import Multicore.Proofs.Memory.Vectors

/-!
# Which handlers are entered

The context that is saved on entry takes 36 words, and whether they can all be pushed depends on the
room below the top of the stack (`Node.PushesWords`, `Node.RoomFor`). So it can be told from memory
alone whether a handler is entered: it is if memory has the record of the interrupt and a stack for
its handler (`Node.enterHandler_ok_iff`). The number of the interrupt plays no part in it beyond the
address of the record, and this need not lie in the table (`Node.entered_through_any_record`,
`Node.entered_beyond_table`).
-/

namespace Multicore

namespace Node

variable {n n' n₁ : Node PagedMemory} {k l : Nat}

/-! ## Room on a stack -/

/-- The next words below the top of the stack can be stored. -/
def RoomFor (n : Node PagedMemory) (k : Nat) : Prop :=
  ∀ j < k, n.bus.refusal (n.top - 4 * UInt32.ofNat (j + 1)) .word = none

/-- Words going down from a place that is itself some words down. -/
theorem sub_words (a : Address) (k j : Nat) :
    a - 4 * UInt32.ofNat k - 4 * UInt32.ofNat j = a - 4 * UInt32.ofNat (k + j) := by
  rw [UInt32.ofNat_add, UInt32.mul_add]
  grind

/-- Room for some words is room for the first ones, and below them for the others. -/
theorem roomFor_add (hstays : n.bus.Stays n₁.bus) (htop : n₁.top = n.top - 4 * UInt32.ofNat k) :
    n.RoomFor (k + l) ↔ n.RoomFor k ∧ n₁.RoomFor l := by
  have hbelow : ∀ j, n₁.bus.refusal (n₁.top - 4 * UInt32.ofNat (j + 1)) .word =
      n.bus.refusal (n.top - 4 * UInt32.ofNat (k + j + 1)) .word := by
    intro j
    rw [Bus.refusal_congr hstays.pageCount, htop, sub_words]
    rfl
  unfold RoomFor
  simp only [hbelow]
  constructor
  · intro h
    exact ⟨fun j hj => h j (by omega), fun j hj => h (k + j) (by omega)⟩
  · rintro ⟨h, h'⟩ j hj
    by_cases hjk : j < k
    · exact h j hjk
    · rw [show j = k + (j - k) by omega]
      exact h' (j - k) (by omega)

/-- There is room if the top of the stack is aligned and lies within memory, so many words above the
start of the address space: no memory reaches to its end. -/
theorem roomFor_iff (hk : 0 < k) : n.RoomFor k ↔
    n.top % 4 = 0 ∧ 4 * k ≤ n.top.toNat ∧ n.top.toNat ≤ n.bus.memory.size := by
  have hlt := n.top.toNat_lt
  have hsize := n.bus.memory.size_lt
  have hmod := n.bus.memory.size_mod
  -- where the word `j` below the top lies, if it is not below the start of the address space
  have hdown : ∀ j, 4 * (j + 1) ≤ n.top.toNat →
      (n.top - 4 * UInt32.ofNat (j + 1)).toNat = n.top.toNat - 4 * (j + 1) := by
    intro j hj
    have hnat : (4 * UInt32.ofNat (j + 1)).toNat = 4 * (j + 1) := by
      rw [UInt32.toNat_mul, UInt32.toNat_ofNat_of_lt' (show j + 1 < 4294967296 by omega)]
      exact Nat.mod_eq_of_lt (show 4 * (j + 1) < 4294967296 by omega)
    rw [UInt32.toNat_sub_of_le _ _ (by rw [UInt32.le_iff_toNat_le, hnat]; exact hj), hnat]
  have hfour : Width.word.bytes = 4 := rfl
  have hbytes : (4 : UInt32).toNat = 4 := rfl
  simp only [RoomFor, Bus.refusal_eq_none_iff_memory, PagedMemory.refusal_eq_none_iff, hfour,
    hbytes, Address.dvd_four_iff]
  constructor
  · intro h
    obtain ⟨hfirst, hinside⟩ := h 0 hk
    have hnat : (n.top - 4 * UInt32.ofNat (0 + 1)).toNat =
        (4294967296 - 4 + n.top.toNat) % 4294967296 := UInt32.toNat_sub ..
    have halign : n.top.toNat % 4 = 0 := by omega
    refine ⟨halign, ?_, by omega⟩
    -- one of the words would be the last of the address space
    refine Nat.le_of_not_lt fun hshort => ?_
    have hlast : (n.top - 4 * UInt32.ofNat (n.top.toNat / 4 + 1)).toNat = 4294967296 - 4 := by
      have hnat : (4 * UInt32.ofNat (n.top.toNat / 4 + 1)).toNat =
          4 * (n.top.toNat / 4 + 1) % 4294967296 := by
        rw [UInt32.toNat_mul, UInt32.toNat_ofNat_of_lt' (show _ < 4294967296 by omega)]
        rfl
      rw [UInt32.toNat_sub, hnat]
      show (4294967296 - 4 * (n.top.toNat / 4 + 1) % 4294967296 + n.top.toNat) % 4294967296 = _
      omega
    have hin := (h (n.top.toNat / 4) (by omega)).2
    omega
  · rintro ⟨ha, hroom, hin⟩ j hj
    rw [hdown j (by omega)]
    omega

/-- Room for the words of a context. -/
theorem roomFor_context_iff : n.RoomFor 36 ↔
    n.top % 4 = 0 ∧ 144 ≤ n.top.toNat ∧ n.top.toNat ≤ n.bus.memory.size := by
  have h := roomFor_iff (n := n) (k := 36) (by decide)
  omega

/-! ## Pushes -/

/-- Some words are pushed: whether this succeeds depends on the room for them. -/
structure PushesWords (k : Nat) (x : NodeM PagedMemory Unit) : Prop where
  stack : ∀ {n n'}, x n = .ok () n' → n'.core.regs.ds = n.core.regs.ds ∧
    n'.core.regs.sp = n.core.regs.sp - 4 * UInt32.ofNat k
  stays : ∀ {n n'}, n.bus.Inside → x n = .ok () n' → n.bus.Stays n'.bus
  ok_iff : ∀ {n}, n.bus.Inside → ((∃ n', x n = .ok () n') ↔ n.RoomFor k)

variable {x y : NodeM PagedMemory Unit}

/-- The top of the stack moves down by the words pushed. -/
theorem PushesWords.top (h : PushesWords k x) (hrun : x n = .ok () n') :
    n'.top = n.top - 4 * UInt32.ofNat k := by
  obtain ⟨hds, hsp⟩ := h.stack hrun
  rw [Node.top, Core.dataAddress, hds, hsp, segmentAddress_sub]
  rfl

/-- Words may be pushed after words. There is room for all if there is for the first and then for
the rest. -/
theorem PushesWords.bind (hx : PushesWords k x) (hy : PushesWords l y) :
    PushesWords (k + l) (do x; y) where
  stack {n n'} hrun := by
    obtain ⟨_, n₁, hfirst, hrest⟩ := of_bind_eq_ok hrun
    obtain ⟨hds, hsp⟩ := hx.stack hfirst
    obtain ⟨hds', hsp'⟩ := hy.stack hrest
    exact ⟨hds'.trans hds, by rw [hsp', hsp, sub_words]⟩
  stays {n n'} h hrun := by
    obtain ⟨_, n₁, hfirst, hrest⟩ := of_bind_eq_ok hrun
    have h₁ := hx.stays h hfirst
    exact h₁.trans (hy.stays h₁.inside hrest)
  ok_iff {n} h := by
    constructor
    · rintro ⟨n', hrun⟩
      obtain ⟨_, n₁, hfirst, hrest⟩ := of_bind_eq_ok hrun
      have h₁ := hx.stays h hfirst
      exact (roomFor_add h₁ (hx.top hfirst)).2
        ⟨(hx.ok_iff h).1 ⟨n₁, hfirst⟩, (hy.ok_iff h₁.inside).1 ⟨n', hrest⟩⟩
    · intro hroom
      obtain ⟨n₁, hfirst⟩ := (hx.ok_iff h).2 fun j hj => hroom j (by omega)
      have h₁ := hx.stays h hfirst
      obtain ⟨n', hrest⟩ := (hy.ok_iff h₁.inside).2 ((roomFor_add h₁ (hx.top hfirst)).1 hroom).2
      exact ⟨n', (bind_of_ok hfirst).trans hrest⟩

/-- The words may depend on the registers. -/
theorem PushesWords.getRegs_bind {f : RegisterFile → NodeM PagedMemory Unit}
    (h : ∀ regs, PushesWords k (f regs)) : PushesWords k (getRegs >>= f) where
  stack {n _} hrun := (h n.core.regs).stack hrun
  stays {n _} hin hrun := (h n.core.regs).stays hin hrun
  ok_iff {n} hin := (h n.core.regs).ok_iff hin

/-- What leaves the bus and the stack alone pushes nothing. -/
theorem pushesWords_zero (hx : ∀ n, ∃ n', x n = .ok () n' ∧ n'.bus = n.bus ∧
    n'.core.regs.ds = n.core.regs.ds ∧ n'.core.regs.sp = n.core.regs.sp) : PushesWords 0 x where
  stack {n n'} hrun := by
    obtain ⟨n₁, hok, -, hds, hsp⟩ := hx n
    cases hrun.symm.trans hok
    exact ⟨hds, hsp.trans (UInt32.sub_zero _).symm⟩
  stays {n n'} h hrun := by
    obtain ⟨n₁, hok, hbus, -⟩ := hx n
    cases hrun.symm.trans hok
    rw [hbus]
    exact h.stays
  ok_iff {n} h := by
    obtain ⟨n₁, hok, -⟩ := hx n
    exact ⟨fun _ j hj => absurd hj (Nat.not_lt_zero j), fun _ => ⟨n₁, hok⟩⟩

/-- A push is one word, refused if there is no room below the top. -/
theorem pushesWords_push (v : UInt32) : PushesWords 1 (push v) where
  stack {n n'} hrun := by
    have hone : 4 * UInt32.ofNat 1 = 4 := rfl
    rw [core_of_push_ok hrun, hone]
    exact ⟨rfl, rfl⟩
  stays {n n'} h hrun := (stays_of_push_ok h hrun).1
  ok_iff {n} h := by
    have hroom : n.RoomFor 1 ↔ n.bus.refusal (n.top - 4) .word = none :=
      ⟨fun h => h 0 Nat.zero_lt_one, fun h j hj => by rwa [Nat.lt_one_iff.1 hj]⟩
    rw [hroom]
    rcases hrun : push v n with ⟨⟨⟩, n'⟩ | ⟨fault, n'⟩
    · refine ⟨fun _ => ?_, fun _ => ⟨n', rfl⟩⟩
      rw [Option.eq_none_iff_forall_ne_some]
      intro fault hr
      obtain ⟨n₁, herror⟩ := (push_error_iff h v).2 (Bus.refusal_eq_some_iff.1 hr)
      cases hrun.symm.trans herror
    · have hr := Bus.refusal_eq_some_iff.2 ((push_error_iff h v).1 ⟨n', hrun⟩)
      rw [hr]
      constructor
      · rintro ⟨_, hok⟩
        cases hok
      · intro hnone
        cases hnone

/-- A list is as many words, by induction. -/
theorem pushesWords_forM (l : List UInt32) : PushesWords l.length (l.forM push) := by
  induction l with
  | nil => exact pushesWords_zero fun n => ⟨n, rfl, rfl, rfl, rfl⟩
  | cons v rest ih =>
    rw [List.length_cons, Nat.add_comm, List.forM_eq_forM, List.forM_cons]
    exact (pushesWords_push v).bind ih

/-- A frame is two words. -/
theorem pushesWords_pushFrame : PushesWords 2 (pushFrame : NodeM PagedMemory Unit) := by
  show PushesWords (1 + (1 + 0)) _
  unfold pushFrame
  refine .getRegs_bind fun regs => .bind (pushesWords_push regs.ip) ?_
  refine .getRegs_bind fun regs => .bind (pushesWords_push regs.fp) ?_
  exact pushesWords_zero fun n => ⟨_, rfl, rfl, rfl, rfl⟩

/-- The context that is saved on entry takes 36 words. -/
theorem pushesWords_saveContext (ds sp : UInt32) :
    PushesWords 36 (saveContext ds sp : NodeM PagedMemory Unit) := by
  show PushesWords (1 + (1 + (1 + (1 + (30 + 2))))) _
  unfold saveContext
  refine .bind (pushesWords_push ds) (.bind (pushesWords_push sp) ?_)
  refine .getRegs_bind fun regs => .bind (pushesWords_push regs.cs) ?_
  refine .getRegs_bind fun regs => .bind (pushesWords_push regs.flags.pack) ?_
  refine .getRegs_bind fun regs => .bind ?_ pushesWords_pushFrame
  have h := pushesWords_forM regs.general.toList
  rwa [Vector.length_toList] at h

/-! ## Entries -/

/-- A handler is opened if its stack has room for the context. -/
theorem openHandler_ok_iff (h : n.bus.Inside) {index : UInt32} {v : InterruptVector} {sp : UInt32}
    {page : Option UInt32} : (∃ n', openHandler index v sp page n = .ok () n') ↔
      (n.mapRegs fun regs => { regs with ds := v.ds.toUInt32, sp }).RoomFor 36 := by
  have hsave := (pushesWords_saveContext n.core.regs.ds n.core.regs.sp).ok_iff
    (n := n.mapRegs fun regs => { regs with ds := v.ds.toUInt32, sp }) h
  refine Iff.trans ?_ hsave
  unfold openHandler
  rw [getRegs_bind, modifyRegs_bind]
  constructor
  · rintro ⟨n', hrun⟩
    obtain ⟨_, n₁, hsave, -⟩ := of_bind_eq_ok hrun
    exact ⟨n₁, onFailure_eq_ok_iff.1 hsave⟩
  · rintro ⟨n₁, hsave⟩
    rw [bind_of_ok (onFailure_eq_ok_iff.2 hsave)]
    exact ⟨_, rfl⟩

/-- The stack pointer of a handler before the context is saved: the one of its vector, or the end
of its page. -/
def handlerTop (v : InterruptVector) : Option UInt32 → UInt32
  | none => v.sp
  | some page => pageBase page + pageSize - segmentAddress v.ds.toUInt32 0

/-- The core starts out in the handler of a vector: in its code segment at its entry point, with its
data segment, and with 36 words on its stack, which is a page if the vector has no stack pointer. -/
structure Starts (v : InterruptVector) (c : Core) : Prop where
  cs : c.regs.cs = v.cs.toUInt32
  ip : c.regs.ip = v.ip
  ds : c.regs.ds = v.ds.toUInt32
  sp : ∃ page outer, c.interruptStacks = page :: outer ∧ (page = none ↔ v.sp ≠ 0) ∧
    c.regs.sp = handlerTop v page - 144

/-- A handler that is opened starts out with its stack. -/
theorem starts_of_openHandler {index : UInt32} {v : InterruptVector} {page : Option UInt32}
    (hpage : page = none ↔ v.sp ≠ 0)
    (hrun : openHandler index v (handlerTop v page) page n = .ok () n') : Starts v n'.core := by
  unfold openHandler at hrun
  rw [getRegs_bind, modifyRegs_bind] at hrun
  obtain ⟨_, n₁, hsave, hlast⟩ := of_bind_eq_ok hrun
  obtain ⟨hds, hsp⟩ := (pushesWords_saveContext _ _).stack (onFailure_eq_ok_iff.1 hsave)
  cases hlast
  exact ⟨rfl, rfl, hds, page, n₁.core.interruptStacks, rfl, hpage, hsp⟩

/-- A handler gets the stack of its vector, or a page if there is none. -/
theorem handlerStack_eq_ok {v : InterruptVector} {stack : UInt32 × Option UInt32}
    (hrun : handlerStack v n = .ok stack n') :
    stack.1 = handlerTop v stack.2 ∧ (stack.2 = none ↔ v.sp ≠ 0) := by
  unfold handlerStack at hrun
  split at hrun
  · next hsp =>
    obtain ⟨page, n₁, -, hlast⟩ := of_bind_eq_ok hrun
    cases hlast
    exact ⟨rfl, nofun, fun hn => absurd hsp hn⟩
  · next hsp =>
    cases hrun
    exact ⟨rfl, fun _ => hsp, fun _ => rfl⟩

/-- A handler that is entered is that of the record that memory has. -/
theorem starts_of_enterHandler {table : Address} {index : UInt32}
    (hrun : enterHandler table index n = .ok () n') :
    n.bus.memory.HasVector (PhysicalMemory.vectorAddress table index) ∧
      Starts (n.bus.memory.vectorAt (PhysicalMemory.vectorAddress table index)) n'.core := by
  rw [enterHandler_eq] at hrun
  obtain ⟨v, n₁, hvector, hrun⟩ := of_bind_eq_ok hrun
  obtain ⟨m, hload, -⟩ := of_onMemory_eq_ok hvector
  obtain ⟨hhas, rfl, -⟩ := PagedMemory.loadVector_eq_ok_iff.1 hload
  obtain ⟨stack, n₂, hstack, hopen⟩ := of_bind_eq_ok hrun
  obtain ⟨hsp, hpage⟩ := handlerStack_eq_ok hstack
  rw [hsp] at hopen
  exact ⟨hhas, starts_of_openHandler hpage hopen⟩

/-- An offset is the distance of its address from the start of the segment. -/
theorem segmentAddress_sub_base (ds : UInt32) (a : Address) :
    segmentAddress ds (a - segmentAddress ds 0) = a := by
  unfold segmentAddress
  grind

/-- The end of a page of memory has room for a context. -/
theorem roomFor_page {q : Nat} (hq : q < n.bus.memory.pageCount)
    (htop : n.top = pageBase q.toUInt32 + pageSize) : n.RoomFor 36 := by
  have hcount := n.bus.memory.pageCount_lt
  have hnat : n.top.toNat = q * 256 + 256 := by
    have hq' : q.toUInt32.toNat = q := UInt32.toNat_ofNat_of_lt' (show q < 4294967296 by omega)
    rw [htop, UInt32.toNat_add, pageBase, UInt32.toNat_mul, hq']
    show (q * 256 % 4294967296 + 256) % 4294967296 = _
    omega
  rw [roomFor_context_iff, Address.dvd_four_iff, hnat, PagedMemory.size]
  omega

theorem bus_mapRegs {β : Type} (n : Node β) (f : RegisterFile → RegisterFile) :
    (n.mapRegs f).bus = n.bus :=
  rfl

/-- If a page is free, it is allocated, and all lines still lie within memory. -/
theorem inside_of_allocatePage (h : n.bus.Reached) {segment : Option UInt32} {q : Nat}
    (hq : n.bus.memory.nextFree? segment = some q) :
    ∃ n₁, allocatePage segment n = .ok q.toUInt32 n₁ ∧ n₁.bus.Inside ∧
      n₁.bus.memory.pageCount = n.bus.memory.pageCount := by
  obtain ⟨m, halloc, hhanded, -⟩ := PagedMemory.allocatePage_of_some hq
  have hstays := (h.memory hhanded.pageCount).inside.broadcast none (.page q.toUInt32) false true
  exact ⟨_, allocatePage_of_ok halloc, hstays.inside, hstays.pageCount.trans hhanded.pageCount⟩

/-- The handler of a vector is opened exactly if memory has a stack for it. -/
theorem opens_iff_hasStack (h : n.bus.Reached) (index : UInt32) (v : InterruptVector) :
    (∃ n', (do let stack ← handlerStack v; openHandler index v stack.1 stack.2) n = .ok () n') ↔
      n.bus.memory.HasStack v := by
  by_cases hsp : v.sp = 0
  · rw [PagedMemory.HasStack, if_pos hsp]
    rcases hp : n.bus.memory.nextFree? (some v.ds.toUInt32) with _ | q
    · have hstack : handlerStack v n = .error (.memory .noFreePage) n := by
        rw [handlerStack, if_pos hsp]
        exact bind_of_error (allocatePage_of_none hp)
      rw [bind_of_error hstack]
      refine iff_of_false ?_ nofun
      rintro ⟨n', hrun⟩
      cases hrun
    · obtain ⟨n₁, halloc, hinside, hcount⟩ := inside_of_allocatePage h hp
      have hstack : handlerStack v n =
          .ok (handlerTop v (some q.toUInt32), some q.toUInt32) n₁ := by
        rw [handlerStack, if_pos hsp]
        exact bind_of_ok halloc
      have hroom : (n₁.mapRegs fun regs => { regs with
          ds := v.ds.toUInt32
          sp := handlerTop v (some q.toUInt32) }).RoomFor 36 := by
        refine roomFor_page (q := q) ?_ (segmentAddress_sub_base ..)
        rw [bus_mapRegs, hcount]
        exact PagedMemory.lt_of_nextFree? hp
      rw [bind_of_ok hstack]
      exact iff_of_true ((openHandler_ok_iff hinside).2 hroom) rfl
  · have hstack : handlerStack v n = .ok (v.sp, none) n := by
      rw [handlerStack, if_neg hsp]
      rfl
    have hroom : (∃ n', openHandler index v v.sp none n = .ok () n') ↔
        segmentAddress v.ds.toUInt32 v.sp % 4 = 0 ∧
          144 ≤ (segmentAddress v.ds.toUInt32 v.sp).toNat ∧
          (segmentAddress v.ds.toUInt32 v.sp).toNat ≤ n.bus.memory.size :=
      (openHandler_ok_iff h.inside).trans roomFor_context_iff
    rw [PagedMemory.HasStack, if_neg hsp, bind_of_ok hstack, hroom]

/-- A handler is entered exactly if memory has the record of its vector and a stack for it. -/
theorem enterHandler_ok_iff (h : n.bus.Reached) {table : Address} {index : UInt32} :
    (∃ n', enterHandler table index n = .ok () n') ↔
      n.bus.memory.HasVector (PhysicalMemory.vectorAddress table index) ∧
      n.bus.memory.HasStack
        (n.bus.memory.vectorAt (PhysicalMemory.vectorAddress table index)) := by
  by_cases hhas : n.bus.memory.HasVector (PhysicalMemory.vectorAddress table index)
  · have hvector : onMemory (PhysicalMemory.loadVector table index) n =
        .ok (n.bus.memory.vectorAt (PhysicalMemory.vectorAddress table index)) n := by
      rw [onMemory, onBus, Bus.onMemory, PagedMemory.loadVector_eq_ok_iff.2 ⟨hhas, rfl, rfl⟩]
    rw [enterHandler_eq, bind_of_ok hvector, and_iff_right hhas]
    exact opens_iff_hasStack h index _
  · refine iff_of_false ?_ fun hn => hhas hn.1
    rintro ⟨n', hrun⟩
    exact hhas (starts_of_enterHandler hrun).1

/-- A handler that is entered is that of the record in memory, and an entry that fails has left the
core alone. -/
theorem enterHandler_outcome (table : Address) (index : UInt32) (n : Node PagedMemory) :
    let v := n.bus.memory.vectorAt (PhysicalMemory.vectorAddress table index)
    (∃ n', enterHandler table index n = .ok () n' ∧
      n.bus.memory.HasVector (PhysicalMemory.vectorAddress table index) ∧
      Enters v n.core n'.core ∧ Starts v n'.core) ∨
    ∃ fault n', enterHandler table index n = .error fault n' ∧ n'.core = n.core := by
  intro v
  obtain ⟨n', w, memory, hok, hload, henters⟩ | ⟨fault, n', herror, -⟩ :=
    enterHandler_cases table index n
  · obtain ⟨hhas, rfl, -⟩ := PagedMemory.loadVector_eq_ok_iff.1 hload
    exact .inl ⟨n', hok, hhas, henters, (starts_of_enterHandler hok).2⟩
  · exact .inr ⟨fault, n', herror, enterHandler_failsWithin table index n fault n' herror⟩

/-- A hardware interrupt that is taken enters the handler of the record in memory, or it kills the
core and leaves the rest of it alone. -/
theorem interrupt_outcome (p : Platform) (index : UInt32) (ha : n.core.isAlive = true)
    (hi : n.core.regs.flags.interruptsEnabled = true) :
    let a := PhysicalMemory.vectorAddress p.vectorTable index
    let v := n.bus.memory.vectorAt a
    ∃ n', interrupt p index n = (true, n') ∧
      ((∃ n₁, enterHandler p.vectorTable index n.wake = .ok () n₁) ∧
          n.bus.memory.HasVector a ∧ Enters v n.core n'.core ∧ Starts v n'.core ∨
        (∃ fault n₁, enterHandler p.vectorTable index n.wake = .error fault n₁ ∧ n'.core =
          { n.core with state := .halted, exitCode := 1, lastFault := some fault })) := by
  intro a v
  obtain ⟨state, hwake⟩ := core_wake n
  have hout := enterHandler_outcome p.vectorTable index n.wake
  rw [bus_wake] at hout
  obtain ⟨n₁, hok, hhas, henters, hstarts⟩ | ⟨fault, n₁, herror, hcore⟩ := hout
  · have hrun : interrupt p index n = (true, n₁) := by
      rw [interrupt, if_pos ⟨ha, hi⟩, hok]
    rw [hwake] at henters
    exact ⟨n₁, hrun, .inl ⟨⟨n₁, hok⟩, hhas, ⟨henters.frame, henters.active, henters.privileged,
      henters.cs, henters.ip⟩, hstarts⟩⟩
  · have hrun : interrupt p index n = (true, n₁.die fault) := by
      rw [interrupt, if_pos ⟨ha, hi⟩, herror]
    have hs : n₁.core.state ≠ .halted := by
      rw [hcore]
      exact Core.ne_halted_of_isAlive (isAlive_wake ha)
    refine ⟨n₁.die fault, hrun, .inr ⟨fault, n₁, herror, ?_⟩⟩
    rw [core_die hs, hcore, hwake]

/-- A software interrupt that no service takes, and a hardware interrupt that an alive core takes,
enter the handler of the record that memory has at the address of its number, or else they fail with
a fault and leave the registers alone. For every number, on a bus that can be reached, they enter it
exactly if memory has a record there, aligned and in bounds, and a stack for it. No more is asked of
the number: it need not be that of a record of the table, which it is exactly if it is below the
number of records up to multiples of `0x40000000`. -/
theorem entered_through_any_record (p : Platform) (index : UInt32) (n : Node PagedMemory) :
    let a := PhysicalMemory.vectorAddress p.vectorTable index
    let v := n.bus.memory.vectorAt a
    (p.services[index]? = none →
      ((∃ n', softwareInterrupt p index n = .ok () n' ∧ n.bus.memory.HasVector a ∧
          Enters v n.core n'.core ∧ Starts v n'.core) ∨
        ∃ fault n', softwareInterrupt p index n = .error fault n' ∧ n'.core = n.core) ∧
      (n.bus.Reached → ((∃ n', softwareInterrupt p index n = .ok () n') ↔
        n.bus.memory.HasVector a ∧ n.bus.memory.HasStack v))) ∧
    (n.core.isAlive = true → n.core.regs.flags.interruptsEnabled = true →
      ∃ n', interrupt p index n = (true, n') ∧
        (n.bus.memory.HasVector a ∧ Enters v n.core n'.core ∧ Starts v n'.core ∨
          ∃ fault, n'.core =
            { n.core with state := .halted, exitCode := 1, lastFault := some fault }) ∧
        (n.bus.Reached → (Enters v n.core n'.core ↔
          n.bus.memory.HasVector a ∧ n.bus.memory.HasStack v))) ∧
    (¬ (n.core.isAlive = true ∧ n.core.regs.flags.interruptsEnabled = true) →
      interrupt p index n = (false, n)) ∧
    ((∃ k < vectorCount, PhysicalMemory.vectorAddress p.vectorTable k = a) ↔
      index.toNat % 0x40000000 < vectorCount.toNat) := by
  intro a v
  refine ⟨fun hnone => ?_, fun ha hi => ?_, fun hn => if_neg hn,
    vectorAddress_in_table_iff p.vectorTable index⟩
  · have hrun : (softwareInterrupt p index : NodeM PagedMemory Unit) =
        enterHandler p.vectorTable index := by
      rw [softwareInterrupt, hnone]
    rw [hrun]
    exact ⟨enterHandler_outcome p.vectorTable index n, fun h => enterHandler_ok_iff h⟩
  · obtain ⟨n', hrun, hout⟩ := interrupt_outcome p index ha hi
    refine ⟨n', hrun, hout.imp And.right fun ⟨fault, _, _, h⟩ => ⟨fault, h⟩, fun h => ?_⟩
    have hiff : (∃ n₁, enterHandler p.vectorTable index n.wake = .ok () n₁) ↔
        n.wake.bus.memory.HasVector a ∧ n.wake.bus.memory.HasStack (n.wake.bus.memory.vectorAt a) :=
      enterHandler_ok_iff (by rwa [bus_wake])
    rw [bus_wake] at hiff
    rw [← hiff]
    obtain ⟨hok, -, henters, -⟩ | ⟨fault, n₁, herror, hcore⟩ := hout
    · exact iff_of_true henters hok
    · refine iff_of_false (fun henters => ?_) ?_
      · -- a dead core has no new frame
        obtain ⟨frame, hframes, -⟩ := henters.frame
        rw [hcore] at hframes
        exact List.cons_ne_self _ _ hframes.symm
      · rintro ⟨n₂, hok⟩
        cases herror.symm.trans hok

/-- An interrupt whose number goes once around the address space enters the first handler of the
table, and so the record is one of the table. -/
theorem entered_through_any_record_of_wrapping :
    let n : Node PagedMemory :=
      { bus := { memory := (PagedMemory.ofSize 1024).setBytes 0 (bytesOfWords [0, 64, 512])
                 capacity := 128 }
        core := { Core.new 0 4 with
          state := .running
          regs := { sp := 256, ip := 32, flags := { interruptsEnabled := true } } } }
    (∃ n', softwareInterrupt {} 0x40000000 n = .ok () n') ∧
      (∃ n', interrupt {} 0x40000000 n = (true, n') ∧ Enters ⟨0, 0, 64, 512⟩ n.core n'.core) ∧
      ∃ k < vectorCount, PhysicalMemory.vectorAddress 0 k =
        PhysicalMemory.vectorAddress 0 0x40000000 := by
  intro n
  have hreached : n.bus.Reached := .start fun _ a => Bus.line?_empty 128 a
  have hvector : n.bus.memory.vectorAt (PhysicalMemory.vectorAddress 0 0x40000000) =
      ⟨0, 0, 64, 512⟩ := by decide +kernel
  have hhas : n.bus.memory.HasVector (PhysicalMemory.vectorAddress 0 0x40000000) := by
    decide +kernel
  have hstack : n.bus.memory.HasStack ⟨0, 0, 64, 512⟩ := by decide +kernel
  obtain ⟨hsoftware, hhardware, -, hindex⟩ := entered_through_any_record {} 0x40000000 n
  rw [hvector] at hsoftware hhardware
  obtain ⟨n', hrun, -, henters⟩ := hhardware rfl rfl
  exact ⟨((hsoftware (by decide +kernel)).2 hreached).2 ⟨hhas, hstack⟩,
    ⟨n', hrun, (henters hreached).2 ⟨hhas, hstack⟩⟩, hindex.2 (by decide)⟩

/-- The first record behind the table is taken for one of the table: unprivileged code that raises
the interrupt with its number, which is the number of records, goes on in privileged mode where the
record says, and so does code that gets this interrupt from outside. -/
theorem entered_beyond_table :
    let n : Node PagedMemory :=
      { bus := { memory := (PagedMemory.ofSize 1024).setBytes 768 (bytesOfWords [0, 64, 512])
                 capacity := 128 }
        core := { Core.new 0 4 with
          state := .running
          regs := { sp := 256, ip := 32, flags := { interruptsEnabled := true } } } }
    ({} : Platform).services[vectorCount]? = none ∧
      PhysicalMemory.vectorAddress 0 vectorCount = vectorCount * vectorSize ∧
      n.core.regs.flags.privileged = false ∧
      (∃ n', softwareInterrupt {} vectorCount n = .ok () n' ∧
        n'.core.regs.flags.privileged = true ∧ n'.core.regs.cs = 0 ∧ n'.core.regs.ip = 64) ∧
      ∃ n', interrupt {} vectorCount n = (true, n') ∧
        n'.core.regs.flags.privileged = true ∧ n'.core.regs.cs = 0 ∧ n'.core.regs.ip = 64 := by
  intro n
  have hvector : n.bus.memory.vectorAt (PhysicalMemory.vectorAddress 0 vectorCount) =
      ⟨0, 0, 64, 512⟩ := by decide +kernel
  have hok : ∀ n' : Node PagedMemory, n'.bus = n.bus →
      ∃ n'', enterHandler 0 vectorCount n' = .ok () n'' := by
    intro n' hbus
    refine (enterHandler_ok_iff ?_).2 ?_
    · rw [hbus]
      exact .start fun _ a => Bus.line?_empty 128 a
    · rw [hbus, hvector]
      decide +kernel
  refine ⟨by decide +kernel, rfl, rfl, ?_, ?_⟩
  · obtain ⟨n', hrun⟩ := hok n rfl
    obtain ⟨_, hrun', -, henters, -⟩ | ⟨fault, _, herror, -⟩ :=
      enterHandler_outcome 0 vectorCount n
    · rw [hvector] at henters
      exact ⟨_, hrun', henters.privileged, henters.cs, henters.ip⟩
    · cases hrun.symm.trans herror
  · obtain ⟨n', hrun, ⟨-, -, henters, -⟩ | ⟨fault, n₁, herror, -⟩⟩ :=
      interrupt_outcome (n := n) {} vectorCount rfl rfl
    · rw [hvector] at henters
      exact ⟨n', hrun, henters.privileged, henters.cs, henters.ip⟩
    · obtain ⟨n'', hok'⟩ := hok n.wake (bus_wake n)
      cases hok'.symm.trans herror

end Node

end Multicore
