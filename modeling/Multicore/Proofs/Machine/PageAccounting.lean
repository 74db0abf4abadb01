import Mathlib.Data.List.ReduceOption
import Multicore.Proofs.Machine.PageTurns
import Multicore.Proofs.Machine.Runs
import Multicore.Proofs.Machine.Sweep

/-!
# Page accounting

Whatever is done with which core, as long as the guest frees only pages that it holds
(`Machine.Disciplined`), every allocated page has exactly one owner: it was allocated in the
beginning, or the guest holds it, or it is the stack of an active handler of some core
(`Machine.allocated_pages_owned`). What the guest holds is an account beside the run, kept by the
requests to the memory service and its answers (`Machine.heldAfter`).
-/

namespace Multicore

open Std Node

/-! ## Balances -/

/-- The allocated pages are those in use, and no page is in use twice. -/
structure Balanced (pages : TreeSet Nat) (used : List Nat) : Prop where
  nodup : used.Nodup
  mem : ∀ q, q ∈ pages ↔ q ∈ used

namespace Balanced

variable {pages : TreeSet Nat} {used used' : List Nat} {n n' : Node PagedMemory}
  {page : Option UInt32}

/-- A set of pages balances its own list. -/
theorem of_toList (pages : TreeSet Nat) : Balanced pages pages.toList where
  nodup := PagedMemory.nodup_toList pages
  mem _ := TreeSet.mem_toList.symm

/-- The order of the pages in use does not matter. -/
theorem perm (h : Balanced pages used) (hperm : used.Perm used') : Balanced pages used' :=
  ⟨hperm.nodup h.nodup, fun q => (h.mem q).trans hperm.mem_iff⟩

/-- The allocated pages are a rearrangement of those in use. -/
theorem toList_perm (h : Balanced pages used) : pages.toList.Perm used := by
  have hall := of_toList pages
  exact (List.perm_ext_iff_of_nodup hall.nodup h.nodup).2 fun q => (hall.mem q).symm.trans (h.mem q)

/-- A balance stays if nothing happens to pages. -/
theorem same (h : Balanced n.bus.memory.allocated used) (hs : n.SamePages n') :
    Balanced n'.bus.memory.allocated used :=
  ⟨h.nodup, fun q => (hs.allocated q).trans (h.mem q)⟩

/-- A page that is gained is in use from then on. -/
theorem gains (h : Balanced n.bus.memory.allocated used) (hg : Gains page n n') :
    Balanced n'.bus.memory.allocated (page.toList.map UInt32.toNat ++ used) := by
  cases page with
  | none => exact ⟨h.nodup, fun q => by simp [hg.allocated, h.mem]⟩
  | some p =>
    have hp : p.toNat ∉ used := fun hm => hg.fresh p rfl ((h.mem _).2 hm)
    refine ⟨List.nodup_cons.2 ⟨hp, h.nodup⟩, fun q => ?_⟩
    simp [hg.allocated, h.mem, eq_comm]

/-- A page that is lost was in use until then. -/
theorem loses (h : Balanced n.bus.memory.allocated (page.toList.map UInt32.toNat ++ used))
    (hl : Loses page n n') : Balanced n'.bus.memory.allocated used := by
  have hmem := hl fun p e => (h.mem _).2 (by simp [e])
  cases page with
  | none => exact ⟨h.nodup, fun q => by simp [hmem, h.mem]⟩
  | some p =>
    obtain ⟨hp, hnodup⟩ := List.nodup_cons.1 h.nodup
    refine ⟨hnodup, fun q => ?_⟩
    rw [hmem, h.mem]
    simp only [Option.map_some, ne_eq, Option.some.injEq, Option.toList_some, List.map_cons,
      List.map_nil, List.singleton_append, List.mem_cons]
    constructor
    · rintro ⟨hne, rfl | hq⟩
      · exact absurd rfl hne
      · exact hq
    · exact fun hq => ⟨fun e => hp (e ▸ hq), .inr hq⟩

end Balanced

/-- There are no more allocated pages than pages. -/
theorem PagedMemory.size_allocated_le (m : PagedMemory) : m.allocated.size ≤ m.pageCount := by
  rw [m.size_allocated_eq_countP]
  exact List.countP_le_length.trans_eq List.length_range

/-! ## Accounts -/

/-- The pages of the stacks of a core's active handlers. -/
def Core.stackPages (c : Core) : List UInt32 := c.interruptStacks.reduceOption

/-- The pages that a guest holds when one more request is served. -/
def Node.held (request : Option MemoryRequest) (n n' : Node PagedMemory) (held : List UInt32) :
    List UInt32 :=
  (granted? request n').toList ++ held.diff (freed? request n).toList

namespace Machine

/-- The pages of the stacks of the active handlers of all cores, halted ones included. -/
def stackPages {β : Type} (m : Machine β) : List UInt32 := m.cores.flatMap Core.stackPages

/-- The pages that the guest holds after one more operation. -/
def hold (m : Machine PagedMemory) (held : List UInt32) (op : Nat × Operation) : List UInt32 :=
  match m.node? op.1 with
  | none => held
  | some n => Node.held (op.2.request? m.platform n) n (op.2.perform m.platform n) held

/-- The pages that the guest holds after a run, if it held some before: those that the memory
service granted and that were not freed since. -/
def heldAfter (m : Machine PagedMemory) (held : List UInt32) : List (Nat × Operation) → List UInt32
  | [] => held
  | op :: ops => heldAfter (op.2.onMachine m op.1) (m.hold held op) ops

/-- The page that the guest frees by an operation. -/
def frees? (m : Machine PagedMemory) (op : Nat × Operation) : Option UInt32 :=
  (m.node? op.1).bind fun n => freed? (op.2.request? m.platform n) n

/-- Along a run, the guest frees only pages that it holds. -/
def Disciplined (m : Machine PagedMemory) (held : List UInt32) : List (Nat × Operation) → Prop
  | [] => True
  | op :: ops =>
    (∀ page ∈ m.frees? op, page ∈ held) ∧
      Disciplined (op.2.onMachine m op.1) (m.hold held op) ops

instance decidableDisciplined : (m : Machine PagedMemory) → (held : List UInt32) →
    (ops : List (Nat × Operation)) → Decidable (Disciplined m held ops)
  | _, _, [] => isTrue trivial
  | m, held, op :: ops =>
    -- named, since a search would rather try every page number
    @instDecidableAnd _ _ (Option.decidableForallMem (m.frees? op))
      (decidableDisciplined (op.2.onMachine m op.1) (m.hold held op) ops)

end Machine

/-! ## One operation -/

namespace Node

variable {n n' : Node PagedMemory} {granted freed : Option UInt32} {held : List UInt32}
  {rest : List Nat}

/-- A handler's stack is in use as long as the handler is active. -/
theorem stackPages_of_cons {c c' : Core} {page : Option UInt32}
    (h : c'.interruptStacks = page :: c.interruptStacks) :
    c'.stackPages = page.toList ++ c.stackPages := by
  unfold Core.stackPages
  rw [h]
  cases page <;> rfl

/-- The page of a handler's stack may be counted before the pages of the guest. -/
theorem perm_stackPages (page : Option UInt32) (held pages : List UInt32) (rest : List Nat) :
    (page.toList.map UInt32.toNat ++ ((held ++ pages).map UInt32.toNat ++ rest)).Perm
      ((held ++ (page.toList ++ pages)).map UInt32.toNat ++ rest) := by
  rw [← List.append_assoc, ← List.map_append]
  exact ((List.perm_append_comm_assoc page.toList held pages).map _).append_right rest

/-- Whatever a core does with pages, the balance is kept if the guest frees what it holds. -/
theorem PageUse.balanced (hu : PageUse n n' granted freed) (hfreed : ∀ page ∈ freed, page ∈ held)
    (h : Balanced n.bus.memory.allocated
      ((held ++ n.core.stackPages).map UInt32.toNat ++ rest)) :
    Balanced n'.bus.memory.allocated
      ((granted.toList ++ held.diff freed.toList ++ n'.core.stackPages).map UInt32.toNat ++
        rest) := by
  cases hu with
  | keeps same =>
    rw [Core.stackPages, same.active]
    exact h.same same
  | @grants page gains active =>
    rw [Core.stackPages, active]
    exact h.gains gains
  | @frees page loses active =>
    rw [Core.stackPages, active]
    have hperm := (List.perm_cons_erase (hfreed page rfl)).append_right n.core.stackPages
    have hfirst : Balanced n.bus.memory.allocated ((some page).toList.map UInt32.toNat ++
        ((held.erase page ++ n.core.stackPages).map UInt32.toNat ++ rest)) :=
      h.perm ((hperm.map UInt32.toNat).append_right rest)
    rw [Option.toList_some, List.diff_cons, List.diff_nil]
    exact hfirst.loses loses
  | @enters page gains active =>
    rw [stackPages_of_cons active]
    exact (h.gains gains).perm (perm_stackPages page held _ rest)
  | @leaves page loses active =>
    rw [stackPages_of_cons active] at h
    exact (h.perm (perm_stackPages page held _ rest).symm).loses loses

/-- A page that is granted, or that a handler gets, was free. -/
theorem PageUse.fresh (hu : PageUse n n' granted freed) {page : UInt32}
    (hpage : granted = some page ∨ n'.core.interruptStacks = some page :: n.core.interruptStacks) :
    page.toNat ∉ n.bus.memory.allocated := by
  have hne {head : Option UInt32} {tail : List (Option UInt32)} : tail ≠ head :: tail :=
    fun e => by simpa using congrArg List.length e
  cases hu with
  | keeps same =>
    obtain hpage | hactive := hpage
    · cases hpage
    · exact absurd (same.active.symm.trans hactive) hne
  | grants gains active =>
    obtain hpage | hactive := hpage
    · exact gains.fresh page hpage
    · exact absurd (active.symm.trans hactive) hne
  | frees loses active =>
    obtain hpage | hactive := hpage
    · cases hpage
    · exact absurd (active.symm.trans hactive) hne
  | enters gains active =>
    obtain hpage | hactive := hpage
    · cases hpage
    · exact gains.fresh page (List.cons.inj (active.symm.trans hactive)).1
  | leaves loses active =>
    obtain hpage | hactive := hpage
    · cases hpage
    · have hlength := congrArg List.length active
      rw [hactive, List.length_cons, List.length_cons] at hlength
      omega

end Node

/-! ## Runs -/

/-- What belongs to one element of a list stands apart from what belongs to the others. -/
theorem exists_perm_flatMap {α γ : Type} (f : α → List γ) {l : List α} {i : Nat}
    (hi : i < l.length) : ∃ rest, ∀ a, ((l.set i a).flatMap f).Perm (f a ++ rest) := by
  refine ⟨(l.take i).flatMap f ++ (l.drop (i + 1)).flatMap f, fun a => ?_⟩
  rw [List.set_eq_take_append_cons_drop, if_pos hi, List.flatMap_append, List.flatMap_cons]
  exact List.perm_append_comm_assoc ..

namespace Machine

variable {m : Machine PagedMemory} {held : List UInt32} {reserved : List Nat} {i : Nat}
  {n : Node PagedMemory}

/-- Every allocated page has one owner: it is reserved, or the guest holds it, or it is the stack of
an active handler. A core that was not started has no handlers. -/
structure Owned (m : Machine PagedMemory) (held : List UInt32) (reserved : List Nat) : Prop where
  sound : m.Sound
  unstarted : ∀ {i n}, m.node? i = some n → n.core.state = .reset →
    n.core.frames = [] ∧ n.core.interruptStacks = []
  balanced : Balanced m.bus.memory.allocated
    ((held ++ m.stackPages).map UInt32.toNat ++ reserved)

/-- Only the core of the operation has other handlers after it. -/
theorem exists_perm_stackPages (hn : m.node? i = some n) :
    ∃ rest, ∀ n' : Node PagedMemory,
      (m.setNode i n').stackPages.Perm (n'.core.stackPages ++ rest) := by
  obtain ⟨hi, -⟩ := List.getElem?_eq_some_iff.1 (node?_eq_some_iff.1 hn).1
  obtain ⟨rest, hrest⟩ := exists_perm_flatMap Core.stackPages hi
  exact ⟨rest, fun n' => hrest n'.core⟩

/-- One operation keeps the account, if the guest frees only what it holds. -/
theorem Owned.onMachine (h : m.Owned held reserved) (op : Nat × Operation)
    (hfrees : ∀ page ∈ m.frees? op, page ∈ held) :
    (op.2.onMachine m op.1).Owned (m.hold held op) reserved := by
  have hsound := (h.sound.operation op.1 op.2).1
  have hunstarted : ∀ {i n'}, (op.2.onMachine m op.1).node? i = some n' →
      n'.core.state = .reset → n'.core.frames = [] ∧ n'.core.interruptStacks = [] := by
    intro i n' hn' hs
    obtain ⟨n, hn, ⟨-, rfl⟩ | ⟨-, hcore⟩⟩ := exists_node?_of_onMachine _ hn'
    · have hsame := Operation.perform_of_reset (h.sound.nodes hn) _ hs
      rw [hsame] at hs ⊢
      exact h.unstarted hn hs
    · rw [hcore] at hs ⊢
      exact h.unstarted hn hs
  refine ⟨hsound, hunstarted, ?_⟩
  rcases hn : m.node? op.1 with _ | n
  · simp only [Operation.onMachine, hold, hn]
    exact h.balanced
  · have hserves := op.2.serves (h.sound.nodes hn) m.platform (h.unstarted hn)
    have hbus : n.bus = m.bus := congrArg Shared.bus (node?_eq_some_iff.1 hn).2
    obtain ⟨rest, hrest⟩ := exists_perm_stackPages hn
    have hbefore := hrest n
    rw [setNode_self hn] at hbefore
    simp only [Operation.onMachine, hold, hn]
    rw [frees?, hn] at hfrees
    have hperm {held pages pages' : List UInt32} (hp : pages.Perm (pages' ++ rest)) :
        ((held ++ pages).map UInt32.toNat ++ reserved).Perm
          ((held ++ pages').map UInt32.toNat ++ (rest.map UInt32.toNat ++ reserved)) := by
      rw [← List.append_assoc, ← List.map_append, List.append_assoc]
      exact ((hp.append_left held).map _).append_right reserved
    have hbalanced := h.balanced.perm (hperm hbefore)
    rw [← hbus] at hbalanced
    exact (hserves.balanced hfrees hbalanced).perm (hperm (hrest _)).symm

/-- So does a disciplined run, by induction on it. -/
theorem Owned.runOn (h : m.Owned held reserved) {ops : List (Nat × Operation)}
    (hops : m.Disciplined held ops) :
    (Operation.runOn m ops).Owned (m.heldAfter held ops) reserved := by
  induction ops generalizing m held with
  | nil => exact h
  | cons op rest ih => exact ih (h.onMachine op hops.1) hops.2

/-- In the beginning no handler is active. -/
theorem stackPages_new (p : Platform) (memory : PagedMemory)
    (cores instructionCapacity dataCapacity : Nat) (recording : Bool) :
    (Machine.new p memory cores instructionCapacity dataCapacity recording).stackPages = [] := by
  simp [stackPages, Machine.new, Core.stackPages, Core.new]

/-- In the beginning all allocated pages are reserved. -/
theorem owned_new (p : Platform) (memory : PagedMemory)
    (cores instructionCapacity dataCapacity : Nat) (recording : Bool) :
    (Machine.new p memory cores instructionCapacity dataCapacity recording).Owned []
      memory.allocated.toList := by
  have hcores {i : Nat} {n : Node PagedMemory}
      (hn : (Machine.new p memory cores instructionCapacity dataCapacity recording).node? i =
        some n) : n.core = Core.new i instructionCapacity :=
    getElem?_cores_new p memory cores instructionCapacity dataCapacity recording
      (node?_eq_some_iff.1 hn).1
  refine ⟨sound_new .., fun {i n} hn _ => by rw [hcores hn]; exact ⟨rfl, rfl⟩, ?_⟩
  rw [stackPages_new]
  exact .of_toList memory.allocated

/-- Operations leave the size of memory alone. -/
theorem Sound.pageCount_runOn (h : m.Sound) (ops : List (Nat × Operation)) :
    (Operation.runOn m ops).bus.memory.pageCount = m.bus.memory.pageCount := by
  induction ops generalizing m with
  | nil => rfl
  | cons op rest ih =>
    refine (ih (h.operation op.1 op.2).1).trans ?_
    unfold Operation.onMachine
    rcases hn : m.node? op.1 with _ | n
    · rfl
    · have hbus : n.bus = m.bus := congrArg Shared.bus (node?_eq_some_iff.1 hn).2
      rw [← hbus]
      exact (Operation.perform_sound (h.nodes hn) m.platform op.2).1.pageCount

/-- As many pages are free as are neither reserved, nor held, nor stacks of handlers. -/
theorem Owned.freePageCount (h : m.Owned held reserved) :
    PhysicalMemory.freePageCount m.bus.memory + held.length + m.stackPages.length +
      reserved.length = m.bus.memory.pageCount := by
  have hlength := h.balanced.toList_perm.length_eq
  have hle := m.bus.memory.size_allocated_le
  rw [TreeSet.length_toList] at hlength
  simp only [List.length_append, List.length_map] at hlength
  show m.bus.memory.pageCount - m.bus.memory.allocated.size + _ + _ + _ = _
  omega

/-- The page of the stack of an active handler is allocated. -/
theorem Owned.allocated_of_stack (h : m.Owned held reserved) (hn : m.node? i = some n) {q : UInt32}
    (hq : some q ∈ n.core.interruptStacks) : q.toNat ∈ n.bus.memory.allocated := by
  obtain ⟨hcore, hshared⟩ := node?_eq_some_iff.1 hn
  have hbus : n.bus = m.bus := congrArg Shared.bus hshared
  have hstack : q ∈ m.stackPages :=
    List.mem_flatMap.2 ⟨n.core, List.mem_of_getElem? hcore, List.reduceOption_mem_iff.2 hq⟩
  rw [hbus, h.balanced.mem]
  exact List.mem_append_left _ (List.mem_map_of_mem (List.mem_append_right _ hstack))

/-- Where an instruction cannot leave a handler, it has failed to take the context off the stack. -/
theorem Owned.leaveHandler_of_error (h : m.Owned held reserved) (hn : m.node? i = some n)
    {p : Platform} {set : InstructionSet} {n₁ n₂ : Node PagedMemory} {fault : Fault}
    (hr : n.core.isRunnable = true)
    (hfetch : fetch set (n.core.codeAddress n.core.regs.ip) n = .ok .retint n₁)
    (hrun : leaveHandler p (begun set n.core.regs.ip .retint n₁) = .error fault n₂) :
    n.core.interruptStacks = [] ∨
      restoreContext p (begun set n.core.regs.ip .retint n₁) = .error fault n₂ := by
  obtain ⟨fetched, hfetched⟩ := finalState_fetch set (n.core.codeAddress n.core.regs.ip) n
  rw [finalState_of_ok hfetch] at hfetched
  subst hfetched
  have hbegun : n.Goes
      (begun set n.core.regs.ip .retint (n.mapCore fun c => { c with fetched })) :=
    (h.sound.nodes hn).goes_of_bus rfl rfl rfl
  rcases hstacks : n.core.interruptStacks with _ | ⟨page, outer⟩
  · exact .inl rfl
  · refine .inr (Node.leaveHandler_of_error hbegun.sound
      (hbegun.isAlive (isAlive_of_isRunnable hr)) hstacks (fun q hq => ?_) hrun)
    refine h.allocated_of_stack hn ?_
    rw [hstacks, hq]
    exact List.mem_cons_self

/-- In every state that a machine can reach, whatever is done with which core, as long as the guest
frees only pages that it holds: the allocated pages are those that were allocated in the beginning,
those that the guest holds, and those of the stacks of active handlers of all cores, and no page is
among them twice. So the number of free pages is that of the beginning less those that the guest
holds and those of the stacks. A page that the guest is granted next, or that a handler gets next,
is none of them. And where an instruction cannot leave a handler, it has failed before it comes to
free the page of the stack. -/
theorem allocated_pages_owned (p : Platform) (memory : PagedMemory)
    (cores instructionCapacity dataCapacity : Nat) (recording : Bool)
    (ops : List (Nat × Operation))
    (h : (Machine.new p memory cores instructionCapacity dataCapacity recording).Disciplined []
      ops) :
    let start := Machine.new p memory cores instructionCapacity dataCapacity recording
    let m := Operation.runOn start ops
    let held := start.heldAfter [] ops
    let owned := (held ++ m.stackPages).map UInt32.toNat ++ memory.allocated.toList
    m.bus.memory.allocated.toList.Perm owned ∧ owned.Nodup ∧
    PhysicalMemory.freePageCount m.bus.memory =
      PhysicalMemory.freePageCount memory - (held.length + m.stackPages.length) ∧
    held.length + m.stackPages.length ≤ PhysicalMemory.freePageCount memory ∧
    ∀ i n, m.node? i = some n →
      (∀ (op : Operation) (page : UInt32), granted? (op.request? p n) (op.perform p n) = some page ∨
          (op.perform p n).core.interruptStacks = some page :: n.core.interruptStacks →
        page.toNat ∉ owned) ∧
      ∀ set n₁ n₂ fault, n.core.isRunnable = true → p.sets[n.core.activeSet]? = some set →
        fetch set (n.core.codeAddress n.core.regs.ip) n = .ok .retint n₁ →
        leaveHandler p (begun set n.core.regs.ip .retint n₁) = .error fault n₂ →
        n.core.interruptStacks = [] ∨
          restoreContext p (begun set n.core.regs.ip .retint n₁) = .error fault n₂ := by
  intro start m held owned
  have hstart : start.Owned [] memory.allocated.toList := owned_new ..
  have howned : m.Owned held memory.allocated.toList := hstart.runOn h
  have hplatform : m.platform = p := platform_runOn start ops
  have hpages : m.bus.memory.pageCount = memory.pageCount := hstart.sound.pageCount_runOn ops
  have hfree := howned.freePageCount
  have hfirst := hstart.freePageCount
  have hnone : start.stackPages = [] := stackPages_new ..
  rw [hpages] at hfree
  rw [hnone, List.length_nil] at hfirst
  have hcount : PhysicalMemory.freePageCount start.bus.memory =
      PhysicalMemory.freePageCount memory := rfl
  have hpages₀ : start.bus.memory.pageCount = memory.pageCount := rfl
  refine ⟨howned.balanced.toList_perm, howned.balanced.nodup, by omega, by omega,
    fun i n hn => ⟨fun op page hpage => ?_, fun set n₁ n₂ fault hr _ hfetch hrun => ?_⟩⟩
  · have hserves := op.serves (howned.sound.nodes hn) p (howned.unstarted hn)
    have hbus : n.bus = m.bus := congrArg Shared.bus (node?_eq_some_iff.1 hn).2
    have hfresh := hserves.fresh hpage
    rw [hbus, howned.balanced.mem] at hfresh
    exact hfresh
  · exact howned.leaveHandler_of_error hn hr hfetch hrun

/-- A guest is granted two pages. An interrupt comes, its handler gets a third one, and frees the
first page of the guest. The page of the program is reserved. -/
theorem allocated_pages_owned_of_guest :
    let memory := finalState (PagedMemory.reserve 0 36) ((PagedMemory.ofSize 1024).setBytes 0
      (bytesOfWords [0, 28, 0, 0x430003, 77, 11, 0x430003, 2059, 0x430003]))
    let start := Machine.new {} memory 1 16 128 false
    let ops := (0, .boot ⟨0, 0, 1024, 12, true⟩) :: List.replicate 4 (0, .step) ++
      (0, .interrupt 0) :: List.replicate 2 (0, .step)
    start.Disciplined [] ops ∧
      (Operation.runOn start ops).bus.memory.allocated.toList.Perm [2, 3, 0] ∧
      PhysicalMemory.freePageCount (Operation.runOn start ops).bus.memory = 1 := by
  intro memory start ops
  obtain ⟨hdisciplined, hheld, hstacks⟩ : start.Disciplined [] ops ∧
      start.heldAfter [] ops = [2] ∧ (Operation.runOn start ops).stackPages = [3] := by
    decide +kernel
  obtain ⟨hreserved, hfree⟩ : memory.allocated.toList = [0] ∧
      PhysicalMemory.freePageCount memory = 3 := by
    decide +kernel
  obtain ⟨hperm, -, hcount, -⟩ := allocated_pages_owned {} memory 1 16 128 false ops hdisciplined
  have hstart : Machine.new {} memory 1 16 128 false = start := rfl
  rw [hstart, hheld, hstacks, hreserved] at hperm
  rw [hstart, hheld, hstacks, hfree] at hcount
  exact ⟨hdisciplined, hperm, hcount⟩

end Machine

end Multicore
