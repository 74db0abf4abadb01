import Multicore.Proofs.Core.Paged
import Multicore.Proofs.Core.Quiet
import Multicore.Proofs.Core.StackWords

/-!
# Saved contexts

Entering an interrupt handler leaves the context of the interrupted code on the stack of the
handler, as the words of `RegisterFile.context` (`enterHandler_of_ok`). Leaving the handler takes
them off again and puts them where they came from (`leaveHandler_spec`). Whatever happens in
between, if the core then stands where it stood and the words of the context are untouched, the
two are inverses of each other (`leaveHandler_of_enterHandler`).
-/

namespace Multicore

open Std

/-- Unpacking is the inverse of packing. -/
@[simp] theorem Flags.unpack_pack (f : Flags) : unpack f.pack = f := by
  have h : ∀ a b c d e g : Bool, unpack (pack ⟨a, b, c, d, e, g⟩) = ⟨a, b, c, d, e, g⟩ := by
    decide
  exact h ..

/-- The words of a saved context, the top of the stack first. -/
def RegisterFile.context (f : RegisterFile) : List UInt32 :=
  f.fp :: f.ip :: (f.general.toList.reverse ++ [f.flags.pack, f.cs, f.sp, f.ds])

/-- A context has thirty-six words. -/
theorem RegisterFile.length_context (f : RegisterFile) : f.context.length = 36 := by
  simp [context]

/-- The last general register lies on top. -/
theorem RegisterFile.reverse_general (f : RegisterFile) :
    f.general.toList.reverse = (List.finRange 30).reverse.map f.general.get := by
  rw [List.map_reverse]
  congr 1
  refine List.ext_getElem (by simp) fun k hk hk' => ?_
  simp [Vector.get]

namespace Node

variable {n n' n₁ n₂ : Node PagedMemory} {bus : Bus PagedMemory} {c : Core} {ws : List UInt32}

/-- Nothing but the stack pointer moves. -/
theorem Stands.regs_eq (h : Stands bus c ws n) {α : Type} {f : RegisterFile → α}
    (hf : ∀ regs sp, f { regs with sp } = f regs) : f n.core.regs = f c.regs := by
  obtain ⟨sp, hcore⟩ := h.core
  rw [hcore]
  exact hf c.regs sp

/-! ## Entry -/

/-- Setting up a frame puts the frame pointer and the instruction pointer on the stack, and
records where it left the stack pointer. -/
theorem pushFrame_of_stacked (h : n.bus.Stacked n.core.id n.top ws)
    (hrun : pushFrame n = .ok () n') :
    n'.bus.Stacked n'.core.id n'.top (n.core.regs.fp :: n.core.regs.ip :: ws) ∧
      n.bus.Steady n'.bus ∧
      ∃ frame : Frame, frame.sp = n.core.regs.sp - 8 ∧ n'.core = { n.core with
        regs := { n.core.regs with sp := frame.sp, fp := frame.sp }
        frames := frame :: n.core.frames } := by
  unfold pushFrame at hrun
  rw [getRegs_bind] at hrun
  obtain ⟨_, n₁, hip, hrun⟩ := of_bind_eq_ok hrun
  obtain ⟨hcore₁, hsteady₁, h₁⟩ := push_of_stacked h hip
  rw [getRegs_bind] at hrun
  obtain ⟨_, n₂, hfp, hrun⟩ := of_bind_eq_ok hrun
  obtain ⟨hcore₂, hsteady₂, h₂⟩ := push_of_stacked h₁ hfp
  have hsp : n₂.core.regs.sp = n.core.regs.sp - 8 := by
    rw [hcore₂, hcore₁]
    show n.core.regs.sp - 4 - 4 = n.core.regs.sp - 8
    simp only [UInt32.sub_eq_add_neg, UInt32.add_assoc]
    rfl
  have hfp' : n₁.core.regs.fp = n.core.regs.fp := by
    rw [hcore₁]
    rfl
  rw [hfp'] at h₂
  cases hrun
  refine ⟨h₂, hsteady₁.trans hsteady₂,
    ⟨n₂.core.regs.cs, n₂.core.regs.ds, n₂.core.regs.sp, n.core.regs.ip, n₂.core.regs.sp⟩, hsp, ?_⟩
  show ({ n₂.core with
    regs := { n₂.core.regs with fp := n₂.core.regs.sp }
    frames := _ :: n₂.core.frames } : Core) = _
  rw [hcore₂, hcore₁]
  rfl

/-- Saving the context leaves its words on the stack. -/
theorem saveContext_of_ok {ds sp : UInt32} (h : n.bus.Coherent)
    (hi : n.bus.isRegistered n.core.id = true) (hrun : saveContext ds sp n = .ok () n') :
    n'.bus.Stacked n'.core.id n'.top { n.core.regs with ds, sp }.context ∧ n.bus.Steady n'.bus ∧
      ∃ frame : Frame, n'.core = { n.core with
        regs := { n.core.regs with sp := frame.sp, fp := frame.sp }
        frames := frame :: n.core.frames } := by
  unfold saveContext at hrun
  obtain ⟨_, n₁, hds, hrun⟩ := of_bind_eq_ok hrun
  have h₁ := (stands_nil h hi).push hds
  obtain ⟨_, n₂, hsp, hrun⟩ := of_bind_eq_ok hrun
  have h₂ := h₁.push hsp
  rw [getRegs_bind] at hrun
  obtain ⟨_, n₃, hcs, hrun⟩ := of_bind_eq_ok hrun
  have h₃ := h₂.push hcs
  rw [getRegs_bind] at hrun
  obtain ⟨_, n₄, hflags, hrun⟩ := of_bind_eq_ok hrun
  have h₄ := h₃.push hflags
  rw [getRegs_bind] at hrun
  obtain ⟨_, n₅, hgeneral, hrun⟩ := of_bind_eq_ok hrun
  have h₅ := h₄.pushAll hgeneral
  -- The pushes change nothing that is pushed later.
  rw [h₂.regs_eq (f := RegisterFile.cs) fun _ _ => rfl,
    h₃.regs_eq (f := RegisterFile.flags) fun _ _ => rfl,
    h₄.regs_eq (f := RegisterFile.general) fun _ _ => rfl] at h₅
  obtain ⟨hstacked, hsteady, frame, -, hcore⟩ := pushFrame_of_stacked h₅.stacked hrun
  rw [h₅.regs_eq (f := RegisterFile.fp) fun _ _ => rfl,
    h₅.regs_eq (f := RegisterFile.ip) fun _ _ => rfl] at hstacked
  refine ⟨hstacked, h₅.steady.trans hsteady, frame, ?_⟩
  obtain ⟨sp, hcore₅⟩ := h₅.core
  rw [hcore, hcore₅]
  rfl

/-- The allocated pages together with the page of a handler, if it has one. -/
def withPage (pages : TreeSet Nat) : Option UInt32 → TreeSet Nat
  | none => pages
  | some page => pages.insert page.toNat

/-- The allocated pages without the page of a handler, if it has one. -/
def withoutPage (pages : TreeSet Nat) : Option UInt32 → TreeSet Nat
  | none => pages
  | some page => pages.erase page.toNat

/-- With the page of a handler, the allocated pages are that one and the others. -/
theorem mem_withPage_iff (pages : TreeSet Nat) (page : Option UInt32) (q : Nat) :
    q ∈ withPage pages page ↔ page.map UInt32.toNat = some q ∨ q ∈ pages := by
  cases page with
  | none => simp [withPage]
  | some p => simp [withPage]

/-- Without the page of a handler, the allocated pages are the others. -/
theorem mem_withoutPage_iff (pages : TreeSet Nat) (page : Option UInt32) (q : Nat) :
    q ∈ withoutPage pages page ↔ page.map UInt32.toNat ≠ some q ∧ q ∈ pages := by
  cases page with
  | none => simp [withoutPage]
  | some p => simp [withoutPage]

/-- The stack of a handler is set up by allocating a free page, or by nothing. -/
theorem handlerStack_of_ok {v : InterruptVector} {sp : UInt32} {page : Option UInt32}
    (h : n.bus.Coherent) (hi : n.bus.isRegistered n.core.id = true)
    (hrun : handlerStack v n = .ok (sp, page) n') :
    ∃ bus, n' = { n with bus } ∧ bus.Coherent ∧ bus.isRegistered n.core.id = true ∧
      (∀ p, page = some p → p.toNat ∉ n.bus.memory.allocated) ∧
      bus.memory.allocated = withPage n.bus.memory.allocated page := by
  unfold handlerStack at hrun
  split at hrun
  · obtain ⟨p, n₁, halloc, hrun⟩ := of_bind_eq_ok hrun
    rcases hp : n.bus.memory.nextFree? (some v.ds.toUInt32) with _ | q
    · rw [allocatePage_of_none hp] at halloc
      cases halloc
    · obtain ⟨bus, halloc', hq, hcleared, hallocated, -⟩ := allocatePage_of_some h hp
      rw [halloc'] at halloc
      cases halloc
      cases hrun
      refine ⟨bus, rfl, hcleared.coherent, (hcleared.keeps.isRegistered _).trans hi,
        fun p e => ?_, ?_⟩
      · cases e
        rw [hq]
        exact PagedMemory.not_mem_of_nextFree? hp
      · rw [withPage, hq, hallocated]
  · cases hrun
    refine ⟨n.bus, rfl, h, hi, fun p e => ?_, rfl⟩
    cases e

/-- The core after it entered a handler, whose stack has the given page: the context is on the
stack, and there is one more frame and one more active interrupt. -/
structure Entered (n : Node PagedMemory) (page : Option UInt32) (n' : Node PagedMemory) :
    Prop where
  stacked : n'.bus.Stacked n'.core.id n'.top n.core.regs.context
  cnt : n'.core.regs.cnt = n.core.regs.cnt
  frames : ∃ frame, n'.core.frames = frame :: n.core.frames ∧ frame.sp = n'.core.regs.sp
  active : n'.core.interruptStacks = page :: n.core.interruptStacks
  fresh : ∀ p, page = some p → p.toNat ∉ n.bus.memory.allocated
  allocated : n'.bus.memory.allocated = withPage n.bus.memory.allocated page

/-- Entering a handler leaves the context of the interrupted code on the stack of the handler. -/
theorem enterHandler_of_ok {table : Address} {index : UInt32} (h : n.bus.Coherent)
    (hi : n.bus.isRegistered n.core.id = true) (hrun : enterHandler table index n = .ok () n') :
    ∃ page, Entered n page n' := by
  unfold enterHandler at hrun
  obtain ⟨v, n₁, hvector, hrun₁⟩ := of_bind_eq_ok hrun
  have hn₁ := finalState_loadVector table index n
  rw [finalState_of_ok hvector] at hn₁
  rw [hn₁] at hrun₁
  obtain ⟨⟨sp, page⟩, n₂, hstack, hrun₂⟩ := of_bind_eq_ok hrun₁
  obtain ⟨bus, rfl, hcoherent, hregistered, hfresh, hallocated⟩ := handlerStack_of_ok h hi hstack
  dsimp only at hrun₂
  rw [getRegs_bind, modifyRegs_bind] at hrun₂
  obtain ⟨_, n₃, hsave, hrun₃⟩ := of_bind_eq_ok hrun₂
  obtain ⟨hstacked, hsteady, frame, hcore⟩ := saveContext_of_ok (n := Node.mapRegs { n with bus }
    fun regs => { regs with ds := v.ds.toUInt32, sp }) hcoherent hregistered
    (onFailure_eq_ok_iff.1 hsave)
  cases hrun₃
  refine ⟨page, ⟨hstacked, ?_, ⟨frame, ?_, ?_⟩, ?_, hfresh, ?_⟩⟩
  · show n₃.core.regs.cnt = _
    rw [hcore]
    rfl
  · show n₃.core.frames = _
    rw [hcore]
    rfl
  · show frame.sp = n₃.core.regs.sp
    rw [hcore]
  · show page :: n₃.core.interruptStacks = _
    rw [hcore]
    rfl
  · show n₃.bus.memory.allocated = _
    rw [hsteady.allocated, ← hallocated]
    rfl

/-! ## Exit -/

/-- Taking the innermost frame down takes the frame pointer and the instruction pointer off the
stack. With the stack pointer where the frame left it, this is not refused. -/
theorem popFrame_of_stacked (p : Platform) {fp ip : UInt32}
    (h : n.bus.Stacked n.core.id n.top (fp :: ip :: ws)) {frame : Frame} {outer : List Frame}
    (hframes : n.core.frames = frame :: outer) (hsp : frame.sp = n.core.regs.sp) :
    ∃ n', popFrame p n = .ok () n' ∧
      n'.core = { n.core with
        regs := { n.core.regs with fp, ip, sp := n.core.regs.sp + 8 }
        frames := outer } ∧
      n.bus.Steady n'.bus ∧ n'.bus.Stacked n'.core.id n'.top ws := by
  have hcheck : checkFrame n = .ok () n := by
    rw [checkFrame, getCore_bind, hframes]
    dsimp only
    rw [if_pos hsp]
    rfl
  obtain ⟨n₁, hfp, hcore₁, hsteady₁, h₁⟩ := pop_of_stacked h
  obtain ⟨n₂, hip, hcore₂, hsteady₂, h₂⟩ :=
    pop_of_stacked (n := n₁.mapRegs fun regs => { regs with fp }) h₁
  refine ⟨(n₂.mapRegs fun regs => { regs with ip }).mapCore fun c =>
    { c with frames := c.frames.tail }, ?_, ?_, hsteady₁.trans hsteady₂, h₂⟩
  · have htake : takeFrame n = .ok () ((n₂.mapRegs fun regs => { regs with ip }).mapCore fun c =>
        { c with frames := c.frames.tail }) := by
      unfold takeFrame
      rw [bind_of_ok hfp, modifyRegs_bind, bind_of_ok hip]
      rfl
    rw [popFrame_of_passed fun _ => hcheck, htake]
  · have hsp' : n.core.regs.sp + 4 + 4 = n.core.regs.sp + 8 := UInt32.add_assoc ..
    have htail : n.core.frames.tail = outer := by rw [hframes, List.tail_cons]
    have hcore : n₂.core =
        moved { n.core with regs := { n.core.regs with fp } } (n.core.regs.sp + 8) := by
      rw [hcore₂]
      show moved { n₁.core with regs := { n₁.core.regs with fp } } (n₁.core.regs.sp + 4) = _
      rw [hcore₁, ← hsp']
      rfl
    show ({ n₂.core with
      regs := { n₂.core.regs with ip }
      frames := n₂.core.frames.tail } : Core) = _
    rw [hcore, ← htail]
    rfl

/-- Popping the general registers in some order gives each of them the word in its place. -/
theorem popRegisters_of_stands (v : Fin 30 → UInt32) (is : List (Fin 30))
    (h : Stands bus c (is.map v ++ ws) n) :
    ∃ n' general, (is.forM fun i => do
        let v ← pop
        modifyRegs fun regs => regs.setGeneral i v : NodeM PagedMemory PUnit) n = .ok ⟨⟩ n' ∧
      Stands bus { c with regs := { c.regs with general } } ws n' ∧
      ∀ j, (j ∈ is → general.get j = v j) ∧ (j ∉ is → general.get j = c.regs.general.get j) := by
  induction is generalizing n c with
  | nil => exact ⟨n, c.regs.general, rfl, h, fun j => ⟨(absurd · List.not_mem_nil), fun _ => rfl⟩⟩
  | cons i rest ih =>
    obtain ⟨n₁, hpop, h₁⟩ := h.popInto (fun w regs => regs.setGeneral i w) (fun _ => rfl) rfl
    obtain ⟨n₂, general, hrest, h₂, hall⟩ := ih h₁
    refine ⟨n₂, general, ?_, h₂, fun j => ?_⟩
    · rw [List.forM_eq_forM, List.forM_cons]
      exact (bind_of_ok (hpop (pure PUnit.unit))).trans hrest
    · obtain ⟨hin, hout⟩ := hall j
      refine ⟨fun hj => ?_, fun hj => ?_⟩
      · by_cases hrest : j ∈ rest
        · exact hin hrest
        · obtain rfl := (List.mem_cons.1 hj).resolve_right hrest
          exact (hout hrest).trans (Vector.getElem_set_self _)
      · obtain ⟨hij, hrest⟩ := not_or.1 (mt List.mem_cons.2 hj)
        rw [hout hrest]
        show (c.regs.general.set i (v i)).get j = _
        exact Vector.getElem_set_ne _ _ fun e => hij (Fin.ext e.symm)

/-- Popping the general registers restores them all. -/
theorem popGeneral_of_stands {f : RegisterFile}
    (h : Stands bus c (f.general.toList.reverse ++ ws) n) :
    ∃ n', popGeneral n = .ok () n' ∧
      Stands bus { c with regs := { c.regs with general := f.general } } ws n' := by
  rw [f.reverse_general] at h
  obtain ⟨n', general, hrun, h', hall⟩ := popRegisters_of_stands f.general.get _ h
  have hgeneral : general = f.general := Vector.ext fun j hj =>
    (hall ⟨j, hj⟩).1 (List.mem_reverse.2 (List.mem_finRange _))
  rw [hgeneral] at h'
  exact ⟨n', hrun, h'⟩

/-- At the end the page of the handler's stack is freed, if it has one. -/
theorem freeStack_spec (h : n.bus.Coherent) (hi : n.bus.isRegistered n.core.id = true)
    (page : Option UInt32) (hpage : ∀ q, page = some q → q.toNat ∈ n.bus.memory.allocated) :
    ∃ n', (do
        if let some page := page then
          let _ ← onBus (Bus.release (← getCore).id (.page page) false true)
          freePage page
        note .interruptExit : NodeM PagedMemory Unit) n = .ok () n' ∧
      n'.core = n.core ∧ n'.bus.memory.allocated = withoutPage n.bus.memory.allocated page := by
  cases page with
  | none => exact ⟨n.record (.interruptExit n.core.id), rfl, rfl, rfl⟩
  | some q =>
    obtain ⟨bus₁, hdrop, hsteady, hcoherent⟩ := Bus.drop_spec h hi (.page q)
    have hq : q.toNat ∈ bus₁.memory.allocated := by
      rw [hsteady.allocated]
      exact hpage q rfl
    obtain ⟨bus₂, hfree, -, hfreed⟩ := freePage_of_mem (n := { n with bus := bus₁ }) hcoherent hq
    refine ⟨({ n with bus := bus₂ } : Node PagedMemory).record (.interruptExit n.core.id), ?_,
      rfl, ?_⟩
    · dsimp only
      rw [getCore_bind, bind_of_ok (onBus_of_ok hdrop), bind_of_ok hfree]
      rfl
    · show bus₂.memory.allocated = _
      rw [hfreed, withoutPage, ← hsteady.allocated]

/-- Leaving a handler takes the context off the stack and puts it where it came from. The page
of the handler's stack is freed, if it has one. -/
theorem leaveHandler_spec (p : Platform) {f : RegisterFile} {page : Option UInt32}
    {outer : List (Option UInt32)} {frame : Frame} {frames : List Frame}
    (h : n.bus.Stacked n.core.id n.top f.context)
    (hframes : n.core.frames = frame :: frames) (hsp : frame.sp = n.core.regs.sp)
    (hstacks : n.core.interruptStacks = page :: outer)
    (hpage : ∀ q, page = some q → q.toNat ∈ n.bus.memory.allocated) :
    ∃ n', leaveHandler p n = .ok () n' ∧
      n'.core = { n.core with
        regs := { f with cnt := n.core.regs.cnt }
        frames
        interruptStacks := outer } ∧
      n'.bus.memory.allocated = withoutPage n.bus.memory.allocated page := by
  obtain ⟨n₁, hframe, hcore₁, hsteady₁, hstacked₁⟩ := popFrame_of_stacked p h hframes hsp
  have h₁ : Stands n.bus { n.core with regs := { n.core.regs with fp := f.fp, ip := f.ip }, frames }
      (f.general.toList.reverse ++ [f.flags.pack, f.cs, f.sp, f.ds]) n₁ :=
    ⟨hstacked₁, hsteady₁, _, hcore₁⟩
  -- from here on the words come off in the order opposite to that of their saving
  obtain ⟨n₂, hgeneral, h₂⟩ := popGeneral_of_stands h₁
  obtain ⟨n₃, hflags, h₃⟩ := h₂.popInto (fun v regs => { regs with flags := .unpack v })
    (fun _ => rfl) rfl
  obtain ⟨n₄, hcs, h₄⟩ := h₃.popInto (fun v regs => { regs with cs := v }) (fun _ => rfl) rfl
  obtain ⟨n₅, hsp', h₅⟩ := h₄.pop
  obtain ⟨n₆, hds, h₆⟩ := h₅.pop
  rw [Flags.unpack_pack] at h₆
  obtain ⟨n₇, hfree, hcore₇, hallocated⟩ := freeStack_spec
    (n := (n₆.mapRegs fun regs => { regs with sp := f.sp, ds := f.ds }).mapCore
      fun c => { c with interruptStacks := outer })
    h₆.stacked.coherent h₆.stacked.registered page fun q e => by
      show q.toNat ∈ n₆.bus.memory.allocated
      rw [h₆.steady.allocated]
      exact hpage q e
  refine ⟨n₇, ?_, ?_, ?_⟩
  · unfold leaveHandler
    rw [getCore_bind, hstacks]
    dsimp only
    rw [bind_of_ok hframe, bind_of_ok hgeneral, hflags, hcs, bind_of_ok hsp', bind_of_ok hds,
      modifyRegs_bind, modifyCore_bind]
    exact hfree
  · obtain ⟨sp, hcore⟩ := h₆.core
    rw [hcore₇]
    show ({ n₆.core with
      regs := { n₆.core.regs with sp := f.sp, ds := f.ds }
      interruptStacks := outer } : Core) = _
    rw [hcore]
    rfl
  · rw [hallocated]
    show withoutPage n₆.bus.memory.allocated page = _
    rw [h₆.steady.allocated]

/-! ## There and back -/

/-- The core stands again where it stood after it entered a handler, and the words of the saved
context and the page of the handler's stack are as they were. Whatever else happened does not
matter. -/
structure Resumes (n n' : Node PagedMemory) : Prop where
  coherent : n'.bus.Coherent
  registered : n'.bus.isRegistered n'.core.id = true
  pageCount : n'.bus.memory.pageCount = n.bus.memory.pageCount
  sp : n'.core.regs.sp = n.core.regs.sp
  ds : n'.core.regs.ds = n.core.regs.ds
  frames : n'.core.frames = n.core.frames
  active : n'.core.interruptStacks = n.core.interruptStacks
  words : ∀ k, k < 36 →
    n'.bus.valueAt (n'.core.dataAddress (n'.core.regs.sp + 4 * UInt32.ofNat k)) .word =
      n.bus.valueAt (n.core.dataAddress (n.core.regs.sp + 4 * UInt32.ofNat k)) .word
  page : ∀ q, n.core.interruptStacks.head? = some (some q) → q.toNat ∈ n'.bus.memory.allocated

/-- The words of the context lie where they lay. -/
theorem Resumes.stacked (h : Resumes n n') {f : RegisterFile}
    (hs : n.bus.Stacked n.core.id n.top f.context) :
    n'.bus.Stacked n'.core.id n'.top f.context := by
  have htop : n'.top = n.top := by
    rw [top, top, Core.dataAddress, Core.dataAddress, h.sp, h.ds]
  refine ⟨h.coherent, h.registered, ?_⟩
  rw [htop]
  refine hs.words.congr (fun b => Bus.refusal_congr h.pageCount b .word) fun k hk _ => ?_
  rw [f.length_context] at hk
  have hword := h.words k hk
  rw [Core.dataAddress, Core.dataAddress, h.sp, h.ds, segmentAddress_add] at hword
  exact hword

/-- Leaving a handler is the inverse of entering it. Whatever the handler and the other cores
did meanwhile, and whatever the checks of frames, a core that resumes from where it entered the
handler gets all its registers back but for the count of instructions, its frames and its active
interrupts, and nothing else of it changes. Entry allocates a page or none, and exit frees
exactly that page. -/
theorem leaveHandler_of_enterHandler (p : Platform) {table : Address} {index : UInt32}
    (h : n.bus.Coherent) (hi : n.bus.isRegistered n.core.id = true)
    (henter : enterHandler table index n = .ok () n₁) (hresumes : Resumes n₁ n₂) :
    ∃ page n₃, leaveHandler p n₂ = .ok () n₃ ∧
      n₃.core = { n₂.core with
        regs := { n.core.regs with cnt := n₂.core.regs.cnt }
        frames := n.core.frames
        interruptStacks := n.core.interruptStacks } ∧
      n₁.core.regs.cnt = n.core.regs.cnt ∧
      n₁.core.interruptStacks = page :: n.core.interruptStacks ∧
      (∀ q, page = some q → q.toNat ∉ n.bus.memory.allocated) ∧
      n₁.bus.memory.allocated = withPage n.bus.memory.allocated page ∧
      n₃.bus.memory.allocated = withoutPage n₂.bus.memory.allocated page := by
  obtain ⟨page, hentered⟩ := enterHandler_of_ok h hi henter
  obtain ⟨frame, hframes, hsp⟩ := hentered.frames
  obtain ⟨n₃, hrun, hcore, hallocated⟩ := leaveHandler_spec p (hresumes.stacked hentered.stacked)
    (hresumes.frames.trans hframes) (hsp.trans hresumes.sp.symm)
    (hresumes.active.trans hentered.active) fun q e => hresumes.page q (by
      rw [hentered.active, e, List.head?_cons])
  exact ⟨page, n₃, hrun, hcore, hentered.cnt, hentered.active, hentered.fresh,
    hentered.allocated, hallocated⟩

/-- A core in front of a memory of zeros, whose one vector has no stack, enters the handler on a
page of its own. The handler uses the registers, and the core gets them back. -/
theorem leaveHandler_of_enterHandler_of_zeros :
    let regs : RegisterFile :=
      { general := .replicate 30 7, fp := 1, sp := 2, ds := 3, cs := 4, ip := 5 }
    let n : Node PagedMemory :=
      { bus := ({ memory := .ofSize 256, capacity := 128 } : Bus PagedMemory).register 0 0
        core := { Core.new 0 1 with regs } }
    let handler : RegisterFile → RegisterFile := fun regs =>
      { regs with general := .replicate 30 9, fp := 0, cnt := regs.cnt + 1 }
    ∃ n₁ n₃, enterHandler 0 0 n = .ok () n₁ ∧ Resumes n₁ (n₁.mapRegs handler) ∧
      leaveHandler {} (n₁.mapRegs handler) = .ok () n₃ ∧
      n₃.core.regs = { regs with cnt := n₁.core.regs.cnt + 1 } := by
  intro regs n handler
  have h : n.bus.Coherent := Bus.coherent_of_one (.ofSize 256) 128 0
  have hi : n.bus.isRegistered n.core.id = true := by decide
  have hok : (match enterHandler 0 0 n with
    | .ok .. => true
    | .error .. => false) = true := by decide +kernel
  rcases henter : enterHandler 0 0 n with ⟨_, n₁⟩ | ⟨fault, n₁⟩
  · obtain ⟨page, hentered⟩ := enterHandler_of_ok h hi henter
    have hresumes : Resumes n₁ (n₁.mapRegs handler) := by
      refine ⟨hentered.stacked.coherent, hentered.stacked.registered, rfl, rfl, rfl, rfl, rfl,
        fun _ _ => rfl, fun q hq => ?_⟩
      rw [hentered.active, List.head?_cons, Option.some.injEq] at hq
      show q.toNat ∈ n₁.bus.memory.allocated
      rw [hentered.allocated, hq]
      exact TreeSet.mem_insert_self
    obtain ⟨_, n₃, hleave, hcore, -⟩ := leaveHandler_of_enterHandler {} h hi henter hresumes
    refine ⟨n₁, n₃, rfl, hresumes, hleave, ?_⟩
    rw [hcore]
    rfl
  · rw [henter] at hok
    cases hok

end Node

end Multicore
