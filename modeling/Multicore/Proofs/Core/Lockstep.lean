import Multicore.Proofs.Core.Sound
import Multicore.Proofs.Core.Twin

/-!
# Steps of cores that differ in their caches

What a core does in one go comes to the same on twins, if the text permits what it touches: a
step (`Twin.step`), a hardware interrupt (`Twin.interrupt`), and the changes of its stage. An
instruction may end the life of its core, so what it leaves behind is `Started` and no longer
`Live`.
-/

namespace Multicore.Node

open Std

variable {text : Text} {p : Platform} {n₁ n₂ : Node PagedMemory}

/-! ## The life of a core -/

/-- The nodes are twins, and the core has started: it is alive, and its data cache takes part, or
it is halted. -/
structure Started (text : Text) (p : Platform) (n₁ n₂ : Node PagedMemory) : Prop
    extends Twin text p n₁ n₂ where
  started : n₁.core.state ≠ .reset
  registered₁ : n₁.core.isAlive = true → n₁.bus.isRegistered n₁.core.id = true
  registered₂ : n₁.core.isAlive = true → n₂.bus.isRegistered n₂.core.id = true

/-- Twins that are alive have started. -/
theorem Live.started (h : Live text p n₁ n₂) : Started text p n₁ n₂ :=
  ⟨h.toTwin, Core.ne_reset_of_isAlive h.alive, fun _ => h.registered₁,
    fun _ => h.registered₂⟩

/-- Twins that have started stay so under a change of the registers. -/
theorem Started.mapRegs (h : Started text p n₁ n₂) (f : RegisterFile → RegisterFile) :
    Started text p (n₁.mapRegs f) (n₂.mapRegs f) :=
  ⟨h.toTwin.mapCore (steady_regs f), h.started, h.registered₁, h.registered₂⟩

/-- Twins are in the same stage. -/
theorem Twin.state (h : Twin text p n₁ n₂) : n₂.core.state = n₁.core.state := by
  rw [h.core_eq]

theorem Twin.isAlive (h : Twin text p n₁ n₂) : n₂.core.isAlive = n₁.core.isAlive := by
  rw [Core.isAlive, h.state]
  rfl

/-- The data cache of a core that is alive takes part in a sound node. -/
theorem Twin.live (h : Twin text p n₁ n₂) (h₁ : n₁.Sound) (h₂ : n₂.Sound)
    (ha : n₁.core.isAlive = true) : Live text p n₁ n₂ :=
  ⟨h, h₁.registered.trans ha, h₂.registered.trans (h.isAlive.trans ha), ha⟩

/-- Twins may change to the same stage. -/
theorem Twin.setState (h : Twin text p n₁ n₂) (s : Lifecycle) :
    Twin text p (n₁.setState s) (n₂.setState s) := by
  unfold Node.setState
  rw [h.state]
  split
  · exact h
  · exact (h.mapCore {}).record _ _

/-- Twins may both be suspended. -/
theorem Twin.suspend (h : Twin text p n₁ n₂) : Twin text p n₁.suspend n₂.suspend := by
  unfold Node.suspend
  rw [h.state]
  split
  · exact h.setState .suspended
  · exact h

/-- Twins may both be woken. -/
theorem Twin.wake (h : Twin text p n₁ n₂) : Twin text p n₁.wake n₂.wake := by
  unfold Node.wake
  rw [h.state]
  split
  · exact h.setState .running
  · exact h

/-- Waking a core leaves its data cache where it is. -/
theorem isRegistered_wake (n : Node PagedMemory) :
    n.wake.bus.isRegistered n.wake.core.id = n.bus.isRegistered n.core.id := by
  unfold Node.wake
  split
  · rw [setState_bus, setState_id]
  · rfl

/-- Suspending a core leaves its data cache where it is. -/
theorem isRegistered_suspend (n : Node PagedMemory) :
    n.suspend.bus.isRegistered n.suspend.core.id = n.bus.isRegistered n.core.id := by
  unfold Node.suspend
  split
  · rw [setState_bus, setState_id]
  · rfl

/-- A core that is alive stays so when it is woken. -/
theorem Live.wake (h : Live text p n₁ n₂) : Live text p n₁.wake n₂.wake := by
  refine ⟨h.toTwin.wake, ?_, ?_, isAlive_wake h.alive⟩
  · rw [isRegistered_wake]
    exact h.registered₁
  · rw [isRegistered_wake]
    exact h.registered₂

/-- To suspend a core that has started leaves its data cache where it is. -/
theorem Started.suspend (h : Started text p n₁ n₂) :
    Started text p n₁.suspend n₂.suspend := by
  have halive : n₁.suspend.core.isAlive = n₁.core.isAlive := by
    unfold Node.suspend
    split
    · next hr =>
      rw [Core.isAlive, Core.isAlive, setState_state, hr]
      rfl
    · rfl
  refine ⟨h.toTwin.suspend, ?_, ?_, ?_⟩
  · unfold Node.suspend
    split
    · rw [setState_state]
      intro hreset
      cases hreset
    · exact h.started
  · rw [halive, isRegistered_suspend]
    exact h.registered₁
  · rw [halive, isRegistered_suspend]
    exact h.registered₂

/-- A halted core stays as it is, and the data cache of another one is flushed. -/
theorem Started.halt (h : Started text p n₁ n₂) (code : UInt32) :
    Started text p (n₁.halt code) (n₂.halt code) := by
  unfold Node.halt
  rw [h.state]
  split
  · exact h
  · next hs =>
    have ha : n₁.core.isAlive = true := by
      rw [Core.isAlive]
      cases hstate : n₁.core.state with
      | reset => exact absurd hstate h.started
      | running => rfl
      | suspended => rfl
      | halted => exact absurd hstate hs
    have hbus := h.bus.retire (h.registered₁ ha) (h.registered₂ ha)
    have hcode := (h.toTwin.mapCore (f := fun c => { c with exitCode := code }) {}).core
    have hretired : Twin text p
        { n₁ with
          bus := (finalState (Bus.flush n₁.core.id) n₁.bus).unregister n₁.core.id
          core := { n₁.core with exitCode := code } }
        { n₂ with
          bus := (finalState (Bus.flush n₂.core.id) n₂.bus).unregister n₂.core.id
          core := { n₂.core with exitCode := code } } := ⟨h.tallies, hbus, hcode⟩
    have hdead : ∀ n : Node PagedMemory, (n.setState .halted).core.isAlive = false := by
      intro n
      rw [Core.isAlive, setState_state]
      rfl
    refine ⟨(hretired.setState .halted).record _ _, fun hr => ?_, fun halive => ?_,
      fun halive => ?_⟩
    · cases (setState_state _ .halted).symm.trans hr
    · cases (hdead _).symm.trans halive
    · cases (hdead _).symm.trans halive

/-- Twins die alike: each flushes its data cache, which leaves the coherent values. -/
theorem Started.die (h : Started text p n₁ n₂) (fault : Fault) :
    Started text p (n₁.die fault) (n₂.die fault) := by
  unfold Node.die
  rw [h.state]
  split
  · exact h
  · have hnoted : Twin text p
        ((n₁.record (.fault n₁.core.id n₁.core.regs.ip fault)).mapCore
          fun c => { c with lastFault := some fault })
        ((n₂.record (.fault n₂.core.id n₂.core.regs.ip fault)).mapCore
          fun c => { c with lastFault := some fault }) :=
      (h.toTwin.record _ _).mapCore {}
    exact Started.halt ⟨hnoted, h.started, h.registered₁, h.registered₂⟩ 1

/-! ## Services -/

/-- A page that is not allocated cannot be freed on either side. -/
theorem Live.freePage (h : Live text p n₁ n₂) {page : UInt32}
    (hp : page.toNat ∉ n₁.bus.memory.allocated) :
    Alike (Live text p) (Node.freePage page n₁) (Node.freePage page n₂) := by
  have hp₂ : page.toNat ∉ n₂.bus.memory.allocated := by rwa [h.bus.allocated]
  rw [freePage_of_not_mem hp, freePage_of_not_mem hp₂, h.bus.pageCount]
  exact .error _ h

/-- Without a page that is free, or that is freed, the memory service agrees. -/
theorem Live.serveMemory (h : Live text p n₁ n₂) {r : MemoryRequest}
    (hr : MemoryRequest.ofNumber? (n₁.core.regs.read (.general 0)) = some r)
    (ht : text.Permits (n₁.serviceTouches .memory)) :
    Alike (Live text p) (Node.serveMemory r n₁) (Node.serveMemory r n₂) := by
  rw [serviceTouches, hr] at ht
  cases r with
  | alloc =>
    obtain ⟨h₁, h₂⟩ := h.allocatePage ht
    have hwrite : ∀ {n : Node PagedMemory}, Node.allocatePage none n =
        .error (.memory .noFreePage) n → Node.serveMemory .alloc n =
          Node.write (.general 0) 0xffffffff n := by
      intro n hn
      simp only [Node.serveMemory, hn]
    rw [hwrite h₁, hwrite h₂]
    exact agrees_write _ _ n₁ n₂ h
  | free =>
    have hp : (n₁.core.regs.read (.general 1)).toNat ∉ n₁.bus.memory.allocated := by
      intro hp
      dsimp only at ht
      rw [if_pos hp] at ht
      exact ht.repaged (List.mem_singleton_self _)
    show Alike _ (Node.freePage (n₁.core.regs.read (.general 1)) n₁)
      (Node.freePage (n₂.core.regs.read (.general 1)) n₂)
    rw [h.regs]
    exact h.freePage hp
  | countFree =>
    have hcount : PhysicalMemory.freePageCount n₂.bus.memory =
        PhysicalMemory.freePageCount n₁.bus.memory := by
      show n₂.bus.memory.pageCount - n₂.bus.memory.allocated.size = _
      rw [h.bus.pageCount, h.bus.allocated]
      rfl
    have hwrite : ∀ n : Node PagedMemory, Node.serveMemory .countFree n =
        Node.write (.general 0) (PhysicalMemory.freePageCount n.bus.memory).toUInt32 n :=
      fun _ => rfl
    rw [hwrite, hwrite, hcount]
    exact agrees_write _ _ n₁ n₂ h

/-- A service agrees if what it stores and allocates permits it. -/
theorem Live.serve (h : Live text p n₁ n₂) (index : UInt32) {s : Service}
    (ht : text.Permits (n₁.serviceTouches s)) :
    Alike (Started text p) (Node.serve index s n₁) (Node.serve index s n₂) := by
  cases s with
  | halt =>
    have hhalt : ∀ n : Node PagedMemory, Node.serve index .halt n =
        .ok () (n.halt (n.core.regs.read (.general 0))) := fun _ => rfl
    rw [hhalt, hhalt, h.regs]
    exact .ok () (h.started.halt _)
  | memory =>
    rw [serve_memory, serve_memory, h.regs]
    rcases hr : MemoryRequest.ofNumber? (n₁.core.regs.read (.general 0)) with _ | r
    · exact .error _ h.started
    · exact (h.serveMemory hr ht).mono Live.started
  | counter =>
    have hcount : ∀ n : Node PagedMemory, Node.serve index .counter n =
        Node.write (.general 0) (n.tallies.getD index 0 + 1)
          { n with tallies := n.tallies.insert index (n.tallies.getD index 0 + 1) } :=
      fun _ => rfl
    rw [hcount, hcount, h.tallies]
    refine Alike.mono (agrees_write _ _ _ _ ?_) Live.started
    refine ⟨⟨fun index' => ?_, h.bus, h.core⟩, h.registered₁, h.registered₂, h.alive⟩
    simp only [TreeMap.getD_insert, h.tallies]
  | refuse => exact .error _ h.started

/-- A software interrupt agrees, whether a service or a handler answers it. -/
theorem Live.softwareInterrupt (h : Live text p n₁ n₂) {index : UInt32}
    (ht : text.Permits (match p.services[index]? with
      | some s => n₁.serviceTouches s
      | none => enterTouches p.vectorTable index n₁)) :
    Alike (Started text p) (Node.softwareInterrupt p index n₁)
      (Node.softwareInterrupt p index n₂) := by
  unfold Node.softwareInterrupt
  rcases hs : p.services[index]? with _ | s
  · rw [hs] at ht
    exact (h.enterHandler ht).mono Live.started
  · rw [hs] at ht
    exact h.serve index ht

/-! ## Parts of instructions -/

/-- An instruction set that is selected starts without cached instructions. -/
theorem agrees_selectSet (id : UInt8) :
    Agrees text p (selectSet p id : NodeM PagedMemory Unit) := by
  have hdecoded : ∀ c : Core, Core.Decoded text p
      { c with activeSet := id, fetched := c.fetched.clear } := by
    intro c a i hi
    cases (RecencyMap.peek?_clear ..).symm.trans hi
  unfold selectSet
  refine .ite (fun n₁ n₂ h => .ok ()
    ⟨⟨h.tallies, h.bus, ?_⟩, h.registered₁, h.registered₂, h.alive⟩) (agrees_throw _)
  refine ⟨?_, hdecoded _, hdecoded _, h.core.pageless⟩
  exact congrArg (fun c : Core => { c with activeSet := id, fetched := c.fetched.clear })
    h.core.same

/-- A set is selected alike, and both instruction caches are empty then. -/
theorem agrees_selectSetOperand (x : Operand) :
    Agrees text p (selectSetOperand p x : NodeM PagedMemory Unit) :=
  (agrees_operand x).bind fun _ => agrees_selectSet _

/-- Where a jump leads is read off the registers. -/
theorem Live.jumpTarget (h : Live text p n₁ n₂) (x : Operand) :
    ∃ ip, Node.jumpTarget x n₁ = .ok ip n₁ ∧ Node.jumpTarget x n₂ = .ok ip n₂ := by
  cases x with
  | reg r => exact ⟨n₁.core.regs.read r, rfl, h.regs ▸ rfl⟩
  | imm offset => exact ⟨n₁.core.regs.ip + offset.toUInt32, rfl, h.regs ▸ rfl⟩

/-- Twins jump to the same targets. -/
theorem agrees_jumpTarget (x : Operand) :
    Agrees text p (jumpTarget x : NodeM PagedMemory UInt32) := by
  intro n₁ n₂ h
  obtain ⟨ip, h₁, h₂⟩ := h.jumpTarget x
  rw [h₁, h₂]
  exact .ok ip h

/-- A result is written alike, with the same flags. -/
theorem agrees_writeResult (dst : Register) (v : UInt32) (overflow : Bool) :
    Agrees text p (writeResult dst v overflow : NodeM PagedMemory Unit) :=
  (agrees_write dst v).bind fun _ => agrees_modifyRegs _

/-- An arithmetic instruction gives the same result, or divides by zero on both sides. -/
theorem agrees_arithmetic (op : AluOp) (dst : Register) (rhs : UInt32) :
    Agrees text p (arithmetic op dst rhs : NodeM PagedMemory Unit) := by
  refine (agrees_read dst).bind fun v => ?_
  split
  · exact agrees_writeResult dst _ _
  · exact agrees_throw _

/-- Twins compute the same effective addresses. -/
theorem agrees_effectiveAddress (base : Register) (offset : Int16) :
    Agrees text p (effectiveAddress base offset : NodeM PagedMemory Address) :=
  fun n₁ n₂ h => h.getCore_bind (fun _ _ _ => rfl) (agrees_pure _ n₁ n₂ h)

/-- A store instruction agrees if it leaves the text alone. -/
theorem Live.storeTo (h : Live text p n₁ n₂) (width : Width) (a : Address) (v : UInt32)
    (ht : text.Permits (stores n₁.bus [(a, width)])) :
    Alike (Live text p) (Node.storeTo width a v n₁) (Node.storeTo width a v n₂) := by
  rw [storeTo_eq, storeTo_eq]
  exact h.store width a v ht

/-! ## The dialects -/

/-- An instruction of the base dialect comes to the same. -/
theorem Live.executeBase (h : Live text p n₁ n₂) {i : Instruction}
    (ht : text.Permits (baseTouches p n₁ i)) :
    Alike (Started text p) (Node.executeBase p i n₁) (Node.executeBase p i n₂) := by
  have hagrees : ∀ {x : NodeM PagedMemory Unit}, Agrees text p x →
      Alike (Started text p) (x n₁) (x n₂) := fun hx => (hx n₁ n₂ h).mono Live.started
  -- most instructions agree as they stand, and the others if their touches are permitted
  cases i with
  | nop => exact .ok () h.started
  | hlt code =>
    have hhalt : ∀ n : Node PagedMemory, Node.executeBase p (.hlt code) n =
        .ok () (n.halt (n.core.regs.operand code)) := fun _ => rfl
    rw [hhalt, hhalt, h.regs]
    exact .ok () (h.started.halt _)
  | idle => exact .ok () h.started.suspend
  | int index =>
    have hint : ∀ n : Node PagedMemory, Node.executeBase p (.int index) n =
        Node.softwareInterrupt p (n.core.regs.operand index) n := fun _ => rfl
    rw [hint, hint, h.regs]
    exact h.softwareInterrupt ht
  | retint => exact hagrees agrees_leaveHandler
  | call target =>
    have hcall : ∀ n : Node PagedMemory, ∀ ip, Node.jumpTarget target n = .ok ip n →
        Node.executeBase p (.call target) n = (do pushFrame; jumpTo ip) n :=
      fun n ip hip => bind_of_ok hip
    obtain ⟨ip, h₁, h₂⟩ := h.jumpTarget target
    rw [hcall n₁ ip h₁, hcall n₂ ip h₂]
    exact (pushes_pushFrame.bind (fun _ => agrees_modifyRegs _) n₁ n₂ h ht).mono Live.started
  | ret => exact hagrees agrees_popFrame
  | cli => exact hagrees (agrees_modifyRegs _)
  | sti => exact hagrees (agrees_modifyRegs _)
  | lpm => exact hagrees (agrees_modifyRegs _)
  | sis set => exact hagrees (agrees_selectSetOperand set)
  | li dst v => exact hagrees (agrees_writeResult dst _ _)
  | liu dst v => exact hagrees ((agrees_read dst).bind fun _ => agrees_write dst _)
  | mov dst src => exact hagrees ((agrees_read src).bind fun _ => agrees_write dst _)
  | alu op dst src =>
    exact hagrees ((agrees_operand src).bind fun _ => agrees_arithmetic op dst _)
  | not dst => exact hagrees ((agrees_read dst).bind fun _ => agrees_writeResult dst _ _)
  | inc dst => exact hagrees (agrees_arithmetic .add dst 1)
  | dec dst => exact hagrees (agrees_arithmetic .sub dst 1)
  | cmp lhs rhs =>
    refine hagrees ((agrees_read lhs).bind fun l => (agrees_operand rhs).bind fun r => ?_)
    exact agrees_modifyRegs _
  | jump cond target =>
    refine hagrees (agrees_getRegs.bind fun regs => .ite ?_ (agrees_pure ()))
    exact (agrees_jumpTarget target).bind fun ip => agrees_modifyRegs _
  | load width dst base offset =>
    refine hagrees ((agrees_effectiveAddress base offset).bind fun a => ?_)
    exact (agrees_loadFrom width a).bind fun v => agrees_write dst v
  | store width src base offset =>
    have hstore : ∀ n : Node PagedMemory, Node.executeBase p (.store width src base offset) n =
        Node.storeTo width (n.core.dataAddress
          (n.core.regs.read base + offset.toInt32.toUInt32)) (n.core.regs.read src) n :=
      fun _ => rfl
    rw [hstore, hstore, h.regs, h.dataAddress]
    exact (h.storeTo width _ _ ht).mono Live.started
  | push src =>
    have hpush : ∀ n : Node PagedMemory, Node.executeBase p (.push src) n =
        Node.push (n.core.regs.operand src) n := fun n =>
      bind_of_ok (x := operand src) (f := Node.push) (a := n.core.regs.operand src) rfl
    rw [hpush, hpush, h.regs]
    exact (h.push _ ht).mono Live.started
  | pop dst => exact hagrees (agrees_pop.bind fun v => agrees_write dst v)
  | math op => exact .error _ h.started

/-- Twins have the same operand stack. -/
theorem agrees_onMath {α : Type} (x : OperandStack.Run α) :
    Agrees text p (onMath x : NodeM PagedMemory α) := by
  have hmath : ∀ s, Core.Steady fun c => { c with math := s } := fun _ => {}
  intro n₁ n₂ h
  have hsame : n₂.core.math = n₁.core.math := by rw [h.core_eq]
  unfold onMath
  rw [hsame]
  rcases x n₁.core.math with ⟨a, s⟩ | ⟨fault, s⟩
  · exact .ok a (h.mapCore (hmath s) fun _ => rfl)
  · exact .error fault (h.mapCore (hmath s) fun _ => rfl)

/-- A math instruction touches no memory, so that it always agrees. -/
theorem agrees_executeMathOp (op : MathOp) :
    Agrees text p (executeMathOp op : NodeM PagedMemory Unit) := by
  cases op with
  | pushw src => exact (agrees_read src).bind fun _ => agrees_onMath _
  | pushuw src => exact (agrees_read src).bind fun _ => agrees_onMath _
  | popw dst => exact (agrees_onMath _).bind fun _ => agrees_write dst _
  | popuw dst => exact (agrees_onMath _).bind fun _ => agrees_write dst _
  | _ => exact agrees_onMath _

/-- An instruction of the math dialect comes to the same. -/
theorem agrees_executeMath (i : Instruction) :
    Agrees text p (executeMath p i : NodeM PagedMemory Unit) := by
  unfold executeMath
  split
  · exact agrees_pure ()
  · exact agrees_selectSetOperand _
  · exact agrees_executeMathOp _
  · exact agrees_throw _

/-- An instruction of either dialect agrees if what it touches is permitted. -/
theorem Live.execute (h : Live text p n₁ n₂) {d : Dialect} {i : Instruction}
    (ht : text.Permits (executeTouches p n₁ i d)) :
    Alike (Started text p) (Node.execute p d i n₁) (Node.execute p d i n₂) := by
  cases d with
  | base => exact h.executeBase ht
  | math => exact (agrees_executeMath i n₁ n₂ h).mono Live.started

/-! ## Fetches -/

/-- A word of the text decodes to the instruction that the text has there. -/
theorem instructionAt_of_shows {bus : Bus PagedMemory} (h : bus.Shows text) (set : InstructionSet)
    {a : Address} (hc : text.Covers (bus.reach [(a, .word)])) :
    instructionAt set bus.memory a = instructionAt set text.image a := by
  have hr : text.image.refusal a 4 = bus.memory.refusal a 4 := by
    rw [PagedMemory.refusal, PagedMemory.refusal, PagedMemory.size, PagedMemory.size, h.pageCount]
  have hread : ∀ m : PagedMemory, PhysicalMemory.readWord a m =
      PagedMemory.readWith 4 PagedMemory.wordAt a m := fun _ => rfl
  unfold instructionAt
  rw [hread, hread, PagedMemory.readWith, PagedMemory.readWith, hr]
  rcases hr₁ : bus.memory.refusal a 4 with _ | e
  · rw [h.wordAt hr₁ hc]
  · rfl

/-- A fetch from the text answers the instruction that the text has there. A hit and a miss answer
the same, so it does not matter whether the core has the instruction in its cache. -/
theorem fetch_of_shows {set : InstructionSet} {a : Address} {n : Node PagedMemory}
    (hshows : n.bus.Shows text) (hdecoded : n.core.Decoded text p)
    (hset : p.sets[n.core.activeSet]? = some set) (hc : text.Covers (n.bus.reach [(a, .word)])) :
    ∃ fetched, Core.Decoded text p { n.core with fetched } ∧ Node.fetch set a n =
      match instructionAt set text.image a with
      | .ok i => .ok i (n.mapCore fun c => { c with fetched })
      | .error fault => .error fault (n.mapCore fun c => { c with fetched }) := by
  have hmemory := instructionAt_of_shows hshows set hc
  obtain ⟨fetched, hentries, hrun⟩ := fetch_spec set a n
  refine ⟨fetched, fun b i hb => ?_, ?_⟩
  · rcases hentries b i hb with hold | ⟨rfl, -, hnew⟩
    · exact hdecoded b i hold
    · exact ⟨set, hset, hmemory ▸ hnew⟩
  · rw [hrun, hmemory]
    rcases hpeek : n.core.fetched.entries.peek? a with _ | i
    · rfl
    · obtain ⟨set', hset', hi⟩ := hdecoded a i hpeek
      cases hset.symm.trans hset'
      rw [Option.elim_some, hi]

/-- Fetches from the text come to the same on twins. -/
theorem Live.fetch (h : Live text p n₁ n₂) {set : InstructionSet} {a : Address}
    (hset : p.sets[n₁.core.activeSet]? = some set)
    (hc : text.Covers (n₁.bus.reach [(a, .word)])) :
    Alike (Live text p) (Node.fetch set a n₁) (Node.fetch set a n₂) := by
  have hactive : n₂.core.activeSet = n₁.core.activeSet := by rw [h.core_eq]
  obtain ⟨fetched₁, hdecoded₁, hrun₁⟩ := fetch_of_shows h.bus.left h.core.left hset hc
  obtain ⟨fetched₂, hdecoded₂, hrun₂⟩ := fetch_of_shows h.bus.right h.core.right
    (hactive ▸ hset) (Bus.reach_congr h.bus.pageCount _ ▸ hc)
  have hlive : Live text p (n₁.mapCore fun c => { c with fetched := fetched₁ })
      (n₂.mapCore fun c => { c with fetched := fetched₂ }) := by
    refine ⟨⟨h.tallies, h.bus, ?_, hdecoded₁, hdecoded₂, h.core.pageless⟩, h.registered₁,
      h.registered₂, h.alive⟩
    exact congrArg (fun c : Core => { c with fetched := fetched₂ }) h.core.same
  rw [hrun₁, hrun₂]
  rcases instructionAt set text.image a with fault | i
  · exact .error fault hlive
  · exact .ok i hlive

/-! ## Steps -/

/-- The next instruction is executed and counted. -/
theorem Live.executeNext (h : Live text p n₁ n₂) (hr : n₁.core.isRunnable = true)
    (ht : text.Permits (stepTouches p n₁)) :
    Alike (Started text p) (Node.executeNext p n₁) (Node.executeNext p n₂) := by
  rw [stepTouches, if_pos hr] at ht
  unfold Node.executeNext
  refine h.getCore_bind (fun _ _ _ => rfl) ?_
  rcases hset : p.sets[n₁.core.activeSet]? with _ | set
  · exact .error _ h.started
  · rw [hset] at ht
    dsimp only at ht ⊢
    refine (h.fetch hset (covers_of_permits ht)).bind Live.started fun {i n₁' n₂'} hok h' => ?_
    rw [hok] at ht
    replace ht := ht.mono fun _ => List.mem_append_right _
    dsimp only at ht
    have hjump := h'.mapRegs fun regs => { regs with ip := n₁.core.regs.ip + 4 }
    generalize hn₁ : (n₁'.mapRegs fun regs => { regs with ip := n₁.core.regs.ip + 4 }) = m₁
      at ht hjump
    generalize hn₂ : (n₂'.mapRegs fun regs => { regs with ip := n₁.core.regs.ip + 4 }) = m₂
      at hjump
    rw [jumpTo, modifyRegs_bind, modifyRegs_bind, hn₁, hn₂, getRegs_bind, getRegs_bind,
      hjump.regs]
    split
    · exact .error _ hjump.started
    · next hpermitted =>
      rw [if_neg hpermitted] at ht
      refine (agrees_note _ m₁ m₂ hjump).bind Live.started fun {_ k₁ k₂} hnote hnoted => ?_
      have hk₁ := (EStateM.Result.ok.inj (hnote : EStateM.Result.ok () (m₁.record _) = _)).2
      subst hk₁
      refine (hnoted.execute ?_).bind id fun {_ l₁ l₂} _ hdone => ?_
      · rw [executeTouches_congr rfl rfl]
        exact ht
      · exact .ok () (hdone.mapRegs _)

/-- A step comes to the same on sound twins. -/
theorem Twin.step (h : Twin text p n₁ n₂) (h₁ : n₁.Sound) (h₂ : n₂.Sound)
    (ht : text.Permits (stepTouches p n₁)) :
    Twin text p (Node.step p n₁).2 (Node.step p n₂).2 := by
  have hrunnable : n₂.core.isRunnable = n₁.core.isRunnable := by
    rw [Core.isRunnable, h.state]
    rfl
  unfold Node.step
  rw [hrunnable]
  split
  · next hrun =>
    have hx := (h.live h₁ h₂ (isAlive_of_isRunnable hrun)).executeNext hrun ht
    generalize Node.executeNext p n₁ = r₁ at hx
    generalize Node.executeNext p n₂ = r₂ at hx
    cases hx with
    | ok _ h => exact h.toTwin
    | error fault h => exact (h.die fault).toTwin
  · exact h

/-! ## Hardware interrupts -/

/-- A hardware interrupt comes to the same on sound twins. -/
theorem Twin.interrupt (h : Twin text p n₁ n₂) (h₁ : n₁.Sound) (h₂ : n₂.Sound) {index : UInt32}
    (ht : text.Permits (interruptTouches p index n₁)) :
    Twin text p (Node.interrupt p index n₁).2 (Node.interrupt p index n₂).2 := by
  unfold Node.interrupt
  rw [h.isAlive, h.regs]
  rw [interruptTouches] at ht
  split
  · next hc =>
    rw [if_pos hc] at ht
    have hawake : enterTouches p.vectorTable index n₁.wake =
        enterTouches p.vectorTable index n₁ := by
      unfold Node.wake Node.setState
      split
      · split <;> exact enterTouches_congr rfl rfl _ _
      · rfl
    rw [← hawake] at ht
    have hx := (h.live h₁ h₂ hc.1).wake.enterHandler ht
    generalize Node.enterHandler p.vectorTable index n₁.wake = r₁ at hx
    generalize Node.enterHandler p.vectorTable index n₂.wake = r₂ at hx
    cases hx with
    | ok _ h => exact h.toTwin
    | error fault h => exact (h.started.die fault).toTwin
  · exact h

/-! ## The start of a core -/

/-- A core whose data cache is empty starts the same on twins. A refusal names the core, so here
the cores have the same number. -/
theorem Twin.boot (h : Twin text p n₁ n₂) (hid : n₂.core.id = n₁.core.id) (init : BootState)
    (h₁ : n₁.core.state = .reset → ∀ a, (n₁.bus.store n₁.core.id).line? a = none)
    (h₂ : n₂.core.state = .reset → ∀ a, (n₂.bus.store n₂.core.id).line? a = none) :
    Alike (Twin text p) (Node.boot init n₁) (Node.boot init n₂) := by
  have hdecoded : ∀ c : Core, Core.Decoded text p (bootedCore c init) := by
    intro c a i hi
    cases (RecencyMap.peek?_clear ..).symm.trans hi
  have hcore : Core.Twin text p (bootedCore n₁.core init)
      { bootedCore n₂.core init with id := n₁.core.id } := by
    refine ⟨?_, hdecoded _, hdecoded { n₂.core with id := n₁.core.id }, nofun⟩
    exact congrArg (bootedCore · init) h.core.same
  unfold Node.boot
  rw [h.state]
  split
  · next hr =>
    have hbooted : Twin text p
        { n₁ with
          bus := n₁.bus.register n₁.core.id n₁.core.id, core := bootedCore n₁.core init }
        { n₂ with
          bus := n₂.bus.register n₂.core.id n₂.core.id, core := bootedCore n₂.core init } :=
      ⟨h.tallies, h.bus.register (h₁ hr) (h₂ (h.state.trans hr)), hcore⟩
    exact .ok () ((hbooted.record _ _).setState .running)
  · rw [hid]
    exact .error _ h

end Multicore.Node
