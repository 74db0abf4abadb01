import Multicore.Proofs.Core.Steps

/-!
# What ordinary instructions do

A `Mild` effect is a single thing that a core does to its node without touching its frames, its
active interrupts, its instruction cache or the allocation of pages. In unprivileged mode it changes
neither the mode, nor whether hardware interrupts are delivered, nor the segments. A relation
between nodes that holds of every mild effect, and of nothing and of one thing after another
(`Lenient`), holds of whatever an ordinary instruction comes to, if it holds of the selection of an
instruction set (`Lenient.executeBase`, `Lenient.executeMath`). If it holds of the allocation and
of the release of a page as well (`Tolerant`), it holds of what a service comes to
(`Tolerant.serve`). The instructions that are not ordinary end the life of the core, deal with
frames or interrupts, or change the mode.
-/

namespace Multicore

/-- In unprivileged mode, the mode, the delivery of hardware interrupts and the segments stay. -/
def RegisterFile.Plain (f f' : RegisterFile) : Prop :=
  f.flags.privileged = false →
    f'.flags.privileged = false ∧ f'.flags.interruptsEnabled = f.flags.interruptsEnabled ∧
      f'.cs = f.cs ∧ f'.ds = f.ds

/-- A register that unprivileged code may write is none of them. -/
theorem RegisterFile.plain_of_write {f f' : RegisterFile} {r : Register} {v : UInt32}
    (h : f.write r v = .ok f') : f.Plain f' := by
  intro hu
  unfold write at h
  split at h
  · cases h
  · next hr =>
    cases h
    have hfree : ¬ r.isProtected = true := fun hp => hr ⟨hp, by simp [hu]⟩
    cases r with
    | general number => exact ⟨hu, rfl, rfl, rfl⟩
    | sp => exact ⟨hu, rfl, rfl, rfl⟩
    | _ => exact absurd rfl hfree

/-- Whether an instruction neither ends the life of the core, nor deals with frames or interrupts,
nor changes the mode. -/
def Instruction.isOrdinary : Instruction → Bool
  | .hlt _ | .idle | .int _ | .retint | .call _ | .ret | .cli | .sti | .lpm => false
  | _ => true

namespace Node

variable {β : Type}

/-! ## Computations that do no more than a relation allows -/

/-- A relation that holds of doing nothing, and of one thing after another. -/
structure Closed (R : Node β → Node β → Prop) : Prop where
  refl : ∀ n, R n n
  trans : ∀ {n n' n''}, R n n' → R n' n'' → R n n''

/-- Whatever a computation comes to, it does no more than the relation allows. -/
def Does {α : Type} (R : Node β → Node β → Prop) (x : NodeM β α) : Prop :=
  ∀ n, R n (finalState x n)

variable {R : Node β → Node β → Prop}

/-- Of two computations that do no more than the relation allows, either may be chosen. -/
theorem Does.ite {α : Type} {c : Prop} [Decidable c] {x y : NodeM β α} (hx : Does R x)
    (hy : Does R y) : Does R (if c then x else y) := by
  split
  · exact hx
  · exact hy

/-- What is done with the core is done with the core of the node. -/
theorem Does.getCore_bind {α : Type} {f : Core → NodeM β α}
    (h : ∀ n, R n (finalState (f n.core) n)) : Does R (getCore >>= f) :=
  h

namespace Closed

section
variable {α γ : Type} {x : NodeM β α} {f : α → NodeM β γ} (hR : Closed R)
include hR

/-- On nodes, a closed relation is one that chains. -/
theorem chains : Chains R := ⟨hR.refl, hR.trans⟩

/-- An answer without a computation does nothing. -/
theorem pure (a : α) : Does R (Pure.pure a : NodeM β α) := hR.refl

/-- A fault that is raised does nothing to the node. -/
theorem throw (fault : Fault) : Does R (MonadExcept.throw fault : NodeM β α) := hR.refl

/-- What is done before and after a result is known is put together, at one node. -/
theorem bind_at {n : Node β} (hx : R n (finalState x n)) (hf : ∀ a, Does R (f a)) :
    R n (finalState (x >>= f) n) :=
  hR.chains.bind_at hx hf

theorem bind (hx : Does R x) (hf : ∀ a, Does R (f a)) : Does R (x >>= f) := hR.chains.bind hx hf

/-- A loop does no more than its body does in each turn. -/
theorem forM {δ : Type} {g : δ → NodeM β PUnit} (l : List δ) (hg : ∀ d, Does R (g d)) :
    Does R (l.forM g) :=
  hR.chains.forM l hg

end

variable (hR : Closed R)
include hR

theorem getCore : Does R (getCore : NodeM β Core) := hR.refl

theorem getRegs : Does R (getRegs : NodeM β RegisterFile) := hR.refl

theorem read (r : Register) : Does R (read r : NodeM β UInt32) := hR.refl

theorem operand (x : Operand) : Does R (operand x : NodeM β UInt32) := hR.refl

/-- The target of a jump is computed from the registers, which are only read. -/
theorem jumpTarget (x : Operand) : Does R (jumpTarget x : NodeM β UInt32) := by
  cases x with
  | reg r => exact hR.read r
  | imm offset => exact hR.bind hR.getRegs fun _ => hR.pure _

/-- An effective address is computed from the registers, which are only read. -/
theorem effectiveAddress (base : Register) (offset : Int16) :
    Does R (effectiveAddress base offset : NodeM β Address) :=
  hR.bind hR.getCore fun _ => hR.pure _

/-- A check of the frame only reads, whether it passes or not. -/
theorem checkFrame : Does R (checkFrame : NodeM β Unit) := by
  refine hR.bind hR.getCore fun c => ?_
  split
  · exact hR.throw _
  · split
    · exact hR.pure ()
    · exact hR.throw _

/-- An installed instruction set is selected, and the instruction cache cleared. -/
theorem selectSet (p : Platform) (id : UInt8)
    (hselect : p.sets.contains id = true → ∀ n : Node β,
      R n (n.mapCore fun c => { c with activeSet := id, fetched := c.fetched.clear })) :
    Does R (selectSet p id : NodeM β Unit) := by
  unfold Node.selectSet
  split
  · next h => exact hselect h
  · exact hR.throw _

variable [PhysicalMemory β]

/-- Taking a frame down is a check, two pops, and changes of the registers and of the frames. -/
theorem popFrame (p : Platform) (hpop : Does R (pop : NodeM β UInt32))
    (hfp : ∀ fp, Does R (modifyRegs fun regs => { regs with fp } : NodeM β Unit))
    (hip : ∀ ip, Does R (modifyRegs fun regs => { regs with ip } : NodeM β Unit))
    (hframes : Does R (modifyCore fun c => { c with frames := c.frames.tail } : NodeM β Unit)) :
    Does R (popFrame p : NodeM β Unit) := by
  have hpops : Does R (do
      let fp ← pop
      modifyRegs fun regs => { regs with fp }
      let ip ← pop
      modifyRegs fun regs => { regs with ip }
      modifyCore fun c => { c with frames := c.frames.tail } : NodeM β Unit) := by
    refine hR.bind hpop fun fp => hR.bind (hfp fp) fun _ => ?_
    exact hR.bind hpop fun ip => hR.bind (hip ip) fun _ => hframes
  unfold Node.popFrame
  exact .ite (hR.bind hR.checkFrame fun _ => hpops) hpops

/-- Taking the rest of the context off the stack is pops and changes of the registers. -/
theorem takeContext (hpop : Does R (pop : NodeM β UInt32))
    (hregs : ∀ f, Does R (modifyRegs f : NodeM β Unit)) :
    Does R (takeContext : NodeM β Unit) := by
  have hgeneral : Does R (popGeneral : NodeM β Unit) :=
    hR.forM _ fun i => hR.bind hpop fun v => hregs _
  refine hR.bind hgeneral fun _ => hR.bind hpop fun _ => hR.bind (hregs _) fun _ => ?_
  refine hR.bind hpop fun _ => hR.bind (hregs _) fun _ => ?_
  exact hR.bind hpop fun _ => hR.bind hpop fun _ => hregs _

end Closed

/-! ## Mild effects -/

variable [PhysicalMemory β]

/-- One thing that a core does, apart from its frames, its interrupts, its mode, its instruction
cache and pages. -/
inductive Mild (n : Node β) : Node β → Prop
  | regs (f : RegisterFile → RegisterFile) (h : n.core.regs.Plain (f n.core.regs)) :
    Mild n (n.mapRegs f)
  | math (s : OperandStack) : Mild n (n.mapCore fun c => { c with math := s })
  | load (width : Width) (a : Address) :
    Mild n { n with bus := finalState (Bus.load width n.core.id a) n.bus }
  | store (width : Width) (a : Address) (v : UInt32) :
    Mild n { n with bus := finalState (Bus.storeAt width n.core.id a v) n.bus }
  | record (e : Event) : Mild n (n.record e)
  | tally (index count : UInt32) : Mild n { n with tallies := n.tallies.insert index count }

/-- A relation that holds of all mild effects as well. -/
structure Lenient (R : Node β → Node β → Prop) : Prop extends Closed R where
  mild : ∀ {n n'}, Mild n n' → R n n'

/-- A relation that holds of the allocation and of the release of a page as well. -/
structure Tolerant (R : Node β → Node β → Prop) : Prop extends Lenient R where
  allocatePage : ∀ segment, Does R (allocatePage segment : NodeM β UInt32)
  freePage : ∀ page, Does R (freePage page : NodeM β Unit)

namespace Lenient

variable (hR : Lenient R)
include hR

/-! ## Registers -/

/-- A change of the registers is mild if it leaves unprivileged code what it may not change. -/
theorem modifyRegs (f : RegisterFile → RegisterFile)
    (hf : ∀ regs : RegisterFile, regs.Plain (f regs)) : Does R (modifyRegs f : NodeM β Unit) :=
  fun n => hR.mild (.regs f (hf n.core.regs))

/-- An event that is recorded is a mild effect. -/
theorem note (e : Nat → Event) : Does R (note e : NodeM β Unit) :=
  fun n => hR.mild (.record (e n.core.id))

/-- A write to a register is refused, or it is a mild effect. -/
theorem write (r : Register) (v : UInt32) : Does R (write r v : NodeM β Unit) := by
  intro n
  rcases hw : n.core.regs.write r v with fault | regs
  · have hrun : Node.write r v n = .error fault n := by
      simp only [Node.write, getRegs_bind, hw]
      rfl
    rw [finalState_of_error hrun]
    exact hR.refl n
  · have hrun : Node.write r v n = .ok () (n.mapRegs fun _ => regs) := by
      simp only [Node.write, getRegs_bind, hw]
      rfl
    rw [finalState_of_ok hrun]
    exact hR.mild (.regs _ (RegisterFile.plain_of_write hw))

/-- The flags that an instruction computes are neither the mode nor the delivery of interrupts. -/
theorem modifyFlags (f : Flags → Flags)
    (hf : ∀ flags : Flags, (f flags).privileged = flags.privileged ∧
      (f flags).interruptsEnabled = flags.interruptsEnabled) :
    Does R (modifyFlags f : NodeM β Unit) :=
  hR.modifyRegs _ fun regs hu =>
    ⟨(hf regs.flags).1.trans hu, (hf regs.flags).2, rfl, rfl⟩

theorem jumpTo (ip : UInt32) : Does R (jumpTo ip : NodeM β Unit) :=
  hR.modifyRegs _ fun _ hu => ⟨hu, rfl, rfl, rfl⟩

/-- A result is written together with the flags that it sets. -/
theorem writeResult (dst : Register) (v : UInt32) (overflow : Bool) :
    Does R (writeResult dst v overflow : NodeM β Unit) :=
  hR.bind (hR.write dst v) fun _ => hR.modifyFlags _ fun _ => ⟨rfl, rfl⟩

/-- An arithmetic instruction writes its result, or it divides by zero and does nothing. -/
theorem arithmetic (op : AluOp) (dst : Register) (rhs : UInt32) :
    Does R (arithmetic op dst rhs : NodeM β Unit) := by
  refine hR.bind (hR.read dst) fun v => ?_
  split
  · exact hR.writeResult dst _ _
  · exact hR.throw _

/-! ## Memory -/

/-- A load, at one node. -/
theorem load_at (n : Node β) (width : Width) (a : Address) :
    R n (finalState (onBus (Bus.load width n.core.id a)) n) := by
  rw [finalState_onBus]
  exact hR.mild (.load width a)

/-- A store, at one node. -/
theorem store_at (n : Node β) (width : Width) (a : Address) (v : UInt32) :
    R n (finalState (onBus (Bus.storeAt width n.core.id a v)) n) := by
  rw [finalState_onBus]
  exact hR.mild (.store width a v)

/-- A load instruction is a load on the bus, whatever its width. -/
theorem loadFrom (width : Width) (a : Address) :
    Does R (loadFrom width a : NodeM β UInt32) := by
  intro n
  rw [finalState_congr (loadFrom_eq width a n)]
  exact hR.load_at n width a

/-- A store instruction is a store on the bus, whatever its width. -/
theorem storeTo (width : Width) (a : Address) (v : UInt32) :
    Does R (storeTo width a v : NodeM β Unit) := by
  intro n
  rw [finalState_congr (storeTo_eq width a v n)]
  exact hR.store_at n width a v

/-- A push is a store below the stack pointer, which then moves there. -/
theorem push (v : UInt32) : Does R (push v : NodeM β Unit) := by
  refine Does.getCore_bind fun n => ?_
  refine hR.bind_at (hR.store_at n .word (n.core.dataAddress (n.core.regs.sp - 4)) v) fun _ => ?_
  exact hR.modifyRegs _ fun _ hu => ⟨hu, rfl, rfl, rfl⟩

/-- A pop is a load at the stack pointer, which then moves up. -/
theorem pop : Does R (pop : NodeM β UInt32) := by
  refine Does.getCore_bind fun n => ?_
  refine hR.bind_at (hR.load_at n .word (n.core.dataAddress n.core.regs.sp)) fun v => ?_
  exact hR.bind (hR.modifyRegs _ fun _ hu => ⟨hu, rfl, rfl, rfl⟩) fun _ => hR.pure v

/-! ## Interrupts and services -/

/-- Saving the context is pushes, but for the frame at the end. -/
theorem saveContext (ds sp : UInt32) (hframe : Does R (pushFrame : NodeM β Unit)) :
    Does R (saveContext ds sp : NodeM β Unit) := by
  refine hR.bind (hR.push _) fun _ => hR.bind (hR.push _) fun _ => ?_
  refine hR.bind hR.getRegs fun _ => hR.bind (hR.push _) fun _ => ?_
  refine hR.bind hR.getRegs fun _ => hR.bind (hR.push _) fun _ => ?_
  exact hR.bind hR.getRegs fun _ => hR.bind (hR.forM _ hR.push) fun _ => hframe

/-- A service that has nothing to do with the life of the core or with pages. -/
theorem serve (index : UInt32) {s : Service} (hhalt : s ≠ .halt) (hmemory : s ≠ .memory) :
    Does R (serve index s : NodeM β Unit) := by
  cases s with
  | halt => exact absurd rfl hhalt
  | memory => exact absurd rfl hmemory
  | counter =>
    refine hR.bind (fun n => hR.refl n) fun n => hR.bind (fun n' => ?_) fun _ => hR.write _ _
    exact hR.mild (.tally index _)
  | refuse => exact hR.throw _

/-! ## The dialects -/

/-- An ordinary instruction of the base dialect. -/
theorem executeBase (p : Platform) (hselect : ∀ id, Does R (selectSet p id : NodeM β Unit))
    {i : Instruction} (hi : i.isOrdinary = true) : Does R (executeBase p i : NodeM β Unit) := by
  cases i with
  | nop => exact hR.pure ()
  | sis set => exact hR.bind (hR.operand set) fun _ => hselect _
  | li dst v => exact hR.writeResult dst _ _
  | liu dst v => exact hR.bind (hR.read dst) fun _ => hR.write dst _
  | mov dst src => exact hR.bind (hR.read src) fun _ => hR.write dst _
  | alu op dst src => exact hR.bind (hR.operand src) fun _ => hR.arithmetic op dst _
  | not dst => exact hR.bind (hR.read dst) fun _ => hR.writeResult dst _ _
  | inc dst => exact hR.arithmetic .add dst 1
  | dec dst => exact hR.arithmetic .sub dst 1
  | cmp lhs rhs =>
    refine hR.bind (hR.read lhs) fun l => hR.bind (hR.operand rhs) fun r => ?_
    exact hR.modifyFlags _ fun _ => ⟨rfl, rfl⟩
  | jump cond target =>
    refine hR.bind hR.getRegs fun regs => .ite ?_ (hR.pure ())
    exact hR.bind (hR.jumpTarget target) hR.jumpTo
  | load width dst base offset =>
    refine hR.bind (hR.effectiveAddress base offset) fun a => ?_
    exact hR.bind (hR.loadFrom width a) fun v => hR.write dst v
  | store width src base offset =>
    refine hR.bind (hR.effectiveAddress base offset) fun a => ?_
    exact hR.bind (hR.read src) fun v => hR.storeTo width a v
  | push src => exact hR.bind (hR.operand src) hR.push
  | pop dst => exact hR.bind hR.pop fun v => hR.write dst v
  | math op => exact hR.throw _
  | _ => cases hi

/-- Whatever happens to the operand stack is a mild effect, also when it fails. -/
theorem onMath {α : Type} (x : OperandStack.Run α) : Does R (onMath x : NodeM β α) := by
  intro n
  rcases h : x n.core.math with ⟨a, s⟩ | ⟨e, s⟩
  · have hrun : Node.onMath x n = .ok a (n.mapCore fun c => { c with math := s }) := by
      rw [Node.onMath, h]
    rw [finalState_of_ok hrun]
    exact hR.mild (.math s)
  · have hrun : Node.onMath x n = .error e (n.mapCore fun c => { c with math := s }) := by
      rw [Node.onMath, h]
    rw [finalState_of_error hrun]
    exact hR.mild (.math s)

/-- A math instruction uses the operand stack and writes one register at most. -/
theorem executeMathOp (op : MathOp) : Does R (executeMathOp op : NodeM β Unit) := by
  cases op with
  | pushw src => exact hR.bind (hR.read src) fun _ => hR.onMath _
  | pushuw src => exact hR.bind (hR.read src) fun _ => hR.onMath _
  | popw dst => exact hR.bind (hR.onMath _) fun _ => hR.write dst _
  | popuw dst => exact hR.bind (hR.onMath _) fun _ => hR.write dst _
  | _ => exact hR.onMath _

/-- Every instruction is ordinary for the math dialect. -/
theorem executeMath (p : Platform) (hselect : ∀ id, Does R (selectSet p id : NodeM β Unit))
    (i : Instruction) : Does R (executeMath p i : NodeM β Unit) := by
  unfold Node.executeMath
  split
  · exact hR.pure ()
  · exact hR.bind (hR.operand _) fun _ => hselect _
  · exact hR.executeMathOp _
  · exact hR.throw _

end Lenient

/-! ## Pages -/

namespace Tolerant

variable (hR : Tolerant R)
include hR

/-- The stack of a handler is fixed by its vector, or it is a page that is allocated. -/
theorem handlerStack (v : InterruptVector) :
    Does R (handlerStack v : NodeM β (UInt32 × Option UInt32)) := by
  unfold Node.handlerStack
  split
  · exact hR.bind (hR.allocatePage _) fun _ => hR.pure _
  · exact hR.pure _

/-- A request for pages is an allocation or a release, and an answer in a register. -/
theorem serveMemory (r : MemoryRequest) : Does R (serveMemory r : NodeM β Unit) := by
  cases r with
  | alloc =>
    intro n
    have h := hR.allocatePage none n
    rcases hrun : Node.allocatePage none n with ⟨page, n'⟩ | ⟨fault, n'⟩
    · rw [finalState_of_ok hrun] at h
      have hwrite : Node.serveMemory .alloc n = Node.write (.general 0) page n' := by
        simp only [Node.serveMemory, hrun]
      rw [finalState_congr hwrite]
      exact hR.trans h (hR.write _ _ n')
    · rw [finalState_of_error hrun] at h
      by_cases hfault : fault = .memory .noFreePage
      · have hwrite : Node.serveMemory .alloc n = Node.write (.general 0) 0xffffffff n' := by
          simp only [Node.serveMemory, hrun, hfault]
        rw [finalState_congr hwrite]
        exact hR.trans h (hR.write _ _ n')
      · have herror : Node.serveMemory .alloc n = .error fault n' := by
          simp only [Node.serveMemory, hrun]
        rw [finalState_of_error herror]
        exact h
  | free => exact hR.bind (hR.read _) hR.freePage
  | countFree => exact hR.bind (fun n => hR.refl n) fun _ => hR.write _ _

/-- A service other than the one that halts the core. -/
theorem serve (index : UInt32) (s : Service) (hs : s ≠ .halt) :
    Does R (serve index s : NodeM β Unit) := by
  cases s with
  | halt => exact absurd rfl hs
  | memory =>
    refine hR.bind (hR.read _) fun request => ?_
    split
    · exact hR.serveMemory _
    · exact hR.throw _
  | counter => exact hR.toLenient.serve index nofun nofun
  | refuse => exact hR.toLenient.serve index nofun nofun

end Tolerant

end Node

end Multicore
