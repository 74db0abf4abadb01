import Multicore.Proofs.Core.Quiet
import Multicore.Proofs.Instruction.RoundTrip

/-!
# Instructions of another dialect

Each dialect refuses the instructions that do not belong to it, by a fault of its own
(`Fault.isForeign`). No other part of a computation raises these faults: the parts are `Native`,
one after the other, down to the bus. So an instruction that belongs to the dialect which executes
it never raises them (`native_execute`).
-/

namespace Multicore

/-- Whether the fault says that a dialect was given an instruction of another one. -/
def Fault.isForeign : Fault → Bool
  | .accessViolation .coprocessorInstruction => true
  | .accessViolation (.foreignInstruction _) => true
  | _ => false

/-- Whatever fault a computation ends in, it is not about an instruction of another dialect. -/
def Native {σ α : Type} (x : EStateM Fault σ α) : Prop :=
  ∀ s fault s', x s = .error fault s' → fault.isForeign = false

namespace Native

variable {σ α γ : Type}

/-- A computation that always succeeds is native. -/
theorem of_ok {x : EStateM Fault σ α} (h : ∀ s, ∃ a s', x s = .ok a s') : Native x := by
  intro s fault s' hrun
  obtain ⟨a, t, hok⟩ := h s
  cases hok.symm.trans hrun

/-- An answer without a computation raises nothing. -/
theorem pure (a : α) : Native (Pure.pure a : EStateM Fault σ α) := of_ok fun s => ⟨a, s, rfl⟩

theorem get : Native (MonadState.get : EStateM Fault σ σ) := of_ok fun s => ⟨s, s, rfl⟩

/-- A change of the state raises nothing. -/
theorem modify (f : σ → σ) : Native (modify f : EStateM Fault σ PUnit) :=
  of_ok fun s => ⟨⟨⟩, f s, rfl⟩

/-- A fault that is raised by itself has to be one that is not about a dialect. -/
theorem throw {fault : Fault} (h : fault.isForeign = false) :
    Native (MonadExcept.throw fault : EStateM Fault σ α) := by
  intro s fault' s' hrun
  cases hrun
  exact h

/-- One native computation after another is native. The second may use the answer of the first. -/
theorem bind {x : EStateM Fault σ α} {f : α → EStateM Fault σ γ} (hx : Native x)
    (hf : ∀ a, Native (f a)) : Native (x >>= f) := by
  intro s fault s' hrun
  rcases hrunx : x s with ⟨a, t⟩ | ⟨e, t⟩
  · exact hf a t fault s' ((bind_of_ok hrunx).symm.trans hrun)
  · cases (bind_of_error hrunx).symm.trans hrun
    exact hx s _ _ hrunx

/-- Of two native computations, either may be chosen. -/
theorem ite {c : Prop} [Decidable c] {x y : EStateM Fault σ α} (hx : Native x) (hy : Native y) :
    Native (if c then x else y) := by
  split
  · exact hx
  · exact hy

/-- A loop is native if its body is, by induction on the list. -/
theorem forM {g : γ → EStateM Fault σ PUnit} (l : List γ) (hg : ∀ c, Native (g c)) :
    Native (l.forM g) := by
  induction l with
  | nil => exact pure PUnit.unit
  | cons c rest ih => exact bind (hg c) fun _ => ih

end Native

/-- A fault of memory is not about an instruction. -/
theorem MemoryError.isForeign_ofMemory (e : MemoryError) :
    (Fault.ofMemory e).isForeign = false := by
  cases e <;> rfl

/-- What the decoder refuses belongs to no dialect. -/
theorem Dialect.isForeign_of_decode {d : Dialect} {w : Word} {fault : Fault}
    (h : d.decode w = .error fault) : fault.isForeign = false := by
  unfold Dialect.decode at h
  dsimp only at h
  split at h
  · cases h
  · cases h
    rfl

/-- The arithmetic unit refuses a division by zero only. -/
theorem Alu.isForeign_of_execute {op : AluOp} {a b : UInt32} {fault : Fault}
    (h : Alu.execute op a b = .error fault) : fault.isForeign = false := by
  cases op with
  | div | mod =>
    unfold Alu.execute Alu.arithmetic at h
    dsimp only at h
    split at h
    · cases h
      rfl
    · cases h
  | _ => cases h

/-! ## The operand stack -/

namespace OperandStack

/-- A push to a full operand stack overflows, which is no matter of dialects. -/
theorem native_push (v : Int64) : Native (push v) := by
  intro s fault s' hrun
  unfold push at hrun
  split at hrun
  · cases hrun
  · cases hrun
    rfl

/-- A pop from an empty operand stack underflows. -/
theorem native_pop : Native pop := by
  intro s fault s' hrun
  unfold pop at hrun
  split at hrun
  · cases hrun
    rfl
  · cases hrun

/-- A look at the top of an empty operand stack underflows. -/
theorem native_peek : Native peek := by
  intro s fault s' hrun
  unfold peek at hrun
  split at hrun
  · cases hrun
    rfl
  · cases hrun

/-- An operation on two operands adds the faults of the operation itself. -/
theorem native_combine {f : Int64 → Int64 → Except Fault Int64}
    (hf : ∀ x y fault, f x y = .error fault → fault.isForeign = false) : Native (combine f) := by
  refine .bind native_pop fun rhs => .bind native_pop fun lhs => ?_
  split
  · exact native_push _
  · next fault h => exact .throw (hf lhs rhs fault h)

/-- A quotient fails by division by zero only. -/
theorem isForeign_of_quotient (x y : Int64) (fault : Fault) (h : quotient x y = .error fault) :
    fault.isForeign = false := by
  unfold quotient at h
  split at h
  · cases h
    rfl
  · cases h

/-- A remainder fails by division by zero only. -/
theorem isForeign_of_remainder (x y : Int64) (fault : Fault) (h : remainder x y = .error fault) :
    fault.isForeign = false := by
  unfold remainder at h
  split at h
  · cases h
    rfl
  · cases h

/-- To adjust the top is a pop and a push. -/
theorem native_adjustTop (delta : Int64) : Native (adjustTop delta) :=
  .bind native_pop fun _ => native_push _

/-- To swap is two pops and two pushes. -/
theorem native_swap : Native swap := by
  refine .bind native_pop fun _ => .bind native_pop fun _ => ?_
  exact .bind (native_push _) fun _ => native_push _

end OperandStack

/-! ## The bus -/

namespace Bus

variable {β α : Type}

/-- What memory refuses is reported as a fault of memory. -/
theorem native_onMemory (x : EStateM MemoryError β α) : Native (onMemory x) := by
  intro bus fault bus' hrun
  unfold onMemory at hrun
  split at hrun
  · cases hrun
  · cases hrun
    exact MemoryError.isForeign_ofMemory _

/-- What a data cache does fails where memory refuses a write-back. -/
theorem native_onStore (i : Nat) (x : HalfwordCache.Run β α) : Native (onStore i x) := by
  intro bus fault bus' hrun
  unfold onStore at hrun
  split at hrun
  · cases hrun
  · cases hrun
    exact MemoryError.isForeign_ofMemory _

/-- A misaligned address is reported as such. -/
theorem native_checkAlignment (a : Address) (width : UInt32) :
    Native (checkAlignment a width : EStateM Fault (Bus β) Unit) :=
  .ite (.pure ()) (.throw rfl)

variable [PhysicalMemory β]

/-- A halfword is fetched from the data cache, and on a miss from memory. -/
theorem native_fetchHalf (i : Nat) (a : Address) :
    Native (fetchHalf i a : EStateM Fault (Bus β) UInt16) := by
  refine .bind (.of_ok fun s => ⟨_, _, rfl⟩) fun found => ?_
  split
  · exact .pure _
  · refine .bind (.modify _) fun _ => .bind (native_onMemory _) fun _ => ?_
    exact .bind (native_onStore i _) fun _ => .pure _

/-- A halfword is put into the data cache, on a miss after it was read from memory. -/
theorem native_putHalf (i : Nat) (a : Address) (v : UInt16) :
    Native (putHalf i a v : EStateM Fault (Bus β) Unit) := by
  have hput : Native (do
      onStore i (HalfwordCache.store a v)
      modify fun bus => bus.announceWrite i a : EStateM Fault (Bus β) Unit) :=
    .bind (native_onStore i _) fun _ => .modify _
  refine .bind .get fun bus => .ite hput ?_
  refine .bind (native_onMemory _) fun _ => .bind (native_onStore i _) fun _ => hput

/-- A load of any width is a check of the alignment and one or two fetches. -/
theorem native_load (width : Width) (i : Nat) (a : Address) :
    Native (load width i a : EStateM Fault (Bus β) UInt32) := by
  cases width with
  | byte => exact .bind (.bind (native_fetchHalf i _) fun _ => .pure _) fun _ => .pure _
  | half =>
    exact .bind (.bind (native_checkAlignment a 2) fun _ => native_fetchHalf i a) fun _ => .pure _
  | word =>
    refine .bind (native_checkAlignment a 4) fun _ => .bind (native_fetchHalf i a) fun _ => ?_
    exact .bind (native_fetchHalf i _) fun _ => .pure _

/-- A store of any width is a check of the alignment and one or two puts. -/
theorem native_storeAt (width : Width) (i : Nat) (a : Address) (v : UInt32) :
    Native (storeAt width i a v : EStateM Fault (Bus β) Unit) := by
  cases width with
  | byte => exact .bind (native_fetchHalf i _) fun _ => native_putHalf i _ _
  | half => exact .bind (native_checkAlignment a 2) fun _ => native_putHalf i a _
  | word =>
    refine .bind (native_checkAlignment a 4) fun _ => .bind (native_putHalf i a _) fun _ => ?_
    exact native_putHalf i _ _

end Bus

/-- A look-up fails where the fetch does. -/
theorem InstructionCache.native_get {σ : Type} (a : Address)
    {fetch : Address → EStateM Fault σ Instruction} (hfetch : ∀ a, Native (fetch a)) :
    Native (InstructionCache.get a fetch) := by
  rintro ⟨cache, s⟩ fault s' hrun
  unfold InstructionCache.get at hrun
  dsimp only at hrun
  split at hrun
  · cases hrun
  · split at hrun
    · cases hrun
    · next hs =>
      cases hrun
      exact hfetch a _ _ _ hs

/-! ## The parts of instructions -/

namespace Node

variable {β α : Type}

/-- What a core does on its bus fails as the bus does. -/
theorem native_onBus {x : EStateM Fault (Bus β) α} (hx : Native x) :
    Native (onBus x : NodeM β α) := by
  intro n fault n' hrun
  unfold onBus at hrun
  split at hrun
  · cases hrun
  · next hbus =>
    cases hrun
    exact hx _ _ _ hbus

/-- What a core does in memory past its data cache fails as memory does. -/
theorem native_onMemory (x : EStateM MemoryError β α) : Native (onMemory x : NodeM β α) :=
  native_onBus (Bus.native_onMemory x)

/-- What a core does on its operand stack fails as the stack does. -/
theorem native_onMath {x : OperandStack.Run α} (hx : Native x) : Native (onMath x : NodeM β α) := by
  intro n fault n' hrun
  unfold onMath at hrun
  split at hrun
  · cases hrun
  · next hmath =>
    cases hrun
    exact hx _ _ _ hmath

theorem native_getCore : Native (getCore : NodeM β Core) := .of_ok fun n => ⟨_, n, rfl⟩

/-- The registers can always be read. -/
theorem native_getRegs : Native (getRegs : NodeM β RegisterFile) := .of_ok fun n => ⟨_, n, rfl⟩

/-- A register can always be read. -/
theorem native_read (r : Register) : Native (read r : NodeM β UInt32) :=
  .of_ok fun n => ⟨_, n, rfl⟩

/-- An operand can always be evaluated. -/
theorem native_operand (x : Operand) : Native (operand x : NodeM β UInt32) :=
  .of_ok fun n => ⟨_, n, rfl⟩

/-- A change of all registers, protected ones too, is not checked. -/
theorem native_modifyRegs (f : RegisterFile → RegisterFile) :
    Native (modifyRegs f : NodeM β Unit) :=
  .modify _

/-- A change of the core is not checked. -/
theorem native_modifyCore (f : Core → Core) : Native (modifyCore f : NodeM β Unit) := .modify _

/-- An event can always be recorded. -/
theorem native_note (e : Nat → Event) : Native (note e : NodeM β Unit) := .modify _

/-- A write to a protected register is an access violation, but not one of dialects. -/
theorem native_write (r : Register) (v : UInt32) : Native (write r v : NodeM β Unit) := by
  refine .bind native_getRegs fun regs => ?_
  split
  · exact native_modifyRegs _
  · next hw =>
    unfold RegisterFile.write at hw
    split at hw
    · cases hw
      exact .throw rfl
    · cases hw

/-- A change of the flags is not checked. -/
theorem native_modifyFlags (f : Flags → Flags) : Native (modifyFlags f : NodeM β Unit) :=
  native_modifyRegs _

/-- A result is refused where its register is. -/
theorem native_writeResult (dst : Register) (v : UInt32) (overflow : Bool) :
    Native (writeResult dst v overflow : NodeM β Unit) :=
  .bind (native_write dst v) fun _ => native_modifyFlags _

/-- An arithmetic instruction fails by division by zero or by its destination. -/
theorem native_arithmetic (op : AluOp) (dst : Register) (rhs : UInt32) :
    Native (arithmetic op dst rhs : NodeM β Unit) := by
  refine .bind (native_read dst) fun v => ?_
  split
  · exact native_writeResult dst _ _
  · next fault h =>
    exact .throw (Alu.isForeign_of_execute h)

/-- The target of a jump can always be computed. -/
theorem native_jumpTarget (x : Operand) : Native (jumpTarget x : NodeM β UInt32) := by
  cases x with
  | reg r => exact native_read r
  | imm offset => exact .bind native_getRegs fun _ => .pure _

/-- An effective address can always be computed, since it wraps. -/
theorem native_effectiveAddress (base : Register) (offset : Int16) :
    Native (effectiveAddress base offset : NodeM β Address) :=
  .bind native_getCore fun _ => .pure _

/-- A set that is not installed is an invalid one, which is another fault than a foreign
instruction. -/
theorem native_selectSet (p : Platform) (id : UInt8) :
    Native (selectSet p id : NodeM β Unit) :=
  .ite (native_modifyCore _) (.throw rfl)

/-- A frame that does not fit is an invalid frame. -/
theorem native_checkFrame : Native (checkFrame : NodeM β Unit) := by
  refine .bind native_getCore fun c => ?_
  split
  · exact .throw rfl
  · exact .ite (.pure ()) (.throw rfl)

variable [PhysicalMemory β]

/-- A load instruction fails as the bus does. -/
theorem native_loadFrom (width : Width) (a : Address) :
    Native (loadFrom width a : NodeM β UInt32) := by
  intro n fault n' hrun
  rw [loadFrom_eq] at hrun
  exact native_onBus (Bus.native_load width n.core.id a) n fault n' hrun

/-- A store instruction fails as the bus does. -/
theorem native_storeTo (width : Width) (a : Address) (v : UInt32) :
    Native (storeTo width a v : NodeM β Unit) := by
  intro n fault n' hrun
  rw [storeTo_eq] at hrun
  exact native_onBus (Bus.native_storeAt width n.core.id a v) n fault n' hrun

/-- A push fails as its store does. -/
theorem native_push (v : UInt32) : Native (push v : NodeM β Unit) := by
  refine .bind native_getCore fun c => ?_
  exact .bind (native_onBus (Bus.native_storeAt .word _ _ _)) fun _ => native_modifyRegs _

/-- A pop fails as its load does. -/
theorem native_pop : Native (pop : NodeM β UInt32) := by
  refine .bind native_getCore fun c => .bind (native_onBus (Bus.native_load .word _ _)) fun v => ?_
  exact .bind (native_modifyRegs _) fun _ => .pure v

/-- A frame is recorded once two words are pushed, which fails as a store does. -/
theorem native_pushFrame : Native (pushFrame : NodeM β Unit) := by
  refine .bind native_getRegs fun _ => .bind (native_push _) fun _ => ?_
  refine .bind native_getRegs fun _ => .bind (native_push _) fun _ => ?_
  exact native_modifyCore _

/-- A frame is checked, if checks are on, and two words are popped. -/
theorem native_popFrame (p : Platform) : Native (popFrame p : NodeM β Unit) := by
  have hpops : Native (takeFrame : NodeM β Unit) := by
    refine .bind native_pop fun _ => .bind (native_modifyRegs _) fun _ => ?_
    exact .bind native_pop fun _ => .bind (native_modifyRegs _) fun _ => native_modifyCore _
  exact .ite (.bind native_checkFrame fun _ => hpops) hpops

/-- Memory refuses an allocation if no page is free. -/
theorem native_allocatePage (segment : Option UInt32) :
    Native (allocatePage segment : NodeM β UInt32) :=
  .bind (native_onMemory _) fun _ => .bind (.modify _) fun _ => .pure _

/-- Memory refuses to free a page that is not allocated. -/
theorem native_freePage (page : UInt32) : Native (freePage page : NodeM β Unit) := by
  have hfree : Native (do
      modify fun n => { n with bus := n.bus.discard (.page page) false }
      onMemory (PhysicalMemory.freePage page) : NodeM β Unit) :=
    .bind (.modify _) fun _ => native_onMemory _
  exact .bind (native_onMemory _) fun _ => .ite hfree (.bind (.throw rfl) fun _ => hfree)

/-! ## Interrupts and services -/

/-- A context is saved by pushes. -/
theorem native_saveContext (ds sp : UInt32) : Native (saveContext ds sp : NodeM β Unit) := by
  refine .bind (native_push _) fun _ => .bind (native_push _) fun _ => ?_
  refine .bind native_getRegs fun _ => .bind (native_push _) fun _ => ?_
  refine .bind native_getRegs fun _ => .bind (native_push _) fun _ => ?_
  exact .bind native_getRegs fun _ => .bind (.forM _ native_push) fun _ => native_pushFrame

/-- An entry that fails is undone and raises the fault that it met. -/
theorem native_enterHandler (table : Address) (index : UInt32) :
    Native (enterHandler table index : NodeM β Unit) := by
  refine .bind (native_onMemory _) fun v => .bind ?_ fun stack => .bind native_getRegs fun old => ?_
  · exact .ite (.bind (native_allocatePage _) fun _ => .pure _) (.pure _)
  refine .bind (native_modifyRegs _) fun _ => .bind ?_ fun _ => ?_
  · intro n fault n' hrun
    unfold onFailure at hrun
    split at hrun
    · cases hrun
    · next hsave =>
      cases hrun
      exact native_saveContext _ _ _ _ _ hsave
  · exact .bind (native_modifyCore _) fun _ => native_note _

/-- A handler without a page frees nothing. -/
theorem native_freeStack (page : Option UInt32) : Native (freeStack page : NodeM β Unit) := by
  cases page with
  | none => exact native_note _
  | some page =>
    refine .bind native_getCore fun c => .bind (native_onBus (Bus.native_onStore _ _)) fun _ => ?_
    exact .bind (native_freePage page) fun _ => native_note _

/-- A context is restored by pops and by changes of the registers, which are not checked. -/
theorem native_takeContext : Native (takeContext : NodeM β Unit) := by
  refine .bind (.forM _ fun i => .bind native_pop fun v => native_modifyRegs _) fun _ => ?_
  refine .bind native_pop fun _ => .bind (native_modifyRegs _) fun _ => ?_
  refine .bind native_pop fun _ => .bind (native_modifyRegs _) fun _ => ?_
  exact .bind native_pop fun _ => .bind native_pop fun _ => native_modifyRegs _

/-- A core without an active interrupt has an invalid frame. Any other leaves by a frame taken down,
a context restored and a page freed. -/
theorem native_leaveHandler (p : Platform) : Native (leaveHandler p : NodeM β Unit) := by
  intro n fault n' hrun
  cases hstacks : n.core.interruptStacks with
  | nil =>
    rw [leaveHandler_of_nil p hstacks] at hrun
    cases hrun
    rfl
  | cons page outer =>
    rw [leaveHandler_of_cons p hstacks] at hrun
    have hleave : Native (do
        popFrame p
        takeContext
        modifyCore fun c => { c with interruptStacks := outer }
        freeStack page : NodeM β Unit) := by
      refine .bind (native_popFrame p) fun _ => .bind native_takeContext fun _ => ?_
      exact .bind (native_modifyCore _) fun _ => native_freeStack page
    exact hleave n fault n' hrun

/-- A request for pages fails as memory does. That no page is free is an answer here and no fault.
-/
theorem native_serveMemory (r : MemoryRequest) : Native (serveMemory r : NodeM β Unit) := by
  cases r with
  | alloc =>
    intro n fault n' hrun
    have hpages := native_allocatePage (β := β) none n
    unfold serveMemory at hrun
    dsimp only at hrun
    generalize allocatePage none n = result at hrun hpages
    split at hrun
    · exact native_write _ _ _ _ _ hrun
    · exact native_write _ _ _ _ _ hrun
    · cases hrun
      exact hpages _ _ rfl
  | free => exact .bind (native_read _) native_freePage
  | countFree => exact .bind .get fun _ => native_write _ _

/-- A service refuses a call by an access violation of its own. -/
theorem native_serve (index : UInt32) (s : Service) : Native (serve index s : NodeM β Unit) := by
  cases s with
  | halt => exact .bind (native_read _) fun _ => .modify _
  | memory =>
    refine .bind (native_read _) fun request => ?_
    split
    · exact native_serveMemory _
    · exact .throw rfl
  | counter => exact .bind .get fun _ => .bind (.modify _) fun _ => native_write _ _
  | refuse => exact .throw rfl

/-! ## Instructions -/

/-- The base dialect never refuses an instruction of its own as foreign. -/
theorem native_executeBase (p : Platform) {i : Instruction} (hi : Dialect.base.Has i) :
    Native (executeBase p i : NodeM β Unit) := by
  cases i with
  | nop => exact .pure ()
  | hlt code => exact .bind (native_operand code) fun _ => .modify _
  | idle => exact .modify _
  | int index =>
    refine .bind (native_operand index) fun index => ?_
    unfold softwareInterrupt
    split
    · exact native_serve _ _
    · exact native_enterHandler _ _
  | retint => exact native_leaveHandler p
  | call target =>
    refine .bind (native_jumpTarget target) fun _ => ?_
    exact .bind native_pushFrame fun _ => native_modifyRegs _
  | ret => exact native_popFrame p
  | cli => exact native_modifyRegs _
  | sti => exact native_modifyRegs _
  | lpm => exact native_modifyRegs _
  | sis set => exact .bind (native_operand set) fun _ => native_selectSet p _
  | li dst v => exact native_writeResult dst _ _
  | liu dst v => exact .bind (native_read dst) fun _ => native_write dst _
  | mov dst src => exact .bind (native_read src) fun _ => native_write dst _
  | alu op dst src => exact .bind (native_operand src) fun _ => native_arithmetic op dst _
  | not dst => exact .bind (native_read dst) fun _ => native_writeResult dst _ _
  | inc dst => exact native_arithmetic .add dst 1
  | dec dst => exact native_arithmetic .sub dst 1
  | cmp lhs rhs =>
    exact .bind (native_read lhs) fun _ => .bind (native_operand rhs) fun _ => native_modifyFlags _
  | jump cond target =>
    refine .bind native_getRegs fun regs => .ite ?_ (.pure ())
    exact .bind (native_jumpTarget target) fun _ => native_modifyRegs _
  | load width dst base offset =>
    refine .bind (native_effectiveAddress base offset) fun a => ?_
    exact .bind (native_loadFrom width a) fun v => native_write dst v
  | store width src base offset =>
    refine .bind (native_effectiveAddress base offset) fun a => ?_
    exact .bind (native_read src) fun v => native_storeTo width a v
  | push src => exact .bind (native_operand src) native_push
  | pop dst => exact .bind native_pop fun v => native_write dst v
  | math op => exact hi.elim

omit [PhysicalMemory β] in
/-- The math instructions fail as the operand stack or the destination does. -/
theorem native_executeMathOp (op : MathOp) : Native (executeMathOp op : NodeM β Unit) := by
  cases op with
  | pushw src | pushuw src =>
    exact .bind (native_read src) fun _ => native_onMath (OperandStack.native_push _)
  | popw dst | popuw dst =>
    exact .bind (native_onMath OperandStack.native_pop) fun _ => native_write dst _
  | add | sub | mul =>
    exact native_onMath (OperandStack.native_combine fun _ _ _ h => nomatch h)
  | div => exact native_onMath (OperandStack.native_combine OperandStack.isForeign_of_quotient)
  | mod => exact native_onMath (OperandStack.native_combine OperandStack.isForeign_of_remainder)
  | inc | dec => exact native_onMath (OperandStack.native_adjustTop _)
  | dup => exact native_onMath (.bind OperandStack.native_peek OperandStack.native_push)
  | drop => exact native_onMath (.bind OperandStack.native_pop fun _ => .pure _)
  | swap => exact native_onMath OperandStack.native_swap

omit [PhysicalMemory β] in
/-- The math dialect never refuses an instruction of its own as foreign. -/
theorem native_executeMath (p : Platform) {i : Instruction} (hi : Dialect.math.Has i) :
    Native (executeMath p i : NodeM β Unit) := by
  cases i with
  | nop => exact .pure ()
  | sis set => exact .bind (native_operand set) fun _ => native_selectSet p _
  | math op => exact native_executeMathOp op
  | _ => exact hi.elim

/-- An instruction that belongs to the dialect which executes it is not refused as one of another
dialect. -/
theorem native_execute (p : Platform) {d : Dialect} {i : Instruction} (hi : d.Has i) :
    Native (execute p d i : NodeM β Unit) := by
  cases d with
  | base => exact native_executeBase p hi
  | math => exact native_executeMath p hi

/-- A fetch fails where memory or the decoder does. -/
theorem native_decode (set : InstructionSet) (a : Address) : Native (do
    match set.decode (← Bus.onMemory (PhysicalMemory.readWord a)) with
    | .ok i => return i
    | .error fault => throw fault : EStateM Fault (Bus β) Instruction) := by
  refine .bind (Bus.native_onMemory _) fun w => ?_
  split
  · exact .pure _
  · next h => exact .throw (Dialect.isForeign_of_decode h)

/-- Through the instruction cache, a fetch fails in no other way. -/
theorem native_fetch (set : InstructionSet) (a : Address) :
    Native (fetch set a : NodeM β Instruction) := by
  intro n fault n' hrun
  unfold fetch at hrun
  dsimp only at hrun
  split at hrun
  · cases hrun
  · next hget =>
    cases hrun
    exact InstructionCache.native_get a (native_decode set) _ _ _ hget

/-- What is left of a step is native once its instruction is known. -/
theorem native_carryOut (p : Platform) {set : InstructionSet} {i : Instruction}
    (hi : set.runs.Has i) (ip : UInt32) : Native (carryOut p set ip i : NodeM β Unit) := by
  have hgo : Native (do
      note fun id => .execute id ip set.name i
      execute p set.runs i
      modifyRegs fun regs => { regs with cnt := regs.cnt + 1 } : NodeM β Unit) :=
    .bind (native_note _) fun _ => .bind (native_execute p hi) fun _ => native_modifyRegs _
  refine .bind (native_modifyRegs _) fun _ => .bind native_getRegs fun regs => ?_
  exact .ite (.bind (.throw rfl) fun _ => hgo) hgo

end Node

end Multicore
