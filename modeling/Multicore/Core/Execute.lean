import Multicore.Alu
import Multicore.Core.Interrupt

/-!
# Execution

The effect of an instruction on its core, once it is decoded and the instruction pointer is
past it. Arithmetic sets the flags; moves, loads and pops do not. Memory operands lie in the
data segment and go through the data cache.
-/

namespace Multicore

namespace Node

variable {β : Type} [PhysicalMemory β]

/-! ## Software interrupts -/

/-- The requests of the memory service. -/
inductive MemoryRequest where
  /-- Allocate a page and answer its number in `r0`, or all ones if there is none. -/
  | alloc
  /-- Free the page whose number is in `r1`. -/
  | free
  /-- Answer the number of free pages in `r0`. -/
  | countFree
  deriving DecidableEq, Inhabited

/-- The request with a number. -/
def MemoryRequest.ofNumber? (n : UInt32) : Option MemoryRequest :=
  if n = 0 then some .alloc else if n = 1 then some .free else if n = 2 then some .countFree
  else none

/-- Answer a request to the memory service. -/
def serveMemory : MemoryRequest → NodeM β Unit
  | .alloc => fun n =>
    match allocatePage none n with
    | .ok page n => write (.general 0) page n
    | .error (.memory .noFreePage) n => write (.general 0) 0xffffffff n
    | .error fault n => .error fault n
  | .free => do freePage (← read (.general 1))
  | .countFree => do
    write (.general 0) (PhysicalMemory.freePageCount (← get).bus.memory).toUInt32

/-- Run the service at an interrupt. -/
def serve (index : UInt32) : Service → NodeM β Unit
  | .halt => do
    let code ← read (.general 0)
    modify fun n => n.halt code
  | .memory => do
    let request ← read (.general 0)
    match MemoryRequest.ofNumber? request with
    | some r => serveMemory r
    | none => throw (.accessViolation (.unknownMemoryService request))
  | .counter => do
    let count := (← get).tallies.getD index 0 + 1
    modify fun n => { n with tallies := n.tallies.insert index count }
    write (.general 0) count
  | .refuse => throw (.accessViolation (.other "refused"))

/-- Raise a software interrupt: run the service at its number if there is one, and else enter
the handler. -/
def softwareInterrupt (p : Platform) (index : UInt32) : NodeM β Unit :=
  match p.services[index]? with
  | some s => serve index s
  | none => enterHandler p.vectorTable index

/-! ## Parts of instructions -/

/-- Select an instruction set. Nothing that was decoded before is used again. -/
def selectSet (p : Platform) (id : UInt8) : NodeM β Unit :=
  if p.sets.contains id then
    modifyCore fun c => { c with activeSet := id, fetched := c.fetched.clear }
  else throw (.invalidInstructionSet id)

/-- Select the instruction set named by an operand. Every number above 255 counts as 255. -/
def selectSetOperand (p : Platform) (x : Operand) : NodeM β Unit := do
  let id ← operand x
  selectSet p (if id < 256 then id.toUInt8 else 255)

/-- The target of a jump: relative to the next instruction, or the value of a register. -/
def jumpTarget : Operand → NodeM β UInt32
  | .imm offset => do return (← getRegs).ip + offset.toUInt32
  | .reg r => read r

/-- Jump to an offset into the code segment. -/
def jumpTo (ip : UInt32) : NodeM β Unit := modifyRegs fun regs => { regs with ip }

/-- Change the flags. -/
def modifyFlags (f : Flags → Flags) : NodeM β Unit :=
  modifyRegs fun regs => { regs with flags := f regs.flags }

/-- Write a result and set the flags by it. -/
def writeResult (dst : Register) (v : UInt32) (overflow : Bool) : NodeM β Unit := do
  write dst v
  modifyFlags fun f => f.afterArithmetic v overflow

/-- Replace a register by the result of an operation on it. -/
def arithmetic (op : AluOp) (dst : Register) (rhs : UInt32) : NodeM β Unit := do
  match Alu.execute op (← read dst) rhs with
  | .ok (v, overflow) => writeResult dst v overflow
  | .error fault => throw fault

/-- The address of a memory operand. -/
def effectiveAddress (base : Register) (offset : Int16) : NodeM β Address := do
  let c ← getCore
  return c.dataAddress (c.regs.read base + offset.toInt32.toUInt32)

/-- Load through the data cache. Bytes and halfwords are filled up with zeros. -/
def loadFrom (width : Width) (a : Address) : NodeM β UInt32 := do
  let id := (← getCore).id
  match width with
  | .byte => return (← onBus (Bus.readByte id a)).toUInt32
  | .half => return (← onBus (Bus.readHalf id a)).toUInt32
  | .word => onBus (Bus.readWord id a)

/-- Store the low part of a value through the data cache. -/
def storeTo (width : Width) (a : Address) (v : UInt32) : NodeM β Unit := do
  let id := (← getCore).id
  match width with
  | .byte => onBus (Bus.writeByte id a v.toUInt8)
  | .half => onBus (Bus.writeHalf id a v.toUInt16)
  | .word => onBus (Bus.writeWord id a v)

/-! ## The dialects -/

/-- Execute an instruction of the base dialect. -/
def executeBase (p : Platform) : Instruction → NodeM β Unit
  | .nop => pure ()
  | .hlt code => do
    let code ← operand code
    modify fun n => n.halt code
  | .idle => modify suspend
  | .int index => do softwareInterrupt p (← operand index)
  | .retint => leaveHandler p
  | .call target => do
    let ip ← jumpTarget target
    pushFrame
    jumpTo ip
  | .ret => popFrame p
  | .cli => modifyFlags fun f => { f with interruptsEnabled := false }
  | .sti => modifyFlags fun f => { f with interruptsEnabled := true }
  | .lpm => modifyFlags fun f => { f with privileged := false }
  | .sis set => selectSetOperand p set
  | .li dst v => writeResult dst v.toUInt32 false
  | .liu dst v => do write dst (wordOfHalves (lowHalf (← read dst)) v)
  | .mov dst src => do write dst (← read src)
  | .alu op dst src => do arithmetic op dst (← operand src)
  | .not dst => do writeResult dst (~~~ (← read dst)) false
  | .inc dst => arithmetic .add dst 1
  | .dec dst => arithmetic .sub dst 1
  | .cmp lhs rhs => do
    let l ← read lhs
    let r ← operand rhs
    modifyFlags fun f => f.afterCompare l r
  | .jump cond target => do
    if cond.holds (← getRegs).flags then jumpTo (← jumpTarget target)
  | .load width dst base offset => do
    let v ← loadFrom width (← effectiveAddress base offset)
    write dst v
  | .store width src base offset => do
    let a ← effectiveAddress base offset
    storeTo width a (← read src)
  | .push src => do push (← operand src)
  | .pop dst => do write dst (← pop)
  | .math _ => throw (.accessViolation .coprocessorInstruction)

/-- Execute a coprocessor operation. -/
def executeMathOp : MathOp → NodeM β Unit
  | .pushw src => do
    let v ← read src
    onMath (OperandStack.push v.toInt32.toInt64)
  | .pushuw src => do
    let v ← read src
    onMath (OperandStack.push v.toUInt64.toInt64)
  | .popw dst => do
    let v ← onMath OperandStack.pop
    write dst v.toUInt64.toUInt32
  | .popuw dst => do
    let v ← onMath OperandStack.pop
    write dst (v.toUInt64 >>> 32).toUInt32
  | .add => onMath (OperandStack.combine fun x y => .ok (x + y))
  | .sub => onMath (OperandStack.combine fun x y => .ok (x - y))
  | .mul => onMath (OperandStack.combine fun x y => .ok (x * y))
  | .div => onMath (OperandStack.combine OperandStack.quotient)
  | .mod => onMath (OperandStack.combine OperandStack.remainder)
  | .inc => onMath (OperandStack.adjustTop 1)
  | .dec => onMath (OperandStack.adjustTop (-1))
  | .dup => onMath do OperandStack.push (← OperandStack.peek)
  | .drop => onMath do let _ ← OperandStack.pop
  | .swap => onMath OperandStack.swap

/-- Execute an instruction of the math dialect. -/
def executeMath (p : Platform) : Instruction → NodeM β Unit
  | .nop => pure ()
  | .sis set => selectSetOperand p set
  | .math op => executeMathOp op
  | i => throw (.accessViolation (.foreignInstruction i))

/-- Execute an instruction in a dialect. -/
def execute (p : Platform) : Dialect → Instruction → NodeM β Unit
  | .base => executeBase p
  | .math => executeMath p

/-! ## Steps -/

/-- Fetch the instruction at an address, through the instruction cache. A miss reads memory and
not the data cache. -/
def fetch (set : InstructionSet) (a : Address) : NodeM β Instruction := fun n =>
  let fill (a : Address) : EStateM Fault (Bus β) Instruction := do
    match set.decode (← Bus.onMemory (PhysicalMemory.readWord a)) with
    | .ok i => return i
    | .error fault => throw fault
  match InstructionCache.get a fill (n.core.fetched, n.bus) with
  | .ok i (fetched, bus) => .ok i { n with bus, core := { n.core with fetched } }
  | .error fault (fetched, bus) => .error fault { n with bus, core := { n.core with fetched } }

/-- Fetch, check and execute the next instruction. -/
def executeNext (p : Platform) : NodeM β Unit := do
  let c ← getCore
  let some set := p.sets[c.activeSet]? | throw (.invalidInstructionSet c.activeSet)
  let ip := c.regs.ip
  let i ← fetch set (c.codeAddress ip)
  jumpTo (ip + 4)
  if set.isPrivileged i ∧ ¬ (← getRegs).flags.privileged then
    throw (.accessViolation (.privilegedInstruction i))
  note fun id => .execute id ip set.name i
  execute p set.runs i
  modifyRegs fun regs => { regs with cnt := regs.cnt + 1 }

/-- Execute one instruction if the core is running. The answer says whether it is. A core whose
instruction ends in a fault dies. -/
def step (p : Platform) (n : Node β) : Bool × Node β :=
  if n.core.isRunnable then
    match executeNext p n with
    | .ok _ n => (true, n)
    | .error fault n => (true, n.die fault)
  else (false, n)

end Node

end Multicore
