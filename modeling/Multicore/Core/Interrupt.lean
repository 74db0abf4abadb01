import Multicore.Core.Stack

/-!
# Interrupts

Entering an interrupt looks up a vector, switches to the stack of the handler and saves the
context there: the data segment, the stack pointer, the code segment, the flags, the general
registers in ascending order, and a frame. Leaving it restores all of this in reverse order.

A vector without a stack pointer gets a fresh page in its data segment, with the stack at the
top of the page. The page is freed when the handler is left.
-/

namespace Multicore.Node

variable {β : Type} [PhysicalMemory β]

/-- Save the context on the stack of the handler. -/
def saveContext (ds sp : UInt32) : NodeM β Unit := do
  push ds
  push sp
  push (← getRegs).cs
  push (← getRegs).flags.pack
  (← getRegs).general.toList.forM push
  pushFrame

/-- The stack of a handler: the stack pointer, and the page if one was allocated. -/
def handlerStack (v : InterruptVector) : NodeM β (UInt32 × Option UInt32) := do
  if v.sp = 0 then
    let ds := v.ds.toUInt32
    let page ← allocatePage (some ds)
    return (pageBase page + pageSize - segmentAddress ds 0, some page)
  else return (v.sp, none)

/-- Enter the handler of an interrupt through the vector table at an address. If the context
cannot be saved, the stack of the interrupted code is back in use and the page of the handler
is freed. -/
def enterHandler (table : Address) (index : UInt32) : NodeM β Unit := do
  let v ← onMemory (PhysicalMemory.loadVector table index)
  -- a stack of its own is allocated before anything is saved on it
  let (sp, page) ← handlerStack v
  let old ← getRegs
  modifyRegs fun regs => { regs with ds := v.ds.toUInt32, sp }
  onFailure (saveContext old.ds old.sp) fun n =>
    let n := n.mapRegs fun regs => { regs with ds := old.ds, sp := old.sp }
    match page with
    | some page => finalState (freePage page) n
    | none => n
  modifyCore fun c => { c with
    interruptStacks := page :: c.interruptStacks
    regs := { c.regs with
      flags := { c.regs.flags with privileged := true }
      cs := v.cs.toUInt32
      ip := v.ip } }
  note fun id => .interrupt id index v

/-- Pop the general registers, the last one first. -/
def popGeneral : NodeM β Unit :=
  (List.finRange 30).reverse.forM fun i => do
    let v ← pop
    modifyRegs fun regs => regs.setGeneral i v

/-- Leave the handler of the innermost interrupt. -/
def leaveHandler (p : Platform) : NodeM β Unit := do
  match (← getCore).interruptStacks with
  | [] => throw (.invalidFrame 0 (← getRegs).sp)
  | page :: outer =>
    popFrame p
    popGeneral
    let flags ← pop
    modifyRegs fun regs => { regs with flags := .unpack flags }
    let cs ← pop
    modifyRegs fun regs => { regs with cs }
    let sp ← pop
    let ds ← pop
    modifyRegs fun regs => { regs with sp, ds }
    modifyCore fun c => { c with interruptStacks := outer }
    -- the page holds the stack only, so its lines need not be written back
    if let some page := page then
      let _ ← onBus (Bus.release (← getCore).id (.page page) false true)
      freePage page
    note .interruptExit

/-- Deliver a hardware interrupt. The answer says whether the core takes it, which an alive
core does while hardware interrupts are on. A suspended core is woken, and a core that cannot
enter the handler dies. -/
def interrupt (p : Platform) (index : UInt32) (n : Node β) : Bool × Node β :=
  if n.core.isAlive ∧ n.core.regs.flags.interruptsEnabled then
    match enterHandler p.vectorTable index n.wake with
    | .ok _ n => (true, n)
    | .error fault n => (true, n.die fault)
  else (false, n)

end Multicore.Node
