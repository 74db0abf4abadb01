import Multicore.Core.Node

/-!
# Stack, frames and pages

The stack of a core lies in its data segment and grows downwards by words. A call records a
frame: it pushes the return address and the frame pointer and makes the stack pointer the new
frame pointer. Taking a frame down is the inverse, and with frame checks on it is refused
unless the stack pointer is back where the frame left it.

Pages that are allocated or freed are dropped from every data cache, so no cache serves what
the page held in an earlier life.
-/

namespace Multicore

open Text

/-- One line of a backtrace. -/
structure Location where
  cs : UInt32
  ip : UInt32
  /-- The symbol that the location belongs to, and the distance from its start. -/
  symbol : Option (String × UInt32)
  deriving DecidableEq, Inhabited

/-- The text of a line of a backtrace. -/
def Location.text (e : Location) : String :=
  let location := paddedHex 4 e.cs.toNat ++ ":" ++ paddedHex 8 e.ip.toNat
  match e.symbol with
  | some (name, offset) => location ++ " <" ++ name ++ "+" ++ hex offset.toNat ++ ">"
  | none => location

/-- The callers, outermost first, and then the current location. -/
def Core.backtrace (c : Core) (symbols : SymbolTable) : List Location :=
  let callers := c.frames.reverse.map fun f => (f.cs, f.ip)
  (callers ++ [(c.regs.cs, c.regs.ip)]).map fun (cs, ip) => ⟨cs, ip, symbols.resolve cs ip⟩

namespace Node

variable {β : Type} [PhysicalMemory β]

/-- Push a word. The stack pointer moves once the word is stored. -/
def push (v : UInt32) : NodeM β Unit := do
  let c ← getCore
  let sp := c.regs.sp - 4
  onBus (Bus.writeWord c.id (c.dataAddress sp) v)
  modifyRegs fun regs => { regs with sp }

/-- Pop a word. -/
def pop : NodeM β UInt32 := do
  let c ← getCore
  let v ← onBus (Bus.readWord c.id (c.dataAddress c.regs.sp))
  modifyRegs fun regs => { regs with sp := regs.sp + 4 }
  return v

/-- Set up a frame: push the instruction pointer and the frame pointer. -/
def pushFrame : NodeM β Unit := do
  let ip := (← getRegs).ip
  push ip
  push (← getRegs).fp
  modifyCore fun c =>
    let regs := { c.regs with fp := c.regs.sp }
    let frame := { cs := regs.cs, ds := regs.ds, fp := regs.fp, ip, sp := regs.sp }
    { c with regs, frames := frame :: c.frames }

/-- Refuse to go on unless the stack pointer is where the innermost frame left it. Without a
frame it never is. -/
def checkFrame : NodeM β Unit := do
  let c ← getCore
  match c.frames with
  | [] => throw (.invalidFrame 0 c.regs.sp)
  | frame :: _ =>
    unless frame.sp = c.regs.sp do throw (.invalidFrame frame.sp c.regs.sp)

/-- Take the innermost frame down: pop the frame pointer and the instruction pointer. -/
def popFrame (p : Platform) : NodeM β Unit := do
  if p.checkFrames then checkFrame
  let fp ← pop
  modifyRegs fun regs => { regs with fp }
  let ip ← pop
  modifyRegs fun regs => { regs with ip }
  modifyCore fun c => { c with frames := c.frames.tail }

/-- Allocate a page of zeros, in the given segment if there is one. -/
def allocatePage (segment : Option UInt32) : NodeM β UInt32 := do
  let page ← onMemory (PhysicalMemory.allocatePage segment)
  modify fun n => { n with bus := n.bus.discard (.page page) false }
  return page

/-- Free an allocated page. -/
def freePage (page : UInt32) : NodeM β Unit := do
  let info ← onMemory (PhysicalMemory.describePage page)
  unless info.allocated do throw (.memory (.pageNotAllocated page))
  modify fun n => { n with bus := n.bus.discard (.page page) false }
  onMemory (PhysicalMemory.freePage page)

end Node

end Multicore
