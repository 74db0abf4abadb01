import Multicore.Cache.Bus
import Multicore.Event
import Multicore.InstructionSet
import Multicore.Service
import Multicore.Symbols

/-!
# Nodes

A node is one core together with all that it shares with the other cores. What a core does is
a computation `NodeM` on its node: it may end in a fault, and what it has done by then stays
done.

The module also has the lifecycle of a core: `boot`, `suspend`, `wake`, `halt` and `die`.
-/

namespace Multicore

open Std

/-- What is fixed when a machine is built. -/
structure Platform where
  sets : InstructionSets := .standard
  services : ServiceTable := .standard
  symbols : SymbolTable := {}
  /-- Check the stack pointer when a frame is taken down. -/
  checkFrames : Bool := true
  /-- The address of the interrupt vector table. -/
  vectorTable : Address := 0

/-- What the cores of a machine share. -/
structure Shared (β : Type) where
  bus : Bus β
  journal : Journal := {}
  /-- The counts kept by the counter services. -/
  tallies : TreeMap UInt32 UInt32 := ∅

/-- A core and what it shares with the others. -/
structure Node (β : Type) extends Shared β where
  core : Core

/-- What a core does. -/
abbrev NodeM (β : Type) := EStateM Fault (Node β)

namespace Node

variable {β : Type}

/-- The node after a change of its core. -/
def mapCore (n : Node β) (f : Core → Core) : Node β := { n with core := f n.core }

/-- The node after a change of its core's registers. -/
def mapRegs (n : Node β) (f : RegisterFile → RegisterFile) : Node β :=
  n.mapCore fun c => { c with regs := f c.regs }

/-- The node after one more event. -/
def record (n : Node β) (e : Event) : Node β := { n with journal := n.journal.record e }

/-! ## Steps of a computation -/

/-- The core. -/
def getCore : NodeM β Core := do return (← get).core

/-- The registers. -/
def getRegs : NodeM β RegisterFile := do return (← get).core.regs

/-- Change the core. -/
def modifyCore (f : Core → Core) : NodeM β Unit := modify fun n => n.mapCore f

/-- Change the registers. -/
def modifyRegs (f : RegisterFile → RegisterFile) : NodeM β Unit := modify fun n => n.mapRegs f

/-- The value of a register. -/
def read (r : Register) : NodeM β UInt32 := do return (← getRegs).read r

/-- The value of an operand. -/
def operand (x : Operand) : NodeM β UInt32 := do return (← getRegs).operand x

/-- Write a register that the mode allows to write. -/
def write (r : Register) (v : UInt32) : NodeM β Unit := do
  match (← getRegs).write r v with
  | .ok regs => modifyRegs fun _ => regs
  | .error fault => throw fault

/-- Do something on the bus. -/
def onBus {α : Type} (x : EStateM Fault (Bus β) α) : NodeM β α := fun n =>
  match x n.bus with
  | .ok a bus => .ok a { n with bus }
  | .error fault bus => .error fault { n with bus }

/-- Do something with the memory, past the data caches. -/
def onMemory {α : Type} (x : EStateM MemoryError β α) : NodeM β α := onBus (Bus.onMemory x)

/-- Do something with the operand stack of the coprocessor. -/
def onMath {α : Type} (x : OperandStack.Run α) : NodeM β α := fun n =>
  match x n.core.math with
  | .ok a math => .ok a (n.mapCore fun c => { c with math })
  | .error fault math => .error fault (n.mapCore fun c => { c with math })

/-- Record an event of the core. -/
def note (e : Nat → Event) : NodeM β Unit := modify fun n => n.record (e n.core.id)

/-- Do something and take measures if it fails. -/
def onFailure {α : Type} (x : NodeM β α) (measures : Node β → Node β) : NodeM β α := fun n =>
  match x n with
  | .ok a n => .ok a n
  | .error fault n => .error fault (measures n)

/-! ## The life of a core -/

/-- Bring the core into another stage. -/
def setState (n : Node β) (state : Lifecycle) : Node β :=
  if n.core.state = state then n
  else (n.mapCore fun c => { c with state }).record (.stateChange n.core.id n.core.state state)

/-- Suspend a running core. -/
def suspend (n : Node β) : Node β :=
  if n.core.state = .running then n.setState .suspended else n

/-- Wake a suspended core. -/
def wake (n : Node β) : Node β :=
  if n.core.state = .suspended then n.setState .running else n

/-- The core as it starts. -/
def bootedCore (c : Core) (init : BootState) : Core :=
  let regs := RegisterFile.starting init.ip
  { c with
    regs := { regs with
      cs := init.cs.toUInt32
      ds := init.ds.toUInt32
      sp := init.sp
      fp := init.sp
      flags := { regs.flags with privileged := init.privileged } }
    fetched := c.fetched.clear
    math := .empty
    frames := []
    interruptStacks := []
    activeSet := InstructionSet.base.id
    exitCode := 0
    lastFault := none }

/-- Start a core that was never started. Its data cache takes part from now on. -/
def boot (init : BootState) : EStateM ControlError (Node β) Unit := fun n =>
  if n.core.state = .reset then
    let n := n.mapCore fun c => bootedCore c init
    let n := { n with bus := n.bus.register n.core.id n.core.id }
    .ok () ((n.record (.boot n.core.id init)).setState .running)
  else .error (.invalidState n.core.id .boot n.core.state) n

variable [PhysicalMemory β]

/-- Halt a core. Its data cache is written back, as far as memory takes it, and takes no more
part. A halted core stays as it is. -/
def halt (n : Node β) (exitCode : UInt32) : Node β :=
  if n.core.state = .halted then n
  else
    let n := n.mapCore fun c => { c with exitCode }
    let bus := finalState (Bus.flush n.core.id) n.bus
    let n := { n with bus := bus.unregister n.core.id }
    (n.setState .halted).record (.halt n.core.id exitCode)

/-- Halt a core because of a fault. -/
def die (n : Node β) (fault : Fault) : Node β :=
  if n.core.state = .halted then n
  else
    let n := n.record (.fault n.core.id n.core.regs.ip fault)
    (n.mapCore fun c => { c with lastFault := some fault }).halt 1

end Node

end Multicore
