import Multicore.Cache.InstructionCache
import Multicore.OperandStack
import Multicore.RegisterFile

/-!
# Cores

The state of one processor core, apart from its data cache, which belongs to the bus. A core
goes through the stages of `Lifecycle` and never leaves the last.
-/

namespace Multicore

/-- A recorded stack frame. -/
structure Frame where
  /-- The code segment of the caller. -/
  cs : UInt32
  /-- The data segment that holds the frame. -/
  ds : UInt32
  /-- The frame pointer that the frame established. -/
  fp : UInt32
  /-- The return address. -/
  ip : UInt32
  /-- The stack pointer right after the frame was made. -/
  sp : UInt32
  deriving DecidableEq, Inhabited

/-- The registers with which a core starts. -/
structure BootState where
  cs : UInt16
  ds : UInt16
  sp : UInt32
  ip : UInt32
  privileged : Bool
  deriving DecidableEq, Inhabited

/-- A processor core. -/
structure Core where
  /-- The number of the core, and of its data cache. -/
  id : Nat
  /-- The instructions that the core has fetched. -/
  fetched : InstructionCache
  regs : RegisterFile := {}
  state : Lifecycle := .reset
  /-- The number of the instruction set in use. -/
  activeSet : UInt8 := 0
  /-- The recorded frames, innermost first. -/
  frames : List Frame := []
  /-- One entry for each active interrupt, innermost first: the page of the handler's stack, if
  one was allocated. -/
  interruptStacks : List (Option UInt32) := []
  exitCode : UInt32 := 0
  /-- The fault that killed the core. -/
  lastFault : Option Fault := none
  math : OperandStack := .empty

namespace Core

/-- A core that was never booted, with an instruction cache of the given capacity. -/
def new (id capacity : Nat) : Core := { id, fetched := .empty capacity }

instance : Inhabited Core := ⟨new 0 1⟩

/-- The address of an offset into the code segment. -/
def codeAddress (c : Core) (offset : UInt32) : Address := segmentAddress c.regs.cs offset

/-- The address of an offset into the data segment. -/
def dataAddress (c : Core) (offset : UInt32) : Address := segmentAddress c.regs.ds offset

/-- Whether the core is running or suspended. -/
def isAlive (c : Core) : Bool := c.state.isAlive

/-- Whether the core is running. -/
def isRunnable (c : Core) : Bool := c.state = .running

/-- The number of active interrupts. -/
def interruptDepth (c : Core) : Nat := c.interruptStacks.length

end Core

end Multicore
