import Multicore.Address
import Multicore.Instruction.Text

/-!
# Faults and errors

The ways in which the machine refuses a request. A `MemoryError` comes from a memory, a
`Fault` kills the core that raises it, and a `ControlError` answers a misuse of the control
operations of a machine. Each has one function `message` that holds its wording.
-/

namespace Multicore

open Text

/-- The errors of a memory. -/
inductive MemoryError where
  /-- The access touches bytes past the end of memory. -/
  | outOfBounds (address : Address) (size : UInt32)
  /-- The access is not aligned to its width. -/
  | unaligned (address : Address) (size : UInt32)
  /-- No page is free where one was asked for. -/
  | noFreePage
  /-- The page exists and is not allocated. -/
  | pageNotAllocated (page : UInt32)
  /-- The page lies outside memory. -/
  | invalidPage (page : UInt32)
  deriving DecidableEq, Inhabited

/-- The wording of a memory error. -/
def MemoryError.message : MemoryError → String
  | .outOfBounds a size =>
    "access at " ++ paddedHex 8 a.toNat ++ " (" ++ toString size.toNat ++
      " bytes) is out of bounds"
  | .unaligned a size =>
    "unaligned " ++ toString size.toNat ++ "-byte access at " ++ paddedHex 8 a.toNat
  | .noFreePage => "no free page available"
  | .pageNotAllocated page => "page " ++ toString page.toNat ++ " is not allocated"
  | .invalidPage page => "page " ++ toString page.toNat ++ " does not exist"

/-- What an access violation violates. -/
inductive Violation where
  /-- A protected register was written in unprivileged mode. -/
  | protectedRegister (register : Register)
  /-- A privileged instruction was reached in unprivileged mode. -/
  | privilegedInstruction (instruction : Instruction)
  /-- The base dialect was given a coprocessor instruction. -/
  | coprocessorInstruction
  /-- The math dialect was given an instruction of another dialect. -/
  | foreignInstruction (instruction : Instruction)
  /-- The memory service does not know the request. -/
  | unknownMemoryService (request : UInt32)
  /-- Any other reason. -/
  | other (reason : String)
  deriving DecidableEq, Inhabited

/-- The wording of a violation. -/
def Violation.message : Violation → String
  | .protectedRegister r => "write to protected register " ++ r.name ++ " in unprivileged mode"
  | .privilegedInstruction i => "privileged instruction `" ++ i.text ++ "` in unprivileged mode"
  | .coprocessorInstruction => "coprocessor instruction outside the math set"
  | .foreignInstruction i => i.text ++ " is not a math instruction"
  | .unknownMemoryService n => "unknown memory service " ++ toString n.toNat
  | .other reason => reason

/-- The faults of a core. -/
inductive Fault where
  /-- The word encodes no instruction of the active set. -/
  | invalidOpcode (opcode : UInt8) (word : UInt32)
  /-- The instruction set is not installed. -/
  | invalidInstructionSet (set : UInt8)
  | accessViolation (violation : Violation)
  | divideByZero
  /-- The data access is not aligned to its width. -/
  | unalignedAccess (address : Address)
  /-- The stack pointer is not where the frame left it. -/
  | invalidFrame (expected found : UInt32)
  /-- The coprocessor stack is full. -/
  | stackOverflow
  /-- The coprocessor stack holds too few values. -/
  | stackUnderflow
  /-- The memory refused an access. -/
  | memory (error : MemoryError)
  deriving DecidableEq, Inhabited

namespace Fault

/-- The wording of a fault. -/
def message : Fault → String
  | .invalidOpcode opcode word =>
    "invalid opcode " ++ paddedHex 2 opcode.toNat ++ " in instruction " ++ paddedHex 8 word.toNat
  | .invalidInstructionSet set => "invalid instruction set " ++ toString set.toNat
  | .accessViolation v => "access violation: " ++ v.message
  | .divideByZero => "division by zero"
  | .unalignedAccess a => "unaligned access at " ++ paddedHex 8 a.toNat
  | .invalidFrame expected found =>
    "invalid frame: expected SP " ++ paddedHex 8 expected.toNat ++ ", found " ++
      paddedHex 8 found.toNat
  | .stackOverflow => "coprocessor stack overflow"
  | .stackUnderflow => "coprocessor stack underflow"
  | .memory e => e.message

/-- The fault that a memory error raises. An access that memory finds unaligned is an
unaligned access of the core. -/
def ofMemory : MemoryError → Fault
  | .unaligned a _ => .unalignedAccess a
  | e => .memory e

/-- Whether the fault is found while decoding, before anything is executed. -/
def isDecodeFault : Fault → Bool
  | .invalidOpcode .. | .invalidInstructionSet _ => true
  | _ => false

end Fault

/-- The stages in the life of a core. -/
inductive Lifecycle where
  /-- Built and never booted. -/
  | reset
  /-- Alive and executing. -/
  | running
  /-- Alive and waiting to be woken. -/
  | suspended
  /-- Dead for good. -/
  | halted
  deriving DecidableEq, Inhabited

namespace Lifecycle

/-- The name of a stage. -/
def name : Lifecycle → String
  | .reset => "reset"
  | .running => "running"
  | .suspended => "suspended"
  | .halted => "halted"

/-- Whether a core in this stage is alive: running or suspended. -/
def isAlive : Lifecycle → Bool
  | .running | .suspended => true
  | .reset | .halted => false

end Lifecycle

/-- The control operations that need a core in a certain stage. -/
inductive ControlAction where
  | boot | restore
  deriving DecidableEq, Inhabited

/-- The name of a control operation. -/
def ControlAction.name : ControlAction → String
  | .boot => "boot"
  | .restore => "restore"

/-- The errors of the control operations of a machine. -/
inductive ControlError where
  /-- The core is in a stage that does not allow the operation. -/
  | invalidState (core : Nat) (action : ControlAction) (state : Lifecycle)
  /-- More initial states were given than the machine has cores. -/
  | tooManyBootStates (given cores : Nat)
  /-- The machine has no such core. -/
  | noSuchCore (core : Nat)
  deriving DecidableEq, Inhabited

/-- The wording of a control error. -/
def ControlError.message : ControlError → String
  | .invalidState core action state =>
    "core " ++ toString core ++ " cannot " ++ action.name ++ " in state " ++ state.name
  | .tooManyBootStates given cores =>
    toString given ++ " init states supplied for " ++ toString cores ++ " cores"
  | .noSuchCore core => "no such core: " ++ toString core

end Multicore
