import Multicore.Flags
import Multicore.Register

/-!
# Instructions

The instructions that a core executes, once decoded. `Condition.holds` is the meaning of a
branch condition on the flags.
-/

namespace Multicore

/-- The second operand of an instruction: a register or a signed immediate. -/
inductive Operand where
  | reg (register : Register)
  | imm (value : Int32)
  deriving DecidableEq, Inhabited

/-- The two-operand operations of the arithmetic unit. -/
inductive AluOp where
  | add | sub | mul | div | mod | and | or | xor | shl | shr
  deriving DecidableEq, Inhabited

/-- The conditions of a jump. -/
inductive Condition where
  | always | equal | notEqual | zero | notZero | sign | notSign | greater | less
  deriving DecidableEq, Inhabited

/-- Whether the condition holds of the flags. After a comparison, `greater` and `less` are the
signed order of the operands. -/
def Condition.holds (c : Condition) (f : Flags) : Bool :=
  match c with
  | .always => true
  | .equal => f.equal
  | .notEqual => !f.equal
  | .zero => f.zero
  | .notZero => !f.zero
  | .sign => f.sign
  | .notSign => !f.sign
  | .greater => !f.equal && !f.sign
  | .less => f.sign && !f.equal

/-- The width of a memory access. -/
inductive Width where
  | byte | half | word
  deriving DecidableEq, Inhabited

/-- The operations of the math coprocessor, which works on a stack of 64-bit integers. -/
inductive MathOp where
  /-- Push a register, sign-extended. -/
  | pushw (src : Register)
  /-- Push a register, zero-extended. -/
  | pushuw (src : Register)
  /-- Pop the low half into a register. -/
  | popw (dst : Register)
  /-- Pop the high half into a register. -/
  | popuw (dst : Register)
  | add | sub | mul | div | mod
  | inc | dec
  /-- Push the top again. -/
  | dup
  /-- Discard the top. -/
  | drop
  /-- Exchange the two topmost values. -/
  | swap
  deriving DecidableEq, Inhabited

/-- A decoded instruction. -/
inductive Instruction where
  | nop
  /-- Halt the core with an exit code. -/
  | hlt (code : Operand)
  /-- Suspend the core until the next hardware interrupt. -/
  | idle
  /-- Raise a software interrupt. -/
  | int (index : Operand)
  /-- Return from an interrupt handler. -/
  | retint
  /-- Call a subroutine. An immediate target is relative to the next instruction. -/
  | call (target : Operand)
  /-- Return from a subroutine. -/
  | ret
  /-- Disable hardware interrupts. -/
  | cli
  /-- Enable hardware interrupts. -/
  | sti
  /-- Leave privileged mode. -/
  | lpm
  /-- Select an instruction set. -/
  | sis (set : Operand)
  /-- Load a signed immediate. -/
  | li (dst : Register) (value : Int32)
  /-- Load the upper half of a register. -/
  | liu (dst : Register) (value : UInt16)
  | mov (dst src : Register)
  /-- Replace `dst` by the result of the operation on `dst` and `src`. -/
  | alu (op : AluOp) (dst : Register) (src : Operand)
  | not (dst : Register)
  | inc (dst : Register)
  | dec (dst : Register)
  /-- Compare and set the flags. -/
  | cmp (lhs : Register) (rhs : Operand)
  /-- Jump if the condition holds. An immediate target is relative to the next instruction. -/
  | jump (cond : Condition) (target : Operand)
  /-- Load from the data segment at `base + offset`. -/
  | load (width : Width) (dst base : Register) (offset : Int16)
  /-- Store to the data segment at `base + offset`. -/
  | store (width : Width) (src base : Register) (offset : Int16)
  | push (src : Operand)
  | pop (dst : Register)
  | math (op : MathOp)
  deriving DecidableEq, Inhabited

end Multicore
