import Multicore.Fault
import Multicore.Instruction.Opcode
import Multicore.Instruction.Word

/-!
# Decoding

`Dialect.decode` reads the instruction that a word encodes in one of the two dialects. Fields
that an instruction does not use are ignored, so many words decode to one instruction.
-/

namespace Multicore

/-- A language of instruction words. -/
inductive Dialect where
  /-- Control flow, integer arithmetic, loads and stores. -/
  | base
  /-- The math coprocessor. -/
  | math
  deriving DecidableEq, Inhabited

/-- The instruction of a base operation with the operands found in the word. -/
def BaseOpcode.instruction (op : BaseOpcode) (w : Word) : Instruction :=
  match op with
  | .nop => .nop
  | .hlt => .hlt w.soleOperand
  | .idle => .idle
  | .int => .int w.soleOperand
  | .retint => .retint
  | .call => .call w.soleOperand
  | .ret => .ret
  | .cli => .cli
  | .sti => .sti
  | .lpm => .lpm
  | .sis => .sis w.soleOperand
  | .li => .li w.register1 w.imm21
  | .liu => .liu w.register1 w.uimm16
  | .mov => .mov w.register1 w.register2
  | .alu op => .alu op w.register1 w.secondOperand
  | .not => .not w.register1
  | .inc => .inc w.register1
  | .dec => .dec w.register1
  | .cmp => .cmp w.register1 w.secondOperand
  | .jump cond => .jump cond w.soleOperand
  | .load width => .load width w.register1 w.register2 w.offset16
  | .store width => .store width w.register1 w.register2 w.offset16
  | .push => .push w.soleOperand
  | .pop => .pop w.register1

/-- The instruction of a math operation with the operands found in the word. -/
def MathOpcode.instruction (op : MathOpcode) (w : Word) : Instruction :=
  match op with
  | .nop => .nop
  | .sis => .sis w.soleOperand
  | .pushw => .math (.pushw w.register1)
  | .pushuw => .math (.pushuw w.register1)
  | .popw => .math (.popw w.register1)
  | .popuw => .math (.popuw w.register1)
  | .add => .math .add
  | .sub => .math .sub
  | .mul => .math .mul
  | .div => .math .div
  | .mod => .math .mod
  | .inc => .math .inc
  | .dec => .math .dec
  | .dup => .math .dup
  | .drop => .math .drop
  | .swap => .math .swap

/-- The instruction that a word encodes in the dialect. -/
def Dialect.decode (d : Dialect) (w : Word) : Except Fault Instruction :=
  let found := match d with
    | .base => (BaseOpcode.ofCode? w.opcode).map fun op => op.instruction w
    | .math => (MathOpcode.ofCode? w.opcode).map fun op => op.instruction w
  match found with
  | some i => .ok i
  | none => .error (.invalidOpcode w.opcode w)

/-- Whether an instruction of the dialect may run in privileged mode only. No instruction of
the math dialect is privileged. -/
def Dialect.isPrivileged : Dialect → Instruction → Bool
  | .base, .hlt _ | .base, .idle | .base, .retint | .base, .cli | .base, .sti | .base, .lpm => true
  | _, _ => false

end Multicore
