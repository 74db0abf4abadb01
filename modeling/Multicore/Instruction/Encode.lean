import Multicore.Instruction.Opcode
import Multicore.Instruction.Word

/-!
# Encoding

`Instruction.encode?` is the word of an instruction: a coprocessor instruction is written in
the math dialect and every other one in the base dialect. It refuses a register that has no
operand code and an immediate that its field cannot hold.
-/

namespace Multicore

/-- Whether an immediate fits the 15-bit field. -/
def Word.fitsImm15 (v : Int32) : Bool := -0x4000 ≤ v.toInt ∧ v.toInt < 0x4000

/-- Whether an immediate fits the 21-bit field. -/
def Word.fitsImm21 (v : Int32) : Bool := -0x100000 ≤ v.toInt ∧ v.toInt < 0x100000

/-- Whether instructions can name the register. -/
def Register.isAddressable (r : Register) : Bool := r.operand?.isSome

namespace Instruction

/-- The word of a one-operand instruction. -/
def encodeSole (op : BaseOpcode) : Operand → Option Word
  | .reg r => if r.isAddressable then some (.withRegister op.code r) else none
  | .imm v => if Word.fitsImm15 v then some (.withImmediate op.code v) else none

/-- The word of a two-operand instruction. -/
def encodeTwo (op : BaseOpcode) (dst : Register) : Operand → Option Word
  | .reg r =>
    if dst.isAddressable ∧ r.isAddressable then some (.withRegisters op.code dst r) else none
  | .imm v =>
    if dst.isAddressable ∧ Word.fitsImm15 v then some (.withRegisterImmediate op.code dst v)
    else none

/-- The word of an instruction whose only operand is a register. -/
def encodeRegister (code : UInt8) (r : Register) : Option Word :=
  if r.isAddressable then some (.withRegister code r) else none

/-- The word of a load or a store. -/
def encodeAccess (op : BaseOpcode) (data base : Register) (offset : Int16) :
    Option Word :=
  if data.isAddressable ∧ base.isAddressable then some (.withOffset op.code data base offset)
  else none

/-- The word of a coprocessor operation. -/
def encodeMath : MathOp → Option Word
  | .pushw r => encodeRegister MathOpcode.pushw.code r
  | .pushuw r => encodeRegister MathOpcode.pushuw.code r
  | .popw r => encodeRegister MathOpcode.popw.code r
  | .popuw r => encodeRegister MathOpcode.popuw.code r
  | .add => some (.bare MathOpcode.add.code)
  | .sub => some (.bare MathOpcode.sub.code)
  | .mul => some (.bare MathOpcode.mul.code)
  | .div => some (.bare MathOpcode.div.code)
  | .mod => some (.bare MathOpcode.mod.code)
  | .inc => some (.bare MathOpcode.inc.code)
  | .dec => some (.bare MathOpcode.dec.code)
  | .dup => some (.bare MathOpcode.dup.code)
  | .drop => some (.bare MathOpcode.drop.code)
  | .swap => some (.bare MathOpcode.swap.code)

/-- The word of an instruction, if it has one. -/
def encode? : Instruction → Option Word
  | .nop => some (.bare BaseOpcode.nop.code)
  | .hlt code => encodeSole .hlt code
  | .idle => some (.bare BaseOpcode.idle.code)
  | .int index => encodeSole .int index
  | .retint => some (.bare BaseOpcode.retint.code)
  | .call target => encodeSole .call target
  | .ret => some (.bare BaseOpcode.ret.code)
  | .cli => some (.bare BaseOpcode.cli.code)
  | .sti => some (.bare BaseOpcode.sti.code)
  | .lpm => some (.bare BaseOpcode.lpm.code)
  | .sis set => encodeSole .sis set
  | .li dst v =>
    if dst.isAddressable ∧ Word.fitsImm21 v then
      some (.withLongImmediate BaseOpcode.li.code dst v)
    else none
  | .liu dst v =>
    if dst.isAddressable then some (.withUpperImmediate BaseOpcode.liu.code dst v) else none
  | .mov dst src => encodeTwo .mov dst (.reg src)
  | .alu op dst src => encodeTwo (.alu op) dst src
  | .not dst => encodeRegister BaseOpcode.not.code dst
  | .inc dst => encodeRegister BaseOpcode.inc.code dst
  | .dec dst => encodeRegister BaseOpcode.dec.code dst
  | .cmp lhs rhs => encodeTwo .cmp lhs rhs
  | .jump cond target => encodeSole (.jump cond) target
  | .load width dst base offset => encodeAccess (.load width) dst base offset
  | .store width src base offset => encodeAccess (.store width) src base offset
  | .push src => encodeSole .push src
  | .pop dst => encodeRegister BaseOpcode.pop.code dst
  | .math op => encodeMath op

end Instruction

end Multicore
