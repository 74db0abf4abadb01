import Multicore.Instruction

/-!
# Instruction words

An instruction is one 32-bit word. Its opcode is in bits 0 to 5 and its registers are in bits
6 to 10 and 11 to 15. Bit 16 says that the operand is the signed immediate in bits 17 to 31.
Loads and stores keep a 16-bit offset in bits 16 to 31, where the load of an upper half keeps
its immediate; the load of an immediate takes 21 bits from bit 11 on.

The first part reads the fields of a word. The second builds words, one function for each
layout: an immediate that is too wide loses its upper bits, and the code of a register is
shifted into its field as it stands.
-/

namespace Multicore

/-- An instruction word. -/
abbrev Word := UInt32

/-- The low `bits` bits of a word, read as a signed number. -/
def signExtend (bits : Nat) (w : Word) : Int32 :=
  Int32.ofBitVec ((w.toBitVec.setWidth bits).signExtend 32)

namespace Word

/-! ## Reading fields -/

/-- The opcode. -/
def opcode (w : Word) : UInt8 := (w &&& 0x3f).toUInt8

/-- The code of the first register. -/
def reg1 (w : Word) : UInt8 := (w >>> 6 &&& 0x1f).toUInt8

/-- The code of the second register. -/
def reg2 (w : Word) : UInt8 := (w >>> 11 &&& 0x1f).toUInt8

/-- Whether the operand is the immediate. -/
def hasImmediate (w : Word) : Bool := w >>> 16 &&& 1 ≠ 0

/-- The signed 15-bit immediate. -/
def imm15 (w : Word) : Int32 := signExtend 15 (w >>> 17)

/-- The signed 16-bit offset. -/
def offset16 (w : Word) : Int16 := (w >>> 16).toUInt16.toInt16

/-- The unsigned 16-bit immediate. -/
def uimm16 (w : Word) : UInt16 := (w >>> 16).toUInt16

/-- The signed 21-bit immediate. -/
def imm21 (w : Word) : Int32 := signExtend 21 (w >>> 11)

/-- The register in the first register field. -/
def register1 (w : Word) : Register := .ofOperand w.reg1

/-- The register in the second register field. -/
def register2 (w : Word) : Register := .ofOperand w.reg2

/-- The operand of a one-operand instruction: the immediate, or the first register. -/
def soleOperand (w : Word) : Operand :=
  if w.hasImmediate then .imm w.imm15 else .reg w.register1

/-- The second operand of a two-operand instruction: the immediate, or the second register. -/
def secondOperand (w : Word) : Operand :=
  if w.hasImmediate then .imm w.imm15 else .reg w.register2

/-! ## Building words -/

/-- The code that stands for a register in a word. A register that instructions cannot name
is written as `r0`. -/
def registerCode (r : Register) : UInt32 := (r.operand?.getD 0).toUInt32

/-- A word with an opcode alone. -/
def bare (opcode : UInt8) : Word := opcode.toUInt32 &&& 0x3f

/-- A word with one register. -/
def withRegister (opcode : UInt8) (r : Register) : Word := bare opcode ||| registerCode r <<< 6

/-- A word with two registers. -/
def withRegisters (opcode : UInt8) (r₁ r₂ : Register) : Word :=
  withRegister opcode r₁ ||| registerCode r₂ <<< 11

/-- A word with an immediate operand. -/
def withImmediate (opcode : UInt8) (value : Int32) : Word :=
  bare opcode ||| (1 : Word) <<< 16 ||| value.toUInt32 <<< 17

/-- A word with a register and an immediate operand. -/
def withRegisterImmediate (opcode : UInt8) (r : Register) (value : Int32) : Word :=
  withImmediate opcode value ||| registerCode r <<< 6

/-- The word of a load or a store. -/
def withOffset (opcode : UInt8) (data base : Register) (offset : Int16) : Word :=
  withRegisters opcode data base ||| offset.toUInt16.toUInt32 <<< 16

/-- A word with a register and a 21-bit immediate. -/
def withLongImmediate (opcode : UInt8) (r : Register) (value : Int32) : Word :=
  withRegister opcode r ||| value.toUInt32 <<< 11

/-- A word with a register and an unsigned 16-bit immediate. -/
def withUpperImmediate (opcode : UInt8) (r : Register) (value : UInt16) : Word :=
  withRegister opcode r ||| value.toUInt32 <<< 16

end Word

end Multicore
