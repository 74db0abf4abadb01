import Multicore.Instruction
import Multicore.Text.Hex

/-!
# Assembly text

`Instruction.text` writes an instruction as a mnemonic and its operands, separated by commas.
Immediates are signed hexadecimal numbers and a memory operand stands in brackets.
-/

namespace Multicore

open Text

/-- The text of an operand: the name of a register or a signed hexadecimal number. -/
def Operand.text : Operand → String
  | .reg r => r.name
  | .imm v => signedHex v.toInt

/-- The mnemonic of an arithmetic operation. -/
def AluOp.mnemonic : AluOp → String
  | .add => "add"
  | .sub => "sub"
  | .mul => "mul"
  | .div => "div"
  | .mod => "mod"
  | .and => "and"
  | .or => "or"
  | .xor => "xor"
  | .shl => "shl"
  | .shr => "shr"

/-- The mnemonic of a jump under the condition. -/
def Condition.mnemonic : Condition → String
  | .always => "j"
  | .equal => "be"
  | .notEqual => "bne"
  | .zero => "bz"
  | .notZero => "bnz"
  | .sign => "bs"
  | .notSign => "bns"
  | .greater => "bg"
  | .less => "bl"

/-- The letter that ends the mnemonic of a load or a store. -/
def Width.suffix : Width → String
  | .byte => "b"
  | .half => "s"
  | .word => "w"

/-- The mnemonic of a coprocessor operation. -/
def MathOp.mnemonic : MathOp → String
  | .pushw _ => "pushw"
  | .pushuw _ => "pushuw"
  | .popw _ => "popw"
  | .popuw _ => "popuw"
  | .add => "addl"
  | .sub => "subl"
  | .mul => "mull"
  | .div => "divl"
  | .mod => "modl"
  | .inc => "incl"
  | .dec => "decl"
  | .dup => "dupl"
  | .drop => "drop"
  | .swap => "swpl"

/-- The register named by a coprocessor operation, if it names one. -/
def MathOp.register? : MathOp → Option Register
  | .pushw r | .pushuw r | .popw r | .popuw r => some r
  | _ => none

/-- The text of the memory operand at `base + offset`. A zero offset is left out. -/
def memoryOperandText (base : Register) (offset : Int16) : String :=
  let o := offset.toInt
  if o = 0 then "[" ++ base.name ++ "]"
  else if o < 0 then "[" ++ base.name ++ " - " ++ hex o.natAbs ++ "]"
  else "[" ++ base.name ++ " + " ++ hex o.natAbs ++ "]"

namespace Instruction

/-- The mnemonic of an instruction. -/
def mnemonic : Instruction → String
  | .nop => "nop"
  | .hlt _ => "hlt"
  | .idle => "idle"
  | .int _ => "int"
  | .retint => "retint"
  | .call _ => "call"
  | .ret => "ret"
  | .cli => "cli"
  | .sti => "sti"
  | .lpm => "lpm"
  | .sis _ => "sis"
  | .li .. => "li"
  | .liu .. => "liu"
  | .mov .. => "mov"
  | .alu op _ _ => op.mnemonic
  | .not _ => "not"
  | .inc _ => "inc"
  | .dec _ => "dec"
  | .cmp .. => "cmp"
  | .jump cond _ => cond.mnemonic
  | .load width .. => "l" ++ width.suffix
  | .store width .. => "st" ++ width.suffix
  | .push _ => "push"
  | .pop _ => "pop"
  | .math op => op.mnemonic

/-- The texts of the operands, in the order in which they are written. -/
def operandTexts : Instruction → List String
  | .nop | .idle | .retint | .ret | .cli | .sti | .lpm => []
  | .hlt x | .int x | .call x | .sis x | .jump _ x | .push x => [x.text]
  | .li dst v => [dst.name, signedHex v.toInt]
  | .liu dst v => [dst.name, hex v.toNat]
  | .mov dst src => [dst.name, src.name]
  | .alu _ dst src => [dst.name, src.text]
  | .not dst | .inc dst | .dec dst | .pop dst => [dst.name]
  | .cmp lhs rhs => [lhs.name, rhs.text]
  | .load _ dst base offset => [dst.name, memoryOperandText base offset]
  | .store _ src base offset => [memoryOperandText base offset, src.name]
  | .math op => (op.register?.map Register.name).toList

/-- The assembly text of an instruction. -/
def text (i : Instruction) : String :=
  match i.operandTexts with
  | [] => i.mnemonic
  | operands => i.mnemonic ++ " " ++ ", ".intercalate operands

end Instruction

end Multicore
