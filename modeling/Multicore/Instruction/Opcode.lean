import Multicore.Instruction

/-!
# Opcodes

The opcode field of an instruction word is a number below 64. `BaseOpcode.all` and
`MathOpcode.all` list the operations of the two instruction dialects in the order of their
codes: `ofCode?` looks a code up in the list, and `code` is the place of an operation in it.
-/

namespace Multicore

/-- The operations of the base dialect. -/
inductive BaseOpcode where
  | nop | hlt | idle | int | retint | call | ret | cli | sti | lpm | sis | li | liu | mov
  | alu (op : AluOp)
  | not | inc | dec | cmp
  | jump (cond : Condition)
  | load (width : Width)
  | store (width : Width)
  | push | pop
  deriving DecidableEq, Inhabited

namespace BaseOpcode

/-- The operations of the base dialect, in the order of their codes. -/
def all : List BaseOpcode :=
  [.nop, .hlt, .idle, .int, .retint, .call, .ret, .cli, .sti, .lpm, .sis, .li, .liu, .mov,
    .alu .add, .alu .sub, .alu .mul, .alu .div, .alu .mod, .alu .and, .alu .or, .alu .xor,
    .alu .shl, .alu .shr, .not, .inc, .dec, .cmp,
    .jump .always, .jump .equal, .jump .notEqual, .jump .zero, .jump .notZero, .jump .sign,
    .jump .notSign, .jump .greater, .jump .less,
    .load .word, .load .half, .load .byte, .store .word, .store .half, .store .byte,
    .push, .pop]

/-- The operation with the given code. -/
def ofCode? (code : UInt8) : Option BaseOpcode := all[code.toNat]?

/-- The code of an operation. -/
def code : BaseOpcode → UInt8
  | .nop => 0
  | .hlt => 1
  | .idle => 2
  | .int => 3
  | .retint => 4
  | .call => 5
  | .ret => 6
  | .cli => 7
  | .sti => 8
  | .lpm => 9
  | .sis => 10
  | .li => 11
  | .liu => 12
  | .mov => 13
  | .alu .add => 14
  | .alu .sub => 15
  | .alu .mul => 16
  | .alu .div => 17
  | .alu .mod => 18
  | .alu .and => 19
  | .alu .or => 20
  | .alu .xor => 21
  | .alu .shl => 22
  | .alu .shr => 23
  | .not => 24
  | .inc => 25
  | .dec => 26
  | .cmp => 27
  | .jump .always => 28
  | .jump .equal => 29
  | .jump .notEqual => 30
  | .jump .zero => 31
  | .jump .notZero => 32
  | .jump .sign => 33
  | .jump .notSign => 34
  | .jump .greater => 35
  | .jump .less => 36
  | .load .word => 37
  | .load .half => 38
  | .load .byte => 39
  | .store .word => 40
  | .store .half => 41
  | .store .byte => 42
  | .push => 43
  | .pop => 44

/-- Looking up the code of an operation finds the operation. -/
theorem ofCode?_code (op : BaseOpcode) : ofCode? op.code = some op := by
  cases op with
  | alu op => cases op <;> rfl
  | jump cond => cases cond <;> rfl
  | load width => cases width <;> rfl
  | store width => cases width <;> rfl
  | _ => rfl

end BaseOpcode

/-- The operations of the math dialect. -/
inductive MathOpcode where
  | nop | pushw | pushuw | popw | popuw | add | sub | mul | div | mod | sis
  | inc | dec | dup | drop | swap
  deriving DecidableEq, Inhabited

namespace MathOpcode

/-- The operations of the math dialect, in the order of their codes. -/
def all : List MathOpcode :=
  [.nop, .pushw, .pushuw, .popw, .popuw, .add, .sub, .mul, .div, .mod, .sis,
    .inc, .dec, .dup, .drop, .swap]

/-- The operation with the given code. -/
def ofCode? (code : UInt8) : Option MathOpcode := all[code.toNat]?

/-- The code of an operation. Selecting an instruction set has the code it has in the base
dialect, so code can always switch back. -/
def code : MathOpcode → UInt8
  | .nop => 0
  | .pushw => 1
  | .pushuw => 2
  | .popw => 3
  | .popuw => 4
  | .add => 5
  | .sub => 6
  | .mul => 7
  | .div => 8
  | .mod => 9
  | .sis => 10
  | .inc => 11
  | .dec => 12
  | .dup => 13
  | .drop => 14
  | .swap => 15

/-- Looking up the code of an operation finds the operation. -/
theorem ofCode?_code (op : MathOpcode) : ofCode? op.code = some op := by
  cases op <;> rfl

end MathOpcode

end Multicore
