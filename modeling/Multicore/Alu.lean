import Multicore.Fault

/-!
# The arithmetic unit

Arithmetic reads its operands as signed 32-bit numbers, wraps, and says whether the exact
result was out of range. Division truncates toward zero. The logical operations and the
shifts never overflow, and a shift takes its amount modulo 32.

`Alu.execute` sends an operation to its unit. A unit answers zero for an operation that
belongs to another.
-/

namespace Multicore.Alu

/-- The arithmetic unit: the result and whether it overflowed. -/
def arithmetic (op : AluOp) (a b : UInt32) : Except Fault (UInt32 × Bool) :=
  let x := a.toInt32
  let y := b.toInt32
  match op with
  | .add => .ok (a + b, x.toBitVec.saddOverflow y.toBitVec)
  | .sub => .ok (a - b, x.toBitVec.ssubOverflow y.toBitVec)
  | .mul => .ok (a * b, x.toBitVec.smulOverflow y.toBitVec)
  | .div =>
    if b = 0 then .error .divideByZero
    else .ok ((x / y).toUInt32, x.toBitVec.sdivOverflow y.toBitVec)
  | .mod =>
    if b = 0 then .error .divideByZero
    else .ok ((x % y).toUInt32, x.toBitVec.sdivOverflow y.toBitVec)
  | _ => .ok (0, false)

/-- The logical unit. -/
def logic (op : AluOp) (a b : UInt32) : UInt32 :=
  match op with
  | .and => a &&& b
  | .or => a ||| b
  | .xor => a ^^^ b
  | _ => 0

/-- The shifter. Both shifts fill with zeros. -/
def shift (op : AluOp) (a b : UInt32) : UInt32 :=
  match op with
  | .shl => a <<< (b % 32)
  | .shr => a >>> (b % 32)
  | _ => 0

/-- The result of an operation and whether it overflowed. -/
def execute (op : AluOp) (a b : UInt32) : Except Fault (UInt32 × Bool) :=
  match op with
  | .add | .sub | .mul | .div | .mod => arithmetic op a b
  | .and | .or | .xor => .ok (logic op a b, false)
  | .shl | .shr => .ok (shift op a b, false)

end Multicore.Alu
