import Multicore.OperandStack
import Multicore.Proofs.Arithmetic.Alu
import Multicore.Proofs.Core.Registers

/-!
# The calculator

What a program of the coprocessor computes, without words of 64 bits and without faults: a stack of
integers and the registers (`Calculator`). An operation is allowed by what it finds
(`MathOp.Allowed`), and a run goes on as long as the operations are allowed (`Calculator.run?`).

The stack of the calculator has no bound of its own. That it stays within the depth of the operand
stack is a consequence of what is allowed (`Calculator.length_le_of_run?`). `Calculator.recovered`
is the way to take a value of 64 bits to two registers.
-/

namespace Multicore

/-- The integer of 64 bits that is the same modulo `2 ^ 64`. -/
def wrap (z : Int) : Int := z.bmod (2 ^ 64)

/-- A stack of integers, the top first, and the registers. -/
structure Calculator where
  stack : List Int
  regs : RegisterFile
  deriving DecidableEq

/-! ## What is allowed -/

namespace MathOp

/-- The number of values that the operation looks at. -/
def operands : MathOp → Nat
  | .pushw _ | .pushuw _ => 0
  | .add | .sub | .mul | .div | .mod | .swap => 2
  | _ => 1

/-- Whether there is one value more after the operation. -/
def grows : MathOp → Bool
  | .pushw _ | .pushuw _ | .dup => true
  | _ => false

/-- Whether the top is a divisor. -/
def divides : MathOp → Bool
  | .div | .mod => true
  | _ => false

/-- The register that the operation writes. -/
def target? : MathOp → Option Register
  | .popw r | .popuw r => some r
  | _ => none

/-- Whether the operation writes a protected register. -/
def needsPrivilege (op : MathOp) : Bool := op.target?.any Register.isProtected

/-- The operands are there, the result fits, a divisor is not zero, and the mode allows to write the
register. -/
structure Allowed (op : MathOp) (c : Calculator) : Prop where
  operands : op.operands ≤ c.stack.length
  room : op.grows = true → c.stack.length < OperandStack.maxDepth
  divisor : op.divides = true → c.stack.head? ≠ some 0
  mode : op.needsPrivilege = true → c.regs.flags.privileged = true

instance (op : MathOp) (c : Calculator) : Decidable (op.Allowed c) :=
  decidable_of_iff
    (op.operands ≤ c.stack.length ∧ (op.grows = true → c.stack.length < OperandStack.maxDepth) ∧
      (op.divides = true → c.stack.head? ≠ some 0) ∧
      (op.needsPrivilege = true → c.regs.flags.privileged = true))
    ⟨fun ⟨h₁, h₂, h₃, h₄⟩ => ⟨h₁, h₂, h₃, h₄⟩, fun ⟨h₁, h₂, h₃, h₄⟩ => ⟨h₁, h₂, h₃, h₄⟩⟩

/-- An operation that does not grow the stack, divide or write a protected register needs nothing
but its operands. -/
theorem allowed_of_operands {op : MathOp} {c : Calculator} (hgrows : op.grows = false)
    (hdivides : op.divides = false) (hmode : op.needsPrivilege = false)
    (hoperands : op.operands ≤ c.stack.length) : op.Allowed c where
  operands := hoperands
  room h := by rw [hgrows] at h; cases h
  divisor h := by rw [hdivides] at h; cases h
  mode h := by rw [hmode] at h; cases h

/-- The fault of an operation that is not allowed. Missing operands come before all else. -/
def fault (op : MathOp) (c : Calculator) : Fault :=
  if c.stack.length < op.operands then .stackUnderflow
  else
    match op with
    | .div | .mod => .divideByZero
    | .popw r | .popuw r => .accessViolation (.protectedRegister r)
    | _ => .stackOverflow

/-- Too few operands are an underflow. -/
theorem fault_of_short {op : MathOp} {c : Calculator} (h : c.stack.length < op.operands) :
    op.fault c = .stackUnderflow :=
  if_pos h

/-- With enough operands, an operation that divides can fail by division by zero only. -/
theorem fault_of_divides {op : MathOp} {c : Calculator} (h : op.divides = true)
    (hlength : op.operands ≤ c.stack.length) : op.fault c = .divideByZero := by
  cases op with
  | div | mod => exact if_neg (Nat.not_lt_of_le hlength)
  | _ => cases h

/-- With enough operands, an operation that grows the stack can overflow only. -/
theorem fault_of_grows {op : MathOp} {c : Calculator} (h : op.grows = true)
    (hlength : op.operands ≤ c.stack.length) : op.fault c = .stackOverflow := by
  cases op with
  | pushw | pushuw | dup => exact if_neg (Nat.not_lt_of_le hlength)
  | _ => cases h

end MathOp

/-! ## What is computed -/

/-- The registers when the instruction pointer is past an instruction. -/
def RegisterFile.passed (f : RegisterFile) : RegisterFile := { f with ip := f.ip + 4 }

/-- The registers when one more instruction is counted. -/
def RegisterFile.counted (f : RegisterFile) : RegisterFile := { f with cnt := f.cnt + 1 }

namespace Calculator

/-- Replace the two topmost values by a function of them. The value below the top is the left
argument. -/
def combine (f : Int → Int → Int) (c : Calculator) : Calculator :=
  match c.stack with
  | y :: x :: rest => { c with stack := wrap (f x y) :: rest }
  | _ => c

/-- Add to the top. -/
def adjust (delta : Int) (c : Calculator) : Calculator :=
  match c.stack with
  | v :: rest => { c with stack := wrap (v + delta) :: rest }
  | [] => c

/-- Take the top off and write the 32 bits of it above the lowest `shift` ones to a register. -/
def deliver (shift : Nat) (r : Register) (c : Calculator) : Calculator :=
  match c.stack with
  | v :: rest => ⟨rest, c.regs.set r (.ofInt (v / 2 ^ shift))⟩
  | [] => c

/-- Exchange the two topmost values. -/
def exchange (c : Calculator) : Calculator :=
  match c.stack with
  | a :: b :: rest => { c with stack := b :: a :: rest }
  | _ => c

/-- The calculator after an operation. -/
def after (c : Calculator) : MathOp → Calculator
  | .pushw r => { c with stack := signed (c.regs.read r) :: c.stack }
  | .pushuw r => { c with stack := (c.regs.read r).toNat :: c.stack }
  | .popw r => c.deliver 0 r
  | .popuw r => c.deliver 32 r
  | .add => c.combine (· + ·)
  | .sub => c.combine (· - ·)
  | .mul => c.combine (· * ·)
  | .div => c.combine Int.tdiv
  | .mod => c.combine Int.tmod
  | .inc => c.adjust 1
  | .dec => c.adjust (-1)
  | .dup => { c with stack := c.stack.head?.toList ++ c.stack }
  | .drop => { c with stack := c.stack.tail }
  | .swap => c.exchange

/-- The calculator after an instruction. -/
def step (c : Calculator) (op : MathOp) : Calculator :=
  let c := { c with regs := c.regs.passed }.after op
  { c with regs := c.regs.counted }

/-- The calculator after a program, if every instruction was allowed. -/
def run? (c : Calculator) : List MathOp → Option Calculator
  | [] => some c
  | op :: ops => if op.Allowed c then (c.step op).run? ops else none

variable {c c' : Calculator} {op : MathOp} {ops : List MathOp}

/-- A program goes on after an operation that is allowed. -/
theorem run?_cons_of_allowed (h : op.Allowed c) : c.run? (op :: ops) = (c.step op).run? ops :=
  if_pos h

/-- A program ends at an operation that is refused. -/
theorem run?_cons_of_refused (h : ¬ op.Allowed c) : c.run? (op :: ops) = none := if_neg h

/-! ## The depth -/

/-- A combination does not grow the stack. -/
theorem length_combine_le (f : Int → Int → Int) :
    (c.combine f).stack.length ≤ c.stack.length := by
  unfold combine
  split
  · next h => simp [h]
  · exact Nat.le_refl _

/-- An adjustment does not grow the stack. -/
theorem length_adjust_le (delta : Int) : (c.adjust delta).stack.length ≤ c.stack.length := by
  unfold adjust
  split
  · next h => simp [h]
  · exact Nat.le_refl _

/-- A delivery to a register does not grow the stack. -/
theorem length_deliver_le (shift : Nat) (r : Register) :
    (c.deliver shift r).stack.length ≤ c.stack.length := by
  unfold deliver
  split
  · next h => simp [h]
  · exact Nat.le_refl _

/-- An exchange does not grow the stack. -/
theorem length_exchange_le : c.exchange.stack.length ≤ c.stack.length := by
  unfold exchange
  split
  · next h => simp [h]
  · exact Nat.le_refl _

/-- No operation leaves the stack deeper by more than it grows. -/
theorem length_after_le : (c.after op).stack.length ≤ c.stack.length + op.grows.toNat := by
  cases op with
  | pushw | pushuw => exact Nat.le_refl _
  | popw r | popuw r => exact length_deliver_le _ r
  | add | sub | mul | div | mod => exact length_combine_le _
  | inc | dec => exact length_adjust_le _
  | dup =>
    rw [after, List.length_append, Nat.add_comm]
    exact Nat.add_le_add_left (by cases c.stack.head? <;> simp [MathOp.grows]) _
  | drop =>
    rw [after, List.length_tail]
    exact Nat.sub_le ..
  | swap => exact length_exchange_le

/-- What is allowed keeps the stack within the depth. -/
theorem length_step_le (h : op.Allowed c) (hc : c.stack.length ≤ OperandStack.maxDepth) :
    (c.step op).stack.length ≤ OperandStack.maxDepth := by
  have hle : (c.step op).stack.length ≤ c.stack.length + op.grows.toNat := length_after_le
  cases hgrows : op.grows with
  | false =>
    rw [hgrows] at hle
    exact Nat.le_trans hle hc
  | true =>
    rw [hgrows] at hle
    exact Nat.le_trans hle (h.room hgrows)

/-- A run keeps the stack within the depth. -/
theorem length_le_of_run? (h : c.run? ops = some c')
    (hc : c.stack.length ≤ OperandStack.maxDepth) :
    c'.stack.length ≤ OperandStack.maxDepth := by
  induction ops generalizing c with
  | nil =>
    cases h
    exact hc
  | cons op ops ih =>
    by_cases hallowed : op.Allowed c
    · rw [run?_cons_of_allowed hallowed] at h
      exact ih h (length_step_le hallowed hc)
    · rw [run?_cons_of_refused hallowed] at h
      cases h

end Calculator

/-! ## A value in two registers -/

/-- To pass an instruction leaves the registers that instructions name. -/
theorem RegisterFile.read_passed (f : RegisterFile) {r : Register} (hr : r.IsNamed) :
    f.passed.read r = f.read r := by
  cases r with
  | ip => exact hr.elim
  | _ => rfl

/-- To count an instruction leaves them too. -/
theorem RegisterFile.read_counted (f : RegisterFile) {r : Register} (hr : r.IsNamed) :
    f.counted.read r = f.read r := by
  cases r with
  | cnt => exact hr.elim
  | _ => rfl

/-- A number of 64 bits consists of its upper and its lower half. -/
theorem toNat_halves (v : Int) :
    ((UInt32.ofInt (v / 2 ^ 32)).toNat * 2 ^ 32 + (UInt32.ofInt v).toNat : Int) = v % 2 ^ 64 := by
  have hhalf (x : Int) : ((UInt32.ofInt x).toNat : Int) = x % 2 ^ 32 := by
    rw [UInt32.ofInt, UInt32.toNat_ofNat']
    omega
  rw [hhalf, hhalf]
  omega

/-- To copy the top and to take off its upper half and then its lower half leaves the value in two
registers and the stack without it. -/
theorem Calculator.recovered {c c' : Calculator} {high low : Register} (hhigh : high.IsNamed)
    (hlow : low.IsNamed) (hne : high ≠ low)
    (h : c.run? [.dup, .popuw high, .popw low] = some c') :
    ∃ v, c.stack = v :: c'.stack ∧
      ((c'.regs.read high).toNat * 2 ^ 32 + (c'.regs.read low).toNat : Int) = v % 2 ^ 64 := by
  simp only [run?, Option.ite_none_right_eq_some, Option.some.injEq] at h
  obtain ⟨hdup, -, -, rfl⟩ := h
  obtain ⟨stack, regs⟩ := c
  cases stack with
  | nil => exact (Nat.not_succ_le_zero 0 hdup.operands).elim
  | cons v rest =>
    refine ⟨v, rfl, ?_⟩
    let before := { regs with ip := regs.ip + 4, cnt := regs.cnt + 1 }.passed
    let between := (before.set high (.ofInt (v / 2 ^ 32))).counted.passed
    let result := (between.set low (.ofInt (v / 2 ^ 0))).counted
    have hread_low : result.read low = .ofInt v := by
      have hset := between.read_set_self hlow.ne_flags (.ofInt (v / 2 ^ 0))
      rw [RegisterFile.read_counted _ hlow, hset, Int.pow_zero, Int.ediv_one]
    have hread_high : result.read high = .ofInt (v / 2 ^ 32) := by
      rw [RegisterFile.read_counted _ hhigh, RegisterFile.read_set_of_ne _ hlow hhigh hne.symm,
        RegisterFile.read_passed _ hhigh, RegisterFile.read_counted _ hhigh,
        RegisterFile.read_set_self _ hhigh.ne_flags]
    show ((result.read high).toNat * 2 ^ 32 + (result.read low).toNat : Int) = _
    rw [hread_low, hread_high, toNat_halves]

end Multicore
