import Multicore.Fault

/-!
# The operand stack of the math coprocessor

A stack of at most eight 64-bit integers, and the operations that stay within the stack. An
operation takes its operands off before it looks at them, so a division by zero leaves a stack
without the two operands.
-/

namespace Multicore

/-- The most values that an operand stack holds. -/
def OperandStack.maxDepth : Nat := 8

/-- The operand stack of a core, the top first. -/
structure OperandStack where
  values : List Int64
  length_le : values.length ≤ OperandStack.maxDepth

namespace OperandStack

/-- The stack without values. -/
def empty : OperandStack := ⟨[], by simp⟩

instance : Inhabited OperandStack := ⟨empty⟩

instance : DecidableEq OperandStack := fun a b =>
  if h : a.values = b.values then isTrue (by cases a; cases b; cases h; rfl)
  else isFalse (fun e => h (e ▸ rfl))

/-- The number of values. -/
def depth (s : OperandStack) : Nat := s.values.length

/-- Computations on an operand stack. What they have done stays done when they fail. -/
abbrev Run := EStateM Fault OperandStack

/-- Put a value on top. -/
def push (v : Int64) : Run Unit := fun s =>
  if h : s.values.length < maxDepth then .ok () ⟨v :: s.values, h⟩ else .error .stackOverflow s

/-- Take the top off. -/
def pop : Run Int64 := fun s =>
  match s with
  | ⟨[], _⟩ => .error .stackUnderflow s
  | ⟨v :: vs, h⟩ => .ok v ⟨vs, Nat.le_of_succ_le h⟩

/-- Read the top. -/
def peek : Run Int64 := fun s =>
  match s.values with
  | [] => .error .stackUnderflow s
  | v :: _ => .ok v s

/-- The stack with the values of a list, the bottom first. Values that do not fit are left
out. -/
def ofList (values : List Int64) : OperandStack :=
  ⟨(values.take maxDepth).reverse, by rw [List.length_reverse]; exact List.length_take_le ..⟩

/-- Replace the two topmost values by the result of an operation on them. The value below the
top is the left operand. -/
def combine (f : Int64 → Int64 → Except Fault Int64) : Run Unit := do
  let rhs ← pop
  let lhs ← pop
  match f lhs rhs with
  | .ok v => push v
  | .error fault => throw fault

/-- The quotient, truncated toward zero. -/
def quotient (x y : Int64) : Except Fault Int64 :=
  if y = 0 then .error .divideByZero else .ok (x / y)

/-- The remainder of the truncated division. -/
def remainder (x y : Int64) : Except Fault Int64 :=
  if y = 0 then .error .divideByZero else .ok (x % y)

/-- Add to the top. -/
def adjustTop (delta : Int64) : Run Unit := do
  let top ← pop
  push (top + delta)

/-- Exchange the two topmost values. -/
def swap : Run Unit := do
  let a ← pop
  let b ← pop
  push a
  push b

end OperandStack

end Multicore
