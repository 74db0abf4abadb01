/-!
# Registers

The names of a core's registers. Instructions can name the thirty general registers, the frame
pointer and the stack pointer, by the codes 0 to 31; `Register.operand?` and
`Register.ofOperand` convert between a name and its code.
-/

namespace Multicore

/-- The name of a register. -/
inductive Register where
  /-- A general register. Register files take the number modulo thirty. -/
  | general (number : UInt8)
  /-- The frame pointer. -/
  | fp
  /-- The stack pointer. -/
  | sp
  /-- The data segment selector. -/
  | ds
  /-- The code segment selector. -/
  | cs
  /-- The instruction pointer. -/
  | ip
  /-- The packed flags. -/
  | flags
  /-- The low half of the count of retired instructions. -/
  | cnt
  deriving DecidableEq, Inhabited

namespace Register

/-- The register named by an operand code: 30 is the frame pointer, 31 the stack pointer, and
every other code a general register. -/
def ofOperand (code : UInt8) : Register :=
  if code = 30 then .fp else if code = 31 then .sp else .general (code % 30)

/-- The operand code of a register that instructions can name. The number of a general
register is its code as it stands. -/
def operand? : Register → Option UInt8
  | .general n => some n
  | .fp => some 30
  | .sp => some 31
  | _ => none

/-- Whether writing the register needs privileged mode. -/
def isProtected : Register → Bool
  | .general _ | .sp => false
  | _ => true

/-- The name of the register in assembly text. -/
def name : Register → String
  | .general n => "r" ++ toString n.toNat
  | .fp => "fp"
  | .sp => "sp"
  | .ds => "ds"
  | .cs => "cs"
  | .ip => "ip"
  | .flags => "flags"
  | .cnt => "cnt"

end Register

end Multicore
