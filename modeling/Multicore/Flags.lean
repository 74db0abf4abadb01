/-!
# Processor flags

The flags hold two mode bits and the four conditions left by the last arithmetic or compare
instruction. `Flags.pack` is the word that interrupt entry saves, `Flags.unpack` reads it
back and ignores every other bit.
-/

namespace Multicore

/-- The flags of a core. -/
structure Flags where
  /-- Protected registers and instructions are accessible. -/
  privileged : Bool := false
  /-- Hardware interrupts are delivered. -/
  interruptsEnabled : Bool := false
  /-- The last comparison found equal operands. -/
  equal : Bool := false
  /-- The last result was zero. -/
  zero : Bool := false
  /-- The last arithmetic operation overflowed. -/
  overflow : Bool := false
  /-- The last result was negative. -/
  sign : Bool := false
  deriving DecidableEq, Inhabited

namespace Flags

/-- The word with one bit, set or clear. -/
def bit (b : Bool) (position : UInt32) : UInt32 := if b then 1 <<< position else 0

/-- The flags as a word: bit 0 is `privileged`, and the others follow in order of their fields. -/
def pack (f : Flags) : UInt32 :=
  bit f.privileged 0 ||| bit f.interruptsEnabled 1 ||| bit f.equal 2 ||| bit f.zero 3 |||
    bit f.overflow 4 ||| bit f.sign 5

/-- The flags held by a word. Bits above the sixth are ignored. -/
def unpack (w : UInt32) : Flags where
  privileged := w.toNat.testBit 0
  interruptsEnabled := w.toNat.testBit 1
  equal := w.toNat.testBit 2
  zero := w.toNat.testBit 3
  overflow := w.toNat.testBit 4
  sign := w.toNat.testBit 5

/-- The flags after an arithmetic result. The mode bits and `equal` stay. -/
def afterArithmetic (f : Flags) (result : UInt32) (overflow : Bool) : Flags :=
  { f with zero := result = 0, sign := result.toInt32 < 0, overflow }

/-- The flags after comparing `lhs` with `rhs`: `zero` says that both are zero, and `sign`
that `lhs` is the smaller as a signed number. The mode bits stay. -/
def afterCompare (f : Flags) (lhs rhs : UInt32) : Flags :=
  { f with
    equal := lhs = rhs
    zero := lhs = 0 ∧ rhs = 0
    sign := lhs.toInt32 < rhs.toInt32
    overflow := false }

end Flags

end Multicore
