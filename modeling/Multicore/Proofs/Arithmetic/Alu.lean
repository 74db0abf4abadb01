import Multicore.Alu
import Mathlib.Tactic.Ring

/-!
# The arithmetic unit and exact arithmetic

`AluOp.Yields` says what the result of an operation and its overflow have to be, in terms of the
integers that the operands stand for: arithmetic is exact and then reduced modulo `2 ^ 32`
(`Rounds`), a remainder is exact (`IsRemainder`), and the logical operations and the shifts go bit
by bit. The unit meets it for every operation and all operands (`Alu.execute_of_defined`), except
that it refuses to divide by zero (`Alu.execute_of_undefined`).
-/

namespace Multicore

/-! ## Words as signed numbers -/

/-- The signed number that a word stands for. -/
def signed (w : UInt32) : Int := w.toInt32.toInt

/-- A signed word is below 2 ^ 31. -/
theorem signed_lt (w : UInt32) : signed w < 2 ^ 31 := Int32.toInt_lt _

/-- A signed word is at least -2 ^ 31. -/
theorem le_signed (w : UInt32) : -2 ^ 31 ≤ signed w := Int32.le_toInt _

/-- A signed word is its number, brought into the signed range. -/
theorem signed_eq_bmod (w : UInt32) : signed w = (w.toNat : Int).bmod (2 ^ 32) :=
  BitVec.toInt_eq_toNat_bmod w.toBitVec

/-- The number of a word is the signed number modulo `2 ^ 32`. -/
theorem toNat_eq_signed_emod (w : UInt32) : (w.toNat : Int) = signed w % 2 ^ 32 := by
  have hlt := w.toNat_lt
  have hmod : signed w % 2 ^ 32 = (w.toNat : Int) % 2 ^ 32 := by
    rw [signed_eq_bmod]
    exact Int.bmod_emod
  omega

/-- Words are equal if they are as signed numbers. -/
theorem signed_inj {w w' : UInt32} : signed w = signed w' ↔ w = w' := by
  refine ⟨fun h => ?_, congrArg signed⟩
  have h₁ := toNat_eq_signed_emod w
  have h₂ := toNat_eq_signed_emod w'
  rw [← UInt32.toNat_inj]
  omega

theorem signed_eq_zero_iff {w : UInt32} : signed w = 0 ↔ w = 0 := @signed_inj w 0

/-- A signed number is read back from its word. -/
theorem signed_toUInt32 (x : Int32) : signed x.toUInt32 = x.toInt := by
  rw [signed, Int32.toInt32_toUInt32]

/-- A word is a number modulo `2 ^ 32` if it stands for what is left of it as a signed number. -/
theorem toNat_eq_emod_of_signed {w : UInt32} {z : Int} (h : signed w = z.bmod (2 ^ 32)) :
    (w.toNat : Int) = z % 2 ^ 32 := by
  rw [toNat_eq_signed_emod, h]
  exact Int.bmod_emod

/-! ## What the operations have to yield -/

/-- The word is the exact result modulo `2 ^ 32`, and the overflow says that the exact result is no
signed 32-bit number. -/
structure Rounds (z : Int) (r : UInt32) (overflow : Bool) : Prop where
  word : (r.toNat : Int) = z % 2 ^ 32
  overflows : overflow = true ↔ ¬ (-2 ^ 31 ≤ z ∧ z ≤ 2 ^ 31 - 1)

/-- The word is the exact remainder of the division that truncates toward zero, and the overflow
says that the quotient would overflow. -/
structure IsRemainder (x y : Int) (r : UInt32) (overflow : Bool) : Prop where
  division : x = x.tdiv y * y + signed r
  small : (signed r).natAbs < y.natAbs
  sign : signed r = 0 ∨ (signed r).sign = x.sign
  overflows : overflow = true ↔ x = -2 ^ 31 ∧ y = -1

/-- The bits of the result are a function of their place, and nothing overflows. -/
structure HasBits (bit : Nat → Bool) (r : UInt32) (overflow : Bool) : Prop where
  bits : ∀ i, r.toNat.testBit i = bit i
  overflows : overflow = false

namespace AluOp

/-- Whether the operation divides by its second operand. -/
def divides : AluOp → Bool
  | .div | .mod => true
  | _ => false

/-- Whether the operation has a result: there is no division by zero. -/
def Defined (op : AluOp) (b : UInt32) : Prop := op.divides = true → b ≠ 0

instance (op : AluOp) (b : UInt32) : Decidable (op.Defined b) :=
  inferInstanceAs (Decidable (_ → _))

/-- What a result and its overflow have to be. -/
def Yields (op : AluOp) (a b r : UInt32) (overflow : Bool) : Prop :=
  match op with
  | .add => Rounds (signed a + signed b) r overflow
  | .sub => Rounds (signed a - signed b) r overflow
  | .mul => Rounds (signed a * signed b) r overflow
  | .div => Rounds ((signed a).tdiv (signed b)) r overflow
  | .mod => IsRemainder (signed a) (signed b) r overflow
  | .and => HasBits (fun i => a.toNat.testBit i && b.toNat.testBit i) r overflow
  | .or => HasBits (fun i => a.toNat.testBit i || b.toNat.testBit i) r overflow
  | .xor => HasBits (fun i => a.toNat.testBit i ^^ b.toNat.testBit i) r overflow
  | .shl =>
    HasBits (fun i => decide (i < 32) && decide (b.toNat % 32 ≤ i) &&
      a.toNat.testBit (i - b.toNat % 32)) r overflow
  | .shr => HasBits (fun i => a.toNat.testBit (b.toNat % 32 + i)) r overflow

end AluOp

/-! ## Overflow -/

/-- The number is out of the range of signed words. -/
theorem overflow_iff (z : Int) :
    (decide (2 ^ 31 ≤ z) || decide (z < -2 ^ 31)) = true ↔ ¬ (-2 ^ 31 ≤ z ∧ z ≤ 2 ^ 31 - 1) := by
  rw [Bool.or_eq_true, decide_eq_true_iff, decide_eq_true_iff]
  omega

/-- A truncated quotient of signed words is out of their range in one case only. -/
theorem tdiv_in_range_iff {x y : Int} (hlo : -2 ^ 31 ≤ x) (hhi : x < 2 ^ 31) :
    -2 ^ 31 ≤ x.tdiv y ∧ x.tdiv y ≤ 2 ^ 31 - 1 ↔ ¬ (x = -2 ^ 31 ∧ y = -1) := by
  have habs : (x.tdiv y).natAbs = x.natAbs / y.natAbs := Int.natAbs_tdiv x y
  constructor
  · rintro ⟨-, hle⟩ ⟨rfl, rfl⟩
    exact absurd hle (by decide)
  · intro hne
    have hcases : y = 0 ∨ y = 1 ∨ y = -1 ∨ 2 ≤ y.natAbs := by omega
    obtain rfl | rfl | rfl | hy := hcases
    · rw [Int.tdiv_zero]
      omega
    · rw [Int.tdiv_one]
      omega
    · rw [Int.tdiv_neg, Int.tdiv_one]
      omega
    · have hhalf : x.natAbs / y.natAbs ≤ x.natAbs / 2 := Nat.div_le_div_left hy (by decide)
      omega

/-- The overflow of a division, as the unit finds it. -/
theorem sdivOverflow_iff (a b : UInt32) :
    a.toInt32.toBitVec.sdivOverflow b.toInt32.toBitVec = true ↔
      signed a = -2 ^ 31 ∧ signed b = -1 := by
  rw [BitVec.sdivOverflow_eq, Bool.and_eq_true, Bool.and_eq_true, decide_eq_true_iff,
    decide_eq_true_iff, decide_eq_true_iff, ← BitVec.toInt_inj, ← BitVec.toInt_inj]
  exact ⟨fun ⟨⟨_, ha⟩, hb⟩ => ⟨ha, hb⟩, fun ⟨ha, hb⟩ => ⟨⟨by decide, ha⟩, hb⟩⟩

/-! ## What the unit does -/

namespace Alu

variable (a b : UInt32)

/-- The sum wraps, and the overflow bit says whether it did. -/
theorem rounds_add :
    Rounds (signed a + signed b) (a + b) (a.toInt32.toBitVec.saddOverflow b.toInt32.toBitVec) where
  word := toNat_eq_emod_of_signed (by
    rw [signed, UInt32.toInt32_add, Int32.toInt_add]
    rfl)
  overflows := overflow_iff _

/-- The difference wraps, and the overflow bit says whether it did. -/
theorem rounds_sub :
    Rounds (signed a - signed b) (a - b) (a.toInt32.toBitVec.ssubOverflow b.toInt32.toBitVec) where
  word := toNat_eq_emod_of_signed (by
    rw [signed, UInt32.toInt32_sub, Int32.toInt_sub]
    rfl)
  overflows := overflow_iff _

/-- The product wraps, and the overflow bit says whether it did. -/
theorem rounds_mul :
    Rounds (signed a * signed b) (a * b) (a.toInt32.toBitVec.smulOverflow b.toInt32.toBitVec) where
  word := toNat_eq_emod_of_signed (by
    rw [signed, UInt32.toInt32_mul, Int32.toInt_mul]
    rfl)
  overflows := overflow_iff _

/-- The quotient is truncated. It overflows for the least number divided by -1 only. -/
theorem rounds_div :
    Rounds ((signed a).tdiv (signed b)) (a.toInt32 / b.toInt32).toUInt32
      (a.toInt32.toBitVec.sdivOverflow b.toInt32.toBitVec) where
  word := toNat_eq_emod_of_signed (by
    rw [signed_toUInt32, Int32.toInt_div]
    rfl)
  overflows := by
    rw [sdivOverflow_iff, tdiv_in_range_iff (le_signed a) (signed_lt a), not_not]

/-- The remainder has the sign of the dividend. Its overflow bit is that of the quotient. -/
theorem isRemainder_mod (hb : b ≠ 0) :
    IsRemainder (signed a) (signed b) (a.toInt32 % b.toInt32).toUInt32
      (a.toInt32.toBitVec.sdivOverflow b.toInt32.toBitVec) := by
  have hr : signed (a.toInt32 % b.toInt32).toUInt32 = (signed a).tmod (signed b) := by
    rw [signed_toUInt32, Int32.toInt_mod]
    rfl
  have hy : signed b ≠ 0 := fun h => hb (signed_eq_zero_iff.1 h)
  constructor
  · rw [hr, Int.tdiv_mul_add_tmod]
  · rw [hr, Int.natAbs_tmod]
    exact Nat.mod_lt _ (by omega)
  · rw [hr]
    by_cases hdvd : signed b ∣ signed a
    · exact .inl (Int.tmod_eq_zero_of_dvd hdvd)
    · exact .inr (by rw [Int.sign_tmod, if_neg hdvd])
  · exact sdivOverflow_iff a b

/-- The distance of a shift as a number. -/
theorem toNat_mod_thirtyTwo : (b % 32).toNat = b.toNat % 32 := UInt32.toNat_mod b 32

/-- A shift to the left moves the bits up and fills with zeros. -/
theorem hasBits_shl :
    HasBits (fun i => decide (i < 32) && decide (b.toNat % 32 ≤ i) &&
      a.toNat.testBit (i - b.toNat % 32)) (a <<< (b % 32)) false where
  bits i := by
    rw [UInt32.toNat_shiftLeft, Nat.testBit_mod_two_pow, Nat.testBit_shiftLeft,
      toNat_mod_thirtyTwo, Nat.mod_mod, Bool.and_assoc]
  overflows := rfl

/-- A shift to the right moves the bits down and fills with zeros, also for negative numbers. -/
theorem hasBits_shr :
    HasBits (fun i => a.toNat.testBit (b.toNat % 32 + i)) (a >>> (b % 32)) false where
  bits i := by
    rw [UInt32.toNat_shiftRight, Nat.testBit_shiftRight, toNat_mod_thirtyTwo, Nat.mod_mod]
  overflows := rfl

/-- A division by zero is refused. -/
theorem execute_of_undefined {op : AluOp} {b : UInt32} (h : ¬ op.Defined b) (a : UInt32) :
    execute op a b = .error .divideByZero := by
  obtain ⟨hop, hb⟩ := Classical.not_imp.1 h
  have hb : b = 0 := not_not.1 hb
  cases op with
  | div | mod => exact if_pos hb
  | _ => cases hop

/-- Everything else has a result, which is what the operation has to yield. -/
theorem execute_of_defined {op : AluOp} {b : UInt32} (h : op.Defined b) (a : UInt32) :
    ∃ r overflow, execute op a b = .ok (r, overflow) ∧ op.Yields a b r overflow := by
  cases op with
  | add => exact ⟨_, _, rfl, rounds_add a b⟩
  | sub => exact ⟨_, _, rfl, rounds_sub a b⟩
  | mul => exact ⟨_, _, rfl, rounds_mul a b⟩
  | div => exact ⟨_, _, if_neg (h rfl), rounds_div a b⟩
  | mod => exact ⟨_, _, if_neg (h rfl), isRemainder_mod a b (h rfl)⟩
  | and => exact ⟨_, _, rfl, fun i => by rw [logic, UInt32.toNat_and, Nat.testBit_and], rfl⟩
  | or => exact ⟨_, _, rfl, fun i => by rw [logic, UInt32.toNat_or, Nat.testBit_or], rfl⟩
  | xor => exact ⟨_, _, rfl, fun i => by rw [logic, UInt32.toNat_xor, Nat.testBit_xor], rfl⟩
  | shl => exact ⟨_, _, rfl, hasBits_shl a b⟩
  | shr => exact ⟨_, _, rfl, hasBits_shr a b⟩

end Alu

end Multicore
