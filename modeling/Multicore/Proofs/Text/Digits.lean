import Multicore.Text.Hex
import Multicore.Text.Numeral
import Mathlib.Logic.Basic

/-!
# Numbers as text

A number is known from its digits, also with zeros in front (`Text.valueOfDigits_toDigits`), and so
from its hexadecimal text and, with the sign, from its signed hexadecimal text. Digits are letters
and numerals, which is how a number is told from what stands around it.
-/

namespace Multicore.Text

/-! ## Digits -/

/-- The number with the given digits. -/
def valueOfDigits (base : Nat) (digits : List Char) : Nat :=
  digits.foldl (fun n c => base * n + (hexValue? c).getD 0) 0

/-- The value of a digit is read back from its character. -/
theorem hexValue?_digitChar {d : Nat} (h : d < 16) : hexValue? d.digitChar = some d := by
  have hall : ∀ d : Fin 16, hexValue? d.val.digitChar = some d.val := by decide
  exact hall ⟨d, h⟩

/-- A digit is a letter or a decimal digit. -/
theorem isAlphanum_digitChar {d : Nat} (h : d < 16) : d.digitChar.isAlphanum = true := by
  have hall : ∀ d : Fin 16, d.val.digitChar.isAlphanum = true := by decide
  exact hall ⟨d, h⟩

section
variable {base : Nat} (hone : 1 < base) (hbase : base ≤ 16)
include hone hbase

/-- A number is the value of its digits. -/
theorem valueOfDigits_toDigits (n : Nat) : valueOfDigits base (Nat.toDigits base n) = n := by
  have hdigit {acc d : Nat} (hd : d < base) :
      (Nat.toDigits base d).foldl (fun n c => base * n + (hexValue? c).getD 0) acc =
        base * acc + d := by
    rw [Nat.toDigits_of_lt_base hd, List.foldl_cons, List.foldl_nil,
      hexValue?_digitChar (Nat.lt_of_lt_of_le hd hbase), Option.getD_some]
  induction n using Nat.base_induction base hone with
  | single d hd => rw [valueOfDigits, hdigit hd, Nat.mul_zero, Nat.zero_add]
  | digit m d hd hm ih =>
    rw [valueOfDigits] at ih
    rw [← Nat.toDigits_append_toDigits hone hm hd, valueOfDigits, List.foldl_append, ih, hdigit hd]

/-- No two numbers have the same digits. -/
theorem toDigits_inj {m n : Nat} : Nat.toDigits base m = Nat.toDigits base n ↔ m = n := by
  refine ⟨fun h => ?_, congrArg _⟩
  rw [← valueOfDigits_toDigits hone hbase m, h, valueOfDigits_toDigits hone hbase]

/-- The digits of a number are letters and decimal digits. -/
theorem isAlphanum_of_mem_toDigits (n : Nat) : ∀ c ∈ Nat.toDigits base n, c.isAlphanum = true := by
  have hdigit {d : Nat} (hd : d < base) : ∀ c ∈ Nat.toDigits base d, c.isAlphanum = true := by
    rw [Nat.toDigits_of_lt_base hd]
    simpa using isAlphanum_digitChar (Nat.lt_of_lt_of_le hd hbase)
  induction n using Nat.base_induction base hone with
  | single d hd => exact hdigit hd
  | digit m d hd hm ih =>
    rw [← Nat.toDigits_append_toDigits hone hm hd]
    exact List.forall_mem_append.2 ⟨ih, hdigit hd⟩

end

/-- Zeros in front do not change the value. -/
theorem valueOfDigits_zeros (base k : Nat) (digits : List Char) :
    valueOfDigits base (List.replicate k '0' ++ digits) = valueOfDigits base digits := by
  induction k with
  | zero => rfl
  | succ k ih => exact ih

/-! ## Hexadecimal text -/

/-- A hexadecimal number starts with its mark. -/
theorem toList_hex (n : Nat) : (hex n).toList = '0' :: 'x' :: Nat.toDigits 16 n := by
  simp [hex, hexDigits]

/-- No two numbers have the same hexadecimal text. -/
theorem hex_inj {m n : Nat} : hex m = hex n ↔ m = n := by
  rw [← String.toList_inj, toList_hex, toList_hex, List.cons_inj_right, List.cons_inj_right,
    toDigits_inj (by decide) (by decide)]

/-- A hexadecimal text has letters and decimal digits only. -/
theorem isAlphanum_of_mem_hex (n : Nat) : ∀ c ∈ (hex n).toList, c.isAlphanum = true := by
  rw [toList_hex, List.forall_mem_cons, List.forall_mem_cons]
  exact ⟨by decide, by decide, isAlphanum_of_mem_toDigits (by decide) (by decide) n⟩

/-- No two numbers have the same padded text, since zeros in front change no number. -/
theorem paddedHex_inj {width m n : Nat} : paddedHex width m = paddedHex width n ↔ m = n := by
  refine ⟨fun h => ?_, congrArg _⟩
  have hvalue (k : Nat) : valueOfDigits 16 ((paddedHex width k).toList.drop 2) = k := by
    have hdigits : (paddedHex width k).toList.drop 2 =
        List.replicate (width - (Nat.toDigits 16 k).length) '0' ++ Nat.toDigits 16 k := by
      simp [paddedHex, paddedHexDigits]
    rw [hdigits, valueOfDigits_zeros, valueOfDigits_toDigits (by decide) (by decide)]
  rw [← hvalue m, h, hvalue]

/-- A negative number starts with its sign. -/
theorem toList_signedHex_of_neg {v : Int} (h : v < 0) :
    (signedHex v).toList = '-' :: '0' :: 'x' :: Nat.toDigits 16 v.natAbs := by
  rw [signedHex, if_pos h, String.toList_append, toList_hex]
  rfl

/-- Any other starts with the mark. -/
theorem toList_signedHex_of_nonneg {v : Int} (h : ¬ v < 0) :
    (signedHex v).toList = '0' :: 'x' :: Nat.toDigits 16 v.natAbs := by
  rw [signedHex, if_neg h, toList_hex]

/-- No two signed numbers have the same text. -/
theorem signedHex_inj {v w : Int} : signedHex v = signedHex w ↔ v = w := by
  refine ⟨fun h => ?_, congrArg _⟩
  have hdigits {m n : Nat} : Nat.toDigits 16 m = Nat.toDigits 16 n ↔ m = n :=
    toDigits_inj (by decide) (by decide)
  rw [← String.toList_inj] at h
  by_cases hv : v < 0 <;> by_cases hw : w < 0
  · rw [toList_signedHex_of_neg hv, toList_signedHex_of_neg hw, List.cons_inj_right,
      List.cons_inj_right, List.cons_inj_right, hdigits] at h
    omega
  · rw [toList_signedHex_of_neg hv, toList_signedHex_of_nonneg hw] at h
    cases h
  · rw [toList_signedHex_of_nonneg hv, toList_signedHex_of_neg hw] at h
    cases h
  · rw [toList_signedHex_of_nonneg hv, toList_signedHex_of_nonneg hw, List.cons_inj_right,
      List.cons_inj_right, hdigits] at h
    omega

end Multicore.Text
