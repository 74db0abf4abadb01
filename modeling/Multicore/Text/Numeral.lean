/-!
# Reading numerals

Natural numbers as a user writes them: digits, with a plus sign in front if one likes.
`signedNumeral?` also takes a minus sign in front of a zero. `anyNumeral?` takes hexadecimal
numbers with the mark `0x`, and underscores anywhere after the mark.
-/

namespace Multicore.Text

/-- The value of a hexadecimal digit. -/
def hexValue? (c : Char) : Option Nat :=
  if c.isDigit then some (c.toNat - 48)
  else if 'a' ≤ c && c ≤ 'f' then some (c.toNat - 87)
  else if 'A' ≤ c && c ≤ 'F' then some (c.toNat - 55)
  else none

/-- The value of a digit in a base of at most 16. -/
def digitValue? (base : Nat) (c : Char) : Option Nat := (hexValue? c).filter (· < base)

/-- The number below a bound with the given digits, of which there is at least one. -/
def numeral? (base bound : Nat) (cs : List Char) : Option Nat := do
  let digits := if cs.head? = some '+' then cs.tail else cs
  if digits.isEmpty then none
  let values ← digits.mapM (digitValue? base)
  (some (values.foldl (fun n d => base * n + d) 0)).filter (· < bound)

/-- The natural number below a bound that an integer with an optional sign stands for. With a
minus sign it is zero or none. -/
def signedNumeral? (base bound : Nat) (cs : List Char) : Option Nat :=
  match cs with
  | '-' :: '+' :: _ => none
  | '-' :: digits => (numeral? base bound digits).filter (· = 0)
  | _ => numeral? base bound cs

/-- The number below a bound, decimal or hexadecimal. -/
def anyNumeral? (bound : Nat) (cs : List Char) : Option Nat :=
  match cs with
  | '0' :: 'x' :: rest | '0' :: 'X' :: rest => numeral? 16 bound (rest.filter (· ≠ '_'))
  | _ => numeral? 10 bound (cs.filter (· ≠ '_'))

end Multicore.Text
