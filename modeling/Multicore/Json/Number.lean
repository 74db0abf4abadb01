/-!
# Numbers in JSON

A number as it is written, and what it stands for: an integer if it is written as one, else a
double. The magnitude of a double is taken from the leading digits that 64 bits have room for
and a power of ten; both are rounded to 53 bits before they are multiplied. `Number.isHuge` says
when the product is too large for a double.
-/

namespace Multicore.Json

/-- A number as it is written. -/
structure Number where
  negative : Bool
  whole : List Char
  /-- The digits after the point. -/
  fraction : Option (List Char)
  /-- The sign and the digits of the exponent. -/
  exponent : Option (Bool × List Char)

/-- The number with one more decimal digit. -/
def appendDigit (n : Nat) (c : Char) : Nat := 10 * n + (c.toNat - 48)

/-- The value of a sequence of decimal digits. -/
def digitsValue (digits : List Char) : Nat := digits.foldl appendDigit 0

/-- Append digits to a number as long as 64 bits have room for it. The answer is the number and
the digits that are left. -/
def appendLeading : Nat → List Char → Nat × List Char
  | n, [] => (n, [])
  | n, c :: rest =>
    if appendDigit n c < UInt64.size then appendLeading (appendDigit n c) rest else (n, c :: rest)

/-- Round to 53 binary digits. Of two multiples that are equally near, the even one is taken. -/
def roundToDouble (n : Nat) : Nat :=
  let unit := Nat.pow 2 (n.log2 - 52)
  let multiple := n / unit
  let excess := 2 * (n % unit)
  if unit < excess || unit = excess && multiple % 2 = 1 then (multiple + 1) * unit
  else multiple * unit

/-- The least natural number that rounds to no finite double. -/
def doubleLimit : Nat := Nat.pow 2 1024 - Nat.pow 2 970

namespace Number

/-- The value of a number that is written as an integer. A zero has no sign. -/
def integer? (n : Number) : Option Int :=
  if n.fraction.isSome || n.exponent.isSome then none
  else if n.negative then
    if digitsValue n.whole = 0 then none else some (-(digitsValue n.whole : Int))
  else some (digitsValue n.whole)

/-- The value of the exponent. -/
def exponentValue (n : Number) : Int :=
  match n.exponent with
  | some (true, digits) => -(digitsValue digits : Int)
  | some (false, digits) => digitsValue digits
  | none => 0

/-- The leading digits of a number, and the power of ten that they are multiplied by. Of the
whole digits those without room count as zeros; of the fraction they are left out. -/
def magnitude (n : Number) : Nat × Int :=
  let fraction := n.fraction.getD []
  let (whole, omitted) := appendLeading 0 n.whole
  let (digits, ignored) := appendLeading whole fraction
  (digits, n.exponentValue + omitted.length - (fraction.length - ignored.length))

/-- Whether a number is too large for a double. -/
def isHuge (n : Number) : Bool :=
  let (digits, scale) := n.magnitude
  digits ≠ 0 && 0 ≤ scale &&
    (308 < scale ||
      doubleLimit ≤ roundToDouble digits * roundToDouble (Nat.pow 10 scale.toNat))

end Number

end Multicore.Json
