/-!
# Hexadecimal text

Numbers are shown in lower-case hexadecimal, with or without the `0x` mark and with a least
number of digits. `signedHex` writes the sign in front of the mark.
-/

namespace Multicore.Text

/-- The hexadecimal digits of a number, with no mark. -/
def hexDigits (n : Nat) : String := String.ofList (Nat.toDigits 16 n)

/-- At least `width` hexadecimal digits, filled up with zeros on the left. -/
def paddedHexDigits (width n : Nat) : String :=
  let digits := Nat.toDigits 16 n
  String.ofList (List.replicate (width - digits.length) '0' ++ digits)

/-- A number as `0x` and its digits. -/
def hex (n : Nat) : String := "0x" ++ hexDigits n

/-- A number as `0x` and at least `width` digits. -/
def paddedHex (width n : Nat) : String := "0x" ++ paddedHexDigits width n

/-- A signed number: a minus sign in front of the hexadecimal text of its magnitude. -/
def signedHex (v : Int) : String := if v < 0 then "-" ++ hex v.natAbs else hex v.natAbs

/-- The two digits of each byte, one after the other. -/
def hexBytes (bytes : List UInt8) : String :=
  String.join (bytes.map fun b => paddedHexDigits 2 b.toNat)

end Multicore.Text
