/-!
# Numerals

Whole numbers are written in decimal digits. `read?` takes an optional plus sign and at least one
digit and refuses what reaches `limit`; `write` gives the digits without a sign, `padded` fills
them up with zeros in front.

A numeral may be long. Digits only ever make a number larger, so `valueBelow?` stops at the digit
that reaches the limit.
-/

namespace ReadThrough.Text.Numeral

/-- The value of a decimal digit. -/
def digitValue (c : Char) : Nat :=
  c.toNat - '0'.toNat

/-- A number with one more digit. -/
def extend (number : Nat) (c : Char) : Nat :=
  10 * number + digitValue c

/-- The number that a list of digits writes. -/
def value (digits : List Char) : Nat :=
  digits.foldl extend 0

/-- The number that digits behind a `number` write, if it is below `limit`. -/
def valueBelow? (limit number : Nat) : List Char → Option Nat
  | [] => if number < limit then some number else none
  | c :: rest => if number < limit then valueBelow? limit (extend number c) rest else none

/-- A text without the plus sign it may start with. -/
def withoutPlus : List Char → List Char
  | '+' :: rest => rest
  | cs => cs

/-- The number below `limit` that a text writes. -/
def read? (limit : Nat) (cs : List Char) : Option Nat :=
  let digits := withoutPlus cs
  if digits ≠ [] ∧ digits.all Char.isDigit = true then valueBelow? limit 0 digits else none

/-- The digits of a number. -/
def write (number : Nat) : List Char :=
  Nat.toDigits 10 number

/-- The digits of a number, with zeros in front up to `width`. -/
def padded (width number : Nat) : List Char :=
  let digits := write number
  List.replicate (width - digits.length) '0' ++ digits

end ReadThrough.Text.Numeral
