import ReadThrough.Text.Fold
import ReadThrough.Text.Numeral

/-!
# Decimal fractions

A decimal fraction has a sign, digits with a point among or beside them, and an exponent, or is one
of the words for infinity and for what is no number. `read?` takes such a text apart.

The readers of weights ask only whether the value is zero in single precision. A value rounds to
zero if it is at most half the least positive one, 2⁻¹⁴⁹; the half itself goes to the even
neighbour, which is zero (`Decimal.vanishes`). Magnitudes are compared by the place of the first
digit and then digit by digit, so that no digits are too many.

An exponent's digits count until it has passed 65535; more of them change nothing, the value being
zero or infinite already.
-/

namespace ReadThrough.Text

/-- The magnitude `0.digits * 10 ^ point`; the first digit is not zero. -/
structure Decimal where
  digits : List Char
  point : Int
  deriving Repr, DecidableEq

/-- What the text of a fraction stands for, its sign apart. -/
inductive Magnitude where
  | finite (value : Decimal)
  | infinite
  | notNumber
  deriving Repr, DecidableEq

namespace Decimal

/-! ## Comparing -/

/-- The magnitude of a whole number, given in digits, times a power of ten. -/
def ofDigits (digits : List Char) (exponent : Int) : Decimal :=
  let significant := digits.dropWhile (· == '0')
  ⟨significant, significant.length + exponent⟩

/-- True if one list of digits behind the point is at most another. -/
def digitsAtMost : List Char → List Char → Bool
  | [], _ => true
  | digits, [] => digits.all (· == '0')
  | a :: digits, b :: others =>
    if a = b then digitsAtMost digits others else Numeral.digitValue a < Numeral.digitValue b

/-- True if a magnitude is at most another one, which is not zero. -/
def atMost (d other : Decimal) : Bool :=
  d.digits.isEmpty || d.point < other.point ||
    (d.point == other.point && digitsAtMost d.digits other.digits)

/-- Half the least positive number in single precision: 2⁻¹⁵⁰, which is 5¹⁵⁰ times 10⁻¹⁵⁰. -/
def halfOfLeast : Decimal :=
  ofDigits (Numeral.write (Nat.pow 5 150)) (-150)

/-- The magnitude is zero when rounded to single precision, ties to even. -/
def vanishes (d : Decimal) : Bool :=
  d.atMost halfOfLeast

/-! ## Reading -/

/-- Where the digits of an exponent stop to count. -/
def exponentLimit : Nat := 65536

/-- The value of an exponent's digits. -/
def exponentValue (digits : List Char) : Nat :=
  digits.foldl
    (fun number c => if number < exponentLimit then Numeral.extend number c else number) 0

/-- The value of what follows the digits: nothing, or an exponent with a sign it may have. -/
def exponentOf? : List Char → Option Int
  | [] => some 0
  | mark :: rest =>
    if mark = 'e' ∨ mark = 'E' then
      let (negative, digits) :=
        match rest with
        | '-' :: digits => (true, digits)
        | '+' :: digits => (false, digits)
        | digits => (false, digits)
      if digits ≠ [] ∧ digits.all Char.isDigit = true then
        let size : Int := exponentValue digits
        some (if negative then -size else size)
      else none
    else none

/-- Reads digits, a point and digits, and an exponent. -/
def readFinite? (cs : List Char) : Option Decimal :=
  let whole := cs.takeWhile Char.isDigit
  let (part, rest) :=
    match cs.dropWhile Char.isDigit with
    | '.' :: after => (after.takeWhile Char.isDigit, after.dropWhile Char.isDigit)
    | rest => ([], rest)
  if whole = [] ∧ part = [] then none
  else (exponentOf? rest).map fun exponent => ofDigits (whole ++ part) (exponent - part.length)

/-- A text without the sign it may start with. -/
def withoutSign : List Char → List Char
  | '+' :: rest => rest
  | '-' :: rest => rest
  | cs => cs

/-- Reads a decimal fraction. -/
def read? (cs : List Char) : Option Magnitude :=
  let unsigned := withoutSign cs
  match readFinite? unsigned with
  | some value => some (.finite value)
  | none =>
    if sameFolded unsigned "inf".toList ∨ sameFolded unsigned "infinity".toList then some .infinite
    else if sameFolded unsigned "nan".toList then some .notNumber
    else none

/-- True if a text writes a number that is zero in single precision. -/
def writesZero (cs : List Char) : Bool :=
  match read? cs with
  | some (.finite value) => value.vanishes
  | _ => false

end Decimal

end ReadThrough.Text
