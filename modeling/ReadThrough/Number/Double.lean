/-!
# Double precision

Ratios of counts are shown in double precision. A `Double` is kept by its 64 bits. `ofRatio` rounds
a positive quotient of whole numbers to 53 significant bits, a half to the even neighbour;
`roundNat` does so for a whole number and gives a whole number again.

Counts below 2⁶⁴ and their quotients lie well within the range of normal numbers, so the exponent
never runs out.
-/

namespace ReadThrough

/-- A number in double precision, by its bits. -/
structure Double where
  bits : UInt64
  deriving Repr, DecidableEq

namespace Double

/-- The significant bits of a double. -/
def precision : Nat := 53

/-- The quotient rounded to the nearest whole number, a half to the even one. -/
def roundDiv (num den : Nat) : Nat :=
  let quotient := num / den
  let twice := 2 * (num % den)
  if den < twice ∨ (twice = den ∧ quotient % 2 = 1) then quotient + 1 else quotient

/-- The exponent of the power of two at or below `num / den`. -/
def exponentOf (num den : Nat) : Int :=
  let guess : Int := (Nat.log2 num : Int) - Nat.log2 den
  let reached :=
    if 0 ≤ guess then den <<< guess.toNat ≤ num else den ≤ num <<< (-guess).toNat
  if reached then guess else guess - 1

/-- The significand of `num / den` with 53 bits, given the quotient's exponent. -/
def significand (num den : Nat) (exponent : Int) : Nat :=
  let shift : Int := precision - 1 - exponent
  if 0 ≤ shift then roundDiv (num <<< shift.toNat) den
  else roundDiv num (den <<< (-shift).toNat)

/-- True for the numbers, false for the infinities and what is no number. -/
def isFinite (x : Double) : Bool :=
  (x.bits >>> 52) % 2048 != 2047

/-- Zero. -/
def zero : Double := ⟨0⟩

/-- The double nearest to `num / den`; zero if either is. -/
def ofRatio (num den : Nat) : Double :=
  if num = 0 ∨ den = 0 then zero
  else
    let exponent := exponentOf num den
    -- A significand that has rounded up to 2⁵³ carries into the exponent's bits.
    ⟨UInt64.ofNat (((exponent + 1022).toNat <<< 52) + significand num den exponent)⟩

/-- The double nearest to a whole number. -/
def ofNat (number : Nat) : Double :=
  ofRatio number 1

/-- A whole number rounded to 53 significant bits. -/
def roundNat (number : Nat) : Nat :=
  let excess := Nat.log2 number + 1 - precision
  roundDiv number (1 <<< excess) <<< excess

/-- The quotient of two counts, each first rounded to a double. -/
def quotient (num den : Nat) : Double :=
  ofRatio (roundNat num) (roundNat den)

end Double

end ReadThrough
