import Mathlib.Data.List.TakeWhile
import ReadThrough.Text.Decimal

/-!
# Weights

A weight is a number from zero to one, written with three decimals at most (`WritesWeight`). The
reader of decimal fractions asks whether such a text is zero in single precision, and no weight but
zero itself is that small (`writesZero_iff`).
-/

namespace ReadThrough.Text

/-- The number of thousandths that a digit and its decimals write. -/
def thousandths (first : Char) (decimals : List Char) : Nat :=
  Numeral.value (first :: (decimals ++ List.replicate (3 - decimals.length) '0'))

/-- A text writes a weight, given in thousandths. -/
inductive WritesWeight : List Char → Nat → Prop where
  | bare {first : Char} (hfirst : first = '0' ∨ first = '1') :
    WritesWeight [first] (thousandths first [])
  | pointed {first : Char} {decimals : List Char}
    (hfirst : first = '0' ∨ first = '1' ∧ ∀ c ∈ decimals, c = '0')
    (hdigits : ∀ c ∈ decimals, c.isDigit = true) (hlength : decimals.length ≤ 3) :
    WritesWeight (first :: '.' :: decimals) (thousandths first decimals)

/-! ## Zero -/

namespace Numeral

/-- Only the digit zero has the value zero. -/
theorem digitValue_eq_zero_iff {c : Char} (h : c.isDigit = true) : digitValue c = 0 ↔ c = '0' := by
  simp only [Char.isDigit, Bool.and_eq_true, decide_eq_true_eq] at h
  have hlow : 48 ≤ c.toNat := h.1
  constructor
  · intro hzero
    have hvalue : c.toNat - 48 = 0 := hzero
    exact Char.toNat_inj.1 (Nat.le_antisymm (Nat.sub_eq_zero_iff_le.1 hvalue) hlow)
  · rintro rfl
    rfl

theorem foldl_extend_eq_zero_iff {number : Nat} {digits : List Char}
    (h : ∀ c ∈ digits, c.isDigit = true) :
    digits.foldl extend number = 0 ↔ number = 0 ∧ ∀ c ∈ digits, c = '0' := by
  induction digits generalizing number with
  | nil => simp
  | cons c rest ih =>
    obtain ⟨hc, hrest⟩ := List.forall_mem_cons.1 h
    have hextend : extend number c = 0 ↔ number = 0 ∧ c = '0' := by
      rw [← digitValue_eq_zero_iff hc, extend]
      omega
    rw [List.foldl_cons, ih hrest, hextend, List.forall_mem_cons, and_assoc]

/-- A numeral writes zero if all its digits are zeros. -/
theorem value_eq_zero_iff {digits : List Char} (h : ∀ c ∈ digits, c.isDigit = true) :
    value digits = 0 ↔ ∀ c ∈ digits, c = '0' := by
  rw [value, foldl_extend_eq_zero_iff h]
  exact and_iff_right rfl

end Numeral

theorem isDigit_of_first {first : Char} (h : first = '0' ∨ first = '1') : first.isDigit = true := by
  rcases h with rfl | rfl <;> decide

theorem thousandths_eq_zero_iff {first : Char} {decimals : List Char}
    (hfirst : first = '0' ∨ first = '1') (hdigits : ∀ c ∈ decimals, c.isDigit = true) :
    thousandths first decimals = 0 ↔ ∀ c ∈ first :: decimals, c = '0' := by
  have hall : ∀ c ∈ first :: (decimals ++ List.replicate (3 - decimals.length) '0'),
      c.isDigit = true := by
    intro c hc
    rw [List.mem_cons, List.mem_append, List.mem_replicate] at hc
    rcases hc with rfl | hc | ⟨-, rfl⟩
    · exact isDigit_of_first hfirst
    · exact hdigits c hc
    · decide
  -- the zeros behind the decimals change nothing
  rw [thousandths, Numeral.value_eq_zero_iff hall, List.forall_mem_cons, List.forall_mem_cons,
    List.forall_mem_append]
  refine and_congr_right fun _ => and_iff_left fun c hc => ?_
  exact (List.mem_replicate.1 hc).2

/-! ## Small magnitudes -/

namespace Decimal

/-- A number whose first digit stands less than 45 places behind the point does not vanish. -/
theorem vanishes_ofDigits_iff {digits : List Char} {exponent : Int} (h : -45 < exponent) :
    (ofDigits digits exponent).vanishes = true ↔ ∀ c ∈ digits, c = '0' := by
  have hhalf : halfOfLeast.point = -45 := by decide +kernel
  have hzeros : digits.dropWhile (· == '0') = [] ↔ ∀ c ∈ digits, c = '0' := by
    simp [List.dropWhile_eq_nil_iff]
  rw [← hzeros, vanishes, atMost, ofDigits, hhalf]
  cases hsignificant : digits.dropWhile (· == '0') with
  | nil => simp
  | cons c rest =>
    have hpoint : -45 < ((c :: rest).length : Int) + exponent := by
      rw [List.length_cons]
      omega
    have hbefore : ¬ ((c :: rest).length : Int) + exponent < -45 := by omega
    have hsame : ((c :: rest).length : Int) + exponent ≠ -45 := by omega
    simp only [hbefore, beq_false_of_ne hsame, List.isEmpty_cons, decide_false, Bool.false_and,
      Bool.or_false, Bool.false_eq_true, reduceCtorEq]

/-- What stands for a digit with its decimals. -/
theorem read?_pointed {first : Char} {decimals : List Char} (hfirst : first = '0' ∨ first = '1')
    (hdigits : ∀ c ∈ decimals, c.isDigit = true) :
    read? (first :: '.' :: decimals) =
      some (.finite (ofDigits (first :: decimals) (-decimals.length))) := by
  have hsign : withoutSign (first :: '.' :: decimals) = first :: '.' :: decimals := by
    rcases hfirst with rfl | rfl <;> rfl
  have hdigit := isDigit_of_first hfirst
  have htaken : decimals.takeWhile Char.isDigit = decimals := List.takeWhile_eq_self_iff.2 hdigits
  have hleft : decimals.dropWhile Char.isDigit = [] := List.dropWhile_eq_nil_iff.2 hdigits
  have hpoint : Char.isDigit '.' = false := by decide
  have hfinite : readFinite? (first :: '.' :: decimals) =
      some (ofDigits (first :: decimals) (-decimals.length)) := by
    simp [readFinite?, hdigit, hpoint, htaken, hleft, exponentOf?]
  rw [read?, hsign, hfinite]

/-- The reader of weights takes a weight for zero if it is zero. -/
theorem writesZero_iff {text : List Char} {weight : Nat} (h : WritesWeight text weight) :
    writesZero text = true ↔ weight = 0 := by
  cases h with
  | bare hfirst => rcases hfirst with rfl | rfl <;> decide +kernel
  | @pointed first decimals hfirst hdigits hlength =>
    have hfirst' : first = '0' ∨ first = '1' := hfirst.imp id And.left
    rw [writesZero, read?_pointed hfirst' hdigits, thousandths_eq_zero_iff hfirst' hdigits]
    exact vanishes_ofDigits_iff (by omega)

end Decimal

end ReadThrough.Text
