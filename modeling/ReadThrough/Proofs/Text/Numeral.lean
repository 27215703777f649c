import Mathlib.Algebra.Ring.Nat
import ReadThrough.Text.Numeral

/-!
# Groups of digits

In a form with fixed places a number fills a group of digits, with zeros in front (`Fills`).
`padded` fills the group of every number that is small enough (`fills_padded`), and `ofGroup?`
reads back what fills a group and nothing else (`ofGroup?_eq_some_iff`).
-/

namespace ReadThrough.Text.Numeral

/-- A number fills a group of digits. -/
structure Fills (digits : List Char) (width number : Nat) : Prop where
  length : digits.length = width
  isDigit : ∀ c ∈ digits, c.isDigit = true
  value : value digits = number

/-- The number that fills a group. -/
def ofGroup? (digits : List Char) : Option Nat :=
  if digits.all Char.isDigit then some (value digits) else none

theorem ofGroup?_eq_some_iff {digits : List Char} {number : Nat} :
    ofGroup? digits = some number ↔ Fills digits digits.length number := by
  unfold ofGroup?
  split
  · next hall =>
    rw [Option.some.injEq]
    exact ⟨fun h => ⟨rfl, List.all_eq_true.1 hall, h⟩, Fills.value⟩
  · next hall => exact ⟨nofun, fun h => absurd (List.all_eq_true.2 h.isDigit) hall⟩

theorem value_write (number : Nat) : value (write number) = number :=
  Nat.ofDigitChars_toDigits (by decide) (by decide)

theorem value_replicate_append (count : Nat) (digits : List Char) :
    value (List.replicate count '0' ++ digits) = value digits := by
  induction count with
  | zero => rfl
  | succ count ih => exact ih

theorem isDigit_of_mem_padded {width number : Nat} {c : Char} (h : c ∈ padded width number) :
    c.isDigit = true := by
  rw [padded, List.mem_append] at h
  rcases h with h | h
  · rw [List.eq_of_mem_replicate h]
    rfl
  · exact Nat.isDigit_of_mem_toDigits (by decide) (by decide) h

/-- The digits of a small number with zeros in front are the group that it fills. -/
theorem fills_padded {width number : Nat} (hwidth : 0 < width) (h : number < 10 ^ width) :
    Fills (padded width number) width number where
  length := by
    have hlength : (write number).length ≤ width :=
      (Nat.length_toDigits_le_iff (by decide) hwidth).2 h
    rw [padded, List.length_append, List.length_replicate]
    omega
  isDigit _ hc := isDigit_of_mem_padded hc
  value := by rw [padded, value_replicate_append, value_write]

end ReadThrough.Text.Numeral
