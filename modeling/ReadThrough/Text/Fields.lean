/-!
# Parts of a text

`List.splitOn` divides a text at every separator. `cut?` divides it at the first one only, and
fails where there is none; `cut?_append` says that a part without the separator is found whatever
follows. `afterStart?` takes a text off the front of another.
-/

namespace ReadThrough.Text

/-- The parts before and after the first `separator`. -/
def cut? (separator : Char) (cs : List Char) : Option (List Char × List Char) :=
  match cs.dropWhile (· ≠ separator) with
  | [] => none
  | _ :: after => some (cs.takeWhile (· ≠ separator), after)

/-- What follows `start` in a text that begins with it. -/
def afterStart? : (start : List Char) → List Char → Option (List Char)
  | [], cs => some cs
  | _ :: _, [] => none
  | s :: start, c :: cs => if s = c then afterStart? start cs else none

theorem cut?_append {separator : Char} {before : List Char} (h : separator ∉ before)
    (after : List Char) : cut? separator (before ++ separator :: after) = some (before, after) := by
  have hbefore : ∀ c ∈ before, (decide (c ≠ separator)) = true := fun c hc =>
    decide_eq_true fun heq => h (heq ▸ hc)
  rw [cut?, List.dropWhile_append_of_pos hbefore, List.takeWhile_append_of_pos hbefore]
  simp

theorem afterStart?_eq_some_iff {start cs rest : List Char} :
    afterStart? start cs = some rest ↔ cs = start ++ rest := by
  induction start generalizing cs with
  | nil => simp [afterStart?]
  | cons s start ih =>
    cases cs with
    | nil => simp [afterStart?]
    | cons c cs =>
      by_cases h : s = c
      · simp [afterStart?, h, ih]
      · simp [afterStart?, h, Ne.symm h]

end ReadThrough.Text
