import Mathlib.Tactic.IntervalCases
import ReadThrough.Time.Calendar

/-!
# The rules of the calendar

The calendar is given by its rules: the lengths of the months, the date after a date, and one day
whose date and day of the week are known, Thursday, the first of January 1970. `Falls` goes from
there to the day after and to the day before, as far as one likes.

* `Date.number_next` — the day after has the next number, where days are counted by leap years
* `Falls.counted`, `exists_falls` — every day falls on a date, and that date has its number
-/

namespace ReadThrough.Time

/-! ## Months and days -/

/-- Every fourth year is a leap year, but of the years that end a century only every fourth. -/
def IsLeap (year : Int) : Prop :=
  4 ∣ year ∧ (100 ∣ year → 400 ∣ year)

instance (year : Int) : Decidable (IsLeap year) :=
  inferInstanceAs (Decidable (_ ∧ _))

/-- The days of a month; what is no month has none. -/
def monthLength (year : Int) : Nat → Nat
  | 1 | 3 | 5 | 7 | 8 | 10 | 12 => 31
  | 4 | 6 | 9 | 11 => 30
  | 2 => if IsLeap year then 29 else 28
  | _ => 0

namespace Date

/-- The date is one of the calendar. -/
def IsValid (date : Date) : Prop :=
  1 ≤ date.day ∧ date.day ≤ monthLength date.year date.month

instance (date : Date) : Decidable date.IsValid :=
  inferInstanceAs (Decidable (_ ∧ _))

/-- The date of the day after. -/
def next (date : Date) : Date :=
  if date.day < monthLength date.year date.month then { date with day := date.day + 1 }
  else if date.month < 12 then { date with month := date.month + 1, day := 1 }
  else ⟨date.year + 1, 1, 1⟩

end Date

/-- The day of the week after, from 0 for Sunday. -/
def nextWeekday (weekday : Nat) : Nat :=
  (weekday + 1) % 7

/-- A day falls on a date and a day of the week. The days are numbered from 0 for the first of
January 1970, and before it downwards. -/
inductive Falls : Int → Date → Nat → Prop where
  | first : Falls 0 ⟨1970, 1, 1⟩ 4
  | after {day : Int} {date : Date} {weekday : Nat} (h : Falls day date weekday) :
    Falls (day + 1) date.next (nextWeekday weekday)
  | before {day : Int} {date : Date} {weekday : Nat} (hvalid : date.IsValid) (hweek : weekday < 7)
    (h : Falls (day + 1) date.next (nextWeekday weekday)) : Falls day date weekday

section month

variable {year : Int} {month : Nat}

theorem month_of_monthLength_pos (h : 0 < monthLength year month) : 1 ≤ month ∧ month ≤ 12 := by
  unfold monthLength at h
  split at h <;> omega

theorem monthLength_bounds (hlow : 1 ≤ month) (hhigh : month ≤ 12) :
    28 ≤ monthLength year month ∧ monthLength year month ≤ 31 := by
  by_cases hshort : month = 2
  · subst hshort
    change 28 ≤ (if IsLeap year then 29 else 28) ∧ (if IsLeap year then 29 else 28) ≤ 31
    split <;> decide
  · interval_cases month <;> simp [monthLength] at hshort ⊢

theorem monthLength_pos (hlow : 1 ≤ month) (hhigh : month ≤ 12) : 0 < monthLength year month :=
  Nat.lt_of_lt_of_le (by decide) (monthLength_bounds hlow hhigh).1

end month

namespace Date

variable {date : Date}

theorem IsValid.month_bounds (h : date.IsValid) : 1 ≤ date.month ∧ date.month ≤ 12 :=
  month_of_monthLength_pos (Nat.lt_of_lt_of_le h.1 h.2)

theorem IsValid.next (h : date.IsValid) : date.next.IsValid := by
  have hmonth := h.month_bounds
  unfold Date.next
  split
  · next hday => exact ⟨Nat.succ_pos _, hday⟩
  · split
    · next hlater => exact ⟨Nat.le_refl 1, monthLength_pos (Nat.succ_pos _) hlater⟩
    · have hpos : 0 < monthLength (date.year + 1) 1 := monthLength_pos (by decide) (by decide)
      exact ⟨Nat.le_refl 1, hpos⟩

/-- Every date is the one after some date. -/
theorem IsValid.exists_next_eq (h : date.IsValid) :
    ∃ earlier : Date, earlier.IsValid ∧ earlier.next = date := by
  obtain ⟨year, month, day⟩ := date
  obtain ⟨hlow, hhigh⟩ := h.month_bounds
  obtain ⟨hfirst, hlast⟩ := h
  dsimp only at hlow hhigh hfirst hlast
  by_cases hday : day = 1
  · subst hday
    by_cases hmonth : month = 1
    · subst hmonth
      have hpos : 0 < monthLength (year - 1) 12 := monthLength_pos (by decide) (by decide)
      refine ⟨⟨year - 1, 12, monthLength (year - 1) 12⟩, ⟨hpos, Nat.le_refl _⟩, ?_⟩
      simp [Date.next]
    · have hpos : 0 < monthLength year (month - 1) := monthLength_pos (by omega) (by omega)
      refine ⟨⟨year, month - 1, monthLength year (month - 1)⟩, ⟨hpos, Nat.le_refl _⟩, ?_⟩
      have hearlier : month - 1 < 12 := by omega
      simp [Date.next, hearlier, Nat.sub_add_cancel hlow]
  · have hearlier : day - 1 < monthLength year month := by omega
    have hpos : 1 ≤ day - 1 := by omega
    refine ⟨⟨year, month, day - 1⟩, ⟨hpos, Nat.le_of_lt hearlier⟩, ?_⟩
    simp [Date.next, hearlier, Nat.sub_add_cancel hfirst]

end Date

/-! ## Counting days -/

/-- The days of the years from 1 up to a year, which is not counted; a fourth of them have a leap
day, less a hundredth, and a four-hundredth has it after all. -/
def daysBeforeYear (year : Int) : Int :=
  365 * (year - 1) + (year - 1) / 4 - (year - 1) / 100 + (year - 1) / 400

/-- The days of the months up to a month, which is not counted. -/
def daysBeforeMonth (year : Int) : Nat → Nat
  | 0 => 0
  | month + 1 => daysBeforeMonth year month + monthLength year month

/-- The number of the day with a date, by counting. -/
def Date.number (date : Date) : Int :=
  daysBeforeYear date.year - daysBeforeYear 1970 + daysBeforeMonth date.year date.month +
    (date.day - 1)

theorem daysBeforeYear_add_one (year : Int) :
    daysBeforeYear (year + 1) = daysBeforeYear year + daysBeforeMonth year 13 := by
  by_cases hleap : IsLeap year
  all_goals
    simp only [daysBeforeYear, daysBeforeMonth, monthLength, hleap, if_true, if_false]
    unfold IsLeap at hleap
    omega

theorem Date.number_next {date : Date} (h : date.IsValid) : date.next.number = date.number + 1 := by
  obtain ⟨hlow, hhigh⟩ := h.month_bounds
  obtain ⟨hfirst, hlast⟩ := h
  unfold Date.next
  -- within a month, at the end of a month, and at the end of a year
  split
  · simp only [number]
    omega
  · have hday : date.day = monthLength date.year date.month := by omega
    split
    · simp only [number, daysBeforeMonth, hday]
      omega
    · have hmonth : date.month = 12 := by omega
      have hyear : daysBeforeMonth date.year 13 =
          daysBeforeMonth date.year date.month + date.day := by
        rw [hday, hmonth]
        rfl
      have hnone : daysBeforeMonth (date.year + 1) 1 = 0 := rfl
      simp only [number, hnone, daysBeforeYear_add_one, hyear]
      omega

/-! ## The days in their order -/

/-- The day of the week of a day number. -/
def weekdayOf (day : Int) : Nat :=
  ((day + 4) % 7).toNat

theorem weekdayOf_add_one (day : Int) : weekdayOf (day + 1) = nextWeekday (weekdayOf day) := by
  unfold weekdayOf nextWeekday
  omega

theorem weekdayOf_lt (day : Int) : weekdayOf day < 7 := by
  unfold weekdayOf
  omega

section falls

variable {day : Int} {date : Date} {weekday : Nat}

/-- A day falls on the date that has its number. -/
theorem Falls.counted (h : Falls day date weekday) :
    date.IsValid ∧ date.number = day ∧ weekday = weekdayOf day := by
  induction h with
  | first => decide
  | after h ih =>
    obtain ⟨hvalid, hnumber, hweek⟩ := ih
    exact ⟨hvalid.next, by rw [Date.number_next hvalid, hnumber], by rw [weekdayOf_add_one, hweek]⟩
  | before hvalid hweek h ih =>
    obtain ⟨-, hnumber, hnext⟩ := ih
    rw [Date.number_next hvalid] at hnumber
    refine ⟨hvalid, by omega, ?_⟩
    unfold nextWeekday weekdayOf at *
    omega

/-- Every day falls on a date. -/
theorem exists_falls (day : Int) : ∃ date, Falls day date (weekdayOf day) := by
  induction day using Int.induction_on with
  | zero => exact ⟨_, .first⟩
  | succ n ih =>
    obtain ⟨date, h⟩ := ih
    exact ⟨date.next, by rw [weekdayOf_add_one]; exact .after h⟩
  | pred n ih =>
    obtain ⟨date, h⟩ := ih
    obtain ⟨earlier, hvalid, rfl⟩ := h.counted.1.exists_next_eq
    refine ⟨earlier, .before hvalid (weekdayOf_lt _) ?_⟩
    rw [← weekdayOf_add_one, Int.sub_add_cancel]
    exact h

end falls

/-! ## Years -/

theorem daysBeforeYear_le {year later : Int} (h : year ≤ later) :
    daysBeforeYear year ≤ daysBeforeYear later := by
  unfold daysBeforeYear
  omega

theorem daysBeforeMonth_mono (year : Int) : Monotone (daysBeforeMonth year) :=
  monotone_nat_of_le_succ fun _ => Nat.le_add_right _ _

/-- The dates of a year and of later ones come from the first day of the year on. -/
theorem Date.number_first_le_iff {date : Date} (h : date.IsValid) (year : Int) :
    (Date.mk year 1 1).number ≤ date.number ↔ year ≤ date.year := by
  obtain ⟨hlow, hhigh⟩ := h.month_bounds
  obtain ⟨hfirst, hlast⟩ := h
  have hfull : daysBeforeMonth date.year date.month + monthLength date.year date.month ≤
      daysBeforeMonth date.year 13 :=
    daysBeforeMonth_mono date.year (Nat.succ_le_succ hhigh)
  have hnone : daysBeforeMonth year 1 = 0 := rfl
  simp only [number, hnone]
  constructor
  · intro hle
    by_contra hearlier
    have hyears : daysBeforeYear (date.year + 1) ≤ daysBeforeYear year :=
      daysBeforeYear_le (by omega)
    rw [daysBeforeYear_add_one] at hyears
    omega
  · intro hle
    have hyears := daysBeforeYear_le hle
    omega

/-- The time stands in one of the years from `first` to `last`. -/
def InYears (first last : Int) (t : Time) : Prop :=
  86400 * (Date.mk first 1 1).number ≤ t.seconds ∧
    t.seconds < 86400 * (Date.mk (last + 1) 1 1).number

end ReadThrough.Time
