import Mathlib.Data.List.Basic
import ReadThrough.Proofs.Text.Numeral
import ReadThrough.Proofs.Time.Eras
import ReadThrough.Time.Format

/-!
# Dates of header fields

A header field tells a time in a form with fixed places (`Fixdate.Writes`): the day of the week, the
date and the time of day in UTC. What such a text says denotes at most one second of the calendar
(`Fixdate.Denotes`).

* `readHttpDate?_eq_some_iff` — reading takes the texts that have the form and denote a second
* `writes_httpDate` — what is written of a time has the form, in years of four digits
* `readHttpDate?_httpDate`, `httpDate_eq_iff` — it is read back as the second of the time, and
  stands for no other
-/

namespace ReadThrough.Time

open Text Numeral

/-- What a date of a header field says. -/
structure Fixdate where
  /-- From 0 for Sunday. -/
  weekday : Nat
  date : Date
  hour : Nat
  minute : Nat
  second : Nat
  deriving DecidableEq

/-! ## The form -/

/-- The day of the week of a name. -/
def weekdayOfName? : List Char → Option Nat
  | ['S', 'u', 'n'] => some 0
  | ['M', 'o', 'n'] => some 1
  | ['T', 'u', 'e'] => some 2
  | ['W', 'e', 'd'] => some 3
  | ['T', 'h', 'u'] => some 4
  | ['F', 'r', 'i'] => some 5
  | ['S', 'a', 't'] => some 6
  | _ => none

/-- The month of a name. -/
def monthOfName? : List Char → Option Nat
  | ['J', 'a', 'n'] => some 1
  | ['F', 'e', 'b'] => some 2
  | ['M', 'a', 'r'] => some 3
  | ['A', 'p', 'r'] => some 4
  | ['M', 'a', 'y'] => some 5
  | ['J', 'u', 'n'] => some 6
  | ['J', 'u', 'l'] => some 7
  | ['A', 'u', 'g'] => some 8
  | ['S', 'e', 'p'] => some 9
  | ['O', 'c', 't'] => some 10
  | ['N', 'o', 'v'] => some 11
  | ['D', 'e', 'c'] => some 12
  | _ => none

theorem length_of_weekdayOfName? {name : List Char} {weekday : Nat}
    (h : weekdayOfName? name = some weekday) : name.length = 3 := by
  unfold weekdayOfName? at h
  split at h
  case h_8 => cases h
  all_goals rfl

theorem length_of_monthOfName? {name : List Char} {month : Nat}
    (h : monthOfName? name = some month) : name.length = 3 := by
  unfold monthOfName? at h
  split at h
  case h_13 => cases h
  all_goals rfl

namespace Fixdate

/-- A text says what a fixed date says: its day of the week and its month by their names, the day,
the hour, the minute and the second in two digits, the year in four. -/
inductive Writes : List Char → Fixdate → Prop where
  | mk {weekday day month year hour minute second : List Char} {w d m y h n s : Nat}
    (hweekday : weekdayOfName? weekday = some w) (hday : Fills day 2 d)
    (hmonth : monthOfName? month = some m) (hyear : Fills year 4 y) (hhour : Fills hour 2 h)
    (hminute : Fills minute 2 n) (hsecond : Fills second 2 s) :
    Writes (weekday ++ ", ".toList ++ day ++ ' ' :: month ++ ' ' :: year ++ ' ' :: hour ++
      ':' :: minute ++ ':' :: second ++ " GMT".toList) ⟨w, ⟨y, m, d⟩, h, n, s⟩

/-- What a text says that has the form. -/
def read? : List Char → Option Fixdate
  | [w₁, w₂, w₃, ',', ' ', d₁, d₂, ' ', m₁, m₂, m₃, ' ', y₁, y₂, y₃, y₄, ' ', h₁, h₂, ':', n₁, n₂,
      ':', s₁, s₂, ' ', 'G', 'M', 'T'] => do
    let weekday ← weekdayOfName? [w₁, w₂, w₃]
    let day ← ofGroup? [d₁, d₂]
    let month ← monthOfName? [m₁, m₂, m₃]
    let year ← ofGroup? [y₁, y₂, y₃, y₄]
    let hour ← ofGroup? [h₁, h₂]
    let minute ← ofGroup? [n₁, n₂]
    let second ← ofGroup? [s₁, s₂]
    return ⟨weekday, ⟨year, month, day⟩, hour, minute, second⟩
  | _ => none

theorem writes_of_read? {text : List Char} {f : Fixdate} (h : read? text = some f) :
    Writes text f := by
  unfold read? at h
  split at h
  · simp only [Option.bind_eq_bind, Option.bind_eq_some_iff, ofGroup?_eq_some_iff, Option.pure_def,
      Option.some.injEq] at h
    obtain ⟨w, hw, d, hd, m, hm, y, hy, h, hh, n, hn, s, hs, rfl⟩ := h
    exact .mk hw hd hm hy hh hn hs
  · cases h

theorem read?_of_writes {text : List Char} {f : Fixdate} (h : Writes text f) :
    read? text = some f := by
  obtain ⟨hw, hd, hm, hy, hh, hn, hs⟩ := h
  -- once the length of each part is known, the text is one for the first pattern of the reader
  obtain ⟨w₁, w₂, w₃, rfl⟩ := List.length_eq_three.1 (length_of_weekdayOfName? hw)
  obtain ⟨d₁, d₂, rfl⟩ := List.length_eq_two.1 hd.length
  obtain ⟨m₁, m₂, m₃, rfl⟩ := List.length_eq_three.1 (length_of_monthOfName? hm)
  obtain ⟨y₁, y₂, y₃, y₄, rfl⟩ := List.length_eq_four.1 hy.length
  obtain ⟨h₁, h₂, rfl⟩ := List.length_eq_two.1 hh.length
  obtain ⟨n₁, n₂, rfl⟩ := List.length_eq_two.1 hn.length
  obtain ⟨s₁, s₂, rfl⟩ := List.length_eq_two.1 hs.length
  have hday := ofGroup?_eq_some_iff.2 hd
  have hyear := ofGroup?_eq_some_iff.2 hy
  have hhour := ofGroup?_eq_some_iff.2 hh
  have hminute := ofGroup?_eq_some_iff.2 hn
  have hsecond := ofGroup?_eq_some_iff.2 hs
  simp [read?, hw, hday, hm, hyear, hhour, hminute, hsecond]

/-- Reading finds what a text says that has the form. -/
theorem read?_eq_some_iff {text : List Char} {f : Fixdate} : read? text = some f ↔ Writes text f :=
  ⟨writes_of_read?, read?_of_writes⟩

/-! ## The second -/

/-- The date stands in the calendar under its day of the week, and the second is one of that day. -/
def Denotes (f : Fixdate) (seconds : Int) : Prop :=
  ∃ day, Falls day f.date f.weekday ∧ f.hour < 24 ∧ f.minute < 60 ∧ f.second < 60 ∧
    seconds = 86400 * day + (3600 * f.hour + 60 * f.minute + f.second : Nat)

/-- The second that is denoted, if there is one. -/
def seconds? (f : Fixdate) : Option Int :=
  if f.date.IsValid ∧ f.weekday = weekdayOf f.date.number ∧ f.hour < 24 ∧ f.minute < 60 ∧
      f.second < 60 then
    some (86400 * f.date.number + (3600 * f.hour + 60 * f.minute + f.second : Nat))
  else none

theorem seconds?_eq_some_iff {f : Fixdate} {seconds : Int} :
    f.seconds? = some seconds ↔ f.Denotes seconds := by
  unfold seconds? Denotes
  simp only [falls_iff]
  split
  · next h =>
    obtain ⟨hvalid, hweek, hclock⟩ := h
    rw [Option.some.injEq]
    constructor
    · intro h
      exact ⟨f.date.number, ⟨hvalid, rfl, hweek⟩, hclock.1, hclock.2.1, hclock.2.2, h.symm⟩
    · rintro ⟨_, ⟨-, rfl, -⟩, -, -, -, h⟩
      exact h.symm
  · next h =>
    refine ⟨nofun, ?_⟩
    rintro ⟨_, ⟨hvalid, rfl, hweek⟩, hhour, hminute, hsecond, -⟩
    exact absurd ⟨hvalid, hweek, hhour, hminute, hsecond⟩ h

/-- What the date of a time says. -/
def ofTime (t : Time) : Fixdate where
  weekday := t.weekday
  date := t.date
  hour := t.secondOfDay / 3600
  minute := t.secondOfDay / 60 % 60
  second := t.secondOfDay % 60

/-- The date of a time denotes its second. -/
theorem denotes_ofTime (t : Time) : (ofTime t).Denotes t.seconds := by
  have hday := dayNumber_eq t
  have hsecond := secondOfDay_eq t
  refine ⟨t.dayNumber, falls_dayNumber t, ?_, ?_, ?_, ?_⟩
  all_goals
    dsimp only [ofTime]
    omega

end Fixdate

/-! ## What is written -/

/-- The time that the date of a header field tells. -/
def readHttpDate? (text : String) : Option Time :=
  ((Fixdate.read? text.toList).bind Fixdate.seconds?).map fun seconds => ⟨seconds, 0⟩

/-- Reading takes the texts that have the form and denote a second. -/
theorem readHttpDate?_eq_some_iff {text : String} {t : Time} :
    readHttpDate? text = some t ↔
      t.nanos = 0 ∧ ∃ f, Fixdate.Writes text.toList f ∧ f.Denotes t.seconds := by
  simp only [readHttpDate?, Option.map_eq_some_iff, Option.bind_eq_some_iff,
    Fixdate.read?_eq_some_iff, Fixdate.seconds?_eq_some_iff]
  constructor
  · rintro ⟨seconds, ⟨f, hwrites, hdenotes⟩, rfl⟩
    exact ⟨rfl, f, hwrites, hdenotes⟩
  · rintro ⟨hnanos, f, hwrites, hdenotes⟩
    exact ⟨t.seconds, ⟨f, hwrites, hdenotes⟩, by rw [← hnanos]⟩

section written

variable {t : Time}

theorem weekdayOfName?_weekdayNames :
    ∀ weekday < 7, weekdayOfName? (weekdayNames.getD weekday "").toList = some weekday := by
  decide +kernel

theorem monthOfName?_monthNames :
    ∀ month < 12, monthOfName? (monthNames.getD month "").toList = some (month + 1) := by
  decide +kernel

/-- A year of four digits fills its group. -/
theorem fills_yearText {year : Nat} (h : year ≤ 9999) : Fills (yearText year) 4 year := by
  rw [yearText, if_neg (by omega), if_neg (by omega), Int.natAbs_natCast]
  exact fills_padded (by decide) (by omega)

/-- Outside leap seconds the nanoseconds leave no trace. -/
theorem toList_httpDate (hnanos : t.nanos < 10 ^ 9) :
    (httpDate t).toList = (weekdayNames.getD t.weekday "").toList ++ ", ".toList ++
      padded 2 t.date.day ++ ' ' :: (monthNames.getD (t.date.month - 1) "").toList ++
      ' ' :: yearText t.date.year ++ ' ' :: padded 2 (t.secondOfDay / 3600) ++
      ':' :: padded 2 (t.secondOfDay / 60 % 60) ++ ':' :: padded 2 (t.secondOfDay % 60) ++
      " GMT".toList := by
  have hwhole : t.nanos / second = 0 := Nat.div_eq_of_lt hnanos
  simp only [httpDate, clockText, hwhole, Nat.add_zero, String.toList_ofList, List.append_assoc,
    List.cons_append]

/-- What is written of a time in years of four digits, but a leap second, has the form. -/
theorem writes_httpDate (hyears : t.InYears 0 9999) (hnanos : t.nanos < 10 ^ 9) :
    Fixdate.Writes (httpDate t).toList (.ofTime t) := by
  obtain ⟨hfirst, hlast⟩ := inYears_iff.1 hyears
  obtain ⟨year, hyear⟩ := Int.eq_ofNat_of_zero_le hfirst
  have hvalid : t.date.IsValid := (falls_dayNumber t).counted.1
  obtain ⟨hlow, hhigh⟩ := hvalid.month_bounds
  have hweek : t.weekday < 7 := by
    rw [weekday_eq]
    exact weekdayOf_lt _
  have hday : t.date.day < 10 ^ 2 :=
    Nat.lt_of_le_of_lt (Nat.le_trans hvalid.2 (monthLength_bounds hlow hhigh).2) (by decide)
  have hsecond : t.secondOfDay < 86400 := by
    rw [secondOfDay_eq]
    omega
  have hmonth := monthOfName?_monthNames (t.date.month - 1) (by omega)
  rw [Nat.sub_add_cancel hlow] at hmonth
  have hdate : t.date = ⟨year, t.date.month, t.date.day⟩ := by
    rw [← hyear]
  rw [toList_httpDate hnanos, hyear, Fixdate.ofTime, hdate]
  exact .mk (weekdayOfName?_weekdayNames _ hweek) (fills_padded (by decide) hday) hmonth
    (fills_yearText (by omega)) (fills_padded (by decide) (by omega))
    (fills_padded (by decide) (by omega)) (fills_padded (by decide) (by omega))

/-- The date of a time is read back as the second that the time stands in. -/
theorem readHttpDate?_httpDate (hyears : t.InYears 0 9999) (hnanos : t.nanos < 10 ^ 9) :
    readHttpDate? (httpDate t) = some ⟨t.seconds, 0⟩ :=
  readHttpDate?_eq_some_iff.2
    ⟨rfl, .ofTime t, writes_httpDate hyears hnanos, Fixdate.denotes_ofTime t⟩

/-- Two times have the same date if they stand in the same second, and only then. -/
theorem httpDate_eq_iff {u : Time} (htyears : t.InYears 0 9999) (htnanos : t.nanos < 10 ^ 9)
    (huyears : u.InYears 0 9999) (hunanos : u.nanos < 10 ^ 9) :
    httpDate u = httpDate t ↔ u.seconds = t.seconds := by
  constructor
  · intro hsame
    have hread := readHttpDate?_httpDate huyears hunanos
    rw [hsame, readHttpDate?_httpDate htyears htnanos, Option.some.injEq, Time.mk.injEq] at hread
    exact hread.1.symm
  · intro hsame
    refine String.toList_injective ?_
    rw [toList_httpDate hunanos, toList_httpDate htnanos]
    unfold weekday date dayNumber secondOfDay
    rw [hsame]

end written

end ReadThrough.Time
