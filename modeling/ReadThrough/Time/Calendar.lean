/-!
# Civil time

A point in time is a count of seconds since the start of 1970 in UTC, and nanoseconds. A leap
second is the last second of a minute with a billion nanoseconds more.

## Calendar

`Date.ofDays` gives the date of a day number in the proleptic Gregorian calendar. The count runs in
eras of 400 years that start on the first of March, so that the leap day comes last in its year.
-/

namespace ReadThrough

/-- A point in time. -/
structure Time where
  /-- Seconds since the start of 1970, UTC. -/
  seconds : Int
  /-- Nanoseconds; a billion and more in a leap second. -/
  nanos : Nat
  deriving Repr, DecidableEq

namespace Time

/-- A day of the calendar. -/
structure Date where
  year : Int
  /-- From 1 to 12. -/
  month : Nat
  /-- From 1 to 31. -/
  day : Nat
  deriving Repr, DecidableEq

/-- The days of an era. -/
def eraDays : Int := 146097

/-- The day number, from 0 in 1970, of the first day of the era of year 0. -/
def eraStart : Int := -719468

/-- The date of a day number. -/
def Date.ofDays (days : Int) : Date :=
  let shifted := days - eraStart
  let era := shifted.fdiv eraDays
  let dayOfEra := (shifted.fmod eraDays).toNat
  let yearOfEra := (dayOfEra - dayOfEra / 1460 + dayOfEra / 36524 - dayOfEra / 146096) / 365
  let dayOfYear := dayOfEra - (365 * yearOfEra + yearOfEra / 4 - yearOfEra / 100)
  let monthFromMarch := (5 * dayOfYear + 2) / 153
  let day := dayOfYear - (153 * monthFromMarch + 2) / 5 + 1
  let month := if monthFromMarch < 10 then monthFromMarch + 3 else monthFromMarch - 9
  let year := era * 400 + yearOfEra
  { year := if month ≤ 2 then year + 1 else year, month, day }

/-- The seconds of a day. -/
def daySeconds : Int := 86400

/-- The day number of a time. -/
def dayNumber (t : Time) : Int :=
  t.seconds.fdiv daySeconds

/-- The second of its day that a time falls in. -/
def secondOfDay (t : Time) : Nat :=
  (t.seconds.fmod daySeconds).toNat

/-- The date of a time. -/
def date (t : Time) : Date :=
  .ofDays t.dayNumber

/-- The day of the week, from 0 for Sunday. -/
def weekday (t : Time) : Nat :=
  ((t.dayNumber + 4).fmod 7).toNat

/-- The first and the last year of the calendar. -/
def firstYear : Int := -262143

/-- The last year of the calendar. -/
def lastYear : Int := 262142

/-- A billion nanoseconds. -/
def second : Nat := 1000000000

/-- A time of the calendar; a leap second stands only at the end of a minute. -/
def ofParts? (seconds : Int) (nanos : Nat) : Option Time :=
  let t : Time := ⟨seconds, nanos⟩
  if firstYear ≤ t.date.year ∧ t.date.year ≤ lastYear ∧
      (nanos < second ∨ (nanos < 2 * second ∧ seconds.fmod 60 = 59)) then some t
  else none

end Time

end ReadThrough
