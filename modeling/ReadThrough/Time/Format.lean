import ReadThrough.Text.Numeral
import ReadThrough.Time.Calendar

/-!
# Dates in text

`httpDate` is the form of the Last-Modified field: weekday, day, month name, year, time of day,
GMT. `rfc3339` is the form in service answers.

A year has four digits; a later one is marked by a plus sign, one before year 0 by a minus sign. A
leap second is written as second 60.
-/

namespace ReadThrough.Time

open Text

/-- The short names of the days, from Sunday. -/
def weekdayNames : List String :=
  ["Sun", "Mon", "Tue", "Wed", "Thu", "Fri", "Sat"]

/-- The short names of the months. -/
def monthNames : List String :=
  ["Jan", "Feb", "Mar", "Apr", "May", "Jun", "Jul", "Aug", "Sep", "Oct", "Nov", "Dec"]

/-- The text of a year. -/
def yearText (year : Int) : List Char :=
  if year < 0 then '-' :: Numeral.padded 4 year.natAbs
  else if 9999 < year then '+' :: Numeral.padded 4 year.natAbs
  else Numeral.padded 4 year.natAbs

/-- Hours, minutes and seconds, with colons between. -/
def clockText (t : Time) : List Char :=
  let s := t.secondOfDay
  Numeral.padded 2 (s / 3600) ++ ':' :: Numeral.padded 2 (s / 60 % 60) ++
    ':' :: Numeral.padded 2 (s % 60 + t.nanos / second)

/-- The date of an HTTP header field. -/
def httpDate (t : Time) : String :=
  let date := t.date
  String.ofList ((weekdayNames.getD t.weekday "").toList ++ ", ".toList ++
    Numeral.padded 2 date.day ++ ' ' :: (monthNames.getD (date.month - 1) "").toList ++
    ' ' :: yearText date.year ++ ' ' :: clockText t ++ " GMT".toList)

/-- Date and time with the offset of UTC, and nanoseconds if there are any. -/
def rfc3339 (t : Time) : String :=
  let date := t.date
  let nanos := t.nanos % second
  let fraction := if nanos = 0 then [] else '.' :: Numeral.padded 9 nanos
  String.ofList (yearText date.year ++ '-' :: Numeral.padded 2 date.month ++
    '-' :: Numeral.padded 2 date.day ++ 'T' :: clockText t ++ fraction ++ "+00:00".toList)

end ReadThrough.Time
