import ReadThrough.Proofs.Time.Gregorian

/-!
# Dates by eras

The date of a day is computed from the era of 400 years that it stands in, by years that start in
March. It is the date that the rules of the calendar give.

* `Date.number_eq_march` — the count of days in years from March on
* `yearOfEra_eq` — the year of a day of an era
* `Date.ofDays_number` — the date that is computed of a number is the one that has the number
* `falls_iff`, `falls_ofDays` — a day falls on the one date with its number, and that is computed
* `inYears_iff` — the years that a time stands in are those of its date
-/

namespace ReadThrough.Time

/-! ## Years from March on -/

/-- The number of full months since March. -/
def monthFromMarch (month : Nat) : Nat :=
  if month ≤ 2 then month + 9 else month - 3

/-- The days from March up to a month, which is counted from March: 153 days in five months. -/
def daysFromMarch (month : Nat) : Nat :=
  (153 * month + 2) / 5

section month

variable (year : Int) {month : Nat}

/-- Without the leap day, which comes last, the months from March on are the same in every year. -/
theorem daysBeforeMonth_eq (hlow : 1 ≤ month) (hhigh : month ≤ 12) :
    daysBeforeMonth year month + (if month ≤ 2 then 306 else 0) =
      daysFromMarch (monthFromMarch month) + if month ≤ 2 then 0 else daysBeforeMonth year 3 := by
  interval_cases month <;>
    simp [daysBeforeMonth, monthLength, daysFromMarch, monthFromMarch] <;>
    omega

/-- The months from March on stand one behind the other. -/
theorem daysFromMarch_add_monthLength_le (hlow : 1 ≤ month) (hhigh : month ≤ 12) :
    daysFromMarch (monthFromMarch month) + monthLength year month ≤
      daysFromMarch (monthFromMarch month + 1) := by
  interval_cases month <;> simp [monthLength, daysFromMarch, monthFromMarch]
  split <;> decide

end month

namespace Date

variable {date : Date}

/-- The year of a date if years start in March. -/
def marchYear (date : Date) : Int :=
  if date.month ≤ 2 then date.year - 1 else date.year

/-- The number of full days of a date since the first of March. -/
def dayOfMarchYear (date : Date) : Nat :=
  daysFromMarch (monthFromMarch date.month) + (date.day - 1)

/-- The number of a date, counted by years from March on. -/
theorem number_eq_march (h : date.IsValid) :
    date.number = eraStart + (365 * date.marchYear + date.marchYear / 4 - date.marchYear / 100 +
      date.marchYear / 400) + date.dayOfMarchYear := by
  obtain ⟨hlow, hhigh⟩ := h.month_bounds
  have hfirst := h.1
  have hmonths := daysBeforeMonth_eq date.year hlow hhigh
  simp only [number, daysBeforeYear, eraStart, marchYear, dayOfMarchYear]
  by_cases hmonth : date.month ≤ 2
  · simp only [hmonth, if_true] at hmonths ⊢
    omega
  · have hmarch : daysBeforeMonth date.year 3 = if IsLeap date.year then 60 else 59 := by
      simp only [daysBeforeMonth, monthLength]
      split <;> rfl
    by_cases hleap : IsLeap date.year
    all_goals
      simp only [hmonth, hmarch, hleap, if_true, if_false] at hmonths ⊢
      unfold IsLeap at hleap
      omega

/-- A year from March on ends with February, and so with a leap day if the next year has one. -/
theorem dayOfMarchYear_lt (h : date.IsValid) :
    date.dayOfMarchYear < 365 + if IsLeap (date.marchYear + 1) then 1 else 0 := by
  obtain ⟨hlow, hhigh⟩ := h.month_bounds
  obtain ⟨hfirst, hlast⟩ := h
  by_cases hfeb : date.month = 2
  · have hyear : date.marchYear + 1 = date.year := by
      rw [marchYear, hfeb, if_pos (Nat.le_refl 2), Int.sub_add_cancel]
    have hmonth : date.dayOfMarchYear = 337 + (date.day - 1) := by
      rw [dayOfMarchYear, hfeb]
      rfl
    have hlength : monthLength date.year 2 = if IsLeap date.year then 29 else 28 := rfl
    rw [hfeb, hlength] at hlast
    rw [hyear, hmonth]
    by_cases hleap : IsLeap date.year <;>
      simp only [hleap, if_true, if_false] at hlast ⊢ <;>
      omega
  · have hmonth := daysFromMarch_add_monthLength_le date.year hlow hhigh
    have hearlier : monthFromMarch date.month ≤ 10 := by
      unfold monthFromMarch
      split <;> omega
    unfold dayOfMarchYear daysFromMarch at *
    omega

theorem dayOfMarchYear_le (h : date.IsValid) : date.dayOfMarchYear ≤ 365 := by
  have hlast := dayOfMarchYear_lt h
  split at hlast <;> omega

theorem isLeap_of_dayOfMarchYear (h : date.IsValid) (hday : date.dayOfMarchYear = 365) :
    IsLeap (date.marchYear + 1) := by
  have hlast := dayOfMarchYear_lt h
  by_contra hshort
  rw [hday, if_neg hshort] at hlast
  omega

/-- The month of a day of a year from March on. -/
theorem monthFromMarch_eq (h : date.IsValid) :
    (5 * date.dayOfMarchYear + 2) / 153 = monthFromMarch date.month := by
  obtain ⟨hlow, hhigh⟩ := h.month_bounds
  obtain ⟨hfirst, hlast⟩ := h
  have hmonth := daysFromMarch_add_monthLength_le date.year hlow hhigh
  unfold dayOfMarchYear daysFromMarch at *
  omega

end Date

/-! ## Eras -/

/-- The days of an era up to a year, which is not counted. -/
def daysOfEra (yearOfEra : Nat) : Nat :=
  365 * yearOfEra + yearOfEra / 4 - yearOfEra / 100

theorem isLeap_add_iff (era year : Int) : IsLeap (400 * era + year) ↔ IsLeap year := by
  unfold IsLeap
  omega

section era

variable {yearOfEra dayOfYear : Nat}

theorem daysOfEra_add_lt (hyear : yearOfEra < 400) (hday : dayOfYear ≤ 365) :
    daysOfEra yearOfEra + dayOfYear < 146097 := by
  unfold daysOfEra
  omega

/-- The year of a day of an era. A century of an era has 25 cycles of four years, and at its end a
leap day is missing unless the era ends too. -/
theorem yearOfEra_of_cycles {century cycle year dayOfEra : Nat} (hcentury : century < 4)
    (hcycle : cycle < 25) (hyear : year < 4) (hday : dayOfYear ≤ 365)
    (hleap : dayOfYear = 365 → year = 3 ∧ (cycle = 24 → century = 3))
    (h : dayOfEra = 36524 * century + 1461 * cycle + 365 * year + dayOfYear) :
    (dayOfEra - dayOfEra / 1460 + dayOfEra / 36524 - dayOfEra / 146096) / 365 =
      100 * century + 4 * cycle + year := by
  -- the last day of the era alone lies past four times the days of a century
  have hcenturies : dayOfEra / 36524 - dayOfEra / 146096 = century := by omega
  -- a cycle has 1461 days, so the division by 1460 is ahead by one in the last days of some years,
  -- among them each leap day at the end of a cycle
  by_cases hlate : 1460 ≤ 24 * century + cycle + 365 * year + dayOfYear
  · have hcycles : dayOfEra / 1460 = 25 * century + cycle + 1 := by omega
    omega
  · have hcycles : dayOfEra / 1460 = 25 * century + cycle := by omega
    omega

theorem yearOfEra_eq (hyear : yearOfEra < 400) (hday : dayOfYear ≤ 365)
    (hleap : dayOfYear = 365 → IsLeap (yearOfEra + 1)) {dayOfEra : Nat}
    (h : dayOfEra = daysOfEra yearOfEra + dayOfYear) :
    (dayOfEra - dayOfEra / 1460 + dayOfEra / 36524 - dayOfEra / 146096) / 365 = yearOfEra := by
  have hcycles : yearOfEra =
      100 * (yearOfEra / 100) + 4 * (yearOfEra % 100 / 4) + yearOfEra % 4 := by omega
  have hends : dayOfYear = 365 →
      yearOfEra % 4 = 3 ∧ (yearOfEra % 100 / 4 = 24 → yearOfEra / 100 = 3) := by
    unfold IsLeap at hleap
    omega
  have hdays : dayOfEra = 36524 * (yearOfEra / 100) + 1461 * (yearOfEra % 100 / 4) +
      365 * (yearOfEra % 4) + dayOfYear := by
    unfold daysOfEra at h
    omega
  rw [yearOfEra_of_cycles (by omega) (by omega) (by omega) hday hends hdays, ← hcycles]

/-- The date of a day that stands in an era at a day of a year. -/
theorem Date.ofDays_era (era : Int) (hyear : yearOfEra < 400) (hday : dayOfYear ≤ 365)
    (hleap : dayOfYear = 365 → IsLeap (yearOfEra + 1)) {month : Nat}
    (hmonth : (5 * dayOfYear + 2) / 153 = month) :
    ofDays (eraStart + (eraDays * era + (daysOfEra yearOfEra + dayOfYear : Nat))) =
      { year :=
          if (if month < 10 then month + 3 else month - 9) ≤ 2 then era * 400 + yearOfEra + 1
          else era * 400 + yearOfEra
        month := if month < 10 then month + 3 else month - 9
        day := dayOfYear - daysFromMarch month + 1 } := by
  have hbound := daysOfEra_add_lt hyear hday
  have hyearOfEra := yearOfEra_eq hyear hday hleap rfl
  have hdayOfYear : daysOfEra yearOfEra + dayOfYear - daysOfEra yearOfEra = dayOfYear :=
    Nat.add_sub_cancel_left ..
  generalize hdays : daysOfEra yearOfEra + dayOfYear = dayOfEra at *
  have hshifted : eraStart + (eraDays * era + (dayOfEra : Int)) - eraStart =
      eraDays * era + dayOfEra := by omega
  have hera : (eraDays * era + (dayOfEra : Int)).fdiv eraDays = era := by
    rw [Int.fdiv_eq_ediv_of_nonneg _ (by decide)]
    unfold eraDays
    omega
  have hdayOfEra : ((eraDays * era + (dayOfEra : Int)).fmod eraDays).toNat = dayOfEra := by
    rw [Int.fmod_eq_emod_of_nonneg _ (by decide)]
    unfold eraDays
    omega
  rw [daysOfEra] at hdayOfYear
  simp only [ofDays, hshifted, hera, hdayOfEra, hyearOfEra, hdayOfYear, hmonth, daysFromMarch]

end era

namespace Date

variable {date : Date}

/-- The year of a date in its era. -/
def yearOfEra (date : Date) : Nat :=
  (date.marchYear % 400).toNat

theorem yearOfEra_lt (date : Date) : date.yearOfEra < 400 := by
  unfold yearOfEra
  omega

theorem marchYear_eq (date : Date) :
    date.marchYear = 400 * (date.marchYear / 400) + date.yearOfEra := by
  unfold yearOfEra
  omega

theorem isLeap_of_yearOfEra (h : date.IsValid) (hday : date.dayOfMarchYear = 365) :
    IsLeap (date.yearOfEra + 1) := by
  have hleap := isLeap_of_dayOfMarchYear h hday
  have hyear : date.marchYear + 1 = 400 * (date.marchYear / 400) + (date.yearOfEra + 1) := by
    rw [← Int.add_assoc, ← marchYear_eq]
  rwa [hyear, isLeap_add_iff] at hleap

/-- The number of a date, counted by eras. -/
theorem number_eq_era (h : date.IsValid) :
    date.number = eraStart + (eraDays * (date.marchYear / 400) +
      (daysOfEra date.yearOfEra + date.dayOfMarchYear : Nat)) := by
  have hyear := marchYear_eq date
  have hcycles : date.marchYear / 4 =
      100 * (date.marchYear / 400) + (date.yearOfEra / 4 : Nat) := by omega
  have hcenturies : date.marchYear / 100 =
      4 * (date.marchYear / 400) + (date.yearOfEra / 100 : Nat) := by omega
  rw [number_eq_march h]
  unfold eraDays daysOfEra
  omega

/-- The date that is computed of a number is the one that has the number. -/
theorem ofDays_number (h : date.IsValid) : ofDays date.number = date := by
  obtain ⟨hlow, hhigh⟩ := h.month_bounds
  have hfirst := h.1
  have hmonth : (if monthFromMarch date.month < 10 then monthFromMarch date.month + 3
      else monthFromMarch date.month - 9) = date.month := by
    unfold monthFromMarch
    split <;> split <;> omega
  have hyear : (if date.month ≤ 2 then date.marchYear / 400 * 400 + date.yearOfEra + 1
      else date.marchYear / 400 * 400 + date.yearOfEra) = date.year := by
    rw [Int.mul_comm, ← marchYear_eq]
    unfold marchYear
    split <;> omega
  have hday : date.dayOfMarchYear - daysFromMarch (monthFromMarch date.month) + 1 = date.day := by
    unfold dayOfMarchYear
    omega
  rw [number_eq_era h, ofDays_era _ (yearOfEra_lt date) (dayOfMarchYear_le h)
    (isLeap_of_yearOfEra h) (monthFromMarch_eq h), hmonth, hyear, hday]

end Date

/-! ## The date of a day -/

section day

variable {day : Int} {date : Date} {weekday : Nat}

/-- A day falls on the date of the calendar that has its number, and on no other. -/
theorem falls_iff :
    Falls day date weekday ↔ date.IsValid ∧ date.number = day ∧ weekday = weekdayOf day := by
  refine ⟨Falls.counted, ?_⟩
  rintro ⟨hvalid, rfl, rfl⟩
  obtain ⟨other, h⟩ := exists_falls date.number
  obtain ⟨hother, hnumber, -⟩ := h.counted
  rwa [← Date.ofDays_number hother, hnumber, Date.ofDays_number hvalid] at h

/-- A day falls on the date that is computed. -/
theorem falls_ofDays (day : Int) : Falls day (.ofDays day) (weekdayOf day) := by
  obtain ⟨date, h⟩ := exists_falls day
  obtain ⟨hvalid, hnumber, -⟩ := h.counted
  rwa [← hnumber, Date.ofDays_number hvalid, hnumber]

end day

/-! ## The day of a time -/

section time

variable (t : Time)

theorem dayNumber_eq : t.dayNumber = t.seconds / 86400 :=
  Int.fdiv_eq_ediv_of_nonneg _ (by decide)

theorem secondOfDay_eq : t.secondOfDay = (t.seconds % 86400).toNat :=
  congrArg Int.toNat (Int.fmod_eq_emod_of_nonneg _ (by decide))

theorem weekday_eq : t.weekday = weekdayOf t.dayNumber :=
  congrArg Int.toNat (Int.fmod_eq_emod_of_nonneg _ (by decide))

/-- The day of a time falls on the date and the day of the week of the time. -/
theorem falls_dayNumber : Falls t.dayNumber t.date t.weekday := by
  rw [weekday_eq]
  exact falls_ofDays t.dayNumber

variable {t}

/-- The years that a time stands in are those of its date. -/
theorem inYears_iff {first last : Int} :
    t.InYears first last ↔ first ≤ t.date.year ∧ t.date.year ≤ last := by
  obtain ⟨hvalid, hnumber, -⟩ := (falls_dayNumber t).counted
  have hfirst := Date.number_first_le_iff hvalid first
  have hlast := Date.number_first_le_iff hvalid (last + 1)
  rw [hnumber, dayNumber_eq] at hfirst hlast
  unfold InYears
  omega

end time

end ReadThrough.Time
