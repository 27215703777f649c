import ReadThrough.Proofs.Http.Fields
import ReadThrough.Proofs.Time.Fixdate

/-!
# The time of the last change

An answer that is made of what the store says of an object, or of a cached entry, tells when the
object was last changed. Every date can be sent (`sendable_httpDate`), so the field is never left
out; in years of four digits it is the fixed date of the very second (`tells_modified`).
-/

namespace ReadThrough

/-- The answer is made of what is known of an object that was last changed at a time. -/
inductive ObjectResponse.Bears : Time → ObjectResponse → Prop where
  | metadata (metadata : Metadata) (body : Bytes) (gzip : Bool) :
    Bears metadata.modified (.ofMetadata metadata body gzip)
  | entry (e : Entry) (body : Bytes) (gzip : Bool) : Bears e.modified (.ofEntry e body gzip)
  | headersOnly {t : Time} {r : ObjectResponse} (h : Bears t r) (length : Nat) :
    Bears t (r.headersOnly length)

theorem ObjectResponse.Bears.modified {t : Time} {r : ObjectResponse} (h : Bears t r) :
    r.modified = some t := by
  induction h with
  | metadata => rfl
  | entry => rfl
  | headersOnly _ _ ih => exact ih

/-! ## Dates can be sent -/

section sendable

instance (cs : List Char) : Decidable (Sendable cs) :=
  inferInstanceAs (Decidable (_ = true))

theorem sendable_append {a b : List Char} (ha : Sendable a) (hb : Sendable b) :
    Sendable (a ++ b) := by
  unfold Sendable at *
  rw [List.all_append, ha, hb, Bool.and_self]

theorem sendable_cons {c : Char} {cs : List Char} (hc : Http.isValueChar c = true)
    (h : Sendable cs) : Sendable (c :: cs) := by
  unfold Sendable at *
  rw [List.all_cons, hc, h, Bool.and_self]

theorem sendable_padded (width number : Nat) : Sendable (Text.Numeral.padded width number) :=
  List.all_eq_true.2 fun _ hc => isValueChar_of_isDigit (Text.Numeral.isDigit_of_mem_padded hc)

theorem sendable_getD {names : List String} (h : ∀ name ∈ names, Sendable name.toList) (i : Nat) :
    Sendable (names.getD i "").toList := by
  rw [List.getD_eq_getElem?_getD]
  cases hname : names[i]? with
  | none => rfl
  | some name => exact h name (List.mem_of_getElem? hname)

variable (t : Time)

theorem sendable_yearText (year : Int) : Sendable (Time.yearText year) := by
  unfold Time.yearText
  split
  · exact sendable_cons (by decide) (sendable_padded ..)
  · split
    · exact sendable_cons (by decide) (sendable_padded ..)
    · exact sendable_padded ..

theorem sendable_clockText : Sendable t.clockText :=
  have hminute := sendable_append (sendable_padded 2 (t.secondOfDay / 3600))
    (sendable_cons (by decide) (sendable_padded 2 (t.secondOfDay / 60 % 60)))
  sendable_append hminute (sendable_cons (by decide) (sendable_padded ..))

/-- Every date can be sent. -/
theorem sendable_httpDate : Sendable (Time.httpDate t).toList := by
  have hweekday : Sendable (Time.weekdayNames.getD t.weekday "").toList :=
    sendable_getD (by decide +kernel) _
  have hcomma : Sendable ", ".toList := by decide +kernel
  have hmonth : Sendable (' ' :: (Time.monthNames.getD (t.date.month - 1) "").toList) :=
    sendable_cons (by decide) (sendable_getD (by decide +kernel) _)
  have hyear : Sendable (' ' :: Time.yearText t.date.year) :=
    sendable_cons (by decide) (sendable_yearText _)
  have hclock : Sendable (' ' :: t.clockText) := sendable_cons (by decide) (sendable_clockText t)
  have hzone : Sendable " GMT".toList := by decide +kernel
  have hday := sendable_append (sendable_append hweekday hcomma) (sendable_padded 2 t.date.day)
  rw [Time.httpDate, String.toList_ofList]
  exact sendable_append (sendable_append (sendable_append (sendable_append hday hmonth) hyear)
    hclock) hzone

end sendable

namespace Http

open Time

/-! ## The field -/

section field

variable {t : Time} {r : ObjectResponse}

/-- The answer tells the date of the last change, whatever its years. -/
theorem values_ofObject_modified (h : r.modified = some t) :
    (Response.ofObject r).values "last-modified" = [httpDate t] := by
  simp only [Response.values, Response.ofObject, valuesOf_append, h, Option.map_some]
  cases r.gzip <;>
    simp (disch := decide) [valuesOf_cons_of_ne, valuesOf_optionalField_of_ne,
      valuesOf_optionalField_self (sendable_httpDate t)]

/-- An answer tells the second of the last change as a date of fixed form: the date says the day of
the week and the date that the calendar has for that second, and the time of day. It is read back as
the second, and no other second of these years has the same date. -/
theorem tells_modified (hyears : t.InYears 0 9999) (hnanos : t.nanos < 10 ^ 9) :
    ∃ text f, Fixdate.Writes text.toList f ∧ f.Denotes t.seconds ∧
      readHttpDate? text = some ⟨t.seconds, 0⟩ ∧
      (∀ r, ObjectResponse.Bears t r → (Response.ofObject r).values "last-modified" = [text] ∧
        ∀ req, (dress req (.ofObject r)).values "last-modified" = [text]) ∧
      ∀ u r, u.InYears 0 9999 → u.nanos < 10 ^ 9 → ObjectResponse.Bears u r →
        ((Response.ofObject r).values "last-modified" = [text] ↔ u.seconds = t.seconds) := by
  refine ⟨httpDate t, .ofTime t, writes_httpDate hyears hnanos, Fixdate.denotes_ofTime t,
    readHttpDate?_httpDate hyears hnanos, fun r hr => ?_, fun u r huyears hunanos hr => ?_⟩
  · have htold := values_ofObject_modified hr.modified
    exact ⟨htold, fun req => (values_dress_of_not_mem (by decide) req _).trans htold⟩
  · rw [values_ofObject_modified hr.modified, List.cons.injEq, and_iff_left rfl]
    exact httpDate_eq_iff hyears hnanos huyears hunanos

/-- An answer with an object that was last changed at the end of the leap day of the year 0. -/
def leapDayAnswer : ObjectResponse :=
  .ofMetadata ⟨"text/plain", 0, ⟨-62162035201, 999999999⟩, "0"⟩ [] false

theorem tells_modified_leapDay :
    InYears 0 9999 ⟨-62162035201, 999999999⟩ ∧ 999999999 < 10 ^ 9 ∧
      ObjectResponse.Bears ⟨-62162035201, 999999999⟩ leapDayAnswer ∧
      (Response.ofObject leapDayAnswer).values "last-modified" =
        ["Tue, 29 Feb 0000 23:59:59 GMT"] ∧
      readHttpDate? "Tue, 29 Feb 0000 23:59:59 GMT" = some ⟨-62162035201, 0⟩ ∧
      (∃ f, Fixdate.Writes "Tue, 29 Feb 0000 23:59:59 GMT".toList f ∧ f.Denotes (-62162035201)) ∧
      ∀ u r, u.InYears 0 9999 → u.nanos < 10 ^ 9 → ObjectResponse.Bears u r →
        ((Response.ofObject r).values "last-modified" = ["Tue, 29 Feb 0000 23:59:59 GMT"] ↔
          u.seconds = -62162035201) := by
  have hyears : InYears 0 9999 ⟨-62162035201, 999999999⟩ := by
    unfold InYears
    decide
  have hnanos : 999999999 < 10 ^ 9 := by decide
  have hbears : ObjectResponse.Bears ⟨-62162035201, 999999999⟩ leapDayAnswer :=
    .metadata ⟨"text/plain", 0, ⟨-62162035201, 999999999⟩, "0"⟩ [] false
  have hvalue : (Response.ofObject leapDayAnswer).values "last-modified" =
      ["Tue, 29 Feb 0000 23:59:59 GMT"] := by
    decide +kernel
  obtain ⟨text, f, hwrites, hdenotes, hread, htold, hsame⟩ := tells_modified hyears hnanos
  obtain rfl : "Tue, 29 Feb 0000 23:59:59 GMT" = text :=
    (List.cons.inj (hvalue.symm.trans (htold _ hbears).1)).1
  exact ⟨hyears, hnanos, hbears, hvalue, hread, ⟨f, hwrites, hdenotes⟩, hsame⟩

end field

end Http

end ReadThrough
