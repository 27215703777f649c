import Std.Data.TreeSet.Lemmas

/-!
# Tables

A table gives values to keys, at most one to a key, and keeps its rows in the order in which they
came in. A row that replaces another goes to the end. `ofRows` takes many rows at once.

* `find?_insert`, `find?_erase` — insertion and erasure change what is found at their key only
* `mem_rows_iff` — the rows are what can be found
* `find?_ofRows` — of several rows with one key the last is found
* `ofRows_eq_foldl` — many rows at once are as good as one after another
-/

namespace ReadThrough

/-- Values by key; no key stands twice. -/
structure Table (κ α : Type) where
  rows : List (κ × α)
  nodup : (rows.map Prod.fst).Nodup
  deriving Repr, DecidableEq

namespace Table

variable {κ α : Type}

/-- The table without rows. -/
def empty : Table κ α where
  rows := []
  nodup := .nil

/-- The number of rows. -/
def size (t : Table κ α) : Nat :=
  t.rows.length

/-- The values, in the order of their rows. -/
def values (t : Table κ α) : List α :=
  t.rows.map Prod.snd

/-! ## Many rows -/

section ofRows

variable [Ord κ]

/--
Puts rows in front of those `done`, the last row first, and passes over those whose key has been
`seen`.
-/
def lastRows (seen : Std.TreeSet κ compare) (done : List (κ × α)) :
    List (κ × α) → List (κ × α)
  | [] => done
  | row :: rows =>
    if seen.contains row.1 then lastRows seen done rows
    else lastRows (seen.insert row.1) (row :: done) rows

/-- The keys that have been seen are those of the rows that are done. -/
def SeenIn (seen : Std.TreeSet κ compare) (done : List (κ × α)) : Prop :=
  ∀ key, seen.contains key = true ↔ key ∈ done.map Prod.fst

theorem seenIn_empty : SeenIn (∅ : Std.TreeSet κ compare) ([] : List (κ × α)) := by
  intro key
  simp

variable [Std.TransOrd κ] [Std.LawfulEqOrd κ]

theorem SeenIn.insert {seen : Std.TreeSet κ compare} {done : List (κ × α)} (h : SeenIn seen done)
    (row : κ × α) : SeenIn (seen.insert row.1) (row :: done) := by
  intro key
  rw [Std.TreeSet.contains_insert, Bool.or_eq_true, h key, beq_iff_eq, Std.compare_eq_iff_eq,
    List.map_cons, List.mem_cons, eq_comm]

theorem nodup_lastRows {seen : Std.TreeSet κ compare} {done rows : List (κ × α)}
    (hseen : SeenIn seen done) (hdone : (done.map Prod.fst).Nodup) :
    ((lastRows seen done rows).map Prod.fst).Nodup := by
  induction rows generalizing seen done with
  | nil => exact hdone
  | cons row rows ih =>
    rw [lastRows]
    split
    · exact ih hseen hdone
    · rename_i hnew
      rw [hseen] at hnew
      exact ih (hseen.insert row) (List.nodup_cons.2 ⟨hnew, hdone⟩)

/-- The table of some rows; of those with one key the last counts. -/
def ofRows (rows : List (κ × α)) : Table κ α where
  rows := lastRows ∅ [] rows.reverse
  nodup := nodup_lastRows seenIn_empty .nil

end ofRows

/-! ## Single rows -/

variable [DecidableEq κ]

/-- The value of a key. -/
def find? (t : Table κ α) (key : κ) : Option α :=
  t.rows.lookup key

/-- The table without the row of a key. -/
def erase (t : Table κ α) (key : κ) : Table κ α where
  rows := t.rows.filter (·.1 ≠ key)
  nodup := t.nodup.sublist (List.filter_sublist.map Prod.fst)

theorem not_mem_keys_erase (t : Table κ α) (key : κ) :
    key ∉ (t.erase key).rows.map Prod.fst := by
  simp [erase]

/-- The table with a value for a key, in place of the one it had. -/
def insert (t : Table κ α) (key : κ) (value : α) : Table κ α where
  rows := (t.erase key).rows ++ [(key, value)]
  nodup := by
    rw [List.map_append, List.nodup_append]
    refine ⟨(t.erase key).nodup, by simp, ?_⟩
    intro a ha b hb hab
    simp only [List.map_cons, List.map_nil, List.mem_singleton] at hb
    subst hab hb
    exact t.not_mem_keys_erase a ha

/-! ## What is found -/

@[simp] theorem find?_empty (key : κ) : (empty : Table κ α).find? key = none := rfl

theorem find?_eq_none_iff {t : Table κ α} {key : κ} :
    t.find? key = none ↔ key ∉ t.rows.map Prod.fst := by
  simp only [find?, List.lookup_eq_none_iff, List.mem_map, not_exists, not_and]
  constructor
  · intro h row hrow hkey
    simpa [hkey] using h row hrow
  · intro h row hrow
    simpa using fun hkey : key = row.1 => h row hrow hkey.symm

/-- The rows are what can be found. -/
theorem mem_rows_iff {t : Table κ α} {key : κ} {value : α} :
    (key, value) ∈ t.rows ↔ t.find? key = some value := by
  obtain ⟨rows, nodup⟩ := t
  simp only [find?]
  induction rows with
  | nil => simp
  | cons row rows ih =>
    obtain ⟨other, found⟩ := row
    simp only [List.map_cons, List.nodup_cons] at nodup
    have ih := ih nodup.2
    by_cases h : key = other
    · subst h
      have absent : (key, value) ∉ rows := fun hmem =>
        nodup.1 (List.mem_map_of_mem hmem)
      simp [absent, eq_comm]
    · have differ : (key == other) = false := by simpa using h
      simp [List.lookup_cons, differ, h, ih]

/-- Erasure changes what is found at its key only. -/
theorem find?_erase (t : Table κ α) (key other : κ) :
    (t.erase key).find? other = if other = key then none else t.find? other := by
  by_cases h : other = key
  · subst h
    simpa using find?_eq_none_iff.2 (t.not_mem_keys_erase other)
  · rw [if_neg h]
    refine Option.ext fun value => ?_
    rw [← mem_rows_iff, ← mem_rows_iff]
    simp [erase, h]

/-- Insertion changes what is found at its key only. -/
theorem find?_insert (t : Table κ α) (key : κ) (value : α) (other : κ) :
    (t.insert key value).find? other = if other = key then some value else t.find? other := by
  by_cases h : other = key
  · subst h
    rw [if_pos rfl, ← mem_rows_iff]
    simp [insert]
  · have unchanged := t.find?_erase key other
    rw [if_neg h] at unchanged ⊢
    refine Option.ext fun found => ?_
    rw [← unchanged, ← mem_rows_iff, ← mem_rows_iff]
    simp [insert, h]

section ofRows

variable [Ord κ] [Std.TransOrd κ] [Std.LawfulEqOrd κ]

theorem lookup_lastRows {seen : Std.TreeSet κ compare} {done rows : List (κ × α)}
    (hseen : SeenIn seen done) (key : κ) :
    (lastRows seen done rows).lookup key = (done.lookup key).or (rows.lookup key) := by
  induction rows generalizing seen done with
  | nil => simp [lastRows]
  | cons row rows ih =>
    rw [lastRows, List.lookup_cons]
    split
    · rename_i hold
      rw [ih hseen]
      cases hkey : key == row.1 with
      | false => rfl
      | true =>
        obtain rfl := beq_iff_eq.1 hkey
        obtain ⟨other, hmem, heq⟩ := List.mem_map.1 ((hseen _).1 hold)
        have hfound : done.lookup row.1 ≠ none := fun hnone => by
          simpa [heq] using List.lookup_eq_none_iff.1 hnone other hmem
        obtain ⟨value, hvalue⟩ := Option.ne_none_iff_exists'.1 hfound
        simp [hvalue]
    · rename_i hnew
      rw [ih (hseen.insert row), List.lookup_cons]
      cases hkey : key == row.1 with
      | false => rfl
      | true =>
        obtain rfl := beq_iff_eq.1 hkey
        rw [hseen] at hnew
        have habsent : done.lookup row.1 = none := by
          rw [List.lookup_eq_none_iff]
          intro other hmem
          simpa using fun heq : row.1 = other.1 => hnew (heq ▸ List.mem_map_of_mem hmem)
        simp [habsent]

/-- Of several rows with one key the last is found. -/
theorem find?_ofRows (rows : List (κ × α)) (key : κ) :
    (ofRows rows).find? key = rows.reverse.lookup key := by
  rw [find?, ofRows, lookup_lastRows seenIn_empty, List.lookup_nil, Option.none_or]

omit [DecidableEq κ] in
theorem contains_insert_iff {seen : Std.TreeSet κ compare} {key other : κ} :
    (seen.insert key).contains other = true ↔ seen.contains other = true ∨ other = key := by
  rw [Std.TreeSet.contains_insert, Bool.or_eq_true, beq_iff_eq, Std.compare_eq_iff_eq, or_comm,
    eq_comm (a := key)]

omit [DecidableEq κ] [Std.TransOrd κ] [Std.LawfulEqOrd κ] in
theorem lastRows_eq_append (seen : Std.TreeSet κ compare) (done rows : List (κ × α)) :
    lastRows seen done rows = lastRows seen [] rows ++ done := by
  induction rows generalizing seen done with
  | nil => rfl
  | cons row rows ih =>
    rw [lastRows, lastRows]
    split
    · exact ih seen done
    · rw [ih _ (row :: done), ih _ [row], List.append_assoc]
      rfl

/-- Where one more key has been seen, the rows of this key are passed over. -/
theorem lastRows_eq_filter {seen more : Std.TreeSet κ compare} {key : κ}
    (h : ∀ other, more.contains other = true ↔ seen.contains other = true ∨ other = key)
    (rows : List (κ × α)) :
    lastRows more [] rows = (lastRows seen [] rows).filter (·.1 ≠ key) := by
  induction rows generalizing seen more with
  | nil => rfl
  | cons row rows ih =>
    rw [lastRows, lastRows]
    by_cases hold : seen.contains row.1 = true
    · rw [if_pos hold, if_pos ((h _).2 (Or.inl hold)), ih h]
    · rw [if_neg hold, lastRows_eq_append (seen.insert row.1), List.filter_append]
      by_cases hkey : row.1 = key
      · -- of the rows that follow, those of this key are passed over on both sides
        have hmore : ∀ other, more.contains other = true ↔
            (seen.insert row.1).contains other = true ∨ other = key := by
          intro other
          rw [h, contains_insert_iff, hkey, or_assoc, or_self]
        rw [if_pos ((h _).2 (Or.inr hkey)), ih hmore]
        simp [hkey]
      · have hnew : ¬ more.contains row.1 = true := fun hnew => ((h _).1 hnew).elim hold hkey
        have hmore : ∀ other, (more.insert row.1).contains other = true ↔
            (seen.insert row.1).contains other = true ∨ other = key := by
          intro other
          rw [contains_insert_iff, contains_insert_iff, h, or_right_comm]
        rw [if_neg hnew, lastRows_eq_append (more.insert row.1), ih hmore]
        simp [hkey]

/-- Many rows at once are as good as one after another. -/
theorem ofRows_eq_foldl (rows : List (κ × α)) :
    ofRows rows = rows.foldl (fun t row => t.insert row.1 row.2) empty := by
  have hone : ∀ (front : List (κ × α)) (row : κ × α),
      ofRows (front ++ [row]) = (ofRows front).insert row.1 row.2 := by
    intro front row
    have hseen : ∀ other, ((∅ : Std.TreeSet κ compare).insert row.1).contains other = true ↔
        (∅ : Std.TreeSet κ compare).contains other = true ∨ other = row.1 :=
      fun _ => contains_insert_iff
    have hrows : lastRows ∅ [] (row :: front.reverse) =
        (lastRows ∅ [] front.reverse).filter (·.1 ≠ row.1) ++ [row] := by
      rw [lastRows, if_neg (by simp), lastRows_eq_append, lastRows_eq_filter hseen]
    simp only [ofRows, insert, erase, List.reverse_append, List.reverse_cons, List.reverse_nil,
      List.nil_append, List.singleton_append, hrows]
  rw [← List.reverse_reverse rows]
  induction rows.reverse with
  | nil => rfl
  | cons row rows ih => rw [List.reverse_cons, hone, ih, List.foldl_append]; rfl

end ofRows

end Table

end ReadThrough
