import Mathlib.Data.List.DropRight
import ReadThrough.Text.Blank
import ReadThrough.Text.Fields

/-!
# Blanks and separators

What is trimmed comes of the text (`mem_of_mem_trim`). Around a character that is not blank the two
sides are trimmed by themselves (`trim_append_cons`), and trimming one end first makes no difference
to trimming both (`trim_trimStart`, `trim_trimEnd`). `cut?_eq_some_iff` says what it is to divide a
text at the first separator. Where the parts of a text are trimmed, nothing comes of trimming the
text before it is divided (`map_trim_splitOn_trim`).
-/

namespace ReadThrough.Text

variable {c : Char}

/-! ## Blanks -/

theorem mem_of_mem_trimStart {cs : List Char} (h : c ∈ trimStart cs) : c ∈ cs :=
  (List.dropWhile_sublist _).mem h

theorem mem_of_mem_trimEnd {cs : List Char} (h : c ∈ trimEnd cs) : c ∈ cs :=
  List.mem_reverse.1 (mem_of_mem_trimStart (List.mem_reverse.1 h))

theorem mem_of_mem_trim {cs : List Char} (h : c ∈ trim cs) : c ∈ cs :=
  mem_of_mem_trimStart (mem_of_mem_trimEnd h)

theorem trimStart_append_cons (h : isBlank c = false) (before after : List Char) :
    trimStart (before ++ c :: after) = trimStart before ++ c :: after := by
  induction before with
  | nil => simp [trimStart, h]
  | cons b before ih =>
    unfold trimStart at ih ⊢
    by_cases hb : isBlank b = true
    · rw [List.cons_append, List.dropWhile_cons_of_pos hb, List.dropWhile_cons_of_pos hb, ih]
    · rw [List.cons_append, List.dropWhile_cons_of_neg hb, List.dropWhile_cons_of_neg hb]
      rfl

theorem trimEnd_append_cons (h : isBlank c = false) (before after : List Char) :
    trimEnd (before ++ c :: after) = before ++ c :: trimEnd after := by
  have hreverse : (before ++ c :: after).reverse = after.reverse ++ c :: before.reverse := by simp
  unfold trimEnd
  rw [hreverse, trimStart_append_cons h]
  simp

theorem trim_append_cons (h : isBlank c = false) (before after : List Char) :
    trim (before ++ c :: after) = trimStart before ++ c :: trimEnd after := by
  unfold trim
  rw [trimStart_append_cons h, trimEnd_append_cons h]

@[simp] theorem trimStart_trimStart (cs : List Char) : trimStart (trimStart cs) = trimStart cs :=
  List.dropWhile_idempotent isBlank cs

@[simp] theorem trimEnd_trimEnd (cs : List Char) : trimEnd (trimEnd cs) = trimEnd cs := by
  simp [trimEnd]

@[simp] theorem trim_trimStart (cs : List Char) : trim (trimStart cs) = trim cs := by
  simp [trim]

@[simp] theorem trim_trimEnd (cs : List Char) : trim (trimEnd cs) = trim cs := by
  have hparts := List.takeWhile_append_dropWhile (p := isBlank) (l := cs)
  -- either all is blank, or the first other character keeps the two ends apart
  cases hrest : cs.dropWhile isBlank with
  | nil =>
    have hblank : ∀ c ∈ cs, isBlank c = true := List.dropWhile_eq_nil_iff.1 hrest
    have hstart : trimStart cs = [] := hrest
    have hend : trimEnd cs = [] := by
      unfold trimEnd trimStart
      rw [List.dropWhile_eq_nil_iff.2 fun c hc => hblank c (List.mem_reverse.1 hc)]
      rfl
    rw [hend, trim, trim, hstart]
    rfl
  | cons c rest =>
    have hc : isBlank c = false := by
      have hhead := List.head_dropWhile_not isBlank (l := cs) (by simp [hrest])
      simpa [hrest] using hhead
    rw [hrest] at hparts
    rw [← hparts, trimEnd_append_cons hc, trim_append_cons hc, trim_append_cons hc,
      trimEnd_trimEnd]

/-- What stands among blanks and has none of its own is what trimming leaves. -/
theorem trim_append_append {before text after : List Char}
    (hbefore : ∀ c ∈ before, isBlank c = true) (htext : ∀ c ∈ text, isBlank c = false)
    (hafter : ∀ c ∈ after, isBlank c = true) : trim (before ++ text ++ after) = text := by
  have hblank : ∀ c ∈ after.reverse, isBlank c = true := fun c hc =>
    hafter c (List.mem_reverse.1 hc)
  -- what is not blank keeps the blanks behind it from being taken off in front
  have hfront : trim (before ++ text ++ after) = trimEnd (trimStart (text ++ after)) := by
    rw [trim, trimStart, List.append_assoc, List.dropWhile_append_of_pos hbefore]
    rfl
  have hend : trimEnd (text ++ after) = trimEnd text := by
    rw [trimEnd, trimStart, List.reverse_append, List.dropWhile_append_of_pos hblank]
    rfl
  rw [hfront]
  cases htext' : text with
  | nil =>
    rw [List.nil_append, trimStart, List.dropWhile_eq_nil_iff.2 hafter]
    rfl
  | cons c rest =>
    subst htext'
    have hstart : trimStart (c :: rest ++ after) = c :: rest ++ after := by
      have hc := htext c List.mem_cons_self
      simp [trimStart, hc]
    rw [hstart, hend, trimEnd, trimStart]
    cases hlast : (c :: rest).reverse with
    | nil => simp at hlast
    | cons last others =>
      have hmem : last ∈ (c :: rest).reverse := by simp [hlast]
      have hkept := htext last (List.mem_reverse.1 hmem)
      rw [List.dropWhile_cons_of_neg (by simp [hkept]), ← hlast, List.reverse_reverse]

/-! ## Separators -/

/-- A text that is divided at its first separator, with what it is divided into. -/
theorem cut?_eq_some_iff {separator : Char} {cs before after : List Char} :
    cut? separator cs = some (before, after) ↔
      cs = before ++ separator :: after ∧ separator ∉ before := by
  constructor
  · intro h
    unfold cut? at h
    split at h
    · cases h
    · next c rest hrest =>
      obtain ⟨rfl, rfl⟩ := Prod.mk.inj (Option.some.inj h)
      have hparts := List.takeWhile_append_dropWhile (p := (· ≠ separator)) (l := cs)
      have hne : cs.dropWhile (· ≠ separator) ≠ [] := by
        rw [hrest]
        exact List.cons_ne_nil c _
      have hc := List.head_dropWhile_not (· ≠ separator) hne
      simp only [hrest, List.head_cons, ne_eq, decide_eq_false_iff_not, not_not] at hc
      rw [hrest, hc] at hparts
      refine ⟨hparts.symm, fun hmem => ?_⟩
      simpa using List.mem_takeWhile_imp hmem
  · rintro ⟨rfl, hbefore⟩
    exact cut?_append hbefore after

/-! ## Parts that are trimmed -/

section parts

variable {separator : Char}

theorem map_trim_splitOn_trimEnd (hseparator : isBlank separator = false) (cs : List Char) :
    ((trimEnd cs).splitOn separator).map trim = (cs.splitOn separator).map trim := by
  by_cases hmem : separator ∈ cs
  · obtain ⟨before, after, hcs, hbefore⟩ := List.eq_append_cons_of_mem hmem
    rw [hcs, trimEnd_append_cons hseparator, List.splitOn_append_cons_self,
      List.splitOn_append_cons_self, List.map_append, List.map_append,
      map_trim_splitOn_trimEnd hseparator after]
  · have hend : separator ∉ trimEnd cs := fun h => hmem (mem_of_mem_trimEnd h)
    rw [List.splitOn_eq_singleton hmem, List.splitOn_eq_singleton hend, List.map_singleton,
      List.map_singleton, trim_trimEnd]
termination_by cs.length
decreasing_by
  rw [hcs, List.length_append, List.length_cons]
  omega

/-- Where the parts of a text are trimmed, nothing comes of trimming the text before. -/
theorem map_trim_splitOn_trim (hseparator : isBlank separator = false) (cs : List Char) :
    ((trim cs).splitOn separator).map trim = (cs.splitOn separator).map trim := by
  rw [trim, map_trim_splitOn_trimEnd hseparator]
  by_cases hmem : separator ∈ cs
  · obtain ⟨before, after, rfl, hbefore⟩ := List.eq_append_cons_of_mem hmem
    have hstart : separator ∉ trimStart before := fun h => hbefore (mem_of_mem_trimStart h)
    rw [trimStart_append_cons hseparator, List.splitOn_append_cons_self,
      List.splitOn_append_cons_self, List.splitOn_eq_singleton hstart,
      List.splitOn_eq_singleton hbefore]
    simp
  · have hstart : separator ∉ trimStart cs := fun h => hmem (mem_of_mem_trimStart h)
    rw [List.splitOn_eq_singleton hmem, List.splitOn_eq_singleton hstart]
    simp

end parts

end ReadThrough.Text
