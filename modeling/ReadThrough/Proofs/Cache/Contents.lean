import ReadThrough.Proofs.Cache.Accounting

/-!
# What an operation leaves

Each operation decides for every key what is found under it afterwards.

* `find?_accept` — an accepted entry is found, the keys evicted for it (`evictedFor`) are not, and
  nothing else changes
* `find?_delete` — a deletion clears its key
* `get_fst`, `find?_get`, `find?_sweep` — dead entries are not shown, and go when they are seen
* `get_fst_of_live`, `find?_get_of_live`, `find?_sweep_of_live` — live entries are shown, and stay
* `released_get` — what a look-up gives back that finds a dead entry
* `clears_get`, `clears_delete` — neither touches any other entry
-/

namespace ReadThrough.Cache

/-! ## Removal -/

theorem find?_removeAll (c : Cache) (rows : List (String × Entry)) (key : String) :
    (c.removeAll rows).find? key =
      if key ∈ rows.map Prod.fst then none else c.find? key := by
  induction rows generalizing c with
  | nil => rfl
  | cons row rows ih =>
    obtain ⟨other, e⟩ := row
    rw [removeAll_cons, ih, find?_remove, List.map_cons]
    by_cases hrest : key ∈ rows.map Prod.fst
    · rw [if_pos hrest, if_pos (List.mem_cons_of_mem _ hrest)]
    · by_cases hsame : key = other
      · rw [if_neg hrest, if_pos hsame, if_pos (hsame ▸ List.mem_cons_self)]
      · rw [if_neg hrest, if_neg hsame, if_neg (by simp [hsame, hrest])]

/-- Nothing has to go where there is room. -/
theorem gone_eq_nil {c : Cache} (m : Moment) {incoming : UInt64}
    (hroom : ¬ c.maxSize < c.currentSize + incoming) : c.gone m incoming = [] := by
  unfold gone
  cases m.walk c.entries.rows with
  | nil => rfl
  | cons row rows => rw [victims, if_pos (UInt64.not_lt.mp hroom)]

theorem find?_makeRoom (c : Cache) (m : Moment) (incoming : UInt64) (key : String) :
    (c.makeRoom m incoming).1.find? key =
      if key ∈ (c.gone m incoming).map Prod.fst then none else c.find? key := by
  unfold makeRoom
  split
  · exact c.find?_removeAll (c.gone m incoming) key
  · next hroom =>
    rw [gone_eq_nil m hroom]
    rfl

/-! ## Insertion -/

/-- The keys that have to go for an entry, in place of the one of its key. -/
def evictedFor (c : Cache) (m : Moment) (e : Entry) : List String :=
  ((c.remove e.key).gone m e.storedSize).map Prod.fst

theorem find?_accept (c : Cache) (m : Moment) (e : Entry) (key : String) :
    (c.accept m e).1.find? key =
      if key = e.key then some e
      else if key ∈ c.evictedFor m e then none else c.find? key := by
  show Table.find? (Table.insert _ e.key e) key = _
  rw [Table.find?_insert]
  split
  · rfl
  · next hne =>
    show ((c.remove e.key).makeRoom m e.storedSize).1.find? key = _
    rw [find?_makeRoom, find?_remove, if_neg hne]
    rfl

/-- What is accepted expires when its lifetime is over. -/
theorem expires_eq {m : Moment} {ttl : Nat} {expires : Instant}
    (h : m.now.after ttl = .ok expires) : expires = ⟨m.now.nanos + ttl⟩ := by
  unfold Instant.after at h
  split at h
  · exact (Except.ok.inj h).symm
  · cases h

/-! ## Deletion -/

theorem find?_delete (c : Cache) (key other : String) :
    (c.delete key).2.find? other = if other = key then none else c.find? other :=
  (c.bump key).find?_remove key other

/-! ## Expiry -/

theorem get_fst (c : Cache) (m : Moment) (key : String) :
    (c.get m key).1 = (c.find? key).filter fun e => !e.isExpired m.now := by
  unfold get
  cases c.find? key with
  | none => rfl
  | some e =>
    dsimp only
    rw [Option.filter_some]
    cases e.isExpired m.now <;> rfl

theorem find?_get (c : Cache) (m : Moment) (key other : String) :
    (c.get m key).2.find? other =
      if other = key then (c.find? key).filter fun e => !e.isExpired m.now
      else c.find? other := by
  unfold get
  cases hfound : c.find? key with
  | none =>
    show c.find? other = _
    split
    · next hsame => rw [hsame, hfound, Option.filter_none]
    · rfl
  | some e =>
    dsimp only
    cases hexpired : e.isExpired m.now with
    | true =>
      show (c.remove key).find? other = _
      rw [find?_remove, Option.filter_some, hexpired]
      rfl
    | false =>
      show c.find? other = _
      split
      · next hsame =>
        rw [hsame, hfound, Option.filter_some, hexpired]
        rfl
      · rfl

theorem find?_sweep (c : Cache) (m : Moment) (key : String) :
    (c.sweep m).2.find? key = (c.find? key).filter fun e => !e.isExpired m.now := by
  show (c.removeAll (c.entries.rows.filter (·.2.isExpired m.now))).find? key = _
  have hdead : key ∈ (c.entries.rows.filter (·.2.isExpired m.now)).map Prod.fst ↔
      ∃ e, c.find? key = some e ∧ e.isExpired m.now = true := by
    rw [List.mem_map]
    constructor
    · rintro ⟨⟨other, e⟩, hrow, rfl⟩
      obtain ⟨hmem, hexpired⟩ := List.mem_filter.mp hrow
      exact ⟨e, Table.mem_rows_iff.mp hmem, hexpired⟩
    · rintro ⟨e, hfound, hexpired⟩
      exact ⟨(key, e), List.mem_filter.mpr ⟨Table.mem_rows_iff.mpr hfound, hexpired⟩, rfl⟩
  rw [find?_removeAll]
  cases hfound : c.find? key with
  | none => rw [Option.filter_none, ite_self]
  | some e =>
    simp only [hfound, Option.some.injEq, exists_eq_left'] at hdead
    cases hexpired : e.isExpired m.now with
    | true => rw [if_pos (hdead.mpr hexpired), Option.filter_some, hexpired]; rfl
    | false =>
      rw [if_neg (by simp [hdead, hexpired]), Option.filter_some, hexpired]
      rfl

theorem isExpired_eq_false_iff {e : Entry} {now : Instant} :
    e.isExpired now = false ↔ now.nanos < e.expires.nanos :=
  decide_eq_false_iff_not.trans Nat.not_le

section live

variable {c : Cache} {m : Moment} {key : String} {e : Entry}

theorem filter_find?_of_live (hfound : c.find? key = some e) (hlive : e.isExpired m.now = false) :
    ((c.find? key).filter fun e => !e.isExpired m.now) = some e := by
  rw [hfound, Option.filter_some, hlive]
  rfl

theorem get_fst_of_live (hfound : c.find? key = some e) (hlive : e.isExpired m.now = false) :
    (c.get m key).1 = some e := by
  rw [get_fst]
  exact filter_find?_of_live hfound hlive

theorem find?_get_of_live (hfound : c.find? key = some e) (hlive : e.isExpired m.now = false)
    (other : String) : (c.get m other).2.find? key = some e := by
  rw [find?_get]
  by_cases hsame : key = other
  · rw [if_pos hsame, ← hsame]
    exact filter_find?_of_live hfound hlive
  · rw [if_neg hsame]
    exact hfound

theorem find?_sweep_of_live (hfound : c.find? key = some e) (hlive : e.isExpired m.now = false) :
    (c.sweep m).2.find? key = some e := by
  rw [find?_sweep]
  exact filter_find?_of_live hfound hlive

end live

/--
The second cache is the first without the entry `e` of a key. The size goes down by what the entry
stood for, and by no less if the sizes of a cache that large are words.
-/
structure Released (c : Cache) (key : String) (e : Entry) (c' : Cache) : Prop where
  find? : ∀ other, c'.find? other = if other = key then none else c.find? other
  size : c'.size + 1 = c.size
  currentSize : c'.currentSize.toNat = c.currentSize.toNat - e.storedSize.toNat
  exact : c.Sound → c'.currentSize.toNat + e.storedSize.toNat = c.currentSize.toNat

theorem released_remove {c : Cache} {key : String} {e : Entry} (hfound : c.find? key = some e) :
    c.Released key e (c.remove key) where
  find? := c.find?_remove key
  size := by
    rw [remove_of_find?_eq_some hfound]
    exact (Table.perm_cons_erase hfound).length_eq.symm
  currentSize := by
    rw [remove_of_find?_eq_some hfound]
    exact toNat_less _ _
  exact := fun hsound => currentSize_remove hsound.measured hfound

/-- A look-up that finds a dead entry shows nothing and releases the entry. -/
theorem released_get {c : Cache} {m : Moment} {key : String} {e : Entry}
    (hfound : c.find? key = some e) (hexpired : e.isExpired m.now = true) :
    (c.get m key).1 = none ∧ c.Released key e (c.get m key).2 := by
  have hremoved := released_remove hfound
  unfold get
  rw [hfound]
  dsimp only
  rw [if_pos hexpired]
  exact ⟨rfl, hremoved.find?, hremoved.size, hremoved.currentSize, hremoved.exact⟩

/-! ## Losing an entry -/

/-- The second cache is the first, perhaps without the entry of a key. -/
structure Clears (c : Cache) (key : String) (c' : Cache) : Prop where
  /-- No entry is new. -/
  find? : ∀ {other e}, c'.find? other = some e → c.find? other = some e
  others : ∀ other, other ≠ key → c'.find? other = c.find? other
  currentSize : c'.currentSize.toNat ≤ c.currentSize.toNat

theorem clears_refl (c : Cache) (key : String) : c.Clears key c where
  find? := id
  others := fun _ _ => rfl
  currentSize := Nat.le_refl _

theorem clears_remove (c : Cache) (key : String) : c.Clears key (c.remove key) where
  find? := (c.shrinks_remove key).find?
  others := by
    intro other hne
    rw [find?_remove, if_neg hne]
  currentSize := by
    cases hfound : c.find? key with
    | none => rw [remove_of_find?_eq_none hfound]
    | some e =>
      rw [(released_remove hfound).currentSize]
      exact Nat.sub_le _ _

theorem clears_delete (c : Cache) (key : String) : c.Clears key (c.delete key).2 where
  find? := find?_of_find?_delete
  others := ((c.bump key).clears_remove key).others
  currentSize := ((c.bump key).clears_remove key).currentSize

theorem clears_get (c : Cache) (m : Moment) (key : String) : c.Clears key (c.get m key).2 where
  find? := (c.shrinks_get m key).find?
  others := by
    intro other hne
    rw [find?_get, if_neg hne]
  currentSize := by
    unfold get
    cases c.find? key with
    | none => exact Nat.le_refl _
    | some e =>
      dsimp only
      by_cases hexpired : e.isExpired m.now = true
      · rw [if_pos hexpired]
        exact (c.clears_remove key).currentSize
      · rw [if_neg hexpired]

end ReadThrough.Cache
