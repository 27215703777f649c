import ReadThrough.Proofs.Cache.Conservation

/-!
# Eviction frees enough and no more

An accepted entry takes the place of the one of its key. Where the others leave too little room for
it, some of them have to go: the first ones of a walk, one after another, until the entry fits.

* `victims_eq_nil`, `victims_needed` — nobody goes who need not go
* `currentSize_makeRoom_add` — what the victims stood for is what is freed
* `makesWay_accept` — what that means for a cache that accepts an entry, in any order of walking
* `exists_victims` — and so for every insertion that accepts its content

Of the cache it is asked only that its sum of sizes is exact and within the bound (`Measured`);
the entries may be of any size, zero included.
-/

namespace ReadThrough.Cache

/-! ## Whom a walk selects -/

section victims

variable {maxSize incoming current : UInt64} {rows : List (String × Entry)}

/-- Where the entry fits nobody has to go. -/
theorem victims_eq_nil (hfits : current.toNat + incoming.toNat ≤ maxSize.toNat) :
    victims maxSize incoming current rows = [] := by
  cases rows with
  | nil => rfl
  | cons row rows =>
    have hword := maxSize.toNat_lt
    have hsum : (current + incoming).toNat = current.toNat + incoming.toNat :=
      toNat_sum (Nat.lt_of_le_of_lt hfits hword)
    have hle : current + incoming ≤ maxSize := by
      rw [UInt64.le_iff_toNat_le, hsum]
      exact hfits
    rw [victims, if_pos hle]

/-- Without the last victim the entry would not fit. -/
theorem victims_needed (hcurrent : current.toNat = storedTotal rows)
    (hsum : current.toNat + incoming.toNat < UInt64.size) {front : List (String × Entry)}
    {last : String × Entry} (h : victims maxSize incoming current rows = front ++ [last]) :
    maxSize.toNat + storedTotal front < current.toNat + incoming.toNat := by
  induction rows generalizing current front with
  | nil =>
    rw [victims] at h
    simp at h
  | cons row rows ih =>
    obtain ⟨key, e⟩ := row
    rw [storedTotal_cons] at hcurrent
    have hpart : e.storedSize.toNat ≤ current.toNat := by omega
    have hleft := toNat_less current e.storedSize
    rw [victims] at h
    by_cases hfits : current + incoming ≤ maxSize
    · rw [if_pos hfits] at h
      simp at h
    · rw [if_neg hfits] at h
      rw [UInt64.le_iff_toNat_le, toNat_sum hsum] at hfits
      cases front with
      | nil =>
        rw [storedTotal_nil]
        omega
      | cons first front =>
        -- the first victim is the first of the walk, and the rest is a walk over what it leaves
        obtain ⟨rfl, hrest⟩ := List.cons.inj h
        have hneeded : maxSize.toNat + storedTotal front <
            (less current e.storedSize).toNat + incoming.toNat :=
          ih (by omega) (by omega) hrest
        rw [storedTotal_cons]
        omega

end victims

/-! ## Enough and no more -/

/-- What the victims stood for is what is freed. -/
theorem currentSize_makeRoom_add {c : Cache} (h : c.Measured) (m : Moment) (incoming : UInt64) :
    (c.makeRoom m incoming).1.currentSize.toNat + storedTotal (c.gone m incoming) =
      c.currentSize.toNat := by
  have hrows : ∀ row ∈ c.gone m incoming, row ∈ c.entries.rows :=
    fun _ hrow => mem_rows_of_mem_gone hrow
  have hfreed := currentSize_removeAll h hrows (c.nodup_keys_gone m incoming)
  unfold makeRoom
  by_cases hfull : c.maxSize < c.currentSize + incoming
  · rw [if_pos hfull]
    exact hfreed
  · rw [if_neg hfull, gone_eq_nil m hfull]
    rfl

/--
The second cache is the first with an entry in place of the one of its key, and without the rows
`gone`, which had to make room for it.
-/
structure MakesWay (c : Cache) (m : Moment) (e : Entry) (gone : List (String × Entry))
    (c' : Cache) : Prop where
  /-- The entry of the same key is out of the sum already. -/
  exact : (c.remove e.key).currentSize.toNat = storedTotal (c.remove e.key).entries.rows
  /-- Those who go are the first of a walk over the others. -/
  first : gone <+: m.walk (c.remove e.key).entries.rows
  /-- Nobody goes if the entry fits. -/
  idle : (c.remove e.key).currentSize.toNat + e.storedSize.toNat ≤ c.maxSize.toNat → gone = []
  /-- Without the last of them the entry would not fit. -/
  needed : ∀ front last, gone = front ++ [last] →
    c.maxSize.toNat + storedTotal front <
      (c.remove e.key).currentSize.toNat + e.storedSize.toNat
  /-- Room is made by what they stood for. -/
  size : c'.currentSize.toNat + storedTotal gone =
    (c.remove e.key).currentSize.toNat + e.storedSize.toNat
  enough : c'.currentSize.toNat ≤ c.maxSize.toNat
  measured : c'.Measured
  found : c'.find? e.key = some e
  /-- Those who go are not found any more, and everybody else is found as before. -/
  others : ∀ key, key ≠ e.key →
    c'.find? key = if key ∈ gone.map Prod.fst then none else c.find? key
  evictions : c'.counters.evictions = c.counters.evictions + UInt64.ofNat gone.length

theorem makesWay_accept {c : Cache} {e : Entry} (h : c.Measured)
    (hmax : c.maxSize.toNat < 2 ^ 63) (m : Moment) (he : e.storedSize.toNat ≤ c.maxSize.toNat) :
    c.MakesWay m e ((c.remove e.key).gone m e.storedSize) (c.accept m e).1 := by
  have hleft : (c.remove e.key).Measured := h.remove e.key
  have hterms := c.sameTerms_remove e.key
  have hmax' : (c.remove e.key).maxSize.toNat < 2 ^ 63 := by rwa [hterms.maxSize]
  have he' : e.storedSize.toNat ≤ (c.remove e.key).maxSize.toNat := by rwa [hterms.maxSize]
  have hsum := toNat_currentSize_add hleft hmax' he'
  have hwalk : (c.remove e.key).currentSize.toNat =
      storedTotal (m.walk (c.remove e.key).entries.rows) := by
    rw [storedTotal_walk, hleft.exact]
  have hafter := h.accept hmax m he
  have hsame : (c.accept m e).1.maxSize = c.maxSize := (c.adds_accept m e).maxSize
  refine ⟨hleft.exact, victims_prefix_rows _ _ _ _, ?_, ?_, ?_, ?_, hafter,
    (c.adds_accept m e).found, ?_, ?_⟩
  · intro hfits
    rw [← hterms.maxSize] at hfits
    exact victims_eq_nil hfits
  · intro front last hsplit
    rw [← hterms.maxSize]
    exact victims_needed hwalk hsum hsplit
  · have hfreed := currentSize_makeRoom_add hleft m e.storedSize
    have hsize := currentSize_accept h hmax m he
    unfold roomFor at hsize
    omega
  · rw [← hsame]
    exact hafter.bounded
  · intro key hkey
    rw [find?_accept, if_neg hkey]
    rfl
  · rw [counters_accept]
    rfl

/--
**Eviction frees enough and no more.** Take any cache whose sum of sizes is exact and within the
bound, any order of walking, and an insertion that accepts its content. The new entry is found and
the cache is within its bound. Those who had to go for it are the first of a walk over what there
was without the entry of the same key: none if the new entry fitted, and otherwise no more than
needed, for without the last of them it would not have fitted. Everybody else is found as before,
and the count of evictions has grown by the number of those who went.
-/
theorem exists_victims {c : Cache} (h : c.Measured) (hmax : c.maxSize.toNat < 2 ^ 63)
    {m : Moment} {key : String} {content : Bytes} {metadata : Metadata}
    {expected : Option UInt64} {done : Insertion}
    (hinsert : c.insert m key content metadata expected = .ok done)
    (haccepted : done.accepted = true) :
    ∃ gone, done.evicted = gone.length ∧
      c.MakesWay m (c.entryOf key content metadata ⟨m.now.nanos + c.ttl⟩) gone done.cache := by
  rcases insert_cases hinsert with rfl | ⟨hsize, -, expires, hexpires, rfl⟩
  · cases haccepted
  · obtain rfl := expires_eq hexpires
    have hstored := (wellSized_make key (c.policy.packed? metadata.contentType content) metadata
      ⟨m.now.nanos + c.ttl⟩ hsize).storedSize_le
    refine ⟨_, c.snd_accept m _, makesWay_accept h hmax m ?_⟩
    exact Nat.le_trans hstored hsize

/-- A content of some length at the first instant. -/
def blankEntry (key : String) (length : Nat) : Entry :=
  .make key (List.replicate length 0) none ⟨"text/plain", length, ⟨0, 0⟩, "tag"⟩ ⟨5⟩

/-- Entries of sizes four, zero and three in a cache that may hold ten bytes. -/
def threeFilled : Cache :=
  { empty 10 5 ⟨100⟩ with
    entries := ⟨[("a/1", blankEntry "a/1" 4), ("a/2", blankEntry "a/2" 0),
      ("a/3", blankEntry "a/3" 3)], by decide⟩
    currentSize := 7 }

/-- A moment at which entries are walked from the last to the first. -/
def backwards : Moment where
  now := ⟨1⟩
  civil := ⟨0, 0⟩
  walk := List.reverse
  walk_perm := List.reverse_perm

/--
The theorem at work: an entry of eight bytes takes the place of the first. The last has to go, which
the walk meets first; the empty one behind it may stay.
-/
theorem exists_victims_backwards :
    threeFilled.Measured ∧
      ∃ done, threeFilled.insert backwards "a/1" [1, 2, 3, 4, 5, 6, 7, 8]
          ⟨"text/plain", 8, ⟨0, 0⟩, "tag"⟩ none = .ok done ∧
        done.accepted = true ∧ done.evicted = 1 ∧ done.cache.contains "a/2" = true ∧
        done.cache.contains "a/3" = false ∧
        ∃ gone, done.evicted = gone.length ∧
          threeFilled.MakesWay backwards (threeFilled.entryOf "a/1" [1, 2, 3, 4, 5, 6, 7, 8]
            ⟨"text/plain", 8, ⟨0, 0⟩, "tag"⟩ ⟨6⟩) gone done.cache := by
  have hmeasured : threeFilled.Measured := ⟨by decide +kernel, by decide +kernel⟩
  have hclock : backwards.now.nanos + threeFilled.ttl < Instant.limit := by decide
  obtain ⟨done, hinsert⟩ := exists_insert_eq_ok hclock "a/1" [1, 2, 3, 4, 5, 6, 7, 8]
    ⟨"text/plain", 8, ⟨0, 0⟩, "tag"⟩ none
  have hdone : (threeFilled.insert backwards "a/1" [1, 2, 3, 4, 5, 6, 7, 8]
      ⟨"text/plain", 8, ⟨0, 0⟩, "tag"⟩ none).toOption.map (fun done =>
        (done.accepted, done.evicted, done.cache.contains "a/2", done.cache.contains "a/3")) =
      some (true, 1, true, false) := by
    decide +kernel
  rw [hinsert] at hdone
  simp only [Except.toOption, Option.map_some, Option.some.injEq, Prod.mk.injEq] at hdone
  obtain ⟨haccepted, hevicted, hkept, hcleared⟩ := hdone
  exact ⟨hmeasured, done, hinsert, haccepted, hevicted, hkept, hcleared,
    exists_victims hmeasured (by decide) hinsert haccepted⟩

end ReadThrough.Cache
