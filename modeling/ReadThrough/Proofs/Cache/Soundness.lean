import ReadThrough.Proofs.Cache.Accounting

/-!
# Every cache is sound

* `exists_perform_eq` — in a sound cache an operation gives a result, computes with the true numbers
  throughout, and leaves a sound cache
* `performAll_empty_sound` — hence every run from a cache without entries does
-/

namespace ReadThrough.Cache

/-! ## Operations -/

theorem Sound.withBooks {c : Cache} (h : c.Sound) (counters : Counters) (lastSweep : Option Time) :
    ({ c with counters := counters, lastSweep := lastSweep } : Cache).Sound :=
  ⟨h.exact, h.bounded, h.keyed, h.sized⟩

theorem Sound.bump {c : Cache} (h : c.Sound) (key : String) : (c.bump key).Sound :=
  ⟨h.exact, h.bounded, h.keyed, h.sized⟩

section accept

variable {c : Cache} {e : Entry}

/-- The cache with room for an entry in place of the one of its key. -/
def roomFor (c : Cache) (m : Moment) (e : Entry) : Cache :=
  ((c.remove e.key).makeRoom m e.storedSize).1

theorem find?_roomFor (c : Cache) (m : Moment) (e : Entry) :
    (c.roomFor m e).find? e.key = none :=
  ((c.remove e.key).shrinks_makeRoom m e.storedSize).find?_eq_none (c.find?_remove_self e.key)

theorem currentSize_roomFor (h : c.Measured) (hmax : c.maxSize.toNat < 2 ^ 63) (m : Moment)
    (he : e.storedSize.toNat ≤ c.maxSize.toNat) :
    (c.roomFor m e).currentSize.toNat + e.storedSize.toNat ≤ c.maxSize.toNat := by
  have hsame := (c.sameTerms_remove e.key).maxSize
  have hmax' : (c.remove e.key).maxSize.toNat < 2 ^ 63 := by rwa [hsame]
  have he' : e.storedSize.toNat ≤ (c.remove e.key).maxSize.toNat := by rwa [hsame]
  have hroom := currentSize_makeRoom (h.remove e.key) hmax' m he'
  rwa [hsame] at hroom

theorem toNat_currentSize_accept (h : c.Measured) (hmax : c.maxSize.toNat < 2 ^ 63) (m : Moment)
    (he : e.storedSize.toNat ≤ c.maxSize.toNat) :
    (c.roomFor m e).currentSize.toNat + e.storedSize.toNat < UInt64.size := by
  have hroom := currentSize_roomFor h hmax m he
  have : UInt64.size = 2 ^ 64 := rfl
  omega

theorem acceptChecked_eq (h : c.Sound) (hmax : c.maxSize.toNat < 2 ^ 63) (m : Moment)
    (he : e.storedSize.toNat ≤ c.maxSize.toNat) :
    c.acceptChecked m e = .ok (c.accept m e) := by
  have hsame := (c.sameTerms_remove e.key).maxSize
  have hmax' : (c.remove e.key).maxSize.toNat < 2 ^ 63 := by rwa [hsame]
  have he' : e.storedSize.toNat ≤ (c.remove e.key).maxSize.toNat := by rwa [hsame]
  have hroom : (c.remove e.key).makeRoomChecked m e.storedSize = _ :=
    makeRoomChecked_eq (h.remove e.key) hmax' m he'
  have hsum :
      sumChecked ((c.remove e.key).makeRoom m e.storedSize).1.currentSize e.storedSize = _ :=
    sumChecked_eq (toNat_currentSize_accept h.measured hmax m he)
  unfold acceptChecked accept
  simp only [removeChecked_eq h, hroom, hsum, bind, Except.bind, pure, Except.pure]

theorem rows_accept (c : Cache) (m : Moment) (e : Entry) :
    (c.accept m e).1.entries.rows = (c.roomFor m e).entries.rows ++ [(e.key, e)] :=
  Table.rows_insert_of_find?_eq_none (c.find?_roomFor m e)

theorem currentSize_accept (h : c.Measured) (hmax : c.maxSize.toNat < 2 ^ 63) (m : Moment)
    (he : e.storedSize.toNat ≤ c.maxSize.toNat) :
    (c.accept m e).1.currentSize.toNat =
      (c.roomFor m e).currentSize.toNat + e.storedSize.toNat :=
  toNat_sum (toNat_currentSize_accept h hmax m he)

theorem Measured.accept (h : c.Measured) (hmax : c.maxSize.toNat < 2 ^ 63) (m : Moment)
    (he : e.storedSize.toNat ≤ c.maxSize.toNat) : (c.accept m e).1.Measured := by
  have hsize := currentSize_accept h hmax m he
  have hroomy : (c.roomFor m e).Measured := (h.remove e.key).makeRoom m e.storedSize
  refine ⟨?_, ?_⟩
  · rw [hsize, rows_accept, storedTotal_append, storedTotal_cons, storedTotal_nil, hroomy.exact]
    rfl
  · rw [hsize, (c.adds_accept m e).maxSize]
    exact currentSize_roomFor h hmax m he

theorem Sound.accept (h : c.Sound) (hmax : c.maxSize.toNat < 2 ^ 63) (m : Moment)
    (hsized : e.WellSized) (he : e.raw.length ≤ c.maxSize.toNat) : (c.accept m e).1.Sound := by
  have hstored := Nat.le_trans hsized.storedSize_le he
  have hmeasured := h.measured.accept hmax m hstored
  have hroomy : (c.roomFor m e).Sound := (h.remove e.key).makeRoom m e.storedSize
  have hmem : ∀ row ∈ (c.accept m e).1.entries.rows,
      row ∈ (c.roomFor m e).entries.rows ∨ row = (e.key, e) := by
    intro row hrow
    rwa [rows_accept, List.mem_append, List.mem_singleton] at hrow
  refine ⟨hmeasured.exact, hmeasured.bounded, ?_, ?_⟩
  · intro row hrow
    rcases hmem row hrow with hold | rfl
    · exact hroomy.keyed row hold
    · rfl
  · intro row hrow
    rcases hmem row hrow with hold | rfl
    · exact hroomy.sized row hold
    · exact ⟨hsized, by rw [(c.adds_accept m e).maxSize]; exact he⟩

end accept

section operations

variable {c : Cache}

theorem insertChecked_eq (h : c.Sound) (hmax : c.maxSize.toNat < 2 ^ 63) {m : Moment}
    {key : String} {content : Bytes} {metadata : Metadata} {expected : Option UInt64}
    {done : Insertion} (hdone : c.insert m key content metadata expected = .ok done) :
    c.insertChecked m key content metadata expected = .ok done := by
  unfold insertChecked
  unfold insert at hdone
  split at hdone
  · next hsize =>
    rw [if_pos hsize]
    exact congrArg Except.ok (Except.ok.inj hdone)
  · next hsize =>
    have hraw : content.length ≤ c.maxSize.toNat := Nat.le_of_not_lt hsize
    rw [if_neg hsize]
    cases hexpires : m.now.after c.ttl with
    | error halt => simp [hexpires, bind, Except.bind] at hdone
    | ok expires =>
      have hstored : (c.entryOf key content metadata expires).storedSize.toNat ≤ c.maxSize.toNat :=
        Nat.le_trans (wellSized_make key _ metadata expires hraw).storedSize_le hraw
      have haccept := acceptChecked_eq h hmax m hstored
      unfold entryOf at haccept
      have hend : (Except.ok expires).mapError SizeFault.halt = .ok expires := rfl
      simp only [hexpires, bind, Except.bind] at hdone
      simp only [hend, bind, Except.bind, haccept]
      split at hdone
      · next hall =>
        rw [if_pos hall]
        exact congrArg Except.ok (Except.ok.inj hdone)
      · next hall =>
        rw [if_neg hall]
        exact congrArg Except.ok (Except.ok.inj hdone)

theorem Sound.insert (h : c.Sound) (hmax : c.maxSize.toNat < 2 ^ 63) {m : Moment} {key : String}
    {content : Bytes} {metadata : Metadata} {expected : Option UInt64} {done : Insertion}
    (hdone : c.insert m key content metadata expected = .ok done) : done.cache.Sound := by
  rcases insert_cases hdone with rfl | ⟨hsize, -, expires, -, rfl⟩
  · exact h
  · exact h.accept hmax m (wellSized_make key _ metadata expires hsize) hsize

theorem sameTerms_insert {m : Moment} {key : String} {content : Bytes} {metadata : Metadata}
    {expected : Option UInt64} {done : Insertion}
    (hdone : c.insert m key content metadata expected = .ok done) : c.SameTerms done.cache := by
  rcases insert_cases hdone with rfl | ⟨-, -, expires, -, rfl⟩
  · exact .refl c
  · exact (c.adds_accept m _).toSameTerms

theorem getChecked_eq (h : c.Sound) (m : Moment) (key : String) :
    c.getChecked m key = .ok (c.get m key) := by
  unfold getChecked get
  cases c.find? key with
  | none => rfl
  | some e =>
    cases hexpired : e.isExpired m.now with
    | false => simp only [hexpired, Bool.false_eq_true, if_false]
    | true =>
      simp only [hexpired, if_true, removeChecked_eq h, bind, Except.bind, pure, Except.pure]

theorem Sound.get (h : c.Sound) (m : Moment) (key : String) : (c.get m key).2.Sound := by
  unfold Cache.get
  split
  · exact h.withBooks _ _
  · split
    · exact (h.remove key).withBooks _ _
    · exact h.withBooks _ _

theorem deleteChecked_eq (h : c.Sound) (key : String) :
    c.deleteChecked key = .ok (c.delete key) := by
  unfold deleteChecked delete
  rw [removeChecked_eq (h.bump key)]
  rfl

theorem Sound.delete (h : c.Sound) (key : String) : (c.delete key).2.Sound :=
  (h.bump key).remove key

theorem sweepChecked_eq (h : c.Sound) (m : Moment) : c.sweepChecked m = .ok (c.sweep m) := by
  unfold sweepChecked sweep
  dsimp only
  rw [removeAllChecked_eq h]
  rfl

theorem Sound.sweep (h : c.Sound) (m : Moment) : (c.sweep m).2.Sound :=
  (h.removeAll _).withBooks _ _

/-- In a sound cache an operation computes with the true numbers and leaves a sound cache. -/
theorem exists_perform_eq (h : c.Sound) (hmax : c.maxSize.toNat < 2 ^ 63) (o : Operation)
    (ho : o.EndsInTime c.ttl) :
    ∃ answer c', c.perform o = .ok (answer, c') ∧ c.performChecked o = .ok (answer, c') ∧
      c'.Sound ∧ c'.maxSize = c.maxSize ∧ c'.ttl = c.ttl := by
  cases o with
  | insert m key content metadata expected =>
    obtain ⟨done, hdone⟩ := exists_insert_eq_ok ho key content metadata expected
    have hterms := sameTerms_insert hdone
    refine ⟨.inserted done.accepted done.evicted, done.cache, ?_, ?_, h.insert hmax hdone,
      hterms.maxSize, hterms.ttl⟩
    · rw [perform, hdone]
      rfl
    · rw [performChecked, insertChecked_eq h hmax hdone]
      rfl
  | get m key =>
    have hterms := c.shrinks_get m key
    refine ⟨_, _, rfl, ?_, h.get m key, hterms.maxSize, hterms.ttl⟩
    rw [performChecked, getChecked_eq h]
    rfl
  | delete key =>
    have hterms := c.shrinks_delete key
    refine ⟨_, _, rfl, ?_, h.delete key, hterms.maxSize, hterms.ttl⟩
    rw [performChecked, deleteChecked_eq h]
    rfl
  | sweep m =>
    have hterms := c.shrinks_sweep m
    refine ⟨_, _, rfl, ?_, h.sweep m, hterms.maxSize, hterms.ttl⟩
    rw [performChecked, sweepChecked_eq h]
    rfl

end operations

/-! ## Runs -/

/-- A run from a sound cache computes with the true numbers throughout and leaves a sound cache. -/
theorem exists_performAll_eq {c : Cache} (h : c.Sound) (hmax : c.maxSize.toNat < 2 ^ 63)
    (operations : List Operation) (hends : ∀ o ∈ operations, o.EndsInTime c.ttl) :
    ∃ answers c', c.performAll operations = .ok (answers, c') ∧
      c.performAllChecked operations = .ok (answers, c') ∧
      c'.Sound ∧ c'.maxSize = c.maxSize := by
  induction operations generalizing c with
  | nil => exact ⟨[], c, rfl, rfl, h, rfl⟩
  | cons o rest ih =>
    obtain ⟨answer, c₁, hplain, hchecked, hsound, hmaxSize, httl⟩ :=
      exists_perform_eq h hmax o (hends o List.mem_cons_self)
    obtain ⟨answers, c₂, hplain', hchecked', hsound', hmaxSize'⟩ :=
      ih hsound (by rwa [hmaxSize]) fun o' ho' => by
        rw [httl]
        exact hends o' (List.mem_cons_of_mem o ho')
    refine ⟨answer :: answers, c₂, performAll_cons hplain hplain', ?_, hsound',
      hmaxSize'.trans hmaxSize⟩
    rw [performAllChecked, hchecked]
    show (c₁.performAllChecked rest >>= _) = _
    rw [hchecked']
    rfl

/--
**Every cache is sound.** Whatever is done with a cache that starts without entries, its size is the
sum of its entries' sizes and within the bound, its entries lie under their own keys and state their
sizes truly, and on the way no sum of sizes has started again and no difference has stopped at zero.
-/
theorem performAll_empty_sound {maxSize : UInt64} (hmax : maxSize.toNat < 2 ^ 63) {ttl : Nat}
    (policy : CompressionPolicy) {operations : List Operation}
    (hends : ∀ o ∈ operations, o.EndsInTime ttl) :
    ∃ answers c, (empty maxSize ttl policy).performAll operations = .ok (answers, c) ∧
      (empty maxSize ttl policy).performAllChecked operations = .ok (answers, c) ∧
      c.Sound ∧ c.maxSize = maxSize :=
  exists_performAll_eq (sound_empty maxSize ttl policy) hmax operations hends

/-- A run in which an entry makes room for another, which is dead when it is looked up. -/
def crowdedRun : List Operation :=
  let metadata : Metadata := ⟨"text/plain", 6, ⟨0, 0⟩, "tag"⟩
  [.insert (.at ⟨0⟩ ⟨0, 0⟩) "a/1" [1, 2, 3, 4, 5, 6] metadata none,
    .insert (.at ⟨1⟩ ⟨0, 0⟩) "a/2" [1, 2, 3, 4, 5, 6] metadata (some 0),
    .get (.at ⟨6⟩ ⟨0, 0⟩) "a/2", .delete "a/1", .sweep (.at ⟨7⟩ ⟨0, 0⟩)]

theorem performAll_empty_sound_crowded :
    (∀ o ∈ crowdedRun, o.EndsInTime 5) ∧
      ((empty 10 5 ⟨100⟩).performAll crowdedRun).toOption.map Prod.fst =
        some [.inserted true 0, .inserted true 1, .found none, .deleted false, .swept 0] ∧
      ∃ answers c, (empty 10 5 ⟨100⟩).performAll crowdedRun = .ok (answers, c) ∧
        (empty 10 5 ⟨100⟩).performAllChecked crowdedRun = .ok (answers, c) ∧
        c.Sound ∧ c.maxSize = 10 := by
  have hends : ∀ o ∈ crowdedRun, o.EndsInTime 5 := by
    simp [crowdedRun, Operation.EndsInTime, Moment.at, Instant.limit, Time.second]
  exact ⟨hends, by decide +kernel, performAll_empty_sound (by decide) ⟨100⟩ hends⟩

end ReadThrough.Cache
