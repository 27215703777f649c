import Mathlib.Algebra.Ring.Nat
import ReadThrough.Cache.Basic

/-!
# What is found after an operation

Every operation of a cache removes entries, and an accepted insertion then adds one.

* `Shrinks` — what removal means to everybody else: nothing is found that was not found before
* `Adds` — what an accepted insertion means: its entry is found, of the others perhaps fewer
* `insert_cases` — what an insertion does, by whether it accepts

None of them moves a generation but a deletion, which moves that of one slot (`generation_delete`).
-/

namespace ReadThrough.Cache

/-! ## Only removing -/

/-- The second cache has the settings of the first. -/
structure SameSettings (c c' : Cache) : Prop where
  maxSize : c'.maxSize = c.maxSize
  ttl : c'.ttl = c.ttl
  policy : c'.policy = c.policy

theorem SameSettings.trans {a b c : Cache} (h : a.SameSettings b) (h' : b.SameSettings c) :
    a.SameSettings c where
  maxSize := h'.maxSize.trans h.maxSize
  ttl := h'.ttl.trans h.ttl
  policy := h'.policy.trans h.policy

/-- The second cache has the generations and the settings of the first. -/
structure SameTerms (c c' : Cache) : Prop extends SameSettings c c' where
  generations : c'.generations = c.generations

theorem SameTerms.refl (c : Cache) : c.SameTerms c :=
  ⟨⟨rfl, rfl, rfl⟩, rfl⟩

theorem SameTerms.trans {a b c : Cache} (h : a.SameTerms b) (h' : b.SameTerms c) :
    a.SameTerms c where
  toSameSettings := h.toSameSettings.trans h'.toSameSettings
  generations := h'.generations.trans h.generations

theorem SameTerms.symm {c c' : Cache} (h : c.SameTerms c') : c'.SameTerms c where
  toSameSettings := ⟨h.maxSize.symm, h.ttl.symm, h.policy.symm⟩
  generations := h.generations.symm

theorem SameTerms.generation_eq {c c' : Cache} (h : c.SameTerms c') (key : String) :
    c'.generation key = c.generation key := by
  unfold Cache.generation
  rw [h.generations]

/-- The second cache is the first with some entries removed. -/
structure Shrinks (c c' : Cache) : Prop extends SameTerms c c' where
  find? : ∀ {key e}, c'.find? key = some e → c.find? key = some e

theorem Shrinks.refl (c : Cache) : c.Shrinks c :=
  ⟨.refl c, id⟩

theorem Shrinks.trans {a b c : Cache} (h : a.Shrinks b) (h' : b.Shrinks c) : a.Shrinks c :=
  ⟨h.toSameTerms.trans h'.toSameTerms, fun hfound => h.find? (h'.find? hfound)⟩

/-- What is not found before is not found after. -/
theorem Shrinks.find?_eq_none {c c' : Cache} (h : c.Shrinks c') {key : String}
    (hnone : c.find? key = none) : c'.find? key = none := by
  cases hfound : c'.find? key with
  | none => rfl
  | some e =>
    rw [h.find? hfound] at hnone
    simp at hnone

/-- Counts and the time of the last sweep say nothing about entries. -/
theorem Shrinks.withBooks {c c' : Cache} (h : c.Shrinks c') (counters : Counters)
    (lastSweep : Option Time) :
    c.Shrinks { c' with counters := counters, lastSweep := lastSweep } :=
  ⟨⟨⟨h.maxSize, h.ttl, h.policy⟩, h.generations⟩, h.find?⟩

/-! ## The parts that remove -/

theorem remove_of_find?_eq_none {c : Cache} {key : String} (h : c.find? key = none) :
    c.remove key = c := by
  unfold remove
  rw [h]

theorem remove_of_find?_eq_some {c : Cache} {key : String} {e : Entry}
    (h : c.find? key = some e) :
    c.remove key = { c with
      entries := c.entries.erase key
      currentSize := less c.currentSize e.storedSize } := by
  unfold remove
  rw [h]

theorem find?_remove (c : Cache) (key other : String) :
    (c.remove key).find? other = if other = key then none else c.find? other := by
  cases hfound : c.find? key with
  | none =>
    rw [remove_of_find?_eq_none hfound]
    split
    · next he => rw [he, hfound]
    · rfl
  | some e =>
    rw [remove_of_find?_eq_some hfound]
    exact c.entries.find?_erase key other

theorem find?_remove_self (c : Cache) (key : String) : (c.remove key).find? key = none := by
  rw [find?_remove, if_pos rfl]

theorem sameTerms_remove (c : Cache) (key : String) : c.SameTerms (c.remove key) := by
  unfold remove
  split <;> exact ⟨⟨rfl, rfl, rfl⟩, rfl⟩

theorem shrinks_remove (c : Cache) (key : String) : c.Shrinks (c.remove key) where
  toSameTerms := c.sameTerms_remove key
  find? := by
    intro other e hfound
    rw [find?_remove] at hfound
    split at hfound
    · simp at hfound
    · exact hfound

theorem shrinks_removeAll (c : Cache) (rows : List (String × Entry)) :
    c.Shrinks (c.removeAll rows) := by
  induction rows generalizing c with
  | nil => exact .refl c
  | cons row rows ih => exact (c.shrinks_remove row.1).trans (ih (c.remove row.1))

theorem shrinks_makeRoom (c : Cache) (m : Moment) (incoming : UInt64) :
    c.Shrinks (c.makeRoom m incoming).1 := by
  unfold makeRoom
  split
  · exact (c.shrinks_removeAll _).withBooks _ _
  · exact .refl c

/-! ## The operations that only remove -/

theorem shrinks_get (c : Cache) (m : Moment) (key : String) : c.Shrinks (c.get m key).2 := by
  unfold get
  split
  · exact (Shrinks.refl c).withBooks _ _
  · split
    · exact (c.shrinks_remove key).withBooks _ _
    · exact (Shrinks.refl c).withBooks _ _

/-- What a look-up finds is there, and live. -/
theorem find?_of_get {c : Cache} {m : Moment} {key : String} {e : Entry}
    (h : (c.get m key).1 = some e) : c.find? key = some e ∧ e.isExpired m.now = false := by
  unfold get at h
  split at h
  · simp at h
  · next found hfound =>
    split at h
    · simp at h
    · next hlive =>
      obtain rfl := Option.some.inj h
      exact ⟨hfound, by simpa using hlive⟩

theorem shrinks_sweep (c : Cache) (m : Moment) : c.Shrinks (c.sweep m).2 :=
  (c.shrinks_removeAll _).withBooks _ _

/-- A deletion moves a generation, and beyond that it only removes. -/
theorem shrinks_delete (c : Cache) (key : String) : (c.bump key).Shrinks (c.delete key).2 :=
  (c.bump key).shrinks_remove key

theorem sameSettings_delete (c : Cache) (key : String) : c.SameSettings (c.delete key).2 :=
  have hleft := c.shrinks_delete key
  ⟨hleft.maxSize, hleft.ttl, hleft.policy⟩

theorem find?_of_find?_delete {c : Cache} {key other : String} {e : Entry}
    (h : (c.delete key).2.find? other = some e) : c.find? other = some e :=
  (c.shrinks_delete key).find? h

theorem find?_delete_self (c : Cache) (key : String) : (c.delete key).2.find? key = none :=
  (c.bump key).find?_remove_self key

/-! ## Generations -/

/-- A generation is a word: it is the same again only after a multiple of 2⁶⁴ moves. -/
theorem add_ofNat_eq_self_iff {generation : UInt64} {moves : Nat} :
    generation + UInt64.ofNat moves = generation ↔ 2 ^ 64 ∣ moves := by
  have hword : UInt64.ofNat moves = 0 ↔ moves % 2 ^ 64 = 0 := by
    rw [← UInt64.toNat_inj, UInt64.toNat_ofNat']
    rfl
  rw [Nat.dvd_iff_mod_eq_zero, ← hword]
  simp

theorem generation_bump (c : Cache) (key other : String) :
    (c.bump key).generation other =
      if slotOfKey other = slotOfKey key then c.generation other + 1 else c.generation other := by
  show (c.generations.set (slotOfKey key).val _ (slotOfKey key).isLt)[(slotOfKey other).val] = _
  rw [Vector.getElem_set]
  by_cases h : slotOfKey other = slotOfKey key
  · have hself : c.generation other = c.generation key :=
      congrArg (fun slot : Fin generationSlots => c.generations[slot]) h
    have hslot : (slotOfKey key).val = (slotOfKey other).val := by rw [h]
    rw [if_pos h, if_pos hslot, hself]
  · have hslot : (slotOfKey key).val ≠ (slotOfKey other).val := fun he => h (Fin.ext he.symm)
    rw [if_neg h, if_neg hslot]
    rfl

/-- A deletion moves the generation of its slot by one and no other. -/
theorem generation_delete (c : Cache) (key other : String) :
    (c.delete key).2.generation other =
      if slotOfKey other = slotOfKey key then c.generation other + 1 else c.generation other := by
  rw [(c.shrinks_delete key).generation_eq, generation_bump]

/-! ## Adding -/

/-- The second cache has an entry more than the first, and of the others perhaps fewer. -/
structure Adds (c : Cache) (e : Entry) (c' : Cache) : Prop extends SameTerms c c' where
  found : c'.find? e.key = some e
  others : ∀ {key x}, key ≠ e.key → c'.find? key = some x → c.find? key = some x

theorem adds_accept (c : Cache) (m : Moment) (e : Entry) : c.Adds e (c.accept m e).1 := by
  have hleft : c.Shrinks ((c.remove e.key).makeRoom m e.storedSize).1 :=
    (c.shrinks_remove e.key).trans ((c.remove e.key).shrinks_makeRoom m e.storedSize)
  refine ⟨⟨⟨hleft.maxSize, hleft.ttl, hleft.policy⟩, hleft.generations⟩, ?_, ?_⟩
  · show Table.find? (Table.insert _ e.key e) e.key = some e
    rw [Table.find?_insert, if_pos rfl]
  · intro key x hne hfound
    refine hleft.find? ?_
    change Table.find? (Table.insert _ e.key e) key = some x at hfound
    rwa [Table.find?_insert, if_neg hne] at hfound

/-- The entry that an insertion makes of a content. -/
def entryOf (c : Cache) (key : String) (content : Bytes) (metadata : Metadata)
    (expires : Instant) : Entry :=
  .make key content (c.policy.packed? metadata.contentType content) metadata expires

/--
An insertion refuses its content and changes nothing, or accepts it. It accepts a content within
the bound whose generation, if one is expected, has not moved.
-/
theorem insert_cases {c : Cache} {m : Moment} {key : String} {content : Bytes}
    {metadata : Metadata} {expected : Option UInt64} {done : Insertion}
    (h : c.insert m key content metadata expected = .ok done) :
    done = ⟨false, 0, c⟩ ∨
      (content.length ≤ c.maxSize.toNat ∧ (∀ g, expected = some g → g = c.generation key) ∧
        ∃ expires, m.now.after c.ttl = .ok expires ∧
          done = ⟨true, (c.accept m (c.entryOf key content metadata expires)).2,
            (c.accept m (c.entryOf key content metadata expires)).1⟩) := by
  unfold insert at h
  split at h
  · exact Or.inl (Except.ok.inj h).symm
  · next hsize =>
    cases hexpires : m.now.after c.ttl with
    | error => simp [hexpires, bind, Except.bind] at h
    | ok expires =>
      simp only [hexpires, bind, Except.bind] at h
      split at h
      · next hall =>
        refine Or.inr ⟨by omega, ?_, expires, rfl, (Except.ok.inj h).symm⟩
        intro g hg
        simpa [hg] using hall
      · exact Or.inl (Except.ok.inj h).symm

/-- An insertion gives a result if the end of the lifetime is an instant. -/
theorem exists_insert_eq_ok {c : Cache} {m : Moment} (hclock : m.now.nanos + c.ttl < Instant.limit)
    (key : String) (content : Bytes) (metadata : Metadata) (expected : Option UInt64) :
    ∃ done, c.insert m key content metadata expected = .ok done := by
  have hexpires : m.now.after c.ttl = .ok ⟨m.now.nanos + c.ttl⟩ := by
    unfold Instant.after
    rw [if_pos hclock]
  unfold insert
  split
  · exact ⟨_, rfl⟩
  · simp only [hexpires, bind, Except.bind]
    split <;> exact ⟨_, rfl⟩

end ReadThrough.Cache
