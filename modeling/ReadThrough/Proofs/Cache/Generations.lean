import ReadThrough.Proofs.Cache.Conservation

/-!
# An insertion is made whole or not at all

A reader notes the generation of its key, goes to the store behind the cache, and hands the
generation back with the content. Whatever is done with the cache in between, the content is
refused if and only if it is too large or the generation has moved.

## When a generation moves

A deletion moves the generation of its slot by one, whether there was an entry or not, and no other
operation moves any. A generation is a word, so it is the same again after 2⁶⁴ deletions, and it
moves with the deletions of all keys of its slot.

* `moves_perform`, `moves_performAll` — the generations after an operation, and after a run
* `decides_insert` — what an insertion does that is made, and that a refused one does nothing
* `exists_decides` — the main theorem
-/

namespace ReadThrough.Cache

/-! ## Deletions in a slot -/

/-- A deletion of a key that has the slot. -/
def Operation.deletesIn (slot : Fin generationSlots) : Operation → Bool
  | .delete key => slotOfKey key = slot
  | _ => false

/-- How often a key of the slot is deleted. -/
def deletionsIn (slot : Fin generationSlots) (operations : List Operation) : Nat :=
  operations.countP (Operation.deletesIn slot)

theorem deletionsIn_append (slot : Fin generationSlots) (operations others : List Operation) :
    deletionsIn slot (operations ++ others) =
      deletionsIn slot operations + deletionsIn slot others :=
  List.countP_append

theorem deletionsIn_delete (slot : Fin generationSlots) (key : String) :
    deletionsIn slot [.delete key] = if slotOfKey key = slot then 1 else 0 := by
  by_cases h : slotOfKey key = slot <;> simp [deletionsIn, Operation.deletesIn, h]

/-! ## How generations move -/

/-- The second cache has the settings of the first; its generations have moved by deletions only. -/
structure Moves (c : Cache) (operations : List Operation) (c' : Cache) : Prop
    extends SameSettings c c' where
  generation : ∀ key, c'.generation key =
    c.generation key + UInt64.ofNat (deletionsIn (slotOfKey key) operations)

theorem moves_nil (c : Cache) : c.Moves [] c where
  toSameSettings := ⟨rfl, rfl, rfl⟩
  generation := fun key => (UInt64.add_zero (c.generation key)).symm

theorem Moves.trans {c c' c'' : Cache} {operations others : List Operation}
    (h : c.Moves operations c') (h' : c'.Moves others c'') :
    c.Moves (operations ++ others) c'' where
  toSameSettings := h.toSameSettings.trans h'.toSameSettings
  generation := by
    intro key
    rw [h'.generation, h.generation, deletionsIn_append, UInt64.ofNat_add, UInt64.add_assoc]

/-- An operation that deletes nothing and keeps the terms moves no generation. -/
theorem SameTerms.moves {c c' : Cache} (h : c.SameTerms c') {o : Operation}
    (ho : ∀ slot, o.deletesIn slot = false) : c.Moves [o] c' where
  toSameSettings := h.toSameSettings
  generation := by
    intro key
    have hnone : deletionsIn (slotOfKey key) [o] = 0 := by simp [deletionsIn, ho]
    rw [h.generation_eq, hnone]
    exact (UInt64.add_zero _).symm

theorem moves_delete (c : Cache) (key : String) : c.Moves [.delete key] (c.delete key).2 where
  toSameSettings := c.sameSettings_delete key
  generation := by
    intro other
    rw [generation_delete, deletionsIn_delete]
    by_cases hslot : slotOfKey other = slotOfKey key
    · rw [if_pos hslot, if_pos hslot.symm]
      rfl
    · rw [if_neg hslot, if_neg fun hsame => hslot hsame.symm]
      exact (UInt64.add_zero _).symm

/-- Of all operations only a deletion moves a generation. -/
theorem moves_perform {c c' : Cache} {o : Operation} {answer : Answer}
    (h : c.perform o = .ok (answer, c')) : c.Moves [o] c' := by
  cases o with
  | insert m key content metadata expected =>
    rw [perform] at h
    obtain ⟨done, hinsert, h⟩ := exists_of_bind_eq_ok h
    obtain ⟨-, rfl⟩ := Prod.mk.inj (Except.ok.inj h)
    exact (sameTerms_insert hinsert).moves fun _ => rfl
  | get m key =>
    obtain ⟨-, rfl⟩ := Prod.mk.inj (Except.ok.inj h)
    exact (c.shrinks_get m key).toSameTerms.moves fun _ => rfl
  | delete key =>
    obtain ⟨-, rfl⟩ := Prod.mk.inj (Except.ok.inj h)
    exact c.moves_delete key
  | sweep m =>
    obtain ⟨-, rfl⟩ := Prod.mk.inj (Except.ok.inj h)
    exact (c.shrinks_sweep m).toSameTerms.moves fun _ => rfl

theorem moves_performAll {c c' : Cache} {operations : List Operation} {answers : List Answer}
    (h : c.performAll operations = .ok (answers, c')) : c.Moves operations c' := by
  induction operations generalizing c answers with
  | nil =>
    obtain ⟨-, rfl⟩ := Prod.mk.inj (Except.ok.inj h)
    exact c.moves_nil
  | cons o rest ih =>
    obtain ⟨answer, c₁, others, hperform, hrest, -⟩ := exists_of_performAll_cons h
    exact (moves_perform hperform).trans (ih hrest)

/-! ## All or nothing -/

/-- What an insertion does to a cache that accepts its entry. -/
structure Populates (c : Cache) (m : Moment) (e : Entry) (done : Insertion) : Prop where
  found : done.cache.find? e.key = some e
  /-- Everybody else is found as before, or has been evicted. -/
  others : ∀ key, key ≠ e.key →
    done.cache.find? key = if key ∈ c.evictedFor m e then none else c.find? key
  /-- Those who are evicted had an entry, and are counted once each. -/
  known : ∀ key ∈ c.evictedFor m e, key ≠ e.key ∧ c.contains key = true
  distinct : (c.evictedFor m e).Nodup
  evicted : done.evicted = (c.evictedFor m e).length
  counters : done.cache.counters = c.counters.recordEvictions (UInt64.ofNat done.evicted)
  /-- No generation has moved. -/
  terms : c.SameTerms done.cache

/-- An insertion that is made if and only if a condition holds, and then as a whole. -/
structure Decides (c : Cache) (m : Moment) (e : Entry) (condition : Prop) (done : Insertion) :
    Prop where
  accepted_iff : done.accepted = true ↔ condition
  /-- A refusal changes nothing, and evicts nobody. -/
  refuses : done.accepted = false → done = ⟨false, 0, c⟩
  populates : done.accepted = true → c.Populates m e done

theorem contains_of_mem_evictedFor {c : Cache} {m : Moment} {e : Entry} {key : String}
    (h : key ∈ c.evictedFor m e) : key ≠ e.key ∧ c.contains key = true := by
  obtain ⟨row, hrow, rfl⟩ := List.mem_map.mp h
  obtain ⟨hold, hne⟩ := mem_rows_of_mem_remove (mem_rows_of_mem_gone hrow)
  have hfound : c.find? row.1 = some row.2 := Table.mem_rows_iff.mp hold
  refine ⟨hne, ?_⟩
  rw [contains, hfound]
  rfl

theorem populates_accept (c : Cache) (m : Moment) (e : Entry) :
    c.Populates m e ⟨true, (c.accept m e).2, (c.accept m e).1⟩ where
  found := (c.adds_accept m e).found
  others := by
    intro key hkey
    show (c.accept m e).1.find? key = _
    rw [find?_accept, if_neg hkey]
  known := fun _ hkey => contains_of_mem_evictedFor hkey
  distinct := (c.remove e.key).nodup_keys_gone m e.storedSize
  evicted := by
    show (c.accept m e).2 = _
    rw [snd_accept, evictedFor, List.length_map]
  counters := by
    show (c.accept m e).1.counters = c.counters.recordEvictions (UInt64.ofNat (c.accept m e).2)
    rw [counters_accept, snd_accept]
  terms := (c.adds_accept m e).toSameTerms

theorem decides_refused (c : Cache) (m : Moment) (e : Entry) {condition : Prop}
    (hnot : ¬ condition) : c.Decides m e condition ⟨false, 0, c⟩ where
  accepted_iff := ⟨fun h => absurd h Bool.false_ne_true, fun h => absurd h hnot⟩
  refuses := fun _ => rfl
  populates := fun h => absurd h Bool.false_ne_true

theorem decides_accepted (c : Cache) (m : Moment) (e : Entry) {condition : Prop}
    (h : condition) : c.Decides m e condition ⟨true, (c.accept m e).2, (c.accept m e).1⟩ where
  accepted_iff := ⟨fun _ => h, fun _ => rfl⟩
  refuses := fun h => absurd h.symm Bool.false_ne_true
  populates := fun _ => c.populates_accept m e

/-- An insertion compares the generations before it changes anything. -/
theorem decides_insert {c : Cache} {m : Moment} (hclock : m.now.nanos + c.ttl < Instant.limit)
    (key : String) (content : Bytes) (metadata : Metadata) (expected : Option UInt64) :
    ∃ done, c.insert m key content metadata expected = .ok done ∧
      c.Decides m (c.entryOf key content metadata ⟨m.now.nanos + c.ttl⟩)
        (content.length ≤ c.maxSize.toNat ∧ ∀ g, expected = some g → g = c.generation key)
        done := by
  have hexpires : m.now.after c.ttl = .ok ⟨m.now.nanos + c.ttl⟩ := by
    unfold Instant.after
    rw [if_pos hclock]
  have hall : expected.all (· = c.generation key) = true ↔
      ∀ g, expected = some g → g = c.generation key := by
    cases expected <;> simp
  unfold insert
  by_cases hsize : c.maxSize.toNat < content.length
  · rw [if_pos hsize]
    refine ⟨_, rfl, c.decides_refused m _ ?_⟩
    intro hcondition
    omega
  · rw [if_neg hsize, hexpires]
    by_cases hsame : expected.all (· = c.generation key) = true
    · refine ⟨_, ?_, c.decides_accepted m _ ⟨Nat.le_of_not_lt hsize, hall.mp hsame⟩⟩
      exact if_pos hsame
    · refine ⟨_, ?_, c.decides_refused m _ ?_⟩
      · exact if_neg hsame
      · intro hcondition
        exact hsame (hall.mpr hcondition.2)

theorem Decides.of_iff {c : Cache} {m : Moment} {e : Entry} {condition other : Prop}
    {done : Insertion} (h : c.Decides m e condition done) (hiff : condition ↔ other) :
    c.Decides m e other done :=
  ⟨h.accepted_iff.trans hiff, h.refuses, h.populates⟩

/--
**An insertion is made whole or not at all.** Note the generation of a key, then do any operations
on any keys, then insert a content with the generation that was noted. It is accepted if and only if
it is within the bound and the number of deletions in the slot of the key since is a multiple of
2⁶⁴. Without a generation the bound alone decides. What is refused leaves the cache as it was, with
an older entry of the key if there was one. What is accepted is found, everybody else is found as
before or has been evicted, and no generation moves.
-/
theorem exists_decides {c : Cache} {operations : List Operation}
    (hends : ∀ o ∈ operations, o.EndsInTime c.ttl) {m : Moment}
    (hclock : m.now.nanos + c.ttl < Instant.limit) (key : String) (content : Bytes)
    (metadata : Metadata) :
    ∃ answers c', c.performAll operations = .ok (answers, c') ∧ c.Moves operations c' ∧
      (∃ done, c'.insert m key content metadata (some (c.generation key)) = .ok done ∧
        c'.Decides m (c'.entryOf key content metadata ⟨m.now.nanos + c.ttl⟩)
          (content.length ≤ c.maxSize.toNat ∧
            2 ^ 64 ∣ deletionsIn (slotOfKey key) operations) done) ∧
      ∃ done, c'.insert m key content metadata none = .ok done ∧
        c'.Decides m (c'.entryOf key content metadata ⟨m.now.nanos + c.ttl⟩)
          (content.length ≤ c.maxSize.toNat) done := by
  obtain ⟨answers, c', hrun⟩ := exists_performAll_eq_ok hends
  have hmoves := moves_performAll hrun
  have hclock' : m.now.nanos + c'.ttl < Instant.limit := by rwa [hmoves.ttl]
  obtain ⟨done, hinsert, hdecides⟩ :=
    decides_insert hclock' key content metadata (some (c.generation key))
  obtain ⟨put, hput, hputs⟩ := decides_insert hclock' key content metadata none
  rw [hmoves.ttl, hmoves.maxSize] at hdecides hputs
  refine ⟨answers, c', hrun, hmoves, ⟨done, hinsert, hdecides.of_iff ?_⟩,
    put, hput, hputs.of_iff ?_⟩
  · refine and_congr_right fun _ => ?_
    rw [← add_ofNat_eq_self_iff, ← hmoves.generation]
    exact ⟨fun hsame => (hsame _ rfl).symm, fun hsame g hg => Option.some.inj hg ▸ hsame.symm⟩
  · simp

/-- A run that caches an object, and deletes another that has the same slot but was not cached. -/
def neighbourRun : List Operation :=
  [.insert (.at ⟨0⟩ ⟨0, 0⟩) "a/1" [1, 2] ⟨"text/plain", 2, ⟨0, 0⟩, "tag"⟩ none, .delete "a/543"]

/--
The theorem at work: since the generation was noted a neighbour has been deleted, so what is brought
back is refused, and the object that was cached meanwhile stays.
-/
theorem exists_decides_neighbour :
    deletionsIn (slotOfKey "a/1") neighbourRun = 1 ∧
      ∃ answers c', (empty 10 5 ⟨100⟩).performAll neighbourRun = .ok (answers, c') ∧
        (empty 10 5 ⟨100⟩).Moves neighbourRun c' ∧
        (∃ done, c'.insert (.at ⟨1⟩ ⟨0, 0⟩) "a/1" [3] ⟨"text/plain", 1, ⟨0, 0⟩, "tag"⟩
            (some ((empty 10 5 ⟨100⟩).generation "a/1")) = .ok done ∧
          c'.Decides (.at ⟨1⟩ ⟨0, 0⟩)
            (c'.entryOf "a/1" [3] ⟨"text/plain", 1, ⟨0, 0⟩, "tag"⟩ ⟨6⟩)
            (1 ≤ 10 ∧ 2 ^ 64 ∣ deletionsIn (slotOfKey "a/1") neighbourRun) done) ∧
        ∃ done, c'.insert (.at ⟨1⟩ ⟨0, 0⟩) "a/1" [3] ⟨"text/plain", 1, ⟨0, 0⟩, "tag"⟩ none =
            .ok done ∧
          c'.Decides (.at ⟨1⟩ ⟨0, 0⟩)
            (c'.entryOf "a/1" [3] ⟨"text/plain", 1, ⟨0, 0⟩, "tag"⟩ ⟨6⟩) (1 ≤ 10) done := by
  have hends : ∀ o ∈ neighbourRun, o.EndsInTime (empty 10 5 ⟨100⟩).ttl := by
    simp [neighbourRun, Operation.EndsInTime, Moment.at, empty, Instant.limit, Time.second]
  have hclock : (Moment.at ⟨1⟩ ⟨0, 0⟩).now.nanos + (empty 10 5 ⟨100⟩).ttl < Instant.limit := by
    decide
  exact ⟨by decide +kernel, exists_decides hends hclock "a/1" [3] _⟩

end ReadThrough.Cache
