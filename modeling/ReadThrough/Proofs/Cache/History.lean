import ReadThrough.Proofs.Cache.Contents
import ReadThrough.Proofs.Cache.Soundness

/-!
# A cache remembers what was last put into it

A run of operations has a `history`: which entries were accepted, which keys were evicted for them,
and which keys were deleted. Look-ups, sweeps and refused insertions leave no trace in it.

An entry is remembered if it was the last that was accepted for its key, and has neither been
deleted nor evicted since (`Remembers`). A cache whose clock does not go back keeps exactly the
remembered entries, but for dead ones (`Recalls`), and so a look-up finds what is remembered and
live.

* `Recalls.perform` — one operation
* `Recalls.performAll` — a run
* `get_performAll_eq_some_iff` — the main theorem
-/

namespace ReadThrough.Cache

/-! ## Histories -/

/-- What an operation changes of its own accord. -/
inductive Change where
  /-- An entry was accepted, and some keys were evicted for it. -/
  | stored (e : Entry) (evicted : List String)
  | deleted (key : String)
  | nothing
  deriving Repr, DecidableEq

/-- The change neither replaces nor deletes nor evicts the entry of a key. -/
def Change.Spares (key : String) : Change → Prop
  | stored e evicted => key ≠ e.key ∧ key ∉ evicted
  | deleted other => key ≠ other
  | nothing => True

/-- What an operation changes, by what it answers. -/
def change (c : Cache) : Operation → Answer → Change
  | .insert m key content metadata _, .inserted true _ =>
    let e := c.entryOf key content metadata ⟨m.now.nanos + c.ttl⟩
    .stored e (c.evictedFor m e)
  | .delete key, _ => .deleted key
  | _, _ => .nothing

/-- What the operations of a run change, in order. -/
def history (c : Cache) : List Operation → List Change
  | [] => []
  | o :: rest =>
    match c.perform o with
    | .error _ => []
    | .ok (answer, c') => c.change o answer :: history c' rest

/-- The entry was the last accepted for the key, and neither deleted nor evicted since. -/
def Remembers (changes : List Change) (key : String) (e : Entry) : Prop :=
  ∃ before evicted after, changes = before ++ .stored e evicted :: after ∧ key = e.key ∧
    ∀ change ∈ after, change.Spares key

theorem not_remembers_nil (key : String) (e : Entry) : ¬ Remembers [] key e := by
  rintro ⟨before, evicted, after, hsplit, -, -⟩
  simp at hsplit

/-- After one more change an entry is remembered that the change has stored or spared. -/
theorem remembers_concat {changes : List Change} {change : Change} {key : String} {e : Entry} :
    Remembers (changes ++ [change]) key e ↔
      (∃ evicted, change = .stored e evicted ∧ key = e.key) ∨
        change.Spares key ∧ Remembers changes key e := by
  constructor
  · rintro ⟨before, evicted, after, hsplit, hkey, hspared⟩
    rcases List.eq_nil_or_concat after with rfl | ⟨middle, last, rfl⟩
    · obtain ⟨-, hlast⟩ := List.append_inj' hsplit rfl
      exact Or.inl ⟨evicted, (List.cons.inj hlast).1, hkey⟩
    · rw [List.concat_eq_append] at hspared hsplit
      rw [← List.cons_append, ← List.append_assoc] at hsplit
      obtain ⟨rfl, hlast⟩ := List.append_inj' hsplit rfl
      obtain rfl := (List.cons.inj hlast).1
      refine Or.inr ⟨hspared change (by simp), before, evicted, middle, rfl, hkey, ?_⟩
      exact fun other hother => hspared other (List.mem_append_left _ hother)
  · rintro (⟨evicted, rfl, hkey⟩ | ⟨hspares, before, evicted, after, rfl, hkey, hspared⟩)
    · exact ⟨changes, evicted, [], rfl, hkey, by simp⟩
    · refine ⟨before, evicted, after ++ [change], by simp, hkey, ?_⟩
      intro other hother
      rcases List.mem_append.1 hother with hother | hother
      · exact hspared other hother
      · rwa [List.mem_singleton.1 hother]

/-! ## The invariant -/

/-- The cache keeps what is remembered, but for entries that are dead by now. -/
structure Recalls (changes : List Change) (now : Instant) (c : Cache) : Prop where
  kept : ∀ {key e}, c.find? key = some e → Remembers changes key e
  live : ∀ {key e}, Remembers changes key e → e.isExpired now = false → c.find? key = some e

theorem recalls_empty (now : Instant) (maxSize : UInt64) (ttl : Nat) (policy : CompressionPolicy) :
    Recalls [] now (empty maxSize ttl policy) where
  kept := fun hfound => nomatch hfound
  live := fun hremembers => absurd hremembers (not_remembers_nil _ _)

/-- Who is live later is live now. -/
theorem isExpired_of_le {e : Entry} {now later : Instant} (hle : now.nanos ≤ later.nanos)
    (hlive : e.isExpired later = false) : e.isExpired now = false := by
  simp only [Entry.isExpired, Instant.reached, decide_eq_false_iff_not] at hlive ⊢
  omega

variable {changes : List Change} {now : Instant} {c : Cache}

theorem Recalls.later (h : Recalls changes now c) {later : Instant}
    (hle : now.nanos ≤ later.nanos) : Recalls changes later c where
  kept := h.kept
  live := fun hremembers hlive => h.live hremembers (isExpired_of_le hle hlive)

/-- An operation that clears no key on purpose may remove dead entries. -/
theorem Recalls.spared (h : Recalls changes now c) {c' : Cache}
    (hkept : ∀ {key e}, c'.find? key = some e → c.find? key = some e)
    (hlive : ∀ {key e}, c.find? key = some e → e.isExpired now = false →
      c'.find? key = some e) : Recalls (changes ++ [.nothing]) now c' where
  kept := fun hfound => remembers_concat.2 (Or.inr ⟨trivial, h.kept (hkept hfound)⟩)
  live := by
    intro key e hremembers he
    rcases remembers_concat.1 hremembers with ⟨evicted, hchange, -⟩ | ⟨-, hbefore⟩
    · cases hchange
    · exact hlive (h.live hbefore he) he

theorem Recalls.accept (h : Recalls changes now c) (m : Moment) (e : Entry) :
    Recalls (changes ++ [.stored e (c.evictedFor m e)]) now (c.accept m e).1 where
  kept := by
    intro key x hfound
    rw [find?_accept] at hfound
    split at hfound
    · next hsame =>
      obtain rfl := Option.some.inj hfound
      exact remembers_concat.2 (Or.inl ⟨_, rfl, hsame⟩)
    · next hne =>
      split at hfound
      · cases hfound
      · next hstays => exact remembers_concat.2 (Or.inr ⟨⟨hne, hstays⟩, h.kept hfound⟩)
  live := by
    intro key x hremembers hx
    rw [find?_accept]
    rcases remembers_concat.1 hremembers with ⟨evicted, hchange, hkey⟩ | ⟨⟨hne, hstays⟩, hbefore⟩
    · obtain ⟨rfl, -⟩ := Change.stored.inj hchange
      exact if_pos hkey
    · rw [if_neg hne, if_neg hstays]
      exact h.live hbefore hx

theorem Recalls.delete (h : Recalls changes now c) (key : String) :
    Recalls (changes ++ [.deleted key]) now (c.delete key).2 where
  kept := by
    intro other e hfound
    rw [find?_delete] at hfound
    split at hfound
    · cases hfound
    · next hne => exact remembers_concat.2 (Or.inr ⟨hne, h.kept hfound⟩)
  live := by
    intro other e hremembers he
    rcases remembers_concat.1 hremembers with ⟨evicted, hchange, -⟩ | ⟨hne, hbefore⟩
    · cases hchange
    · rw [find?_delete, if_neg hne]
      exact h.live hbefore he

/-! ## Operations -/

/-- The reading of the clock at an operation; a deletion does not look at it. -/
def Operation.now? : Operation → Option Instant
  | .insert m .. => some m.now
  | .get m _ => some m.now
  | .delete _ => none
  | .sweep m => some m.now

/-- An operation keeps what it says nothing of, if the clock has not gone back. -/
theorem Recalls.perform (h : Recalls changes now c) {o : Operation} {answer : Answer} {c' : Cache}
    (hclock : ∀ t, o.now? = some t → now.nanos ≤ t.nanos)
    (hperform : c.perform o = .ok (answer, c')) :
    Recalls (changes ++ [c.change o answer]) (o.now?.getD now) c' := by
  cases o with
  | insert m key content metadata expected =>
    replace h := h.later (hclock m.now rfl)
    rw [Cache.perform] at hperform
    cases hinsert : c.insert m key content metadata expected with
    | error stop => simp [hinsert, bind, Except.bind] at hperform
    | ok done =>
      simp only [hinsert, bind, Except.bind] at hperform
      obtain ⟨rfl, rfl⟩ := Prod.mk.inj (Except.ok.inj hperform)
      rcases insert_cases hinsert with rfl | ⟨-, -, expires, hexpires, rfl⟩
      · exact h.spared id fun hfound _ => hfound
      · obtain rfl := expires_eq hexpires
        exact h.accept m _
  | get m key =>
    replace h := h.later (hclock m.now rfl)
    obtain ⟨rfl, rfl⟩ := Prod.mk.inj (Except.ok.inj hperform)
    refine h.spared (c.shrinks_get m key).find? ?_
    intro other e hfound hlive
    exact find?_get_of_live hfound hlive key
  | delete key =>
    obtain ⟨rfl, rfl⟩ := Prod.mk.inj (Except.ok.inj hperform)
    exact h.delete key
  | sweep m =>
    replace h := h.later (hclock m.now rfl)
    obtain ⟨rfl, rfl⟩ := Prod.mk.inj (Except.ok.inj hperform)
    refine h.spared (c.shrinks_sweep m).find? ?_
    intro other e hfound hlive
    exact find?_sweep_of_live hfound hlive

/-! ## Runs -/

/-- The clock does not go back: no reading is before an earlier one. -/
def Forward (readings : List Instant) : Prop :=
  readings.Pairwise fun earlier later => earlier.nanos ≤ later.nanos

/-- The readings of the clock in a run. -/
def readings (operations : List Operation) : List Instant :=
  operations.filterMap Operation.now?

/-- What the clock shows at an operation comes after what it showed, and before the rest. -/
theorem Forward.of_cons {o : Operation} {rest : List Operation} {last : Instant}
    (h : Forward (now :: (readings (o :: rest) ++ [last]))) :
    (∀ t, o.now? = some t → now.nanos ≤ t.nanos) ∧
      Forward (o.now?.getD now :: (readings rest ++ [last])) := by
  cases hnow : o.now? with
  | none =>
    have hsame : readings (o :: rest) = readings rest := List.filterMap_cons_none hnow
    rw [hsame] at h
    exact ⟨fun t ht => (Option.some_ne_none t ht.symm).elim, h⟩
  | some t =>
    have hcons : readings (o :: rest) = t :: readings rest := List.filterMap_cons_some hnow
    rw [hcons] at h
    obtain ⟨hfirst, hlater⟩ := List.pairwise_cons.1 h
    refine ⟨?_, hlater⟩
    rintro _ ⟨⟩
    exact hfirst t List.mem_cons_self

/-- A run keeps what is remembered of it. -/
theorem Recalls.performAll (h : Recalls changes now c) {operations : List Operation}
    {last : Instant} (hclock : Forward (now :: (readings operations ++ [last])))
    {answers : List Answer} {c' : Cache} (hrun : c.performAll operations = .ok (answers, c')) :
    Recalls (changes ++ c.history operations) last c' := by
  induction operations generalizing c changes now answers with
  | nil =>
    obtain ⟨-, rfl⟩ := Prod.mk.inj (Except.ok.inj hrun)
    rw [history, List.append_nil]
    exact h.later ((List.pairwise_cons.1 hclock).1 last (by simp [readings]))
  | cons o rest ih =>
    obtain ⟨answer, c₁, others, hperform, hrest, -⟩ := exists_of_performAll_cons hrun
    obtain ⟨hnow, hlater⟩ := hclock.of_cons
    have hhistory : c.history (o :: rest) = c.change o answer :: c₁.history rest := by
      rw [history, hperform]
    rw [hhistory, List.append_cons]
    exact ih (h.perform hnow hperform) hlater hrest

theorem exists_perform_eq_ok {o : Operation} (ho : o.EndsInTime c.ttl) :
    ∃ answer c', c.perform o = .ok (answer, c') ∧ c'.ttl = c.ttl := by
  cases o with
  | insert m key content metadata expected =>
    obtain ⟨done, hdone⟩ := exists_insert_eq_ok ho key content metadata expected
    refine ⟨.inserted done.accepted done.evicted, done.cache, ?_, (sameTerms_insert hdone).ttl⟩
    rw [perform, hdone]
    rfl
  | get m key => exact ⟨_, _, rfl, (c.shrinks_get m key).ttl⟩
  | delete key => exact ⟨_, _, rfl, (c.shrinks_delete key).ttl⟩
  | sweep m => exact ⟨_, _, rfl, (c.shrinks_sweep m).ttl⟩

/-- A run gives a result if all lifetimes end at instants that the clock can show. -/
theorem exists_performAll_eq_ok {operations : List Operation}
    (hends : ∀ o ∈ operations, o.EndsInTime c.ttl) :
    ∃ answers c', c.performAll operations = .ok (answers, c') := by
  induction operations generalizing c with
  | nil => exact ⟨[], c, rfl⟩
  | cons o rest ih =>
    obtain ⟨ho, hrest⟩ := List.forall_mem_cons.1 hends
    obtain ⟨answer, c₁, hperform, httl⟩ := exists_perform_eq_ok ho
    obtain ⟨answers, c₂, hrun⟩ := ih (httl ▸ hrest)
    exact ⟨answer :: answers, c₂, performAll_cons hperform hrun⟩

/--
**A cache remembers what was last put into it.** After any run from a cache without entries a
look-up finds an entry if and only if it was the last that was accepted for its key, it has been
neither deleted nor evicted since, and the present is before its expiry. Operations on other keys
play no part in that, but by evicting. A look-up that finds a dead entry shows nothing and takes the
entry out with its size.
-/
theorem get_performAll_eq_some_iff (maxSize : UInt64) {ttl : Nat} (policy : CompressionPolicy)
    {operations : List Operation} {m : Moment} (hends : ∀ o ∈ operations, o.EndsInTime ttl)
    (hclock : Forward (readings operations ++ [m.now])) :
    ∃ answers c, (empty maxSize ttl policy).performAll operations = .ok (answers, c) ∧
      (∀ key e, (c.get m key).1 = some e ↔
        Remembers ((empty maxSize ttl policy).history operations) key e ∧
          m.now.nanos < e.expires.nanos) ∧
      (∀ key e, c.find? key = some e → e.expires.nanos ≤ m.now.nanos →
        (c.get m key).1 = none ∧ c.Released key e (c.get m key).2) ∧
      (maxSize.toNat < 2 ^ 63 → c.Sound) := by
  obtain ⟨answers, c, hrun⟩ :=
    exists_performAll_eq_ok (c := empty maxSize ttl policy) hends
  have hstart : Forward (⟨0⟩ :: (readings operations ++ [m.now])) :=
    List.pairwise_cons.2 ⟨fun _ _ => Nat.zero_le _, hclock⟩
  have hrecalls := (recalls_empty ⟨0⟩ maxSize ttl policy).performAll hstart hrun
  rw [List.nil_append] at hrecalls
  refine ⟨answers, c, hrun, fun key e => ?_, fun key e hfound hdue => ?_, fun hmax => ?_⟩
  · have hlive : e.isExpired m.now = false ↔ m.now.nanos < e.expires.nanos := by
      simp [Entry.isExpired, Instant.reached]
    rw [get_fst, Option.filter_eq_some_iff, Bool.not_eq_true', hlive]
    constructor
    · rintro ⟨hfound, hbefore⟩
      exact ⟨hrecalls.kept hfound, hbefore⟩
    · rintro ⟨hremembers, hbefore⟩
      exact ⟨hrecalls.live hremembers (hlive.2 hbefore), hbefore⟩
  · exact released_get hfound (decide_eq_true hdue)
  · obtain ⟨answers', c', hrun', -, hsound, -⟩ :=
      exists_performAll_eq (sound_empty maxSize ttl policy) hmax operations hends
    rw [hrun] at hrun'
    obtain ⟨-, rfl⟩ := Prod.mk.inj (Except.ok.inj hrun')
    exact hsound

/--
The theorem at work: of two entries without room for both, the second is found. The first has been
evicted, and is not found though its lifetime goes on.
-/
theorem get_performAll_eq_some_iff_crowded :
    ∃ answers c e, (empty 10 5 ⟨100⟩).performAll (crowdedRun.take 2) = .ok (answers, c) ∧
      (c.get (.at ⟨4⟩ ⟨0, 0⟩) "a/2").1 = some e ∧ e.raw = [1, 2, 3, 4, 5, 6] ∧
      Remembers ((empty 10 5 ⟨100⟩).history (crowdedRun.take 2)) "a/2" e ∧ 4 < e.expires.nanos ∧
      (c.get (.at ⟨4⟩ ⟨0, 0⟩) "a/1").1 = none ∧
      ∀ other, 4 < other.expires.nanos →
        ¬ Remembers ((empty 10 5 ⟨100⟩).history (crowdedRun.take 2)) "a/1" other := by
  have hends : ∀ o ∈ crowdedRun.take 2, o.EndsInTime 5 := by
    simp [crowdedRun, Operation.EndsInTime, Moment.at, Instant.limit, Time.second]
  have hclock : Forward (readings (crowdedRun.take 2) ++ [⟨4⟩]) := by
    simp [crowdedRun, readings, Operation.now?, Forward, Moment.at]
  obtain ⟨answers, c, hrun, hfinds, -⟩ :=
    get_performAll_eq_some_iff (m := .at ⟨4⟩ ⟨0, 0⟩) 10 ⟨100⟩ hends hclock
  have hlooked : ((empty 10 5 ⟨100⟩).performAll (crowdedRun.take 2)).toOption.map (fun reached =>
      ((reached.2.get (.at ⟨4⟩ ⟨0, 0⟩) "a/2").1.map Entry.raw,
        (reached.2.get (.at ⟨4⟩ ⟨0, 0⟩) "a/1").1.map Entry.raw)) =
      some (some [1, 2, 3, 4, 5, 6], none) := by
    decide +kernel
  simp only [hrun, Except.toOption, Option.map_some, Option.some.injEq, Prod.mk.injEq,
    Option.map_eq_some_iff, Option.map_eq_none_iff] at hlooked
  obtain ⟨⟨e, hfound, hraw⟩, hnone⟩ := hlooked
  obtain ⟨hremembers, hbefore⟩ := (hfinds "a/2" e).1 hfound
  refine ⟨answers, c, e, hrun, hfound, hraw, hremembers, hbefore, hnone, ?_⟩
  intro other hlater hother
  have hlive := (hfinds "a/1" other).2 ⟨hother, hlater⟩
  rw [hnone] at hlive
  cases hlive

end ReadThrough.Cache
