import Mathlib.Algebra.Order.BigOperators.Group.List
import Mathlib.Algebra.Order.Group.Nat
import Mathlib.Data.List.Perm.Subperm
import ReadThrough.Proofs.Cache.Eviction
import ReadThrough.Proofs.Cache.Generations

/-!
# Sweeps are exact and invisible

A sweep takes out the entries whose time is over, and these only (`sweeps_sweep`). To see that
nobody but the one who counts entries can tell, a run with sweeps is held against the same run
without them (`unswept`).

Between two operations the second cache is the first without some dead entries (`Thins`). A dead
entry is shown to nobody, and what it stood for is room that the second cache has besides. So a put
for which nobody has to go in the first cache is a put for which nobody has to go in the second.
Only a deletion can tell the two apart: it says whether there was an entry, dead or alive
(`Answer.Alike`).

* `Thins.sweep` — a sweep of the second cache; the first does nothing meanwhile
* `Thins.perform` — any other operation, done to both
* `Thins.performAll` — a run
* `sweeps_and_thins` — the main theorem
-/

namespace ReadThrough.Cache

/-! ## One sweep -/

/-- A sweep at a moment has turned the first cache into the second, and has told a number. -/
structure Sweeps (c : Cache) (m : Moment) (count : Nat) (c' : Cache) : Prop
    extends SameTerms c c' where
  /-- Those whose time is not over are found as before, and nobody else. -/
  find? : ∀ key, c'.find? key = (c.find? key).filter fun e => m.now.nanos < e.expires.nanos
  counted : count = c.entries.rows.countP fun row => row.2.expires.nanos ≤ m.now.nanos
  size : c'.size + count = c.size
  counters : c'.counters =
    { c.counters with expirations := c.counters.expirations + UInt64.ofNat count }

theorem isExpired_eq (e : Entry) (now : Instant) :
    e.isExpired now = decide (e.expires.nanos ≤ now.nanos) := rfl

theorem sweeps_sweep (c : Cache) (m : Moment) : c.Sweeps m (c.sweep m).1 (c.sweep m).2 where
  toSameTerms := (c.shrinks_sweep m).toSameTerms
  find? := by
    intro key
    rw [find?_sweep]
    simp only [isExpired_eq, ← decide_not, Nat.not_le]
  counted := by
    show (c.entries.rows.filter _).length = _
    rw [← List.countP_eq_length_filter]
    rfl
  size := by
    have hlength := (c.perm_sweep m).length_eq
    rw [List.length_append] at hlength
    exact hlength.symm
  counters := c.counters_sweep m

/-! ## A cache without some dead entries -/

/-- The counts are the same, but for the one of expirations. -/
structure SameCounts (c c' : Cache) : Prop where
  hits : c'.counters.hits = c.counters.hits
  misses : c'.counters.misses = c.counters.misses
  evictions : c'.counters.evictions = c.counters.evictions

/-- The second cache is the first without some entries that are dead at an instant. -/
structure Thins (c : Cache) (now : Instant) (c' : Cache) : Prop
    extends Shrinks c c', SameCounts c c' where
  live : ∀ {key e}, c.find? key = some e → e.isExpired now = false → c'.find? key = some e

theorem thins_refl (c : Cache) (now : Instant) : c.Thins now c :=
  ⟨.refl c, ⟨rfl, rfl, rfl⟩, fun hfound _ => hfound⟩

/-- What is found in the cache with fewer entries is part of what the other stands for. -/
theorem Shrinks.currentSize_le {c c' : Cache} (h : c.Shrinks c') (hc : c.Measured)
    (hc' : c'.Measured) : c'.currentSize.toNat ≤ c.currentSize.toNat := by
  have hsubset : c'.entries.rows ⊆ c.entries.rows := by
    rintro ⟨key, e⟩ hrow
    exact Table.mem_rows_iff.mpr (h.find? (Table.mem_rows_iff.mp hrow))
  obtain ⟨rows, hperm, hsublist⟩ := List.subperm_of_subset c'.entries.nodup_rows hsubset
  rw [hc.exact, hc'.exact, ← storedTotal_perm hperm]
  exact (hsublist.map _).sum_le_sum fun _ _ => Nat.zero_le _

section operations

variable {c c' : Cache} {now : Instant}

theorem Thins.later (h : c.Thins now c') {later : Instant} (hle : now.nanos ≤ later.nanos) :
    c.Thins later c' :=
  { h with live := fun hfound hlive => h.live hfound (isExpired_of_le hle hlive) }

/-- Both show the same to who looks for live entries. -/
theorem Thins.filter_find? (h : c.Thins now c') (key : String) :
    ((c'.find? key).filter fun e => !e.isExpired now) =
      (c.find? key).filter fun e => !e.isExpired now := by
  cases hfound : c.find? key with
  | none => rw [h.find?_eq_none hfound]
  | some e =>
    cases hexpired : e.isExpired now with
    | false => rw [h.live hfound hexpired]
    | true =>
      rw [Option.filter_some, hexpired]
      cases hfound' : c'.find? key with
      | none => rfl
      | some e' =>
        obtain rfl : e = e' := Option.some.inj (hfound.symm.trans (h.find? hfound'))
        rw [Option.filter_some, hexpired]

/--
What is done to both leaves a thinner cache if of every key both find what they found, or both find
the same.
-/
theorem Thins.of_find? (h : c.Thins now c') {d d' : Cache} (hterms : d.SameTerms d')
    (hcounts : d.SameCounts d')
    (hfind : ∀ key, (d.find? key = c.find? key ∧ d'.find? key = c'.find? key) ∨
      d'.find? key = d.find? key) : d.Thins now d' := by
  refine ⟨⟨hterms, ?_⟩, hcounts, ?_⟩
  · intro key e hfound
    rcases hfind key with ⟨hd, hd'⟩ | hsame
    · rw [hd]
      exact h.find? (hd' ▸ hfound)
    · rwa [← hsame]
  · intro key e hfound hlive
    rcases hfind key with ⟨hd, hd'⟩ | hsame
    · rw [hd']
      exact h.live (hd ▸ hfound) hlive
    · rwa [hsame]

/-- What is done alike to both under one key leaves a thinner cache. -/
theorem Thins.under (h : c.Thins now c') {d d' : Cache} (hterms : d.SameTerms d')
    (hcounts : d.SameCounts d') {key : String} {shown : Option Entry}
    (hd : ∀ other, d.find? other = if other = key then shown else c.find? other)
    (hd' : ∀ other, d'.find? other = if other = key then shown else c'.find? other) :
    d.Thins now d' := by
  refine h.of_find? hterms hcounts ?_
  intro other
  rw [hd, hd']
  by_cases hsame : other = key
  · rw [if_pos hsame, if_pos hsame]
    exact Or.inr rfl
  · rw [if_neg hsame, if_neg hsame]
    exact Or.inl ⟨rfl, rfl⟩

theorem SameTerms.both (h : c.SameTerms c') {d d' : Cache} (hd : c.SameTerms d)
    (hd' : c'.SameTerms d') : d.SameTerms d' :=
  hd.symm.trans (h.trans hd')

theorem SameCounts.both (h : c.SameCounts c') {d d' : Cache} (hd : d.counters = c.counters)
    (hd' : d'.counters = c'.counters) : d.SameCounts d' := by
  refine ⟨?_, ?_, ?_⟩
  · rw [hd, hd', h.hits]
  · rw [hd, hd', h.misses]
  · rw [hd, hd', h.evictions]

/-! ## What a thinner cache does -/

theorem Thins.sweep (h : c.Thins now c') {m : Moment} (hle : now.nanos ≤ m.now.nanos) :
    c.Thins m.now (c'.sweep m).2 := by
  refine ⟨h.toShrinks.trans (c'.shrinks_sweep m), ?_, ?_⟩
  · have hcounters := c'.counters_sweep m
    constructor
    · rw [hcounters]
      exact h.hits
    · rw [hcounters]
      exact h.misses
    · rw [hcounters]
      exact h.evictions
  · intro key e hfound hlive
    exact find?_sweep_of_live (h.live hfound (isExpired_of_le hle hlive)) hlive

/-- Look-ups that show the same are hits both, or misses both. -/
theorem SameCounts.get (h : c.SameCounts c') {m : Moment} {key : String}
    (hshown : (c'.get m key).1 = (c.get m key).1) :
    (c.get m key).2.SameCounts (c'.get m key).2 := by
  cases hanswer : (c.get m key).1 with
  | some e =>
    have hcounters := counters_get_of_eq_some hanswer
    have hcounters' := counters_get_of_eq_some (hshown.trans hanswer)
    refine ⟨?_, ?_, ?_⟩
    · rw [hcounters, hcounters']
      exact congrArg (· + 1) h.hits
    · rw [hcounters, hcounters']
      exact h.misses
    · rw [hcounters, hcounters']
      exact h.evictions
  | none =>
    obtain ⟨count, hcounters⟩ := counters_get_of_eq_none hanswer
    obtain ⟨count', hcounters'⟩ := counters_get_of_eq_none (hshown.trans hanswer)
    refine ⟨?_, ?_, ?_⟩
    · rw [hcounters, hcounters']
      exact h.hits
    · rw [hcounters, hcounters']
      exact congrArg (· + 1) h.misses
    · rw [hcounters, hcounters']
      exact h.evictions

theorem Thins.get (h : c.Thins now c') {m : Moment} (hle : now.nanos ≤ m.now.nanos)
    (key : String) :
    (c'.get m key).1 = (c.get m key).1 ∧ (c.get m key).2.Thins m.now (c'.get m key).2 := by
  have hlater := h.later hle
  have hshown : (c'.get m key).1 = (c.get m key).1 := by
    rw [get_fst, get_fst, hlater.filter_find?]
  have hterms : (c.get m key).2.SameTerms (c'.get m key).2 :=
    h.toSameTerms.both (c.shrinks_get m key).toSameTerms (c'.shrinks_get m key).toSameTerms
  refine ⟨hshown, hlater.under hterms (h.toSameCounts.get hshown) (c.find?_get m key) ?_⟩
  intro other
  rw [find?_get, hlater.filter_find?]

theorem Thins.remove (h : c.Thins now c') (key : String) :
    (c.remove key).Thins now (c'.remove key) := by
  have hterms : (c.remove key).SameTerms (c'.remove key) :=
    h.toSameTerms.both (c.sameTerms_remove key) (c'.sameTerms_remove key)
  have hcounts : (c.remove key).SameCounts (c'.remove key) :=
    h.toSameCounts.both (c.counters_remove key) (c'.counters_remove key)
  exact h.under hterms hcounts (c.find?_remove key) (c'.find?_remove key)

theorem Thins.bump (h : c.Thins now c') (key : String) :
    (c.bump key).Thins now (c'.bump key) := by
  have hgenerations : (c'.bump key).generations = (c.bump key).generations := by
    unfold Cache.bump
    rw [h.generation_eq, h.generations]
  refine h.of_find? ⟨⟨h.maxSize, h.ttl, h.policy⟩, hgenerations⟩ ?_ fun _ => Or.inl ⟨rfl, rfl⟩
  exact ⟨h.hits, h.misses, h.evictions⟩

/-- Only who is there can be deleted, and of those who are dead fewer are there. -/
theorem Thins.delete (h : c.Thins now c') (key : String) :
    ((c'.delete key).1 = true → (c.delete key).1 = true) ∧
      (c.delete key).2.Thins now (c'.delete key).2 := by
  refine ⟨?_, (h.bump key).remove key⟩
  show (c'.find? key).isSome = true → (c.find? key).isSome = true
  intro hpresent
  obtain ⟨e, hfound⟩ := Option.isSome_iff_exists.mp hpresent
  rw [h.find? hfound]
  rfl

/-- Who has nobody go takes the place of the one of its key, and that is all. -/
theorem accept_of_gone_eq_nil {m : Moment} {e : Entry}
    (hgone : (c.remove e.key).gone m e.storedSize = []) :
    (c.accept m e).2 = 0 ∧ (c.accept m e).1.counters = c.counters ∧
      ∀ key, (c.accept m e).1.find? key = if key = e.key then some e else c.find? key := by
  refine ⟨?_, ?_, ?_⟩
  · rw [snd_accept, hgone, List.length_nil]
  · rw [counters_accept, hgone]
    exact recordEvictions_zero _
  · intro key
    rw [find?_accept, evictedFor, hgone]
    rfl

/-- Where nobody has to go for an entry, nobody has to go for it in a thinner cache. -/
theorem Thins.accept (h : c.Thins now c') (hc : c.Measured) (hc' : c'.Measured)
    (hmax : c.maxSize.toNat < 2 ^ 63) (m : Moment) {e : Entry}
    (he : e.storedSize.toNat ≤ c.maxSize.toNat) (hnobody : (c.accept m e).2 = 0) :
    (c'.accept m e).2 = 0 ∧ (c.accept m e).1.Thins now (c'.accept m e).1 := by
  have hway := makesWay_accept hc hmax m he
  have hway' := makesWay_accept hc' (by rwa [h.maxSize]) m (by rwa [h.maxSize])
  have hgone : (c.remove e.key).gone m e.storedSize = [] := by
    rw [snd_accept] at hnobody
    exact List.eq_nil_of_length_eq_zero hnobody
  -- the entry fits beside the others, and the thinner cache has more room still
  have hgone' : (c'.remove e.key).gone m e.storedSize = [] := by
    have hsize := hway.size
    rw [hgone, storedTotal_nil] at hsize
    have henough := hway.enough
    have hless := (h.remove e.key).currentSize_le (hc.remove e.key) (hc'.remove e.key)
    refine hway'.idle ?_
    rw [h.maxSize]
    omega
  obtain ⟨-, hcounters, hfound⟩ := accept_of_gone_eq_nil hgone
  obtain ⟨hnobody', hcounters', hfound'⟩ := accept_of_gone_eq_nil hgone'
  have hterms : (c.accept m e).1.SameTerms (c'.accept m e).1 :=
    h.toSameTerms.both (c.adds_accept m e).toSameTerms (c'.adds_accept m e).toSameTerms
  have hcounts := h.toSameCounts.both hcounters hcounters'
  exact ⟨hnobody', h.under hterms hcounts hfound hfound'⟩

/-- Caches with the same terms refuse or accept the same content. -/
theorem SameTerms.insert_cases (h : c.SameTerms c') {m : Moment} {key : String} {content : Bytes}
    {metadata : Metadata} {expected : Option UInt64} {done : Insertion}
    (hinsert : c.insert m key content metadata expected = .ok done) :
    (done = ⟨false, 0, c⟩ ∧ c'.insert m key content metadata expected = .ok ⟨false, 0, c'⟩) ∨
      content.length ≤ c.maxSize.toNat ∧ ∃ expires,
        done = ⟨true, (c.accept m (c.entryOf key content metadata expires)).2,
          (c.accept m (c.entryOf key content metadata expires)).1⟩ ∧
        c'.insert m key content metadata expected =
          .ok ⟨true, (c'.accept m (c.entryOf key content metadata expires)).2,
            (c'.accept m (c.entryOf key content metadata expires)).1⟩ := by
  unfold insert at hinsert ⊢
  rw [h.maxSize, h.ttl, h.policy, h.generation_eq]
  by_cases hsize : c.maxSize.toNat < content.length
  · rw [if_pos hsize] at hinsert ⊢
    exact Or.inl ⟨(Except.ok.inj hinsert).symm, rfl⟩
  · rw [if_neg hsize] at hinsert ⊢
    cases hexpires : m.now.after c.ttl with
    | error stop => simp [hexpires, bind, Except.bind] at hinsert
    | ok expires =>
      simp only [hexpires, bind, Except.bind] at hinsert ⊢
      by_cases hsame : expected.all (· = c.generation key) = true
      · rw [if_pos hsame] at hinsert ⊢
        exact Or.inr ⟨Nat.le_of_not_lt hsize, expires, (Except.ok.inj hinsert).symm, rfl⟩
      · rw [if_neg hsame] at hinsert ⊢
        exact Or.inl ⟨(Except.ok.inj hinsert).symm, rfl⟩

theorem Thins.insert (h : c.Thins now c') (hc : c.Measured) (hc' : c'.Measured)
    (hmax : c.maxSize.toNat < 2 ^ 63) {m : Moment} {key : String} {content : Bytes}
    {metadata : Metadata} {expected : Option UInt64} {done : Insertion}
    (hinsert : c.insert m key content metadata expected = .ok done) (hnobody : done.evicted = 0) :
    ∃ done', c'.insert m key content metadata expected = .ok done' ∧
      done'.accepted = done.accepted ∧ done'.evicted = 0 ∧ done.cache.Thins now done'.cache := by
  rcases h.toSameTerms.insert_cases hinsert with
    ⟨rfl, hinsert'⟩ | ⟨hsize, expires, rfl, hinsert'⟩
  · exact ⟨_, hinsert', rfl, rfl, h⟩
  · have hstored := (wellSized_make key (c.policy.packed? metadata.contentType content) metadata
      expires hsize).storedSize_le
    obtain ⟨hnobody', hthins⟩ := h.accept hc hc' hmax m (Nat.le_trans hstored hsize) hnobody
    exact ⟨_, hinsert', rfl, hnobody', hthins⟩

end operations

/-! ## Runs with and without sweeps -/

/-- A sweep. -/
def Operation.isSweep : Operation → Bool
  | .sweep _ => true
  | _ => false

/-- The run without its sweeps. -/
def unswept (operations : List Operation) : List Operation :=
  operations.filter fun o => !o.isSweep

/-- The answer of a sweep. -/
def Answer.isSwept : Answer → Bool
  | .swept _ => true
  | _ => false

/-- A put that had others go. -/
def Answer.evicts : Answer → Bool
  | .inserted _ evicted => evicted != 0
  | _ => false

/--
What an operation answers in a cache, and what it answers in a thinner one: puts are decided alike
and have nobody go, look-ups show the same, and who is there to be deleted in the thinner cache is
there in the other.
-/
inductive Answer.Alike : Answer → Answer → Prop where
  | inserted (accepted : Bool) : Alike (.inserted accepted 0) (.inserted accepted 0)
  | found (entry : Option Entry) : Alike (.found entry) (.found entry)
  | deleted {present present' : Bool} (h : present' = true → present = true) :
    Alike (.deleted present) (.deleted present')

theorem Answer.Alike.isSwept_eq_false {answer answer' : Answer} (h : answer.Alike answer') :
    answer'.isSwept = false := by
  cases h <;> rfl

/-- A sound cache is sound after any operation that gives a result. -/
theorem Sound.perform {c c' : Cache} (h : c.Sound) (hmax : c.maxSize.toNat < 2 ^ 63)
    {o : Operation} {answer : Answer} (hperform : c.perform o = .ok (answer, c')) :
    c'.Sound ∧ c'.maxSize = c.maxSize := by
  refine ⟨?_, (moves_perform hperform).maxSize⟩
  cases o with
  | insert m key content metadata expected =>
    rw [Cache.perform] at hperform
    obtain ⟨done, hinsert, hperform⟩ := exists_of_bind_eq_ok hperform
    obtain ⟨-, rfl⟩ := Prod.mk.inj (Except.ok.inj hperform)
    exact h.insert hmax hinsert
  | get m key =>
    obtain ⟨-, rfl⟩ := Prod.mk.inj (Except.ok.inj hperform)
    exact h.get m key
  | delete key =>
    obtain ⟨-, rfl⟩ := Prod.mk.inj (Except.ok.inj hperform)
    exact h.delete key
  | sweep m =>
    obtain ⟨-, rfl⟩ := Prod.mk.inj (Except.ok.inj hperform)
    exact h.sweep m

theorem Sound.performAll {c c' : Cache} (h : c.Sound) (hmax : c.maxSize.toNat < 2 ^ 63)
    {operations : List Operation} {answers : List Answer}
    (hrun : c.performAll operations = .ok (answers, c')) : c'.Sound := by
  induction operations generalizing c answers with
  | nil =>
    obtain ⟨-, rfl⟩ := Prod.mk.inj (Except.ok.inj hrun)
    exact h
  | cons o rest ih =>
    obtain ⟨answer, c₁, others, hperform, hrest, -⟩ := exists_of_performAll_cons hrun
    obtain ⟨hsound, hsame⟩ := h.perform hmax hperform
    exact ih hsound (by rwa [hsame]) hrest

section runs

variable {c c' : Cache} {now : Instant}

/-- Any operation but a sweep, done to a cache and to a thinner one. -/
theorem Thins.perform (h : c.Thins now c') (hc : c.Measured) (hc' : c'.Measured)
    (hmax : c.maxSize.toNat < 2 ^ 63) {o : Operation} (hsweep : o.isSweep = false)
    (hclock : ∀ t, o.now? = some t → now.nanos ≤ t.nanos) {answer : Answer} {left : Cache}
    (hperform : c.perform o = .ok (answer, left)) (hnobody : answer.evicts = false) :
    ∃ answer' left', c'.perform o = .ok (answer', left') ∧ answer.Alike answer' ∧
      left.Thins (o.now?.getD now) left' := by
  cases o with
  | insert m key content metadata expected =>
    rw [Cache.perform] at hperform
    obtain ⟨done, hinsert, hperform⟩ := exists_of_bind_eq_ok hperform
    obtain ⟨rfl, rfl⟩ := Prod.mk.inj (Except.ok.inj hperform)
    have hnone : done.evicted = 0 := by simpa [Answer.evicts] using hnobody
    obtain ⟨done', hinsert', haccepted, hnone', hthins⟩ :=
      h.insert hc hc' hmax hinsert hnone
    refine ⟨.inserted done'.accepted done'.evicted, done'.cache, ?_, ?_,
      hthins.later (hclock m.now rfl)⟩
    · rw [Cache.perform, hinsert']
      rfl
    · rw [hnone, hnone', haccepted]
      exact .inserted _
  | get m key =>
    obtain ⟨rfl, rfl⟩ := Prod.mk.inj (Except.ok.inj hperform)
    obtain ⟨hshown, hthins⟩ := h.get (hclock m.now rfl) key
    refine ⟨_, _, rfl, ?_, hthins⟩
    rw [hshown]
    exact .found _
  | delete key =>
    obtain ⟨rfl, rfl⟩ := Prod.mk.inj (Except.ok.inj hperform)
    obtain ⟨hpresent, hthins⟩ := h.delete key
    exact ⟨_, _, rfl, .deleted hpresent, hthins⟩
  | sweep m => cases hsweep

/-- A run with sweeps beside the run without them: at a sweep only the thinner cache moves. -/
theorem Thins.performAll (h : c.Thins now c') (hc : c.Sound) (hc' : c'.Sound)
    (hmax : c.maxSize.toNat < 2 ^ 63) {operations : List Operation} {last : Instant}
    (hclock : Forward (now :: (readings operations ++ [last]))) {answers : List Answer}
    {left : Cache} (hrun : c.performAll (unswept operations) = .ok (answers, left))
    (hnobody : ∀ answer ∈ answers, answer.evicts = false) :
    ∃ answers' left', c'.performAll operations = .ok (answers', left') ∧
      List.Forall₂ Answer.Alike answers (answers'.filter fun answer => !answer.isSwept) ∧
      left.Thins last left' := by
  induction operations generalizing c c' now answers with
  | nil =>
    obtain ⟨rfl, rfl⟩ := Prod.mk.inj (Except.ok.inj hrun)
    have hle : now.nanos ≤ last.nanos := (List.pairwise_cons.1 hclock).1 last (by simp [readings])
    exact ⟨[], c', rfl, .nil, h.later hle⟩
  | cons o rest ih =>
    obtain ⟨hnow, hlater⟩ := hclock.of_cons
    by_cases hsweep : o.isSweep = true
    · -- the plain run has no such operation and stays where it is
      obtain ⟨m, rfl⟩ : ∃ m, o = .sweep m := by
        cases o with
        | sweep m => exact ⟨m, rfl⟩
        | insert | get | delete => cases hsweep
      have hthins := h.sweep (m := m) (hnow m.now rfl)
      obtain ⟨answers', left', hrun', halike, hleft⟩ :=
        ih hthins hc (hc'.sweep m) hmax hlater hrun hnobody
      exact ⟨.swept (c'.sweep m).1 :: answers', left', performAll_cons rfl hrun', halike, hleft⟩
    · have hplain : unswept (o :: rest) = o :: unswept rest :=
        List.filter_cons_of_pos (by simpa using hsweep)
      rw [hplain] at hrun
      obtain ⟨answer, c₁, others, hperform, hrest, rfl⟩ := exists_of_performAll_cons hrun
      obtain ⟨hfirst, hothers⟩ := List.forall_mem_cons.1 hnobody
      obtain ⟨answer', c₁', hperform', halike, hthins⟩ :=
        h.perform hc.measured hc'.measured hmax (by simpa using hsweep) hnow hperform hfirst
      obtain ⟨hsound, hsame⟩ := hc.perform hmax hperform
      obtain ⟨hsound', -⟩ := hc'.perform (by rwa [h.maxSize]) hperform'
      obtain ⟨answers', left', hrun', halikes, hleft⟩ :=
        ih hthins hsound hsound' (by rwa [hsame]) hlater hrest hothers
      refine ⟨answer' :: answers', left', performAll_cons hperform' hrun', ?_, hleft⟩
      rw [List.filter_cons_of_pos (by simp [halike.isSwept_eq_false])]
      exact .cons halike halikes

end runs

/--
**Sweeps are exact and invisible.** Take any cache that a run from a cache without entries has left.
A sweep takes out those whose time is over, tells how many they were and adds that to the count of
expirations; everybody else is found as before, and no generation moves.

Now take a run in which no put has anybody go, and do sweeps at any points of it, on a clock that
does not go back. The puts are decided as before and still have nobody go, the look-ups show the
same, and at the end, as at any point, generations, hits and misses are the same, live entries are
found as before, and the size is no larger.
-/
theorem sweeps_and_thins {maxSize : UInt64} {ttl : Nat} {policy : CompressionPolicy}
    {earlier : List Operation} {before : List Answer} {c : Cache}
    (hreached : (empty maxSize ttl policy).performAll earlier = .ok (before, c)) :
    (∀ m, c.Sweeps m (c.sweep m).1 (c.sweep m).2) ∧
      (maxSize.toNat < 2 ^ 63 → ∀ (operations : List Operation) (last : Instant)
        (answers : List Answer) (left : Cache),
        Forward (readings operations ++ [last]) →
        c.performAll (unswept operations) = .ok (answers, left) →
        (∀ answer ∈ answers, answer.evicts = false) →
        ∃ answers' left', c.performAll operations = .ok (answers', left') ∧
          List.Forall₂ Answer.Alike answers (answers'.filter fun answer => !answer.isSwept) ∧
          left.Thins last left' ∧ left'.currentSize ≤ left.currentSize) := by
  refine ⟨c.sweeps_sweep, ?_⟩
  intro hmax operations last answers left hclock hplain hnobody
  have hsound : c.Sound := (sound_empty maxSize ttl policy).performAll hmax hreached
  have hmax' : c.maxSize.toNat < 2 ^ 63 := by rwa [(moves_performAll hreached).maxSize]
  have hstart : Forward (⟨0⟩ :: (readings operations ++ [last])) :=
    List.pairwise_cons.2 ⟨fun _ _ => Nat.zero_le _, hclock⟩
  obtain ⟨answers', left', hrun, halike, hthins⟩ :=
    (c.thins_refl ⟨0⟩).performAll hsound hsound hmax' hstart hplain hnobody
  refine ⟨answers', left', hrun, halike, hthins, ?_⟩
  have hleft := hsound.performAll hmax' hplain
  have hleft' := hsound.performAll hmax' hrun
  exact UInt64.le_iff_toNat_le.mpr (hthins.currentSize_le hleft.measured hleft'.measured)

/-- A run in which a sweep comes upon a dead entry before it is deleted, and one upon nobody. -/
def outlivedRun : List Operation :=
  [.sweep (.at ⟨5⟩ ⟨0, 0⟩),
    .insert (.at ⟨6⟩ ⟨0, 0⟩) "a/2" [1, 2, 3, 4] ⟨"text/plain", 4, ⟨0, 0⟩, "tag"⟩ none,
    .get (.at ⟨7⟩ ⟨0, 0⟩) "a/2", .sweep (.at ⟨7⟩ ⟨0, 0⟩), .get (.at ⟨8⟩ ⟨0, 0⟩) "a/3",
    .delete "a/1"]

/--
The theorem at work: the dead entry is not there to be deleted after the sweep, and nothing else is
told otherwise.
-/
theorem sweeps_and_thins_outlived :
    ∃ before c, (empty 10 5 ⟨100⟩).performAll (crowdedRun.take 1) = .ok (before, c) ∧
      (∀ m, c.Sweeps m (c.sweep m).1 (c.sweep m).2) ∧
      ∃ answers left, c.performAll (unswept outlivedRun) = .ok (answers, left) ∧
        (∀ answer ∈ answers, answer.evicts = false) ∧ answers.getLast? = some (.deleted true) ∧
        ∃ answers' left', c.performAll outlivedRun = .ok (answers', left') ∧
          answers'.getLast? = some (.deleted false) ∧
          List.Forall₂ Answer.Alike answers (answers'.filter fun answer => !answer.isSwept) ∧
          left.Thins ⟨8⟩ left' ∧ left'.currentSize ≤ left.currentSize := by
  have hearlier : ∀ o ∈ crowdedRun.take 1, o.EndsInTime (empty 10 5 ⟨100⟩).ttl := by
    simp [crowdedRun, Operation.EndsInTime, empty, Moment.at, Instant.limit, Time.second]
  obtain ⟨before, c, hreached⟩ := exists_performAll_eq_ok hearlier
  have hends : ∀ o ∈ unswept outlivedRun, o.EndsInTime c.ttl := by
    rw [(moves_performAll hreached).ttl]
    simp [outlivedRun, unswept, Operation.isSweep, Operation.EndsInTime, empty, Moment.at,
      Instant.limit, Time.second]
  obtain ⟨answers, left, hplain⟩ := exists_performAll_eq_ok hends
  have hanswers : (((empty 10 5 ⟨100⟩).performAll (crowdedRun.take 1)).toOption.bind fun reached =>
      (reached.2.performAll (unswept outlivedRun)).toOption.map fun finished =>
        (finished.1.any Answer.evicts, finished.1.getLast?)) =
      some (false, some (.deleted true)) := by
    decide +kernel
  have hanswers' : (((empty 10 5 ⟨100⟩).performAll (crowdedRun.take 1)).toOption.bind fun reached =>
      (reached.2.performAll outlivedRun).toOption.map fun finished => finished.1.getLast?) =
      some (some (.deleted false)) := by
    decide +kernel
  have hclock : Forward (readings outlivedRun ++ [⟨8⟩]) := by
    unfold Forward
    decide
  simp only [hreached, hplain, Except.toOption, Option.bind_some, Option.map_some,
    Option.some.injEq, Prod.mk.injEq, List.any_eq_false, Bool.not_eq_true] at hanswers
  obtain ⟨hnobody, hlast⟩ := hanswers
  obtain ⟨hsweeps, hthins⟩ := sweeps_and_thins hreached
  obtain ⟨answers', left', hrun, halike, hleft, hsize⟩ :=
    hthins (by decide) outlivedRun ⟨8⟩ answers left hclock hplain hnobody
  simp only [hreached, hrun, Except.toOption, Option.bind_some, Option.map_some,
    Option.some.injEq] at hanswers'
  exact ⟨before, c, hreached, hsweeps, answers, left, hplain, hnobody, hlast, answers', left',
    hrun, hanswers', halike, hleft, hsize⟩

end ReadThrough.Cache
