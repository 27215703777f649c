import ReadThrough.Proofs.Object.Coherence
import ReadThrough.Proofs.Object.Watch

/-!
# How far back a read may answer

Requests of one object cross each other (`act`). What a read answers with is one version of the
object, and the question is how old it may be.

* `le_version_of_run` — it is no older than any version whose write had returned when the read
  started; and unless the answer comes from the cache, no older than any that a read had been
  answered with by then
* `exists_version_lt_answered` — from the cache it may be older than what a read had been answered
  with, as long as the write of that has not returned

## Invariant

`Sound` says of the cache that its entry serves for a version no older than any returned one, and of
each reader that it carries a version at least as new as its marks. A reader of age zero carries one
that may still be cached, and is held to the returned versions of the present (`Reader.Sound`): a
write that returns deletes its key first, and then no reader is of age zero.
-/

namespace ReadThrough.Watch

open Backend

/-! ## The invariant -/

/-- The answer is that of a version, and of one new enough. -/
structure Reading.Sound (policy : CompressionPolicy) (versions : List StoredObject) (x : Reading) :
    Prop where
  returned : x.since.returned ≤ x.version
  answered : x.response.cache ≠ .hit → x.since.answered ≤ x.version
  answer : ∃ object, versions[x.version]? = some object ∧
    x.response.unmarked =
      (Awaiting.answerFromFetch policy object.content object.metadata x.acceptsGzip).unmarked

/-- The generation that a reader noted and its age make the present one; it carries a version. -/
structure Reader.Sound (generation : UInt64) (marks : Marks) (versions : List StoredObject)
    (r : Reader) : Prop where
  tracked : generation = r.generation + UInt64.ofNat r.age
  answered : r.since.answered ≤ marks.answered
  returned : r.since.returned ≤ marks.returned
  carried : ∀ content metadata version, r.fetched = some (.ok (content, metadata), version) →
    versions[version]? = some ⟨content, metadata⟩ ∧ r.since.answered ≤ version ∧
      r.since.returned ≤ version ∧ (r.age = 0 → marks.returned ≤ version)

/-- The cache holds a version that is new enough, or none. -/
def CacheSound (key : String) (policy : CompressionPolicy) (s : State) : Prop :=
  ∀ e, s.cache.find? key = some e → s.marks.returned ≤ s.cached ∧
    ∃ object, s.versions[s.cached]? = some object ∧ e.Serves policy object

/-- What every action keeps. -/
structure Sound (id : ObjectId) (policy : CompressionPolicy) (s : State) : Prop where
  policy_eq : s.cache.policy = policy
  present : s.memory.find? id = s.versions.getLast?
  answered : s.marks.answered ≤ s.newest
  returned : s.marks.returned ≤ s.newest
  cached : CacheSound id.cacheKey policy s
  readers : ∀ r ∈ s.readers, r.Sound (s.cache.generation id.cacheKey) s.marks s.versions
  writers : ∀ w ∈ s.writers, ∀ outcome version, w.stored = some (outcome, version) →
    version ≤ s.newest
  readings : ∀ x ∈ s.readings, x.Sound policy s.versions

variable {id : ObjectId} {policy : CompressionPolicy} {s : State}

theorem sound_initial (maxSize : UInt64) (ttl : Nat) :
    Sound id policy (.initial maxSize ttl policy) where
  policy_eq := rfl
  present := rfl
  answered := Nat.le_refl 0
  returned := Nat.le_refl 0
  cached := fun _ hfound => nomatch hfound
  readers := fun _ hr => absurd hr List.not_mem_nil
  writers := fun _ hw => absurd hw List.not_mem_nil
  readings := fun _ hx => absurd hx List.not_mem_nil

/-! ## Parts of actions -/

theorem le_newest {version : Nat} {object : StoredObject}
    (h : s.versions[version]? = some object) : version ≤ s.newest := by
  have hlt : version < s.versions.length := (List.getElem?_eq_some_iff.1 h).1
  unfold State.newest
  omega

/-- What the store holds is the newest version. -/
theorem Sound.versions_newest (h : Sound id policy s) {object : StoredObject}
    (hfound : s.memory.find? id = some object) : s.versions[s.newest]? = some object := by
  rw [← hfound, h.present, List.getLast?_eq_getElem?]
  rfl

/-- A reader that sees the generation stay, or move by one, stays sound. -/
theorem Reader.Sound.seeing {before after : UInt64} {marks : Marks} {versions : List StoredObject}
    {r : Reader} (h : r.Sound before marks versions)
    (hmoves : after = before ∨ after = before + 1) :
    (r.seeing before after).Sound after marks versions := by
  unfold Reader.seeing
  split
  · next hsame =>
    rw [hsame]
    exact h
  · next hmoved =>
    refine ⟨?_, h.answered, h.returned, fun content metadata version hfetched => ?_⟩
    · exact Interleaving.generation_eq_of_moved h.tracked (hmoves.resolve_left hmoved)
    · obtain ⟨hversion, hanswered, hreturned, -⟩ := h.carried content metadata version hfetched
      exact ⟨hversion, hanswered, hreturned, fun hzero => absurd hzero (Nat.succ_ne_zero r.age)⟩

/-- A segment that only removes entries keeps everything. -/
theorem Sound.withCache_shrinks (h : Sound id policy s) {c : Cache} (hshrinks : s.cache.Shrinks c) :
    Sound id policy (s.withCache id.cacheKey c) where
  policy_eq := hshrinks.policy.trans h.policy_eq
  present := h.present
  answered := h.answered
  returned := h.returned
  cached := fun e hfound => h.cached e (hshrinks.find? hfound)
  readers := by
    intro r hr
    obtain ⟨r', hr', rfl⟩ := List.mem_map.1 hr
    exact (h.readers r' hr').seeing (Or.inl (hshrinks.generation_eq _))
  writers := h.writers
  readings := h.readings

/-- A deletion keeps everything, and leaves no entry and no reader of age zero. -/
theorem Sound.withCache_delete (h : Sound id policy s) :
    Sound id policy (s.withCache id.cacheKey (s.cache.delete id.cacheKey).2) where
  policy_eq := (s.cache.shrinks_delete id.cacheKey).policy.trans h.policy_eq
  present := h.present
  answered := h.answered
  returned := h.returned
  cached := fun e hfound => h.cached e (Cache.find?_of_find?_delete hfound)
  readers := by
    intro r hr
    obtain ⟨r', hr', rfl⟩ := List.mem_map.1 hr
    refine (h.readers r' hr').seeing (Or.inr ?_)
    exact (s.cache.generation_delete _ _).trans (if_pos rfl)
  writers := h.writers
  readings := h.readings

/-- A read may be answered with a version that is new enough. -/
theorem Sound.answers (h : Sound id policy s) {x : Reading} (hx : x.Sound policy s.versions) :
    Sound id policy (s.answers x) where
  policy_eq := h.policy_eq
  present := h.present
  answered := by
    obtain ⟨object, hversion, -⟩ := hx.answer
    exact Nat.max_le.2 ⟨h.answered, le_newest hversion⟩
  returned := h.returned
  cached := h.cached
  readers := by
    intro r hr
    obtain ⟨htracked, hanswered, hreturned, hcarried⟩ := h.readers r hr
    exact ⟨htracked, Nat.le_trans hanswered (Nat.le_max_left _ _), hreturned, hcarried⟩
  writers := h.writers
  readings := List.forall_mem_cons.2 ⟨hx, h.readings⟩

/-- After a deletion every reader has seen the generation move. -/
theorem age_ne_zero_of_delete {r : Reader}
    (hr : r ∈ (s.withCache id.cacheKey (s.cache.delete id.cacheKey).2).readers) : r.age ≠ 0 := by
  obtain ⟨r', -, rfl⟩ := List.mem_map.1 hr
  have hmoved : (s.cache.delete id.cacheKey).2.generation id.cacheKey ≠
      s.cache.generation id.cacheKey := by
    rw [Cache.generation_delete, if_pos rfl]
    simp
  rw [Reader.seeing, if_neg hmoved]
  exact Nat.succ_ne_zero r'.age

/-- A write may return where nothing older is cached or may be. -/
theorem Sound.returns (h : Sound id policy s) {version : Nat} (hversion : version ≤ s.newest)
    (hnone : s.cache.find? id.cacheKey = none) (hold : ∀ r ∈ s.readers, r.age ≠ 0) :
    Sound id policy (s.returns version) where
  policy_eq := h.policy_eq
  present := h.present
  answered := h.answered
  returned := Nat.max_le.2 ⟨h.returned, hversion⟩
  cached := fun e hfound => absurd (hnone.symm.trans hfound) (by simp)
  readers := by
    intro r hr
    obtain ⟨htracked, hanswered, hreturned, hcarried⟩ := h.readers r hr
    refine ⟨htracked, hanswered, Nat.le_trans hreturned (Nat.le_max_left _ _), ?_⟩
    intro content metadata version hfetched
    -- what the reader carries may be older than this version, but can no longer be cached
    obtain ⟨hat, hsince, hsince', -⟩ := hcarried content metadata version hfetched
    exact ⟨hat, hsince, hsince', fun hzero => absurd hzero (hold r hr)⟩
  writers := h.writers
  readings := h.readings

/-- The cache may be given a version that is new enough. -/
theorem Sound.withCache_adds (h : Sound id policy s) {e : Entry} {c : Cache}
    (hadds : s.cache.Adds e c) (hkey : e.key = id.cacheKey) {version : Nat} {object : StoredObject}
    (hversion : s.versions[version]? = some object) (hserves : e.Serves policy object)
    (hnew : s.marks.returned ≤ version) :
    Sound id policy { s.withCache id.cacheKey c with cached := version } where
  policy_eq := hadds.policy.trans h.policy_eq
  present := h.present
  answered := h.answered
  returned := h.returned
  cached := by
    intro x hfound
    obtain rfl : e = x := Option.some.inj (hadds.found.symm.trans (hkey ▸ hfound))
    exact ⟨hnew, object, hversion, hserves⟩
  readers := by
    intro r hr
    obtain ⟨r', hr', rfl⟩ := List.mem_map.1 hr
    exact (h.readers r' hr').seeing (Or.inl (hadds.generation_eq _))
  writers := h.writers
  readings := h.readings

theorem getElem?_append_of_eq_some {versions : List StoredObject} {version : Nat}
    {object : StoredObject} (h : versions[version]? = some object) (later : List StoredObject) :
    (versions ++ later)[version]? = some object := by
  rw [List.getElem?_append_left (List.getElem?_eq_some_iff.1 h).1, h]

/-- A version more takes nothing back. -/
theorem Sound.stores (h : Sound id policy s) {memory : Memory} {object : StoredObject}
    (hfound : memory.find? id = some object) :
    Sound id policy { s with memory, versions := s.versions ++ [object] } where
  policy_eq := h.policy_eq
  present := by
    show memory.find? id = (s.versions ++ [object]).getLast?
    rw [hfound, List.getLast?_concat]
  answered := Nat.le_trans h.answered (by simp [State.newest])
  returned := Nat.le_trans h.returned (by simp [State.newest])
  cached := by
    intro e he
    obtain ⟨hnew, cached, hversion, hserves⟩ := h.cached e he
    exact ⟨hnew, cached, getElem?_append_of_eq_some hversion _, hserves⟩
  readers := by
    intro r hr
    obtain ⟨htracked, hanswered, hreturned, hcarried⟩ := h.readers r hr
    refine ⟨htracked, hanswered, hreturned, ?_⟩
    intro content metadata version hfetched
    obtain ⟨hversion, hnew⟩ := hcarried content metadata version hfetched
    exact ⟨getElem?_append_of_eq_some hversion _, hnew⟩
  writers := by
    intro w hw outcome version hstored
    exact Nat.le_trans (h.writers w hw outcome version hstored) (by simp [State.newest])
  readings := by
    intro x hx
    obtain ⟨hreturned, hanswered, object, hversion, hresponse⟩ := h.readings x hx
    exact ⟨hreturned, hanswered, object, getElem?_append_of_eq_some hversion _, hresponse⟩

theorem Sound.withReaders (h : Sound id policy s) {readers : List Reader}
    (hreaders : ∀ r ∈ readers, r.Sound (s.cache.generation id.cacheKey) s.marks s.versions) :
    Sound id policy { s with readers } :=
  { h with readers := hreaders }

theorem Sound.withWriters (h : Sound id policy s) {writers : List Writer}
    (hwriters : ∀ w ∈ writers, ∀ outcome version, w.stored = some (outcome, version) →
      version ≤ s.newest) :
    Sound id policy { s with writers } :=
  { h with writers := hwriters }

/-! ## Segments of reads -/

/-- A read that starts has no name, or an entry, or notes the present generation. -/
theorem start_get_cases (id : ObjectId) (info : RequestInfo) (m : Moment) (c : Cache) :
    (ObjectRequest.get id info).start m c = (.done (.error .emptyName), c) ∨
      (∃ e, c.find? id.cacheKey = some e ∧ (ObjectRequest.get id info).start m c =
        (.done (.ok (ObjectRequest.answerFromEntry e info.acceptsGzip)),
          (c.get m id.cacheKey).2)) ∨
      (ObjectRequest.get id info).start m c =
        (.waiting (.get id ((c.get m id.cacheKey).2.generation id.cacheKey) info.acceptsGzip),
          (c.get m id.cacheKey).2) := by
  unfold ObjectRequest.start
  split
  · exact Or.inl rfl
  · refine Or.inr ?_
    dsimp only
    split
    · next e c' hget =>
      rw [hget]
      exact Or.inl ⟨e, (Cache.find?_of_get (congrArg Prod.fst hget)).1, rfl⟩
    · next c' hget =>
      rw [hget]
      exact Or.inr rfl

theorem Sound.read (h : Sound id policy s) (m : Moment) (info : RequestInfo) :
    Sound id policy (s.read id m info) := by
  have hget := h.withCache_shrinks (s.cache.shrinks_get m id.cacheKey)
  unfold State.read
  rcases start_get_cases id info m s.cache with hstart | ⟨e, hfound, hstart⟩ | hstart
  · rw [hstart]
    exact h.withCache_shrinks (.refl s.cache)
  · rw [hstart]
    -- a hit is held to what has returned, and to nothing that was only answered
    obtain ⟨hreturned, object, hversion, hserves⟩ := h.cached e hfound
    exact hget.answers
      { returned := hreturned
        answered := fun hmiss => absurd (hit_of_answerFromEntry e info.acceptsGzip) hmiss
        answer := ⟨object, hversion, unmarked_answerFromEntry hserves info.acceptsGzip⟩ }
  · rw [hstart]
    refine hget.withReaders (List.forall_mem_cons.2 ⟨?_, hget.readers⟩)
    exact
      { tracked := (UInt64.add_zero _).symm
        answered := Nat.le_refl _
        returned := Nat.le_refl _
        carried := fun _ _ _ hfetched => nomatch hfetched }

/-- What a fetch brings back is there, and it changes nothing. -/
theorem perform_fetch {memory memory' : Memory} {now : Time} {id : ObjectId}
    {outcome : Except Failure (Bytes × Metadata)}
    (h : memory.perform now (.fetch id) = (outcome, memory')) :
    memory' = memory ∧ ∀ content metadata, outcome = .ok (content, metadata) →
      memory.find? id = some ⟨content, metadata⟩ := by
  have heffect := effect_perform memory now (.fetch id)
  rw [h] at heffect
  rcases heffect.written_or_same with ⟨hwrite, -⟩ | rfl
  · cases hwrite
  · refine ⟨rfl, fun content metadata hok => ?_⟩
    subst hok
    exact heffect.find?_of_fetched

theorem Sound.fetch (h : Sound id policy s) {place : Nat} {now : Time} {s' : State}
    (hfetch : s.fetch id place now = some s') : Sound id policy s' := by
  unfold State.fetch at hfetch
  split at hfetch
  · next generation acceptsGzip age since hreader =>
    cases hperform : s.memory.perform now (.fetch id) with
    | mk outcome memory =>
      rw [hperform] at hfetch
      obtain rfl := Option.some.inj hfetch
      obtain ⟨rfl, hfound⟩ := perform_fetch hperform
      refine h.withReaders fun r hr => ?_
      rcases List.mem_or_eq_of_mem_set hr with hr | rfl
      · exact h.readers r hr
      · obtain ⟨htracked, hanswered, hreturned, -⟩ := h.readers _ (List.mem_of_getElem? hreader)
        refine ⟨htracked, hanswered, hreturned, fun content metadata version hfetched => ?_⟩
        obtain ⟨hok, rfl⟩ := Prod.mk.inj (Option.some.inj hfetched)
        exact ⟨h.versions_newest (hfound content metadata hok), Nat.le_trans hanswered h.answered,
          Nat.le_trans hreturned h.returned, fun _ => h.returned⟩
  · cases hfetch

theorem takes_of_insert {m : Moment} {generation : UInt64} {content : Bytes} {metadata : Metadata}
    {inserted : Cache.Insertion}
    (h : s.cache.insert m id.cacheKey content metadata (some generation) = .ok inserted) :
    s.takes id m generation (.ok (content, metadata)) = inserted.accepted := by
  simp only [State.takes, h]

/--
A read that is answered was as new as its marks when it fetched. The cache takes what it fetched
only if the generation has not moved, and then no write has returned since.
-/
theorem Sound.answer (h : Sound id policy s) {place : Nat} {m : Moment} {s' : State}
    (hanswer : s.answer id place m = some s') : Sound id policy s' := by
  unfold State.answer at hanswer
  split at hanswer
  · next generation acceptsGzip outcome version age since hreader =>
    split at hanswer
    · next hyoung =>
      have hleft : Sound id policy { s with readers := s.readers.eraseIdx place } :=
        h.withReaders fun r hr => h.readers r (List.mem_of_mem_eraseIdx hr)
      have hr := h.readers _ (List.mem_of_getElem? hreader)
      dsimp only at hanswer
      split at hanswer
      · obtain rfl := Option.some.inj hanswer
        exact hleft
      · next finished hresume =>
        rcases Interleaving.resume_get_cases hresume with
          ⟨failure, rfl, rfl⟩ | ⟨content, metadata, inserted, rfl, hinsert, rfl⟩
        · obtain rfl := Option.some.inj hanswer
          exact hleft.withCache_shrinks (.refl s.cache)
        · obtain ⟨hversion, hsince, hsince', hnew⟩ := hr.carried content metadata version rfl
          obtain rfl := Option.some.inj hanswer
          refine Sound.answers ?_ ⟨hsince', fun _ => hsince, _, hversion, by rw [h.policy_eq]⟩
          rw [takes_of_insert hinsert]
          rcases Cache.insert_cases hinsert with rfl | ⟨hsize, hgeneration, expires, -, rfl⟩
          · exact hleft.withCache_shrinks (.refl s.cache)
          · -- the cache has compared generations, so no write has returned since the fetch
            obtain rfl := hgeneration generation rfl
            have hage := Interleaving.age_eq_zero_of_generation_eq hr.tracked hyoung
            have hserves := Cache.serves_entryOf hsize id.cacheKey metadata expires
            rw [h.policy_eq] at hserves
            exact hleft.withCache_adds (Cache.adds_accept s.cache m _) rfl hversion hserves
              (hnew hage)
    · cases hanswer
  · cases hanswer

/-! ## Segments of writes -/

/-- A write that starts has no name, or deletes its key and then waits or is done. -/
theorem start_put_cases (id : ObjectId) (info : RequestInfo) (body : Bytes) (m : Moment)
    (c : Cache) :
    (ObjectRequest.put id info body).start m c = (.done (.error .emptyName), c) ∨
      (∃ failure, (ObjectRequest.put id info body).start m c =
        (.done (.error failure), (c.delete id.cacheKey).2)) ∨
      ∃ content contentType, (ObjectRequest.put id info body).start m c =
        (.waiting (.put id content contentType), (c.delete id.cacheKey).2) := by
  unfold ObjectRequest.start
  split
  · exact Or.inl rfl
  · refine Or.inr ?_
    dsimp only
    split
    · exact Or.inl ⟨_, rfl⟩
    · exact Or.inr ⟨_, _, rfl⟩

theorem Sound.write (h : Sound id policy s) (m : Moment) (info : RequestInfo) (body : Bytes) :
    Sound id policy (s.write id m info body) := by
  unfold State.write
  rcases start_put_cases id info body m s.cache with
    hstart | ⟨failure, hstart⟩ | ⟨content, contentType, hstart⟩
  · rw [hstart]
    exact h.withCache_shrinks (.refl s.cache)
  · rw [hstart]
    exact h.withCache_delete
  · rw [hstart]
    refine h.withCache_delete.withWriters (List.forall_mem_cons.2 ⟨?_, h.writers⟩)
    exact fun _ _ hstored => nomatch hstored

theorem Sound.store (h : Sound id policy s) {place : Nat} {now : Time} {s' : State}
    (hstore : s.store id place now = some s') : Sound id policy s' := by
  unfold State.store at hstore
  split at hstore
  · next content contentType hwriter =>
    have hplaced := s.memory.find?_place_self id (Memory.objectOf content contentType now)
    simp only [Memory.perform, hplaced, Option.toList_some] at hstore
    obtain rfl := Option.some.inj hstore
    have hstores := h.stores hplaced
    refine hstores.withWriters fun w hw outcome version hstored => ?_
    rcases List.mem_or_eq_of_mem_set hw with hw | rfl
    · exact hstores.writers w hw outcome version hstored
    · obtain ⟨-, rfl⟩ := Prod.mk.inj (Option.some.inj hstored)
      simp [State.newest]
  · cases hstore

/-- A write that returns deletes its key first, unless it has failed. -/
theorem Sound.settle (h : Sound id policy s) {place : Nat} {m : Moment} {s' : State}
    (hsettle : s.settle id place m = some s') : Sound id policy s' := by
  unfold State.settle at hsettle
  split at hsettle
  · next content contentType outcome version hwriter =>
    have hleft : Sound id policy { s with writers := s.writers.eraseIdx place } :=
      h.withWriters fun w hw => h.writers w (List.mem_of_mem_eraseIdx hw)
    cases outcome with
    | error failure =>
      obtain rfl := Option.some.inj hsettle
      exact hleft.withCache_shrinks (.refl s.cache)
    | ok reply =>
      obtain rfl := Option.some.inj hsettle
      refine hleft.withCache_delete.returns ?_ ?_ fun r hr => age_ne_zero_of_delete hr
      · exact h.writers _ (List.mem_of_getElem? hwriter) _ version rfl
      · exact s.cache.find?_delete_self id.cacheKey
  · cases hsettle

/-! ## Runs -/

theorem Sound.act (h : Sound id policy s) {action : Action} {s' : State}
    (hact : act id s action = some s') : Sound id policy s' := by
  cases action with
  | read m info => exact Option.some.inj hact ▸ h.read m info
  | fetch place now =>
    change s.fetch id place now = some s' at hact
    exact h.fetch hact
  | answer place m => exact h.answer hact
  | write m info body => exact Option.some.inj hact ▸ h.write m info body
  | store place now => exact h.store hact
  | settle place m => exact h.settle hact
  | sweep m => exact Option.some.inj hact ▸ h.withCache_shrinks (s.cache.shrinks_sweep m)

theorem Sound.run (h : Sound id policy s) {actions : List Action} {s' : State}
    (hrun : run id s actions = some s') : Sound id policy s' := by
  induction actions generalizing s with
  | nil => exact Option.some.inj hrun ▸ h
  | cons action actions ih =>
    obtain ⟨next, hact, hrest⟩ := Option.bind_eq_some_iff.1 hrun
    exact ih (h.act hact) hrest

/-! ## Three requests that cross -/

/-- A request that says nothing of itself. -/
def plainly : RequestInfo := ⟨false, none, none⟩

/-- The first instant. -/
def dawn : Moment := .at ⟨0⟩ ⟨0, 0⟩

/--
An object is written and then written again. One read fetches before the second write has its
effect, another after it; the second is answered first. A third read starts at the end, and the
second write has not returned.
-/
def crossing : List Action :=
  [.write dawn plainly (Bytes.ofText "old"), .store 0 ⟨0, 0⟩, .settle 0 dawn,
    .write dawn plainly (Bytes.ofText "new"),
    .read dawn plainly, .fetch 0 ⟨0, 0⟩,
    .store 0 ⟨0, 0⟩,
    .read dawn plainly, .fetch 0 ⟨0, 0⟩, .answer 0 dawn,
    .answer 0 dawn,
    .read dawn plainly]

/--
**From the cache a read may be answered with less than was seen before.** At the end of `crossing` a
read is answered with the old content, though one had been answered with the new content before it
started. The read that fetched the old content has put it in the place of the new.
-/
theorem exists_version_lt_answered :
    ∃ s x, run ⟨"b", "k"⟩ (.initial 100 5 ⟨100⟩) crossing = some s ∧ x ∈ s.readings ∧
      x.version < x.since.answered ∧ x.since.returned < x.since.answered ∧
      x.response.body = Bytes.ofText "old" ∧
      (s.versions[x.since.answered]?).map StoredObject.content = some (Bytes.ofText "new") := by
  have hread : ((run ⟨"b", "k"⟩ (.initial 100 5 ⟨100⟩) crossing).bind fun s =>
      s.readings.head?.map fun x => (x.version, x.since, x.response.body,
        (s.versions[x.since.answered]?).map StoredObject.content)) =
      some (0, ⟨1, 0⟩, Bytes.ofText "old", some (Bytes.ofText "new")) := by
    decide +kernel
  simp only [Option.bind_eq_some_iff, Option.map_eq_some_iff, Prod.mk.injEq] at hread
  obtain ⟨s, hrun, x, hx, hversion, hsince, hbody, hanswered⟩ := hread
  refine ⟨s, x, hrun, List.mem_of_mem_head? hx, ?_, ?_, hbody,
    Option.map_eq_some_iff.2 hanswered⟩
  · rw [hversion, hsince]
    exact Nat.zero_lt_one
  · rw [hsince]
    exact Nat.zero_lt_one

/-! ## Any number of requests -/

/--
**A read answers with a version that is new enough.** However reads and writes of an object cross,
what a read answers with is a version of the object, and one no older than any version whose write
had returned when the read started. An answer that does not come from the cache is no older than any
version that a read had been answered with by then, be its write still under way or not.
-/
theorem le_version_of_run {maxSize : UInt64} {ttl : Nat} {actions : List Action}
    (hrun : run id (.initial maxSize ttl policy) actions = some s) :
    ∀ x ∈ s.readings, x.since.returned ≤ x.version ∧
      (x.response.cache ≠ .hit → x.since.answered ≤ x.version) ∧
      ∃ object, s.versions[x.version]? = some object ∧
        x.response.unmarked =
          (Awaiting.answerFromFetch policy object.content object.metadata
            x.acceptsGzip).unmarked := by
  intro x hx
  have hsound := (sound_initial maxSize ttl).run hrun
  obtain ⟨hreturned, hanswered, hanswer⟩ := hsound.readings x hx
  exact ⟨hreturned, hanswered, hanswer⟩

/-- The theorem at work: after `crossing` the write returns, and the next read has to fetch. -/
theorem le_version_of_run_crossing :
    ∃ s x, run ⟨"b", "k"⟩ (.initial 100 5 ⟨100⟩)
        (crossing ++ [.settle 0 dawn, .read dawn plainly, .fetch 0 ⟨0, 0⟩, .answer 0 dawn]) =
          some s ∧
      x ∈ s.readings ∧ x.since = ⟨1, 1⟩ ∧ x.response.cache = .miss ∧ 1 ≤ x.version := by
  have hread : ((run ⟨"b", "k"⟩ (.initial 100 5 ⟨100⟩)
      (crossing ++ [.settle 0 dawn, .read dawn plainly, .fetch 0 ⟨0, 0⟩, .answer 0 dawn])).bind
        fun s => s.readings.head?.map fun x => (x.since, x.response.cache)) =
      some (⟨1, 1⟩, .miss) := by
    decide +kernel
  simp only [Option.bind_eq_some_iff, Option.map_eq_some_iff, Prod.mk.injEq] at hread
  obtain ⟨s, hrun, x, hx, hsince, hmiss⟩ := hread
  have hmem := List.mem_of_mem_head? hx
  obtain ⟨hreturned, -, -⟩ := le_version_of_run hrun x hmem
  rw [hsince] at hreturned
  exact ⟨s, x, hrun, hmem, hsince, hmiss, hreturned⟩

end ReadThrough.Watch
