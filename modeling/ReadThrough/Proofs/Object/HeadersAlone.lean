import ReadThrough.Proofs.Object.Setback

/-!
# Headers alone

Who asks for the headers of an object alone is told what a plain read would tell, and gets no body.
Both requests look into the cache first. A hit answers either from the entry, a miss from the store:
the one by `stat`, the other by `fetch`. The length that is told is in one case the size that the
entry states, in the other the size that the store states, and both are the length of the body that
a read would bring.

* `describes_ofEntry`, `describes_direct` — the two ways to an answer
* `Faithful.describes` — the two requests may go different ways, for entries copy what is stored
* `glimpses_attempt` — what a request for headers alone does to a session: next to nothing
* `exists_describes` — the main theorem
-/

namespace ReadThrough

open Backend

/-! ## What headers alone tell -/

/-- The first answer has no body, and says what the second says, which has one. -/
structure ObjectResponse.Describes (r r' : ObjectResponse) : Prop where
  status : r.status = r'.status
  contentType : r.contentType = r'.contentType
  contentLength : r.contentLength = r'.contentLength
  modified : r.modified = r'.modified
  etag : r.etag = r'.etag
  length : r.contentLength = some r'.body.length
  plain : r.gzip = false
  body : r.body = []

/-- Both requests fail for the same reason, or one answer describes the other. -/
def ObjectOutcome.Describes : ObjectOutcome → ObjectOutcome → Prop
  | .ok r, .ok r' => r.Describes r'
  | .error failure, .error failure' => failure = failure'
  | _, _ => False

theorem describes_ofEntry {e : Entry} (hsize : e.rawSize.toNat = e.raw.length) :
    ((ObjectResponse.ofEntry e [] false).headersOnly e.rawSize.toNat).Describes
      (ObjectRequest.answerFromEntry e false) := by
  have hanswer : ObjectRequest.answerFromEntry e false = .ofEntry e e.raw false := by
    unfold ObjectRequest.answerFromEntry
    cases e.packed <;> rfl
  rw [hanswer]
  exact ⟨rfl, rfl, congrArg some hsize, rfl, rfl, congrArg some hsize, rfl, rfl⟩

theorem describes_ofMetadata (policy : CompressionPolicy) {object : StoredObject}
    (hsize : object.metadata.size = object.content.length) :
    ((ObjectResponse.ofMetadata object.metadata [] false).headersOnly
      object.metadata.size).Describes
      (Awaiting.answerFromFetch policy object.content object.metadata false) :=
  ⟨rfl, rfl, congrArg some hsize, rfl, rfl, congrArg some hsize, rfl, rfl⟩

/-- What the store alone tells of an object is what it brings. -/
theorem describes_direct {memory : Memory} {id : ObjectId}
    (hsized : ∀ object, memory.find? id = some object →
      object.metadata.size = object.content.length)
    {info : RequestInfo} (hplain : info.acceptsGzip = false) (policy : CompressionPolicy)
    (now now' : Time) :
    ObjectOutcome.Describes ((ObjectRequest.head id).direct policy now memory).1
      ((ObjectRequest.get id info).direct policy now' memory).1 := by
  unfold ObjectRequest.direct
  cases hnamed : ObjectRequest.named id with
  | false => simp [ObjectRequest.id, hnamed, ObjectOutcome.Describes]
  | true =>
    cases hobject : memory.find? id with
    | none =>
      simp [ObjectRequest.id, hnamed, Memory.perform, hobject, ObjectOutcome.Describes,
        RequestFailure.ofCall, Failure.isNotFound]
    | some object =>
      simp only [ObjectRequest.id, hnamed, Memory.perform, hobject, hplain]
      exact describes_ofMetadata policy (hsized object hobject)

/-- The part that the cache had in the answers plays no part in what they tell. -/
theorem describes_unmarked_iff {told read : ObjectOutcome} :
    ObjectOutcome.Describes told.unmarked read.unmarked ↔ ObjectOutcome.Describes told read := by
  rcases told with failure | r
  · rcases read with failure' | r' <;> exact Iff.rfl
  · rcases read with failure' | r'
    · exact Iff.rfl
    · constructor
      · intro h
        exact ⟨h.status, h.contentType, h.contentLength, h.modified, h.etag, h.length, h.plain,
          h.body⟩
      · intro h
        exact ⟨h.status, h.contentType, h.contentLength, h.modified, h.etag, h.length, h.plain,
          h.body⟩

namespace Session

variable {objects : ObjectId → Prop} {ttl : Nat} {policy : CompressionPolicy} {s t u : Session}
  {id : ObjectId} {info : RequestInfo} {before after before' after' : Moment}
  {during during' : Time} {told read : ObjectOutcome}

/-! ## Two requests at two instants -/

/-- In a faithful session both tell what the store alone would tell. -/
theorem Faithful.describes (hkeys : SeparateKeys objects) (h : s.Faithful objects ttl policy)
    (hid : objects id) (hplain : info.acceptsGzip = false)
    (hhead : s.serve ⟨.head id, before, during, after⟩ = .ok (told, t))
    (hget : s.serve ⟨.get id info, before', during', after'⟩ = .ok (read, u)) :
    ObjectOutcome.Describes told read := by
  obtain ⟨told', t', hhead', -, htold, -⟩ :=
    h.alike (v := ⟨.head id, before, during, after⟩) hkeys (fun _ => hid) hhead
  obtain ⟨read', u', hget', -, hread, -⟩ :=
    h.alike (v := ⟨.get id info, before', during', after'⟩) hkeys (fun _ => hid) hget
  rw [hhead] at hhead'
  rw [hget] at hget'
  obtain ⟨rfl, -⟩ := Prod.mk.inj (Except.ok.inj hhead')
  obtain ⟨rfl, -⟩ := Prod.mk.inj (Except.ok.inj hget')
  rw [← describes_unmarked_iff, htold, hread, describes_unmarked_iff]
  exact describes_direct (h.sized id) hplain policy during during'

/-! ## Two requests at one instant -/

/-- A request for headers alone is answered by what its look-up finds, or from the store. -/
theorem told_eq (hhead : s.serve ⟨.head id, before, during, after⟩ = .ok (told, t)) :
    told =
      if ObjectRequest.named id = true then
        match (s.cache.get before id.cacheKey).1 with
        | some e => .ok ((ObjectResponse.ofEntry e [] false).headersOnly e.rawSize.toNat)
        | none => ((ObjectRequest.head id).direct s.cache.policy during s.memory).1
      else .error .emptyName := by
  unfold serve at hhead
  cases hstart : (ObjectRequest.head id).start before s.cache with | mk p c
  rw [hstart] at hhead
  cases starts_of_eq hstart with
  | unnamed hunnamed =>
    obtain ⟨rfl, -⟩ := Prod.mk.inj (Except.ok.inj hhead)
    exact (if_neg (ne_true_of_eq_false hunnamed)).symm
  | foundHead hnamed hfound =>
    obtain ⟨rfl, -⟩ := Prod.mk.inj (Except.ok.inj hhead)
    rw [if_pos hnamed, hfound]
  | missedHead hnamed hmissed =>
    rw [if_pos hnamed, hmissed]
    cases hobject : s.memory.find? id with
    | none =>
      simp only [Memory.perform, hobject] at hhead
      obtain ⟨rfl, -⟩ := Prod.mk.inj (Except.ok.inj hhead)
      simp [ObjectRequest.direct, ObjectRequest.id, hnamed, Memory.perform, hobject]
    | some object =>
      simp only [Memory.perform, hobject] at hhead
      obtain ⟨rfl, -⟩ := Prod.mk.inj (Except.ok.inj hhead)
      simp [ObjectRequest.direct, ObjectRequest.id, hnamed, Memory.perform, hobject]

/-- A read is answered by what its look-up finds, or from the store. -/
theorem read_eq (hget : s.serve ⟨.get id info, before, during, after⟩ = .ok (read, u)) :
    read =
      if ObjectRequest.named id = true then
        match (s.cache.get before id.cacheKey).1 with
        | some e => .ok (ObjectRequest.answerFromEntry e info.acceptsGzip)
        | none => ((ObjectRequest.get id info).direct s.cache.policy during s.memory).1
      else .error .emptyName := by
  unfold serve at hget
  cases hstart : (ObjectRequest.get id info).start before s.cache with | mk p c
  rw [hstart] at hget
  cases starts_of_eq hstart with
  | unnamed hunnamed =>
    obtain ⟨rfl, -⟩ := Prod.mk.inj (Except.ok.inj hget)
    exact (if_neg (ne_true_of_eq_false hunnamed)).symm
  | found hnamed info hfound =>
    obtain ⟨rfl, -⟩ := Prod.mk.inj (Except.ok.inj hget)
    rw [if_pos hnamed, hfound]
  | missed hnamed info hmissed =>
    rw [if_pos hnamed, hmissed]
    cases hobject : s.memory.find? id with
    | none =>
      simp only [Memory.perform, hobject] at hget
      obtain ⟨rfl, -⟩ := Prod.mk.inj (Except.ok.inj hget)
      simp [ObjectRequest.direct, ObjectRequest.id, hnamed, Memory.perform, hobject]
    | some object =>
      simp only [Memory.perform, hobject] at hget
      obtain ⟨finished, hresume, hlast⟩ := exists_of_bind_eq_ok hget
      obtain ⟨rfl, -⟩ := Prod.mk.inj (Except.ok.inj hlast)
      cases resumes_of_eq hresume with
      | fetched _ hinsert =>
        rw [(s.cache.shrinks_get before id.cacheKey).policy]
        simp [ObjectRequest.direct, ObjectRequest.id, hnamed, Memory.perform, hobject]

/-- At one instant both find the same entry, or none. -/
theorem describes_of_now_eq
    (hsized : ∀ object, s.memory.find? id = some object →
      object.metadata.size = object.content.length)
    (hstated : ∀ e, s.cache.find? id.cacheKey = some e → e.rawSize.toNat = e.raw.length)
    (hplain : info.acceptsGzip = false) (hnow : before.now = before'.now)
    (hhead : s.serve ⟨.head id, before, during, after⟩ = .ok (told, t))
    (hget : s.serve ⟨.get id info, before', during', after'⟩ = .ok (read, u)) :
    ObjectOutcome.Describes told read := by
  have hsame : (s.cache.get before' id.cacheKey).1 = (s.cache.get before id.cacheKey).1 := by
    rw [Cache.get_fst, Cache.get_fst, hnow]
  rw [told_eq hhead, read_eq hget, hsame]
  by_cases hnamed : ObjectRequest.named id = true
  · rw [if_pos hnamed, if_pos hnamed]
    cases hfound : (s.cache.get before id.cacheKey).1 with
    | none => exact describes_direct hsized hplain s.cache.policy during during'
    | some e =>
      rw [hplain]
      exact describes_ofEntry (hstated e (Cache.find?_of_get hfound).1)
  · rw [if_neg hnamed, if_neg hnamed]
    exact rfl

/--
An entry states the size of its content, whether it is of the object, of another that shares its
key, or of neither.
-/
theorem Endured.rawSize_eq (h : Endured objects s) (hkeys : SeparateKeys objects) {e : Entry}
    (hfound : s.cache.find? id.cacheKey = some e) : e.rawSize.toNat = e.raw.length := by
  by_cases hclash : ∃ other, objects other ∧ other.cacheKey = id.cacheKey
  · obtain ⟨other, hother, hkey⟩ := hclash
    obtain ⟨policy, hfaithful⟩ := h.exists_faithful hkeys
    obtain ⟨object, -, hserves⟩ := hfaithful.cached other e hother (hkey ▸ hfound)
    rw [hserves.rawSize, hserves.raw]
  · -- then the object may join the others, for it has a key of its own
    have hjoined : SeparateKeys fun other => objects other ∨ other = id := by
      rintro a b (ha | rfl) (hb | rfl) hkey
      · exact hkeys a b ha hb hkey
      · exact absurd ⟨a, ha, hkey⟩ hclash
      · exact absurd ⟨b, hb, hkey.symm⟩ hclash
      · rfl
    have hmore : Endured (fun other => objects other ∨ other = id) s := by
      obtain ⟨maxSize, ttl, policy, turns, outcomes, hturns, hrun⟩ := h
      refine ⟨maxSize, ttl, policy, turns, outcomes, ?_, hrun⟩
      intro turn hturn
      have hinside := hturns turn hturn
      cases turn with
      | visit v fault => exact fun hnamed => Or.inl (hinside hnamed)
      | sweep m => exact trivial
    obtain ⟨policy, hfaithful⟩ := hmore.exists_faithful hjoined
    obtain ⟨object, -, hserves⟩ := hfaithful.cached id e (Or.inr rfl) hfound
    rw [hserves.rawSize, hserves.raw]

/-! ## What is left -/

/-- The second session is the first, perhaps without an entry of an object that was dead. -/
structure Glimpses (s : Session) (id : ObjectId) (now : Instant) (t : Session) : Prop where
  memory : t.memory = s.memory
  terms : s.cache.SameTerms t.cache
  /-- No entry is new, and those of other keys are as before. -/
  cleared : s.cache.Clears id.cacheKey t.cache
  live : ∀ e, s.cache.find? id.cacheKey = some e → now.nanos < e.expires.nanos →
    t.cache.find? id.cacheKey = some e

theorem glimpses_refl (s : Session) (id : ObjectId) (now : Instant) : s.Glimpses id now s where
  memory := rfl
  terms := .refl s.cache
  cleared := s.cache.clears_refl id.cacheKey
  live := fun _ hfound _ => hfound

theorem glimpses_get (s : Session) (id : ObjectId) (m : Moment) :
    s.Glimpses id m.now ⟨(s.cache.get m id.cacheKey).2, s.memory⟩ where
  memory := rfl
  terms := (s.cache.shrinks_get m id.cacheKey).toSameTerms
  cleared := s.cache.clears_get m id.cacheKey
  live := by
    intro e hfound hlive
    have hnotyet : e.isExpired m.now = false := Cache.isExpired_eq_false_iff.mpr hlive
    exact Cache.find?_get_of_live hfound hnotyet id.cacheKey

theorem snd_attempt_stat (memory : Memory) (now : Time) (fault : Option Failure) (id : ObjectId) :
    (memory.attempt now fault (.stat id)).2 = memory := by
  cases fault with
  | some failure => rfl
  | none =>
    show (memory.perform now (.stat id)).2 = memory
    dsimp only [Memory.perform]
    cases memory.find? id <;> rfl

/-- A request for headers alone does nothing but look, whether its call fails or not. -/
theorem glimpses_attempt {fault : Option Failure}
    (h : s.attempt ⟨.head id, before, during, after⟩ fault = .ok (told, t)) :
    s.Glimpses id before.now t := by
  unfold attempt at h
  cases hstart : (ObjectRequest.head id).start before s.cache with | mk p c
  rw [hstart] at h
  cases starts_of_eq hstart with
  | unnamed =>
    obtain ⟨-, rfl⟩ := Prod.mk.inj (Except.ok.inj h)
    exact s.glimpses_refl id before.now
  | foundHead =>
    obtain ⟨-, rfl⟩ := Prod.mk.inj (Except.ok.inj h)
    exact s.glimpses_get id before
  | missedHead =>
    have hmemory := snd_attempt_stat s.memory during fault id
    cases hcall : s.memory.attempt during fault (.stat id) with | mk reply memory
    rw [hcall] at hmemory
    obtain rfl : memory = s.memory := hmemory
    simp only [hcall] at h
    obtain ⟨finished, hresume, hlast⟩ := exists_of_bind_eq_ok h
    obtain ⟨-, rfl⟩ := Prod.mk.inj (Except.ok.inj hlast)
    cases resumes_of_eq hresume with
    | statFailed | described => exact s.glimpses_get id before

/-- A request for headers alone is served whatever the clock shows, for it caches nothing. -/
theorem exists_serve_head_eq_ok (s : Session) (id : ObjectId) (before after : Moment)
    (during : Time) : ∃ told t, s.serve ⟨.head id, before, during, after⟩ = .ok (told, t) := by
  unfold serve
  cases hstart : (ObjectRequest.head id).start before s.cache with | mk p c
  cases starts_of_eq hstart with
  | unnamed | foundHead => exact ⟨_, _, rfl⟩
  | missedHead =>
    cases hcall : s.memory.perform during (.stat id) with | mk reply memory
    simp only [hcall]
    cases reply <;> exact ⟨_, _, rfl⟩

/--
**Headers alone describe exactly what a plain read would send.** Take any session that requests lead
to, and ask it for the headers of any object, or for the object by a read that does not accept
compression. Either both fail, and for the same reason, or both are answered: then status, type,
length, time and tag are the same, the length is that of the body which the read brings, and there
is no body and no coding in the answer with headers alone. An object of those that have been asked
for may be asked for at two instants; of any other, which may share a key with one of them, this is
said for one instant. Asking for headers alone leaves the store and the generations as they are,
and of the cache at most takes out the object's own entry, if that is dead.
-/
theorem exists_describes (hkeys : SeparateKeys objects) (hendured : Endured objects s)
    (hplain : info.acceptsGzip = false) (before after before' after' : Moment)
    (during during' : Time) (hinstant : objects id ∨ before.now = before'.now)
    (hclock : after'.now.nanos + s.cache.ttl < Instant.limit) :
    ∃ told t read u, s.serve ⟨.head id, before, during, after⟩ = .ok (told, t) ∧
      s.serve ⟨.get id info, before', during', after'⟩ = .ok (read, u) ∧
      ObjectOutcome.Describes told read ∧ s.Glimpses id before.now t := by
  obtain ⟨policy, hfaithful⟩ := hendured.exists_faithful hkeys
  obtain ⟨told, t, hhead⟩ := s.exists_serve_head_eq_ok id before after during
  obtain ⟨⟨read, u⟩, hget⟩ :=
    exists_attempt_eq_ok (s := s) (v := ⟨.get id info, before', during', after'⟩) none hclock
  rw [attempt_none] at hget
  have hglimpses := glimpses_attempt ((s.attempt_none _).trans hhead)
  refine ⟨told, t, read, u, hhead, hget, ?_, hglimpses⟩
  rcases hinstant with hid | hnow
  · exact hfaithful.describes hkeys hid hplain hhead hget
  · have hstated : ∀ e, s.cache.find? id.cacheKey = some e → e.rawSize.toNat = e.raw.length :=
      fun e hfound => hendured.rawSize_eq hkeys hfound
    exact describes_of_now_eq (hfaithful.sized id) hstated hplain hnow hhead hget

/-- A read of the object in `greeting` when copies of the first instant are dead. -/
def lateGlance : Visit :=
  ⟨.get greetingPlace ⟨false, none, none⟩, .at ⟨7⟩ ⟨0, 0⟩, ⟨0, 0⟩, .at ⟨7⟩ ⟨0, 0⟩⟩

/--
The theorem at work: headers are told from the entry at the first instant, and the object is read
from the store when the entry is dead.
-/
theorem exists_describes_greeting :
    ∃ s told t read u, Endured (· = greetingPlace) s ∧
      s.serve (atOnce (.head greetingPlace)) = .ok (.ok told, t) ∧ told.cache = .hit ∧
      s.serve lateGlance = .ok (.ok read, u) ∧ read.cache = .miss ∧
      told.Describes read ∧ s.Glimpses greetingPlace ⟨0⟩ t := by
  have hanswers : (((fresh 100 5 ⟨100⟩).attemptAll
      [.visit (write greetingPlace "hi") none, .visit (glance greetingPlace) none]).toOption.bind
        fun ran => (ran.2.serve (atOnce (.head greetingPlace))).toOption.bind
        fun told => (ran.2.serve lateGlance).toOption.bind
        fun read => told.1.toOption.bind
        fun r => read.1.toOption.map fun r' => (ran.2.cache.ttl, r.cache, r'.cache)) =
      some (5, .hit, .miss) := by
    decide +kernel
  simp only [Option.bind_eq_some_iff, Option.map_eq_some_iff, toOption_eq_some_iff, Prod.exists,
    Prod.mk.injEq] at hanswers
  obtain ⟨outcomes, s, hrun, _, t, hhead, _, u, hget, told, rfl, read, rfl, httl, hhit, hmiss⟩ :=
    hanswers
  have hkeys : SeparateKeys (· = greetingPlace) := fun a b ha hb _ => ha.trans hb.symm
  have hendured : Endured (· = greetingPlace) s := by
    refine ⟨100, 5, ⟨100⟩, _, outcomes, ?_, hrun⟩
    intro turn hturn
    simp only [List.mem_cons, List.not_mem_nil, or_false] at hturn
    rcases hturn with rfl | rfl <;> exact fun _ => rfl
  have hclock : lateGlance.after.now.nanos + s.cache.ttl < Instant.limit := by
    rw [httl]
    decide
  have hplain : (⟨false, none, none⟩ : RequestInfo).acceptsGzip = false := rfl
  obtain ⟨told', t', read', u', hhead', hget', hdescribes, hglimpses⟩ :=
    exists_describes hkeys hendured hplain (.at ⟨0⟩ ⟨0, 0⟩) (.at ⟨0⟩ ⟨0, 0⟩) lateGlance.before
      lateGlance.after ⟨0, 0⟩ ⟨0, 0⟩ (Or.inl rfl) hclock
  obtain ⟨rfl, rfl⟩ := Prod.mk.inj (Except.ok.inj (hhead.symm.trans hhead'))
  obtain ⟨rfl, rfl⟩ := Prod.mk.inj (Except.ok.inj (hget.symm.trans hget'))
  exact ⟨s, told, t, read, u, hendured, hhead, hhit, hget, hmiss, hdescribes, hglimpses⟩

end Session

end ReadThrough
