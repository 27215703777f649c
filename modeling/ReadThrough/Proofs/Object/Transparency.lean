import ReadThrough.Proofs.Object.Session

/-!
# The cache does not show

Requests that come one after another are answered as they would be without a cache. Only the part
that the cache had in an answer may differ.

A session is `Faithful` as long as every entry would serve for the object that the store holds.
Each request keeps it so and is answered alike (`Faithful.serve`), whatever is evicted or expires;
a run is many requests (`exists_run_eq`).
-/

namespace ReadThrough.Session

open Backend

/-- Entries serve for the objects in the store, and the store knows its objects' sizes. -/
structure Faithful (objects : ObjectId → Prop) (ttl : Nat) (policy : CompressionPolicy)
    (s : Session) : Prop where
  ttl_eq : s.cache.ttl = ttl
  policy_eq : s.cache.policy = policy
  cached : ∀ id e, objects id → s.cache.find? id.cacheKey = some e →
    ∃ object, s.memory.find? id = some object ∧ e.Serves policy object
  sized : ∀ id object, s.memory.find? id = some object →
    object.metadata.size = object.content.length

variable {objects : ObjectId → Prop} {ttl : Nat} {policy : CompressionPolicy} {s : Session}

theorem faithful_fresh (maxSize : UInt64) :
    Faithful objects ttl policy (.fresh maxSize ttl policy) where
  ttl_eq := rfl
  policy_eq := rfl
  cached := fun _ _ _ hfound => nomatch hfound
  sized := fun _ _ hfound => nomatch hfound

theorem Faithful.shrinks (h : s.Faithful objects ttl policy) {c : Cache}
    (hshrinks : s.cache.Shrinks c) : Faithful objects ttl policy ⟨c, s.memory⟩ where
  ttl_eq := hshrinks.ttl.trans h.ttl_eq
  policy_eq := hshrinks.policy.trans h.policy_eq
  cached := fun id e hid hfound => h.cached id e hid (hshrinks.find? hfound)
  sized := h.sized

/-- A key that is deleted makes way for any change of its object. -/
theorem Faithful.delete (h : s.Faithful objects ttl policy) {id : ObjectId} {memory : Memory}
    (hothers : ∀ other, other ≠ id → memory.find? other = s.memory.find? other)
    (hsized : ∀ object, memory.find? id = some object →
      object.metadata.size = object.content.length) :
    Faithful objects ttl policy ⟨(s.cache.delete id.cacheKey).2, memory⟩ where
  ttl_eq := (s.cache.shrinks_delete id.cacheKey).ttl.trans h.ttl_eq
  policy_eq := (s.cache.shrinks_delete id.cacheKey).policy.trans h.policy_eq
  cached := by
    intro other e hother hfound
    -- nothing is cached for the object itself, so what is found is of another
    have hne : other ≠ id := by
      rintro rfl
      rw [Cache.find?_delete_self] at hfound
      cases hfound
    rw [hothers other hne]
    exact h.cached other e hother (Cache.find?_of_find?_delete hfound)
  sized := by
    intro other object hfound
    by_cases hsame : other = id
    · exact hsized object (hsame ▸ hfound)
    · exact h.sized other object ((hothers other hsame).symm.trans hfound)

/-- An entry may be added that serves. -/
theorem Faithful.adds (hkeys : SeparateKeys objects) (h : s.Faithful objects ttl policy)
    {id : ObjectId} (hid : objects id) {e : Entry} {c : Cache} (hadds : s.cache.Adds e c)
    (hkey : e.key = id.cacheKey) {object : StoredObject} (hfound : s.memory.find? id = some object)
    (hserves : e.Serves policy object) : Faithful objects ttl policy ⟨c, s.memory⟩ where
  ttl_eq := hadds.ttl.trans h.ttl_eq
  policy_eq := hadds.policy.trans h.policy_eq
  cached := by
    intro other x hother hx
    by_cases hsame : other = id
    · subst hsame
      obtain rfl : e = x := Option.some.inj (hadds.found.symm.trans (hkey ▸ hx))
      exact ⟨object, hfound, hserves⟩
    · refine h.cached other x hother (hadds.others ?_ hx)
      intro hclash
      exact hsame (hkeys other id hother hid (hclash.trans hkey))
  sized := h.sized

/-- What the store holds may be cached, and the cache may refuse it. -/
theorem Faithful.insert (hkeys : SeparateKeys objects) (h : s.Faithful objects ttl policy)
    {id : ObjectId} (hid : objects id) {m : Moment} {object : StoredObject}
    (hobject : s.memory.find? id = some object) {expected : Option UInt64}
    {inserted : Cache.Insertion}
    (hinsert : s.cache.insert m id.cacheKey object.content object.metadata expected =
      .ok inserted) : Faithful objects ttl policy ⟨inserted.cache, s.memory⟩ := by
  rcases Cache.insert_cases hinsert with rfl | ⟨hsize, -, expires, -, rfl⟩
  · exact h
  · have hserves := Cache.serves_entryOf hsize id.cacheKey object.metadata expires
    rw [h.policy_eq] at hserves
    exact h.adds hkeys hid (Cache.adds_accept s.cache m _) rfl hobject hserves

/-! ## One request -/

/--
What came of a request: it was served, the session stays faithful, and outcome and store are as
given, but for the part that the cache had.
-/
def Alike (objects : ObjectId → Prop) (ttl : Nat) (policy : CompressionPolicy)
    (served : Except Halt (ObjectOutcome × Session)) (answer : ObjectOutcome × Memory) : Prop :=
  ∃ outcome s', served = .ok (outcome, s') ∧ s'.Faithful objects ttl policy ∧
    ObjectOutcome.unmarked outcome = ObjectOutcome.unmarked answer.1 ∧ s'.memory = answer.2

theorem unmarked_ok {r r' : ObjectResponse} (h : r.unmarked = r'.unmarked) :
    ObjectOutcome.unmarked (.ok r) = ObjectOutcome.unmarked (.ok r') :=
  congrArg Except.ok h

theorem alike_done {v : Visit} {c : Cache} {outcome answer : ObjectOutcome}
    (hstart : v.request.start v.before s.cache = (.done outcome, c))
    (hdirect : v.request.direct policy v.during s.memory = (answer, s.memory))
    (hfaithful : Faithful objects ttl policy ⟨c, s.memory⟩)
    (hanswer : ObjectOutcome.unmarked outcome = ObjectOutcome.unmarked answer) :
    Alike objects ttl policy (s.serve v) (v.request.direct policy v.during s.memory) := by
  refine ⟨outcome, ⟨c, s.memory⟩, ?_, hfaithful, ?_, ?_⟩
  · unfold serve
    rw [hstart]
  · rw [hdirect, hanswer]
  · rw [hdirect]

theorem alike_waiting {v : Visit} {c : Cache} {a : Awaiting} {finished : Finished}
    {reply : a.call.Outcome} {memory : Memory}
    (hstart : v.request.start v.before s.cache = (.waiting a, c))
    (hcall : s.memory.perform v.during a.call = (reply, memory))
    (hresume : a.resume reply v.after c = .ok finished)
    (hdirect : v.request.direct policy v.during s.memory = (finished.outcome, memory))
    (hfaithful : Faithful objects ttl policy ⟨finished.cache, memory⟩) :
    Alike objects ttl policy (s.serve v) (v.request.direct policy v.during s.memory) := by
  refine ⟨finished.outcome, ⟨finished.cache, memory⟩, ?_, hfaithful, ?_, ?_⟩
  · unfold serve
    rw [hstart]
    simp only [hcall, hresume]
    rfl
  · rw [hdirect]
  · rw [hdirect]

/-- A request without a name is answered at once. -/
theorem start_of_unnamed {r : ObjectRequest} (hunnamed : ObjectRequest.named r.id = false)
    (m : Moment) (c : Cache) : r.start m c = (.done (.error .emptyName), c) := by
  unfold ObjectRequest.start
  rw [hunnamed]
  rfl

theorem Faithful.alike_unnamed (h : s.Faithful objects ttl policy) {v : Visit}
    (hunnamed : ObjectRequest.named v.request.id = false) :
    Alike objects ttl policy (s.serve v) (v.request.direct policy v.during s.memory) := by
  have hstart := start_of_unnamed hunnamed v.before s.cache
  have hdirect : v.request.direct policy v.during s.memory = (.error .emptyName, s.memory) := by
    unfold ObjectRequest.direct
    rw [hunnamed]
    rfl
  exact alike_done hstart hdirect h rfl

/-- A look-up leaves a faithful session, and what it finds serves. -/
theorem Faithful.exists_get_eq (h : s.Faithful objects ttl policy) {id : ObjectId}
    (hid : objects id) (m : Moment) :
    ∃ found c, s.cache.get m id.cacheKey = (found, c) ∧
      Faithful objects ttl policy ⟨c, s.memory⟩ ∧
      ∀ e, found = some e → ∃ object, s.memory.find? id = some object ∧ e.Serves policy object := by
  refine ⟨_, _, rfl, h.shrinks (s.cache.shrinks_get m id.cacheKey), fun e hfound => ?_⟩
  exact h.cached id e hid (Cache.find?_of_get hfound).1

theorem Faithful.alike_get (hkeys : SeparateKeys objects) (h : s.Faithful objects ttl policy)
    {id : ObjectId} (hid : objects id) (hnamed : ObjectRequest.named id = true) {info : RequestInfo}
    {before after : Moment} {during : Time} {served : ObjectOutcome × Session}
    (hserve : s.serve ⟨.get id info, before, during, after⟩ = .ok served) :
    Alike objects ttl policy (s.serve ⟨.get id info, before, during, after⟩)
      ((ObjectRequest.get id info).direct policy during s.memory) := by
  obtain ⟨found, c, hget, hleft, hserving⟩ := h.exists_get_eq hid before
  cases found with
  | some e =>
    obtain ⟨object, hobject, hserves⟩ := hserving e rfl
    have hstart : (ObjectRequest.get id info).start before s.cache =
        (.done (.ok (ObjectRequest.answerFromEntry e info.acceptsGzip)), c) := by
      simp [ObjectRequest.start, ObjectRequest.id, hnamed, hget]
    have hdirect : (ObjectRequest.get id info).direct policy during s.memory =
        (.ok (Awaiting.answerFromFetch policy object.content object.metadata info.acceptsGzip),
          s.memory) := by
      simp [ObjectRequest.direct, ObjectRequest.id, hnamed, Memory.perform, hobject]
    exact alike_done hstart hdirect hleft
      (unmarked_ok (unmarked_answerFromEntry hserves info.acceptsGzip))
  | none =>
    have hstart : (ObjectRequest.get id info).start before s.cache =
        (.waiting (.get id (c.generation id.cacheKey) info.acceptsGzip), c) := by
      simp [ObjectRequest.start, ObjectRequest.id, hnamed, hget]
    cases hobject : s.memory.find? id with
    | none =>
      have hcall : s.memory.perform during (.fetch id) = (.error (.notFound id), s.memory) := by
        simp [Memory.perform, hobject]
      refine alike_waiting hstart hcall rfl ?_ hleft
      simp [ObjectRequest.direct, ObjectRequest.id, hnamed, Memory.perform, hobject]
    | some object =>
      have hcall : s.memory.perform during (.fetch id) =
          (.ok (object.content, object.metadata), s.memory) := by
        simp [Memory.perform, hobject]
      have hdirect : (ObjectRequest.get id info).direct policy during s.memory =
          (.ok (Awaiting.answerFromFetch policy object.content object.metadata info.acceptsGzip),
            s.memory) := by
        simp [ObjectRequest.direct, ObjectRequest.id, hnamed, Memory.perform, hobject]
      -- the request has been served, so the clock could show the end of the lifetime
      have hinserts : ∃ inserted, c.insert after id.cacheKey object.content object.metadata
          (some (c.generation id.cacheKey)) = .ok inserted := by
        simp only [Session.serve, hstart, hcall, Awaiting.resume, bind_assoc] at hserve
        obtain ⟨inserted, hinsert, -⟩ := exists_of_bind_eq_ok hserve
        exact ⟨inserted, hinsert⟩
      obtain ⟨inserted, hinsert⟩ := hinserts
      have hfaithful := hleft.insert hkeys hid hobject hinsert
      have hresume : (Awaiting.get id (c.generation id.cacheKey) info.acceptsGzip).resume
          (.ok (object.content, object.metadata)) after c =
          .ok ⟨.ok (Awaiting.answerFromFetch policy object.content object.metadata
            info.acceptsGzip), inserted.evicted, inserted.cache⟩ := by
        rw [Awaiting.resume, hinsert, hleft.policy_eq]
        rfl
      exact alike_waiting hstart hcall hresume hdirect hfaithful

theorem Faithful.alike_put (h : s.Faithful objects ttl policy) {id : ObjectId}
    (hnamed : ObjectRequest.named id = true) (info : RequestInfo) (body : Bytes)
    (before after : Moment) (during : Time) :
    Alike objects ttl policy (s.serve ⟨.put id info body, before, during, after⟩)
      ((ObjectRequest.put id info body).direct policy during s.memory) := by
  cases hcontent : ObjectRequest.contentOf info body with
  | error fault =>
    have hstart : (ObjectRequest.put id info body).start before s.cache =
        (.done (.error (.undecodableBody fault)), (s.cache.delete id.cacheKey).2) := by
      simp [ObjectRequest.start, ObjectRequest.id, hnamed, hcontent]
    have hdirect : (ObjectRequest.put id info body).direct policy during s.memory =
        (.error (.undecodableBody fault), s.memory) := by
      simp [ObjectRequest.direct, ObjectRequest.id, hnamed, hcontent]
    exact alike_done hstart hdirect (h.delete (fun _ _ => rfl) (h.sized id)) rfl
  | ok content =>
    have hstart : (ObjectRequest.put id info body).start before s.cache =
        (.waiting (.put id content (info.contentType.getD defaultContentType)),
          (s.cache.delete id.cacheKey).2) := by
      simp [ObjectRequest.start, ObjectRequest.id, hnamed, hcontent]
    refine alike_waiting hstart rfl rfl ?_ ?_
    · simp [ObjectRequest.direct, ObjectRequest.id, hnamed, hcontent, Memory.perform]
    · -- the key is deleted before the call and after it
      have hdeleted : Faithful objects ttl policy ⟨(s.cache.delete id.cacheKey).2, s.memory⟩ :=
        h.delete (fun _ _ => rfl) (h.sized id)
      refine hdeleted.delete ?_ ?_
      · intro other hne
        exact Memory.find?_place_of_ne _ _ hne
      · intro object hobject
        rw [Memory.find?_place_self] at hobject
        obtain rfl := Option.some.inj hobject
        rfl

theorem Faithful.alike_delete (h : s.Faithful objects ttl policy) {id : ObjectId}
    (hnamed : ObjectRequest.named id = true) (before after : Moment) (during : Time) :
    Alike objects ttl policy (s.serve ⟨.delete id, before, during, after⟩)
      ((ObjectRequest.delete id).direct policy during s.memory) := by
  have hstart : (ObjectRequest.delete id).start before s.cache =
      (.waiting (.delete id), (s.cache.delete id.cacheKey).2) := by
    simp [ObjectRequest.start, ObjectRequest.id, hnamed]
  have hdeleted : Faithful objects ttl policy ⟨(s.cache.delete id.cacheKey).2, s.memory⟩ :=
    h.delete (fun _ _ => rfl) (h.sized id)
  cases hobject : s.memory.find? id with
  | none =>
    have hcall : s.memory.perform during (.remove id) = (.error (.notFound id), s.memory) := by
      simp [Memory.perform, hobject]
    refine alike_waiting hstart hcall rfl ?_ (hdeleted.delete (fun _ _ => rfl) (h.sized id))
    simp [ObjectRequest.direct, ObjectRequest.id, hnamed, Memory.perform, hobject,
      Failure.isNotFound]
  | some object =>
    have hcall : s.memory.perform during (.remove id) = (.ok (), s.memory.erase id) := by
      simp [Memory.perform, hobject]
    refine alike_waiting hstart hcall rfl ?_ ?_
    · simp [ObjectRequest.direct, ObjectRequest.id, hnamed, Memory.perform, hobject]
    · refine hdeleted.delete ?_ ?_
      · intro other hne
        exact Memory.find?_erase_of_ne _ hne
      · intro object hobject
        rw [Memory.find?_erase_self] at hobject
        cases hobject

theorem Faithful.alike_head (h : s.Faithful objects ttl policy) {id : ObjectId} (hid : objects id)
    (hnamed : ObjectRequest.named id = true) (before after : Moment) (during : Time) :
    Alike objects ttl policy (s.serve ⟨.head id, before, during, after⟩)
      ((ObjectRequest.head id).direct policy during s.memory) := by
  obtain ⟨found, c, hget, hleft, hserving⟩ := h.exists_get_eq hid before
  cases found with
  | some e =>
    obtain ⟨object, hobject, hserves⟩ := hserving e rfl
    have hstart : (ObjectRequest.head id).start before s.cache =
        (.done (.ok ((ObjectResponse.ofEntry e [] false).headersOnly e.rawSize.toNat)), c) := by
      simp [ObjectRequest.start, ObjectRequest.id, hnamed, hget]
    have hdirect : (ObjectRequest.head id).direct policy during s.memory =
        (.ok ((ObjectResponse.ofMetadata object.metadata [] false).headersOnly
          object.metadata.size), s.memory) := by
      simp [ObjectRequest.direct, ObjectRequest.id, hnamed, Memory.perform, hobject]
    exact alike_done hstart hdirect hleft
      (unmarked_ok (unmarked_headersOnly hserves (h.sized id object hobject)))
  | none =>
    have hstart : (ObjectRequest.head id).start before s.cache = (.waiting (.head id), c) := by
      simp [ObjectRequest.start, ObjectRequest.id, hnamed, hget]
    cases hobject : s.memory.find? id with
    | none =>
      have hcall : s.memory.perform during (.stat id) = (.error (.notFound id), s.memory) := by
        simp [Memory.perform, hobject]
      refine alike_waiting hstart hcall rfl ?_ hleft
      simp [ObjectRequest.direct, ObjectRequest.id, hnamed, Memory.perform, hobject]
    | some object =>
      have hcall : s.memory.perform during (.stat id) = (.ok object.metadata, s.memory) := by
        simp [Memory.perform, hobject]
      refine alike_waiting hstart hcall rfl ?_ hleft
      simp [ObjectRequest.direct, ObjectRequest.id, hnamed, Memory.perform, hobject]

/-- A request that is served is answered alike. One without a name may be for any object. -/
theorem Faithful.alike (hkeys : SeparateKeys objects) (h : s.Faithful objects ttl policy)
    {v : Visit} (hid : ObjectRequest.named v.request.id = true → objects v.request.id)
    {served : ObjectOutcome × Session} (hserve : s.serve v = .ok served) :
    Alike objects ttl policy (s.serve v) (v.request.direct policy v.during s.memory) := by
  cases hnamed : ObjectRequest.named v.request.id with
  | false => exact h.alike_unnamed hnamed
  | true =>
    have hobject := hid hnamed
    obtain ⟨r, before, during, after⟩ := v
    cases r with
    | get id info => exact h.alike_get hkeys hobject hnamed hserve
    | put id info body => exact h.alike_put hnamed info body before after during
    | delete id => exact h.alike_delete hnamed before after during
    | head id => exact h.alike_head hobject hnamed before after during

/-- A request that goes on gets an answer if the clock can show the end of a lifetime. -/
theorem exists_resume_eq_ok {a : Awaiting} (reply : a.call.Outcome) {m : Moment} {c : Cache}
    (hclock : m.now.nanos + c.ttl < Instant.limit) :
    ∃ finished, a.resume reply m c = .ok finished := by
  cases a with
  | get id generation acceptsGzip =>
    cases reply with
    | error failure => exact ⟨_, rfl⟩
    | ok reply =>
      obtain ⟨content, metadata⟩ := reply
      obtain ⟨inserted, hinsert⟩ :=
        Cache.exists_insert_eq_ok hclock id.cacheKey content metadata (some generation)
      refine ⟨⟨.ok (Awaiting.answerFromFetch c.policy content metadata acceptsGzip),
        inserted.evicted, inserted.cache⟩, ?_⟩
      rw [Awaiting.resume, hinsert]
      rfl
  | put id content contentType => cases reply <;> exact ⟨_, rfl⟩
  | delete id =>
    cases reply with
    | error failure =>
      rw [Awaiting.resume]
      split <;> exact ⟨_, rfl⟩
    | ok reply => exact ⟨_, rfl⟩
  | head id => cases reply <;> exact ⟨_, rfl⟩

/-- A request keeps the lifetime of new entries. -/
theorem ttl_start (r : ObjectRequest) (m : Moment) (c : Cache) : (r.start m c).2.ttl = c.ttl := by
  cases hstart : r.start m c with | mk p c'
  cases starts_of_eq hstart with
  | unnamed => rfl
  | found | missed | foundHead | missedHead => exact (c.shrinks_get m _).ttl
  | undecodable | put | delete => exact (c.sameSettings_delete _).ttl

/-- A request is served if the clock can show the end of a lifetime. -/
theorem exists_attempt_eq_ok {v : Visit} (fault : Option Failure)
    (hclock : v.after.now.nanos + s.cache.ttl < Instant.limit) :
    ∃ served, s.attempt v fault = .ok served := by
  have httl := ttl_start v.request v.before s.cache
  unfold Session.attempt
  cases hstart : v.request.start v.before s.cache with
  | mk p c =>
    rw [hstart] at httl
    cases p with
    | done outcome => exact ⟨_, rfl⟩
    | waiting a =>
      have hlate : v.after.now.nanos + c.ttl < Instant.limit := by rwa [httl]
      obtain ⟨finished, hresume⟩ :=
        exists_resume_eq_ok (s.memory.attempt v.during fault a.call).1 hlate
      dsimp only
      rw [hresume]
      exact ⟨_, rfl⟩

/-- A request is answered alike. -/
theorem Faithful.serve (hkeys : SeparateKeys objects) (h : s.Faithful objects ttl policy)
    {v : Visit} (hid : objects v.request.id) (hclock : v.after.now.nanos + ttl < Instant.limit) :
    Alike objects ttl policy (s.serve v) (v.request.direct policy v.during s.memory) := by
  rw [← h.ttl_eq] at hclock
  obtain ⟨served, hserve⟩ := exists_attempt_eq_ok none hclock
  exact h.alike hkeys (fun _ => hid) hserve

/-! ## Many requests -/

/-- What a run asks of one event. -/
def Event.Admissible (objects : ObjectId → Prop) (ttl : Nat) : Event → Prop
  | .visit v => objects v.request.id ∧ v.after.now.nanos + ttl < Instant.limit
  | .sweep _ => True

theorem Faithful.run_faithful (hkeys : SeparateKeys objects) (h : s.Faithful objects ttl policy)
    {events : List Event} (hevents : ∀ event ∈ events, event.Admissible objects ttl) :
    ∃ outcomes s', s.run events = .ok (outcomes, s') ∧ s'.Faithful objects ttl policy ∧
      outcomes.map ObjectOutcome.unmarked =
        (ObjectRequest.directAll policy s.memory events).1.map ObjectOutcome.unmarked ∧
      s'.memory = (ObjectRequest.directAll policy s.memory events).2 := by
  induction events generalizing s with
  | nil => exact ⟨[], s, rfl, h, rfl, rfl⟩
  | cons event events ih =>
    obtain ⟨hevent, hrest⟩ := List.forall_mem_cons.1 hevents
    cases event with
    | sweep m => exact ih (h.shrinks (s.cache.shrinks_sweep m)) hrest
    | visit v =>
      obtain ⟨outcome, s', hserve, hfaithful, houtcome, hmemory⟩ := h.serve hkeys hevent.1 hevent.2
      obtain ⟨outcomes, s'', hrun, hend, houtcomes, hlast⟩ := ih hfaithful hrest
      refine ⟨outcome :: outcomes, s'', ?_, hend, ?_, ?_⟩
      · simp only [Session.run, hserve, hrun, bind, Except.bind]
        rfl
      · rw [List.map_cons, houtcome, houtcomes, hmemory]
        rfl
      · rw [hlast, hmemory]
        rfl

theorem Faithful.run (hkeys : SeparateKeys objects) (h : s.Faithful objects ttl policy)
    {events : List Event} (hevents : ∀ event ∈ events, event.Admissible objects ttl) :
    ∃ outcomes s', s.run events = .ok (outcomes, s') ∧
      outcomes.map ObjectOutcome.unmarked =
        (ObjectRequest.directAll policy s.memory events).1.map ObjectOutcome.unmarked ∧
      s'.memory = (ObjectRequest.directAll policy s.memory events).2 := by
  obtain ⟨outcomes, s', hrun, -, houtcomes, hmemory⟩ := h.run_faithful hkeys hevents
  exact ⟨outcomes, s', hrun, houtcomes, hmemory⟩

/--
**The cache does not show.** Requests that come one after another to a fresh session, with sweeps
between them, are all answered. Their outcomes are those that the store alone would give, but for
the part that the cache had, and the store is left as it would be left then. This holds for every
bound on sizes, every lifetime and rule of compression, every clock and every order of eviction.
-/
theorem exists_run_eq (maxSize : UInt64) (ttl : Nat) (policy : CompressionPolicy)
    {events : List Event} (hkeys : SeparateKeys (Requested events))
    (hclock : ∀ v, .visit v ∈ events → v.after.now.nanos + ttl < Instant.limit) :
    ∃ outcomes s', (fresh maxSize ttl policy).run events = .ok (outcomes, s') ∧
      outcomes.map ObjectOutcome.unmarked =
        (ObjectRequest.directAll policy .empty events).1.map ObjectOutcome.unmarked ∧
      s'.memory = (ObjectRequest.directAll policy .empty events).2 := by
  refine (faithful_fresh maxSize).run hkeys fun event hevent => ?_
  cases event with
  | visit v => exact ⟨⟨v, hevent, rfl⟩, hclock v hevent⟩
  | sweep m => exact trivial

/-- The theorem at work: nobody notices that the second reading of `greeting` is a hit. -/
theorem exists_run_eq_greeting :
    ∃ outcomes s', (fresh 100 5 ⟨0⟩).run greeting = .ok (outcomes, s') ∧
      outcomes.map ObjectOutcome.unmarked =
        (ObjectRequest.directAll ⟨0⟩ .empty greeting).1.map ObjectOutcome.unmarked ∧
      s'.memory = (ObjectRequest.directAll ⟨0⟩ .empty greeting).2 := by
  refine exists_run_eq 100 5 ⟨0⟩ separateKeys_greeting fun v hv => ?_
  obtain ⟨r, -, rfl⟩ := exists_atOnce_of_visit_mem hv
  show 0 + 5 < Instant.limit
  decide

end ReadThrough.Session
