import ReadThrough.Proofs.Http.Reachable
import ReadThrough.Proofs.Object.Delivery

/-!
# Reads and the end of the clock

What a read has brought back from the store is handed to the cache before it is answered. Whatever
the cache makes of it, the answer carries the object, with one exception: the lifetime of the entry
would end past the last instant that the clock can show.

* `Cache.exists_insert_eq_ok_iff` — the one case in which an insertion fails
* `resume_get_iff` — the one case in which a read fails whose object has come back
* `exists_serve_eq_error` — a lifetime that an environment may ask for, and that is such a case
-/

namespace ReadThrough

open Backend

/-! ## Insertions -/

namespace Cache

variable {c : Cache} {m : Moment} {content : Bytes}

theorem insert_eq_error (hsize : content.length ≤ c.maxSize.toNat)
    (hclock : Instant.limit ≤ m.now.nanos + c.ttl) (key : String) (metadata : Metadata)
    (expected : Option UInt64) :
    c.insert m key content metadata expected = .error .pastLastInstant := by
  have hexpires : m.now.after c.ttl = .error .pastLastInstant := by
    unfold Instant.after
    rw [if_neg (Nat.not_lt.2 hclock)]
  unfold insert
  rw [if_neg (Nat.not_lt.2 hsize), hexpires]
  rfl

/-- An insertion fails only where the content is not too large and its lifetime has no end. -/
theorem exists_insert_eq_ok_iff (key : String) (metadata : Metadata) (expected : Option UInt64) :
    (∃ done, c.insert m key content metadata expected = .ok done) ↔
      c.maxSize.toNat < content.length ∨ m.now.nanos + c.ttl < Instant.limit := by
  constructor
  · rintro ⟨done, hdone⟩
    by_contra hnot
    obtain ⟨hsize, hclock⟩ := not_or.1 hnot
    rw [insert_eq_error (Nat.not_lt.1 hsize) (Nat.not_lt.1 hclock)] at hdone
    cases hdone
  · rintro (hsize | hclock)
    · unfold insert
      rw [if_pos hsize]
      exact ⟨_, rfl⟩
    · exact exists_insert_eq_ok hclock key content metadata expected

end Cache

/-! ## Reads -/

/-- The content is too large for the cache, or its lifetime ends at an instant of the clock. -/
def Settings.Lasts (settings : Settings) (content : Bytes) (now : Instant) : Prop :=
  settings.maxCacheSize.toNat < content.length ∨
    now.nanos + settings.ttl.toNat * Time.second < Instant.limit

namespace Http

variable {env : Environment} {svc : Service}

/-- What the end of a read comes to is what its insertion comes to. -/
theorem resume_get (svc : Service) (req : Request) (id : ObjectId) (generation : UInt64)
    (acceptsGzip : Bool) (content : Bytes) (metadata : Metadata) (m : Moment) :
    (∃ inserted svc', svc.cache.insert m id.cacheKey content metadata (some generation) =
        .ok inserted ∧
      resume svc req (.get id generation acceptsGzip) (.ok (content, metadata)) m =
        .ok (dress req (.ofObject
          (Awaiting.answerFromFetch svc.cache.policy content metadata acceptsGzip)), svc')) ∨
      ∃ stop, svc.cache.insert m id.cacheKey content metadata (some generation) = .error stop ∧
        resume svc req (.get id generation acceptsGzip) (.ok (content, metadata)) m =
          .error stop := by
  cases hinsert : svc.cache.insert m id.cacheKey content metadata (some generation) with
  | error stop =>
    refine Or.inr ⟨stop, rfl, ?_⟩
    unfold resume
    rw [Awaiting.resume, hinsert]
    rfl
  | ok inserted =>
    have hresume : (Awaiting.get id generation acceptsGzip).resume (.ok (content, metadata)) m
        svc.cache = .ok ⟨.ok (Awaiting.answerFromFetch svc.cache.policy content metadata
          acceptsGzip), inserted.evicted, inserted.cache⟩ := by
      rw [Awaiting.resume, hinsert]
      rfl
    obtain ⟨metrics, log, hserved⟩ := exists_resume_eq hresume req
    exact Or.inl ⟨inserted, _, rfl, hserved⟩

/--
**The cache fails a read in one case only.** Take any environment and the server that it asks for,
after whatever it has done, and a read of an object that has come back from the store. The answer
carries the object, whatever the cache decides about it, if and only if the content is too large to
be cached or its lifetime ends at an instant of the clock. In any other case the server stops. Where
the bound of the cache is below 2⁶³, the decision is made with the true sums of sizes.
-/
theorem resume_get_iff (hreachable : Service.Reachable env svc) (req : Request) (id : ObjectId)
    (generation : UInt64) (acceptsGzip : Bool) (content : Bytes) (metadata : Metadata)
    (m : Moment) :
    ((∃ r svc', resume svc req (.get id generation acceptsGzip) (.ok (content, metadata)) m =
          .ok (dress req (.ofObject r), svc') ∧
        r.Carries ⟨(Settings.ofEnvironment env).minCompressSize⟩ ⟨content, metadata⟩ acceptsGzip) ↔
      (Settings.ofEnvironment env).Lasts content m.now) ∧
    (¬ (Settings.ofEnvironment env).Lasts content m.now →
      resume svc req (.get id generation acceptsGzip) (.ok (content, metadata)) m =
        .error .pastLastInstant) ∧
    ((Settings.ofEnvironment env).maxCacheSize.toNat < 2 ^ 63 → ∀ inserted,
      svc.cache.insert m id.cacheKey content metadata (some generation) = .ok inserted →
      svc.cache.insertChecked m id.cacheKey content metadata (some generation) = .ok inserted) := by
  have hbears := hreachable.bears
  -- a read that has its object fails only by its insertion
  have hlasts : (∃ inserted, svc.cache.insert m id.cacheKey content metadata (some generation) =
      .ok inserted) ↔ (Settings.ofEnvironment env).Lasts content m.now := by
    rw [Cache.exists_insert_eq_ok_iff, hbears.maxSize, hbears.ttl]
    exact Iff.rfl
  refine ⟨?_, ?_, ?_⟩
  · rw [← hlasts]
    rcases resume_get svc req id generation acceptsGzip content metadata m with
      ⟨inserted, svc', hinsert, hresume⟩ | ⟨stop, hinsert, hresume⟩
    · have hcarries := carries_answerFromFetch svc.cache.policy ⟨content, metadata⟩ acceptsGzip
      rw [hbears.policy] at hcarries hresume
      exact ⟨fun _ => ⟨inserted, hinsert⟩, fun _ => ⟨_, svc', hresume, hcarries⟩⟩
    · rw [hinsert, hresume]
      constructor
      · rintro ⟨r, svc', hserved, -⟩
        cases hserved
      · rintro ⟨inserted, hdone⟩
        cases hdone
  · intro hnot
    rcases resume_get svc req id generation acceptsGzip content metadata m with
      ⟨inserted, svc', hinsert, -⟩ | ⟨stop, -, hresume⟩
    · exact absurd (hlasts.1 ⟨inserted, hinsert⟩) hnot
    · cases stop
      exact hresume
  · intro hmax inserted hinsert
    have hbound : svc.cache.maxSize.toNat < 2 ^ 63 := by
      rw [hbears.maxSize]
      exact hmax
    exact Cache.insertChecked_eq (hreachable.sound hmax) hbound hinsert

/-- A request for an object of the bucket `b` at the first instant. -/
def visit (method : String) (body : Bytes) : Exchange :=
  ⟨⟨method, "/objects/b/k", [], body⟩, .at ⟨0⟩ ⟨0, 0⟩, ⟨0, 0⟩, .at ⟨0⟩ ⟨0, 0⟩⟩

/-- An environment without policies, and with nothing else said. -/
def unrestricted : Environment := fun name =>
  if name = "BUCKET_POLICIES_ENABLED" then some (Bytes.ofText "false") else none

/-- The theorem at work: without policies a read waits for its call, and then ends well. -/
theorem resume_get_iff_visit :
    ∃ svc r svc', start (.ofSettings (.ofEnvironment unrestricted)) (visit "GET" []).request
        (visit "GET" []).before = (.waiting (.get ⟨"b", "k"⟩ 0 false), svc) ∧
      resume svc (visit "GET" []).request (.get ⟨"b", "k"⟩ 0 false)
          (.ok (Bytes.ofText "hi", ⟨"text/plain", 2, ⟨0, 0⟩, "tag"⟩)) (visit "GET" []).after =
        .ok (dress (visit "GET" []).request (.ofObject r), svc') ∧
      r.Carries ⟨(Settings.ofEnvironment unrestricted).minCompressSize⟩
        ⟨Bytes.ofText "hi", ⟨"text/plain", 2, ⟨0, 0⟩, "tag"⟩⟩ false := by
  have hwaits : (match (start (.ofSettings (.ofEnvironment unrestricted)) (visit "GET" []).request
      (visit "GET" []).before).1 with
      | .waiting a => some a
      | .done _ => none) = some (.get ⟨"b", "k"⟩ 0 false) := by
    decide +kernel
  have hreachable := Service.Reachable.start (.fresh : Service.Reachable unrestricted _)
    (visit "GET" []).request (visit "GET" []).before
  cases hstart : start (.ofSettings (.ofEnvironment unrestricted)) (visit "GET" []).request
    (visit "GET" []).before with | mk stage svc
  rw [hstart] at hwaits hreachable
  cases stage with
  | done answer => cases hwaits
  | waiting a =>
    obtain rfl := Option.some.inj hwaits
    have hlasts : (Settings.ofEnvironment unrestricted).Lasts (Bytes.ofText "hi")
        (visit "GET" []).after.now := by
      refine Or.inr ?_
      decide +kernel
    obtain ⟨r, svc', hresume, hcarries⟩ :=
      (resume_get_iff hreachable _ _ 0 false _ _ _).1.2 hlasts
    exact ⟨svc, r, svc', rfl, hresume, hcarries⟩

/-- Lifetimes of 2⁶⁴ − 1 seconds, and a bucket that is open. -/
def endless : Environment := fun name =>
  if name = "DEFAULT_TTL" then some (Bytes.ofText "18446744073709551615")
  else if name = "BUCKET_POLICIES" then some (Bytes.ofText "b:all")
  else none

/--
**A lifetime without end stops the server.** An environment asks for the longest lifetime that can
be written. An object is written with success, and is in the store. At the first request for it the
server stops.
-/
theorem exists_serve_eq_error :
    ∃ answer s object, Site.serve ⟨.ofSettings (.ofEnvironment endless), .empty⟩
        (visit "PUT" (Bytes.ofText "x")) = .ok (answer, s) ∧ answer.status = 200 ∧
      Service.Reachable endless s.service ∧ s.memory.find? ⟨"b", "k"⟩ = some object ∧
      object.content = Bytes.ofText "x" ∧
      s.serve (visit "GET" []) = .error .pastLastInstant := by
  have hrun : ((Site.serve ⟨.ofSettings (.ofEnvironment endless), .empty⟩
      (visit "PUT" (Bytes.ofText "x"))).toOption.bind fun served =>
        (served.2.memory.find? ⟨"b", "k"⟩).map fun object =>
          (served.1.status, object.content, (served.2.serve (visit "GET" [])).toOption.isSome)) =
      some (200, Bytes.ofText "x", false) := by
    decide +kernel
  simp only [Option.bind_eq_some_iff, Option.map_eq_some_iff, Session.toOption_eq_some_iff,
    Prod.exists, Prod.mk.injEq] at hrun
  obtain ⟨answer, s, hwritten, object, hobject, hstatus, hcontent, hread⟩ := hrun
  refine ⟨answer, s, object, hwritten, hstatus, Service.Reachable.serve .fresh hwritten, hobject,
    hcontent, ?_⟩
  cases hserve : s.serve (visit "GET" []) with
  | ok served => simp [hserve, Except.toOption] at hread
  | error stop =>
    cases stop
    rfl

end Http

end ReadThrough
