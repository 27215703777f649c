import ReadThrough.Proofs.Cache.Conservation
import ReadThrough.Proofs.Http.Fields
import ReadThrough.Proofs.Http.Site

/-!
# Metrics agree with the cache and with each other

What a server does is counted in four places: around the objects, where the policy refuses, in the
cache, and in the part of the cache that an answer tells. Requests are answered one after another,
by any store (`Service.handleAll`), and after each of them the numbers fit together (`Books`).

* `counted_done`, `counted_waiting` — the cache counts what the answer of an object request tells
* `exists_of_handle` — every object request is counted once, when it comes in and when it leaves
* `Books.handle` — one request keeps the books
* `books_handleAll` — the main theorem: any number of requests do

A read that comes to nothing is a miss for the cache, and its answer does not say so. A path with
nothing in the bucket's place leads to the objects all the same, and is no operation on a bucket.
-/

namespace ReadThrough

open Backend

/-! ## Tallies -/

namespace Tally

variable {α : Type}

/-- The sum of the counts over all labels. -/
def total (t : Tally α) : UInt64 :=
  t.foldr (fun row sum => row.2 + sum) 0

/-- The count under a label; zero if there is none. -/
def count [BEq α] (label : α) (t : Tally α) : UInt64 :=
  (t.lookup label).getD 0

theorem total_cons (row : α × UInt64) (t : Tally α) : total (row :: t) = row.2 + total t := rfl

theorem total_add [BEq α] (label : α) (t : Tally α) : (t.add label).total = t.total + 1 := by
  induction t with
  | nil => rfl
  | cons row rest ih =>
    obtain ⟨other, number⟩ := row
    rw [add]
    by_cases hsame : (other == label) = true
    · rw [if_pos hsame, total_cons, total_cons, UInt64.add_assoc, UInt64.add_comm 1,
        ← UInt64.add_assoc]
    · rw [if_neg hsame, total_cons, total_cons, ih, UInt64.add_assoc]

theorem count_add [BEq α] [LawfulBEq α] (label other : α) (t : Tally α) :
    count other (t.add label) = count other t + (label == other).toUInt64 := by
  induction t with
  | nil =>
    by_cases hsame : label = other
    · subst hsame
      simp [count, add, Bool.toUInt64]
    · have hne : (other == label) = false := by simpa using fun h : other = label => hsame h.symm
      simp [count, add, List.lookup_cons, hne, hsame, Bool.toUInt64]
  | cons row rest ih =>
    obtain ⟨present, number⟩ := row
    rw [add]
    unfold count at ih ⊢
    by_cases hsame : (present == label) = true
    · obtain rfl := beq_iff_eq.mp hsame
      rw [if_pos hsame, List.lookup_cons, List.lookup_cons]
      by_cases hother : other = present
      · subst hother
        simp [Bool.toUInt64]
      · have hne : (other == present) = false := by simpa using hother
        have hne' : (present == other) = false := by simpa using fun h => hother (Eq.symm h)
        simp [hne, hne', Bool.toUInt64]
    · rw [if_neg hsame, List.lookup_cons, List.lookup_cons]
      by_cases hother : other = present
      · subst hother
        have hne : (label == other) = false := by
          simpa using fun h : label = other => hsame (by simp [h])
        simp [hne, Bool.toUInt64]
      · have hne : (other == present) = false := by simpa using hother
        simp only [hne]
        exact ih

end Tally

/-- One more counts if it is one of those. -/
theorem ofNat_countP_concat {α : Type} (p : α → Bool) (xs : List α) (x : α) :
    UInt64.ofNat ((xs ++ [x]).countP p) = UInt64.ofNat (xs.countP p) + (p x).toUInt64 := by
  rw [List.countP_append, List.countP_singleton, UInt64.ofNat_add]
  cases p x <;> rfl

namespace Http

/-! ## What the cache counts of an object request -/

/-- There is no such object, or the store has failed. -/
def Response.fails (r : Response) : Bool :=
  r.status = 404 || r.status = 500

/--
From one cache to another what has been counted agrees with the answer that was given. A look-up
that gave nothing shows in the answer, or the answer is that of a read that came to nothing.
-/
structure Counted (reads : Bool) (c : Cache) (answer : Response) (evicted : Nat) (c' : Cache) :
    Prop where
  hits : c'.counters.hits = c.counters.hits + (answer.cache == some .hit).toUInt64
  misses : c'.counters.misses = c.counters.misses + (answer.cache == some .miss).toUInt64 +
    (reads && answer.fails).toUInt64
  evictions : c'.counters.evictions = c.counters.evictions + UInt64.ofNat evicted

/-- What the cache had no part in is not counted there. -/
theorem counted_of_same {reads : Bool} {c c' : Cache} {answer : Response}
    (hsame : c'.counters = c.counters) (hcache : answer.cache = none ∨ answer.cache = some .bypass)
    (hfails : (reads && answer.fails) = false) : Counted reads c answer 0 c' := by
  rcases hcache with hcache | hcache <;> constructor <;>
    simp [hsame, hcache, hfails, Bool.toUInt64]

/-- A look-up gave an entry, and the answer tells of it. -/
theorem counted_hit {c c' : Cache} {answer : Response}
    (hsame : c'.counters = c.counters.recordHit) (hcache : answer.cache = some .hit)
    (hfails : answer.fails = false) : Counted true c answer 0 c' := by
  constructor <;> simp [hsame, hcache, hfails, Counters.recordHit, Bool.toUInt64]

/-- A look-up gave nothing. The answer tells of it, or the read came to nothing. -/
theorem counted_miss {c c₁ c' : Cache} {answer : Response} {evicted : Nat}
    (hlooked : ∃ count, c₁.counters = (c.counters.recordExpirations count).recordMiss)
    (hlast : c'.counters = c₁.counters.recordEvictions (UInt64.ofNat evicted))
    (htold : answer.cache = some .miss ∧ answer.fails = false ∨
      answer.cache = none ∧ answer.fails = true) : Counted true c answer evicted c' := by
  obtain ⟨count, hlooked⟩ := hlooked
  rw [hlooked] at hlast
  rcases htold with ⟨hcache, hfails⟩ | ⟨hcache, hfails⟩ <;> constructor <;>
    simp [hlast, hcache, hfails, Counters.recordMiss, Counters.recordExpirations,
      Counters.recordEvictions, Bool.toUInt64]

/-- The store had no answer. -/
theorem told_ofCall (method : String) (id : ObjectId) (failure : Failure) :
    (Response.ofFailure (.ofCall method id failure)).fails = true ∧
      (Response.ofFailure (.ofCall method id failure)).status ≠ 403 := by
  unfold RequestFailure.ofCall
  by_cases habsent : failure.isNotFound = true
  · rw [if_pos habsent]
    exact ⟨rfl, (by decide : 404 ≠ 403)⟩
  · rw [if_neg habsent]
    exact ⟨rfl, (by decide : 500 ≠ 403)⟩

theorem told_ofObject {a : ObjectResponse} (hstatus : a.status = 200) :
    (Response.ofObject a).fails = false ∧ (Response.ofObject a).status ≠ 403 := by
  unfold Response.fails Response.ofObject
  dsimp only
  rw [hstatus]
  exact ⟨rfl, by decide⟩

theorem told_answerFromEntry (e : Entry) (acceptsGzip : Bool) :
    (ObjectRequest.answerFromEntry e acceptsGzip).cache = .hit ∧
      (ObjectRequest.answerFromEntry e acceptsGzip).status = 200 := by
  unfold ObjectRequest.answerFromEntry
  split <;> exact ⟨rfl, rfl⟩

theorem told_answerFromFetch (policy : CompressionPolicy) (content : Bytes) (metadata : Metadata)
    (acceptsGzip : Bool) :
    (Awaiting.answerFromFetch policy content metadata acceptsGzip).cache = .miss ∧
      (Awaiting.answerFromFetch policy content metadata acceptsGzip).status = 200 := by
  unfold Awaiting.answerFromFetch
  dsimp only
  split
  · split
    · split <;> exact ⟨rfl, rfl⟩
    · exact ⟨rfl, rfl⟩
  · exact ⟨rfl, rfl⟩

/-- A request that is answered before its call; only the policy forbids. -/
theorem counted_done {r : ObjectRequest} {m : Moment} {c c' : Cache} {outcome : ObjectOutcome}
    (h : r.start m c = (.done outcome, c')) :
    Counted r.isRead c (.ofOutcome outcome) 0 c' ∧ (Response.ofOutcome outcome).status ≠ 403 := by
  cases starts_of_eq h with
  | unnamed =>
    exact ⟨counted_of_same rfl (Or.inl rfl) (Bool.and_false _), (by decide : 400 ≠ 403)⟩
  | @found _ _ info e hget =>
    obtain ⟨hcache, hstatus⟩ := told_answerFromEntry e info.acceptsGzip
    obtain ⟨hfails, hallowed⟩ := told_ofObject hstatus
    have hhit := Cache.counters_get_of_eq_some hget
    exact ⟨counted_hit hhit (congrArg some hcache) hfails, hallowed⟩
  | undecodable =>
    exact ⟨counted_of_same (c.counters_delete _) (Or.inl rfl) rfl, (by decide : 400 ≠ 403)⟩
  | foundHead _ hget =>
    have hhit := Cache.counters_get_of_eq_some hget
    exact ⟨counted_hit hhit rfl rfl, (by decide : 200 ≠ 403)⟩

/-- A request that goes on after its call. -/
theorem counted_waiting {r : ObjectRequest} {m m' : Moment} {c c₁ : Cache} {a : Awaiting}
    {reply : a.call.Outcome} {finished : Finished} (hstart : r.start m c = (.waiting a, c₁))
    (hresume : a.resume reply m' c₁ = .ok finished) :
    Counted r.isRead c (.ofOutcome finished.outcome) finished.evicted finished.cache ∧
      (Response.ofOutcome finished.outcome).status ≠ 403 := by
  cases starts_of_eq hstart with
  | @missed id _ info hget =>
    -- the look-up before the call is the miss, whatever the call brings back
    have hlooked := Cache.counters_get_of_eq_none hget
    cases resumes_of_eq hresume with
    | fetchFailed _ _ _ failure =>
      obtain ⟨hfails, hallowed⟩ := told_ofCall "GET" id failure
      exact ⟨counted_miss hlooked (by simp) (Or.inr ⟨rfl, hfails⟩), hallowed⟩
    | @fetched _ _ _ content metadata _ hinsert =>
      obtain ⟨hcache, hstatus⟩ := told_answerFromFetch _ content metadata info.acceptsGzip
      obtain ⟨hfails, hallowed⟩ := told_ofObject hstatus
      have hlast := Cache.counters_insert hinsert
      exact ⟨counted_miss hlooked hlast (Or.inl ⟨congrArg some hcache, hfails⟩), hallowed⟩
  | @missedHead id _ hget =>
    have hlooked := Cache.counters_get_of_eq_none hget
    cases resumes_of_eq hresume with
    | statFailed _ failure =>
      obtain ⟨hfails, hallowed⟩ := told_ofCall "HEAD" id failure
      exact ⟨counted_miss hlooked (by simp) (Or.inr ⟨rfl, hfails⟩), hallowed⟩
    | described =>
      exact ⟨counted_miss hlooked (by simp) (Or.inl ⟨rfl, rfl⟩), (by decide : 200 ≠ 403)⟩
  | @put id =>
    have hfirst := c.counters_delete id.cacheKey
    cases resumes_of_eq hresume with
    | storeFailed _ _ _ failure =>
      obtain ⟨-, hallowed⟩ := told_ofCall "PUT" id failure
      exact ⟨counted_of_same hfirst (Or.inl rfl) rfl, hallowed⟩
    | stored =>
      have hlast := ((c.delete id.cacheKey).2.counters_delete id.cacheKey).trans hfirst
      exact ⟨counted_of_same hlast (Or.inr rfl) rfl, (by decide : 200 ≠ 403)⟩
  | @delete id =>
    have hfirst := c.counters_delete id.cacheKey
    cases resumes_of_eq hresume with
    | @removeFailed _ failure =>
      obtain ⟨-, hallowed⟩ := told_ofCall "DELETE" id failure
      exact ⟨counted_of_same hfirst (Or.inl rfl) rfl, hallowed⟩
    | absent | removed =>
      have hlast := ((c.delete id.cacheKey).2.counters_delete id.cacheKey).trans hfirst
      exact ⟨counted_of_same hlast (Or.inr rfl) rfl, (by decide : 204 ≠ 403)⟩

/-! ## Requests one after another -/

/-- A request over HTTP, its moments, and a store that answers its call in some way. -/
structure Encounter where
  request : Request
  before : Moment
  reply : (call : Call) → call.Outcome
  after : Moment

/-- A request and its response. -/
structure Answered where
  request : Request
  response : Response

namespace Request

/-- The bucket of the path as it was sent, if the request gets to the objects. -/
def spelling? (req : Request) : Option String :=
  if req.method = "OPTIONS" then none
  else
    match Route.ofPath req.path with
    | .object bucket _ => some bucket
    | _ => none

/-- The request gets to the objects, whatever comes of it there. -/
def isForObject (req : Request) : Bool :=
  req.spelling?.isSome

/-- It gets there with nothing in the bucket's place. -/
def lacksBucket (req : Request) : Bool :=
  req.spelling? == some ""

/-- The request only looks. -/
def reads (req : Request) : Bool :=
  req.method == "GET" || req.method == "HEAD"

theorem spelling?_eq_some_iff {req : Request} {bucket : String} :
    req.spelling? = some bucket ↔
      req.method ≠ "OPTIONS" ∧ ∃ key, Route.ofPath req.path = .object bucket key := by
  unfold spelling?
  by_cases hmethod : req.method = "OPTIONS"
  · simp [hmethod]
  · cases hroute : Route.ofPath req.path <;> simp [hmethod]

end Request

/-- The request is a read for an object, and there is none or the store has failed. -/
def Answered.readsInVain (a : Answered) : Bool :=
  a.request.isForObject && (a.request.reads && a.response.fails)

end Http

namespace Service

/-- Answers a request. -/
def handle (svc : Service) (x : Http.Encounter) : Except Halt (Http.Response × Service) :=
  match Http.start svc x.request x.before with
  | (.done r, svc) => .ok (r, svc)
  | (.waiting a, svc) => Http.resume svc x.request a (x.reply a.call) x.after

/-- Answers requests one after another. -/
def handleAll (svc : Service) : List Http.Encounter → Except Halt (List Http.Answered × Service)
  | [] => .ok ([], svc)
  | x :: rest => do
    let (r, svc) ← svc.handle x
    let (answers, svc) ← svc.handleAll rest
    return (⟨x.request, r⟩ :: answers, svc)

end Service

namespace Http

/-! ## One request is counted once -/

/--
An object request is about to be answered: it has been counted that it came in and whether it was
forbidden, and in the cache what its answer will tell.
-/
structure Pending (svc : Service) (req : Request) (answer : Response) (evicted : Nat)
    (svc' : Service) : Prop where
  metrics : ∃ sizes, svc'.metrics =
    { svc.metrics with
      requests := svc.metrics.requests + 1
      requestSizes := sizes
      denied := svc.metrics.denied + (answer.status == 403).toUInt64
      evictions := svc.metrics.evictions + UInt64.ofNat evicted }
  counted : Counted req.reads svc.cache answer evicted svc'.cache

variable {svc svc' : Service} {req : Request} {bucket key : String} {m : Moment}

/-- The policy refuses a request for what it is not let to do, or for its path. -/
theorem refusal?_cases {access : AccessControl} {failure : RequestFailure}
    (h : refusal? access req = some failure) :
    failure = .noBucket ∨ ∃ bucket, failure = .denied req.method bucket := by
  unfold refusal? at h
  split at h
  · cases h
  · split at h
    · exact Or.inl (Option.some.inj h).symm
    · next bucket _ =>
      split at h
      · cases h
      · exact Or.inr ⟨bucket, (Option.some.inj h).symm⟩

/-- What cannot be read is answered without a look at the cache. -/
theorem Unread.told {answer : Response} (h : Unread req answer) :
    answer.cache = none ∧ answer.fails = false ∧ answer.status ≠ 403 := by
  cases h with
  | method => exact ⟨rfl, rfl, (by decide : 405 ≠ 403)⟩
  | name => exact ⟨rfl, rfl, (by decide : 400 ≠ 403)⟩
  | body => exact ⟨rfl, rfl, (by decide : 413 ≠ 403)⟩

/-- The object request that comes of a read is one. -/
theorem Asks.isRead_eq {r : ObjectRequest} (h : Asks req r) : r.isRead = req.reads := by
  unfold Request.reads
  cases h with
  | get h | put h | delete h | head h =>
    rw [h]
    rfl

/-- A request that has only been counted, with an answer that nothing forbids. -/
theorem pending_of_allowed {answer : Response} {evicted : Nat}
    (hmetrics : svc'.metrics =
      (svc.metrics.recordRequest (toldSize? req)).recordEvictions evicted)
    (hallowed : answer.status ≠ 403)
    (hcounted : Counted req.reads svc.cache answer evicted svc'.cache) :
    Pending svc req answer evicted svc' where
  metrics := by
    have hstatus : (answer.status == 403) = false := by simpa using hallowed
    refine ⟨svc.metrics.requestSizes ++ (toldSize? req).toList, ?_⟩
    rw [hmetrics, hstatus]
    simp [Metrics.recordRequest, Metrics.recordEvictions, Bool.toUInt64]
  counted := hcounted

theorem recordEvictions_zero_eq (metrics : Metrics) : metrics.recordEvictions 0 = metrics := by
  simp [Metrics.recordEvictions]

/-- An object request is answered at once, or waits for its call. -/
theorem startObject_cases {stage : Stage}
    (h : startObject svc req bucket key m = (stage, svc')) :
    (∃ answer svc₁, Pending svc req answer 0 svc₁ ∧ stage = .done (dress req answer) ∧
      svc' = record svc₁ req answer) ∨
    ∃ r a c, objectRequest req bucket key = .ok r ∧ r.start m svc.cache = (.waiting a, c) ∧
      stage = .waiting a ∧
      svc' = { svc with
        metrics := svc.metrics.recordRequest (toldSize? req)
        cache := c } := by
  unfold startObject at h
  cases hrefusal : refusal? svc.access req with
  | some failure =>
    rcases refusal?_cases hrefusal with rfl | ⟨refused, rfl⟩
    · simp only [hrefusal] at h
      obtain ⟨rfl, rfl⟩ := Prod.mk.inj h
      refine Or.inl ⟨_, _, pending_of_allowed ?_ ?_ ?_, rfl, rfl⟩
      · exact (recordEvictions_zero_eq _).symm
      · exact (by decide : 400 ≠ 403)
      · exact counted_of_same rfl (Or.inl rfl) (Bool.and_false _)
    · simp only [hrefusal] at h
      obtain ⟨rfl, rfl⟩ := Prod.mk.inj h
      refine Or.inl ⟨.ofFailure (.denied req.method refused),
        { svc with metrics := (svc.metrics.recordRequest (toldSize? req)).recordDenial },
        ⟨⟨svc.metrics.requestSizes ++ (toldSize? req).toList, ?_⟩, ?_⟩, rfl, rfl⟩
      · have hforbidden :
            (Response.ofFailure (.denied req.method refused)).status == 403 := rfl
        rw [hforbidden]
        simp [Metrics.recordRequest, Metrics.recordDenial, Bool.toUInt64]
      · exact counted_of_same rfl (Or.inl rfl) (Bool.and_false _)
  | none =>
    simp only [hrefusal] at h
    cases hread : objectRequest req bucket key with
    | error answer =>
      simp only [hread] at h
      obtain ⟨rfl, rfl⟩ := Prod.mk.inj h
      obtain ⟨hcache, hfails, hallowed⟩ := (unread_of_objectRequest hread).told
      refine Or.inl ⟨_, _, pending_of_allowed ?_ hallowed ?_, rfl, rfl⟩
      · exact (recordEvictions_zero_eq _).symm
      · refine counted_of_same rfl (Or.inl hcache) ?_
        rw [hfails, Bool.and_false]
    | ok r =>
      simp only [hread] at h
      cases hstart : r.start m svc.cache with | mk progress c
      simp only [hstart] at h
      cases progress with
      | done outcome =>
        obtain ⟨rfl, rfl⟩ := Prod.mk.inj h
        obtain ⟨hcounted, hallowed⟩ := counted_done hstart
        rw [(objectRequest_eq_ok_iff.1 hread).asks.isRead_eq] at hcounted
        refine Or.inl ⟨_, _, pending_of_allowed ?_ hallowed hcounted, rfl, rfl⟩
        exact (recordEvictions_zero_eq _).symm
      | waiting a =>
        obtain ⟨rfl, rfl⟩ := Prod.mk.inj h
        exact Or.inr ⟨r, a, c, rfl, hstart, rfl, rfl⟩

/-- Every request that gets to the objects is counted when it comes in and when it leaves. -/
theorem exists_of_handle {x : Encounter} {r : Response} (hobject : x.request.isForObject = true)
    (h : svc.handle x = .ok (r, svc')) :
    ∃ answer evicted svc₁, Pending svc x.request answer evicted svc₁ ∧
      r = dress x.request answer ∧ svc' = record svc₁ x.request answer := by
  obtain ⟨bucket, hspelling⟩ := Option.isSome_iff_exists.mp hobject
  obtain ⟨hmethod, key, hroute⟩ := Request.spelling?_eq_some_iff.mp hspelling
  have hbegin : start svc x.request x.before =
      startObject svc x.request bucket key x.before := by
    unfold start
    simp only [if_neg hmethod, hroute]
  unfold Service.handle at h
  rw [hbegin] at h
  cases hstage : startObject svc x.request bucket key x.before with | mk stage svc₂
  rw [hstage] at h
  rcases startObject_cases hstage with
    ⟨answer, svc₁, hpending, rfl, rfl⟩ | ⟨request, a, c, hread, hstart, rfl, rfl⟩
  · obtain ⟨rfl, rfl⟩ := Prod.mk.inj (Except.ok.inj h)
    exact ⟨answer, 0, svc₁, hpending, rfl, rfl⟩
  · unfold resume at h
    obtain ⟨finished, hresume, h⟩ := exists_of_bind_eq_ok h
    obtain ⟨rfl, rfl⟩ := Prod.mk.inj (Except.ok.inj h)
    obtain ⟨hcounted, hallowed⟩ := counted_waiting hstart hresume
    rw [(objectRequest_eq_ok_iff.1 hread).asks.isRead_eq] at hcounted
    exact ⟨_, finished.evicted, _, pending_of_allowed rfl hallowed hcounted, rfl, rfl⟩

/-- No other request is counted anywhere. -/
theorem handle_of_not_isForObject {x : Encounter} {r : Response}
    (hobject : x.request.isForObject = false) (h : svc.handle x = .ok (r, svc')) : svc' = svc := by
  have hnone : x.request.spelling? = none := by simpa [Request.isForObject] using hobject
  unfold Service.handle start at h
  unfold Request.spelling? at hnone
  by_cases hmethod : x.request.method = "OPTIONS"
  · rw [if_pos hmethod] at h
    exact (Prod.mk.inj (Except.ok.inj h)).2.symm
  · rw [if_neg hmethod] at h hnone
    cases hroute : Route.ofPath x.request.path with
    | object bucket key =>
      rw [hroute] at hnone
      cases hnone
    | stats | health | unrouted =>
      rw [hroute] at h
      exact (Prod.mk.inj (Except.ok.inj h)).2.symm

/-! ## The books -/

/-- The numbers of a server fit together, and with the requests that it has answered. -/
structure Books (answers : List Answered) (svc : Service) : Prop where
  /-- What gets to the objects is a request. -/
  requests : svc.metrics.requests =
    UInt64.ofNat (answers.countP fun a => a.request.isForObject)
  /-- Each has a response. -/
  statuses : svc.metrics.statuses.total = svc.metrics.requests
  /-- Each is an operation on a bucket, but for those without one. -/
  operations : svc.metrics.operations.total +
    UInt64.ofNat (answers.countP fun a => a.request.lacksBucket) = svc.metrics.requests
  denied : svc.metrics.denied = svc.metrics.statuses.count 403
  hits : svc.metrics.hits = svc.cache.counters.hits
  /-- A miss shows in the answer, or the read has come to nothing. -/
  misses : svc.metrics.misses + UInt64.ofNat (answers.countP Answered.readsInVain) =
    svc.cache.counters.misses
  evictions : svc.metrics.evictions = svc.cache.counters.evictions

theorem books_make (maxSize : UInt64) (ttl : Nat) (policy : CompressionPolicy)
    (access : AccessControl) : Books [] (.make (.empty maxSize ttl policy) access) := by
  constructor <;> rfl

theorem recordCache_eq (metrics : Metrics) (part : Option CacheStatus) :
    metrics.recordCache part =
      { metrics with
        hits := metrics.hits + (part == some .hit).toUInt64
        misses := metrics.misses + (part == some .miss).toUInt64 } := by
  cases part with
  | none => simp [Metrics.recordCache, Bool.toUInt64]
  | some part => cases part <;> simp [Metrics.recordCache, Bool.toUInt64]

/-- What a response adds to the numbers. -/
theorem metrics_record (svc : Service) (req : Request) (answer : Response) :
    (record svc req answer).metrics =
      { svc.metrics with
        timed := svc.metrics.timed + 1
        statuses := svc.metrics.statuses.add answer.status
        responseSizes := svc.metrics.responseSizes ++ [answer.size]
        hits := svc.metrics.hits + (answer.cache == some .hit).toUInt64
        misses := svc.metrics.misses + (answer.cache == some .miss).toUInt64
        operations :=
          match (bucketOfPath? req.path).map fun bucket => (bucket, req.method) with
          | some label => svc.metrics.operations.add label
          | none => svc.metrics.operations } := by
  unfold record Metrics.recordResponse
  cases (bucketOfPath? req.path).map fun bucket => (bucket, req.method) <;>
    simp only [recordCache_eq]

/-- A path is an operation on a bucket, unless there is nothing in the bucket's place. -/
theorem total_operations {bucket : String} (hspelling : req.spelling? = some bucket)
    (operations : Tally (String × String)) :
    (match (bucketOfPath? req.path).map fun bucket => (bucket, req.method) with
      | some label => operations.add label
      | none => operations).total + req.lacksBucket.toUInt64 = operations.total + 1 := by
  obtain ⟨-, key, hroute⟩ := Request.spelling?_eq_some_iff.mp hspelling
  unfold Request.lacksBucket
  rw [bucketOfPath?_of_route hroute, hspelling]
  by_cases hempty : bucket = ""
  · rw [if_pos hempty, hempty]
    rfl
  · have hlacks : (some bucket == some "") = false := by simpa using hempty
    rw [if_neg hempty, hlacks]
    show (operations.add (bucket, req.method)).total + 0 = _
    rw [Tally.total_add, UInt64.add_zero]

/-- A response completes what has been counted of its request. -/
theorem Books.record {answers : List Answered} (h : Books answers svc) {answer : Response}
    {evicted : Nat} (hobject : req.isForObject = true)
    (hpending : Pending svc req answer evicted svc') :
    Books (answers ++ [⟨req, dress req answer⟩]) (record svc' req answer) := by
  obtain ⟨bucket, hspelling⟩ := Option.isSome_iff_exists.mp hobject
  obtain ⟨⟨sizes, hmetrics⟩, hcounted⟩ := hpending
  have hfails : (dress req answer).fails = answer.fails := by
    unfold Response.fails
    rw [status_dress]
  have hvain : Answered.readsInVain ⟨req, dress req answer⟩ = (req.reads && answer.fails) := by
    unfold Answered.readsInVain
    rw [hobject, hfails, Bool.true_and]
  have hoperations := total_operations hspelling svc.metrics.operations
  have hcache : (Http.record svc' req answer).cache = svc'.cache := rfl
  constructor <;> rw [metrics_record, hmetrics] <;> dsimp only
  · rw [ofNat_countP_concat, ← h.requests, hobject]
    rfl
  · rw [Tally.total_add, h.statuses]
  · rw [ofNat_countP_concat, UInt64.add_comm (UInt64.ofNat _), ← UInt64.add_assoc, hoperations,
      UInt64.add_assoc, UInt64.add_comm 1, ← UInt64.add_assoc, h.operations]
  · rw [Tally.count_add, h.denied]
  · rw [hcache, hcounted.hits, h.hits]
  · rw [ofNat_countP_concat, hvain, hcache, hcounted.misses, ← h.misses]
    ac_rfl
  · rw [hcache, hcounted.evictions, h.evictions]

/-- A request keeps the books. -/
theorem Books.handle {answers : List Answered} (h : Books answers svc) {x : Encounter}
    {r : Response} (hhandle : svc.handle x = .ok (r, svc')) :
    Books (answers ++ [⟨x.request, r⟩]) svc' := by
  cases hobject : x.request.isForObject with
  | true =>
    obtain ⟨answer, evicted, svc₁, hpending, rfl, rfl⟩ := exists_of_handle hobject hhandle
    exact h.record hobject hpending
  | false =>
    obtain rfl := handle_of_not_isForObject hobject hhandle
    have hspelling : x.request.spelling? = none := by
      simpa [Request.isForObject] using hobject
    have hlacks : x.request.lacksBucket = false := by
      unfold Request.lacksBucket
      rw [hspelling]
      rfl
    have hvain : Answered.readsInVain ⟨x.request, r⟩ = false := by
      unfold Answered.readsInVain
      rw [hobject]
      rfl
    refine ⟨?_, h.statuses, ?_, h.denied, h.hits, ?_, h.evictions⟩
    · rw [ofNat_countP_concat, hobject, h.requests]
      exact (UInt64.add_zero _).symm
    · rw [ofNat_countP_concat, hlacks, ← h.operations]
      exact congrArg _ (UInt64.add_zero _)
    · rw [ofNat_countP_concat, hvain, ← h.misses]
      exact congrArg _ (UInt64.add_zero _)

/-- Any number of requests keep them, and each of them has its response. -/
theorem Books.handleAll {answers : List Answered} (h : Books answers svc)
    {encounters : List Encounter} {more : List Answered}
    (hrun : svc.handleAll encounters = .ok (more, svc')) :
    Books (answers ++ more) svc' ∧
      more.map Answered.request = encounters.map Encounter.request := by
  induction encounters generalizing answers svc more with
  | nil =>
    obtain ⟨rfl, rfl⟩ := Prod.mk.inj (Except.ok.inj hrun)
    rw [List.append_nil]
    exact ⟨h, rfl⟩
  | cons x rest ih =>
    rw [Service.handleAll] at hrun
    obtain ⟨⟨r, svc₁⟩, hhandle, hrun⟩ := exists_of_bind_eq_ok hrun
    obtain ⟨⟨others, svc₂⟩, hrest, hlast⟩ := exists_of_bind_eq_ok hrun
    obtain ⟨rfl, rfl⟩ := Prod.mk.inj (Except.ok.inj hlast)
    obtain ⟨hbooks, hrequests⟩ := ih (h.handle hhandle) hrest
    rw [List.append_assoc] at hbooks
    refine ⟨hbooks, ?_⟩
    rw [List.map_cons, List.map_cons, hrequests]

/--
**Metrics agree with the cache and with each other.** Any requests are sent to a fresh server one
after another, in front of any store, and it does not stop. As many requests are counted as get to
the objects; as many responses; and as many operations on buckets, but for the requests that have
nothing in the bucket's place. Refusals are the responses that forbid. Hits and evictions are those
of the cache; so are misses, together with the reads that came to nothing. All counts are words.
-/
theorem books_handleAll (maxSize : UInt64) (ttl : Nat) (policy : CompressionPolicy)
    (access : AccessControl) {encounters : List Encounter} {answers : List Answered}
    (hrun : (Service.make (.empty maxSize ttl policy) access).handleAll encounters =
      .ok (answers, svc)) :
    Books answers svc ∧ answers.map Answered.request = encounters.map Encounter.request :=
  (books_make maxSize ttl policy access).handleAll hrun

/-- A store that has every object with the key `k` and cannot describe any. -/
def obliging : (call : Call) → call.Outcome
  | .fetch id =>
    if id.key = "k" then .ok (Bytes.ofText "hi", ⟨"text/plain", 2, ⟨0, 0⟩, "tag"⟩)
    else .error (.notFound id)
  | .store .. => .ok ()
  | .remove _ => .ok ()
  | .stat _ => .error (.other "down")

/-- A request at the first instant to a server in front of that store. -/
def visitor (method path : String) : Encounter :=
  ⟨⟨method, path, [], Bytes.ofText "x"⟩, .at ⟨0⟩ ⟨0, 0⟩, obliging, .at ⟨0⟩ ⟨0, 0⟩⟩

/-- Requests that are counted in all ways, and two that are not. -/
def visitors : List Encounter :=
  [visitor "GET" "/objects/b/k", visitor "GET" "/objects/b/k", visitor "GET" "/objects/b/j",
    visitor "HEAD" "/objects/b/j", visitor "GET" "/objects/c/k", visitor "PUT" "/objects//k",
    visitor "OPTIONS" "/objects/b/k", visitor "GET" "/stats"]

/-- The theorem at work: a miss, a hit, two reads in vain, a refusal, a path without a bucket. -/
theorem books_handleAll_visitors :
    ∃ answers svc, (Service.make (.empty 100 5 ⟨100⟩) ⟨.parse "b:all", true⟩).handleAll visitors =
        .ok (answers, svc) ∧
      (svc.metrics.requests, svc.metrics.operations.total, svc.metrics.denied, svc.metrics.hits,
        svc.metrics.misses, svc.cache.counters.misses) = (6, 5, 1, 1, 1, 3) ∧
      Books answers svc ∧ answers.map Answered.request = visitors.map Encounter.request := by
  have hnumbers : ((Service.make (.empty 100 5 ⟨100⟩) ⟨.parse "b:all", true⟩).handleAll
      visitors).toOption.map (fun ran => (ran.2.metrics.requests,
        ran.2.metrics.operations.total, ran.2.metrics.denied, ran.2.metrics.hits,
        ran.2.metrics.misses, ran.2.cache.counters.misses)) = some (6, 5, 1, 1, 1, 3) := by
    decide +kernel
  obtain ⟨⟨answers, svc⟩, hran, hcounted⟩ := Option.map_eq_some_iff.mp hnumbers
  have hrun := Session.toOption_eq_some_iff.mp hran
  exact ⟨answers, svc, hrun, hcounted, books_handleAll 100 5 ⟨100⟩ ⟨.parse "b:all", true⟩ hrun⟩

/--
**A request without a bucket is no operation on one.** With nothing in the bucket's place a path
leads to the objects. The request is counted, and under no bucket.
-/
theorem exists_total_operations_ne :
    ∃ answers svc, (Service.make (.empty 1000 300000000000 ⟨1000⟩) ⟨.empty, false⟩).handleAll
        [visitor "PUT" "/objects//k"] = .ok (answers, svc) ∧
      svc.metrics.requests = UInt64.ofNat (answers.countP fun a => a.request.isForObject) ∧
      svc.metrics.operations.total ≠ svc.metrics.requests := by
  have hnumbers : ((Service.make (.empty 1000 300000000000 ⟨1000⟩) ⟨.empty, false⟩).handleAll
      [visitor "PUT" "/objects//k"]).toOption.map (fun ran => (ran.2.metrics.requests,
        UInt64.ofNat (ran.1.countP fun a => a.request.isForObject),
        ran.2.metrics.operations.total)) = some (1, 1, 0) := by
    decide +kernel
  obtain ⟨⟨answers, svc⟩, hran, hcounted⟩ := Option.map_eq_some_iff.mp hnumbers
  obtain ⟨hrequests, hobjects, htotal⟩ : svc.metrics.requests = 1 ∧
      UInt64.ofNat (answers.countP fun a => a.request.isForObject) = 1 ∧
      svc.metrics.operations.total = 0 := by
    simpa using hcounted
  refine ⟨answers, svc, Session.toOption_eq_some_iff.mp hran, ?_, ?_⟩
  · rw [hrequests, hobjects]
  · rw [htotal, hrequests]
    decide

end Http

end ReadThrough
