import ReadThrough.Object.Progress
import ReadThrough.Proofs.Cache.Operations

/-!
# The segments of a request

A request does one thing before its call and one after it. `Starts` and `Resumes` list what these
may be, case by case; whatever holds of a segment is read off them.

* `starts_of_eq` — before the call
* `resumes_of_eq` — after it
-/

namespace ReadThrough

open Backend

/-- What a request may do before its call: how far it gets, and the cache that it leaves. -/
inductive Starts (m : Moment) (c : Cache) : ObjectRequest → Progress → Cache → Prop where
  | unnamed {r : ObjectRequest} (hunnamed : ObjectRequest.named r.id = false) :
    Starts m c r (.done (.error .emptyName)) c
  | found {id : ObjectId} (hnamed : ObjectRequest.named id = true) (info : RequestInfo) {e : Entry}
    (hget : (c.get m id.cacheKey).1 = some e) :
    Starts m c (.get id info) (.done (.ok (ObjectRequest.answerFromEntry e info.acceptsGzip)))
      (c.get m id.cacheKey).2
  | missed {id : ObjectId} (hnamed : ObjectRequest.named id = true) (info : RequestInfo)
    (hget : (c.get m id.cacheKey).1 = none) :
    Starts m c (.get id info)
      (.waiting (.get id ((c.get m id.cacheKey).2.generation id.cacheKey) info.acceptsGzip))
      (c.get m id.cacheKey).2
  | undecodable {id : ObjectId} (hnamed : ObjectRequest.named id = true) {info : RequestInfo}
    {body : Bytes} {fault : Gzip.Fault}
    (hcontent : ObjectRequest.contentOf info body = .error fault) :
    Starts m c (.put id info body) (.done (.error (.undecodableBody fault)))
      (c.delete id.cacheKey).2
  | put {id : ObjectId} (hnamed : ObjectRequest.named id = true) {info : RequestInfo}
    {body content : Bytes} (hcontent : ObjectRequest.contentOf info body = .ok content) :
    Starts m c (.put id info body)
      (.waiting (.put id content (info.contentType.getD defaultContentType)))
      (c.delete id.cacheKey).2
  | delete {id : ObjectId} (hnamed : ObjectRequest.named id = true) :
    Starts m c (.delete id) (.waiting (.delete id)) (c.delete id.cacheKey).2
  | foundHead {id : ObjectId} (hnamed : ObjectRequest.named id = true) {e : Entry}
    (hget : (c.get m id.cacheKey).1 = some e) :
    Starts m c (.head id)
      (.done (.ok ((ObjectResponse.ofEntry e [] false).headersOnly e.rawSize.toNat)))
      (c.get m id.cacheKey).2
  | missedHead {id : ObjectId} (hnamed : ObjectRequest.named id = true)
    (hget : (c.get m id.cacheKey).1 = none) :
    Starts m c (.head id) (.waiting (.head id)) (c.get m id.cacheKey).2

theorem starts (r : ObjectRequest) (m : Moment) (c : Cache) :
    Starts m c r (r.start m c).1 (r.start m c).2 := by
  unfold ObjectRequest.start
  cases hnamed : ObjectRequest.named r.id with
  | false => exact .unnamed hnamed
  | true =>
    cases r with
    | get id info =>
      dsimp only [ObjectRequest.id, Bool.not_true]
      cases hget : c.get m id.cacheKey with | mk found c'
      have hfound : (c.get m id.cacheKey).1 = found := congrArg Prod.fst hget
      obtain rfl : (c.get m id.cacheKey).2 = c' := congrArg Prod.snd hget
      cases found with
      | some e => exact .found hnamed info hfound
      | none => exact .missed hnamed info hfound
    | put id info body =>
      dsimp only [ObjectRequest.id, Bool.not_true]
      cases hcontent : ObjectRequest.contentOf info body with
      | error fault => exact .undecodable hnamed hcontent
      | ok content => exact .put hnamed hcontent
    | delete id => exact .delete hnamed
    | head id =>
      dsimp only [ObjectRequest.id, Bool.not_true]
      cases hget : c.get m id.cacheKey with | mk found c'
      have hfound : (c.get m id.cacheKey).1 = found := congrArg Prod.fst hget
      obtain rfl : (c.get m id.cacheKey).2 = c' := congrArg Prod.snd hget
      cases found with
      | some e => exact .foundHead hnamed hfound
      | none => exact .missedHead hnamed hfound

theorem starts_of_eq {r : ObjectRequest} {m : Moment} {c c' : Cache} {p : Progress}
    (h : r.start m c = (p, c')) : Starts m c r p c' := by
  have hstarts := starts r m c
  rwa [h] at hstarts

/-- What a request may do after its call. -/
inductive Resumes (m : Moment) (c : Cache) : (a : Awaiting) → a.call.Outcome → Finished → Prop where
  | fetchFailed (id : ObjectId) (generation : UInt64) (acceptsGzip : Bool) (failure : Failure) :
    Resumes m c (.get id generation acceptsGzip) (.error failure)
      ⟨.error (.ofCall "GET" id failure), 0, c⟩
  | fetched {id : ObjectId} {generation : UInt64} (acceptsGzip : Bool) {content : Bytes}
    {metadata : Metadata} {inserted : Cache.Insertion}
    (hinsert : c.insert m id.cacheKey content metadata (some generation) = .ok inserted) :
    Resumes m c (.get id generation acceptsGzip) (.ok (content, metadata))
      ⟨.ok (Awaiting.answerFromFetch c.policy content metadata acceptsGzip), inserted.evicted,
        inserted.cache⟩
  | storeFailed (id : ObjectId) (content : Bytes) (contentType : String) (failure : Failure) :
    Resumes m c (.put id content contentType) (.error failure)
      ⟨.error (.ofCall "PUT" id failure), 0, c⟩
  | stored (id : ObjectId) (content : Bytes) (contentType : String) :
    Resumes m c (.put id content contentType) (.ok ())
      ⟨.ok (.empty 200 .bypass), 0, (c.delete id.cacheKey).2⟩
  | removeFailed (id : ObjectId) {failure : Failure} (hpresent : failure.isNotFound = false) :
    Resumes m c (.delete id) (.error failure) ⟨.error (.ofCall "DELETE" id failure), 0, c⟩
  | absent (id : ObjectId) {failure : Failure} (habsent : failure.isNotFound = true) :
    Resumes m c (.delete id) (.error failure)
      ⟨.ok (.empty 204 .bypass), 0, (c.delete id.cacheKey).2⟩
  | removed (id : ObjectId) :
    Resumes m c (.delete id) (.ok ()) ⟨.ok (.empty 204 .bypass), 0, (c.delete id.cacheKey).2⟩
  | statFailed (id : ObjectId) (failure : Failure) :
    Resumes m c (.head id) (.error failure) ⟨.error (.ofCall "HEAD" id failure), 0, c⟩
  | described (id : ObjectId) (metadata : Metadata) :
    Resumes m c (.head id) (.ok metadata)
      ⟨.ok ((ObjectResponse.ofMetadata metadata [] false).headersOnly metadata.size), 0, c⟩

theorem resumes_of_eq {a : Awaiting} {reply : a.call.Outcome} {m : Moment} {c : Cache}
    {finished : Finished} (h : a.resume reply m c = .ok finished) :
    Resumes m c a reply finished := by
  cases a with
  | get id generation acceptsGzip =>
    cases reply with
    | error failure =>
      obtain rfl := Except.ok.inj h
      exact .fetchFailed id generation acceptsGzip failure
    | ok reply =>
      obtain ⟨content, metadata⟩ := reply
      rw [Awaiting.resume] at h
      obtain ⟨inserted, hinsert, h⟩ := exists_of_bind_eq_ok h
      obtain rfl := Except.ok.inj h
      exact .fetched acceptsGzip hinsert
  | put id content contentType =>
    cases reply with
    | error failure =>
      obtain rfl := Except.ok.inj h
      exact .storeFailed id content contentType failure
    | ok reply =>
      obtain rfl := Except.ok.inj h
      exact .stored id content contentType
  | delete id =>
    cases reply with
    | error failure =>
      rw [Awaiting.resume] at h
      cases habsent : failure.isNotFound with
      | true =>
        rw [habsent, if_pos rfl] at h
        obtain rfl := Except.ok.inj h
        exact .absent id habsent
      | false =>
        rw [habsent, if_neg Bool.false_ne_true] at h
        obtain rfl := Except.ok.inj h
        exact .removeFailed id habsent
    | ok reply =>
      obtain rfl := Except.ok.inj h
      exact .removed id
  | head id =>
    cases reply with
    | error failure =>
      obtain rfl := Except.ok.inj h
      exact .statFailed id failure
    | ok metadata =>
      obtain rfl := Except.ok.inj h
      exact .described id metadata

end ReadThrough
