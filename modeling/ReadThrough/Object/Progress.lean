import ReadThrough.Cache.Basic
import ReadThrough.Object.Failure
import ReadThrough.Object.Request
import ReadThrough.Object.Response

/-!
# How object requests are answered

A request makes at most one call to the store behind the cache. `start` does what comes before the
call: it answers at once, or leaves an `Awaiting` that says which call is made and what has to be
remembered meanwhile. `resume` does what comes after. Between the two anything may happen to the
cache.

## Rules

* A read that misses notes the generation of its key, and its content is cached only if that has
  not moved when the content comes back.
* A write deletes the key before the call and again after a call that succeeded. The first makes
  way for the write; the second refuses what readers fetched in between.
* Deleting an absent object succeeds.
* Asking for the headers alone never fills the cache.
-/

namespace ReadThrough

/-- The type of contents that are stored without one. -/
def defaultContentType : String := "application/octet-stream"

/-- What comes out of an object request. -/
abbrev ObjectOutcome := Except RequestFailure ObjectResponse

/-- A request whose call is under way. -/
inductive Awaiting where
  /-- A read that missed, at the given generation of its key. -/
  | get (id : ObjectId) (generation : UInt64) (acceptsGzip : Bool)
  | put (id : ObjectId) (content : Bytes) (contentType : String)
  | delete (id : ObjectId)
  | head (id : ObjectId)
  deriving Repr, DecidableEq

/-- The call that a request waits for. -/
@[reducible] def Awaiting.call : Awaiting → Backend.Call
  | get id .. => .fetch id
  | put id content contentType => .store id content contentType
  | delete id => .remove id
  | head id => .stat id

/-- Where a request stands: it is answered, or it waits for its call. -/
inductive Progress where
  | done (outcome : ObjectOutcome)
  | waiting (awaiting : Awaiting)

/-- A request at its end. -/
structure Finished where
  outcome : ObjectOutcome
  /-- How many entries had to make room. -/
  evicted : Nat
  cache : Cache

namespace ObjectRequest

/-- The content that a body stands for. -/
def contentOf (info : RequestInfo) (body : Bytes) : Except Gzip.Fault Bytes :=
  if info.bodyIsGzip then Gzip.decompress body else .ok body

/-- The answer to a read that found an entry. -/
def answerFromEntry (e : Entry) (acceptsGzip : Bool) : ObjectResponse :=
  match e.packed, acceptsGzip with
  | some copy, true => .ofEntry e copy true
  | _, _ => .ofEntry e e.raw false

/-- True if neither the bucket nor the key is empty. -/
def named (id : ObjectId) : Bool :=
  !id.bucket.isEmpty && !id.key.isEmpty

/-- What a request does before its call. -/
def start (r : ObjectRequest) (m : Moment) (c : Cache) : Progress × Cache :=
  if !named r.id then (.done (.error .emptyName), c)
  else
    match r with
    | get id info =>
      match c.get m id.cacheKey with
      | (some e, c) => (.done (.ok (answerFromEntry e info.acceptsGzip)), c)
      | (none, c) => (.waiting (.get id (c.generation id.cacheKey) info.acceptsGzip), c)
    | put id info body =>
      let c := (c.delete id.cacheKey).2
      match contentOf info body with
      | .error fault => (.done (.error (.undecodableBody fault)), c)
      | .ok content =>
        (.waiting (.put id content (info.contentType.getD defaultContentType)), c)
    | delete id => (.waiting (.delete id), (c.delete id.cacheKey).2)
    | head id =>
      match c.get m id.cacheKey with
      | (some e, c) => (.done (.ok ((ObjectResponse.ofEntry e [] false).headersOnly e.rawSize.toNat)), c)
      | (none, c) => (.waiting (.head id), c)

end ObjectRequest

namespace Awaiting

/-- The answer to a read that brought an object back. -/
def answerFromFetch (policy : CompressionPolicy) (content : Bytes) (metadata : Metadata)
    (acceptsGzip : Bool) : ObjectResponse :=
  let plain := ObjectResponse.ofMetadata metadata content false
  if acceptsGzip then
    match policy.packed? metadata.contentType content with
    | some copy => if copy.length < content.length then .ofMetadata metadata copy true else plain
    | none => plain
  else plain

/-- What a request does after its call. -/
def resume (a : Awaiting) (outcome : a.call.Outcome) (m : Moment) (c : Cache) :
    Except Halt Finished :=
  match a, outcome with
  | get id _ _, .error failure => .ok ⟨.error (.ofCall "GET" id failure), 0, c⟩
  | get id generation acceptsGzip, .ok (content, metadata) => do
    let inserted ← c.insert m id.cacheKey content metadata (some generation)
    return ⟨.ok (answerFromFetch c.policy content metadata acceptsGzip), inserted.evicted,
      inserted.cache⟩
  | put id _ _, .error failure => .ok ⟨.error (.ofCall "PUT" id failure), 0, c⟩
  | put id _ _, .ok _ => .ok ⟨.ok (.empty 200 .bypass), 0, (c.delete id.cacheKey).2⟩
  | delete id, .error failure =>
    if failure.isNotFound then .ok ⟨.ok (.empty 204 .bypass), 0, (c.delete id.cacheKey).2⟩
    else .ok ⟨.error (.ofCall "DELETE" id failure), 0, c⟩
  | delete id, .ok _ => .ok ⟨.ok (.empty 204 .bypass), 0, (c.delete id.cacheKey).2⟩
  | head id, .error failure => .ok ⟨.error (.ofCall "HEAD" id failure), 0, c⟩
  | head _, .ok metadata =>
    .ok ⟨.ok ((ObjectResponse.ofMetadata metadata [] false).headersOnly metadata.size), 0, c⟩

end Awaiting

end ReadThrough
