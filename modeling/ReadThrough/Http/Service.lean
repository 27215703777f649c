import ReadThrough.Cache.Report
import ReadThrough.Http.Message
import ReadThrough.Http.Metrics
import ReadThrough.Http.Percent
import ReadThrough.Http.Route
import ReadThrough.Object.Progress
import ReadThrough.Settings

/-!
# The server

The server answers requests from its cache and from the store behind it. `start` takes a request
as far as its call to the store; `resume` goes on from the outcome of the call.

## Around the objects

A request for an object is counted and logged, whatever comes of it. Before anything else is done
for it, the policy of the raw bucket in its path has to let its method. Then the method has to be
one that objects know, bucket and key have to be text once their escapes are replaced, and the body
of a write may not be longer than `bodyLimit`.

## Around everything

Every response lets any origin read it. A question for the methods that are allowed is answered
before all else. Responses tell the length of their body where it is known; the answer to a request
for headers alone has its body taken off, and keeps the length. Where nothing answers, the body
stays on.
-/

namespace ReadThrough

/-- Who may do what. -/
structure AccessControl where
  policy : AccessPolicy
  /-- If false, every request passes. -/
  enabled : Bool
  deriving Repr, DecidableEq

/-- A line of the log: a request for an object and its response. -/
structure Event where
  method : String
  path : String
  status : Nat
  /-- The size of the body. -/
  size : Nat
  cache : Option CacheStatus
  agent : String
  /-- True if the body was compressed. -/
  gzip : Bool
  deriving Repr, DecidableEq

/-- A server. -/
structure Service where
  cache : Cache
  access : AccessControl
  metrics : Metrics
  /-- The lines logged so far. -/
  log : List Event

namespace Service

/-- A server that has answered nothing yet. -/
def make (cache : Cache) (access : AccessControl) : Service where
  cache := cache
  access := access
  metrics := .zero
  log := []

/-- The server that settings ask for. -/
def ofSettings (settings : Settings) : Service :=
  make
    (.empty settings.maxCacheSize (settings.ttl.toNat * Time.second) ⟨settings.minCompressSize⟩)
    ⟨settings.policy, settings.policyEnabled⟩

end Service

namespace Http

/-- Where a request stands: it is answered, or an object request of it waits for its call. -/
inductive Stage where
  | done (response : Response)
  | waiting (awaiting : Awaiting)

/-! ## Fields of every response -/

/-- Lets any origin read a response. -/
def withOrigins (r : Response) : Response :=
  (r.withField "access-control-allow-origin" "*").withField "vary"
    "origin, access-control-request-method, access-control-request-headers"

/-- The methods of objects. -/
def objectMethods : List String := ["GET", "HEAD", "PUT", "DELETE"]

/-- The methods of the paths that serve the server's state. -/
def stateMethods : List String := ["GET", "HEAD"]

/-- The response with the methods that a path knows. -/
def withAllow (methods : List String) (r : Response) : Response :=
  r.withField "allow" (",".intercalate methods)

/-- The answer to a question for the methods that are allowed. -/
def preflight (route : Route) : Response :=
  let answer := ((Response.bare 200).withField "access-control-allow-headers" "*").withField
    "access-control-allow-methods" "*"
  withOrigins
    (match route with
    | .object .. => (withAllow objectMethods answer).withLength
    | .stats | .health => withAllow stateMethods answer
    | .unrouted => answer.withLength)

/-! ## Requests for objects -/

/-- How many octets the body of a write may have. -/
def bodyLimit : Nat := 512 * 1024 * 1024

/-- The body is not too long. Only a write has its body read, and no other is limited. -/
def Fits (req : Request) : Prop :=
  req.method = "PUT" → req.body.length ≤ bodyLimit

instance (req : Request) : Decidable (Fits req) :=
  inferInstanceAs (Decidable (req.method = "PUT" → req.body.length ≤ bodyLimit))

/-- The response to a request that cannot be read. -/
def unreadable (status : Nat) (complaint : String) : Response :=
  { Response.bare status with
    headers := [("content-type", "text/plain; charset=utf-8")]
    body := .octets (Bytes.ofText complaint) }

/-- The object request that a request makes for the object, if objects know its method. -/
def requestFor (req : Request) (id : ObjectId) : ObjectRequest :=
  let info := RequestInfo.ofHeaders req.headers
  if req.method = "GET" then .get id info
  else if req.method = "PUT" then .put id info req.body
  else if req.method = "DELETE" then .delete id
  else .head id

/-- What an object request reads of an HTTP request, or the response if it cannot be read. -/
def objectRequest (req : Request) (bucket key : String) : Except Response ObjectRequest :=
  let misspelt (part : String) : Response :=
    unreadable 400 ("Invalid URL: Invalid UTF-8 in `" ++ part ++ "`")
  if req.method ∉ objectMethods then .error (.bare 405)
  else
    match Percent.decodeText? bucket, Percent.decodeText? key with
    | none, _ => .error (misspelt "bucket")
    | some _, none => .error (misspelt "key")
    | some bucket, some key =>
      if Fits req then .ok (requestFor req ⟨bucket, key⟩)
      else .error (unreadable 413 "Failed to buffer the request body: length limit exceeded")

/-- Why the policy refuses a request, if it does. -/
def refusal? (access : AccessControl) (req : Request) : Option RequestFailure :=
  if !access.enabled then none
  else
    match bucketOfPath? req.path with
    | none => some .noBucket
    | some bucket =>
      if access.policy.allows bucket req.method then none else some (.denied req.method bucket)

/-- The size that a request tells of its body. -/
def toldSize? (req : Request) : Option Nat :=
  (req.headers.textOf? "content-length").bind (Text.Numeral.read? UInt64.size)

/-- The line of the log for a request and its response. -/
def event (req : Request) (r : Response) : Event where
  method := req.method
  path := req.path
  status := r.status
  size := r.size
  cache := r.cache
  agent := ((req.headers.textOf? "user-agent").map String.ofList).getD ""
  gzip := r.isGzip

/-- Counts and logs the response to an object request. -/
def record (svc : Service) (req : Request) (r : Response) : Service :=
  { svc with
    metrics := svc.metrics.recordResponse r.status r.size r.cache
      ((bucketOfPath? req.path).map fun bucket => (bucket, req.method))
    log := svc.log ++ [event req r] }

/-- The response to an object request as it leaves the server. -/
def dress (req : Request) (r : Response) : Response :=
  let known := if req.method ∈ objectMethods then r else withAllow objectMethods r
  let told := known.withLength
  withOrigins (if req.method = "HEAD" then told.withoutBody else told)

/-- Ends an object request. -/
def finish (svc : Service) (req : Request) (r : Response) : Response × Service :=
  (dress req r, record svc req r)

/-- Takes an object request as far as its call. -/
def startObject (svc : Service) (req : Request) (bucket key : String) (m : Moment) :
    Stage × Service :=
  let svc := { svc with metrics := svc.metrics.recordRequest (toldSize? req) }
  let answered (svc : Service) (r : Response) : Stage × Service :=
    let (r, svc) := finish svc req r
    (.done r, svc)
  match refusal? svc.access req with
  | some (.denied method bucket) =>
    answered { svc with metrics := svc.metrics.recordDenial } (.ofFailure (.denied method bucket))
  | some failure => answered svc (.ofFailure failure)
  | none =>
    match objectRequest req bucket key with
    | .error r => answered svc r
    | .ok request =>
      match request.start m svc.cache with
      | (.done outcome, cache) => answered { svc with cache } (.ofOutcome outcome)
      | (.waiting awaiting, cache) => (.waiting awaiting, { svc with cache })

/-! ## Requests for the state of the server -/

/-- Answers a request for the state of the server. -/
def answerState (req : Request) (body : Body) : Response :=
  let r : Response :=
    { Response.bare 200 with headers := [("content-type", "application/json")], body }
  withOrigins
    (if req.method = "GET" then r
    else if req.method = "HEAD" then r.withoutBody
    else withAllow stateMethods (.bare 405))

/-! ## All requests -/

/-- Takes a request as far as its call to the store, if it makes one. -/
def start (svc : Service) (req : Request) (m : Moment) : Stage × Service :=
  let route := Route.ofPath req.path
  if req.method = "OPTIONS" then (.done (preflight route), svc)
  else
    match route with
    | .object bucket key => startObject svc req bucket key m
    | .stats => (.done (answerState req (.report svc.cache.report)), svc)
    | .health => (.done (answerState req (.health m.civil)), svc)
    | .unrouted => (.done (withOrigins (Response.ofFailure (unroutedFailure req.path)).withLength), svc)

/-- Goes on with an object request from the outcome of its call. -/
def resume (svc : Service) (req : Request) (a : Awaiting) (outcome : a.call.Outcome) (m : Moment) :
    Except Halt (Response × Service) := do
  let finished ← a.resume outcome m svc.cache
  return finish
    { svc with
      cache := finished.cache
      metrics := svc.metrics.recordEvictions finished.evicted }
    req (.ofOutcome finished.outcome)

end Http

end ReadThrough
