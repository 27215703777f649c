import ReadThrough.Http.Service
import ReadThrough.Proofs.Http.Escapes

/-!
# Who is let through, and to what

A policy speaks of the bucket as it is spelt in the path; what a request reaches is the bucket that
the spelling stands for. `admitted?` is the object request that comes of an HTTP request, `Reaches`
says which object it is for.

* `proceeds_of_admitted`, `own_of_not_admitted` — only what is admitted gets to the cache and the
  store; anything else is answered at once
* `objectRequest_eq_ok_iff`, `unread_of_objectRequest` — what is read of a request, and what is
  answered where something cannot be read
* `reaches_iff_allows_spelling` — the policy is asked for the spelling
* `reaches_iff_allows` — where the path spells the bucket as it is, a request whose body is not too
  long reaches an object if and only if the policy lets its method at the object's bucket
* `exists_reaches_of_not_allows` — an escape in the bucket gets a request past a policy that does
  not let it, and is refused by one that does
-/

namespace ReadThrough

/-! ## Policies -/

theorem Text.takeWhile_of_cut? {separator : Char} {cs before after : List Char}
    (h : cut? separator cs = some (before, after)) : cs.takeWhile (· ≠ separator) = before := by
  unfold cut? at h
  split at h
  · cases h
  · exact (Prod.mk.inj (Option.some.inj h)).1

namespace AccessPolicy

theorem ne_empty_of_parseItem {item : List Char} {bucket : String} {permission : Permission}
    (h : parseItem item = .ok (bucket, permission)) : bucket ≠ "" := by
  unfold parseItem at h
  split at h
  · cases h
  · dsimp only at h
    split at h
    · cases h
    · next hbucket =>
      split at h
      · cases h
      · rw [← (Prod.mk.inj (Except.ok.inj h)).1]
        intro hempty
        exact hbucket (by simpa using congrArg String.toList hempty)

/-- No policy speaks of a bucket without a name. -/
theorem permission?_parse_empty (list : String) : (parse list).permission? "" = none := by
  rw [permission?, parse, Table.find?_ofRows, List.lookup_eq_none_iff]
  rintro ⟨bucket, permission⟩ hrow
  rw [List.mem_reverse, List.mem_filterMap] at hrow
  obtain ⟨item, -, hitem⟩ := hrow
  cases hparsed : parseItem item with
  | error fault => simp [hparsed, Except.toOption] at hitem
  | ok row =>
    simp only [hparsed, Except.toOption, Option.some.injEq] at hitem
    subst hitem
    simpa using (ne_empty_of_parseItem hparsed).symm

theorem allows_parse_empty (list method : String) : (parse list).allows "" method = false := by
  rw [allows, permission?_parse_empty]

end AccessPolicy

namespace Http

/-! ## Paths -/

/-- The bucket that policies speak of is the one of the route. -/
theorem bucketOfPath?_of_route {path bucket key : String}
    (h : Route.ofPath path = .object bucket key) :
    bucketOfPath? path = if bucket = "" then none else some bucket := by
  unfold Route.ofPath at h
  split at h
  · cases h
  · split at h
    · cases h
    · split at h
      · next before after hcut =>
        split at h
        · cases h
        · obtain ⟨rest, hrest, hcut⟩ := Option.bind_eq_some_iff.1 hcut
          obtain ⟨rfl, -⟩ := Route.object.inj h
          simp only [bucketOfPath?, hrest, Text.takeWhile_of_cut? hcut, String.ofList_eq_empty_iff]
      · cases h

/-- The path leads to the object, once its escapes are replaced. -/
def Names (path : String) (id : ObjectId) : Prop :=
  ∃ bucket key, Route.ofPath path = .object bucket key ∧
    Percent.decodeText? bucket = some id.bucket ∧ Percent.decodeText? key = some id.key

/-- The path spells the bucket as it is. -/
def Spells (path bucket : String) : Prop :=
  ∃ key, Route.ofPath path = .object bucket key

variable {path bucket key : String} {id other : ObjectId}

theorem Names.decodeText?_eq (h : Names path id) (hroute : Route.ofPath path = .object bucket key) :
    Percent.decodeText? bucket = some id.bucket ∧ Percent.decodeText? key = some id.key := by
  obtain ⟨bucket', key', hroute', hdecoded⟩ := h
  rw [hroute] at hroute'
  obtain ⟨rfl, rfl⟩ := Route.object.inj hroute'
  exact hdecoded

/-- A path leads to one object at most. -/
theorem Names.unique (h : Names path id) (hother : Names path other) : other = id := by
  obtain ⟨bucket, key, hroute, hbucket, hkey⟩ := hother
  obtain ⟨hbucket', hkey'⟩ := h.decodeText?_eq hroute
  rw [hbucket, Option.some.injEq] at hbucket'
  rw [hkey, Option.some.injEq] at hkey'
  obtain ⟨ibucket, ikey⟩ := id
  obtain ⟨obucket, okey⟩ := other
  rw [ObjectId.mk.injEq]
  exact ⟨hbucket', hkey'⟩

/-- A bucket without a percent sign is spelt as it is. -/
theorem Names.spells (h : Names path id) (hroute : Route.ofPath path = .object bucket key)
    (hplain : '%' ∉ bucket.toList) : Spells path id.bucket := by
  have hbucket := (h.decodeText?_eq hroute).1
  rw [Percent.decodeText?_of_not_mem hplain] at hbucket
  exact ⟨key, Option.some.inj hbucket ▸ hroute⟩

/-! ## What comes of a request -/

/-- The object request that comes of a request, unless it is refused or cannot be read. -/
def admitted? (access : AccessControl) (req : Request) : Option ObjectRequest :=
  match Route.ofPath req.path, refusal? access req with
  | .object bucket key, none =>
    match objectRequest req bucket key with
    | .ok r => some r
    | .error _ => none
  | _, _ => none

/-- The server goes as far as the object request does. -/
def Proceeds (svc : Service) (req : Request) (m : Moment) (r : ObjectRequest) : Prop :=
  (start svc req m).2.cache = (r.start m svc.cache).2 ∧
    (start svc req m).1 =
      match (r.start m svc.cache).1 with
      | .done outcome => .done (dress req (.ofOutcome outcome))
      | .waiting awaiting => .waiting awaiting

/-- The server answers of its own. -/
def Stops (svc : Service) (req : Request) (m : Moment) : Prop :=
  (start svc req m).2.cache = svc.cache ∧ ∃ response, (start svc req m).1 = .done response

/-- A request for the object is made to the cache and the store. -/
def Reaches (svc : Service) (req : Request) (m : Moment) (id : ObjectId) : Prop :=
  ∃ r, admitted? svc.access req = some r ∧ r.id = id ∧ Proceeds svc req m r

variable {access : AccessControl} {req : Request} {r : ObjectRequest}

/-- The request makes the object request: all that is read for it can be read. -/
structure Makes (req : Request) (bucket key : String) (r : ObjectRequest) : Prop where
  method : req.method ∈ objectMethods
  bucket_eq : Percent.decodeText? bucket = some r.id.bucket
  key_eq : Percent.decodeText? key = some r.id.key
  fits : Fits req
  request_eq : r = requestFor req r.id

/-- The object request is what the method of the request asks for. -/
inductive Asks (req : Request) : ObjectRequest → Prop where
  | get (h : req.method = "GET") (id : ObjectId) : Asks req (.get id (.ofHeaders req.headers))
  | put (h : req.method = "PUT") (id : ObjectId) :
    Asks req (.put id (.ofHeaders req.headers) req.body)
  | delete (h : req.method = "DELETE") (id : ObjectId) : Asks req (.delete id)
  | head (h : req.method = "HEAD") (id : ObjectId) : Asks req (.head id)

/-- The response to a request for an object, where something cannot be read. -/
inductive Unread (req : Request) : Response → Prop where
  | method (h : req.method ∉ objectMethods) : Unread req (.bare 405)
  | name (complaint : String) : Unread req (unreadable 400 complaint)
  | body (h : ¬ Fits req) (complaint : String) : Unread req (unreadable 413 complaint)

theorem id_requestFor (req : Request) (id : ObjectId) : (requestFor req id).id = id := by
  unfold requestFor
  dsimp only
  split
  · rfl
  · split
    · rfl
    · split <;> rfl

theorem objectRequest_eq_ok_iff :
    objectRequest req bucket key = .ok r ↔ Makes req bucket key r := by
  constructor
  · intro h
    unfold objectRequest at h
    split at h
    · cases h
    · next hmethod =>
      split at h
      · cases h
      · cases h
      · next name rest hbucket hkey =>
        split at h
        · next hfits =>
          obtain rfl := Except.ok.inj h
          exact ⟨Decidable.not_not.1 hmethod, by rw [id_requestFor, hbucket],
            by rw [id_requestFor, hkey], hfits, by rw [id_requestFor]⟩
        · cases h
  · rintro ⟨hmethod, hbucket, hkey, hfits, hrequest⟩
    unfold objectRequest
    simp only [hmethod, not_true_eq_false, if_false, hbucket, hkey, if_pos hfits]
    exact congrArg Except.ok hrequest.symm

theorem unread_of_objectRequest {response : Response}
    (h : objectRequest req bucket key = .error response) : Unread req response := by
  unfold objectRequest at h
  split at h
  · next hmethod =>
    obtain rfl := Except.error.inj h
    exact .method hmethod
  · split at h
    · obtain rfl := Except.error.inj h
      exact .name _
    · obtain rfl := Except.error.inj h
      exact .name _
    · split at h
      · cases h
      · next hlong =>
        obtain rfl := Except.error.inj h
        exact .body hlong _

theorem requestFor_of_get (hget : req.method = "GET") (id : ObjectId) :
    requestFor req id = .get id (.ofHeaders req.headers) :=
  if_pos hget

theorem requestFor_of_put (hput : req.method = "PUT") (id : ObjectId) :
    requestFor req id = .put id (.ofHeaders req.headers) req.body := by
  simp [requestFor, hput]

theorem asks_requestFor (hmethod : req.method ∈ objectMethods) (id : ObjectId) :
    Asks req (requestFor req id) := by
  simp only [objectMethods, List.mem_cons, List.not_mem_nil, or_false] at hmethod
  rcases hmethod with hget | hhead | hput | hdelete
  · rw [requestFor_of_get hget]
    exact .get hget id
  · have hmakes : requestFor req id = .head id := by simp [requestFor, hhead]
    rw [hmakes]
    exact .head hhead id
  · rw [requestFor_of_put hput]
    exact .put hput id
  · have hmakes : requestFor req id = .delete id := by simp [requestFor, hdelete]
    rw [hmakes]
    exact .delete hdelete id

theorem Makes.asks (h : Makes req bucket key r) : Asks req r := by
  rw [h.request_eq]
  exact asks_requestFor h.method r.id

theorem fits_of_ne_put (hput : req.method ≠ "PUT") : Fits req := fun h => absurd h hput

theorem admitted?_eq_some_iff :
    admitted? access req = some r ↔ ∃ bucket key, Route.ofPath req.path = .object bucket key ∧
      refusal? access req = none ∧ Makes req bucket key r := by
  unfold admitted?
  constructor
  · intro h
    split at h
    · next bucket key hroute hrefusal =>
      split at h
      · next hread =>
        obtain rfl := Option.some.inj h
        exact ⟨bucket, key, hroute, hrefusal, objectRequest_eq_ok_iff.1 hread⟩
      · cases h
    · cases h
  · rintro ⟨bucket, key, hroute, hrefusal, hmakes⟩
    simp only [hroute, hrefusal, objectRequest_eq_ok_iff.2 hmakes]

theorem mem_objectMethods_of_get (hget : req.method = "GET") : req.method ∈ objectMethods := by
  rw [hget]
  decide

theorem mem_objectMethods_of_put (hput : req.method = "PUT") : req.method ∈ objectMethods := by
  rw [hput]
  decide

theorem ne_options_of_mem {method : String} (h : method ∈ objectMethods) : method ≠ "OPTIONS" := by
  rintro rfl
  exact absurd h (by decide)

theorem proceeds_of_admitted {svc : Service} (h : admitted? svc.access req = some r) (m : Moment) :
    Proceeds svc req m r := by
  obtain ⟨bucket, key, hroute, hrefusal, hmakes⟩ := admitted?_eq_some_iff.1 h
  -- a question for the methods never gets here, for it asks with a method that objects do not know
  have hmethod := ne_options_of_mem hmakes.method
  unfold Proceeds start
  simp only [if_neg hmethod, hroute]
  unfold startObject
  simp only [hrefusal, objectRequest_eq_ok_iff.2 hmakes]
  obtain ⟨progress, cache⟩ := r.start m svc.cache
  cases progress with
  | done outcome => exact ⟨rfl, rfl⟩
  | waiting awaiting => exact ⟨rfl, rfl⟩

/-- A response that the server gives of its own, where no object request comes of a request. -/
inductive Own (access : AccessControl) (req : Request) : Response → Prop where
  | methods (h : req.method = "OPTIONS") : Own access req (preflight (Route.ofPath req.path))
  | state (hroute : ∀ bucket key, Route.ofPath req.path ≠ .object bucket key) (body : Body) :
    Own access req (answerState req body)
  | unrouted (hroute : Route.ofPath req.path = .unrouted) :
    Own access req (withOrigins (Response.ofFailure (unroutedFailure req.path)).withLength)
  | refused {failure : RequestFailure} (h : refusal? access req = some failure) :
    Own access req (dress req (.ofFailure failure))
  | unread {response : Response} (h : Unread req response) : Own access req (dress req response)

theorem own_of_not_admitted {svc : Service} (h : admitted? svc.access req = none) (m : Moment) :
    ∃ response svc', start svc req m = (.done response, svc') ∧ svc'.cache = svc.cache ∧
      Own svc.access req response := by
  unfold start
  split
  · next hmethod => exact ⟨_, _, rfl, rfl, .methods hmethod⟩
  · dsimp only
    cases hroute : Route.ofPath req.path with
    | stats | health => exact ⟨_, _, rfl, rfl, .state (by simp [hroute]) _⟩
    | unrouted => exact ⟨_, _, rfl, rfl, .unrouted hroute⟩
    | object bucket key =>
      unfold startObject
      dsimp only
      split
      · next hrefusal => exact ⟨_, _, rfl, rfl, .refused hrefusal⟩
      · next hrefusal => exact ⟨_, _, rfl, rfl, .refused hrefusal⟩
      · next hrefusal =>
        split
        · next hread => exact ⟨_, _, rfl, rfl, .unread (unread_of_objectRequest hread)⟩
        · next r hread =>
          have hadmitted := admitted?_eq_some_iff.2
            ⟨bucket, key, hroute, hrefusal, objectRequest_eq_ok_iff.1 hread⟩
          rw [h] at hadmitted
          cases hadmitted

theorem stops_of_not_admitted {svc : Service} (h : admitted? svc.access req = none) (m : Moment) :
    Stops svc req m := by
  obtain ⟨response, svc', hstart, hcache, -⟩ := own_of_not_admitted h m
  unfold Stops
  rw [hstart]
  exact ⟨hcache, response, rfl⟩

/-! ## The bucket that is asked for and the bucket that is reached -/

/-- What is admitted is for the object that the path leads to. -/
theorem names_of_admitted (hadmitted : admitted? access req = some r) : Names req.path r.id := by
  obtain ⟨bucket, key, hroute, -, hmakes⟩ := admitted?_eq_some_iff.1 hadmitted
  exact ⟨bucket, key, hroute, hmakes.bucket_eq, hmakes.key_eq⟩

/-- The object request of a request that leads to an object, is let and can be read. -/
theorem admitted?_of_names (hmethod : req.method ∈ objectMethods) (hnames : Names req.path id)
    (hfits : Fits req) (hallowed : refusal? access req = none) :
    admitted? access req = some (requestFor req id) := by
  obtain ⟨bucket, key, hroute, hbucket, hkey⟩ := hnames
  have hid := id_requestFor req id
  refine admitted?_eq_some_iff.2 ⟨bucket, key, hroute, hallowed, hmethod, ?_, ?_, hfits, ?_⟩
  · rw [hid, hbucket]
  · rw [hid, hkey]
  · rw [hid]

/-- The object that a request reaches is the one that its path leads to. -/
theorem Reaches.names {svc : Service} {m : Moment} (h : Reaches svc req m id) :
    Names req.path id := by
  obtain ⟨r, hadmitted, rfl, -⟩ := h
  exact names_of_admitted hadmitted

/-- Whatever the path spells, the policy is asked for the spelling. -/
theorem refusal?_eq {list : String}
    (hroute : Route.ofPath req.path = .object bucket key) :
    refusal? ⟨.parse list, true⟩ req =
      if bucket = "" then some .noBucket
      else if (AccessPolicy.parse list).allows bucket req.method then none
      else some (.denied req.method bucket) := by
  rw [refusal?, bucketOfPath?_of_route hroute]
  by_cases hbucket : bucket = "" <;> simp [hbucket]

theorem refusal?_eq_none_iff {list : String}
    (hroute : Route.ofPath req.path = .object bucket key) :
    refusal? ⟨.parse list, true⟩ req = none ↔
      (AccessPolicy.parse list).allows bucket req.method = true := by
  rw [refusal?_eq hroute]
  by_cases hbucket : bucket = ""
  · simp [hbucket, AccessPolicy.allows_parse_empty]
  · simp [hbucket]

theorem Reaches.eq {svc : Service} {m : Moment} (h : Reaches svc req m other)
    (hnames : Names req.path id) : other = id :=
  hnames.unique h.names

/--
A request gets to the object of its path if the policy lets its method at the spelling, and its body
is not too long to be read.
-/
theorem reaches_iff_allows_spelling {svc : Service} {list : String}
    (haccess : svc.access = ⟨.parse list, true⟩) (hmethod : req.method ∈ objectMethods)
    (hnames : Names req.path id) (hroute : Route.ofPath req.path = .object bucket key)
    (m : Moment) :
    Reaches svc req m id ↔
      (AccessPolicy.parse list).allows bucket req.method = true ∧ Fits req := by
  rw [← refusal?_eq_none_iff hroute, ← haccess]
  constructor
  · rintro ⟨r, hadmitted, -⟩
    obtain ⟨_, _, -, hrefusal, hmakes⟩ := admitted?_eq_some_iff.1 hadmitted
    exact ⟨hrefusal, hmakes.fits⟩
  · rintro ⟨hrefusal, hfits⟩
    -- what the path names can be read, so nothing else stands in the way
    have hadmitted := admitted?_of_names hmethod hnames hfits hrefusal
    exact ⟨_, hadmitted, id_requestFor req id, proceeds_of_admitted hadmitted m⟩

/-- A request to write an object with one octet. -/
def knock (path : String) : Request where
  method := "PUT"
  path := path
  headers := []
  body := Bytes.ofText "x"

/-- An empty server under a policy. -/
def guarded (list : String) : Service :=
  .make (.empty 100 5 ⟨100⟩) ⟨.parse list, true⟩

/--
**Where the bucket is spelt as it is, the bucket that is let is the bucket that is reached.** Under
a policy, a request whose path leads to an object and spells its bucket reaches that object if and
only if the policy lets its method at that bucket, and its body, if it is to be written, has no more
than `bodyLimit` octets. It reaches no other. A request that does not reach it stops short of the
cache and the store. All paths that lead to the object and spell its bucket are decided alike.
-/
theorem reaches_iff_allows {svc : Service} {list : String}
    (haccess : svc.access = ⟨.parse list, true⟩) (hmethod : req.method ∈ objectMethods)
    (hnames : Names req.path id) (hspells : Spells req.path id.bucket) (m : Moment) :
    (Reaches svc req m id ↔
        (AccessPolicy.parse list).allows id.bucket req.method = true ∧ Fits req) ∧
      (∀ other, Reaches svc req m other → other = id) ∧
      (¬ Reaches svc req m id → Stops svc req m) ∧
      ∀ req' : Request, req'.method = req.method → Names req'.path id →
        Spells req'.path id.bucket → refusal? svc.access req' = refusal? svc.access req := by
  obtain ⟨key, hroute⟩ := hspells
  refine ⟨reaches_iff_allows_spelling haccess hmethod hnames hroute m,
    fun other hother => hother.eq hnames, ?_, ?_⟩
  · intro hnot
    cases hadmitted : admitted? svc.access req with
    | none => exact stops_of_not_admitted hadmitted m
    | some r =>
      have hreaches : Reaches svc req m r.id :=
        ⟨r, hadmitted, rfl, proceeds_of_admitted hadmitted m⟩
      have hid := hreaches.eq hnames
      exact absurd (hid ▸ hreaches) hnot
  · rintro req' hsame - ⟨key', hroute'⟩
    rw [haccess, refusal?_eq hroute, refusal?_eq hroute', hsame]

/-- The theorem at work: one bucket is open for writing, an escape in the key does no harm. -/
theorem reaches_iff_allows_knock :
    Reaches (guarded "b:write") (knock "/objects/b/k%2F1") (.at ⟨0⟩ ⟨0, 0⟩) ⟨"b", "k/1"⟩ ∧
      Stops (guarded "b:read") (knock "/objects/b/k%2F1") (.at ⟨0⟩ ⟨0, 0⟩) := by
  have hroute : Route.ofPath (knock "/objects/b/k%2F1").path = .object "b" "k%2F1" := by
    decide +kernel
  have hnames : Names (knock "/objects/b/k%2F1").path ⟨"b", "k/1"⟩ :=
    ⟨"b", "k%2F1", hroute, by decide +kernel⟩
  have hspells := hnames.spells hroute (by decide)
  have hmethod : (knock "/objects/b/k%2F1").method ∈ objectMethods := by decide
  have hwriting : (guarded "b:write").access = ⟨.parse "b:write", true⟩ := rfl
  have hreading : (guarded "b:read").access = ⟨.parse "b:read", true⟩ := rfl
  obtain ⟨hreaches, -⟩ := reaches_iff_allows hwriting hmethod hnames hspells (.at ⟨0⟩ ⟨0, 0⟩)
  obtain ⟨hshut, -, hstops, -⟩ :=
    reaches_iff_allows hreading hmethod hnames hspells (.at ⟨0⟩ ⟨0, 0⟩)
  constructor
  · exact hreaches.2 (by decide +kernel)
  · refine hstops fun hreached => ?_
    exact absurd (hshut.1 hreached).1 (by decide +kernel)

/--
**An escape in the bucket parts the bucket that is let from the bucket that is reached.** The bucket
`b` is spelt with an escape. A policy that opens the spelling lets the request through to `b`, which
it leaves closed. A policy that opens `b` refuses the request, and lets it where `b` is spelt as it
is.
-/
theorem exists_reaches_of_not_allows :
    ∃ path plain id m, Names path id ∧ Names plain id ∧
      Reaches (guarded "%62:all") (knock path) m id ∧
      (AccessPolicy.parse "%62:all").allows id.bucket "PUT" = false ∧
      ¬ Reaches (guarded "b:all") (knock path) m id ∧
      (AccessPolicy.parse "b:all").allows id.bucket "PUT" = true ∧
      refusal? (guarded "b:all").access (knock path) = some (.denied "PUT" "%62") ∧
      refusal? (guarded "b:all").access (knock plain) = none := by
  have hroute : Route.ofPath (knock "/objects/%62/k").path = .object "%62" "k" := by
    decide +kernel
  have hnames : Names (knock "/objects/%62/k").path ⟨"b", "k"⟩ :=
    ⟨"%62", "k", hroute, by decide +kernel⟩
  have hplain : Names (knock "/objects/b/k").path ⟨"b", "k"⟩ := ⟨"b", "k", by decide +kernel⟩
  have hmethod : (knock "/objects/%62/k").method ∈ objectMethods := by decide
  refine ⟨"/objects/%62/k", "/objects/b/k", ⟨"b", "k"⟩, .at ⟨0⟩ ⟨0, 0⟩, hnames, hplain, ?_,
    by decide +kernel, ?_, by decide +kernel, by decide +kernel, by decide +kernel⟩
  · rw [reaches_iff_allows_spelling rfl hmethod hnames hroute]
    decide +kernel
  · rw [reaches_iff_allows_spelling rfl hmethod hnames hroute]
    decide +kernel

end Http

end ReadThrough
