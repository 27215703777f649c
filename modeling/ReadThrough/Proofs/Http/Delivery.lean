import ReadThrough.Proofs.Http.Fields
import ReadThrough.Proofs.Http.Site

/-!
# What is written is read

An object that a request has written is delivered to whoever asks for it: with its type and its
length, and as a body that is the content or decodes to it. Requests for other objects, reads,
sweeps, evictions and the end of lifetimes in between change nothing of that.

* `exists_serve_eq_put` — a write that is answered with success leaves the content in the store
* `exists_serve_eq_get` — a read of what the store holds carries it
* `Site.tells_written` — the two, with a run in between
-/

namespace ReadThrough.Http

open Backend

/-! ## What a write brings -/

/-- The body is declared to be compressed; the case of letters does not count. -/
def DeclaresGzip (headers : Headers) : Prop :=
  ∃ coding, headers.trimmed? "content-encoding" = some coding ∧
    Text.sameFolded coding gzipCoding = true

/-- The type that a request declares of its body, or the one of contents without. -/
def declaredType (headers : Headers) : String :=
  ((headers.trimmed? "content-type").map String.ofList).getD defaultContentType

/-- The content that a request brings: its body, or what that decodes to. -/
def Brings (req : Request) (content : Bytes) : Prop :=
  (DeclaresGzip req.headers → Gzip.decompress req.body = .ok content) ∧
    (¬ DeclaresGzip req.headers → content = req.body)

theorem bodyIsGzip_ofHeaders_iff {headers : Headers} :
    (RequestInfo.ofHeaders headers).bodyIsGzip = true ↔ DeclaresGzip headers := by
  unfold RequestInfo.bodyIsGzip RequestInfo.ofHeaders DeclaresGzip
  cases headers.trimmed? "content-encoding" with
  | none => simp
  | some coding => simp

theorem brings_of_contentOf {req : Request} {content : Bytes}
    (h : ObjectRequest.contentOf (.ofHeaders req.headers) req.body = .ok content) :
    Brings req content := by
  unfold ObjectRequest.contentOf at h
  split at h
  · next hgzip => exact ⟨fun _ => h, fun hnot => absurd (bodyIsGzip_ofHeaders_iff.1 hgzip) hnot⟩
  · next hplain =>
    refine ⟨fun hgzip => absurd (bodyIsGzip_ofHeaders_iff.2 hgzip) hplain, fun _ => ?_⟩
    exact (Except.ok.inj h).symm

/-- Every declared type can be sent, and so can the one of contents without. -/
theorem sendable_declaredType (headers : Headers) : Sendable (declaredType headers).toList := by
  unfold declaredType
  cases htype : headers.trimmed? "content-type" with
  | none =>
    unfold Sendable
    decide +kernel
  | some text =>
    have hsendable := sendable_of_trimmed? htype
    simpa using hsendable

/-! ## One request -/

section serve

variable {objects : ObjectId → Prop} {ttl : Nat} {policy : CompressionPolicy} {s : Site}
  {x : Exchange} {id : ObjectId} {access : AccessControl} {req : Request}

theorem admitted?_of_get (hget : req.method = "GET") (hnames : Names req.path id)
    (hallowed : refusal? access req = none) :
    admitted? access req = some (.get id (.ofHeaders req.headers)) := by
  have hput : req.method ≠ "PUT" := by
    rw [hget]
    decide
  rw [← requestFor_of_get hget]
  exact admitted?_of_names (mem_objectMethods_of_get hget) hnames (fits_of_ne_put hput) hallowed

/-- A write that succeeds leaves what it brought. -/
theorem stored_of_direct_put {info : RequestInfo} {body : Bytes} {now : Time} {memory : Memory}
    {r : ObjectResponse}
    (h : ((ObjectRequest.put id info body).direct policy now memory).1 = .ok r) :
    ObjectRequest.named id = true ∧ ∃ content, ObjectRequest.contentOf info body = .ok content ∧
      ((ObjectRequest.put id info body).direct policy now memory).2.find? id =
        some (Memory.objectOf content (info.contentType.getD defaultContentType) now) := by
  have hnamed : ObjectRequest.named id = true := by
    rw [← Bool.not_eq_false]
    intro hunnamed
    simp [ObjectRequest.direct, ObjectRequest.id, hunnamed] at h
  cases hcontent : ObjectRequest.contentOf info body with
  | error fault => simp [ObjectRequest.direct, ObjectRequest.id, hnamed, hcontent] at h
  | ok content =>
    have hmemory : ((ObjectRequest.put id info body).direct policy now memory).2 = memory.place id
        (Memory.objectOf content (info.contentType.getD defaultContentType) now) := by
      simp [ObjectRequest.direct, ObjectRequest.id, hnamed, hcontent, Memory.perform]
    rw [hmemory]
    exact ⟨hnamed, content, rfl, memory.find?_place_self id _⟩

/-- The policy has let what is answered with success. -/
theorem refusal?_eq_none_of_status (hmethod : x.request.method ∈ objectMethods)
    (hnames : Names x.request.path id) {answer : Response} {s' : Site}
    (hserve : s.serve x = .ok (answer, s')) (hstatus : answer.status = 200) :
    refusal? s.service.access x.request = none := by
  obtain ⟨bucket, key, hroute, -⟩ := hnames
  cases hrefusal : refusal? s.service.access x.request with
  | none => rfl
  | some failure =>
    obtain ⟨s'', hrefused, -⟩ := serve_of_refusal (ne_options_of_mem hmethod) hroute hrefusal
    rw [hserve] at hrefused
    obtain ⟨rfl, -⟩ := Prod.mk.inj (Except.ok.inj hrefused)
    rw [status_dress] at hstatus
    exact absurd hstatus (status_ofFailure_ne failure)

/-- What cannot be read is not answered with success. -/
theorem Unread.status_ne {answer : Response} (h : Unread req answer) : answer.status ≠ 200 := by
  cases h with
  | method => exact (by decide : 405 ≠ 200)
  | name => exact (by decide : 400 ≠ 200)
  | body => exact (by decide : 413 ≠ 200)

/-- The server answers no write with success of its own. -/
theorem Own.status_ne {answer : Response} (h : Own access req answer) (hput : req.method = "PUT") :
    answer.status ≠ 200 := by
  cases h with
  | methods hmethod => exact absurd hmethod (ne_options_of_mem (mem_objectMethods_of_put hput))
  | state hroute body =>
    have hknown : (answerState req body).status = 405 := by
      unfold answerState
      rw [hput]
      rfl
    rw [hknown]
    decide
  | unrouted =>
    have hstatus := status_ofFailure_ne (unroutedFailure req.path)
    rwa [← status_withLength] at hstatus
  | refused =>
    rw [status_dress]
    exact status_ofFailure_ne _
  | unread hunread =>
    rw [status_dress]
    exact hunread.status_ne

/-- A write that is answered with success was let, and could be read. -/
theorem exists_admitted?_of_status (hput : x.request.method = "PUT") {answer : Response} {s' : Site}
    (hserve : s.serve x = .ok (answer, s')) (hstatus : answer.status = 200) :
    ∃ id, Names x.request.path id ∧ Fits x.request ∧ admitted? s.service.access x.request =
      some (.put id (.ofHeaders x.request.headers) x.request.body) := by
  cases hadmitted : admitted? s.service.access x.request with
  | none =>
    obtain ⟨response, svc, hstart, -, hown⟩ := own_of_not_admitted hadmitted x.before
    unfold Site.serve at hserve
    rw [hstart] at hserve
    obtain ⟨rfl, -⟩ := Prod.mk.inj (Except.ok.inj hserve)
    exact absurd hstatus (hown.status_ne hput)
  | some r =>
    obtain ⟨_, _, -, -, hmakes⟩ := admitted?_eq_some_iff.1 hadmitted
    refine ⟨r.id, names_of_admitted hadmitted, hmakes.fits, ?_⟩
    rw [← requestFor_of_put hput, ← hmakes.request_eq]

/-- A write over HTTP that was answered with success has left what it brought. -/
theorem stored_of_serve_put (hkeys : SeparateKeys objects)
    (h : s.session.Faithful objects ttl policy) (hid : objects id)
    (hput : x.request.method = "PUT") (hnames : Names x.request.path id) {answer : Response}
    {s' : Site} (hserve : s.serve x = .ok (answer, s')) (hstatus : answer.status = 200) :
    ObjectRequest.named id = true ∧ ∃ content, Brings x.request content ∧
      s'.memory.find? id =
        some (Memory.objectOf content (declaredType x.request.headers) x.during) := by
  obtain ⟨other, hother, -, hadmitted⟩ := exists_admitted?_of_status hput hserve hstatus
  rw [hnames.unique hother] at hadmitted
  obtain ⟨outcome, rfl, -, -, hanswer, hmemory⟩ := alike_of_serve_eq_ok hkeys h hadmitted hid hserve
  rw [status_dress] at hstatus
  cases outcome with
  | error failure => exact absurd hstatus (status_ofFailure_ne failure)
  | ok r =>
    cases hdirect : ((ObjectRequest.put id (.ofHeaders x.request.headers) x.request.body).direct
        policy x.during s.memory).1 with
    | error failure =>
      rw [hdirect] at hanswer
      cases hanswer
    | ok r' =>
      obtain ⟨hnamed, content, hcontent, hfound⟩ := stored_of_direct_put hdirect
      rw [← hmemory] at hfound
      exact ⟨hnamed, content, brings_of_contentOf hcontent, hfound⟩

/-- A write over HTTP that is answered with success leaves what it brought. -/
theorem exists_serve_eq_put (hkeys : SeparateKeys objects)
    (h : s.session.Faithful objects ttl policy)
    (hx : (Site.Event.exchange x).Admissible objects ttl) (hput : x.request.method = "PUT")
    (hnames : Names x.request.path id) :
    ∃ answer s', s.serve x = .ok (answer, s') ∧ s'.session.Faithful objects ttl policy ∧
      s'.service.access = s.service.access ∧
      (answer.status = 200 → ObjectRequest.named id = true ∧
        ∃ content, Brings x.request content ∧ s'.memory.find? id =
          some (Memory.objectOf content (declaredType x.request.headers) x.during)) := by
  obtain ⟨answer, s', hserve, hfaithful, haccess, -⟩ := exists_serve_eq_of_faithful hkeys h hx
  exact ⟨answer, s', hserve, hfaithful, haccess,
    stored_of_serve_put hkeys h (hx.1 id hnames) hput hnames hserve⟩

/-- A read over HTTP of what the store holds has carried it, once it was let and answered. -/
theorem carries_of_serve_get (hkeys : SeparateKeys objects)
    (h : s.session.Faithful objects ttl policy) (hid : objects id)
    (hget : x.request.method = "GET") (hnames : Names x.request.path id)
    (hallowed : refusal? s.service.access x.request = none)
    (hnamed : ObjectRequest.named id = true) {object : StoredObject}
    (hobject : s.memory.find? id = some object) {answer : Response} {s' : Site}
    (hserve : s.serve x = .ok (answer, s')) :
    ∃ r, answer = dress x.request (.ofObject r) ∧
      r.Carries policy object (RequestInfo.ofHeaders x.request.headers).acceptsGzip := by
  have hadmitted := admitted?_of_get hget hnames hallowed
  obtain ⟨outcome, rfl, -, -, hanswer, -⟩ := alike_of_serve_eq_ok hkeys h hadmitted hid hserve
  have hdirect : ((ObjectRequest.get id (.ofHeaders x.request.headers)).direct policy x.during
      s.memory).1 = .ok (Awaiting.answerFromFetch policy object.content object.metadata
        (RequestInfo.ofHeaders x.request.headers).acceptsGzip) := by
    simp [ObjectRequest.direct, ObjectRequest.id, hnamed, Memory.perform, hobject]
  rw [hdirect] at hanswer
  cases outcome with
  | error failure => cases hanswer
  | ok r =>
    have hsame := Except.ok.inj hanswer
    exact ⟨r, rfl, (carries_answerFromFetch policy object _).of_unmarked_eq hsame⟩

/-- A read over HTTP of what the store holds carries it. -/
theorem exists_serve_eq_get (hkeys : SeparateKeys objects)
    (h : s.session.Faithful objects ttl policy)
    (hx : (Site.Event.exchange x).Admissible objects ttl) (hget : x.request.method = "GET")
    (hnames : Names x.request.path id) (hallowed : refusal? s.service.access x.request = none)
    (hnamed : ObjectRequest.named id = true) {object : StoredObject}
    (hobject : s.memory.find? id = some object) :
    ∃ r s', s.serve x = .ok (dress x.request (.ofObject r), s') ∧
      r.Carries policy object (RequestInfo.ofHeaders x.request.headers).acceptsGzip := by
  obtain ⟨answer, s', hserve, -⟩ := exists_serve_eq_of_faithful hkeys h hx
  obtain ⟨r, rfl, hcarries⟩ :=
    carries_of_serve_get hkeys h (hx.1 id hnames) hget hnames hallowed hnamed hobject hserve
  exact ⟨r, s', hserve, hcarries⟩

end serve

/-! ## A write, a run and a read -/

namespace Site

/-- Some of the requests lead to the object. -/
def Named (events : List Event) (id : ObjectId) : Prop :=
  ∃ x, .exchange x ∈ events ∧ Names x.request.path id

/-- The clock can go on after each of the requests. -/
def Ticks (ttl : Nat) (events : List Event) : Prop :=
  ∀ x, .exchange x ∈ events → x.after.now.nanos + ttl < Instant.limit

theorem admissible_of_mem {events : List Event} {ttl : Nat} (hclock : Ticks ttl events)
    {event : Event} (hevent : event ∈ events) : event.Admissible (Named events) ttl := by
  cases event with
  | sweep m => exact trivial
  | exchange x => exact ⟨fun id hnames => ⟨x, hevent, hnames⟩, hclock x hevent⟩

/--
**What is written is read.** On any site that requests and sweeps have led to, a request writes an
object and is answered with success. Then, whatever else happens that is no request to write or to
delete this object, a request for it that is let is answered with success: with the type that was
declared, the length of the body that is sent, and a body that is the content, or a smaller form of
it for those who accept one.
-/
theorem tells_written {before between : List Event} {put get : Exchange} {id : ObjectId}
    (maxSize : UInt64) {ttl : Nat} (policy : CompressionPolicy) {access : AccessControl}
    (hkeys : SeparateKeys (Named (before ++ .exchange put :: (between ++ [.exchange get]))))
    (hclock : Ticks ttl (before ++ .exchange put :: (between ++ [.exchange get])))
    (hput : put.request.method = "PUT") (hputs : Names put.request.path id)
    (hbetween : ∀ event ∈ between, event.Leaves id)
    (hget : get.request.method = "GET") (hgets : Names get.request.path id)
    (hallowed : refusal? access get.request = none) :
    ∃ early s₁ written s₂ late s₃ answer s₄,
      (fresh maxSize ttl policy access).run before = .ok (early, s₁) ∧
      s₁.serve put = .ok (written, s₂) ∧ s₂.run between = .ok (late, s₃) ∧
      s₃.serve get = .ok (answer, s₄) ∧
      (written.status = 200 → ∃ content sent gzip, Brings put.request content ∧
        answer.Tells (declaredType put.request.headers) sent gzip ∧
        Conveys policy (declaredType put.request.headers) content
          (RequestInfo.ofHeaders get.request.headers).acceptsGzip sent gzip) := by
  let events := before ++ .exchange put :: (between ++ [.exchange get])
  have hfirst : ∀ event ∈ before, event.Admissible (Named events) ttl := fun event hevent =>
    admissible_of_mem hclock (by simp [hevent])
  have hnext : ∀ event ∈ between, event.Admissible (Named events) ttl := fun event hevent =>
    admissible_of_mem hclock (by simp [hevent])
  have hwriting : (Event.exchange put).Admissible (Named events) ttl :=
    admissible_of_mem hclock (by simp)
  have hreading : (Event.exchange get).Admissible (Named events) ttl :=
    admissible_of_mem hclock (by simp)
  have hfresh : (fresh maxSize ttl policy access).session.Faithful (Named events) ttl policy :=
    faithful_site_fresh maxSize access
  obtain ⟨early, s₁, hbefore, hfaithful₁, haccess₁, -⟩ :=
    exists_run_eq_of_faithful hkeys hfresh hfirst
  obtain ⟨written, s₂, hwritten, hfaithful₂, haccess₂, hstored⟩ :=
    exists_serve_eq_put hkeys hfaithful₁ hwriting hput hputs
  obtain ⟨late, s₃, hlate, hfaithful₃, haccess₃, hkept⟩ :=
    exists_run_eq_of_faithful hkeys hfaithful₂ hnext
  have haccess : s₃.service.access = access := haccess₃.trans (haccess₂.trans haccess₁)
  obtain ⟨answer, s₄, hanswer, -⟩ := exists_serve_eq_of_faithful hkeys hfaithful₃ hreading
  refine ⟨early, s₁, written, s₂, late, s₃, answer, s₄, hbefore, hwritten, hlate, hanswer, ?_⟩
  intro hstatus
  -- what the store got by the write is there still when the read comes, cached or not
  obtain ⟨hnamed, content, hbrings, hfound⟩ := hstored hstatus
  rw [← hkept id hbetween] at hfound
  rw [← haccess] at hallowed
  obtain ⟨r, s', hserve, hcarries⟩ :=
    exists_serve_eq_get hkeys hfaithful₃ hreading hget hgets hallowed hnamed hfound
  rw [hanswer] at hserve
  obtain ⟨rfl, -⟩ := Prod.mk.inj (Except.ok.inj hserve)
  exact ⟨content, r.body, r.gzip, hbrings,
    tells_ofObject hget hcarries (sendable_declaredType put.request.headers), hcarries.body⟩

/-! ### A small run -/

/-- A request at the first instant. -/
def atOnce (method path : String) (headers : Headers) (body : Bytes) : Exchange :=
  ⟨⟨method, path, headers, body⟩, .at ⟨0⟩ ⟨0, 0⟩, ⟨0, 0⟩, .at ⟨0⟩ ⟨0, 0⟩⟩

/-- An object is written. -/
def earlier : Exchange :=
  atOnce "PUT" "/objects/b/k" [] (Bytes.ofText "old")

/-- The text `hi`, compressed. -/
def packedGreeting : Bytes :=
  [31, 139, 8, 0, 0, 0, 0, 0, 0, 255, 203, 200, 4, 0, 172, 42, 147, 216, 2, 0, 0, 0]

/-- It is written again, in compressed form and with an escape in its key. -/
def upload : Exchange :=
  atOnce "PUT" "/objects/b/%6B"
    [("content-type", Bytes.ofText " text/plain"), ("content-encoding", Bytes.ofText "GZip")]
    packedGreeting

/-- It is read by someone who accepts a compressed body. -/
def download : Exchange :=
  atOnce "GET" "/objects/b/k" [("accept-encoding", Bytes.ofText "gzip")] []

/-- Another object is deleted. -/
def aside : Exchange :=
  atOnce "DELETE" "/objects/b/other" [] []

/-- What happens before the object is read. -/
def meanwhile : List Event :=
  [.exchange download, .sweep (.at ⟨9⟩ ⟨0, 0⟩), .exchange aside]

/-- All that happens. -/
def story : List Event :=
  [.exchange earlier] ++ .exchange upload :: (meanwhile ++ [.exchange download])

theorem mem_story {x : Exchange} (h : .exchange x ∈ story) :
    x = earlier ∨ x = upload ∨ x = download ∨ x = aside := by
  simp only [story, meanwhile, List.cons_append, List.nil_append, List.mem_cons,
    Event.exchange.injEq, reduceCtorEq, List.not_mem_nil, or_false, false_or] at h
  rcases h with h | h | h | h | h <;> simp [h]

theorem bucket_of_names {path bucket key : String} {id : ObjectId} (h : Names path id)
    (hroute : Route.ofPath path = .object bucket key) (hplain : '%' ∉ bucket.toList) :
    id.bucket = bucket := by
  obtain ⟨key', hroute'⟩ := h.spells hroute hplain
  exact (Route.object.inj (hroute'.symm.trans hroute)).1

theorem separateKeys_story : SeparateKeys (Named story) := by
  refine separateKeys_of_plain fun id hnamed => ?_
  have hbucket : id.bucket = "b" := by
    obtain ⟨x, hx, hnames⟩ := hnamed
    have hk : Route.ofPath "/objects/b/k" = .object "b" "k" := by decide +kernel
    rcases mem_story hx with rfl | rfl | rfl | rfl
    · exact bucket_of_names hnames hk (by decide)
    · have hescaped : Route.ofPath "/objects/b/%6B" = .object "b" "%6B" := by decide +kernel
      exact bucket_of_names hnames hescaped (by decide)
    · exact bucket_of_names hnames hk (by decide)
    · have hother : Route.ofPath "/objects/b/other" = .object "b" "other" := by decide +kernel
      exact bucket_of_names hnames hother (by decide)
  rw [hbucket]
  decide

theorem ticks_story : Ticks 5 story := by
  intro x hx
  rcases mem_story hx with rfl | rfl | rfl | rfl <;> decide

theorem leaves_meanwhile : ∀ event ∈ meanwhile, event.Leaves ⟨"b", "k"⟩ := by
  intro event hevent
  simp only [meanwhile, List.mem_cons, List.not_mem_nil, or_false] at hevent
  rcases hevent with rfl | rfl | rfl
  · exact fun _ => by decide
  · exact trivial
  · intro hnames
    have hother : Names aside.request.path ⟨"b", "other"⟩ := ⟨"b", "other", by decide +kernel⟩
    exact absurd (hother.unique hnames) (by decide)

/-- The theorem at work: the object is read and swept in between, and another one deleted. -/
theorem tells_written_upload :
    ∃ early s₁ written s₂ late s₃ answer s₄,
      (fresh 100 5 ⟨0⟩ ⟨.empty, false⟩).run [.exchange earlier] = .ok (early, s₁) ∧
      s₁.serve upload = .ok (written, s₂) ∧ s₂.run meanwhile = .ok (late, s₃) ∧
      s₃.serve download = .ok (answer, s₄) ∧ written.status = 200 ∧
      ∃ content sent gzip, Brings upload.request content ∧
        answer.Tells (declaredType upload.request.headers) sent gzip ∧
        Conveys ⟨0⟩ (declaredType upload.request.headers) content
          (RequestInfo.ofHeaders download.request.headers).acceptsGzip sent gzip := by
  have hputs : Names upload.request.path ⟨"b", "k"⟩ := ⟨"b", "%6B", by decide +kernel⟩
  have hgets : Names download.request.path ⟨"b", "k"⟩ := ⟨"b", "k", by decide +kernel⟩
  have hallowed : refusal? ⟨.empty, false⟩ download.request = none := rfl
  obtain ⟨early, s₁, written, s₂, late, s₃, answer, s₄, hbefore, hwritten, hlate, hanswer,
      htells⟩ :=
    tells_written 100 ⟨0⟩ separateKeys_story ticks_story rfl hputs leaves_meanwhile rfl hgets
      hallowed
  have hstatus : (((fresh 100 5 ⟨0⟩ ⟨.empty, false⟩).run [.exchange earlier]).toOption.bind
      fun ran => (ran.2.serve upload).toOption.map fun served => served.1.status) = some 200 := by
    decide +kernel
  simp only [hbefore, hwritten, Except.toOption, Option.bind_some, Option.map_some,
    Option.some.injEq] at hstatus
  exact ⟨early, s₁, written, s₂, late, s₃, answer, s₄, hbefore, hwritten, hlate, hanswer, hstatus,
    htells hstatus⟩

end Site

end ReadThrough.Http
