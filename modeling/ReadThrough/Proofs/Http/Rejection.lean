import ReadThrough.Proofs.Gzip.Members
import ReadThrough.Proofs.Http.Delivery
import ReadThrough.Proofs.Object.Upload

/-!
# Bodies that are turned away

A body that is declared to be compressed, and that nothing can be made of, is turned away before the
store is called (`Rejected`).

* `rejected_of_cut` — so is every body that is cut off a member
* `verified_of_answered` — what is stored is the content of a member whose checksum and length are
  right, and with any other octets in their place the body would have been turned away
-/

namespace ReadThrough

open Backend

/-! ## Object requests -/

/-- The request is answered 400 and makes no call, whether or not the store works. -/
structure Session.Refuses (s : Session) (v : Visit) : Prop where
  no_call : s.call? v = none
  answer (fault : Option Failure) : ∃ failure s', s.attempt v fault = .ok (.error failure, s') ∧
    failure.problem.kind.status = 400 ∧ s'.memory = s.memory

theorem Backend.Memory.Receives.eq_place {memory memory' : Memory} {id : ObjectId}
    {object : StoredObject} {r : ObjectResponse} (h : memory.Receives id object (.ok r) memory') :
    memory' = memory.place id object := by
  cases h with
  | stored => rfl

namespace Session

variable {info : RequestInfo} {body : Bytes} {fault : Gzip.Fault}

/-- What does not decompress is answered before the call. -/
theorem exists_start_eq_of_undecodable (h : Gzip.decompress body = .error fault)
    (hgzip : info.bodyIsGzip = true) (id : ObjectId) (m : Moment) (c : Cache) :
    ∃ failure c', (ObjectRequest.put id info body).start m c = (.done (.error failure), c') ∧
      failure.problem.kind.status = 400 := by
  cases hnamed : ObjectRequest.named id with
  | false =>
    exact ⟨.emptyName, c, start_of_unnamed (r := .put id info body) hnamed m c, rfl⟩
  | true =>
    have hcontent : ObjectRequest.contentOf info body = .error fault := by
      rw [ObjectRequest.contentOf, if_pos hgzip, h]
    refine ⟨.undecodableBody fault, (c.delete id.cacheKey).2, ?_, rfl⟩
    simp [ObjectRequest.start, ObjectRequest.id, hnamed, hcontent]

theorem refuses_of_undecodable (h : Gzip.decompress body = .error fault)
    (hgzip : info.bodyIsGzip = true) (s : Session) (id : ObjectId) (before after : Moment)
    (during : Time) : s.Refuses ⟨.put id info body, before, during, after⟩ := by
  obtain ⟨failure, c, hstart, hstatus⟩ :=
    exists_start_eq_of_undecodable h hgzip id before s.cache
  refine ⟨?_, fun reason => ⟨failure, ⟨c, s.memory⟩, ?_, hstatus, rfl⟩⟩
  · unfold call?
    rw [hstart]
  · unfold attempt
    rw [hstart]

end Session

/-! ## Requests over HTTP -/

namespace Http

variable {req : Request} {body : Bytes}

/--
The request is answered before any call. If the policy lets it the answer is 400, as long as the
body has no more than `bodyLimit` octets; a longer body is not read, and answered 413 or also 400.
-/
def TurnsAway (svc : Service) (req : Request) (m : Moment) : Prop :=
  ∃ r svc', start svc req m = (.done r, svc') ∧
    (refusal? svc.access req = none →
      (req.body.length ≤ bodyLimit → r.status = 400) ∧
      (bodyLimit < req.body.length → r.status = 413 ∨ r.status = 400))

/-- Wherever the body is declared to be compressed, a request to write it is turned away. -/
structure Rejected (body : Bytes) : Prop where
  session (s : Session) (id : ObjectId) {info : RequestInfo} (before after : Moment)
    (during : Time) (hgzip : info.bodyIsGzip = true) :
    s.Refuses ⟨.put id info body, before, during, after⟩
  server (svc : Service) {req : Request} {bucket key : String} (m : Moment)
    (hput : req.method = "PUT") (hroute : Route.ofPath req.path = .object bucket key)
    (hgzip : DeclaresGzip req.headers) (hbody : req.body = body) : TurnsAway svc req m

/-- A write whose names cannot be read is answered 400, and one whose body is too long 413. -/
theorem Unread.status_of_put {r : Response} (h : Unread req r) (hput : req.method = "PUT") :
    (req.body.length ≤ bodyLimit → r.status = 400) ∧
      (bodyLimit < req.body.length → r.status = 413 ∨ r.status = 400) := by
  cases h with
  | method hmethod => exact absurd (mem_objectMethods_of_put hput) hmethod
  | name => exact ⟨fun _ => rfl, fun _ => Or.inr rfl⟩
  | body hlong => exact ⟨fun hfits => absurd (fun _ => hfits) hlong, fun _ => Or.inl rfl⟩

theorem turnsAway_of_undecodable {fault : Gzip.Fault} (h : Gzip.decompress req.body = .error fault)
    (svc : Service) {bucket key : String} (m : Moment) (hput : req.method = "PUT")
    (hroute : Route.ofPath req.path = .object bucket key) (hgzip : DeclaresGzip req.headers) :
    TurnsAway svc req m := by
  cases hadmitted : admitted? svc.access req with
  | none =>
    obtain ⟨r, svc', hstart, -, hown⟩ := own_of_not_admitted hadmitted m
    refine ⟨r, svc', hstart, fun hnone => ?_⟩
    cases hown with
    | methods hmethod => exact absurd hmethod (ne_options_of_mem (mem_objectMethods_of_put hput))
    | state hstate => exact absurd hroute (hstate bucket key)
    | unrouted hunrouted =>
      rw [hroute] at hunrouted
      cases hunrouted
    | refused hrefusal =>
      rw [hnone] at hrefusal
      cases hrefusal
    | unread hunread =>
      rw [status_dress]
      exact hunread.status_of_put hput
  | some r =>
    obtain ⟨_, _, -, -, hmakes⟩ := admitted?_eq_some_iff.1 hadmitted
    obtain ⟨failure, c, hstart, hstatus⟩ := Session.exists_start_eq_of_undecodable h
      (bodyIsGzip_ofHeaders_iff.2 hgzip) r.id m svc.cache
    rw [← requestFor_of_put hput, ← hmakes.request_eq] at hstart
    obtain ⟨-, hstage⟩ := proceeds_of_admitted hadmitted m
    rw [hstart] at hstage
    refine ⟨_, _, Prod.ext hstage rfl, fun _ => ?_⟩
    rw [status_dress]
    exact ⟨fun _ => hstatus, fun hlong => absurd (hmakes.fits hput) (Nat.not_le_of_lt hlong)⟩

theorem rejected_of_undecodable {fault : Gzip.Fault} (h : Gzip.decompress body = .error fault) :
    Rejected body where
  session s id _ before after during hgzip :=
    Session.refuses_of_undecodable h hgzip s id before after during
  server svc _ _ _ m hput hroute hgzip hbody :=
    turnsAway_of_undecodable (hbody ▸ h) svc m hput hroute hgzip

/-! ## Bodies that are cut off -/

/--
**Nothing that is cut off is stored.** Take a member of any content, as `compress` writes it or as
anybody else does, and cut it anywhere: in the header, in the stream or in the trailer. What is left
does not decompress, and wherever it comes as a body that is declared to be compressed, the store is
not called and the answer is 400. Over HTTP this is so for bodies that are not too long to be read.
-/
theorem rejected_of_cut (content : Bytes) :
    Gzip.IsMember content (Gzip.compress content) ∧
      ∀ member cut, Gzip.IsMember content member → cut <+: member → cut ≠ member →
        (∃ fault, Gzip.decompress cut = .error fault) ∧ Rejected cut := by
  refine ⟨Gzip.isMember_compress content, fun member cut hmember hcut hshort => ?_⟩
  obtain ⟨fault, hfault⟩ := Gzip.exists_decompress_eq_error_of_cut hmember hcut hshort
  exact ⟨⟨fault, hfault⟩, rejected_of_undecodable hfault⟩

/-- The theorem at work: a greeting is cut off in its stream. -/
theorem rejected_of_cut_greeting :
    Site.packedGreeting.take 13 <+: Gzip.compress (Bytes.ofText "hi") ∧
      Site.packedGreeting.take 13 ≠ Gzip.compress (Bytes.ofText "hi") ∧
      (∃ fault, Gzip.decompress (Site.packedGreeting.take 13) = .error fault) ∧
      Rejected (Site.packedGreeting.take 13) := by
  have hwhole : Gzip.compress (Bytes.ofText "hi") = Site.packedGreeting := by decide +kernel
  have hcut : Site.packedGreeting.take 13 <+: Gzip.compress (Bytes.ofText "hi") := by
    rw [hwhole]
    exact List.take_prefix 13 _
  have hshort : Site.packedGreeting.take 13 ≠ Gzip.compress (Bytes.ofText "hi") := by
    rw [hwhole]
    decide
  obtain ⟨hmember, hcuts⟩ := rejected_of_cut (Bytes.ofText "hi")
  exact ⟨hcut, hshort, hcuts _ _ hmember hcut hshort⟩

/-! ## Bodies that are stored -/

/--
The body begins with a member of the content, and with any other eight octets in place of the
trailer it would be turned away.
-/
inductive Verified : (body content : Bytes) → Prop where
  | mk {header stream octets content : Bytes} (rest : Bytes)
    (hframes : Gzip.Frames header stream content) (htrailer : Gzip.IsTrailer content octets)
    (hothers : ∀ other : Bytes, other.length = 8 → other ≠ octets →
      Rejected (header ++ (stream ++ (other ++ rest)))) :
    Verified (header ++ (stream ++ (octets ++ rest))) content

theorem verified_of_decompress {content : Bytes} (h : Gzip.decompress body = .ok content) :
    Verified body content := by
  obtain ⟨header, stream, octets, rest, rfl, hframes, htrailer⟩ := Gzip.decompress_eq_ok_iff.1 h
  refine .mk rest hframes htrailer fun other hlength hother => ?_
  have hmismatch := Gzip.decompress_of_frames hframes hlength rest
  rw [if_neg (Gzip.isTrailer_iff.1 htrailer ▸ hother)] at hmismatch
  exact rejected_of_undecodable hmismatch

/-- A write ends, and if it is answered it leaves the content of a member. -/
theorem exists_attempt_eq_put {info : RequestInfo} (hgzip : info.bodyIsGzip = true) (s : Session)
    (id : ObjectId) (before after : Moment) (during : Time) (fault : Option Failure) :
    ∃ outcome s', s.attempt ⟨.put id info body, before, during, after⟩ fault = .ok (outcome, s') ∧
      ∀ r, outcome = .ok r → ∃ content, Verified body content ∧ s'.memory = s.memory.place id
        (Memory.objectOf content (info.contentType.getD defaultContentType) during) := by
  cases hcontent : Gzip.decompress body with
  | error reason =>
    obtain ⟨failure, s', hrefused, -⟩ :=
      (Session.refuses_of_undecodable hcontent hgzip s id before after during).answer fault
    exact ⟨_, s', hrefused, nofun⟩
  | ok content =>
    have hcontent' : ObjectRequest.contentOf info body = .ok content := by
      rw [ObjectRequest.contentOf, if_pos hgzip, hcontent]
    obtain ⟨outcome, s', hattempt, hreceives, -⟩ :=
      s.exists_receives_put id hcontent' before after during fault
    refine ⟨outcome, s', hattempt, ?_⟩
    rintro r rfl
    exact ⟨content, verified_of_decompress hcontent, hreceives.eq_place⟩

/-- A write over HTTP that is answered 200 leaves the content of a member. -/
theorem exists_verified_of_serve {s s' : Site} {x : Exchange} {answer : Response}
    (hput : x.request.method = "PUT") (hgzip : DeclaresGzip x.request.headers)
    (h : s.serve x = .ok (answer, s')) (hstatus : answer.status = 200) :
    x.request.body.length ≤ bodyLimit ∧
      ∃ content id, Verified x.request.body content ∧ Names x.request.path id ∧
        s'.memory = s.memory.place id
          (Memory.objectOf content (declaredType x.request.headers) x.during) := by
  obtain ⟨id, hnames, hfits, hadmitted⟩ := exists_admitted?_of_status hput h hstatus
  obtain ⟨outcome, after, hattempt, hanswered⟩ := exists_attempt_eq_put
    (bodyIsGzip_ofHeaders_iff.2 hgzip) s.session id x.before x.after x.during none
  obtain ⟨s'', hserve, hafter, -⟩ := serve_of_admitted hadmitted hattempt
  rw [h] at hserve
  obtain ⟨rfl, rfl⟩ := Prod.mk.inj (Except.ok.inj hserve)
  rw [status_dress] at hstatus
  cases outcome with
  | error failure => exact absurd hstatus (status_ofFailure_ne failure)
  | ok r =>
    obtain ⟨content, hverified, hmemory⟩ := hanswered r rfl
    subst hafter
    exact ⟨hfits hput, content, id, hverified, hnames, hmemory⟩

/--
**Only what has been verified is stored.** Any body at all comes to be written and is declared to be
compressed, as a request to any session, whose store works or fails, or over HTTP to any site. If it
is answered 200 then it begins with a well-formed header and a whole stream, and the eight octets
behind them are the checksum and the length of what the stream stands for. This is what is stored,
and nothing else. With any other eight octets in their place the body is turned away. Over HTTP a
body that is answered 200 has no more than `bodyLimit` octets, and so has the one in its place.
-/
theorem verified_of_answered (body : Bytes) :
    (∀ (s s' : Session) (id : ObjectId) (info : RequestInfo) (before after : Moment)
        (during : Time) (fault : Option Failure) (r : ObjectResponse), info.bodyIsGzip = true →
      s.attempt ⟨.put id info body, before, during, after⟩ fault = .ok (.ok r, s') →
      r.status = 200 → ∃ content, Verified body content ∧ s'.memory = s.memory.place id
        (Memory.objectOf content (info.contentType.getD defaultContentType) during)) ∧
    ∀ (s s' : Site) (x : Exchange) (answer : Response), x.request.method = "PUT" →
      DeclaresGzip x.request.headers → x.request.body = body → s.serve x = .ok (answer, s') →
      answer.status = 200 → body.length ≤ bodyLimit ∧
        ∃ content id, Verified body content ∧ Names x.request.path id ∧
          s'.memory = s.memory.place id
            (Memory.objectOf content (declaredType x.request.headers) x.during) := by
  constructor
  · intro s s' id info before after during fault r hgzip h _
    obtain ⟨outcome, s'', hattempt, hanswered⟩ :=
      exists_attempt_eq_put hgzip s id before after during fault
    rw [h] at hattempt
    obtain ⟨rfl, rfl⟩ := Prod.mk.inj (Except.ok.inj hattempt)
    exact hanswered r rfl
  · rintro s s' x answer hput hgzip rfl h hstatus
    exact exists_verified_of_serve hput hgzip h hstatus

/-- The theorem at work: a greeting is written to a session, and to a site with `GZip` as coding. -/
theorem verified_of_answered_greeting :
    (∃ r s' content, (Session.fresh 100 5 ⟨0⟩).attempt (Session.atOnce
          (.put Session.greetingPlace ⟨false, none, some "gzip"⟩ Site.packedGreeting)) none =
        .ok (.ok r, s') ∧ r.status = 200 ∧ Verified Site.packedGreeting content ∧
      s'.memory = Memory.empty.place Session.greetingPlace
        (Memory.objectOf content defaultContentType ⟨0, 0⟩)) ∧
    ∃ answer s' content id, (Site.fresh 100 5 ⟨0⟩ ⟨.empty, false⟩).serve Site.upload =
        .ok (answer, s') ∧ answer.status = 200 ∧ Verified Site.packedGreeting content ∧
      Names Site.upload.request.path id ∧
      s'.memory = Memory.empty.place id
        (Memory.objectOf content (declaredType Site.upload.request.headers) ⟨0, 0⟩) := by
  obtain ⟨hsession, hsite⟩ := verified_of_answered Site.packedGreeting
  constructor
  · have hgzip : (⟨false, none, some "gzip"⟩ : RequestInfo).bodyIsGzip = true := by decide
    have hcontent : ObjectRequest.contentOf ⟨false, none, some "gzip"⟩ Site.packedGreeting =
        .ok (Bytes.ofText "hi") := by decide +kernel
    obtain ⟨outcome, s', hattempt, hreceives, hanswered⟩ :=
      (Session.fresh 100 5 ⟨0⟩).exists_receives_put Session.greetingPlace hcontent (.at ⟨0⟩ ⟨0, 0⟩)
        (.at ⟨0⟩ ⟨0, 0⟩) ⟨0, 0⟩ none
    obtain ⟨r, rfl⟩ := hanswered (by decide) rfl
    obtain ⟨content, hverified⟩ := hsession _ _ _ _ _ _ _ _ _ hgzip hattempt hreceives.status
    exact ⟨r, s', content, hattempt, hreceives.status, hverified⟩
  · have hgzip : DeclaresGzip Site.upload.request.headers :=
      ⟨"GZip".toList, by decide +kernel, by decide +kernel⟩
    have hanswered : ((Site.fresh 100 5 ⟨0⟩ ⟨.empty, false⟩).serve Site.upload).toOption.map
        (fun served => served.1.status) = some 200 := by decide +kernel
    cases hserve : (Site.fresh 100 5 ⟨0⟩ ⟨.empty, false⟩).serve Site.upload with
    | error halt =>
      rw [hserve] at hanswered
      cases hanswered
    | ok served =>
      obtain ⟨answer, s'⟩ := served
      rw [hserve] at hanswered
      have hstatus : answer.status = 200 := Option.some.inj hanswered
      obtain ⟨-, content, id, hverified⟩ := hsite _ _ _ _ rfl hgzip rfl hserve hstatus
      exact ⟨answer, s', content, id, rfl, hstatus, hverified⟩

end Http

end ReadThrough
