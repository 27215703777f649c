import ReadThrough.Proofs.Deflate.Matcher
import ReadThrough.Proofs.Http.Delivery
import ReadThrough.Proofs.Http.Lifetime
import ReadThrough.Proofs.Http.Tallies
import ReadThrough.Proofs.Object.Forms
import ReadThrough.Proofs.Object.Preferences

/-!
# Which form of an object is sent

A request over HTTP lists the codings that it accepts. It is answered by what is made of the list,
and the answer has to say so to those who keep it for others.

* `pass_of_handle`, `isPlain_of_not_admitted` — an answer is that of an object request, or it is
  not compressed
* `isPlain_of_handle` — who does not accept a compressed body gets none
* `honours_refusals` — which refusals are honoured
* `varies_iff_packed` — which of two answers says that it depends on what is accepted
-/

namespace ReadThrough.Http

open Backend

/-! ## Answers over HTTP -/

variable {svc svc' : Service} {x : Encounter} {answer : Response}

/-- What is admitted is answered as the object request is. -/
theorem pass_of_handle {r : ObjectRequest} (hadmitted : admitted? svc.access x.request = some r)
    (h : svc.handle x = .ok (answer, svc')) :
    ∃ finished calls, svc.cache.pass ⟨r, x.before, x.reply, x.after⟩ = .ok (finished, calls) ∧
      answer = dress x.request (.ofOutcome finished.outcome) := by
  obtain ⟨hcache, hstage⟩ := proceeds_of_admitted hadmitted x.before
  unfold Service.handle at h
  unfold Cache.pass
  cases hstart : start svc x.request x.before with | mk stage svc₁
  cases hrequest : r.start x.before svc.cache with | mk progress c
  simp only [hstart, hrequest] at h hcache hstage ⊢
  subst hcache hstage
  cases progress with
  | done outcome =>
    obtain ⟨rfl, -⟩ := Prod.mk.inj (Except.ok.inj h)
    exact ⟨_, _, rfl, rfl⟩
  | waiting a =>
    unfold resume at h
    obtain ⟨finished, hresume, hlast⟩ := exists_of_bind_eq_ok h
    obtain ⟨rfl, -⟩ := Prod.mk.inj (Except.ok.inj hlast)
    refine ⟨finished, [a.call], ?_, rfl⟩
    dsimp only
    rw [hresume]
    rfl

/-- No coding of the body is told. -/
def Response.IsPlain (r : Response) : Prop :=
  r.values "content-encoding" = []

theorem isPlain_dress_iff {req : Request} {r : Response} : (dress req r).IsPlain ↔ r.IsPlain := by
  unfold Response.IsPlain
  rw [values_dress_of_not_mem (by decide)]

theorem isPlain_ofFailure (failure : RequestFailure) : (Response.ofFailure failure).IsPlain := rfl

theorem isPlain_withOrigins_iff {r : Response} : (withOrigins r).IsPlain ↔ r.IsPlain := by
  unfold Response.IsPlain
  rw [values_withOrigins_of_not_mem (by decide)]

theorem isPlain_preflight (route : Route) : (preflight route).IsPlain := by
  unfold preflight
  rw [isPlain_withOrigins_iff]
  cases route <;> rfl

theorem isPlain_answerState (req : Request) (body : Body) : (answerState req body).IsPlain := by
  unfold answerState
  rw [isPlain_withOrigins_iff]
  split
  · rfl
  · split <;> rfl

theorem Unread.isPlain {req : Request} {r : Response} (h : Unread req r) : r.IsPlain := by
  cases h <;> rfl

theorem Own.isPlain {access : AccessControl} {req : Request} {r : Response}
    (h : Own access req r) : r.IsPlain := by
  cases h with
  | methods => exact isPlain_preflight _
  | state => exact isPlain_answerState _ _
  | unrouted => exact isPlain_withOrigins_iff.2 rfl
  | refused => exact isPlain_dress_iff.2 (isPlain_ofFailure _)
  | unread hunread => exact isPlain_dress_iff.2 hunread.isPlain

theorem isPlain_of_not_admitted (hadmitted : admitted? svc.access x.request = none)
    (h : svc.handle x = .ok (answer, svc')) : answer.IsPlain := by
  obtain ⟨r, svc₁, hstart, -, hown⟩ := own_of_not_admitted hadmitted x.before
  rw [Service.handle, hstart] at h
  obtain ⟨rfl, -⟩ := Prod.mk.inj (Except.ok.inj h)
  exact hown.isPlain

/-- A read takes what its headers say with it. -/
theorem info_of_admitted {access : AccessControl} {req : Request} {id : ObjectId}
    {info : RequestInfo} (hadmitted : admitted? access req = some (.get id info)) :
    info = .ofHeaders req.headers := by
  obtain ⟨_, _, -, -, hmakes⟩ := admitted?_eq_some_iff.1 hadmitted
  cases hmakes.asks with
  | get => rfl

theorem isPlain_ofObject_iff {r : ObjectResponse} :
    (Response.ofObject r).IsPlain ↔ r.gzip = false := by
  unfold Response.IsPlain
  rw [values_ofObject_contentEncoding]
  cases r.gzip <;> simp

/-- Who does not accept a compressed body gets none, whatever is asked for. -/
theorem isPlain_of_handle (hrefuses : (RequestInfo.ofHeaders x.request.headers).acceptsGzip = false)
    (h : svc.handle x = .ok (answer, svc')) : answer.IsPlain := by
  cases hadmitted : admitted? svc.access x.request with
  | none => exact isPlain_of_not_admitted hadmitted h
  | some request =>
    obtain ⟨finished, calls, hpass, rfl⟩ := pass_of_handle hadmitted h
    rw [isPlain_dress_iff]
    cases houtcome : finished.outcome with
    | error failure => exact isPlain_ofFailure failure
    | ok r =>
      refine isPlain_ofObject_iff.2 ?_
      cases request with
      | get id info =>
        obtain ⟨respond, hreads, rfl⟩ := Cache.exists_readsAs_of_pass hpass houtcome
        rw [info_of_admitted hadmitted, hrefuses]
        exact hreads.negotiates.plain
      | put | delete | head => exact Cache.gzip_eq_false_of_pass hpass houtcome nofun

/-- A read that misses is answered with what the store brings, if its lifetime has an end. -/
theorem exists_handle_eq_get {id : ObjectId} (hget : x.request.method = "GET")
    (hnames : Names x.request.path id) (hallowed : refusal? svc.access x.request = none)
    (hnamed : ObjectRequest.named id = true)
    (hmissed : (svc.cache.get x.before id.cacheKey).1 = none) {content : Bytes}
    {metadata : Metadata}
    (hfetched : x.reply (.fetch id) = .ok (content, metadata))
    (hclock : x.after.now.nanos + svc.cache.ttl < Instant.limit) :
    ∃ svc', svc.handle x = .ok (dress x.request (.ofObject
      (Awaiting.answerFromFetch svc.cache.policy content metadata
        (RequestInfo.ofHeaders x.request.headers).acceptsGzip)), svc') := by
  have hadmitted := admitted?_of_get hget hnames hallowed
  obtain ⟨hcache, hstage⟩ := proceeds_of_admitted hadmitted x.before
  unfold Service.handle
  cases hstart : start svc x.request x.before with | mk stage svc₁
  cases hrequest : (ObjectRequest.get id (.ofHeaders x.request.headers)).start x.before svc.cache
    with | mk progress c
  simp only [hstart, hrequest] at hcache hstage ⊢
  subst hstage
  cases starts_of_eq hrequest with
  | unnamed hunnamed => cases hunnamed.symm.trans hnamed
  | found _ _ hfound => cases hmissed.symm.trans hfound
  | missed =>
    have hleft := svc.cache.shrinks_get x.before id.cacheKey
    rw [← hcache] at hleft
    dsimp only
    rw [hfetched, ← hleft.policy]
    rcases resume_get svc₁ x.request id _ _ content metadata x.after with
      ⟨inserted, svc', -, hresume⟩ | ⟨stop, hinsert, -⟩
    · exact ⟨svc', hresume⟩
    · obtain ⟨done, hdone⟩ := (Cache.exists_insert_eq_ok_iff id.cacheKey metadata _).2
        (Or.inr (hleft.ttl ▸ hclock))
      cases hinsert.symm.trans hdone

/-! ## A store with one long text -/

/-- A text of forty like letters. -/
def drone : Bytes :=
  List.replicate 40 97

/-- A store that has it under every name. -/
def droning : (call : Call) → call.Outcome
  | .fetch _ => .ok (drone, ⟨"text/plain", 40, ⟨0, 0⟩, "tag"⟩)
  | .store .. => .ok ()
  | .remove _ => .ok ()
  | .stat _ => .ok ⟨"text/plain", 40, ⟨0, 0⟩, "tag"⟩

/-- A read of an object from that store. -/
def listener (headers : Headers) : Encounter :=
  ⟨⟨"GET", "/objects/b/k", headers, []⟩, .at ⟨0⟩ ⟨0, 0⟩, droning, .at ⟨0⟩ ⟨0, 0⟩⟩

/-- A server that compresses whatever becomes smaller. -/
def eager : Service :=
  .make (.empty 1000 300000000000 ⟨0⟩) ⟨.empty, false⟩

theorem tokens_drone : Deflate.tokens drone = [.literal 97, .literal 97, .copy 38 1] := by
  have htokens : ∀ data : Bytes, Deflate.tokens data =
      (Deflate.tokensOnto data.toArray (Deflate.links data.toArray) #[] 0 none).toList :=
    fun _ => rfl
  have hplaces : 38 + Deflate.minCopy = 40 + 1 := rfl
  have hoctets : drone.toArray = Array.replicate 40 97 := List.toArray_replicate 40 97
  have hwalk : (Deflate.tokensOnto (Array.replicate 40 97)
      ((List.range 38).map (· - 1)).toArray #[] 0 none).toList =
        [.literal 97, .literal 97, .copy 38 1] := by
    decide +kernel
  rw [htokens, hoctets, Deflate.links_replicate 97 hplaces, hwalk]

theorem length_compress_drone : (Gzip.compress drone).length = 24 := by
  have hstream :
      (Deflate.pack (Deflate.write [.literal 97, .literal 97, .copy 38 1])).length = 6 := by
    decide +kernel
  rw [Gzip.compress, tokens_drone, List.length_append, List.length_append, hstream,
    Gzip.length_trailer]
  rfl

/-- The text is sent in the form that is accepted. -/
theorem answerFromFetch_drone (acceptsGzip : Bool) :
    Awaiting.answerFromFetch ⟨0⟩ drone ⟨"text/plain", 40, ⟨0, 0⟩, "tag"⟩ acceptsGzip =
      .ofMetadata ⟨"text/plain", 40, ⟨0, 0⟩, "tag"⟩
        (if acceptsGzip then Gzip.compress drone else drone) acceptsGzip := by
  have hadmits : CompressionPolicy.admits ⟨0⟩ "text/plain" drone.length = true := by
    decide +kernel
  have hsmaller : (Gzip.compress drone).length < drone.length := by
    rw [length_compress_drone]
    decide
  unfold Awaiting.answerFromFetch CompressionPolicy.packed?
  cases acceptsGzip with
  | false => rfl
  | true =>
    simp only [if_true]
    rw [if_pos hadmits]
    dsimp only
    rw [if_pos hsmaller]

/-- What the server answers, from that store, to who accepts the compressed form or does not. -/
def heard (acceptsGzip : Bool) : ObjectResponse :=
  .ofMetadata ⟨"text/plain", 40, ⟨0, 0⟩, "tag"⟩
    (if acceptsGzip then Gzip.compress drone else drone) acceptsGzip

theorem names_listener (headers : Headers) :
    Names (listener headers).request.path ⟨"b", "k"⟩ := by
  have hnames : Names "/objects/b/k" ⟨"b", "k"⟩ := ⟨"b", "k", by decide +kernel⟩
  exact hnames

theorem exists_handle_eager (headers : Headers) :
    ∃ svc', eager.handle (listener headers) =
      .ok (dress (listener headers).request
        (.ofObject (heard (RequestInfo.ofHeaders headers).acceptsGzip)), svc') := by
  have hclock : 0 + 300000000000 < Instant.limit := by decide
  have hmissed : (eager.cache.get (.at ⟨0⟩ ⟨0, 0⟩) "b/k").1 = none := rfl
  rw [heard, ← answerFromFetch_drone]
  exact exists_handle_eq_get rfl (names_listener headers) rfl rfl hmissed rfl hclock

/-! ## Refusals -/

section refusals

variable {headers : Headers} {ps : List Preference}

/--
**Refusals are honoured, unless they are written with a capital letter.** Take any list of
preferences in a request, well-formed, with any padding and any letter case. The server takes the
request to accept `gzip` if some element for it is not refused, or is refused with a capital letter
for the weight; so it is right in all cases but one, that there is an element refused in that way
and none that is not refused. In all other cases lists that mean the same are decided alike; and if
all elements for `gzip` are refused, no answer to the request, from any server and for any object,
has a coded body.
-/
theorem honours_refusals (h : Prefers headers ps) :
    ((RequestInfo.ofHeaders headers).acceptsGzip = true ↔
      ∃ p ∈ ps, p.Names gzipCoding ∧ (p.Admits ∨ p.RefusesLoudly)) ∧
    (((RequestInfo.ofHeaders headers).acceptsGzip = true ↔ Welcomes ps) ↔
      Welcomes ps ∨ Quiet ps) ∧
    (Welcomes ps ∨ Quiet ps → ∀ (headers' : Headers) (ps' : List Preference),
      Prefers headers' ps' → Welcomes ps' ∨ Quiet ps' →
      (∀ said, said ∈ ps.map Preference.meaning ↔ said ∈ ps'.map Preference.meaning) →
      (RequestInfo.ofHeaders headers').acceptsGzip = (RequestInfo.ofHeaders headers).acceptsGzip) ∧
    (Quiet ps → ¬ Welcomes ps → ∀ (svc svc' : Service) (x : Encounter) (answer : Response),
      x.request.headers = headers → svc.handle x = .ok (answer, svc') →
      answer.values "content-encoding" = []) := by
  have hright := acceptsGzip_iff_welcomes_iff h
  refine ⟨acceptsGzip_iff h, hright, ?_, ?_⟩
  · intro hcase headers' ps' h' hcase' hsame
    have hmeans : Welcomes ps' ↔ Welcomes ps := by
      simp only [welcomes_iff_exists_meaning, hsame]
    rw [Bool.eq_iff_iff, (acceptsGzip_iff_welcomes_iff h').2 hcase', hright.2 hcase, hmeans]
  · rintro hquiet hnot svc svc' x answer rfl hhandle
    refine isPlain_of_handle ?_ hhandle
    rwa [← Bool.not_eq_true, hright.2 (Or.inr hquiet)]

/-- The fields of a request with one list of preferences. -/
def preferring (list : String) : Headers :=
  [("accept-encoding", Bytes.ofText list)]

theorem isName_of_all {cs : List Char} (hne : cs ≠ []) (hall : cs.all isTokenChar = true) :
    IsName cs :=
  ⟨hne, List.all_eq_true.1 hall⟩

theorem isName_gzip : IsName "gzip".toList :=
  isName_of_all (by decide) (by decide)

/-- The coding `gzip` is refused with a small letter, in its own spelling, and `br` is let. -/
theorem prefers_spaced :
    Prefers (preferring "GZip ; q=0.0, br")
      [⟨"GZip".toList, some ⟨'q', 0⟩⟩, ⟨"br".toList, none⟩] := by
  have hblank : IsPadding " ".toList := by
    intro c hc
    exact Or.inl (List.mem_singleton.1 hc)
  have hvalue : Text.WritesWeight "0.0".toList 0 :=
    .pointed (Or.inl rfl) (List.forall_mem_singleton.2 rfl) (by decide)
  have hname : IsName "GZip".toList := isName_of_all (by decide) (by decide)
  have hother : IsName "br".toList := isName_of_all (by decide) (by decide)
  have hgzip : WritesPart "GZip ; q=0.0".toList [⟨"GZip".toList, some ⟨'q', 0⟩⟩] :=
    .weighted hname (.mk isPadding_nil hblank) (Or.inl rfl) hvalue (.mk hblank isPadding_nil)
  have hbr : WritesPart " br".toList [⟨"br".toList, none⟩] := .plain hother (.mk hblank isPadding_nil)
  exact ⟨"GZip ; q=0.0, br".toList, rfl, .cons hgzip (.last hbr)⟩

/-- The same in another order and spelling. -/
theorem prefers_dense :
    Prefers (preferring ",BR,gzip;q=0")
      [⟨"BR".toList, none⟩, ⟨"gzip".toList, some ⟨'q', 0⟩⟩] := by
  have hgzip : WritesPart "gzip;q=0".toList [⟨"gzip".toList, some ⟨'q', 0⟩⟩] :=
    .weighted isName_gzip (pads_self _) (Or.inl rfl) (.bare (Or.inl rfl)) (pads_self _)
  have hname : IsName "BR".toList := isName_of_all (by decide) (by decide)
  have hbr : WritesPart "BR".toList [⟨"BR".toList, none⟩] := .plain hname (pads_self _)
  exact ⟨",BR,gzip;q=0".toList, rfl, .cons (.empty isPadding_nil) (.cons hbr (.last hgzip))⟩

/-- A refusal with a capital letter. -/
theorem prefers_loud :
    Prefers (preferring "gzip;Q=0") [⟨"gzip".toList, some ⟨'Q', 0⟩⟩] := by
  have hgzip : WritesPart "gzip;Q=0".toList [⟨"gzip".toList, some ⟨'Q', 0⟩⟩] :=
    .weighted isName_gzip (pads_self _) (Or.inr rfl) (.bare (Or.inl rfl)) (pads_self _)
  exact ⟨"gzip;Q=0".toList, rfl, .last hgzip⟩

/-- The theorem at work: `gzip` is refused, in two spellings, and a long text is sent as it is. -/
theorem honours_refusals_spaced :
    ((RequestInfo.ofHeaders (preferring "GZip ; q=0.0, br")).acceptsGzip = true ↔
      Welcomes [⟨"GZip".toList, some ⟨'q', 0⟩⟩, ⟨"br".toList, none⟩]) ∧
    (RequestInfo.ofHeaders (preferring ",BR,gzip;q=0")).acceptsGzip =
      (RequestInfo.ofHeaders (preferring "GZip ; q=0.0, br")).acceptsGzip ∧
    ∃ answer svc', eager.handle (listener (preferring "GZip ; q=0.0, br")) = .ok (answer, svc') ∧
      answer.status = 200 ∧ answer.values "content-encoding" = [] := by
  have hquiet : Quiet [⟨"GZip".toList, some ⟨'q', 0⟩⟩, ⟨"br".toList, none⟩] := by
    rintro p hp - ⟨weight, hweight, -, hletter⟩
    simp only [List.mem_cons, List.not_mem_nil, or_false] at hp
    rcases hp with rfl | rfl
    · obtain rfl := Option.some.inj hweight
      cases hletter
    · cases hweight
  have hquiet' : Quiet [⟨"BR".toList, none⟩, ⟨"gzip".toList, some ⟨'q', 0⟩⟩] := by
    rintro p hp - ⟨weight, hweight, -, hletter⟩
    simp only [List.mem_cons, List.not_mem_nil, or_false] at hp
    rcases hp with rfl | rfl
    · cases hweight
    · obtain rfl := Option.some.inj hweight
      cases hletter
  have hnot : ¬ Welcomes [⟨"GZip".toList, some ⟨'q', 0⟩⟩, ⟨"br".toList, none⟩] := by
    rintro ⟨p, hp, hnames, hadmits⟩
    simp only [List.mem_cons, List.not_mem_nil, or_false] at hp
    rcases hp with rfl | rfl
    · exact hadmits _ rfl rfl
    · exact absurd hnames (by unfold Preference.Names; decide)
  have hperm : [(⟨"GZip".toList, some ⟨'q', 0⟩⟩ : Preference), ⟨"br".toList, none⟩].map
      Preference.meaning = ([⟨"BR".toList, none⟩, ⟨"gzip".toList, some ⟨'q', 0⟩⟩].map
        Preference.meaning).reverse := by
    decide
  obtain ⟨-, hiff, halike, hnone⟩ := honours_refusals prefers_spaced
  obtain ⟨svc', hhandle⟩ := exists_handle_eager (preferring "GZip ; q=0.0, br")
  refine ⟨hiff.2 (Or.inr hquiet), ?_, _, svc', hhandle, status_dress _ _,
    hnone hquiet hnot _ _ _ _ rfl hhandle⟩
  refine halike (Or.inr hquiet) _ _ prefers_dense (Or.inr hquiet') fun said => ?_
  rw [hperm, List.mem_reverse]

/--
**A capital letter turns a refusal into an acceptance.** A request refuses `gzip` with a capital
letter for the weight, and lists nothing else. It is taken to accept `gzip`, and is sent a coded
body; with a small letter it is taken at its word.
-/
theorem refused_accepted :
    Prefers (preferring "gzip;Q=0") [⟨"gzip".toList, some ⟨'Q', 0⟩⟩] ∧
      ¬ Welcomes [⟨"gzip".toList, some ⟨'Q', 0⟩⟩] ∧
      (RequestInfo.ofHeaders (preferring "gzip;Q=0")).acceptsGzip = true ∧
      (RequestInfo.ofHeaders (preferring "gzip;q=0")).acceptsGzip = false ∧
      ∃ answer svc', eager.handle (listener (preferring "gzip;Q=0")) = .ok (answer, svc') ∧
        answer.values "content-encoding" = ["gzip"] := by
  have haccepts : (RequestInfo.ofHeaders (preferring "gzip;Q=0")).acceptsGzip = true := by
    decide +kernel
  obtain ⟨svc', hhandle⟩ := exists_handle_eager (preferring "gzip;Q=0")
  refine ⟨prefers_loud, ?_, haccepts, by decide +kernel, _, svc', hhandle, ?_⟩
  · rintro ⟨p, hp, -, hadmits⟩
    obtain rfl := List.mem_singleton.1 hp
    exact hadmits _ rfl rfl
  · rw [values_dress_of_not_mem (by decide), values_ofObject_contentEncoding, haccepts]
    rfl

end refusals

/-! ## Two forms of one object -/

section forms

variable {y : Encounter} {other : Response} {svc'' : Service} {id : ObjectId}

/--
Two requests at one moment to one server, in front of a store that would answer both alike. They
differ in nothing but the fields of one name.
-/
structure Encounter.SameBut (name : String) (x y : Encounter) : Prop where
  method : y.request.method = x.request.method
  path : y.request.path = x.request.path
  body : y.request.body = x.request.body
  others : y.request.headers.filter (·.1 ≠ name) = x.request.headers.filter (·.1 ≠ name)
  before : y.before = x.before
  reply : y.reply = x.reply

/-- The answer says that it depends on the fields of the name. -/
def Response.VariesBy (r : Response) (name : String) : Prop :=
  ∃ value ∈ r.values "vary", ∃ part ∈ value.toList.splitOn ',',
    Text.sameFolded (Text.trim part) name.toList = true

/-- The answer says that its body is compressed. -/
def Response.IsPacked (r : Response) : Prop :=
  r.values "content-encoding" = ["gzip"]

theorem isPacked_dress_ofObject_iff {req : Request} {r : ObjectResponse} :
    (dress req (.ofObject r)).IsPacked ↔ r.gzip = true := by
  unfold Response.IsPacked
  rw [values_dress_of_not_mem (by decide), values_ofObject_contentEncoding]
  cases r.gzip <;> simp

theorem variesBy_dress_ofObject_iff {req : Request} {r : ObjectResponse} :
    (dress req (.ofObject r)).VariesBy "accept-encoding" ↔ r.gzip = true := by
  unfold Response.VariesBy
  rw [values_dress_vary, values_ofObject_vary]
  cases r.gzip <;> decide +kernel

/-- The policy has let what is answered with success. -/
theorem refusal?_eq_none_of_handle (hmethod : x.request.method ∈ objectMethods)
    (hnames : Names x.request.path id) (h : svc.handle x = .ok (answer, svc'))
    (hstatus : answer.status = 200) : refusal? svc.access x.request = none := by
  obtain ⟨bucket, key, hroute, -⟩ := hnames
  cases hrefusal : refusal? svc.access x.request with
  | none => rfl
  | some failure =>
    obtain ⟨metrics, log, hstart⟩ :=
      start_of_refusal (ne_options_of_mem hmethod) hroute hrefusal x.before
    rw [Service.handle, hstart] at h
    obtain ⟨rfl, -⟩ := Prod.mk.inj (Except.ok.inj h)
    rw [status_dress] at hstatus
    exact absurd hstatus (status_ofFailure_ne failure)

/-- Who reads an object over HTTP is answered by what he accepts. -/
theorem exists_readsAs_of_handle (hget : x.request.method = "GET")
    (hnames : Names x.request.path id) (h : svc.handle x = .ok (answer, svc'))
    (hstatus : answer.status = 200) :
    ∃ respond, svc.cache.ReadsAs id x.before x.reply respond ∧
      answer = dress x.request
        (.ofObject (respond (RequestInfo.ofHeaders x.request.headers).acceptsGzip)) := by
  have hallowed := refusal?_eq_none_of_handle (mem_objectMethods_of_get hget) hnames h hstatus
  have hadmitted := admitted?_of_get hget hnames hallowed
  obtain ⟨finished, calls, hpass, rfl⟩ := pass_of_handle hadmitted h
  rw [status_dress] at hstatus
  cases houtcome : finished.outcome with
  | error failure =>
    rw [houtcome] at hstatus
    exact absurd hstatus (status_ofFailure_ne failure)
  | ok r =>
    obtain ⟨respond, hreads, rfl⟩ := Cache.exists_readsAs_of_pass hpass houtcome
    exact ⟨respond, hreads, rfl⟩

/--
**Of two forms, only the compressed one says that it is one of two.** Two requests for one object
come to a server in any state. They differ only in what they accept, and both are answered with
success. Each answer, whether from the cache or from the store, says that it depends on what is
accepted if and only if it is compressed; and where the two bodies differ, exactly one of them is.
-/
theorem varies_iff_packed (hsame : x.SameBut "accept-encoding" y) (hget : x.request.method = "GET")
    (hnames : Names x.request.path id) (hx : svc.handle x = .ok (answer, svc'))
    (hy : svc.handle y = .ok (other, svc'')) (hstatus : answer.status = 200)
    (hstatus' : other.status = 200) :
    (answer.VariesBy "accept-encoding" ↔ answer.IsPacked) ∧
      (other.VariesBy "accept-encoding" ↔ other.IsPacked) ∧
      (answer.body ≠ other.body → (answer.IsPacked ↔ ¬ other.IsPacked)) := by
  have hget' : y.request.method = "GET" := hsame.method.trans hget
  have hnames' : Names y.request.path id := hsame.path ▸ hnames
  have hnohead : ¬ x.request.method = "HEAD" := by
    rw [hget]
    decide
  obtain ⟨respond, hreads, rfl⟩ := exists_readsAs_of_handle hget hnames hx hstatus
  obtain ⟨respond', hreads', rfl⟩ := exists_readsAs_of_handle hget' hnames' hy hstatus'
  rw [hsame.before, hsame.reply] at hreads'
  obtain rfl := hreads'.unique hreads
  refine ⟨?_, ?_, fun hbodies => ?_⟩
  · rw [variesBy_dress_ofObject_iff, isPacked_dress_ofObject_iff]
  · rw [variesBy_dress_ofObject_iff, isPacked_dress_ofObject_iff]
  · rw [isPacked_dress_ofObject_iff, isPacked_dress_ofObject_iff]
    -- answers that are both compressed, or both not, have one body
    have hforms : (respond (RequestInfo.ofHeaders x.request.headers).acceptsGzip).gzip ≠
        (respond (RequestInfo.ofHeaders y.request.headers).acceptsGzip).gzip := by
      intro hgzip
      refine hbodies ?_
      rw [body_dress, body_dress, if_neg hnohead, if_neg (hsame.method ▸ hnohead)]
      exact congrArg Body.octets (hreads.negotiates.body_eq_of_gzip_eq hgzip)
    have hone : ∀ a b : Bool, a ≠ b → (a = true ↔ ¬ b = true) := by decide
    exact hone _ _ hforms

/-- Who accepts nothing and who accepts `gzip` ask alike but for that. -/
theorem sameBut_listener : (listener []).SameBut "accept-encoding" (listener (preferring "gzip")) :=
  ⟨rfl, rfl, rfl, by decide, rfl, rfl⟩

theorem heard_ne : (Body.octets (heard false).body) ≠ .octets (heard true).body := by
  intro hsame
  have hlength : drone.length = (Gzip.compress drone).length :=
    congrArg List.length (Body.octets.inj hsame)
  rw [length_compress_drone] at hlength
  exact absurd hlength (by decide)

/-- The theorem at work: a text is sent as it is and compressed. -/
theorem varies_iff_packed_drone :
    ∃ answer svc' other svc'', eager.handle (listener []) = .ok (answer, svc') ∧
      eager.handle (listener (preferring "gzip")) = .ok (other, svc'') ∧
      answer.status = 200 ∧ other.status = 200 ∧ answer.body ≠ other.body ∧
      (answer.VariesBy "accept-encoding" ↔ answer.IsPacked) ∧
      (other.VariesBy "accept-encoding" ↔ other.IsPacked) ∧
      (answer.IsPacked ↔ ¬ other.IsPacked) := by
  obtain ⟨svc', hplain⟩ := exists_handle_eager []
  obtain ⟨svc'', hpacked⟩ := exists_handle_eager (preferring "gzip")
  have haccepts : (RequestInfo.ofHeaders (preferring "gzip")).acceptsGzip = true := by
    decide +kernel
  rw [haccepts] at hpacked
  have hbodies : (dress (listener []).request (.ofObject (heard false))).body ≠
      (dress (listener (preferring "gzip")).request (.ofObject (heard true))).body := by
    rw [body_dress, body_dress]
    exact heard_ne
  obtain ⟨hvaries, hvaries', hone⟩ := varies_iff_packed sameBut_listener rfl (names_listener [])
    hplain hpacked (status_dress _ _) (status_dress _ _)
  exact ⟨_, svc', _, svc'', hplain, hpacked, status_dress _ _, status_dress _ _, hbodies, hvaries,
    hvaries', hone hbodies⟩

/--
**What is sent as it is does not say that there is a compressed form.** An object is read twice from
one store, and the requests differ only in what they accept. The bodies differ, and the answer to
who accepts nothing does not say that it depends on what is accepted.
-/
theorem exists_silent_form :
    ∃ answer svc' other svc'', eager.handle (listener []) = .ok (answer, svc') ∧
      eager.handle (listener (preferring "gzip")) = .ok (other, svc'') ∧
      (listener []).SameBut "accept-encoding" (listener (preferring "gzip")) ∧
      answer.status = 200 ∧ other.status = 200 ∧ answer.body ≠ other.body ∧
      other.VariesBy "accept-encoding" ∧ ¬ answer.VariesBy "accept-encoding" := by
  obtain ⟨svc', hplain⟩ := exists_handle_eager []
  obtain ⟨svc'', hpacked⟩ := exists_handle_eager (preferring "gzip")
  have haccepts : (RequestInfo.ofHeaders (preferring "gzip")).acceptsGzip = true := by
    decide +kernel
  rw [haccepts] at hpacked
  refine ⟨_, svc', _, svc'', hplain, hpacked, sameBut_listener, status_dress _ _, status_dress _ _,
    ?_, variesBy_dress_ofObject_iff.2 rfl, fun hvaries => ?_⟩
  · rw [body_dress, body_dress]
    exact heard_ne
  · exact absurd (variesBy_dress_ofObject_iff.1 hvaries) (by decide)

end forms

end ReadThrough.Http
