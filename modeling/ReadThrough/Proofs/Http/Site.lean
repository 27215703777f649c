import ReadThrough.Proofs.Cache.Operations
import ReadThrough.Proofs.Http.Authorisation
import ReadThrough.Proofs.Object.Isolation

/-!
# A server and the store behind it

A `Site` is a server in front of a store in memory. Its requests come over HTTP one after another
(`Site.serve`), with sweeps between them (`Site.run`).

* `start_of_refusal` — what the policy refuses is answered at once, and only counted and logged
* `start_of_no_refusal` — what it lets is answered as if there were no policy
* `serve_of_admitted`, `serve_of_not_admitted` — a request over HTTP is the object request that
  comes of it, or touches neither cache nor store
* `exists_run_eq_of_faithful` — hence what is known of object requests holds of a site
-/

namespace ReadThrough.Http

open Backend

/-- A server and the store in memory behind it. -/
structure Site where
  service : Service
  memory : Memory

/-- A request over HTTP and the moments of its segments. -/
structure Exchange where
  request : Request
  before : Moment
  /-- The time of the call. -/
  during : Time
  after : Moment

/-- What happens to a site. -/
inductive Site.Event where
  | exchange (x : Exchange)
  | sweep (m : Moment)

namespace Site

/-- A site with nothing cached and nothing stored. -/
def fresh (maxSize : UInt64) (ttl : Nat) (policy : CompressionPolicy) (access : AccessControl) :
    Site where
  service := .make (.empty maxSize ttl policy) access
  memory := .empty

/-- The cache and the store of a site. -/
def session (s : Site) : Session where
  cache := s.service.cache
  memory := s.memory

/-- The site after a sweep. -/
def sweep (s : Site) (m : Moment) : Site :=
  { s with service := { s.service with cache := (s.service.cache.sweep m).2 } }

/-- Answers a request. -/
def serve (s : Site) (x : Exchange) : Except Halt (Response × Site) :=
  match start s.service x.request x.before with
  | (.done r, service) => .ok (r, ⟨service, s.memory⟩)
  | (.waiting a, service) =>
    match s.memory.perform x.during a.call with
    | (reply, memory) => do
      let (r, service) ← resume service x.request a reply x.after
      return (r, ⟨service, memory⟩)

/-- Lets the events happen one after another, and gives the responses. -/
def run (s : Site) : List Event → Except Halt (List Response × Site)
  | [] => .ok ([], s)
  | .sweep m :: events => run (s.sweep m) events
  | .exchange x :: events => do
    let (r, s) ← s.serve x
    let (rs, s) ← s.run events
    return (r :: rs, s)

end Site

/-! ## The policy -/

section start

variable {svc : Service} {req : Request} {bucket key : String}

/-- What the policy refuses is answered at once, and only counted and logged. -/
theorem start_of_refusal (hmethod : req.method ≠ "OPTIONS")
    (hroute : Route.ofPath req.path = .object bucket key) {failure : RequestFailure}
    (hrefusal : refusal? svc.access req = some failure) (m : Moment) :
    ∃ metrics log, start svc req m =
      (.done (dress req (.ofFailure failure)), { svc with metrics := metrics, log := log }) := by
  unfold start
  simp only [if_neg hmethod, hroute]
  unfold startObject
  simp only [hrefusal]
  cases failure <;> exact ⟨_, _, rfl⟩

/-- The server without a policy. -/
def opened (svc : Service) : Service :=
  { svc with access := ⟨.empty, false⟩ }

/-- What the policy lets is answered as if there were none. -/
theorem start_of_no_refusal (hmethod : req.method ≠ "OPTIONS")
    (hroute : Route.ofPath req.path = .object bucket key)
    (hrefusal : refusal? svc.access req = none) (m : Moment) :
    start svc req m = ((start (opened svc) req m).1,
      { (start (opened svc) req m).2 with access := svc.access }) := by
  have hopened : refusal? (opened svc).access req = none := rfl
  unfold start
  simp only [if_neg hmethod, hroute]
  unfold startObject
  simp only [hrefusal, hopened]
  cases objectRequest req bucket key with
  | error r => rfl
  | ok request =>
    dsimp only [opened]
    obtain ⟨progress, cache⟩ := request.start m svc.cache
    cases progress <;> rfl

/-- No request changes the policy. -/
theorem access_start (svc : Service) (req : Request) (m : Moment) :
    (start svc req m).2.access = svc.access := by
  unfold start
  split
  · rfl
  · dsimp only
    split
    · unfold startObject
      dsimp only
      split
      · rfl
      · rfl
      · split
        · rfl
        · split <;> rfl
    all_goals rfl

theorem exists_resume_eq {a : Awaiting} {outcome : a.call.Outcome} {m : Moment}
    {finished : Finished} (h : a.resume outcome m svc.cache = .ok finished) (req : Request) :
    ∃ metrics log, resume svc req a outcome m = .ok (dress req (.ofOutcome finished.outcome),
      { svc with cache := finished.cache, metrics := metrics, log := log }) := by
  unfold resume
  rw [h]
  exact ⟨_, _, rfl⟩

end start

/-! ## Object requests -/

section serve

variable {s : Site} {x : Exchange}

/-- A request over HTTP is the object request that comes of it. -/
theorem serve_of_admitted {r : ObjectRequest}
    (hadmitted : admitted? s.service.access x.request = some r) {outcome : ObjectOutcome}
    {after : Session}
    (hserve : s.session.serve ⟨r, x.before, x.during, x.after⟩ = .ok (outcome, after)) :
    ∃ s', s.serve x = .ok (dress x.request (.ofOutcome outcome), s') ∧ s'.session = after ∧
      s'.service.access = s.service.access := by
  obtain ⟨hcache, hstage⟩ := proceeds_of_admitted hadmitted x.before
  have haccess := access_start s.service x.request x.before
  unfold Session.serve at hserve
  unfold Site.serve
  cases hstart : start s.service x.request x.before with | mk stage svc
  cases hrequest : r.start x.before s.service.cache with | mk progress c
  simp only [Site.session, hstart, hrequest] at hserve hcache hstage haccess ⊢
  subst hcache hstage
  cases progress with
  | done answer =>
    obtain ⟨rfl, rfl⟩ := Prod.mk.inj (Except.ok.inj hserve)
    exact ⟨_, rfl, rfl, haccess⟩
  | waiting a =>
    dsimp only at hserve ⊢
    obtain ⟨finished, hresume, hserve⟩ := exists_of_bind_eq_ok hserve
    obtain ⟨rfl, rfl⟩ := Prod.mk.inj (Except.ok.inj hserve)
    obtain ⟨metrics, log, hresumed⟩ := exists_resume_eq hresume x.request
    rw [hresumed]
    exact ⟨_, rfl, rfl, haccess⟩

/-- A request over HTTP that is answered is the object request that comes of it. -/
theorem exists_of_serve_eq_ok {r : ObjectRequest}
    (hadmitted : admitted? s.service.access x.request = some r) {answer : Response} {s' : Site}
    (hserve : s.serve x = .ok (answer, s')) :
    ∃ outcome, s.session.serve ⟨r, x.before, x.during, x.after⟩ = .ok (outcome, s'.session) ∧
      answer = dress x.request (.ofOutcome outcome) ∧ s'.service.access = s.service.access := by
  cases hsession : s.session.serve ⟨r, x.before, x.during, x.after⟩ with
  | ok served =>
    obtain ⟨outcome, after⟩ := served
    obtain ⟨t, hsite, rfl, haccess⟩ := serve_of_admitted hadmitted hsession
    rw [hserve] at hsite
    obtain ⟨rfl, rfl⟩ := Prod.mk.inj (Except.ok.inj hsite)
    exact ⟨outcome, rfl, rfl, haccess⟩
  | error halt =>
    -- then the object request halts after its call, and so does the request over HTTP
    obtain ⟨hcache, hstage⟩ := proceeds_of_admitted hadmitted x.before
    unfold Session.serve at hsession
    unfold Site.serve at hserve
    cases hstart : start s.service x.request x.before with | mk stage svc
    cases hrequest : r.start x.before s.service.cache with | mk progress c
    simp only [Site.session, hstart, hrequest] at hserve hcache hstage hsession
    subst hcache hstage
    cases progress with
    | done answer => cases hsession
    | waiting a =>
      dsimp only at hserve hsession
      cases hresume : a.resume (s.memory.perform x.during a.call).1 x.after svc.cache with
      | ok finished =>
        rw [hresume] at hsession
        cases hsession
      | error stop =>
        rw [resume, hresume] at hserve
        cases hserve

/-- What the policy refuses is answered at once, and touches neither cache nor store. -/
theorem serve_of_refusal {bucket key : String} (hmethod : x.request.method ≠ "OPTIONS")
    (hroute : Route.ofPath x.request.path = .object bucket key) {failure : RequestFailure}
    (hrefusal : refusal? s.service.access x.request = some failure) :
    ∃ s', s.serve x = .ok (dress x.request (.ofFailure failure), s') ∧ s'.session = s.session ∧
      s'.service.access = s.service.access := by
  obtain ⟨metrics, log, hstart⟩ := start_of_refusal hmethod hroute hrefusal x.before
  unfold Site.serve
  rw [hstart]
  exact ⟨_, rfl, rfl, rfl⟩

/-- Any other request touches neither cache nor store. -/
theorem serve_of_not_admitted (hadmitted : admitted? s.service.access x.request = none) :
    ∃ r s', s.serve x = .ok (r, s') ∧ s'.session = s.session ∧
      s'.service.access = s.service.access := by
  obtain ⟨r, svc, hstart, hcache, -⟩ := own_of_not_admitted hadmitted x.before
  have haccess := access_start s.service x.request x.before
  unfold Site.serve
  rw [hstart] at haccess ⊢
  exact ⟨r, ⟨svc, s.memory⟩, rfl, by rw [Site.session, hcache, Site.session], haccess⟩

end serve

/-! ## Runs -/

/-- What a run asks of an event: whose objects it may name, and that the clock can go on. -/
def Site.Event.Admissible (objects : ObjectId → Prop) (ttl : Nat) : Site.Event → Prop
  | .exchange x =>
    (∀ id, Names x.request.path id → objects id) ∧ x.after.now.nanos + ttl < Instant.limit
  | .sweep _ => True

/-- The event is no request to write or to delete the object. -/
def Site.Event.Leaves (id : ObjectId) : Site.Event → Prop
  | .exchange x =>
    Names x.request.path id → x.request.method ≠ "PUT" ∧ x.request.method ≠ "DELETE"
  | .sweep _ => True

theorem Asks.isRead {req : Request} {r : ObjectRequest} (h : Asks req r)
    (hput : req.method ≠ "PUT") (hdelete : req.method ≠ "DELETE") : r.isRead = true := by
  cases h with
  | get | head => rfl
  | put h => exact absurd h hput
  | delete h => exact absurd h hdelete

theorem snd_direct_of_isRead {r : ObjectRequest} (hread : r.isRead = true)
    (policy : CompressionPolicy) (now : Time) (memory : Memory) :
    (r.direct policy now memory).2 = memory := by
  unfold ObjectRequest.direct
  split
  · rfl
  · cases r with
    | get id info =>
      dsimp only [Memory.perform]
      cases memory.find? id <;> rfl
    | head id =>
      dsimp only [Memory.perform]
      cases memory.find? id <;> rfl
    | put | delete => cases hread

/-- What comes of a request that is none to write or to delete the object leaves the object. -/
theorem find?_direct_of_leaves {x : Exchange} {access : AccessControl} {r : ObjectRequest}
    (hadmitted : admitted? access x.request = some r) {id : ObjectId}
    (hleaves : (Site.Event.exchange x).Leaves id) (policy : CompressionPolicy) (now : Time)
    (memory : Memory) : (r.direct policy now memory).2.find? id = memory.find? id := by
  by_cases hsame : id = r.id
  · obtain ⟨hput, hdelete⟩ := hleaves (hsame ▸ names_of_admitted hadmitted)
    obtain ⟨_, _, -, -, hmakes⟩ := admitted?_eq_some_iff.1 hadmitted
    rw [snd_direct_of_isRead (hmakes.asks.isRead hput hdelete)]
  · exact r.find?_direct_of_ne policy now memory hsame

section faithful

variable {objects : ObjectId → Prop} {ttl : Nat} {policy : CompressionPolicy} {s : Site}

theorem faithful_site_fresh (maxSize : UInt64) (access : AccessControl) :
    (Site.fresh maxSize ttl policy access).session.Faithful objects ttl policy :=
  Session.faithful_fresh maxSize

/-- The object request of a faithful site is answered as the store alone would. -/
theorem exists_serve_eq_of_admitted (hkeys : SeparateKeys objects)
    (h : s.session.Faithful objects ttl policy) {x : Exchange}
    (hx : (Site.Event.exchange x).Admissible objects ttl) {r : ObjectRequest}
    (hadmitted : admitted? s.service.access x.request = some r) :
    ∃ outcome s', s.serve x = .ok (dress x.request (.ofOutcome outcome), s') ∧
      s'.session.Faithful objects ttl policy ∧ s'.service.access = s.service.access ∧
      ObjectOutcome.unmarked outcome =
        ObjectOutcome.unmarked (r.direct policy x.during s.memory).1 ∧
      s'.memory = (r.direct policy x.during s.memory).2 := by
  have hid : objects r.id := hx.1 r.id (names_of_admitted hadmitted)
  obtain ⟨outcome, after, hserve, hfaithful, hanswer, hmemory⟩ :=
    h.serve hkeys (v := ⟨r, x.before, x.during, x.after⟩) hid hx.2
  obtain ⟨s', hsite, hafter, haccess⟩ := serve_of_admitted hadmitted hserve
  subst hafter
  exact ⟨outcome, s', hsite, hfaithful, haccess, hanswer, hmemory⟩

/-- So is one of which no more is known than that it has been answered. -/
theorem alike_of_serve_eq_ok (hkeys : SeparateKeys objects)
    (h : s.session.Faithful objects ttl policy) {x : Exchange} {r : ObjectRequest}
    (hadmitted : admitted? s.service.access x.request = some r) (hid : objects r.id)
    {answer : Response} {s' : Site} (hserve : s.serve x = .ok (answer, s')) :
    ∃ outcome, answer = dress x.request (.ofOutcome outcome) ∧
      s'.session.Faithful objects ttl policy ∧ s'.service.access = s.service.access ∧
      ObjectOutcome.unmarked outcome =
        ObjectOutcome.unmarked (r.direct policy x.during s.memory).1 ∧
      s'.memory = (r.direct policy x.during s.memory).2 := by
  obtain ⟨outcome, hsession, hanswer, haccess⟩ := exists_of_serve_eq_ok hadmitted hserve
  obtain ⟨outcome', after, hserve', hfaithful, hsame, hmemory⟩ :=
    h.alike hkeys (fun _ => hid) hsession
  rw [hsession] at hserve'
  obtain ⟨rfl, rfl⟩ := Prod.mk.inj (Except.ok.inj hserve')
  exact ⟨outcome, hanswer, hfaithful, haccess, hsame, hmemory⟩

/-- A request leaves a faithful site, with all objects but the one that it writes or deletes. -/
theorem exists_serve_eq_of_faithful (hkeys : SeparateKeys objects)
    (h : s.session.Faithful objects ttl policy) {x : Exchange}
    (hx : (Site.Event.exchange x).Admissible objects ttl) :
    ∃ r s', s.serve x = .ok (r, s') ∧ s'.session.Faithful objects ttl policy ∧
      s'.service.access = s.service.access ∧
      ∀ id, (Site.Event.exchange x).Leaves id → s'.memory.find? id = s.memory.find? id := by
  cases hadmitted : admitted? s.service.access x.request with
  | none =>
    obtain ⟨r, s', hserve, hsession, haccess⟩ := serve_of_not_admitted hadmitted
    refine ⟨r, s', hserve, hsession ▸ h, haccess, fun id _ => ?_⟩
    exact congrArg (fun session : Session => session.memory.find? id) hsession
  | some r =>
    obtain ⟨outcome, s', hserve, hfaithful, haccess, -, hmemory⟩ :=
      exists_serve_eq_of_admitted hkeys h hx hadmitted
    refine ⟨_, s', hserve, hfaithful, haccess, fun id hleaves => ?_⟩
    rw [hmemory]
    exact find?_direct_of_leaves hadmitted hleaves policy x.during s.memory

/-- A run leaves a faithful site, with all objects that it neither writes nor deletes. -/
theorem exists_run_eq_of_faithful (hkeys : SeparateKeys objects)
    (h : s.session.Faithful objects ttl policy) {events : List Site.Event}
    (hevents : ∀ event ∈ events, event.Admissible objects ttl) :
    ∃ responses s', s.run events = .ok (responses, s') ∧
      s'.session.Faithful objects ttl policy ∧ s'.service.access = s.service.access ∧
      ∀ id, (∀ event ∈ events, event.Leaves id) → s'.memory.find? id = s.memory.find? id := by
  induction events generalizing s with
  | nil => exact ⟨[], s, rfl, h, rfl, fun _ _ => rfl⟩
  | cons event events ih =>
    obtain ⟨hevent, hrest⟩ := List.forall_mem_cons.1 hevents
    cases event with
    | sweep m =>
      obtain ⟨responses, s', hrun, hfaithful, haccess, hkept⟩ :=
        ih (s := s.sweep m) (h.shrinks (s.service.cache.shrinks_sweep m)) hrest
      refine ⟨responses, s', hrun, hfaithful, haccess, fun id hleaves => ?_⟩
      exact hkept id (List.forall_mem_cons.1 hleaves).2
    | exchange x =>
      obtain ⟨r, s₁, hserve, hfaithful₁, haccess₁, hkept₁⟩ :=
        exists_serve_eq_of_faithful hkeys h hevent
      obtain ⟨responses, s', hrun, hfaithful, haccess, hkept⟩ := ih hfaithful₁ hrest
      refine ⟨r :: responses, s', ?_, hfaithful, haccess.trans haccess₁, fun id hleaves => ?_⟩
      · simp only [Site.run, hserve, hrun, bind, Except.bind]
        rfl
      · obtain ⟨hfirst, hothers⟩ := List.forall_mem_cons.1 hleaves
        rw [hkept id hothers, hkept₁ id hfirst]

end faithful

end ReadThrough.Http
