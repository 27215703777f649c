import ReadThrough.Proofs.Cache.Soundness
import ReadThrough.Proofs.Http.Site

/-!
# Servers at work

A server that settings ask for answers requests and is swept. Requests overlap: a call that one of
them waits for may come back at any time, and with any outcome (`Service.Reachable`).

Every segment of a request does at most one operation of the cache (`leads_start`, `leads_resume`),
and none changes the policy. So whatever a server has done, its bounds, its lifetimes and its policy
are those that its environment asks for (`Service.Reachable.bears`), and its cache is sound
(`Service.Reachable.sound`).
-/

namespace ReadThrough

open Backend

/-! ## One segment, one operation -/

namespace Cache

/-- The second cache is the first, or comes of it by one operation. -/
inductive Leads (c : Cache) : Cache → Prop where
  | idle : Leads c c
  | get (m : Moment) (key : String) : Leads c (c.get m key).2
  | delete (key : String) : Leads c (c.delete key).2
  | sweep (m : Moment) : Leads c (c.sweep m).2
  | insert {m : Moment} {key : String} {content : Bytes} {metadata : Metadata}
    {expected : Option UInt64} {done : Insertion}
    (h : c.insert m key content metadata expected = .ok done) : Leads c done.cache

theorem leads_start (r : ObjectRequest) (m : Moment) (c : Cache) : c.Leads (r.start m c).2 := by
  cases hstart : r.start m c with | mk p c'
  cases starts_of_eq hstart with
  | unnamed => exact .idle
  | found | missed | foundHead | missedHead => exact .get m _
  | undecodable | put | delete => exact .delete _

theorem leads_resume {a : Awaiting} {outcome : a.call.Outcome} {m : Moment} {c : Cache}
    {finished : Finished} (h : a.resume outcome m c = .ok finished) : c.Leads finished.cache := by
  cases resumes_of_eq h with
  | fetchFailed | storeFailed | removeFailed | statFailed | described => exact .idle
  | fetched _ hinsert => exact .insert hinsert
  | stored | absent | removed => exact .delete _

/-! ## What operations keep -/

theorem Leads.sameSettings {c c' : Cache} (h : c.Leads c') : c.SameSettings c' := by
  cases h with
  | idle => exact ⟨rfl, rfl, rfl⟩
  | get m key => exact (c.shrinks_get m key).toSameSettings
  | delete key => exact c.sameSettings_delete key
  | sweep m => exact (c.shrinks_sweep m).toSameSettings
  | insert hdone => exact (sameTerms_insert hdone).toSameSettings

theorem Leads.sound {c c' : Cache} (h : c.Leads c') (hsound : c.Sound)
    (hmax : c.maxSize.toNat < 2 ^ 63) : c'.Sound := by
  cases h with
  | idle => exact hsound
  | get m key => exact hsound.get m key
  | delete key => exact hsound.delete key
  | sweep m => exact hsound.sweep m
  | insert hdone => exact hsound.insert hmax hdone

end Cache

/-! ## Servers -/

namespace Http

theorem leads_start (svc : Service) (req : Request) (m : Moment) :
    svc.cache.Leads (start svc req m).2.cache := by
  cases hadmitted : admitted? svc.access req with
  | none =>
    rw [(stops_of_not_admitted hadmitted m).1]
    exact .idle
  | some r =>
    rw [(proceeds_of_admitted hadmitted m).1]
    exact Cache.leads_start r m svc.cache

theorem resume_cases {svc svc' : Service} {req : Request} {a : Awaiting}
    {outcome : a.call.Outcome} {m : Moment} {r : Response}
    (h : resume svc req a outcome m = .ok (r, svc')) :
    svc.cache.Leads svc'.cache ∧ svc'.access = svc.access := by
  unfold resume at h
  obtain ⟨finished, hresume, h⟩ := exists_of_bind_eq_ok h
  obtain ⟨-, rfl⟩ := Prod.mk.inj (Except.ok.inj h)
  exact ⟨Cache.leads_resume hresume, rfl⟩

end Http

namespace Service

variable {env : Environment} {svc : Service}

/--
A server that the environment asks for, after any segments of requests and any sweeps. Nothing is
asked of the store: calls may come back with any outcome.
-/
inductive Reachable (env : Environment) : Service → Prop where
  | fresh : Reachable env (.ofSettings (.ofEnvironment env))
  | start {svc : Service} (h : Reachable env svc) (req : Http.Request) (m : Moment) :
    Reachable env (Http.start svc req m).2
  | resume {svc svc' : Service} (h : Reachable env svc) {req : Http.Request} {a : Awaiting}
    {outcome : a.call.Outcome} {m : Moment} {r : Http.Response}
    (hresume : Http.resume svc req a outcome m = .ok (r, svc')) : Reachable env svc'
  | sweep {svc : Service} (h : Reachable env svc) (m : Moment) :
    Reachable env { svc with cache := (svc.cache.sweep m).2 }

/-- What a request leads a server to can be reached too. -/
theorem Reachable.serve {s s' : Http.Site} {x : Http.Exchange} {r : Http.Response}
    (hreachable : Reachable env s.service) (h : s.serve x = .ok (r, s')) :
    Reachable env s'.service := by
  have hstart := hreachable.start x.request x.before
  unfold Http.Site.serve at h
  cases hstage : Http.start s.service x.request x.before with | mk stage svc
  rw [hstage] at h hstart
  cases stage with
  | done answer =>
    obtain ⟨-, rfl⟩ := Prod.mk.inj (Except.ok.inj h)
    exact hstart
  | waiting a =>
    dsimp only at h hstart
    obtain ⟨served, hresume, h⟩ := exists_of_bind_eq_ok h
    obtain ⟨-, rfl⟩ := Prod.mk.inj (Except.ok.inj h)
    exact hstart.resume hresume

/-- The server has the bounds, the lifetimes and the policy of the settings. -/
structure Bears (settings : Settings) (svc : Service) : Prop where
  maxSize : svc.cache.maxSize = settings.maxCacheSize
  ttl : svc.cache.ttl = settings.ttl.toNat * Time.second
  policy : svc.cache.policy = ⟨settings.minCompressSize⟩
  access : svc.access = ⟨settings.policy, settings.policyEnabled⟩

theorem Bears.leads {settings : Settings} {svc svc' : Service} (h : svc.Bears settings)
    (hleads : svc.cache.Leads svc'.cache) (haccess : svc'.access = svc.access) :
    svc'.Bears settings where
  maxSize := hleads.sameSettings.maxSize.trans h.maxSize
  ttl := hleads.sameSettings.ttl.trans h.ttl
  policy := hleads.sameSettings.policy.trans h.policy
  access := haccess.trans h.access

/-- Whatever a server has done, it is still the one that was asked for. -/
theorem Reachable.bears (h : Reachable env svc) : svc.Bears (.ofEnvironment env) := by
  induction h with
  | fresh => exact ⟨rfl, rfl, rfl, rfl⟩
  | @start svc _ req m ih =>
    exact ih.leads (Http.leads_start svc req m) (Http.access_start svc req m)
  | resume _ hresume ih =>
    obtain ⟨hleads, haccess⟩ := Http.resume_cases hresume
    exact ih.leads hleads haccess
  | sweep _ m ih => exact ih.leads (.sweep m) rfl

/-- The cache of a server is sound, whatever it has done. -/
theorem Reachable.sound (h : Reachable env svc)
    (hmax : (Settings.ofEnvironment env).maxCacheSize.toNat < 2 ^ 63) : svc.cache.Sound := by
  induction h with
  | fresh => exact Cache.sound_empty _ _ _
  | @start svc h req m ih =>
    exact (Http.leads_start svc req m).sound ih (h.bears.maxSize ▸ hmax)
  | resume h hresume ih =>
    exact (Http.resume_cases hresume).1.sound ih (h.bears.maxSize ▸ hmax)
  | sweep h m ih => exact Cache.Leads.sound (.sweep m) ih (h.bears.maxSize ▸ hmax)

end Service

end ReadThrough
