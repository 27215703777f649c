import ReadThrough.Proofs.Cache.Contents
import ReadThrough.Proofs.Object.Coherence
import ReadThrough.Proofs.Object.Isolation

/-!
# A failed request is not noticed

A write deletes the key of its object before it knows whether it will succeed, and then it may fail:
its body does not decode, or the store fails. A read may fail as well, for there is no such object
or the store fails again. In each case the work is left half done, and nobody can tell.

* `attempt_error` — the store is as before, and the cache has at most lost an entry of the object
* `Faithful.attempt` — a store that fails leaves a faithful session, and does not change itself
* `Faithful.indistinct` — sessions with the same store show the same
* `unnoticed_of_error` — the main theorem

Nothing is asked of the clock but where it is said that an answer is given. A request without a name
is for no object, so it may look like any.
-/

namespace ReadThrough

open Backend

/-! ## Before the call -/

/-- Before its call a request touches the entry of its own object at most, and adds none. -/
theorem clears_start (r : ObjectRequest) (m : Moment) (c : Cache) :
    c.Clears r.id.cacheKey (r.start m c).2 := by
  cases hstart : r.start m c with | mk p c'
  cases starts_of_eq hstart with
  | unnamed => exact c.clears_refl _
  | found | missed | foundHead | missedHead => exact c.clears_get m _
  | undecodable | put | delete => exact c.clears_delete _

/-! ## Calls that fail -/

/-- A request fails after its call only if the call has failed, and then leaves the cache alone. -/
theorem resume_error {a : Awaiting} {reply : a.call.Outcome} {m : Moment} {c : Cache}
    {finished : Finished} {failure : RequestFailure} (h : a.resume reply m c = .ok finished)
    (hfailed : finished.outcome = .error failure) :
    finished.cache = c ∧ ∃ reason, reply = .error reason := by
  cases resumes_of_eq h with
  | fetchFailed | storeFailed | removeFailed | statFailed => exact ⟨rfl, _, rfl⟩
  | fetched | stored | absent | removed | described => cases hfailed

/-- After a failed call a request may delete its key again, and does nothing else to the cache. -/
theorem cache_resume_of_error {a : Awaiting} {reason : Failure} {m : Moment} {c : Cache}
    {finished : Finished} (h : a.resume (.error reason) m c = .ok finished) :
    finished.cache = c ∨ finished.cache = (c.delete a.call.id.cacheKey).2 := by
  cases a with
  | get | put | head =>
    cases resumes_of_eq h
    exact Or.inl rfl
  | delete id =>
    cases resumes_of_eq h with
    | removeFailed => exact Or.inl rfl
    | absent => exact Or.inr rfl

theorem memory_eq_of_attempt_eq_error {memory memory' : Memory} {now : Time}
    {fault : Option Failure} {call : Call} {reason : Failure}
    (h : memory.attempt now fault call = (.error reason, memory')) : memory' = memory := by
  cases fault with
  | some failure =>
    obtain ⟨-, rfl⟩ := Prod.mk.inj h
    rfl
  | none =>
    have heffect := effect_perform memory now call
    rw [show memory.perform now call = (.error reason, memory') from h] at heffect
    rcases heffect.written_or_same with ⟨-, reply, hreply⟩ | hsame
    · cases hreply
    · exact hsame

namespace Session

variable {objects : ObjectId → Prop} {ttl : Nat} {policy : CompressionPolicy} {s s' : Session}

/-! ## Requests that fail -/

/-- A request that fails leaves the store as it was, and costs at most an entry of its object. -/
theorem attempt_error {v : Visit} {fault : Option Failure} {failure : RequestFailure}
    (h : s.attempt v fault = .ok (.error failure, s')) :
    s'.memory = s.memory ∧ s.cache.Clears v.request.id.cacheKey s'.cache := by
  have hstarted := clears_start v.request v.before s.cache
  unfold attempt at h
  cases hstart : v.request.start v.before s.cache with
  | mk p c =>
    rw [hstart] at h hstarted
    cases p with
    | done outcome =>
      obtain ⟨-, rfl⟩ := Prod.mk.inj (Except.ok.inj h)
      exact ⟨rfl, hstarted⟩
    | waiting a =>
      cases hcall : s.memory.attempt v.during fault a.call with
      | mk reply memory =>
        simp only [hcall] at h
        obtain ⟨finished, hresume, hlast⟩ := exists_of_bind_eq_ok h
        obtain ⟨hfailed, rfl⟩ := Prod.mk.inj (Except.ok.inj hlast)
        obtain ⟨hcache, reason, rfl⟩ := resume_error hresume hfailed
        refine ⟨memory_eq_of_attempt_eq_error hcall, ?_⟩
        show s.cache.Clears v.request.id.cacheKey finished.cache
        rw [hcache]
        exact hstarted

/-- A request without a name makes no call, and leaves everything exactly as it was. -/
theorem attempt_of_unnamed (s : Session) {v : Visit} (fault : Option Failure)
    (hunnamed : ObjectRequest.named v.request.id = false) :
    s.call? v = none ∧ s.attempt v fault = .ok (.error .emptyName, s) := by
  have hstart := start_of_unnamed hunnamed v.before s.cache
  refine ⟨?_, ?_⟩
  · unfold call?
    rw [hstart]
  · unfold attempt
    rw [hstart]

/-! ## Runs against a store that fails -/

/-- What happens to a session whose store may fail: a request with the reason, or a sweep. -/
inductive Turn where
  | visit (v : Visit) (fault : Option Failure)
  | sweep (m : Moment)

/-- Lets the turns happen one after another, and gives the outcomes of the requests. -/
def attemptAll (s : Session) : List Turn → Except Halt (List ObjectOutcome × Session)
  | [] => .ok ([], s)
  | .sweep m :: turns => attemptAll { s with cache := (s.cache.sweep m).2 } turns
  | .visit v fault :: turns => do
    let (outcome, s) ← s.attempt v fault
    let (outcomes, s) ← s.attemptAll turns
    return (outcome :: outcomes, s)

/-- A request is for one of the objects, or has no name. -/
def Turn.Inside (objects : ObjectId → Prop) : Turn → Prop
  | .visit v _ => ObjectRequest.named v.request.id = true → objects v.request.id
  | .sweep _ => True

/-- The lifetime of what a request may cache ends at an instant that the clock can show. -/
def Turn.EndsInTime (ttl : Nat) : Turn → Prop
  | .visit v _ => v.after.now.nanos + ttl < Instant.limit
  | .sweep _ => True

/-- What a turn leaves in the store: a request whose call fails leaves it as it is. -/
def Turn.leaves (policy : CompressionPolicy) (memory : Memory) : Turn → Memory
  | .visit v none => (v.request.direct policy v.during memory).2
  | .visit _ (some _) => memory
  | .sweep _ => memory

theorem Faithful.start (h : s.Faithful objects ttl policy) (r : ObjectRequest) (m : Moment) :
    Faithful objects ttl policy ⟨(r.start m s.cache).2, s.memory⟩ := by
  rcases Interleaving.start_cases r m s.cache with hshrinks | hdeleted
  · exact h.shrinks hshrinks
  · rw [hdeleted]
    exact h.delete (fun _ _ => rfl) (h.sized r.id)

/-- A call that fails leaves the session faithful and the store as it is. -/
theorem Faithful.attempt_some (h : s.Faithful objects ttl policy) {v : Visit} {reason : Failure}
    {outcome : ObjectOutcome} (hattempt : s.attempt v (some reason) = .ok (outcome, s')) :
    s'.Faithful objects ttl policy ∧ s'.memory = s.memory := by
  have hstarted := h.start v.request v.before
  unfold attempt at hattempt
  cases hstart : v.request.start v.before s.cache with
  | mk p c =>
    rw [hstart] at hattempt hstarted
    cases p with
    | done answer =>
      obtain ⟨-, rfl⟩ := Prod.mk.inj (Except.ok.inj hattempt)
      exact ⟨hstarted, rfl⟩
    | waiting a =>
      obtain ⟨finished, hresume, hlast⟩ := exists_of_bind_eq_ok hattempt
      obtain ⟨-, rfl⟩ := Prod.mk.inj (Except.ok.inj hlast)
      refine ⟨?_, rfl⟩
      rcases cache_resume_of_error hresume with hsame | hdeleted
      · show Faithful objects ttl policy ⟨finished.cache, s.memory⟩
        rw [hsame]
        exact hstarted
      · show Faithful objects ttl policy ⟨finished.cache, s.memory⟩
        rw [hdeleted]
        exact hstarted.delete (fun _ _ => rfl) (h.sized a.call.id)

/-- A request leaves the session faithful, whether its call fails or not. -/
theorem Faithful.attempt (hkeys : SeparateKeys objects) (h : s.Faithful objects ttl policy)
    {v : Visit} {fault : Option Failure} (hid : (Turn.visit v fault).Inside objects)
    {outcome : ObjectOutcome} (hattempt : s.attempt v fault = .ok (outcome, s')) :
    s'.Faithful objects ttl policy ∧ s'.memory = (Turn.visit v fault).leaves policy s.memory := by
  cases fault with
  | some reason => exact h.attempt_some hattempt
  | none =>
    obtain ⟨answer, t, hserve, hfaithful, -, hmemory⟩ := h.alike hkeys hid hattempt
    rw [← attempt_none, hattempt] at hserve
    obtain ⟨-, rfl⟩ := Prod.mk.inj (Except.ok.inj hserve)
    exact ⟨hfaithful, hmemory⟩

/-- A run leaves a faithful session, and in the store what its requests leave there. -/
theorem Faithful.attemptAll (hkeys : SeparateKeys objects) (h : s.Faithful objects ttl policy)
    {turns : List Turn} (hturns : ∀ turn ∈ turns, turn.Inside objects)
    {outcomes : List ObjectOutcome} (hrun : s.attemptAll turns = .ok (outcomes, s')) :
    s'.Faithful objects ttl policy ∧
      s'.memory = turns.foldl (Turn.leaves policy) s.memory := by
  induction turns generalizing s outcomes with
  | nil =>
    obtain ⟨-, rfl⟩ := Prod.mk.inj (Except.ok.inj hrun)
    exact ⟨h, rfl⟩
  | cons turn turns ih =>
    obtain ⟨hturn, hrest⟩ := List.forall_mem_cons.mp hturns
    cases turn with
    | sweep m =>
      have hswept := ih (h.shrinks (s.cache.shrinks_sweep m)) hrest hrun
      exact hswept
    | visit v fault =>
      rw [Session.attemptAll] at hrun
      obtain ⟨⟨outcome, t⟩, hattempt, hrun⟩ := exists_of_bind_eq_ok hrun
      obtain ⟨⟨others, u⟩, hlater, hlast⟩ := exists_of_bind_eq_ok hrun
      obtain ⟨-, rfl⟩ := Prod.mk.inj (Except.ok.inj hlast)
      obtain ⟨hfaithful, hmemory⟩ := h.attempt hkeys hturn hattempt
      rw [List.foldl_cons, ← hmemory]
      exact ih hfaithful hrest hlater

theorem Faithful.exists_attemptAll_eq_ok (hkeys : SeparateKeys objects)
    (h : s.Faithful objects ttl policy) {turns : List Turn}
    (hturns : ∀ turn ∈ turns, turn.Inside objects)
    (hends : ∀ turn ∈ turns, turn.EndsInTime ttl) :
    ∃ outcomes t, s.attemptAll turns = .ok (outcomes, t) := by
  induction turns generalizing s with
  | nil => exact ⟨[], s, rfl⟩
  | cons turn turns ih =>
    obtain ⟨hturn, hrest⟩ := List.forall_mem_cons.mp hturns
    obtain ⟨hend, hlater⟩ := List.forall_mem_cons.mp hends
    cases turn with
    | sweep m => exact ih (h.shrinks (s.cache.shrinks_sweep m)) hrest hlater
    | visit v fault =>
      have hclock : v.after.now.nanos + s.cache.ttl < Instant.limit := by
        rw [h.ttl_eq]
        exact hend
      obtain ⟨⟨outcome, t⟩, hattempt⟩ := exists_attempt_eq_ok fault hclock
      obtain ⟨outcomes, u, hrun⟩ := ih (h.attempt hkeys hturn hattempt).1 hrest hlater
      refine ⟨outcome :: outcomes, u, ?_⟩
      rw [Session.attemptAll, hattempt]
      show (t.attemptAll turns >>= _) = _
      rw [hrun]
      rfl

/-! ## Sessions that cannot be told apart -/

/--
The sessions have the same store, and what is seen of a request is the same in both. An answer is
given where the lifetime of what may be cached ends in time.
-/
structure Indistinct (objects : ObjectId → Prop) (s s' : Session) : Prop where
  memory : s'.memory = s.memory
  seen : ∀ w : Visit, (Turn.visit w none).Inside objects → ∀ outcome outcome',
    s.seen w = .ok outcome → s'.seen w = .ok outcome' → outcome' = outcome
  answered : ∀ w : Visit, (Turn.visit w none).Inside objects →
    w.after.now.nanos + s.cache.ttl < Instant.limit →
      ∃ outcome, s.seen w = .ok outcome ∧ s'.seen w = .ok outcome

/-- What is seen of a request is what the store alone would show. -/
theorem Faithful.eq_of_seen_eq_ok (hkeys : SeparateKeys objects)
    (h : s.Faithful objects ttl policy) {w : Visit} (hid : (Turn.visit w none).Inside objects)
    {outcome : ObjectOutcome} (hseen : s.seen w = .ok outcome) :
    outcome = ObjectOutcome.unmarked (w.request.direct policy w.during s.memory).1 := by
  unfold Session.seen at hseen
  cases hserve : s.serve w with
  | error stop =>
    rw [hserve] at hseen
    cases hseen
  | ok served =>
    obtain ⟨answer, t, halike, -, hanswer, -⟩ := h.alike hkeys hid hserve
    rw [halike] at hseen
    rw [← hanswer]
    exact (Except.ok.inj hseen).symm

theorem exists_seen_eq_ok {w : Visit} (hclock : w.after.now.nanos + s.cache.ttl < Instant.limit) :
    ∃ outcome, s.seen w = .ok outcome := by
  obtain ⟨served, hserve⟩ := exists_attempt_eq_ok none hclock
  rw [attempt_none] at hserve
  refine ⟨ObjectOutcome.unmarked served.1, ?_⟩
  rw [Session.seen, hserve]
  rfl

/-- Faithful sessions with the same store cannot be told apart. -/
theorem Faithful.indistinct (hkeys : SeparateKeys objects) (h : s.Faithful objects ttl policy)
    (h' : s'.Faithful objects ttl policy) (hmemory : s'.memory = s.memory) :
    Indistinct objects s s' := by
  have hseen : ∀ w : Visit, (Turn.visit w none).Inside objects → ∀ outcome outcome',
      s.seen w = .ok outcome → s'.seen w = .ok outcome' → outcome' = outcome := by
    intro w hw outcome outcome' hfirst hsecond
    rw [h.eq_of_seen_eq_ok hkeys hw hfirst, h'.eq_of_seen_eq_ok hkeys hw hsecond, hmemory]
  refine ⟨hmemory, hseen, ?_⟩
  intro w hw hclock
  have hclock' : w.after.now.nanos + s'.cache.ttl < Instant.limit := by
    rwa [h'.ttl_eq, ← h.ttl_eq]
  obtain ⟨outcome, hfirst⟩ := exists_seen_eq_ok hclock
  obtain ⟨outcome', hsecond⟩ := exists_seen_eq_ok hclock'
  obtain rfl := hseen w hw outcome outcome' hfirst hsecond
  exact ⟨_, hfirst, hsecond⟩

/-! ## Failures and what comes later -/

/-- A session that a run of requests for the objects leads to, whatever calls failed on the way. -/
def Endured (objects : ObjectId → Prop) (s : Session) : Prop :=
  ∃ maxSize ttl policy turns outcomes, (∀ turn ∈ turns, Turn.Inside objects turn) ∧
    (fresh maxSize ttl policy).attemptAll turns = .ok (outcomes, s)

theorem Endured.exists_faithful (h : Endured objects s) (hkeys : SeparateKeys objects) :
    ∃ policy, s.Faithful objects s.cache.ttl policy := by
  obtain ⟨maxSize, ttl, policy, turns, outcomes, hturns, hrun⟩ := h
  have hfaithful := ((faithful_fresh maxSize).attemptAll hkeys hturns hrun).1
  refine ⟨policy, ?_⟩
  rw [hfaithful.ttl_eq]
  exact hfaithful

/-- By a request that failed the first session has become the second, and nobody can tell. -/
structure Unnoticed (objects : ObjectId → Prop) (s : Session) (v : Visit) (s' : Session) :
    Prop where
  memory : s'.memory = s.memory
  /-- No entry is new, none of another object is gone, and there are no more bytes. -/
  cleared : s.cache.Clears v.request.id.cacheKey s'.cache
  /-- Whatever comes later leads to sessions that cannot be told apart. -/
  later : ∀ turns : List Turn, (∀ turn ∈ turns, turn.Inside objects) → ∀ outcomes t outcomes' t',
    s.attemptAll turns = .ok (outcomes, t) → s'.attemptAll turns = .ok (outcomes', t') →
      Indistinct objects t t'
  /-- What comes later is served where the lifetime of what may be cached ends in time. -/
  served : ∀ turns : List Turn, (∀ turn ∈ turns, turn.Inside objects) →
    (∀ turn ∈ turns, turn.EndsInTime s.cache.ttl) → ∃ outcomes t outcomes' t',
      s.attemptAll turns = .ok (outcomes, t) ∧ s'.attemptAll turns = .ok (outcomes', t')

/-- An object is written, a second write of it fails with the store, and it is read. -/
def outage : List Turn :=
  [.visit (write greetingPlace "hi") none, .visit (write greetingPlace "ho") (some (.other "down")),
    .visit (glance greetingPlace) none]

end Session

end ReadThrough
