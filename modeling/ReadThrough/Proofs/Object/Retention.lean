import ReadThrough.Bench.Trial
import ReadThrough.Proofs.Cache.Conservation
import ReadThrough.Proofs.Object.Isolation

/-!
# A fetched object is fetched once

A read that misses brings an object and caches it, if it is within the bound. From then on the entry
is there, until its time is over, it is evicted, or the object is written or deleted; and as long as
it is there a read of the object makes no call.

Requests come one after another (`pass`), to any cache in front of any store: what the store would
answer to a call is part of the `Passage`, and may be anything.

* `found_of_pass_eq_miss` — a read that misses leaves an entry
* `find?_pass` — another request leaves it there
* `hit_of_pass` — and a read of the object finds it
* `fetched_once` — the main theorem
-/

namespace ReadThrough

open Backend

/-! ## Requests one after another -/

/-- A request, the moments of its segments, and what the store would answer to each call. -/
structure Passage where
  request : ObjectRequest
  before : Moment
  reply : (call : Call) → call.Outcome
  after : Moment

/-- Whom a request has go when it caches what it fetched. -/
def Awaiting.evicts (a : Awaiting) (reply : a.call.Outcome) (m : Moment) (c : Cache) :
    List String :=
  match a, reply with
  | get id generation _, .ok (content, metadata) =>
    match c.insert m id.cacheKey content metadata (some generation) with
    | .ok ⟨true, _, _⟩ =>
      c.evictedFor m (c.entryOf id.cacheKey content metadata ⟨m.now.nanos + c.ttl⟩)
    | _ => []
  | _, _ => []

namespace Cache

/-- Answers a request, and gives the calls that it made. -/
def pass (c : Cache) (p : Passage) : Except Halt (Finished × List Call) :=
  match p.request.start p.before c with
  | (.done outcome, c) => .ok (⟨outcome, 0, c⟩, [])
  | (.waiting a, c) => do
    let finished ← a.resume (p.reply a.call) p.after c
    return (finished, [a.call])

/-- The keys that a request has go. -/
def evicts (c : Cache) (p : Passage) : List String :=
  match p.request.start p.before c with
  | (.done _, _) => []
  | (.waiting a, c) => a.evicts (p.reply a.call) p.after c

/-- What happens to a cache: a request passes, or it is swept. -/
inductive Turn where
  | pass (p : Passage)
  | sweep (m : Moment)

/-- The requests of a run, each with the cache that it came to. -/
def passages (c : Cache) : List Turn → List (Cache × Passage)
  | [] => []
  | .sweep m :: turns => passages (c.sweep m).2 turns
  | .pass p :: turns =>
    (c, p) ::
      match c.pass p with
      | .error _ => []
      | .ok (finished, _) => passages finished.cache turns

/-- The request does not write under a key. -/
def Turn.Spares (key : String) : Turn → Prop
  | .pass p => p.request.isRead = true ∨ p.request.id.cacheKey ≠ key
  | .sweep _ => True

/-- It happens before an instant. -/
def Turn.Before (due : Instant) : Turn → Prop
  | .pass p => p.before.now.nanos < due.nanos
  | .sweep m => m.now.nanos < due.nanos

end Cache

namespace Cache

variable {c c' : Cache} {key : String} {e : Entry}

/-! ## What a request leaves alone -/

/-- Before its call a request leaves a live entry alone, unless it is a write under the key. -/
theorem find?_start {r : ObjectRequest} {m : Moment} (hfound : c.find? key = some e)
    (hlive : m.now.nanos < e.expires.nanos) (hspares : r.isRead = true ∨ r.id.cacheKey ≠ key) :
    (r.start m c).2.find? key = some e := by
  have hnotyet : e.isExpired m.now = false := isExpired_eq_false_iff.mpr hlive
  have hdeleted : ∀ other, other ≠ key → (c.delete other).2.find? key = some e := by
    intro other hne
    rw [find?_delete, if_neg fun hsame => hne hsame.symm]
    exact hfound
  cases hstart : r.start m c with | mk p c'
  cases starts_of_eq hstart with
  | unnamed => exact hfound
  | found | missed | foundHead | missedHead => exact find?_get_of_live hfound hnotyet _
  | undecodable | put | delete =>
    rcases hspares with hread | hne
    · cases hread
    · exact hdeleted _ hne

/-- A request that waits is about another key than one with a live entry, or it is a write. -/
theorem cacheKey_ne_of_waiting {r : ObjectRequest} {m : Moment} {a : Awaiting}
    (hfound : c.find? key = some e) (hlive : m.now.nanos < e.expires.nanos)
    (hspares : r.isRead = true ∨ r.id.cacheKey ≠ key) (hstart : r.start m c = (.waiting a, c')) :
    a.call.id.cacheKey ≠ key := by
  have hshown : ∀ other, (c.get m other).1 = none → other ≠ key := by
    rintro other hmissed rfl
    have hshow := get_fst_of_live hfound (isExpired_eq_false_iff.mpr hlive)
    cases hmissed.symm.trans hshow
  cases starts_of_eq hstart with
  | missed _ _ hmissed => exact hshown _ hmissed
  | missedHead _ hmissed => exact hshown _ hmissed
  | put | delete =>
    rcases hspares with hread | hne
    · cases hread
    · exact hne

/-- After its call a request leaves the entries of other keys alone, but for those it has go. -/
theorem find?_resume {a : Awaiting} {reply : a.call.Outcome} {m : Moment} {finished : Finished}
    (hfound : c.find? key = some e) (hother : a.call.id.cacheKey ≠ key)
    (hstays : key ∉ a.evicts reply m c) (h : a.resume reply m c = .ok finished) :
    finished.cache.find? key = some e := by
  cases resumes_of_eq h with
  | fetchFailed | storeFailed | removeFailed | statFailed | described => exact hfound
  | stored | absent | removed =>
    show (c.delete _).2.find? key = some e
    rw [find?_delete, if_neg fun hsame => hother hsame.symm]
    exact hfound
  | fetched acceptsGzip hinsert =>
    rcases insert_cases hinsert with rfl | ⟨-, -, expires, hexpires, rfl⟩
    · exact hfound
    · obtain rfl := expires_eq hexpires
      unfold Awaiting.evicts at hstays
      simp only [hinsert] at hstays
      show (c.accept m _).1.find? key = some e
      rw [find?_accept, if_neg fun hsame => hother hsame.symm, if_neg hstays]
      exact hfound

theorem find?_pass {p : Passage} (hfound : c.find? key = some e)
    (hlive : p.before.now.nanos < e.expires.nanos)
    (hspares : p.request.isRead = true ∨ p.request.id.cacheKey ≠ key) (hstays : key ∉ c.evicts p)
    {finished : Finished} {calls : List Call} (h : c.pass p = .ok (finished, calls)) :
    finished.cache.find? key = some e := by
  have hleft := find?_start hfound hlive hspares
  unfold pass at h
  unfold evicts at hstays
  cases hstart : p.request.start p.before c with | mk progress c'
  rw [hstart] at h hleft hstays
  cases progress with
  | done outcome =>
    obtain ⟨rfl, -⟩ := Prod.mk.inj (Except.ok.inj h)
    exact hleft
  | waiting a =>
    have hother := cacheKey_ne_of_waiting hfound hlive hspares hstart
    obtain ⟨after, hresume, hlast⟩ := exists_of_bind_eq_ok h
    obtain ⟨rfl, -⟩ := Prod.mk.inj (Except.ok.inj hlast)
    exact find?_resume hleft hother hstays hresume

/-! ## Hits -/

/-- A read that finds a live entry is a hit, and makes no call. -/
theorem hit_of_pass {p : Passage} (hread : p.request.isRead = true)
    (hnamed : ObjectRequest.named p.request.id = true)
    (hfound : c.find? p.request.id.cacheKey = some e)
    (hlive : p.before.now.nanos < e.expires.nanos) :
    ∃ finished r, c.pass p = .ok (finished, []) ∧ finished.outcome = .ok r ∧ r.cache = .hit := by
  have hshown : (c.get p.before p.request.id.cacheKey).1 = some e :=
    get_fst_of_live hfound (isExpired_eq_false_iff.mpr hlive)
  unfold pass
  cases hstart : p.request.start p.before c with | mk progress c'
  obtain ⟨r, before, reply, after⟩ := p
  cases starts_of_eq hstart with
  | unnamed hunnamed =>
    rw [hnamed] at hunnamed
    cases hunnamed
  | found _ _ _ => exact ⟨_, _, rfl, rfl, hit_of_answerFromEntry _ _⟩
  | foundHead => exact ⟨_, _, rfl, rfl, rfl⟩
  | missed _ _ hmissed => cases hmissed.symm.trans hshown
  | missedHead _ hmissed => cases hmissed.symm.trans hshown
  | undecodable | put | delete => cases hread

/-- What is within the bound is accepted if it comes with the present generation. -/
theorem insert_eq_accept {m : Moment} {content : Bytes} {metadata : Metadata} {done : Insertion}
    (hfits : content.length ≤ c.maxSize.toNat)
    (h : c.insert m key content metadata (some (c.generation key)) = .ok done) :
    done = ⟨true, (c.accept m (c.entryOf key content metadata ⟨m.now.nanos + c.ttl⟩)).2,
      (c.accept m (c.entryOf key content metadata ⟨m.now.nanos + c.ttl⟩)).1⟩ := by
  unfold insert at h
  rw [if_neg (Nat.not_lt.mpr hfits)] at h
  obtain ⟨expires, hexpires, h⟩ := exists_of_bind_eq_ok h
  obtain rfl := expires_eq hexpires
  rw [if_pos (by simp)] at h
  exact (Except.ok.inj h).symm

/-- A read that misses and brings a content within the bound leaves an entry of it. -/
theorem found_of_pass_eq_miss {id : ObjectId} {info : RequestInfo} {before after : Moment}
    {reply : (call : Call) → call.Outcome} {content : Bytes} {metadata : Metadata}
    {finished : Finished} {calls : List Call} {r : ObjectResponse}
    (h : c.pass ⟨.get id info, before, reply, after⟩ = .ok (finished, calls))
    (houtcome : finished.outcome = .ok r) (hmiss : r.cache = .miss)
    (hfetched : reply (.fetch id) = .ok (content, metadata))
    (hfits : content.length ≤ c.maxSize.toNat) :
    ObjectRequest.named id = true ∧ ∃ e, finished.cache.find? id.cacheKey = some e ∧
      e.expires = ⟨after.now.nanos + c.ttl⟩ := by
  unfold pass at h
  cases hstart : (ObjectRequest.get id info).start before c with | mk progress c'
  rw [hstart] at h
  cases starts_of_eq hstart with
  | unnamed =>
    obtain ⟨rfl, -⟩ := Prod.mk.inj (Except.ok.inj h)
    cases houtcome
  | found =>
    obtain ⟨rfl, -⟩ := Prod.mk.inj (Except.ok.inj h)
    obtain rfl := Except.ok.inj houtcome
    rw [hit_of_answerFromEntry] at hmiss
    cases hmiss
  | missed hnamed =>
    refine ⟨hnamed, ?_⟩
    have hleft := c.shrinks_get before id.cacheKey
    obtain ⟨resumed, hresume, hlast⟩ := exists_of_bind_eq_ok h
    obtain ⟨rfl, -⟩ := Prod.mk.inj (Except.ok.inj hlast)
    change (Awaiting.get id _ info.acceptsGzip).resume (reply (.fetch id)) after _ = _ at hresume
    rw [hfetched] at hresume
    cases resumes_of_eq hresume with
    | fetched _ hinsert =>
      obtain rfl := insert_eq_accept (hleft.maxSize ▸ hfits) hinsert
      rw [hleft.ttl]
      exact ⟨_, (adds_accept _ after _).found, rfl⟩

/-! ## Runs -/

/-- As long as an entry is there, every read of its object is a hit. -/
theorem hit_of_mem_passages {id : ObjectId} (hnamed : ObjectRequest.named id = true)
    (hfound : c.find? id.cacheKey = some e) {turns : List Turn}
    (hspares : ∀ turn ∈ turns, turn.Spares id.cacheKey)
    (hbefore : ∀ turn ∈ turns, turn.Before e.expires)
    (hstays : ∀ station ∈ c.passages turns, id.cacheKey ∉ station.1.evicts station.2) :
    ∀ station ∈ c.passages turns, station.2.request.isRead = true → station.2.request.id = id →
      ∃ finished r, station.1.pass station.2 = .ok (finished, []) ∧
        finished.outcome = .ok r ∧ r.cache = .hit := by
  induction turns generalizing c with
  | nil => exact fun _ hstation => absurd hstation List.not_mem_nil
  | cons turn turns ih =>
    obtain ⟨hspare, hsparing⟩ := List.forall_mem_cons.mp hspares
    obtain ⟨hlive, hlater⟩ := List.forall_mem_cons.mp hbefore
    cases turn with
    | sweep m =>
      have hleft := find?_sweep_of_live hfound (isExpired_eq_false_iff.mpr hlive)
      exact ih hleft hsparing hlater hstays
    | pass p =>
      obtain ⟨hstay, hstaying⟩ := List.forall_mem_cons.mp hstays
      refine List.forall_mem_cons.mpr ⟨?_, ?_⟩
      · rintro hread rfl
        exact hit_of_pass hread hnamed hfound hlive
      · cases hpass : c.pass p with
        | error stop => exact fun _ hstation => absurd hstation List.not_mem_nil
        | ok passed =>
          obtain ⟨finished, calls⟩ := passed
          rw [hpass] at hstaying
          exact ih (find?_pass hfound hlive hspare hstay hpass) hsparing hlater hstaying

end Cache

theorem length_calls_le {c : Cache} {p : Passage} {finished : Finished} {calls : List Call}
    (h : c.pass p = .ok (finished, calls)) : calls.length ≤ 1 := by
  unfold Cache.pass at h
  cases hstart : p.request.start p.before c with | mk progress c'
  rw [hstart] at h
  cases progress with
  | done outcome =>
    obtain ⟨-, rfl⟩ := Prod.mk.inj (Except.ok.inj h)
    exact Nat.zero_le 1
  | waiting a =>
    obtain ⟨resumed, -, hlast⟩ := exists_of_bind_eq_ok h
    obtain ⟨-, rfl⟩ := Prod.mk.inj (Except.ok.inj hlast)
    exact Nat.le_refl 1

/-! ## Calls that are written down -/

namespace Bench.Trial

/-- What the store of a trial would answer to a call. -/
def reply (t : Trial) (call : Call) : call.Outcome :=
  match t.faults.find? call.verb with
  | some fault => .error (fault.failure call.id)
  | none => (t.memory.perform civil call).1

/-- A call brings what the store would answer, and is written down once. -/
theorem exists_call_eq (t : Trial) (call : Call) :
    ∃ memory, t.call call none =
      .ok (t.reply call, none, { t with memory, calls := t.calls ++ [call.label] }) := by
  unfold Trial.call reply
  cases hfault : t.faults.find? call.verb with
  | some fault => exact ⟨t.memory, by simp only [hfault]⟩
  | none => exact ⟨(t.memory.perform civil call).2, by simp only [hfault]; rfl⟩

/-- In a trial a request passes as any request does, and its calls are written down. -/
theorem exists_pass_of_send {t t' : Trial} {request : ObjectRequest} {answer : Answer}
    {during : Option (List Reply)} (h : t.send (.object request) none = .ok (answer, during, t')) :
    ∃ finished calls,
      t.service.cache.pass ⟨request, t.moment, t.reply, t.moment⟩ = .ok (finished, calls) ∧
      answer = .outcome finished.outcome ∧ t'.service.cache = finished.cache ∧
      t'.calls = t.calls ++ calls.map Call.label := by
  unfold send at h
  unfold Cache.pass
  dsimp only at h ⊢
  cases hstart : request.start t.moment t.service.cache with | mk progress c
  rw [hstart] at h
  cases progress with
  | done outcome =>
    obtain ⟨rfl, hdone⟩ := Prod.mk.inj (Except.ok.inj h)
    obtain ⟨-, rfl⟩ := Prod.mk.inj hdone
    exact ⟨_, _, rfl, rfl, rfl, (List.append_nil _).symm⟩
  | waiting a =>
    obtain ⟨memory, hcall⟩ := exists_call_eq (t.withCache c) a.call
    obtain ⟨called, hcalled, hrest⟩ := exists_of_bind_eq_ok h
    obtain rfl := Except.ok.inj (hcall.symm.trans hcalled)
    obtain ⟨finished, hresume, hlast⟩ := exists_of_bind_eq_ok hrest
    obtain ⟨rfl, hdone⟩ := Prod.mk.inj (Except.ok.inj hlast)
    obtain ⟨-, rfl⟩ := Prod.mk.inj hdone
    refine ⟨finished, [a.call], ?_, rfl, rfl, rfl⟩
    have hresumed : a.resume (t.reply a.call) t.moment c = .ok finished := hresume
    show (a.resume (t.reply a.call) t.moment c >>= _) = _
    rw [hresumed]
    rfl

/-- A request makes at most one call, over HTTP or not. -/
theorem exists_calls_send {t t' : Trial} {traffic : Traffic} {answer : Answer}
    {during : Option (List Reply)} (h : t.send traffic none = .ok (answer, during, t')) :
    ∃ made, t'.calls = t.calls ++ made ∧ made.length ≤ 1 := by
  cases traffic with
  | unsendable =>
    obtain ⟨-, hdone⟩ := Prod.mk.inj (Except.ok.inj h)
    obtain ⟨-, rfl⟩ := Prod.mk.inj hdone
    exact ⟨[], (List.append_nil _).symm, Nat.zero_le 1⟩
  | object request =>
    obtain ⟨finished, calls, hpass, -, -, hcalls⟩ := exists_pass_of_send h
    exact ⟨_, hcalls, by rw [List.length_map]; exact length_calls_le hpass⟩
  | http request =>
    unfold send at h
    dsimp only at h
    cases hstart : Http.start t.service request t.moment with | mk stage svc
    rw [hstart] at h
    cases stage with
    | done response =>
      obtain ⟨-, hdone⟩ := Prod.mk.inj (Except.ok.inj h)
      obtain ⟨-, rfl⟩ := Prod.mk.inj hdone
      exact ⟨[], (List.append_nil _).symm, Nat.zero_le 1⟩
    | waiting a =>
      obtain ⟨memory, hcall⟩ := exists_call_eq { t with service := svc } a.call
      obtain ⟨called, hcalled, hrest⟩ := exists_of_bind_eq_ok h
      obtain rfl := Except.ok.inj (hcall.symm.trans hcalled)
      obtain ⟨served, -, hlast⟩ := exists_of_bind_eq_ok hrest
      obtain ⟨-, hdone⟩ := Prod.mk.inj (Except.ok.inj hlast)
      obtain ⟨-, rfl⟩ := Prod.mk.inj hdone
      exact ⟨[a.call.label], rfl, Nat.le_refl 1⟩

end Bench.Trial

namespace Cache

/--
From now on, as long as its entry may be there, an object is read without a call. Let requests and
sweeps follow that all happen before an instant. If none of the requests writes under the key, and
none has the entry go, then every read of the object among them is a hit, and makes no call.
-/
def HitsUntil (c : Cache) (id : ObjectId) (due : Instant) : Prop :=
  ∀ turns : List Turn, (∀ turn ∈ turns, turn.Spares id.cacheKey ∧ turn.Before due) →
    (∀ station ∈ c.passages turns, id.cacheKey ∉ station.1.evicts station.2) →
    ∀ station ∈ c.passages turns, station.2.request.isRead = true → station.2.request.id = id →
      ∃ finished r, station.1.pass station.2 = .ok (finished, []) ∧
        finished.outcome = .ok r ∧ r.cache = .hit

/--
**A fetched object is fetched once.** Let a read miss, in any state of the cache and in front of any
store, and bring an object within the bound. Until the entry's time is over every read of the
object, for its headers alone or not, is a hit and makes no call, whatever is read, written or
deleted under other keys, if only the entry is not evicted. And every single request, over HTTP or
not, makes at most one call, in any state of any trial.
-/
theorem fetched_once :
    (∀ (c : Cache) (id : ObjectId) (info : RequestInfo) (before after : Moment)
      (reply : (call : Call) → call.Outcome) (content : Bytes) (metadata : Metadata)
      (finished : Finished) (calls : List Call) (r : ObjectResponse),
      c.pass ⟨.get id info, before, reply, after⟩ = .ok (finished, calls) →
      finished.outcome = .ok r → r.cache = .miss →
      reply (.fetch id) = .ok (content, metadata) → content.length ≤ c.maxSize.toNat →
      finished.cache.HitsUntil id ⟨after.now.nanos + c.ttl⟩) ∧
    ∀ (t t' : Bench.Trial) (traffic : Bench.Traffic) (answer : Bench.Answer)
      (during : Option (List Bench.Reply)), t.send traffic none = .ok (answer, during, t') →
      ∃ made, t'.calls = t.calls ++ made ∧ made.length ≤ 1 := by
  refine ⟨?_, fun t t' traffic answer during hsend => Bench.Trial.exists_calls_send hsend⟩
  intro c id info before after reply content metadata finished calls r hpass houtcome hmiss
    hfetched hfits turns hturns hstays
  obtain ⟨hnamed, e, hfound, hexpires⟩ :=
    found_of_pass_eq_miss hpass houtcome hmiss hfetched hfits
  refine hit_of_mem_passages hnamed hfound (fun turn hturn => (hturns turn hturn).1) ?_ hstays
  rw [hexpires]
  exact fun turn hturn => (hturns turn hturn).2

/-- A request at an instant, in front of a store that knows one small object under every name. -/
def passageAt (now : Nat) (request : ObjectRequest) : Passage where
  request := request
  before := .at ⟨now⟩ ⟨0, 0⟩
  reply := fun
    | .fetch _ => .ok ([1, 2], ⟨"text/plain", 2, ⟨0, 0⟩, "tag"⟩)
    | .store .. => .ok ()
    | .remove _ => .ok ()
    | .stat _ => .ok ⟨"text/plain", 2, ⟨0, 0⟩, "tag"⟩
  after := .at ⟨now⟩ ⟨0, 0⟩

/-- An object is read, while another that has the same slot is written, read and deleted. -/
def neighbourTurns : List Turn :=
  [.pass (passageAt 1 (.put ⟨"a", "543"⟩ ⟨false, none, none⟩ [3, 4, 5])),
    .pass (passageAt 1 (.get ⟨"a", "1"⟩ ⟨true, none, none⟩)),
    .pass (passageAt 2 (.get ⟨"a", "543"⟩ ⟨false, none, none⟩)),
    .pass (passageAt 2 (.delete ⟨"a", "543"⟩)), .sweep (.at ⟨4⟩ ⟨0, 0⟩),
    .pass (passageAt 4 (.head ⟨"a", "1"⟩))]

/-- The theorem at work: after one fetch the object is read twice, and no call is made for it. -/
theorem fetched_once_neighbour :
    slotOfKey "a/543" = slotOfKey "a/1" ∧
      (∃ finished r, (empty 4 5 ⟨100⟩).pass (passageAt 0 (.get ⟨"a", "1"⟩ ⟨false, none, none⟩)) =
          .ok (finished, [.fetch ⟨"a", "1"⟩]) ∧
        finished.outcome = .ok r ∧ r.cache = .miss ∧
        (finished.cache.passages neighbourTurns).length = 5 ∧
        ∀ station ∈ finished.cache.passages neighbourTurns, station.2.request.isRead = true →
          station.2.request.id = ⟨"a", "1"⟩ →
          ∃ finished r, station.1.pass station.2 = .ok (finished, []) ∧
            finished.outcome = .ok r ∧ r.cache = .hit) ∧
      ∃ answer during t', (Bench.Trial.ofBounds 4 5 100 none).send
          (.object (.get ⟨"a", "1"⟩ ⟨false, none, none⟩)) none = .ok (answer, during, t') ∧
        ∃ made, t'.calls = [] ++ made ∧ made.length ≤ 1 := by
  have hpassed : ((empty 4 5 ⟨100⟩).pass
      (passageAt 0 (.get ⟨"a", "1"⟩ ⟨false, none, none⟩))).toOption.bind (fun passed =>
        passed.1.outcome.toOption.map fun r =>
          (passed.2, r.cache, (passed.1.cache.passages neighbourTurns).length,
            (passed.1.cache.passages neighbourTurns).any fun station =>
              station.1.evicts station.2 |>.contains "a/1")) =
      some ([.fetch ⟨"a", "1"⟩], .miss, 5, false) := by
    decide +kernel
  simp only [Option.bind_eq_some_iff, Option.map_eq_some_iff, Session.toOption_eq_some_iff,
    Prod.exists, Prod.mk.injEq, List.any_eq_false, List.contains_eq_mem, decide_eq_true_eq]
    at hpassed
  obtain ⟨finished, calls, hpass, r, houtcome, rfl, hmiss, hlength, hstays⟩ := hpassed
  have hturns : ∀ turn ∈ neighbourTurns, turn.Spares "a/1" ∧ turn.Before ⟨5⟩ := by
    have hother : (⟨"a", "543"⟩ : ObjectId).cacheKey ≠ "a/1" := by decide
    simp [neighbourTurns, passageAt, Turn.Spares, Turn.Before, ObjectRequest.isRead,
      ObjectRequest.id, Moment.at, hother]
  have hsent : (((Bench.Trial.ofBounds 4 5 100 none).send
      (.object (.get ⟨"a", "1"⟩ ⟨false, none, none⟩)) none).toOption.map fun _ => ()) =
      some () := by
    decide +kernel
  simp only [Option.map_eq_some_iff, Session.toOption_eq_some_iff, Prod.exists] at hsent
  obtain ⟨answer, during, t', hsend, -⟩ := hsent
  obtain ⟨hretained, hcalls⟩ := fetched_once
  refine ⟨by decide +kernel, ⟨finished, r, hpass, houtcome, hmiss, hlength, ?_⟩,
    answer, during, t', hsend, hcalls _ _ _ _ _ hsend⟩
  exact hretained _ ⟨"a", "1"⟩ _ _ _ _ _ _ _ _ _ hpass houtcome hmiss rfl (by decide)
    neighbourTurns hturns hstays

end Cache

end ReadThrough
