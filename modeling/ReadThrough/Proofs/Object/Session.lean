import ReadThrough.Proofs.Object.Copies

/-!
# Requests one after another

A `Session` is a cache in front of a store in memory. Its requests come one after another
(`Session.serve`), with sweeps between them (`Session.run`). The call of a request may fail on
demand (`Session.attempt`).

`ObjectRequest.direct` answers the same requests without a cache: every read fetches, and every
request for headers alone asks the store for them. `ObjectOutcome.unmarked` leaves out the one
thing in which the answers may differ.
-/

namespace ReadThrough

open Backend

/-- Answers a call, but for a given reason lets it fail without an effect. -/
def Backend.Memory.attempt (memory : Memory) (now : Time) (fault : Option Failure)
    (call : Call) : call.Outcome × Memory :=
  match fault with
  | some failure => (.error failure, memory)
  | none => memory.perform now call

/-- The outcome without the part that the cache had in it. -/
def ObjectOutcome.unmarked (outcome : ObjectOutcome) : ObjectOutcome :=
  outcome.map ObjectResponse.unmarked

/-- A request and the moments of its segments. -/
structure Visit where
  request : ObjectRequest
  before : Moment
  /-- The time of the call. -/
  during : Time
  after : Moment

/-- What happens to a session. -/
inductive Session.Event where
  | visit (v : Visit)
  | sweep (m : Moment)

/-- A cache in front of a store in memory. -/
structure Session where
  cache : Cache
  memory : Memory

namespace Session

/-- Some of the events are requests for the object. -/
def Requested (events : List Event) (id : ObjectId) : Prop :=
  ∃ v, Event.visit v ∈ events ∧ v.request.id = id

/-- A session with nothing cached and nothing stored. -/
def fresh (maxSize : UInt64) (ttl : Nat) (policy : CompressionPolicy) : Session where
  cache := .empty maxSize ttl policy
  memory := .empty

/-- Answers a request. -/
def serve (s : Session) (v : Visit) : Except Halt (ObjectOutcome × Session) :=
  match v.request.start v.before s.cache with
  | (.done outcome, c) => .ok (outcome, ⟨c, s.memory⟩)
  | (.waiting a, c) =>
    match s.memory.perform v.during a.call with
    | (reply, memory) => do
      let finished ← a.resume reply v.after c
      return (finished.outcome, ⟨finished.cache, memory⟩)

/-- Lets the events happen one after another, and gives the outcomes of the requests. -/
def run (s : Session) : List Event → Except Halt (List ObjectOutcome × Session)
  | [] => .ok ([], s)
  | .sweep m :: events => run { s with cache := (s.cache.sweep m).2 } events
  | .visit v :: events => do
    let (outcome, s) ← s.serve v
    let (outcomes, s) ← s.run events
    return (outcome :: outcomes, s)

/-! ### A store that fails -/

/-- Answers a request whose call, if it makes one, fails for a given reason and has no effect. -/
def attempt (s : Session) (v : Visit) (fault : Option Failure) :
    Except Halt (ObjectOutcome × Session) :=
  match v.request.start v.before s.cache with
  | (.done outcome, c) => .ok (outcome, ⟨c, s.memory⟩)
  | (.waiting a, c) =>
    match s.memory.attempt v.during fault a.call with
    | (reply, memory) => do
      let finished ← a.resume reply v.after c
      return (finished.outcome, ⟨finished.cache, memory⟩)

theorem attempt_none (s : Session) (v : Visit) : s.attempt v none = s.serve v := rfl

/-- The call that a request makes, if it makes one. -/
def call? (s : Session) (v : Visit) : Option Call :=
  match (v.request.start v.before s.cache).1 with
  | .done _ => none
  | .waiting a => some a.call

/-! ### A small run -/

/-- The place of the one object in `greeting`. -/
def greetingPlace : ObjectId := ⟨"letters", "hello"⟩

/-- A request at the first instant. -/
def atOnce (r : ObjectRequest) : Visit :=
  ⟨r, .at ⟨0⟩ ⟨0, 0⟩, ⟨0, 0⟩, .at ⟨0⟩ ⟨0, 0⟩⟩

/-- An object is written and read, with a sweep before it is read again. -/
def greeting : List Event :=
  [.visit (atOnce (.put greetingPlace ⟨false, some "text/plain", none⟩ (Bytes.ofText "hi"))),
    .visit (atOnce (.get greetingPlace ⟨true, none, none⟩)),
    .sweep (.at ⟨0⟩ ⟨0, 0⟩),
    .visit (atOnce (.get greetingPlace ⟨true, none, none⟩))]

theorem exists_atOnce_of_visit_mem {v : Visit} (h : .visit v ∈ greeting) :
    ∃ r : ObjectRequest, r.id = greetingPlace ∧ v = atOnce r := by
  simp only [greeting, List.mem_cons, Event.visit.injEq, List.not_mem_nil, reduceCtorEq, or_false,
    false_or] at h
  rcases h with rfl | rfl | rfl <;> exact ⟨_, rfl, rfl⟩

theorem separateKeys_greeting : SeparateKeys (Requested greeting) := by
  have hplace : ∀ id, Requested greeting id → id = greetingPlace := by
    rintro id ⟨v, hv, rfl⟩
    obtain ⟨r, hr, rfl⟩ := exists_atOnce_of_visit_mem hv
    exact hr
  intro a b ha hb _
  exact (hplace a ha).trans (hplace b hb).symm

end Session

/-! ## Without a cache -/

namespace ObjectRequest

/-- Answers a request from the store alone. -/
def direct (r : ObjectRequest) (policy : CompressionPolicy) (now : Time) (memory : Memory) :
    ObjectOutcome × Memory :=
  if !named r.id then (.error .emptyName, memory)
  else
    match r with
    | get id info =>
      match memory.perform now (.fetch id) with
      | (.ok (content, metadata), memory) =>
        (.ok (Awaiting.answerFromFetch policy content metadata info.acceptsGzip), memory)
      | (.error failure, memory) => (.error (.ofCall "GET" id failure), memory)
    | put id info body =>
      match contentOf info body with
      | .error fault => (.error (.undecodableBody fault), memory)
      | .ok content =>
        match memory.perform now (.store id content (info.contentType.getD defaultContentType)) with
        | (.ok _, memory) => (.ok (.empty 200 .bypass), memory)
        | (.error failure, memory) => (.error (.ofCall "PUT" id failure), memory)
    | delete id =>
      match memory.perform now (.remove id) with
      | (.ok _, memory) => (.ok (.empty 204 .bypass), memory)
      | (.error failure, memory) =>
        if failure.isNotFound then (.ok (.empty 204 .bypass), memory)
        else (.error (.ofCall "DELETE" id failure), memory)
    | head id =>
      match memory.perform now (.stat id) with
      | (.ok metadata, memory) =>
        (.ok ((ObjectResponse.ofMetadata metadata [] false).headersOnly metadata.size), memory)
      | (.error failure, memory) => (.error (.ofCall "HEAD" id failure), memory)

/-- Answers the requests among the events from the store alone. -/
def directAll (policy : CompressionPolicy) :
    Memory → List Session.Event → List ObjectOutcome × Memory
  | memory, [] => ([], memory)
  | memory, .sweep _ :: events => directAll policy memory events
  | memory, .visit v :: events =>
    let (outcome, memory) := v.request.direct policy v.during memory
    let (outcomes, memory) := directAll policy memory events
    (outcome :: outcomes, memory)

end ObjectRequest

end ReadThrough
