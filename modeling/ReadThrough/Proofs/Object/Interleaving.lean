import ReadThrough.Proofs.Object.Session

/-!
# Requests in flight together

Any number of requests is under way at once. Each of them has three segments: what it does before
its call (`ObjectRequest.start`), the effect of the call, and what it does after it
(`Awaiting.resume`). A segment is not interrupted; between segments anything may happen. `Step` is
one segment of one request, or a sweep, and `Reachable` is what any number of steps leads to.

## The store

`Backend.Effect` asks little of the store. A call has its effect at one point or fails without one;
it may fail for any reason, and what the store says of an object is up to the store. The store in
memory is one such (`effect_perform`). Nobody but the requests writes to it.

## Ages

Generations are words, and start again from zero. The `age` of a request in flight says how often
the generation of its object's slot has moved since it started. `Step` lets a read cache its content
only while that is below 2⁶⁴: a read that lasts longer could take one generation for another.

## Writes

`State.writes` remembers which content each write left at its place, the newest first.

## Schedules

`State.moves?` runs a schedule of segments over the store in memory. What it leads to is reachable
(`Reachable.moves`).
-/

namespace ReadThrough

namespace Backend

/-- True for the calls that change what is stored. -/
def Call.isWrite : Call → Bool
  | .store .. => true
  | .remove _ => true
  | .fetch _ => false
  | .stat _ => false

/-- What a call may bring back, and what it leaves in the store. -/
inductive Effect (memory : Memory) : (call : Call) → call.Outcome → Memory → Prop where
  | fetched {id : ObjectId} {object : StoredObject} (h : memory.find? id = some object) :
      Effect memory (.fetch id) (.ok (object.content, object.metadata)) memory
  | stored (id : ObjectId) (content : Bytes) (contentType : String) (metadata : Metadata) :
      Effect memory (.store id content contentType) (.ok ()) (memory.place id ⟨content, metadata⟩)
  | removed (id : ObjectId) : Effect memory (.remove id) (.ok ()) (memory.erase id)
  | described {id : ObjectId} {object : StoredObject} (h : memory.find? id = some object) :
      Effect memory (.stat id) (.ok object.metadata) memory
  | failed (call : Call) (failure : Failure) : Effect memory call (.error failure) memory

/-- The store in memory does what is asked of a store. -/
theorem effect_perform (memory : Memory) (now : Time) (call : Call) :
    Effect memory call (memory.perform now call).1 (memory.perform now call).2 := by
  cases call with
  | fetch id =>
    rw [Memory.perform]
    split
    · next object hfound => exact .fetched hfound
    · exact .failed _ _
  | store id content contentType => exact .stored id content contentType _
  | remove id =>
    rw [Memory.perform]
    split
    · exact .removed id
    · exact .failed _ _
  | stat id =>
    rw [Memory.perform]
    split
    · next object hfound => exact .described hfound
    · exact .failed _ _

/-- A call changes nothing but what is at its own place. -/
theorem Effect.find?_of_ne {memory memory' : Memory} {call : Call} {outcome : call.Outcome}
    (h : Effect memory call outcome memory') {other : ObjectId} (hne : other ≠ call.id) :
    memory'.find? other = memory.find? other := by
  cases h with
  | fetched | described | failed => rfl
  | stored id content contentType metadata => exact memory.find?_place_of_ne _ hne
  | removed id => exact memory.find?_erase_of_ne hne

/-- A call that changes what is stored is a write that succeeds. -/
theorem Effect.written_or_same {memory memory' : Memory} {call : Call} {outcome : call.Outcome}
    (h : Effect memory call outcome memory') :
    (call.isWrite = true ∧ ∃ reply, outcome = .ok reply) ∨ memory' = memory := by
  cases h with
  | fetched | described | failed => exact Or.inr rfl
  | stored | removed => exact Or.inl ⟨rfl, (), rfl⟩

/-- What a read brings back is there. -/
theorem Effect.find?_of_fetched {memory memory' : Memory} {id : ObjectId} {content : Bytes}
    {metadata : Metadata} (h : Effect memory (.fetch id) (.ok (content, metadata)) memory') :
    memory'.find? id = some ⟨content, metadata⟩ := by
  cases h with
  | fetched hfound => exact hfound

/-- The content that a write leaves at its place. -/
def Call.leaves : Call → Option Bytes
  | .store _ content _ => some content
  | .remove _ => none
  | .fetch _ => none
  | .stat _ => none

/-- What the writes that succeeded left at their places, with one more call. -/
def logWrite (call : Call) (outcome : call.Outcome) (writes : List (ObjectId × Option Bytes)) :
    List (ObjectId × Option Bytes) :=
  match outcome with
  | .ok _ => if call.isWrite then (call.id, call.leaves) :: writes else writes
  | .error _ => writes

/-- A write that succeeds leaves at its place what it says. -/
theorem Effect.content_of_isWrite {memory memory' : Memory} {call : Call} {outcome : call.Outcome}
    (h : Effect memory call outcome memory') (hwrite : call.isWrite = true)
    (hok : ∃ reply, outcome = .ok reply) :
    (memory'.find? call.id).map StoredObject.content = call.leaves := by
  obtain ⟨reply, rfl⟩ := hok
  cases h with
  | fetched | described => cases hwrite
  | stored id content contentType metadata =>
    exact congrArg (Option.map _) (memory.find?_place_self id ⟨content, metadata⟩)
  | removed id => exact congrArg (Option.map _) (memory.find?_erase_self id)

/-- The last write of an object tells what is stored of it, after one more call too. -/
theorem Effect.content_of_logWrite {memory memory' : Memory} {call : Call} {outcome : call.Outcome}
    (h : Effect memory call outcome memory') {writes : List (ObjectId × Option Bytes)}
    (hlogged : ∀ id left, writes.lookup id = some left →
      (memory.find? id).map StoredObject.content = left)
    {id : ObjectId} {left : Option Bytes}
    (hlookup : (logWrite call outcome writes).lookup id = some left) :
    (memory'.find? id).map StoredObject.content = left := by
  have hwritten : call.isWrite = true → (∃ reply, outcome = .ok reply) →
      ((call.id, call.leaves) :: writes).lookup id = some left →
        (memory'.find? id).map StoredObject.content = left := by
    intro hwrite hok hfirst
    rw [List.lookup_cons] at hfirst
    split at hfirst
    · next hsame =>
      obtain rfl := eq_of_beq hsame
      exact (h.content_of_isWrite hwrite hok).trans (Option.some.inj hfirst)
    · next hother =>
      rw [h.find?_of_ne (by simpa using hother)]
      exact hlogged id left hfirst
  cases h with
  | fetched | described | failed => exact hlogged id left hlookup
  | stored | removed => exact hwritten rfl ⟨(), rfl⟩ hlookup

end Backend

namespace Interleaving

open Backend

/-- A request in flight. -/
structure Flight where
  awaiting : Awaiting
  /-- What its call has brought back, once it has taken effect. -/
  outcome : Option awaiting.call.Outcome
  /-- How often the generation of its slot has moved since it started. -/
  age : Nat

namespace Flight

/-- The object that a request is about. -/
def id (f : Flight) : ObjectId :=
  f.awaiting.call.id

/-- The request after a segment, of any request, that has changed the cache. -/
def seeing (before after : Cache) (f : Flight) : Flight :=
  if after.generation f.id.cacheKey = before.generation f.id.cacheKey then f
  else { f with age := f.age + 1 }

/-- The request is a write that has had its effect and has not deleted its key again. -/
def HasWritten (object : ObjectId) (f : Flight) : Prop :=
  f.awaiting.call.isWrite = true ∧ f.id = object ∧ ∃ reply, f.outcome = some (.ok reply)

/-- The request has no content to cache, or its generation cannot have come round. -/
def Young (f : Flight) : Prop :=
  match f with
  | ⟨.get .., some (.ok _), age⟩ => age < 2 ^ 64
  | _ => True

end Flight

/-- A cache and a store with the requests in flight between them. -/
structure State where
  cache : Cache
  memory : Memory
  flights : List Flight
  /-- The contents that writes have left at their places, the newest first. -/
  writes : List (ObjectId × Option Bytes)

namespace State

/-- The state after a segment that has changed the cache. -/
def withCache (s : State) (c : Cache) : State :=
  { s with cache := c, flights := s.flights.map (Flight.seeing s.cache c) }

/-- The state with other requests in flight. -/
def withFlights (s : State) (flights : List Flight) : State :=
  { s with flights := flights }

/-- A cache without entries before a store. -/
def initial (maxSize : UInt64) (ttl : Nat) (policy : CompressionPolicy) (memory : Memory) :
    State where
  cache := .empty maxSize ttl policy
  memory := memory
  flights := []
  writes := []

end State

/-- One segment of a request for one of the `objects`, or a sweep. -/
inductive Step (objects : ObjectId → Prop) : State → State → Prop where
  /-- A request is answered without a call. -/
  | answer {s : State} {r : ObjectRequest} {m : Moment} {outcome : ObjectOutcome} {c : Cache}
      (hobject : objects r.id) (hstart : r.start m s.cache = (.done outcome, c)) :
      Step objects s (s.withCache c)
  /-- A request makes its call. -/
  | depart {s : State} {r : ObjectRequest} {m : Moment} {a : Awaiting} {c : Cache}
      (hobject : objects r.id) (hstart : r.start m s.cache = (.waiting a, c)) :
      Step objects s ((s.withCache c).withFlights (⟨a, none, 0⟩ :: (s.withCache c).flights))
  /-- A call has its effect. -/
  | call {s : State} {front back : List Flight} {a : Awaiting} {age : Nat}
      {outcome : a.call.Outcome} {memory : Memory}
      (hflights : s.flights = front ++ ⟨a, none, age⟩ :: back)
      (heffect : Effect s.memory a.call outcome memory) :
      Step objects s
        { s with
          memory := memory
          flights := front ++ ⟨a, some outcome, age⟩ :: back
          writes := logWrite a.call outcome s.writes }
  /-- A request whose call has come back is answered. -/
  | arrive {s : State} {front back : List Flight} {a : Awaiting} {age : Nat}
      {outcome : a.call.Outcome} {m : Moment} {finished : Finished}
      (hflights : s.flights = front ++ ⟨a, some outcome, age⟩ :: back)
      (hyoung : Flight.Young ⟨a, some outcome, age⟩)
      (hresume : a.resume outcome m s.cache = .ok finished) :
      Step objects s ((s.withFlights (front ++ back)).withCache finished.cache)
  /-- A request whose call has come back is given up. -/
  | halt {s : State} {front back : List Flight} {a : Awaiting} {age : Nat}
      {outcome : a.call.Outcome} {m : Moment} {stop : Halt}
      (hflights : s.flights = front ++ ⟨a, some outcome, age⟩ :: back)
      (hresume : a.resume outcome m s.cache = .error stop) :
      Step objects s (s.withFlights (front ++ back))
  | sweep {s : State} (m : Moment) : Step objects s (s.withCache (s.cache.sweep m).2)

/-- The states that any number of steps leads to from a cache without entries. -/
inductive Reachable (objects : ObjectId → Prop) : State → Prop where
  | initial (maxSize : UInt64) (ttl : Nat) (policy : CompressionPolicy) (memory : Memory) :
      Reachable objects (.initial maxSize ttl policy memory)
  | step {s s' : State} (h : Reachable objects s) (hstep : Step objects s s') :
      Reachable objects s'

/-! ## Schedules -/

/-- A segment of a request, or a sweep. Requests in flight are picked by their places. -/
inductive Move where
  | depart (r : ObjectRequest) (m : Moment)
  | call (place : Nat) (now : Time)
  | arrive (place : Nat) (m : Moment)
  | sweep (m : Moment)

/-- A request that departs is for one of the objects. -/
def Move.Inside (objects : ObjectId → Prop) : Move → Prop
  | .depart r _ => objects r.id
  | .call .. | .arrive .. | .sweep _ => True

namespace State

/-- The state after a move over the store in memory, unless no such request is as far. -/
def move? (s : State) : Move → Option State
  | .depart r m =>
    match r.start m s.cache with
    | (.done _, c) => some (s.withCache c)
    | (.waiting a, c) =>
      some ((s.withCache c).withFlights (⟨a, none, 0⟩ :: (s.withCache c).flights))
  | .call place now =>
    match s.flights[place]? with
    | some ⟨a, none, age⟩ =>
      let (outcome, memory) := s.memory.perform now a.call
      some { s with
        memory
        flights := s.flights.take place ++ ⟨a, some outcome, age⟩ :: s.flights.drop (place + 1)
        writes := logWrite a.call outcome s.writes }
    | _ => none
  | .arrive place m =>
    match s.flights[place]? with
    | some ⟨a, some outcome, age⟩ =>
      let left := s.withFlights (s.flights.take place ++ s.flights.drop (place + 1))
      if age < 2 ^ 64 then
        match a.resume outcome m s.cache with
        | .ok finished => some (left.withCache finished.cache)
        | .error _ => some left
      else none
    | _ => none
  | .sweep m => some (s.withCache (s.cache.sweep m).2)

/-- The state after some moves. -/
def moves? (s : State) (moves : List Move) : Option State :=
  moves.foldlM move? s

end State

variable {objects : ObjectId → Prop} {s s' : State}

theorem flights_eq_of_getElem? {place : Nat} {f : Flight} (h : s.flights[place]? = some f) :
    s.flights = s.flights.take place ++ f :: s.flights.drop (place + 1) := by
  obtain ⟨hplace, rfl⟩ := List.getElem?_eq_some_iff.1 h
  rw [List.getElem_cons_drop, List.take_append_drop]

theorem young_of_lt (a : Awaiting) (outcome : Option a.call.Outcome) {age : Nat}
    (hage : age < 2 ^ 64) : Flight.Young ⟨a, outcome, age⟩ := by
  unfold Flight.Young
  split
  · next hflight =>
    obtain ⟨rfl, -, rfl⟩ := Flight.mk.inj hflight
    exact hage
  · exact trivial

/-- Every move is a step. -/
theorem step_of_move? {move : Move} (hinside : move.Inside objects) (h : s.move? move = some s') :
    Step objects s s' := by
  cases move with
  | depart r m =>
    simp only [State.move?] at h
    split at h
    · next hstart =>
      obtain rfl := Option.some.inj h
      exact .answer hinside hstart
    · next hstart =>
      obtain rfl := Option.some.inj h
      exact .depart hinside hstart
  | call place now =>
    simp only [State.move?] at h
    split at h
    · next a age hfound =>
      obtain rfl := Option.some.inj h
      exact .call (flights_eq_of_getElem? hfound) (effect_perform s.memory now a.call)
    · cases h
  | arrive place m =>
    simp only [State.move?] at h
    split at h
    · next a outcome age hfound =>
      have hflights := flights_eq_of_getElem? hfound
      split at h
      · next hage =>
        split at h
        · next hresume =>
          obtain rfl := Option.some.inj h
          exact .arrive hflights (young_of_lt a _ hage) hresume
        · next hresume =>
          obtain rfl := Option.some.inj h
          exact .halt hflights hresume
      · cases h
    · cases h
  | sweep m =>
    obtain rfl := Option.some.inj h
    exact .sweep m

/-- What a schedule of moves leads to is reachable. -/
theorem Reachable.moves (h : Reachable objects s) {moves : List Move}
    (hinside : ∀ move ∈ moves, move.Inside objects) (hmoves : s.moves? moves = some s') :
    Reachable objects s' := by
  induction moves generalizing s with
  | nil =>
    obtain rfl := Option.some.inj hmoves
    exact h
  | cons move moves ih =>
    obtain ⟨next, hmove, hrest⟩ := Option.bind_eq_some_iff.1 hmoves
    obtain ⟨hfirst, hlater⟩ := List.forall_mem_cons.1 hinside
    exact ih (h.step (step_of_move? hfirst hmove)) hlater hrest

end Interleaving

end ReadThrough
