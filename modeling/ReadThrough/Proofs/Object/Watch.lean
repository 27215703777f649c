import Mathlib.Algebra.Ring.Nat
import ReadThrough.Backend.Memory
import ReadThrough.Object.Progress

/-!
# One object under watch

Reads and writes of one object go on together, over a store in memory that nobody else writes to.
`act` is one segment of one of them, or a sweep: what a request does before its call
(`State.read`, `State.write`), the effect of its call (`State.fetch`, `State.store`), and what it
does after it (`State.answer`, `State.settle`). A run picks segments in any order.

## Versions

`State.versions` are the objects that writes have stored, the oldest first; a version is a place in
that list. A reader remembers which version its call has brought back, and `State.cached` which one
the cache was last given.

## Marks

`Marks` say how far versions had got: the newest that a read was answered with, and the newest whose
write had returned. A reader notes them when it starts (`Reader.since`), so that a `Reading` can be
held against what others had seen before it.

## Ages

The age of a reader says how often the generation of the object's slot has moved since it started.
As in `Interleaving`, a reader is answered only while that is below 2⁶⁴.
-/

namespace ReadThrough.Watch

open Backend

/-- How far versions have got; zero as long as there is none. -/
structure Marks where
  /-- The newest version that a read has been answered with. -/
  answered : Nat
  /-- The newest version whose write has returned. -/
  returned : Nat
  deriving DecidableEq

/-- A read whose call is under way or has come back. -/
structure Reader where
  /-- The generation that it noted. -/
  generation : UInt64
  acceptsGzip : Bool
  /-- What its call has brought back, and of which version. -/
  fetched : Option (Except Failure (Bytes × Metadata) × Nat)
  age : Nat
  /-- The marks when it started. -/
  since : Marks

/-- A write whose call is under way or has come back. -/
structure Writer where
  content : Bytes
  contentType : String
  /-- What its call has brought back, and which version it has made. -/
  stored : Option (Except Failure Unit × Nat)

/-- An answer to a read. -/
structure Reading where
  /-- The marks when the read started. -/
  since : Marks
  version : Nat
  acceptsGzip : Bool
  response : ObjectResponse

/-- A cache and a store with the reads and writes of one object between them. -/
structure State where
  cache : Cache
  memory : Memory
  readers : List Reader
  writers : List Writer
  /-- What writes have stored, the oldest first. -/
  versions : List StoredObject
  /-- The version that the cache was last given. -/
  cached : Nat
  marks : Marks
  readings : List Reading

/-- A segment of a request, or a sweep. Requests in flight are picked by their places. -/
inductive Action where
  | read (m : Moment) (info : RequestInfo)
  | fetch (place : Nat) (now : Time)
  | answer (place : Nat) (m : Moment)
  | write (m : Moment) (info : RequestInfo) (body : Bytes)
  | store (place : Nat) (now : Time)
  | settle (place : Nat) (m : Moment)
  | sweep (m : Moment)

/-- The reader after a segment that has moved the generation from one value to another. -/
def Reader.seeing (before after : UInt64) (r : Reader) : Reader :=
  if after = before then r else { r with age := r.age + 1 }

namespace State

/-- An empty cache before an empty store. -/
def initial (maxSize : UInt64) (ttl : Nat) (policy : CompressionPolicy) : State where
  cache := .empty maxSize ttl policy
  memory := .empty
  readers := []
  writers := []
  versions := []
  cached := 0
  marks := ⟨0, 0⟩
  readings := []

/-- The newest version. -/
def newest (s : State) : Nat :=
  s.versions.length - 1

/-- The state after a segment that has changed the cache. -/
def withCache (s : State) (key : String) (c : Cache) : State :=
  { s with
    cache := c
    readers := s.readers.map (Reader.seeing (s.cache.generation key) (c.generation key)) }

/-- A read has been answered. -/
def answers (s : State) (x : Reading) : State :=
  { s with
    marks := { s.marks with answered := max s.marks.answered x.version }
    readings := x :: s.readings }

/-- A write of a version has returned. -/
def returns (s : State) (version : Nat) : State :=
  { s with marks := { s.marks with returned := max s.marks.returned version } }

/-! ## Reads -/

variable (id : ObjectId)

/-- A read starts. It is answered if the cache has an entry. -/
def read (s : State) (m : Moment) (info : RequestInfo) : State :=
  match (ObjectRequest.get id info).start m s.cache with
  | (.done (.ok response), c) =>
    (s.withCache id.cacheKey c).answers ⟨s.marks, s.cached, info.acceptsGzip, response⟩
  | (.waiting (.get _ generation acceptsGzip), c) =>
    let s := s.withCache id.cacheKey c
    { s with readers := ⟨generation, acceptsGzip, none, 0, s.marks⟩ :: s.readers }
  | (_, c) => s.withCache id.cacheKey c

/-- The call of a read has its effect. -/
def fetch (s : State) (place : Nat) (now : Time) : Option State :=
  match s.readers[place]? with
  | some ⟨generation, acceptsGzip, none, age, since⟩ =>
    let (outcome, memory) := s.memory.perform now (.fetch id)
    some { s with
      memory
      readers := s.readers.set place
        ⟨generation, acceptsGzip, some (outcome, s.newest), age, since⟩ }
  | _ => none

/-- True if the cache accepts what a read has fetched. -/
def takes (s : State) (m : Moment) (generation : UInt64)
    (outcome : Except Failure (Bytes × Metadata)) : Bool :=
  match outcome with
  | .ok (content, metadata) =>
    match s.cache.insert m id.cacheKey content metadata (some generation) with
    | .ok inserted => inserted.accepted
    | .error _ => false
  | .error _ => false

/-- A read whose call has come back is answered, or given up. -/
def answer (s : State) (place : Nat) (m : Moment) : Option State :=
  match s.readers[place]? with
  | some ⟨generation, acceptsGzip, some (outcome, version), age, since⟩ =>
    if age < 2 ^ 64 then
      let left := { s with readers := s.readers.eraseIdx place }
      match (Awaiting.get id generation acceptsGzip).resume outcome m s.cache with
      | .error _ => some left
      | .ok finished =>
        let cached := if s.takes id m generation outcome then version else s.cached
        let left := { left.withCache id.cacheKey finished.cache with cached }
        match finished.outcome with
        | .ok response => some (left.answers ⟨since, version, acceptsGzip, response⟩)
        | .error _ => some left
    else none
  | _ => none

/-! ## Writes -/

/-- A write starts. -/
def write (s : State) (m : Moment) (info : RequestInfo) (body : Bytes) : State :=
  match (ObjectRequest.put id info body).start m s.cache with
  | (.waiting (.put _ content contentType), c) =>
    let s := s.withCache id.cacheKey c
    { s with writers := ⟨content, contentType, none⟩ :: s.writers }
  | (_, c) => s.withCache id.cacheKey c

/-- The call of a write has its effect, and makes a version. -/
def store (s : State) (place : Nat) (now : Time) : Option State :=
  match s.writers[place]? with
  | some ⟨content, contentType, none⟩ =>
    let (outcome, memory) := s.memory.perform now (.store id content contentType)
    some { s with
      memory
      versions := s.versions ++ (memory.find? id).toList
      writers := s.writers.set place ⟨content, contentType, some (outcome, s.versions.length)⟩ }
  | _ => none

/-- A write whose call has come back returns. -/
def settle (s : State) (place : Nat) (m : Moment) : Option State :=
  match s.writers[place]? with
  | some ⟨content, contentType, some (outcome, version)⟩ =>
    let left := { s with writers := s.writers.eraseIdx place }
    match (Awaiting.put id content contentType).resume outcome m s.cache with
    | .error _ => some left
    | .ok finished =>
      let left := left.withCache id.cacheKey finished.cache
      match finished.outcome with
      | .ok _ => some (left.returns version)
      | .error _ => some left
  | _ => none

end State

/-! ## Runs -/

/-- The state after an action, unless there is no such request or it is not as far. -/
def act (id : ObjectId) (s : State) : Action → Option State
  | .read m info => some (s.read id m info)
  | .fetch place now => s.fetch id place now
  | .answer place m => s.answer id place m
  | .write m info body => some (s.write id m info body)
  | .store place now => s.store id place now
  | .settle place m => s.settle id place m
  | .sweep m => some (s.withCache id.cacheKey (s.cache.sweep m).2)

/-- The state after some actions. -/
def run (id : ObjectId) (s : State) (actions : List Action) : Option State :=
  actions.foldlM (act id) s

end ReadThrough.Watch
