import ReadThrough.Backend.Memory
import ReadThrough.Http.Service

/-!
# Steps of a trial

A trial runs a server against a store in memory, step by step. A step asks the cache directly, sets
the store up, moves time, or sends a request. A request may carry steps that run while its call to
the store is under way: before the call takes effect, or after. That makes every order of events
between requests a trial that can be written down.

A `Reply` tells what a step answered and what state it left behind.
-/

namespace ReadThrough.Bench

/-- How the calls of a kind are made to fail. -/
inductive Fault where
  /-- As if there were no such object. -/
  | notFound
  /-- For another reason. -/
  | other (reason : String)
  deriving Repr, DecidableEq

/-- The failure that a fault makes of a call. -/
def Fault.failure (fault : Fault) (id : ObjectId) : Backend.Failure :=
  match fault with
  | .notFound => .notFound id
  | .other reason => .other reason

/-- A step that makes no call to the store. -/
inductive Action where
  /-- Caches a content; with a generation, only if the key's is the same. -/
  | put (key : String) (content : Bytes) (metadata : Metadata) (generation : Option UInt64)
  | get (key : String)
  | delete (key : String)
  | contains (key : String)
  | generation (key : String)
  | sweep
  /-- Looks keys up and adds their sizes up. -/
  | audit (keys : List String)
  /-- Lets milliseconds pass for the entries of the cache. -/
  | sleep (span : Nat)
  /-- Puts an object with the given metadata into the store. -/
  | seed (id : ObjectId) (content : Bytes) (metadata : Metadata)
  /-- Looks at an object of the store. -/
  | peek (id : ObjectId)
  /-- Makes the calls of a kind fail from now on, or work again. -/
  | fail (verb : Backend.Verb) (how : Option Fault)
  /-- Starts regular sweeps, an interval of milliseconds apart. -/
  | startSweeper (interval : Nat)
  /-- Moves the sweeper's clock. -/
  | advance (span : Nat)
  /-- Stops regular sweeps. -/
  | stopSweeper
  /-- A step that asks for nothing that there is. -/
  | unknown

/-- A request that may make a call to the store. -/
inductive Traffic where
  /-- An object request that does not come over HTTP. -/
  | object (request : ObjectRequest)
  | http (request : Http.Request)
  /-- A request over HTTP that cannot be sent. -/
  | unsendable

/-- When steps run that a request carries. -/
inductive Phase where
  /-- Before its call takes effect. -/
  | before
  /-- After its call has taken effect. -/
  | after
  deriving Repr, DecidableEq

/-- A step of a trial. -/
inductive Step where
  | action (action : Action)
  | traffic (traffic : Traffic)
  /-- A request with steps that run during its call. -/
  | interrupted (traffic : Traffic) (phase : Phase) (steps : List Step)

instance : Inhabited Step := ⟨.action .unknown⟩

/-- The sums over the entries that a look-up of keys found. -/
structure Audit where
  /-- The stored sizes add up to the size of the cache. -/
  sumAgrees : Bool
  /-- The sum of the sizes of entries without a compressed copy. -/
  rawTotal : UInt64
  /-- How many entries have a compressed copy. -/
  packedCount : Nat
  deriving Repr, DecidableEq

/-- What a step answered. -/
inductive Answer where
  | nothing
  | truth (value : Bool)
  | number (value : Nat)
  | entry (found : Option Entry)
  | audit (sums : Audit)
  | object (found : Option Backend.StoredObject)
  | outcome (outcome : ObjectOutcome)
  | response (response : Http.Response)
  /-- The step could not be done. -/
  | refused

/-- The state of the cache after a step. -/
structure View where
  report : Report
  /-- Some entry has a compressed copy. -/
  anyPacked : Bool

/-- What came of a step. -/
inductive Reply where
  | of (answer : Answer) (calls : List String) (during : Option (List Reply))
    (events : Option (List Event)) (view : View)

end ReadThrough.Bench
