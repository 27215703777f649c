import ReadThrough.Bytes
import ReadThrough.Time.Calendar

/-!
# Object stores

The server stands in front of a store of objects, each under a bucket and a key. A store can be
asked to fetch an object, to store one, to remove one, and for the metadata of one. A `Call` is
such a question and `Call.Reply` what a call that succeeds brings back.
-/

namespace ReadThrough

/-- The place of an object. -/
structure ObjectId where
  bucket : String
  key : String
  deriving Repr, DecidableEq

/-- What a store says of an object. -/
structure Metadata where
  contentType : String
  /-- The size of the content in bytes. -/
  size : Nat
  modified : Time
  etag : String
  deriving Repr, DecidableEq

namespace Backend

/-- Why a call fails. -/
inductive Failure where
  /-- There is no such object. -/
  | notFound (id : ObjectId)
  /-- Any other reason, in the store's words. -/
  | other (reason : String)
  deriving Repr, DecidableEq

/-- What is said of a failed call. -/
def Failure.message : Failure → String
  | notFound id => "object not found: " ++ id.bucket ++ "/" ++ id.key
  | other reason => "backend failure: " ++ reason

/-- True if the failure is that there is no such object. -/
def Failure.isNotFound : Failure → Bool
  | notFound _ => true
  | other _ => false

/-- A question to a store. -/
inductive Call where
  | fetch (id : ObjectId)
  | store (id : ObjectId) (content : Bytes) (contentType : String)
  | remove (id : ObjectId)
  | stat (id : ObjectId)
  deriving Repr, DecidableEq

/-- What a call that succeeds brings back. -/
@[reducible] def Call.Reply : Call → Type
  | fetch _ => Bytes × Metadata
  | store .. => Unit
  | remove _ => Unit
  | stat _ => Metadata

/-- The outcome of a call. -/
abbrev Call.Outcome (call : Call) := Except Failure call.Reply

/-- The four kinds of call. -/
inductive Verb where
  | fetch
  | store
  | remove
  | stat
  deriving Repr, DecidableEq

/-- The word for a kind of call. -/
def Verb.name : Verb → String
  | fetch => "fetch"
  | store => "store"
  | remove => "remove"
  | stat => "stat"

/-- The kind of a call. -/
def Call.verb : Call → Verb
  | fetch _ => .fetch
  | store .. => .store
  | remove _ => .remove
  | stat _ => .stat

/-- The object that a call is about. -/
def Call.id : Call → ObjectId
  | fetch id => id
  | store id .. => id
  | remove id => id
  | stat id => id

/-- A call in one line. -/
def Call.label (call : Call) : String :=
  call.verb.name ++ " " ++ call.id.bucket ++ "/" ++ call.id.key

end Backend

end ReadThrough
