import ReadThrough.Backend.Basic
import ReadThrough.Gzip.Header

/-!
# Failed requests

A request fails for one of the reasons of `RequestFailure`. A client is told a class, by which it
can act, and a message for people; together they are the `Problem` that a failure poses.
-/

namespace ReadThrough

/-- The class of a problem. -/
inductive ProblemClass where
  /-- The path or the body is malformed. -/
  | validation
  /-- The policy of the bucket forbids the operation. -/
  | forbidden
  /-- There is no such object or path. -/
  | notFound
  /-- The store behind the cache failed. -/
  | internal
  deriving Repr, DecidableEq

namespace ProblemClass

/-- The name of the class in answers. -/
def name : ProblemClass → String
  | validation => "validation_error"
  | forbidden => "forbidden"
  | notFound => "not_found"
  | internal => "internal_error"

/-- The status of answers of the class. -/
def status : ProblemClass → Nat
  | validation => 400
  | forbidden => 403
  | notFound => 404
  | internal => 500

/-- How messages of the class begin. -/
def heading : ProblemClass → String
  | validation => "Invalid request: "
  | forbidden => "Forbidden: "
  | notFound => "Not found: "
  | internal => "Internal error: "

end ProblemClass

/-- What a client is told. -/
structure Problem where
  kind : ProblemClass
  detail : String
  deriving Repr, DecidableEq

/-- The whole message of a problem. -/
def Problem.message (p : Problem) : String :=
  p.kind.heading ++ p.detail

/-- Why a request fails. -/
inductive RequestFailure where
  /-- The bucket or the key is empty. -/
  | emptyName
  /-- The body does not decode as it should. -/
  | undecodableBody (fault : Gzip.Fault)
  /-- The path names no bucket. -/
  | noBucket
  /-- The policy does not let the method at the bucket. -/
  | denied (method bucket : String)
  /-- The store has no such object. -/
  | absent (id : ObjectId)
  /-- Nothing answers at the path. -/
  | unrouted (path : String)
  /-- The store failed while a method was at work. -/
  | backend (method : String) (id : ObjectId) (failure : Backend.Failure)
  deriving Repr, DecidableEq

namespace RequestFailure

/-- What a client is told of a failure. -/
def problem : RequestFailure → Problem
  | emptyName => ⟨.validation, "invalid bucket or key"⟩
  | undecodableBody fault => ⟨.validation, "failed to decompress request body: " ++ fault.message⟩
  | noBucket => ⟨.validation, "invalid path"⟩
  | denied method bucket =>
    ⟨.forbidden, "operation " ++ method ++ " not allowed on bucket " ++ bucket⟩
  | absent id => ⟨.notFound, "object " ++ id.bucket ++ "/" ++ id.key⟩
  | unrouted path => ⟨.notFound, "no route for " ++ path⟩
  | backend method id failure =>
    ⟨.internal, method ++ " " ++ id.bucket ++ "/" ++ id.key ++ ": " ++ failure.message⟩

/-- The failure of a request whose call failed: an absent object is told apart. -/
def ofCall (method : String) (id : ObjectId) (failure : Backend.Failure) : RequestFailure :=
  if failure.isNotFound then absent id else backend method id failure

end RequestFailure

end ReadThrough
