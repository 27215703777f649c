import ReadThrough.Object.Failure
import ReadThrough.Text.Fields

/-!
# Where a path leads

Objects live under `/objects/`, with a bucket up to the next slash and a key that is everything
after it and is not empty. Two paths serve the state of the server. Nothing else answers.

Three functions read a path: `Route.ofPath` for the way a request takes, `bucketOfPath?` for the
bucket that is counted and that policies speak of, and `unrouted` for what is said of a path where
nothing answers. All of them see the path as it was sent.
-/

namespace ReadThrough.Http

/-- How the paths of objects begin. -/
def objectsPath : String := "/objects/"

/-- The way a request takes. -/
inductive Route where
  /-- An object, by bucket and key as they were sent. -/
  | object (bucket key : String)
  | stats
  | health
  /-- Nothing answers. -/
  | unrouted
  deriving Repr, DecidableEq

/-- The way that a path leads. -/
def Route.ofPath (path : String) : Route :=
  if path = "/stats" then .stats
  else if path = "/health" then .health
  else
    match (Text.afterStart? objectsPath.toList path.toList).bind (Text.cut? '/') with
    | some (bucket, key) =>
      if key = [] then .unrouted else .object (String.ofList bucket) (String.ofList key)
    | none => .unrouted

/-- The first part of a path after the one of objects, unless it is empty. -/
def bucketOfPath? (path : String) : Option String :=
  match Text.afterStart? objectsPath.toList path.toList with
  | none => none
  | some rest =>
    let bucket := rest.takeWhile (· ≠ '/')
    if bucket = [] then none else some (String.ofList bucket)

/-- Why a request fails whose path leads nowhere: under the path of objects a part is missing. -/
def unroutedFailure (path : String) : RequestFailure :=
  if (Text.afterStart? objectsPath.toList path.toList).isSome ∨ path = "/objects" then .emptyName
  else .unrouted path

end ReadThrough.Http
