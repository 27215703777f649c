import ReadThrough.Backend.Basic
import ReadThrough.Cache.Entry

/-!
# Answers to object requests

An answer carries a body and what is said of it, or neither. It also tells what part the cache had
in it, for those who count.
-/

namespace ReadThrough

/-- What part the cache had in an answer. -/
inductive CacheStatus where
  | hit
  | miss
  /-- The request only invalidates. -/
  | bypass
  deriving Repr, DecidableEq

/-- The word for the part of the cache. -/
def CacheStatus.name : CacheStatus → String
  | hit => "hit"
  | miss => "miss"
  | bypass => "bypass"

/-- The answer to an object request. -/
structure ObjectResponse where
  status : Nat
  body : Bytes
  contentType : Option String
  /-- The length that is told; for a request without a body in return, that of the object. -/
  contentLength : Option Nat
  modified : Option Time
  etag : Option String
  /-- True if the body is compressed. -/
  gzip : Bool
  cache : CacheStatus
  deriving Repr, DecidableEq

namespace ObjectResponse

/-- An answer without a body, of no object. -/
def empty (status : Nat) (cache : CacheStatus) : ObjectResponse where
  status := status
  body := []
  contentType := none
  contentLength := none
  modified := none
  etag := none
  gzip := false
  cache := cache

/-- An answer that carries `body` and is described by a cached entry. -/
def ofEntry (e : Entry) (body : Bytes) (gzip : Bool) : ObjectResponse where
  status := 200
  body := body
  contentType := some e.contentType
  contentLength := some body.length
  modified := some e.modified
  etag := some e.etag
  gzip := gzip
  cache := .hit

/-- An answer that carries `body` and is described by what the store says. -/
def ofMetadata (metadata : Metadata) (body : Bytes) (gzip : Bool) : ObjectResponse where
  status := 200
  body := body
  contentType := some metadata.contentType
  contentLength := some body.length
  modified := some metadata.modified
  etag := some metadata.etag
  gzip := gzip
  cache := .miss

/-- The answer without its body, with `length` told as the length. -/
def headersOnly (r : ObjectResponse) (length : Nat) : ObjectResponse :=
  { r with body := [], contentLength := some length }

end ObjectResponse

end ReadThrough
