import ReadThrough.Backend.Basic
import ReadThrough.Gzip.Member
import ReadThrough.Time.Instant

/-!
# Cached objects

An entry is one version of an object with what the store said of it. Beside the content it may keep
a compressed copy, which is then strictly smaller; `storedSize` is the size of the copy that counts
against the bound of the cache. An entry is dead from the instant `expires` on.
-/

namespace ReadThrough

/-- One version of an object in the cache. -/
structure Entry where
  /-- Bucket and key in one text. -/
  key : String
  raw : Bytes
  /-- The compressed copy. -/
  packed : Option Bytes
  contentType : String
  rawSize : UInt64
  /-- The size of the compressed copy; zero without one. -/
  packedSize : UInt64
  modified : Time
  etag : String
  expires : Instant
  deriving Repr, DecidableEq

namespace Entry

/-- An entry; a compressed copy that is not strictly smaller than the content is dropped. -/
def make (key : String) (raw : Bytes) (packed : Option Bytes) (metadata : Metadata)
    (expires : Instant) : Entry :=
  let packed := packed.filter fun copy => copy.length < raw.length
  { key, raw, packed
    contentType := metadata.contentType
    rawSize := UInt64.ofNat raw.length
    packedSize := UInt64.ofNat ((packed.map List.length).getD 0)
    modified := metadata.modified
    etag := metadata.etag
    expires }

/-- True if the entry keeps a compressed copy. -/
def isPacked (e : Entry) : Bool :=
  e.packed.isSome

/-- The size of the copy that counts. -/
def storedSize (e : Entry) : UInt64 :=
  if e.isPacked then e.packedSize else e.rawSize

/-- The sum of a size over entries. -/
def total (size : Entry → UInt64) (entries : List Entry) : UInt64 :=
  entries.foldr (fun e sum => size e + sum) 0

/-- True from the instant of expiry on. -/
def isExpired (e : Entry) (now : Instant) : Bool :=
  e.expires.reached now

/-- True if the sizes an entry states are those of its copies. -/
def sizesAgree (e : Entry) : Bool :=
  e.rawSize.toNat == e.raw.length &&
    e.packedSize.toNat == (e.packed.map List.length).getD 0 &&
    e.storedSize.toNat == (e.packed.getD e.raw).length

/-- Whether the compressed copy decodes to the content, if there is one. -/
def packedAgrees? (e : Entry) : Option Bool :=
  e.packed.map fun copy =>
    match Gzip.decompress copy with
    | .ok content => content == e.raw
    | .error _ => false

end Entry

/-- Bucket and key in one text. -/
def ObjectId.cacheKey (id : ObjectId) : String :=
  id.bucket ++ "/" ++ id.key

end ReadThrough
