import Mathlib.Algebra.Ring.Nat
import ReadThrough.Backend.Memory
import ReadThrough.Object.Progress
import ReadThrough.Proofs.Cache.Lookup
import ReadThrough.Proofs.Object.Segments

/-!
# Entries and the objects they stand for

* `Copies` — an entry has the content of an object and says of it what the store says
* `Serves` — it also has the compressed copy and the size that an answer from the store would have

The entry of a content that was just fetched does both (`copies_entryOf`, `serves_entryOf`). What
is answered from an entry that serves is what is answered from the object
(`unmarked_answerFromEntry`).
-/

namespace ReadThrough

open Backend

/-- No two of the objects share a key in the cache. -/
def SeparateKeys (objects : ObjectId → Prop) : Prop :=
  ∀ a b, objects a → objects b → a.cacheKey = b.cacheKey → a = b

namespace Backend.Memory

theorem find?_place_self (memory : Memory) (id : ObjectId) (object : StoredObject) :
    (memory.place id object).find? id = some object :=
  (memory.objects.find?_insert id object id).trans (if_pos rfl)

theorem find?_place_of_ne (memory : Memory) {id other : ObjectId} (object : StoredObject)
    (hne : other ≠ id) : (memory.place id object).find? other = memory.find? other :=
  (memory.objects.find?_insert id object other).trans (if_neg hne)

theorem find?_erase_self (memory : Memory) (id : ObjectId) : (memory.erase id).find? id = none :=
  (memory.objects.find?_erase id id).trans (if_pos rfl)

theorem find?_erase_of_ne (memory : Memory) {id other : ObjectId} (hne : other ≠ id) :
    (memory.erase id).find? other = memory.find? other :=
  (memory.objects.find?_erase id other).trans (if_neg hne)

end Backend.Memory

namespace Entry

/-- The entry has the object's content and says of it what the store says. -/
structure Copies (e : Entry) (object : StoredObject) : Prop where
  raw : e.raw = object.content
  contentType : e.contentType = object.metadata.contentType
  modified : e.modified = object.metadata.modified
  etag : e.etag = object.metadata.etag

/-- The entry copies the object, and its compressed copy and its size are as they have to be. -/
structure Serves (policy : CompressionPolicy) (e : Entry) (object : StoredObject) : Prop
    extends Copies e object where
  packed : e.packed = (policy.packed? object.metadata.contentType object.content).filter
    fun copy => copy.length < object.content.length
  rawSize : e.rawSize.toNat = object.content.length

end Entry

theorem Cache.copies_entryOf (c : Cache) (key : String) (content : Bytes) (metadata : Metadata)
    (expires : Instant) :
    (c.entryOf key content metadata expires).Copies ⟨content, metadata⟩ :=
  ⟨rfl, rfl, rfl, rfl⟩

theorem Cache.serves_entryOf {c : Cache} {content : Bytes}
    (hsize : content.length ≤ c.maxSize.toNat) (key : String) (metadata : Metadata)
    (expires : Instant) :
    (c.entryOf key content metadata expires).Serves c.policy ⟨content, metadata⟩ where
  toCopies := c.copies_entryOf key content metadata expires
  packed := rfl
  rawSize := by
    have hword : content.length < 2 ^ 64 := Nat.lt_of_le_of_lt hsize c.maxSize.toNat_lt
    exact UInt64.toNat_ofNat_of_lt' hword

/-! ## Answers -/

/-- The answer without the part that the cache had in it. -/
def ObjectResponse.unmarked (r : ObjectResponse) : ObjectResponse :=
  { r with cache := .bypass }

theorem unmarked_ofEntry {e : Entry} {object : StoredObject} (h : e.Copies object) (body : Bytes)
    (gzip : Bool) :
    (ObjectResponse.ofEntry e body gzip).unmarked =
      (ObjectResponse.ofMetadata object.metadata body gzip).unmarked := by
  unfold ObjectResponse.ofEntry ObjectResponse.ofMetadata
  rw [h.contentType, h.modified, h.etag]
  rfl

/-- What is answered from an entry is a hit. -/
theorem hit_of_answerFromEntry (e : Entry) (acceptsGzip : Bool) :
    (ObjectRequest.answerFromEntry e acceptsGzip).cache = .hit := by
  unfold ObjectRequest.answerFromEntry
  split <;> rfl

/-- An answer to a read is the same from an entry and from the object. -/
theorem unmarked_answerFromEntry {policy : CompressionPolicy} {e : Entry} {object : StoredObject}
    (h : e.Serves policy object) (acceptsGzip : Bool) :
    (ObjectRequest.answerFromEntry e acceptsGzip).unmarked =
      (Awaiting.answerFromFetch policy object.content object.metadata acceptsGzip).unmarked := by
  have hplain : (ObjectResponse.ofEntry e e.raw false).unmarked =
      (ObjectResponse.ofMetadata object.metadata object.content false).unmarked := by
    rw [unmarked_ofEntry h.toCopies, h.raw]
  unfold ObjectRequest.answerFromEntry Awaiting.answerFromFetch
  rw [h.packed]
  cases acceptsGzip with
  | false =>
    rw [if_neg Bool.false_ne_true]
    split
    · next hfalse => cases hfalse
    · exact hplain
  | true =>
    rw [if_pos rfl]
    cases policy.packed? object.metadata.contentType object.content with
    | none => exact hplain
    | some copy =>
      -- the entry has dropped a copy that is no smaller, and the answer from the store drops it too
      by_cases hsmaller : copy.length < object.content.length
      · simp only [Option.filter_some, hsmaller, decide_true, if_true]
        exact unmarked_ofEntry h.toCopies copy true
      · simp only [Option.filter_some, hsmaller, decide_false, if_false, Bool.false_eq_true]
        exact hplain

/-- An answer with headers alone is the same from an entry and from the object. -/
theorem unmarked_headersOnly {policy : CompressionPolicy} {e : Entry} {object : StoredObject}
    (h : e.Serves policy object) (hsized : object.metadata.size = object.content.length) :
    ((ObjectResponse.ofEntry e [] false).headersOnly e.rawSize.toNat).unmarked =
      ((ObjectResponse.ofMetadata object.metadata [] false).headersOnly
        object.metadata.size).unmarked := by
  unfold ObjectResponse.ofEntry ObjectResponse.ofMetadata
  rw [h.contentType, h.modified, h.etag, h.rawSize, hsized]
  rfl

end ReadThrough
