import ReadThrough.Proofs.Gzip.RoundTrip
import ReadThrough.Proofs.Object.Copies

/-!
# What an answer to a read brings

An answer carries an object if it says of it what the store says, and its body is the content or
decodes to it. What is answered from the store carries the object (`carries_answerFromFetch`), and
so does every answer that differs from it only in the part that the cache had
(`ObjectResponse.Carries.of_unmarked_eq`).
-/

namespace ReadThrough

open Backend

/--
What is sent is the content itself, or, for those who accept it and where the rule admits the
content, a strictly smaller form that decodes to it.
-/
def Conveys (policy : CompressionPolicy) (contentType : String) (content : Bytes)
    (acceptsGzip : Bool) (sent : Bytes) (gzip : Bool) : Prop :=
  gzip = false ∧ sent = content ∨
    gzip = true ∧ acceptsGzip = true ∧ policy.admits contentType content.length = true ∧
      sent.length < content.length ∧ Gzip.decompress sent = .ok content

/-- The answer tells of the object what the store says of it, and its body conveys the content. -/
structure ObjectResponse.Carries (r : ObjectResponse) (policy : CompressionPolicy)
    (object : StoredObject) (acceptsGzip : Bool) : Prop where
  status : r.status = 200
  contentType : r.contentType = some object.metadata.contentType
  modified : r.modified = some object.metadata.modified
  etag : r.etag = some object.metadata.etag
  contentLength : r.contentLength = some r.body.length
  body : Conveys policy object.metadata.contentType object.content acceptsGzip r.body r.gzip

variable {policy : CompressionPolicy} {object : StoredObject} {acceptsGzip : Bool}

theorem ObjectResponse.Carries.of_unmarked_eq {r r' : ObjectResponse}
    (h : r'.Carries policy object acceptsGzip) (hsame : r.unmarked = r'.unmarked) :
    r.Carries policy object acceptsGzip := by
  simp only [ObjectResponse.unmarked, ObjectResponse.mk.injEq] at hsame
  obtain ⟨hstatus, hbody, hcontentType, hcontentLength, hmodified, hetag, hgzip, -⟩ := hsame
  refine ⟨hstatus.trans h.status, hcontentType.trans h.contentType, hmodified.trans h.modified,
    hetag.trans h.etag, ?_, ?_⟩
  · rw [hcontentLength, hbody]
    exact h.contentLength
  · rw [hgzip, hbody]
    exact h.body

theorem carries_ofMetadata (policy : CompressionPolicy) (object : StoredObject)
    (acceptsGzip : Bool) :
    (ObjectResponse.ofMetadata object.metadata object.content false).Carries policy object
      acceptsGzip :=
  ⟨rfl, rfl, rfl, rfl, rfl, Or.inl ⟨rfl, rfl⟩⟩

/-- What is answered from the store carries the object. -/
theorem carries_answerFromFetch (policy : CompressionPolicy) (object : StoredObject)
    (acceptsGzip : Bool) :
    (Awaiting.answerFromFetch policy object.content object.metadata acceptsGzip).Carries policy
      object acceptsGzip := by
  have hplain := carries_ofMetadata policy object acceptsGzip
  unfold Awaiting.answerFromFetch
  cases acceptsGzip with
  | false => exact hplain
  | true =>
    rw [if_pos rfl]
    unfold CompressionPolicy.packed?
    cases hadmits : policy.admits object.metadata.contentType object.content.length with
    | false => exact hplain
    | true =>
      rw [if_pos rfl]
      dsimp only
      have hdecodes : Gzip.decompress (Gzip.compress object.content) = .ok object.content := by
        have hmember := Gzip.decompress_compress_append object.content []
        rwa [List.append_nil] at hmember
      by_cases hsmaller : (Gzip.compress object.content).length < object.content.length
      · rw [if_pos hsmaller]
        exact ⟨rfl, rfl, rfl, rfl, rfl, Or.inr ⟨rfl, rfl, hadmits, hsmaller, hdecodes⟩⟩
      · rw [if_neg hsmaller]
        exact hplain

end ReadThrough
