import ReadThrough.Proofs.Gzip.RoundTrip
import ReadThrough.Proofs.Object.Setback

/-!
# Uploads of several members

A compressed file may consist of several members, one after another, and stands then for their
contents, one after another. A body that is declared to be compressed may be such a file. Of its
members the first alone is read: the request is answered as if all were well, and the contents of
the others are lost (`exists_cut_short`).

An upload is stored as a whole if its members after the first are empty, as in a file of one member,
and not otherwise (`receives_upload`).
-/

namespace ReadThrough

open Backend

/-- The file whose members have the given contents. -/
def Gzip.file (contents : List Bytes) : Bytes :=
  contents.flatMap compress

/-- Of a file the first member is read. -/
theorem Gzip.decompress_file (first : Bytes) (others : List Bytes) :
    decompress (file (first :: others)) = .ok first := by
  unfold file
  rw [List.flatMap_cons]
  exact decompress_compress_append first _

/-- A write fails and changes nothing, or it is answered and its object is stored as it should. -/
inductive Backend.Memory.Receives (memory : Memory) (id : ObjectId) (object : StoredObject) :
    ObjectOutcome → Memory → Prop where
  | failed (failure : RequestFailure) : Receives memory id object (.error failure) memory
  | stored {r : ObjectResponse} (h : r.status = 200) :
    Receives memory id object (.ok r) (memory.place id object)

theorem Backend.Memory.Receives.status {memory memory' : Memory} {id : ObjectId}
    {object : StoredObject} {r : ObjectResponse}
    (h : memory.Receives id object (.ok r) memory') : r.status = 200 := by
  cases h with
  | stored hstatus => exact hstatus

/-- What has been stored is what is found. -/
theorem Backend.Memory.Receives.find? {memory memory' : Memory} {id : ObjectId}
    {object : StoredObject} {r : ObjectResponse}
    (h : memory.Receives id object (.ok r) memory') : memory'.find? id = some object := by
  cases h with
  | stored => exact memory.find?_place_self id object

theorem Backend.Memory.Receives.eq_of_error {memory memory' : Memory} {id : ObjectId}
    {object : StoredObject} {failure : RequestFailure}
    (h : memory.Receives id object (.error failure) memory') : memory' = memory := by
  cases h with
  | failed => rfl

namespace Session

variable {info : RequestInfo} {body content : Bytes}

/-- A write stores what its body stands for, or fails. With a store that works it is answered. -/
theorem exists_receives_put (s : Session) (id : ObjectId)
    (hcontent : ObjectRequest.contentOf info body = .ok content) (before after : Moment)
    (during : Time) (fault : Option Failure) :
    ∃ outcome s', s.attempt ⟨.put id info body, before, during, after⟩ fault = .ok (outcome, s') ∧
      s.memory.Receives id
        (Memory.objectOf content (info.contentType.getD defaultContentType) during) outcome
        s'.memory ∧
      (ObjectRequest.named id = true → fault = none → ∃ r, outcome = .ok r) := by
  cases hnamed : ObjectRequest.named id with
  | false =>
    obtain ⟨-, hattempt⟩ :=
      s.attempt_of_unnamed (v := ⟨.put id info body, before, during, after⟩) fault hnamed
    exact ⟨_, _, hattempt, .failed _, fun hnamed => by cases hnamed⟩
  | true =>
    have hstart : (ObjectRequest.put id info body).start before s.cache =
        (.waiting (.put id content (info.contentType.getD defaultContentType)),
          (s.cache.delete id.cacheKey).2) := by
      simp [ObjectRequest.start, ObjectRequest.id, hnamed, hcontent]
    unfold attempt
    rw [hstart]
    cases fault with
    | some failure => exact ⟨_, _, rfl, .failed _, fun _ hfault => by cases hfault⟩
    | none => exact ⟨_, _, rfl, .stored rfl, fun _ _ => ⟨_, rfl⟩⟩

theorem contentOf_file (hgzip : info.bodyIsGzip = true) (first : Bytes) (others : List Bytes) :
    ObjectRequest.contentOf info (Gzip.file (first :: others)) = .ok first := by
  unfold ObjectRequest.contentOf
  rw [if_pos hgzip]
  exact Gzip.decompress_file first others

/--
**An upload is stored as a whole if nothing follows its first member.** Write a file of any members
as the body of an object, in any session, with a store that works or one that fails. The request
fails and nothing is stored, or it is answered 200 and the content of the first member is stored. It
is answered if it names an object and the store works. What is stored is the content of the file, or
nothing, if and only if the request fails or all members after the first are empty.
-/
theorem receives_upload (s : Session) (id : ObjectId) (hgzip : info.bodyIsGzip = true)
    (first : Bytes) (others : List Bytes) (before after : Moment) (during : Time)
    (fault : Option Failure) :
    ∃ outcome s', s.attempt ⟨.put id info (Gzip.file (first :: others)), before, during, after⟩
        fault = .ok (outcome, s') ∧
      s.memory.Receives id
        (Memory.objectOf first (info.contentType.getD defaultContentType) during) outcome
        s'.memory ∧
      (ObjectRequest.named id = true → fault = none → ∃ r, outcome = .ok r) ∧
      (s.memory.Receives id
          (Memory.objectOf (first :: others).flatten (info.contentType.getD defaultContentType)
            during) outcome s'.memory ↔
        (∃ failure, outcome = .error failure) ∨ ∀ content ∈ others, content = []) := by
  obtain ⟨outcome, s', hattempt, hreceives, hanswered⟩ :=
    s.exists_receives_put id (contentOf_file hgzip first others) before after during fault
  refine ⟨outcome, s', hattempt, hreceives, hanswered, ?_⟩
  constructor
  · intro hwhole
    cases outcome with
    | error failure => exact Or.inl ⟨failure, rfl⟩
    | ok r =>
      right
      have hsame := Option.some.inj (hwhole.find?.symm.trans hreceives.find?)
      have hflatten : first ++ others.flatten = first := congrArg StoredObject.content hsame
      exact List.flatten_eq_nil_iff.mp (List.append_right_eq_self.mp hflatten)
  · rintro (⟨failure, rfl⟩ | hempty)
    · rw [hreceives.eq_of_error]
      exact .failed failure
    · have hflatten : (first :: others).flatten = first := by
        rw [List.flatten_cons, List.flatten_eq_nil_iff.mpr hempty, List.append_nil]
      rwa [hflatten]

/-- A write of a file of two members at the first instant. -/
def upload (first second : String) : Visit :=
  atOnce (.put greetingPlace ⟨false, none, some "gzip"⟩
    (Gzip.file [Bytes.ofText first, Bytes.ofText second]))

/-- The theorem at work: nothing is lost of a file whose second member is empty. -/
theorem receives_upload_greeting :
    ∃ r s', (fresh 100 5 ⟨100⟩).attempt (upload "hi" "") none = .ok (.ok r, s') ∧
      r.status = 200 ∧
      Memory.empty.Receives greetingPlace
        (Memory.objectOf [Bytes.ofText "hi", Bytes.ofText ""].flatten defaultContentType ⟨0, 0⟩)
        (.ok r) s'.memory := by
  have hgzip : (⟨false, none, some "gzip"⟩ : RequestInfo).bodyIsGzip = true := by decide
  have hnamed : ObjectRequest.named greetingPlace = true := by decide
  obtain ⟨outcome, s', hattempt, hfirst, hanswered, hwhole⟩ :=
    (fresh 100 5 ⟨100⟩).receives_upload greetingPlace hgzip (Bytes.ofText "hi")
      [Bytes.ofText ""] (.at ⟨0⟩ ⟨0, 0⟩) (.at ⟨0⟩ ⟨0, 0⟩) ⟨0, 0⟩ none
  obtain ⟨r, rfl⟩ := hanswered hnamed rfl
  have hempty : ∀ content ∈ [Bytes.ofText ""], content = [] := by decide +kernel
  exact ⟨r, s', hattempt, hfirst.status, hwhole.mpr (Or.inr hempty)⟩

/--
**An upload may be cut short.** A file of two members is answered as if it had been stored, and the
content of the second is lost.
-/
theorem exists_cut_short :
    ∃ r s', (fresh 100 5 ⟨100⟩).attempt (upload "hi" "ho") none = .ok (.ok r, s') ∧
      r.status = 200 ∧
      (s'.memory.find? greetingPlace).map StoredObject.content = some (Bytes.ofText "hi") ∧
      ¬ Memory.empty.Receives greetingPlace
        (Memory.objectOf [Bytes.ofText "hi", Bytes.ofText "ho"].flatten defaultContentType ⟨0, 0⟩)
        (.ok r) s'.memory := by
  have hgzip : (⟨false, none, some "gzip"⟩ : RequestInfo).bodyIsGzip = true := by decide
  have hcontent := contentOf_file hgzip (Bytes.ofText "hi") [Bytes.ofText "ho"]
  obtain ⟨outcome, s', hattempt, hfirst, hanswered⟩ :=
    (fresh 100 5 ⟨100⟩).exists_receives_put greetingPlace hcontent (.at ⟨0⟩ ⟨0, 0⟩)
      (.at ⟨0⟩ ⟨0, 0⟩) ⟨0, 0⟩ none
  obtain ⟨r, rfl⟩ := hanswered (by decide) rfl
  refine ⟨r, s', hattempt, hfirst.status, ?_, ?_⟩
  · rw [hfirst.find?]
    rfl
  · intro hwhole
    have hsame := Option.some.inj (hwhole.find?.symm.trans hfirst.find?)
    have hcut : [Bytes.ofText "hi", Bytes.ofText "ho"].flatten = Bytes.ofText "hi" :=
      congrArg StoredObject.content hsame
    exact absurd hcut (by decide +kernel)

end Session

end ReadThrough
