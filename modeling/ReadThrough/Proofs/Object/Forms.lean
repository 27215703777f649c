import ReadThrough.Proofs.Object.Retention

/-!
# The forms in which an object is sent

An object is sent as it is or compressed. Whether it was cached or has come from the store
(`Cache.ReadsAs`), there are these two forms and no more, and only who accepts a compressed form
gets one (`Negotiates`).

* `Cache.exists_readsAs_of_pass` — a read is answered in the form that its sender accepts
* `Cache.gzip_eq_false_of_pass` — no other answer is compressed
-/

namespace ReadThrough

open Backend

/-! ## Answers in two forms -/

/-- An answer for each who asks: compressed for none but those who accept it. -/
structure Negotiates (answer : Bool → ObjectResponse) : Prop where
  plain : (answer false).gzip = false
  body_eq : (answer true).gzip = false → (answer true).body = (answer false).body

theorem Negotiates.body_eq_of_gzip_eq {answer : Bool → ObjectResponse} (h : Negotiates answer)
    {a b : Bool} (hgzip : (answer a).gzip = (answer b).gzip) :
    (answer a).body = (answer b).body := by
  cases a with
  | false =>
    cases b with
    | false => rfl
    | true => exact (h.body_eq (hgzip.symm.trans h.plain)).symm
  | true =>
    cases b with
    | false => exact h.body_eq (hgzip.trans h.plain)
    | true => rfl

theorem negotiates_answerFromEntry (e : Entry) :
    Negotiates (ObjectRequest.answerFromEntry e) := by
  unfold ObjectRequest.answerFromEntry
  cases e.packed with
  | none => exact ⟨rfl, fun _ => rfl⟩
  | some copy => exact ⟨rfl, nofun⟩

theorem negotiates_answerFromFetch (policy : CompressionPolicy) (content : Bytes)
    (metadata : Metadata) : Negotiates (Awaiting.answerFromFetch policy content metadata) := by
  unfold Awaiting.answerFromFetch
  refine ⟨rfl, fun hplain => ?_⟩
  dsimp only at hplain ⊢
  rw [if_pos rfl] at hplain ⊢
  split at hplain
  · split at hplain
    · cases hplain
    · next hlarge =>
      rw [if_neg hlarge]
      rfl
  · rfl

/-! ## Reads of a cache -/

namespace Cache

variable {c : Cache} {id : ObjectId} {m : Moment} {reply : (call : Call) → call.Outcome}

/-- How a read of an object is answered, by what its sender accepts. -/
inductive ReadsAs (c : Cache) (id : ObjectId) (m : Moment)
    (reply : (call : Call) → call.Outcome) : (Bool → ObjectResponse) → Prop where
  | found {e : Entry} (hget : (c.get m id.cacheKey).1 = some e) :
    ReadsAs c id m reply (ObjectRequest.answerFromEntry e)
  | fetched {content : Bytes} {metadata : Metadata} (hget : (c.get m id.cacheKey).1 = none)
    (hfetched : reply (.fetch id) = .ok (content, metadata)) :
    ReadsAs c id m reply (Awaiting.answerFromFetch c.policy content metadata)

theorem ReadsAs.unique {answer other : Bool → ObjectResponse} (h : c.ReadsAs id m reply answer)
    (hother : c.ReadsAs id m reply other) : other = answer := by
  cases h with
  | found hget =>
    cases hother with
    | found hget' => rw [Option.some.inj (hget.symm.trans hget')]
    | fetched hget' => cases hget.symm.trans hget'
  | fetched hget hfetched =>
    cases hother with
    | found hget' => cases hget.symm.trans hget'
    | fetched _ hfetched' =>
      obtain ⟨rfl, rfl⟩ := Prod.mk.inj (Except.ok.inj (hfetched.symm.trans hfetched'))
      rfl

theorem ReadsAs.negotiates {answer : Bool → ObjectResponse} (h : c.ReadsAs id m reply answer) :
    Negotiates answer := by
  cases h with
  | found => exact negotiates_answerFromEntry _
  | fetched => exact negotiates_answerFromFetch _ _ _

/-- Who reads an object is answered by what he accepts. -/
theorem exists_readsAs_of_pass {info : RequestInfo} {after : Moment} {finished : Finished}
    {calls : List Call} {r : ObjectResponse}
    (h : c.pass ⟨.get id info, m, reply, after⟩ = .ok (finished, calls))
    (houtcome : finished.outcome = .ok r) :
    ∃ answer, c.ReadsAs id m reply answer ∧ r = answer info.acceptsGzip := by
  unfold pass at h
  cases hstart : (ObjectRequest.get id info).start m c with | mk progress c'
  rw [hstart] at h
  cases starts_of_eq hstart with
  | unnamed =>
    obtain ⟨rfl, -⟩ := Prod.mk.inj (Except.ok.inj h)
    cases houtcome
  | found _ _ hget =>
    obtain ⟨rfl, -⟩ := Prod.mk.inj (Except.ok.inj h)
    exact ⟨_, .found hget, (Except.ok.inj houtcome).symm⟩
  | missed _ _ hget =>
    obtain ⟨resumed, hresume, hlast⟩ := exists_of_bind_eq_ok h
    obtain ⟨rfl, -⟩ := Prod.mk.inj (Except.ok.inj hlast)
    change (Awaiting.get id _ info.acceptsGzip).resume (reply (.fetch id)) after _ = _ at hresume
    cases hfetched : reply (.fetch id) with
    | error failure =>
      rw [hfetched] at hresume
      cases resumes_of_eq hresume
      cases houtcome
    | ok fetched =>
      obtain ⟨content, metadata⟩ := fetched
      rw [hfetched] at hresume
      cases resumes_of_eq hresume
      rw [(c.shrinks_get m id.cacheKey).policy] at houtcome
      exact ⟨_, .fetched hget hfetched, (Except.ok.inj houtcome).symm⟩

/-- A call that a read does not make brings nothing compressed. -/
theorem gzip_eq_false_of_resume {a : Awaiting} {reply : a.call.Outcome} {finished : Finished}
    {r : ObjectResponse} (h : a.resume reply m c = .ok finished) (houtcome : finished.outcome = .ok r)
    (hother : ∀ id generation acceptsGzip, a ≠ .get id generation acceptsGzip) :
    r.gzip = false := by
  cases resumes_of_eq h with
  | fetched => exact absurd rfl (hother _ _ _)
  | fetchFailed | storeFailed | removeFailed | statFailed => cases houtcome
  | stored | absent | removed | described =>
    obtain rfl := Except.ok.inj houtcome
    rfl

/-- Nothing is compressed in the answer to a request that is no read. -/
theorem gzip_eq_false_of_pass {p : Passage} {finished : Finished} {calls : List Call}
    {r : ObjectResponse} (h : c.pass p = .ok (finished, calls)) (houtcome : finished.outcome = .ok r)
    (hother : ∀ id info, p.request ≠ .get id info) : r.gzip = false := by
  obtain ⟨request, before, reply, after⟩ := p
  unfold pass at h
  dsimp only at h hother
  cases hstart : request.start before c with | mk progress c'
  rw [hstart] at h
  cases starts_of_eq hstart with
  | unnamed | undecodable =>
    obtain ⟨rfl, -⟩ := Prod.mk.inj (Except.ok.inj h)
    cases houtcome
  | found | missed => exact absurd rfl (hother _ _)
  | foundHead =>
    obtain ⟨rfl, -⟩ := Prod.mk.inj (Except.ok.inj h)
    obtain rfl := Except.ok.inj houtcome
    rfl
  | put | delete | missedHead =>
    obtain ⟨resumed, hresume, hlast⟩ := exists_of_bind_eq_ok h
    obtain ⟨rfl, -⟩ := Prod.mk.inj (Except.ok.inj hlast)
    exact gzip_eq_false_of_resume hresume houtcome nofun

end Cache

end ReadThrough
