import ReadThrough.Proofs.Http.Denial
import ReadThrough.Proofs.Http.Tallies

/-!
# The readings of a path

A path is read four times: for the way that a request takes, for the bucket that is counted and that
the policy is asked for, for what is said where nothing answers, and, with its escapes replaced, for
the names of an object. `Leads` and `IsUnderObjects` say what the paths of objects look like, and
all four go by that.

* `ofPath_eq_object_iff`, `unroutedFailure_of_isUnderObjects` — the way, and where there is none
* `enters_iff_exists_leads` — which requests get to the objects
* `named_of_decodeText?` — no escape stands for nothing, so a name is empty only where the path has
  nothing in its place
* `readings_agree` — hence the readings agree, but where nothing stands in the place of the bucket
-/

namespace ReadThrough.Http

/-! ## What paths look like -/

/-- The path of objects, a part without a slash, a slash, and a rest that is not empty. -/
structure Leads (path bucket key : String) : Prop where
  path_eq : path = "/objects/" ++ bucket ++ "/" ++ key
  plain : '/' ∉ bucket.toList
  key_ne : key ≠ ""

/-- The path is the one of objects, or goes on behind it. -/
def IsUnderObjects (path : String) : Prop :=
  path = "/objects" ∨ ∃ rest, path = "/objects/" ++ rest

variable {path bucket key : String}

theorem afterStart?_objectsPath {rest : List Char} :
    Text.afterStart? objectsPath.toList path.toList = some rest ↔
      path = "/objects/" ++ String.ofList rest := by
  have hrest : (String.ofList rest).toList = rest := String.toList_ofList
  rw [Text.afterStart?_eq_some_iff, ← String.toList_inj, String.toList_append, hrest]
  rfl

theorem Leads.isUnderObjects (h : Leads path bucket key) : IsUnderObjects path := by
  refine Or.inr ⟨bucket ++ "/" ++ key, ?_⟩
  rw [h.path_eq, String.append_assoc, String.append_assoc, String.append_assoc]

/-- None of the paths under the one of objects serves the state of the server. -/
theorem IsUnderObjects.ne_service (h : IsUnderObjects path) :
    path ≠ "/stats" ∧ path ≠ "/health" := by
  have hsecond : path.toList[1]? = some 'o' := by
    rcases h with rfl | ⟨rest, rfl⟩
    · decide
    · rw [String.toList_append]
      rfl
  constructor <;> rintro rfl <;> revert hsecond <;> decide

/-! ## The way of a request -/

/-- A path divides into a bucket and a key if they stand in their places. -/
theorem divides_iff {before after : List Char} :
    (Text.afterStart? objectsPath.toList path.toList).bind (Text.cut? '/') = some (before, after) ↔
      path = "/objects/" ++ String.ofList before ++ "/" ++ String.ofList after ∧ '/' ∉ before := by
  have hparts : String.ofList (before ++ '/' :: after) =
      String.ofList before ++ "/" ++ String.ofList after := by
    rw [← String.toList_inj]
    simp
  simp only [Option.bind_eq_some_iff, afterStart?_objectsPath, Text.cut?_eq_some_iff]
  constructor
  · rintro ⟨rest, hpath, rfl, hplain⟩
    rw [hpath, hparts, String.append_assoc, String.append_assoc, String.append_assoc]
    exact ⟨rfl, hplain⟩
  · rintro ⟨hpath, hplain⟩
    refine ⟨before ++ '/' :: after, ?_, rfl, hplain⟩
    rw [hpath, hparts, String.append_assoc, String.append_assoc, String.append_assoc]

/-- The way to an object is taken by the paths that look like one. -/
theorem ofPath_eq_object_iff : Route.ofPath path = .object bucket key ↔ Leads path bucket key := by
  constructor
  · intro h
    unfold Route.ofPath at h
    split at h
    · cases h
    · split at h
      · cases h
      · split at h
        · next before after hdivides =>
          obtain ⟨hpath, hplain⟩ := divides_iff.1 hdivides
          split at h
          · cases h
          · next hkey =>
            obtain ⟨rfl, rfl⟩ := Route.object.inj h
            refine ⟨hpath, by rwa [String.toList_ofList], fun hempty => hkey ?_⟩
            rwa [String.ofList_eq_empty_iff] at hempty
        · cases h
  · intro h
    obtain ⟨hstats, hhealth⟩ := h.isUnderObjects.ne_service
    have hdivides : (Text.afterStart? objectsPath.toList path.toList).bind (Text.cut? '/') =
        some (bucket.toList, key.toList) := by
      rw [divides_iff, String.ofList_toList, String.ofList_toList]
      exact ⟨h.path_eq, h.plain⟩
    have hkey : key.toList ≠ [] := by simpa using h.key_ne
    unfold Route.ofPath
    simp only [if_neg hstats, if_neg hhealth, hdivides, if_neg hkey, String.ofList_toList]

/-- What is said of a path under the one of objects that leads nowhere. -/
theorem unroutedFailure_of_isUnderObjects (h : IsUnderObjects path) :
    unroutedFailure path = .emptyName := by
  unfold unroutedFailure
  rw [if_pos]
  rcases h with hobjects | ⟨rest, hrest⟩
  · exact Or.inr hobjects
  · rw [← String.ofList_toList (s := rest)] at hrest
    exact Or.inl (Option.isSome_iff_exists.2 ⟨_, afterStart?_objectsPath.2 hrest⟩)

theorem unroutedFailure_of_not_isUnderObjects (h : ¬ IsUnderObjects path) :
    unroutedFailure path = .unrouted path := by
  unfold unroutedFailure
  rw [if_neg]
  rintro (hsome | hobjects)
  · obtain ⟨rest, hrest⟩ := Option.isSome_iff_exists.1 hsome
    exact h (Or.inr ⟨_, afterStart?_objectsPath.1 hrest⟩)
  · exact h (Or.inl hobjects)

/-- What leads to no object and serves no state leads nowhere. -/
theorem ofPath_eq_unrouted (hnone : ∀ bucket key, ¬ Leads path bucket key)
    (hstats : path ≠ "/stats") (hhealth : path ≠ "/health") : Route.ofPath path = .unrouted := by
  cases hroute : Route.ofPath path with
  | object bucket key => exact absurd (ofPath_eq_object_iff.1 hroute) (hnone bucket key)
  | unrouted => rfl
  | stats | health =>
    unfold Route.ofPath at hroute
    rw [if_neg hstats, if_neg hhealth] at hroute
    split at hroute
    · split at hroute <;> cases hroute
    · cases hroute

/-! ## Who gets to the objects -/

variable {svc : Service} {req : Request} {m : Moment}

/-- The request gets to the objects: there the first thing that is done for it is to count it. -/
def Enters (svc : Service) (req : Request) (m : Moment) : Prop :=
  (start svc req m).2.metrics.requests = svc.metrics.requests + 1

/-- The request is answered with a problem, and the server stays as it is. -/
def TurnsBack (svc : Service) (req : Request) (m : Moment) (status : Nat) (p : Problem) : Prop :=
  ∃ r, start svc req m = (.done r, svc) ∧ r.status = status ∧
    r.body = .octets (Bytes.ofText (problemText p))

theorem requests_startObject (svc : Service) (req : Request) (bucket key : String) (m : Moment) :
    (startObject svc req bucket key m).2.metrics.requests = svc.metrics.requests + 1 := by
  cases hstage : startObject svc req bucket key m with | mk stage svc'
  rcases startObject_cases hstage with ⟨answer, svc₁, hpending, -, rfl⟩ | ⟨-, -, -, -, -, -, rfl⟩
  · obtain ⟨⟨sizes, hmetrics⟩, -⟩ := hpending
    rw [metrics_record, hmetrics]
  · rfl

theorem start_of_route (hmethod : req.method ≠ "OPTIONS")
    (hroute : Route.ofPath req.path = .object bucket key) :
    start svc req m = startObject svc req bucket key m := by
  rw [start, if_neg hmethod, hroute]

theorem turnsBack_of_unrouted (hmethod : req.method ≠ "OPTIONS")
    (hroute : Route.ofPath req.path = .unrouted) (svc : Service) (m : Moment) :
    TurnsBack svc req m (unroutedFailure req.path).problem.kind.status
      (unroutedFailure req.path).problem := by
  refine ⟨withOrigins (Response.ofFailure (unroutedFailure req.path)).withLength, ?_, ?_, ?_⟩
  · rw [start, if_neg hmethod, hroute]
  · exact status_withLength _
  · exact body_withLength _

/-- A request gets to the objects if its path looks like that of one. -/
theorem enters_iff_exists_leads (hmethod : req.method ≠ "OPTIONS") :
    Enters svc req m ↔ ∃ bucket key, Leads req.path bucket key := by
  constructor
  · intro henters
    cases hroute : Route.ofPath req.path with
    | object bucket key => exact ⟨bucket, key, ofPath_eq_object_iff.1 hroute⟩
    | stats | health | unrouted =>
      have hsame : (start svc req m).2 = svc := by rw [start, if_neg hmethod, hroute]
      rw [Enters, hsame] at henters
      -- no count is its own successor
      exact absurd henters (by simp)
  · rintro ⟨bucket, key, hleads⟩
    rw [Enters, start_of_route hmethod (ofPath_eq_object_iff.2 hleads)]
    exact requests_startObject svc req bucket key m

/-! ## The names of an object -/

theorem named_iff {id : ObjectId} :
    ObjectRequest.named id = true ↔ id.bucket ≠ "" ∧ id.key ≠ "" := by
  simp [ObjectRequest.named]

/-- What stands in the path for the bucket and the key names an object, if it is not empty. -/
theorem named_of_decodeText? {id : ObjectId} (hbucket : bucket ≠ "") (hkey : key ≠ "")
    (hdecoded : Percent.decodeText? bucket = some id.bucket ∧
      Percent.decodeText? key = some id.key) : ObjectRequest.named id = true := by
  refine named_iff.2 ⟨fun hempty => hbucket ?_, fun hempty => hkey ?_⟩
  · exact Percent.eq_empty_of_decodeText? (hempty ▸ hdecoded.1)
  · exact Percent.eq_empty_of_decodeText? (hempty ▸ hdecoded.2)

/-- What is admitted goes to the object whose names stand in the path. -/
theorem decodeText?_of_admitted {access : AccessControl} {r : ObjectRequest}
    (hleads : Leads req.path bucket key) (hadmitted : admitted? access req = some r) :
    Percent.decodeText? bucket = some r.id.bucket ∧ Percent.decodeText? key = some r.id.key :=
  (names_of_admitted hadmitted).decodeText?_eq (ofPath_eq_object_iff.2 hleads)

/-! ## Nothing in the place of the bucket -/

section unnamed

variable (hleads : Leads req.path "" key)

include hleads

theorem bucketOfPath?_of_no_bucket : bucketOfPath? req.path = none := by
  rw [bucketOfPath?_of_route (ofPath_eq_object_iff.2 hleads), if_pos rfl]

/-- The policy has no bucket to be asked for. -/
theorem start_of_no_bucket (hmethod : req.method ≠ "OPTIONS")
    (henabled : svc.access.enabled = true) :
    (start svc req m).1 = .done (dress req (.ofProblem ⟨.validation, "invalid path"⟩)) := by
  have hrefusal : refusal? svc.access req = some .noBucket := by
    unfold refusal?
    rw [henabled, bucketOfPath?_of_no_bucket hleads]
    rfl
  obtain ⟨metrics, log, hstart⟩ :=
    start_of_refusal hmethod (ofPath_eq_object_iff.2 hleads) hrefusal m
  rw [hstart]
  rfl

/-- An object request without a bucket is answered before it looks at the cache. -/
theorem proceeds_of_no_bucket {r : ObjectRequest} (hadmitted : admitted? svc.access req = some r) :
    (start svc req m).2.cache = svc.cache ∧
      (start svc req m).1 =
        .done (dress req (.ofProblem ⟨.validation, "invalid bucket or key"⟩)) := by
  have hempty : Percent.decodeText? "" = some "" := Percent.decodeText?_of_not_mem (by decide)
  obtain ⟨hbucket, -⟩ := decodeText?_of_admitted hleads hadmitted
  rw [hempty, Option.some.injEq] at hbucket
  have hunnamed : ObjectRequest.named r.id = false := by
    rw [← Bool.not_eq_true, named_iff]
    exact fun hnamed => hnamed.1 hbucket.symm
  obtain ⟨hcache, hstage⟩ := proceeds_of_admitted hadmitted m
  rw [Session.start_of_unnamed hunnamed] at hcache hstage
  exact ⟨hcache, hstage⟩

/-- Whatever is answered to a request without a bucket, it is answered at once. -/
theorem stops_of_no_bucket : Stops svc req m := by
  cases hadmitted : admitted? svc.access req with
  | none => exact stops_of_not_admitted hadmitted m
  | some r =>
    obtain ⟨hcache, hstage⟩ := proceeds_of_no_bucket (m := m) hleads hadmitted
    exact ⟨hcache, _, hstage⟩

end unnamed

/-! ## The four readings -/

/--
**The readings of a path agree, but for what stands in the bucket's place.** A request comes to a
server in any state, with any path and any method but the one that asks for methods. It gets to the
objects if and only if the path is the one of objects, followed by a part without a slash, a slash,
and a rest that is not empty. If the part is not empty it is the bucket that is counted and that the
policy is asked for, so the request is not refused for want of one, and the object that it goes to
has names that are not empty. If the part is empty there is no such bucket, and the request is
answered at once: as invalid if there is a policy, or if an object request comes of it at all. Any
other path under the one of objects is answered as invalid, and any other that serves no state is
told that nothing answers there; neither changes anything.
-/
theorem readings_agree (hmethod : req.method ≠ "OPTIONS") (svc : Service) (m : Moment) :
    (Enters svc req m ↔ ∃ bucket key, Leads req.path bucket key) ∧
    (∀ bucket key, Leads req.path bucket key → bucket ≠ "" →
      bucketOfPath? req.path = some bucket ∧ refusal? svc.access req ≠ some .noBucket ∧
      ∀ r, admitted? svc.access req = some r →
        Percent.decodeText? bucket = some r.id.bucket ∧ Percent.decodeText? key = some r.id.key ∧
        ObjectRequest.named r.id = true) ∧
    (∀ key, Leads req.path "" key → bucketOfPath? req.path = none ∧ Stops svc req m ∧
      (svc.access.enabled = true →
        (start svc req m).1 = .done (dress req (.ofProblem ⟨.validation, "invalid path"⟩))) ∧
      ∀ r, admitted? svc.access req = some r → (start svc req m).1 =
        .done (dress req (.ofProblem ⟨.validation, "invalid bucket or key"⟩))) ∧
    ((∀ bucket key, ¬ Leads req.path bucket key) → IsUnderObjects req.path →
      TurnsBack svc req m 400 ⟨.validation, "invalid bucket or key"⟩) ∧
    (¬ IsUnderObjects req.path → req.path ≠ "/stats" → req.path ≠ "/health" →
      TurnsBack svc req m 404 ⟨.notFound, "no route for " ++ req.path⟩) := by
  refine ⟨enters_iff_exists_leads hmethod, ?_, ?_, ?_, ?_⟩
  · intro bucket key hleads hbucket
    have hroute := ofPath_eq_object_iff.2 hleads
    have hcounted : bucketOfPath? req.path = some bucket := by
      rw [bucketOfPath?_of_route hroute, if_neg hbucket]
    refine ⟨hcounted, fun hrefusal => ?_, fun r hadmitted => ?_⟩
    · rw [refusal?_of_route hroute, if_neg hbucket] at hrefusal
      split at hrefusal <;> cases hrefusal
    · have hdecoded := decodeText?_of_admitted hleads hadmitted
      exact ⟨hdecoded.1, hdecoded.2, named_of_decodeText? hbucket hleads.key_ne hdecoded⟩
  · intro key hleads
    exact ⟨bucketOfPath?_of_no_bucket hleads, stops_of_no_bucket hleads,
      start_of_no_bucket hleads hmethod, fun r hadmitted => (proceeds_of_no_bucket hleads hadmitted).2⟩
  · intro hnone hunder
    obtain ⟨hstats, hhealth⟩ := hunder.ne_service
    have hroute := ofPath_eq_unrouted hnone hstats hhealth
    have hturns := turnsBack_of_unrouted hmethod hroute svc m
    rwa [unroutedFailure_of_isUnderObjects hunder] at hturns
  · intro hnot hstats hhealth
    have hnone : ∀ bucket key, ¬ Leads req.path bucket key := fun bucket key hleads =>
      hnot hleads.isUnderObjects
    have hroute := ofPath_eq_unrouted hnone hstats hhealth
    have hturns := turnsBack_of_unrouted hmethod hroute svc m
    rwa [unroutedFailure_of_not_isUnderObjects hnot] at hturns

/-- The theorem at work: slashes in a key, a path without a key, and one that only begins alike. -/
theorem readings_agree_knock :
    Enters (guarded "b:all") (knock "/objects/b//k/") (.at ⟨0⟩ ⟨0, 0⟩) ∧
      bucketOfPath? "/objects/b//k/" = some "b" ∧
      TurnsBack (guarded "b:all") (knock "/objects/b/") (.at ⟨0⟩ ⟨0, 0⟩) 400
        ⟨.validation, "invalid bucket or key"⟩ ∧
      TurnsBack (guarded "b:all") (knock "/objectsb/k") (.at ⟨0⟩ ⟨0, 0⟩) 404
        ⟨.notFound, "no route for /objectsb/k"⟩ := by
  have hmethod : ∀ path, (knock path).method ≠ "OPTIONS" := fun path => by
    show "PUT" ≠ "OPTIONS"
    decide
  have hleads : Leads "/objects/b//k/" "b" "/k/" := ⟨by decide, by decide, by decide⟩
  have hnone : ∀ bucket key, ¬ Leads "/objects/b/" bucket key := by
    intro bucket key hleads
    have hroute : Route.ofPath "/objects/b/" = .unrouted := by decide +kernel
    cases hroute.symm.trans (ofPath_eq_object_iff.2 hleads)
  have hunder : IsUnderObjects "/objects/b/" := Or.inr ⟨"b/", by decide⟩
  have hnot : ¬ IsUnderObjects "/objectsb/k" := by
    rintro (hobjects | ⟨rest, hrest⟩)
    · exact absurd hobjects (by decide)
    · have hletters := congrArg String.toList hrest
      rw [String.toList_append] at hletters
      cases hletters
  obtain ⟨henters, hnamed, -⟩ :=
    readings_agree (hmethod "/objects/b//k/") (guarded "b:all") (.at ⟨0⟩ ⟨0, 0⟩)
  obtain ⟨-, -, -, hinvalid, -⟩ :=
    readings_agree (hmethod "/objects/b/") (guarded "b:all") (.at ⟨0⟩ ⟨0, 0⟩)
  obtain ⟨-, -, -, -, hnowhere⟩ :=
    readings_agree (hmethod "/objectsb/k") (guarded "b:all") (.at ⟨0⟩ ⟨0, 0⟩)
  exact ⟨henters.2 ⟨"b", "/k/", hleads⟩, (hnamed "b" "/k/" hleads (by decide)).1,
    hinvalid hnone hunder, hnowhere hnot (by decide) (by decide)⟩

/--
**A request without a bucket gets to the objects.** Nothing stands in the bucket's place, and the
request is counted among those for objects. There the policy refuses it for want of a bucket.
-/
theorem enters_without_bucket :
    Enters (guarded "b:all") (knock "/objects//k") (.at ⟨0⟩ ⟨0, 0⟩) ∧
      (¬ ∃ bucket key, Leads "/objects//k" bucket key ∧ bucket ≠ "") ∧
      bucketOfPath? "/objects//k" = none ∧
      refusal? (guarded "b:all").access (knock "/objects//k") = some .noBucket := by
  have hroute : Route.ofPath "/objects//k" = .object "" "k" := by decide +kernel
  have hleads : Leads (knock "/objects//k").path "" "k" := ofPath_eq_object_iff.1 hroute
  have hmethod : (knock "/objects//k").method ≠ "OPTIONS" := by
    show "PUT" ≠ "OPTIONS"
    decide
  refine ⟨(enters_iff_exists_leads hmethod).2 ⟨"", "k", hleads⟩, ?_, by decide +kernel,
    by decide +kernel⟩
  rintro ⟨bucket, key, hleads, hbucket⟩
  obtain ⟨rfl, -⟩ := Route.object.inj (hroute.symm.trans (ofPath_eq_object_iff.2 hleads))
  exact hbucket rfl

end ReadThrough.Http
