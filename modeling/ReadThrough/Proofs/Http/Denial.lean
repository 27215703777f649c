import ReadThrough.Proofs.Http.Fields
import ReadThrough.Proofs.Http.Reachable
import ReadThrough.Proofs.Policy.Grants

/-!
# Who is refused

The policy of a server comes from two variables of its environment. One switches it off, and only
if it holds the very word for that (`Settings.SwitchedOff`); the other lists what is granted
(`Settings.Granted`). Whatever else the two hold, the server stays closed.

* `policyEnabled_eq_false_iff`, `allows_policy_iff` — what the settings make of the variables
* `refusal?_of_route` — whom the policy refuses, and why
* `passes_or_refuses` — who is not granted the bucket is answered at once, to no effect
-/

namespace ReadThrough

/-! ## The environment -/

namespace Settings

/-- The policy is switched off. -/
def SwitchedOff (env : Environment) : Prop :=
  ∃ text, textOf env "BUCKET_POLICIES_ENABLED" = some text ∧
    Text.trim text.toList = "false".toList

/-- The list of the environment opens the bucket for the method. -/
def Granted (env : Environment) (bucket method : String) : Prop :=
  ∃ list permission, textOf env "BUCKET_POLICIES" = some list ∧
    AccessPolicy.LastGives list bucket permission ∧ permission.Opens method

variable {env : Environment}

theorem truth?_eq_some_false_iff {cs : List Char} :
    truth? cs = some false ↔ cs = "false".toList := by
  unfold truth?
  by_cases htrue : cs = "true".toList
  · rw [if_pos htrue, htrue]
    decide
  · rw [if_neg htrue]
    by_cases hfalse : cs = "false".toList
    · rw [if_pos hfalse]
      exact iff_of_true rfl hfalse
    · rw [if_neg hfalse]
      exact iff_of_false nofun hfalse

theorem policyEnabled_eq_false_iff :
    (ofEnvironment env).policyEnabled = false ↔ SwitchedOff env := by
  unfold SwitchedOff
  dsimp only [ofEnvironment]
  constructor
  · intro h
    cases htruth : (textOf env "BUCKET_POLICIES_ENABLED").bind
        fun text => truth? (Text.trim text.toList) with
    | none =>
      rw [htruth] at h
      cases h
    | some enabled =>
      rw [htruth] at h
      obtain ⟨text, htext, hword⟩ := Option.bind_eq_some_iff.1 htruth
      rw [show enabled = false from h] at hword
      exact ⟨text, htext, truth?_eq_some_false_iff.1 hword⟩
  · rintro ⟨text, htext, hword⟩
    have htruth := truth?_eq_some_false_iff.2 hword
    simp [htext, htruth]

theorem allows_policy_iff {bucket method : String} :
    (ofEnvironment env).policy.allows bucket method = true ↔ Granted env bucket method := by
  unfold Granted
  dsimp only [ofEnvironment]
  cases hlist : textOf env "BUCKET_POLICIES" with
  | none => simp [AccessPolicy.allows, AccessPolicy.permission?, AccessPolicy.empty]
  | some list =>
    dsimp only
    rw [AccessPolicy.allows_parse_iff]
    simp

/-- A bucket without a name is granted to nobody. -/
theorem ne_empty_of_granted {bucket method : String} (h : Granted env bucket method) :
    bucket ≠ "" := by
  obtain ⟨list, permission, -, ⟨front, item, back, -, hgives, -⟩, -⟩ := h
  obtain ⟨before, after, -, -, -, hbucket, -⟩ := hgives
  exact hbucket

end Settings

/-! ## Requests -/

namespace Http

open Settings

variable {env : Environment}

/-- Whom the policy refuses: the bucket is looked at before what it is opened for. -/
theorem refusal?_of_route {access : AccessControl} {req : Request} {bucket key : String}
    (hroute : Route.ofPath req.path = .object bucket key) :
    refusal? access req =
      if access.enabled = false ∨ bucket ≠ "" ∧ access.policy.allows bucket req.method = true then
        none
      else if bucket = "" then some .noBucket
      else some (.denied req.method bucket) := by
  unfold refusal?
  rw [bucketOfPath?_of_route hroute]
  cases access.enabled with
  | false => simp
  | true =>
    by_cases hbucket : bucket = ""
    · simp [hbucket]
    · cases hallows : access.policy.allows bucket req.method <;> simp [hbucket, hallows]

namespace Site

/-- The request goes the way that it would go without a policy. -/
def PassesOn (s : Site) (x : Exchange) : Prop :=
  start s.service x.request x.before =
    ((start (opened s.service) x.request x.before).1,
      { (start (opened s.service) x.request x.before).2 with access := s.service.access })

/--
The request is answered with a problem. No call is made; the cache and the store stay as they are,
and all that changes is what is counted of requests and what is logged.
-/
def Refuses (s : Site) (x : Exchange) (kind : ProblemClass) (status : Nat) : Prop :=
  ∃ r detail metrics log, r = dress x.request (.ofProblem ⟨kind, detail⟩) ∧ r.status = status ∧
    start s.service x.request x.before =
      (.done r, { s.service with metrics := metrics, log := log }) ∧
    s.serve x = .ok (r, ⟨{ s.service with metrics := metrics, log := log }, s.memory⟩)

variable {s : Site} {x : Exchange} {bucket key : String}

theorem refuses_of_refusal (hmethod : x.request.method ≠ "OPTIONS")
    (hroute : Route.ofPath x.request.path = .object bucket key) {failure : RequestFailure}
    (hrefusal : refusal? s.service.access x.request = some failure) :
    s.Refuses x failure.problem.kind failure.problem.kind.status := by
  obtain ⟨metrics, log, hstart⟩ := start_of_refusal hmethod hroute hrefusal x.before
  refine ⟨_, failure.problem.detail, metrics, log, rfl, status_dress _ _, hstart, ?_⟩
  unfold serve
  rw [hstart]
  rfl

/--
**Who is not granted the bucket is refused, to no effect.** Take any environment and the server that
it asks for, after whatever it has done and in front of any store, and a request for an object. If
the policy is switched off, or the last item of the list that gives the bucket a permission opens it
for the method, the request goes the way that it would go without a policy. In any other case it is
refused: as forbidden, or, where the path has no bucket, as invalid.
-/
theorem passes_or_refuses (hreachable : Service.Reachable env s.service)
    (hmethod : x.request.method ≠ "OPTIONS")
    (hroute : Route.ofPath x.request.path = .object bucket key) :
    (SwitchedOff env ∨ Granted env bucket x.request.method → s.PassesOn x) ∧
      (¬ (SwitchedOff env ∨ Granted env bucket x.request.method) → bucket ≠ "" →
        s.Refuses x .forbidden 403) ∧
      (¬ (SwitchedOff env ∨ Granted env bucket x.request.method) → bucket = "" →
        s.Refuses x .validation 400) := by
  -- the settings never change, so what the server asks its policy is what the environment says
  have hopen : s.service.access.enabled = false ∨
      bucket ≠ "" ∧ s.service.access.policy.allows bucket x.request.method = true ↔
        SwitchedOff env ∨ Granted env bucket x.request.method := by
    rw [hreachable.bears.access, policyEnabled_eq_false_iff, allows_policy_iff]
    exact or_congr_right (and_iff_right_of_imp ne_empty_of_granted)
  have hrefusal : refusal? s.service.access x.request = _ := refusal?_of_route hroute
  refine ⟨fun h => ?_, fun h hbucket => ?_, fun h hbucket => ?_⟩
  · rw [if_pos (hopen.2 h)] at hrefusal
    exact start_of_no_refusal hmethod hroute hrefusal x.before
  · rw [if_neg (mt hopen.1 h), if_neg hbucket] at hrefusal
    have hrefused := refuses_of_refusal hmethod hroute hrefusal
    exact hrefused
  · rw [if_neg (mt hopen.1 h), if_pos hbucket] at hrefusal
    have hrefused := refuses_of_refusal hmethod hroute hrefusal
    exact hrefused

/-- An environment in which the bucket `b` is open for reading; a later item takes its place. -/
def readable : Environment := fun name =>
  if name = "BUCKET_POLICIES_ENABLED" then some (Bytes.ofText "False")
  else if name = "BUCKET_POLICIES" then some (Bytes.ofText "b:all, b : READ,b:some")
  else none

/-- The server that asks for it. -/
def readableSite : Site :=
  ⟨.ofSettings (.ofEnvironment readable), .empty⟩

/-- A request at the first instant. -/
def knockAt (method path : String) : Exchange :=
  ⟨⟨method, path, [], Bytes.ofText "x"⟩, .at ⟨0⟩ ⟨0, 0⟩, ⟨0, 0⟩, .at ⟨0⟩ ⟨0, 0⟩⟩

theorem not_open_of_allows_eq_false {method : String}
    (henabled : (ofEnvironment env).policyEnabled = true)
    (hallows : (ofEnvironment env).policy.allows bucket method = false) :
    ¬ (SwitchedOff env ∨ Granted env bucket method) := by
  rw [← policyEnabled_eq_false_iff, ← allows_policy_iff, henabled, hallows]
  decide

/-- The theorem at work: a read is let, and a write is not. -/
theorem passes_or_refuses_readable :
    readableSite.PassesOn (knockAt "GET" "/objects/b/k") ∧
      readableSite.Refuses (knockAt "PUT" "/objects/b/k") .forbidden 403 ∧
      readableSite.Refuses (knockAt "PUT" "/objects//k") .validation 400 := by
  have hreachable : Service.Reachable readable readableSite.service := .fresh
  have hget : Route.ofPath (knockAt "GET" "/objects/b/k").request.path = .object "b" "k" := by
    decide +kernel
  have hput : Route.ofPath (knockAt "PUT" "/objects/b/k").request.path = .object "b" "k" := by
    decide +kernel
  have hnone : Route.ofPath (knockAt "PUT" "/objects//k").request.path = .object "" "k" := by
    decide +kernel
  have hgranted : Granted readable "b" "GET" := allows_policy_iff.1 (by decide +kernel)
  have hclosed : ¬ (SwitchedOff readable ∨ Granted readable "b" "PUT") :=
    not_open_of_allows_eq_false (by decide +kernel) (by decide +kernel)
  have hunnamed : ¬ (SwitchedOff readable ∨ Granted readable "" "PUT") :=
    not_open_of_allows_eq_false (by decide +kernel) (by decide +kernel)
  obtain ⟨hpasses, -⟩ := passes_or_refuses hreachable (by decide) hget
  obtain ⟨-, hrefuses, -⟩ := passes_or_refuses hreachable (by decide) hput
  obtain ⟨-, -, hinvalid⟩ := passes_or_refuses hreachable (by decide) hnone
  exact ⟨hpasses (Or.inr hgranted), hrefuses hclosed (by decide), hinvalid hunnamed rfl⟩

/--
**A path without a bucket is not answered as forbidden.** Nothing is granted to a bucket without a
name. A request whose path has nothing in the bucket's place is refused all the same, but as
invalid.
-/
theorem exists_not_forbidden :
    ∃ (env : Environment) (s : Site) (x : Exchange) (bucket key : String),
      Service.Reachable env s.service ∧ x.request.method ≠ "OPTIONS" ∧
      Route.ofPath x.request.path = .object bucket key ∧
      ¬ (SwitchedOff env ∨ Granted env bucket x.request.method) ∧
      ¬ s.Refuses x .forbidden 403 ∧ s.Refuses x .validation 400 := by
  have hroute : Route.ofPath "/objects//k" = .object "" "k" := by decide +kernel
  have hclosed : ¬ (SwitchedOff readable ∨ Granted readable "" "PUT") :=
    not_open_of_allows_eq_false (by decide +kernel) (by decide +kernel)
  have hrefusal : refusal? readableSite.service.access (knockAt "PUT" "/objects//k").request =
      some .noBucket := by
    decide +kernel
  have hrefuses : readableSite.Refuses (knockAt "PUT" "/objects//k") .validation 400 :=
    refuses_of_refusal (by decide) hroute hrefusal
  refine ⟨readable, readableSite, knockAt "PUT" "/objects//k", "", "k", .fresh, by decide, hroute,
    hclosed, ?_, hrefuses⟩
  rintro ⟨r, detail, metrics, log, -, hstatus, -, hserve⟩
  obtain ⟨r', detail', metrics', log', -, hstatus', -, hserve'⟩ := hrefuses
  rw [hserve] at hserve'
  obtain ⟨rfl, -⟩ := Prod.mk.inj (Except.ok.inj hserve')
  rw [hstatus] at hstatus'
  exact absurd hstatus' (by decide)

end Site

end Http

end ReadThrough
