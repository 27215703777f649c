import Mathlib.Tactic.IntervalCases
import ReadThrough.Proofs.Http.Delivery
import ReadThrough.Proofs.Http.Tallies
import ReadThrough.Proofs.Object.Coherence

/-!
# What is told of a failure

A problem is told as JSON, and what is told can be read back: two details are never told alike
(`problemText_inj`). A failure of the store is told in the store's own words.

* `unescape?_jsonChar` — a character is read back from its form in JSON
* `exists_handle_eq_complaint` — what is answered where a call has failed
* `same_or_complains` — the words of the store, and nothing else of a failure, make a difference to
  the answer
-/

namespace ReadThrough

open Backend

namespace Http

/-! ## Reading JSON back -/

/-- The value of a digit of a control character's escape. -/
def controlValue (c : Char) : Nat :=
  if c.isDigit then c.toNat - '0'.toNat else c.toNat - 'a'.toNat + 10

/-- The character that a letter behind a backslash stands for. -/
def escaped (letter : Char) : Char :=
  if letter = 'n' then '\n'
  else if letter = 'r' then '\r'
  else if letter = 't' then '\t'
  else if letter = 'b' then Char.ofNat 8
  else if letter = 'f' then Char.ofNat 12
  else letter

/-- The first character of the inside of a JSON string, and what follows it. -/
def unescape? : List Char → Option (Char × List Char)
  | '\\' :: 'u' :: '0' :: '0' :: high :: low :: rest =>
    some (Char.ofNat (16 * controlValue high + controlValue low), rest)
  | '\\' :: letter :: rest => some (escaped letter, rest)
  | c :: rest => some (c, rest)
  | [] => none

theorem unescape?_control {n : Nat} (h : n < 32) (rest : List Char) :
    unescape? (jsonChar (Char.ofNat n) ++ rest) = some (Char.ofNat n, rest) := by
  interval_cases n <;> rfl

/-- A character is read back from its form in a JSON string. -/
theorem unescape?_jsonChar (c : Char) (rest : List Char) :
    unescape? (jsonChar c ++ rest) = some (c, rest) := by
  -- control characters have escapes of their own, and of the others only two have one
  by_cases hcontrol : c.toNat < 32
  · have hread := unescape?_control hcontrol rest
    rwa [Char.ofNat_toNat] at hread
  · by_cases hquote : c = '"'
    · subst hquote
      rfl
    · by_cases hbackslash : c = '\\'
      · subst hbackslash
        rfl
      · have hne : ∀ d : Char, d.toNat < 32 → c ≠ d := by
          rintro d hd rfl
          exact hcontrol hd
        have hplain : jsonChar c = [c] := by
          have hback : c.toNat ≠ 8 := by omega
          have hfeed : c.toNat ≠ 12 := by omega
          unfold jsonChar
          rw [if_neg hquote, if_neg hbackslash, if_neg (hne '\n' (by decide)),
            if_neg (hne '\r' (by decide)), if_neg (hne '\t' (by decide)), if_neg hback,
            if_neg hfeed, if_neg hcontrol]
        rw [hplain, List.singleton_append]
        exact unescape?.eq_3 c rest (fun _ _ _ hc _ => hbackslash hc) (fun _ _ hc _ => hbackslash hc)

/-- Two texts are never written alike inside a JSON string. -/
theorem flatMap_jsonChar_inj {a b : List Char} (h : a.flatMap jsonChar = b.flatMap jsonChar) :
    a = b := by
  have hnone : unescape? [] = none := rfl
  -- the first character is read off both sides
  induction a generalizing b with
  | nil =>
    cases b with
    | nil => rfl
    | cons d rest =>
      rw [List.flatMap_nil, List.flatMap_cons] at h
      have hread := unescape?_jsonChar d (rest.flatMap jsonChar)
      rw [← h, hnone] at hread
      cases hread
  | cons c a ih =>
    have hread := unescape?_jsonChar c (a.flatMap jsonChar)
    rw [← List.flatMap_cons, h] at hread
    cases b with
    | nil =>
      rw [List.flatMap_nil, hnone] at hread
      cases hread
    | cons d b =>
      rw [List.flatMap_cons, unescape?_jsonChar] at hread
      obtain ⟨rfl, hrest⟩ := Prod.mk.inj (Option.some.inj hread)
      rw [ih hrest.symm]

/-- No two details of one class are told alike. -/
theorem problemText_inj {kind : ProblemClass} {a b : String}
    (h : problemText ⟨kind, a⟩ = problemText ⟨kind, b⟩) : a = b := by
  have hletters := String.ofList_inj.1 h
  have hmessage := List.append_cancel_left (List.append_cancel_right hletters)
  unfold jsonString at hmessage
  have hinside := flatMap_jsonChar_inj (List.append_cancel_right (List.cons.inj hmessage).2)
  have hsame : kind.heading ++ a = kind.heading ++ b := String.toList_inj.1 hinside
  rwa [String.append_right_inj] at hsame

end Http

/-! ## Failed calls -/

/--
Two outcomes of a call that are alike but for the store's words: they are the same, or the call has
failed both times for other reasons than that there is no such object.
-/
inductive Backend.Alike {α : Type} : Except Failure α → Except Failure α → Prop where
  | same (outcome : Except Failure α) : Alike outcome outcome
  | failed (reason reason' : String) : Alike (.error (.other reason)) (.error (.other reason'))

/-- The method that an object request comes of. -/
def ObjectRequest.method : ObjectRequest → String
  | get .. => "GET"
  | put .. => "PUT"
  | delete _ => "DELETE"
  | head _ => "HEAD"

/-- An object request whose call has failed fails with the store's words. -/
theorem resume_eq_backend {r : ObjectRequest} {m : Moment} {c c' : Cache} {a : Awaiting}
    (hstart : r.start m c = (.waiting a, c')) (reason : String) (m' : Moment) :
    a.resume (.error (.other reason)) m' c' =
      .ok ⟨.error (.backend r.method r.id (.other reason)), 0, c'⟩ := by
  cases starts_of_eq hstart <;> rfl

namespace Http

variable {svc svc₁ : Service} {x y : Encounter} {id : ObjectId}

theorem Asks.method_eq {req : Request} {r : ObjectRequest} (h : Asks req r) :
    r.method = req.method := by
  cases h with
  | get h | put h | delete h | head h => exact h.symm

/-- What is answered to a request for an object whose call has failed, in the store's words. -/
def complaint (req : Request) (id : ObjectId) (reason : String) : Response :=
  dress req (.ofProblem
    ⟨.internal, req.method ++ " " ++ id.bucket ++ "/" ++ id.key ++ ": backend failure: " ++ reason⟩)

theorem complaint_eq (req : Request) (id : ObjectId) (reason : String) :
    complaint req id reason = dress req (.ofFailure (.backend req.method id (.other reason))) := by
  have hwords : ": " ++ "backend failure: " = ": backend failure: " := by decide
  have hjoin : ∀ front : String,
      front ++ ": " ++ ("backend failure: " ++ reason) =
        front ++ ": backend failure: " ++ reason := by
    intro front
    rw [← String.append_assoc, ← hwords, ← String.append_assoc]
  exact congrArg (fun detail => dress req (.ofProblem ⟨.internal, detail⟩)) (hjoin _).symm

/-- The words can be read off the answer, unless its body is taken off. -/
theorem complaint_inj {req : Request} (hmethod : req.method ≠ "HEAD") {reason reason' : String}
    (h : complaint req id reason = complaint req id reason') : reason = reason' := by
  have hbodies := congrArg Response.body h
  rw [complaint, complaint, body_dress, body_dress, if_neg hmethod, if_neg hmethod] at hbodies
  have htexts := Bytes.ofText_inj (Body.octets.inj hbodies)
  have hdetails := problemText_inj htexts
  rwa [String.append_right_inj] at hdetails

/-- A request that waits for its call comes of an object request that does. -/
theorem exists_of_start_waiting {req : Request} {m : Moment} {a : Awaiting}
    (hstart : start svc req m = (.waiting a, svc₁)) :
    ∃ r, admitted? svc.access req = some r ∧ r.start m svc.cache = (.waiting a, svc₁.cache) := by
  cases hadmitted : admitted? svc.access req with
  | none =>
    obtain ⟨-, answer, hdone⟩ := stops_of_not_admitted hadmitted m
    rw [hstart] at hdone
    cases hdone
  | some r =>
    refine ⟨r, rfl, ?_⟩
    obtain ⟨hcache, hstage⟩ := proceeds_of_admitted hadmitted m
    rw [hstart] at hcache hstage
    cases hrequest : r.start m svc.cache with | mk progress c
    rw [hrequest] at hcache hstage
    cases progress with
    | done outcome => cases hstage
    | waiting awaiting =>
      obtain rfl := Stage.waiting.inj hstage
      exact Prod.ext rfl hcache.symm

/-- A request whose call has failed is answered in the store's words. -/
theorem exists_handle_eq_complaint {a : Awaiting} {r : ObjectRequest}
    (hadmitted : admitted? svc.access x.request = some r)
    (hstart : start svc x.request x.before = (.waiting a, svc₁))
    (hrequest : r.start x.before svc.cache = (.waiting a, svc₁.cache)) {reason : String}
    (hfailed : x.reply a.call = .error (.other reason)) :
    ∃ svc', svc.handle x = .ok (complaint x.request r.id reason, svc') := by
  obtain ⟨_, _, -, -, hmakes⟩ := admitted?_eq_some_iff.1 hadmitted
  obtain ⟨metrics, log, hresume⟩ :=
    exists_resume_eq (resume_eq_backend hrequest reason x.after) x.request
  rw [Service.handle, hstart]
  dsimp only
  rw [hfailed, hresume, hmakes.asks.method_eq, complaint_eq]
  exact ⟨_, rfl⟩

/-- The same request at the same moments, in front of stores that are alike but for their words. -/
structure Encounter.Alike (x y : Encounter) : Prop where
  request : y.request = x.request
  before : y.before = x.before
  after : y.after = x.after
  reply (call : Call) : Backend.Alike (x.reply call) (y.reply call)

/-- The call of a request fails for the two reasons, and the answers give them. -/
structure Complain (svc : Service) (x y : Encounter) (call : Call) (reason reason' : String) :
    Prop where
  failed : x.reply call = .error (.other reason)
  failed' : y.reply call = .error (.other reason')
  told : ∃ svc', svc.handle x = .ok (complaint x.request call.id reason, svc')
  told' : ∃ svc', svc.handle y = .ok (complaint x.request call.id reason', svc')

/--
**The store's words are told, and nothing else of a failure makes a difference.** A request of any
method comes to a server in any state, once in front of each of two stores that are alike but for
their words. Either it is answered alike and leaves the server alike; or its call has failed in
different words, and both answers give them, behind the method and the names of the object. If the
bodies of the answers are not taken off, they differ.
-/
theorem same_or_complains (h : x.Alike y) (svc : Service) :
    svc.handle x = svc.handle y ∨ ∃ call reason reason', Names x.request.path call.id ∧
      reason ≠ reason' ∧ Complain svc x y call reason reason' ∧
      (x.request.method ≠ "HEAD" →
        complaint x.request call.id reason ≠ complaint x.request call.id reason') := by
  obtain ⟨req, before, reply, after⟩ := x
  obtain ⟨req', before', reply', after'⟩ := y
  obtain ⟨rfl, rfl, rfl, hreply⟩ := h
  dsimp only at hreply ⊢
  -- up to the call nothing depends on the store
  cases hstart : start svc req' before' with | mk stage svc₁
  cases stage with
  | done response =>
    left
    simp only [Service.handle, hstart]
  | waiting a =>
    obtain ⟨r, hadmitted, hrequest⟩ := exists_of_start_waiting hstart
    have hcall := hreply a.call
    generalize houtcome : reply a.call = outcome at hcall
    generalize houtcome' : reply' a.call = outcome' at hcall
    cases hcall with
    | same =>
      left
      simp only [Service.handle, hstart, houtcome, houtcome']
    | failed reason reason' =>
      by_cases hwords : reason = reason'
      · left
        subst hwords
        simp only [Service.handle, hstart, houtcome, houtcome']
      · right
        have hid : a.call.id = r.id := (Interleaving.start_waiting hrequest).1
        refine ⟨a.call, reason, reason', ?_, hwords, ⟨houtcome, houtcome', ?_, ?_⟩, ?_⟩
        · rw [hid]
          exact names_of_admitted hadmitted
        · rw [hid]
          exact exists_handle_eq_complaint hadmitted hstart hrequest houtcome
        · rw [hid]
          exact exists_handle_eq_complaint hadmitted hstart hrequest houtcome'
        · exact fun hmethod hsame => hwords (complaint_inj hmethod hsame)

/-- A store that always fails for the reason. -/
def failing (reason : String) : (call : Call) → call.Outcome :=
  fun _ => .error (.other reason)

/-- A read of an object from that store. -/
def caller (reason : String) : Encounter :=
  ⟨⟨"GET", "/objects/b/k", [], []⟩, .at ⟨0⟩ ⟨0, 0⟩, failing reason, .at ⟨0⟩ ⟨0, 0⟩⟩

/-- An empty server without a policy. -/
def unguarded : Service :=
  .make (.empty 1000 300000000000 ⟨0⟩) ⟨.empty, false⟩

theorem alike_caller (reason reason' : String) : (caller reason).Alike (caller reason') :=
  ⟨rfl, rfl, rfl, fun _ => .failed reason reason'⟩

theorem exists_handle_caller (reason : String) :
    ∃ svc', unguarded.handle (caller reason) =
      .ok (complaint (caller reason).request ⟨"b", "k"⟩ reason, svc') := by
  have hnames : Names "/objects/b/k" ⟨"b", "k"⟩ := ⟨"b", "k", by decide +kernel⟩
  have hadmitted : admitted? unguarded.access (caller reason).request =
      some (.get ⟨"b", "k"⟩ (.ofHeaders [])) := admitted?_of_get rfl hnames rfl
  cases hstart : start unguarded (caller reason).request (caller reason).before with
  | mk stage svc₁ =>
    obtain ⟨hcache, hstage⟩ := proceeds_of_admitted hadmitted (caller reason).before
    rw [hstart] at hcache hstage
    cases stage with
    | done response => cases hstage
    | waiting a =>
      obtain ⟨r, hadmitted', hrequest⟩ := exists_of_start_waiting hstart
      obtain rfl := Option.some.inj (hadmitted.symm.trans hadmitted')
      exact exists_handle_eq_complaint hadmitted hstart hrequest rfl

/-- The theorem at work: a read fails twice, for two reasons. -/
theorem same_or_complains_caller :
    ∃ call reason reason', reason ≠ reason' ∧
      Complain unguarded (caller "connection refused") (caller "disk full") call reason reason' ∧
      complaint (caller "connection refused").request call.id reason ≠
        complaint (caller "connection refused").request call.id reason' := by
  have hread : (caller "connection refused").request.method ≠ "HEAD" := by
    show "GET" ≠ "HEAD"
    decide
  rcases same_or_complains (alike_caller "connection refused" "disk full") unguarded with
    hsame | ⟨call, reason, reason', -, hwords, hcomplain, hdiffer⟩
  · obtain ⟨svc', hhandle⟩ := exists_handle_caller "connection refused"
    obtain ⟨svc'', hhandle'⟩ := exists_handle_caller "disk full"
    rw [hhandle, hhandle'] at hsame
    have hwords := complaint_inj hread (Prod.mk.inj (Except.ok.inj hsame)).1
    exact absurd hwords (by decide)
  · exact ⟨call, reason, reason', hwords, hcomplain, hdiffer hread⟩

/--
**The words of a failure reach the client.** A read fails for two reasons, and each of the two
answers gives the reason.
-/
theorem words_told :
    (caller "connection refused").Alike (caller "disk full") ∧
      ∃ answer svc' other svc'',
        unguarded.handle (caller "connection refused") = .ok (answer, svc') ∧
        unguarded.handle (caller "disk full") = .ok (other, svc'') ∧
        answer.body = .octets (Bytes.ofText (problemText
          ⟨.internal, "GET b/k: backend failure: connection refused"⟩)) ∧
        other.body = .octets (Bytes.ofText (problemText
          ⟨.internal, "GET b/k: backend failure: disk full"⟩)) ∧
        answer.body ≠ other.body := by
  obtain ⟨svc', hhandle⟩ := exists_handle_caller "connection refused"
  obtain ⟨svc'', hhandle'⟩ := exists_handle_caller "disk full"
  refine ⟨alike_caller _ _, _, svc', _, svc'', hhandle, hhandle', body_dress _ _, body_dress _ _,
    fun hsame => ?_⟩
  have hdetails := problemText_inj (Bytes.ofText_inj (Body.octets.inj hsame))
  exact absurd hdetails (by decide)

end Http

end ReadThrough
