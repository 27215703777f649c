import ReadThrough.Http.Service
import ReadThrough.Proofs.Object.Delivery
import ReadThrough.Proofs.Text.Blank

/-!
# The fields of a response

`Response.values` is what a response tells under a name. The answer to a request for an object
tells what the object response says, and nothing that is set around it changes that.

* `sendable_of_trimmed?`, `sendable_write` — what a request declares, and every number, can be sent
* `values_dress_of_not_mem`, `values_dress_vary` — what is set on a response on its way out
* `tells_ofObject` — the answer that carries an object tells its type, the length of the body, and
  its coding if it has one
-/

namespace ReadThrough

/-! ## Texts that can be sent -/

section sendable

open Http

/-- The text can be the value of a field. -/
def Sendable (cs : List Char) : Prop :=
  cs.all isValueChar = true

/-- Readable octets are characters that can be sent. -/
theorem isValueChar_of_isReadable {octet : UInt8} (h : Headers.isReadable octet = true) :
    isValueChar (Char.ofNat octet.toNat) = true := by
  simp only [Headers.isReadable, Bool.or_eq_true, beq_iff_eq, Bool.and_eq_true, decide_eq_true_eq,
    UInt8.le_iff_toNat_le, UInt8.lt_iff_toNat_lt] at h
  rcases h with rfl | ⟨hlow, hhigh⟩
  · decide
  · have hlow : 32 ≤ octet.toNat := hlow
    have hhigh : octet.toNat < 127 := hhigh
    have hvalid : octet.toNat.isValidChar := Or.inl (by omega)
    have hchar : (Char.ofNat octet.toNat).toNat = octet.toNat := by
      rw [Char.ofNat, dif_pos hvalid]
      exact UInt32.toNat_ofNatLT
    simp only [isValueChar, hchar, Bool.or_eq_true, Bool.and_eq_true, decide_eq_true_eq,
      bne_iff_ne]
    omega

/-- What a request declares can be sent. -/
theorem sendable_of_trimmed? {headers : Headers} {name : String} {cs : List Char}
    (h : headers.trimmed? name = some cs) : Sendable cs := by
  obtain ⟨hmap, -⟩ := Option.filter_eq_some_iff.1 h
  obtain ⟨text, htext, rfl⟩ := Option.map_eq_some_iff.1 hmap
  obtain ⟨value, -, hreadable⟩ := Option.bind_eq_some_iff.1 htext
  unfold Headers.readable? at hreadable
  split at hreadable
  · next hall =>
    obtain rfl := Option.some.inj hreadable
    refine List.all_eq_true.2 fun c hc => ?_
    obtain ⟨octet, hoctet, rfl⟩ := List.mem_map.1 (Text.mem_of_mem_trim hc)
    exact isValueChar_of_isReadable (List.all_eq_true.1 hall octet hoctet)
  · cases hreadable

/-- Digits can be sent. -/
theorem isValueChar_of_isDigit {c : Char} (h : c.isDigit = true) : isValueChar c = true := by
  simp only [Char.isDigit, Bool.and_eq_true, decide_eq_true_eq] at h
  have hlow : 48 ≤ c.toNat := h.1
  have hhigh : c.toNat ≤ 57 := h.2
  simp only [isValueChar, Bool.or_eq_true, Bool.and_eq_true, decide_eq_true_eq, bne_iff_ne]
  omega

/-- Every number can be sent. -/
theorem sendable_write (number : Nat) : Sendable (Text.Numeral.write number) :=
  List.all_eq_true.2 fun _ hc =>
    isValueChar_of_isDigit (Nat.isDigit_of_mem_toDigits (by decide) (by decide) hc)

end sendable

namespace Http

/-! ## Values -/

/-- The values of a field, in their order. -/
def valuesOf (fields : List (String × String)) (name : String) : List String :=
  (fields.filter (·.1 == name)).map Prod.snd

/-- The values that a response tells under a name. -/
def Response.values (r : Response) (name : String) : List String :=
  valuesOf r.headers name

@[simp] theorem valuesOf_nil (name : String) : valuesOf [] name = [] := rfl

@[simp] theorem valuesOf_append (a b : List (String × String)) (name : String) :
    valuesOf (a ++ b) name = valuesOf a name ++ valuesOf b name := by
  simp [valuesOf]

@[simp] theorem valuesOf_cons_self (name value : String) (fields : List (String × String)) :
    valuesOf ((name, value) :: fields) name = value :: valuesOf fields name := by
  simp [valuesOf]

theorem valuesOf_cons_of_ne {name other : String} (hne : other ≠ name) (value : String)
    (fields : List (String × String)) :
    valuesOf ((other, value) :: fields) name = valuesOf fields name := by
  simp [valuesOf, hne]

theorem valuesOf_optionalField_self {name value : String} (h : Sendable value.toList) :
    valuesOf (Response.optionalField name (some value)) name = [value] := by
  have hall : value.toList.all isValueChar = true := h
  simp [Response.optionalField, Response.field, hall]

theorem valuesOf_optionalField_of_ne {name other : String} (hne : other ≠ name)
    (value : Option String) : valuesOf (Response.optionalField other value) name = [] := by
  cases value with
  | none => rfl
  | some value =>
    unfold Response.optionalField Response.field
    dsimp only
    split
    · exact valuesOf_cons_of_ne hne value []
    · rfl

/-! ## What is set around an answer -/

section around

variable {name : String}

theorem values_withField (r : Response) (field value : String) :
    (r.withField field value).values name =
      r.values name ++ if field = name then [value] else [] := by
  unfold Response.values Response.withField
  rw [valuesOf_append]
  refine congrArg _ ?_
  by_cases hsame : field = name
  · rw [if_pos hsame, hsame, valuesOf_cons_self, valuesOf_nil]
  · rw [if_neg hsame, valuesOf_cons_of_ne hsame, valuesOf_nil]

theorem values_withLength_of_ne (hne : name ≠ "content-length") (r : Response) :
    r.withLength.values name = r.values name := by
  unfold Response.withLength
  split
  · rfl
  · split
    · rw [values_withField, if_neg (Ne.symm hne), List.append_nil]
    · rfl

theorem values_withAllow_of_ne (hne : name ≠ "allow") (methods : List String) (r : Response) :
    (withAllow methods r).values name = r.values name := by
  rw [withAllow, values_withField, if_neg (Ne.symm hne), List.append_nil]

/-- The names of the fields that are set on a response on its way out. -/
def outwardFields : List String :=
  ["allow", "content-length", "access-control-allow-origin", "vary"]

theorem values_withOrigins_of_not_mem (h : name ∉ outwardFields) (r : Response) :
    (withOrigins r).values name = r.values name := by
  simp only [outwardFields, List.mem_cons, List.not_mem_nil, or_false, not_or] at h
  obtain ⟨-, -, horigin, hvary⟩ := h
  rw [withOrigins, values_withField, values_withField, if_neg (Ne.symm horigin),
    if_neg (Ne.symm hvary), List.append_nil, List.append_nil]

theorem values_withOrigins_vary (r : Response) :
    (withOrigins r).values "vary" = r.values "vary" ++
      ["origin, access-control-request-method, access-control-request-headers"] := by
  rw [withOrigins, values_withField, values_withField, if_neg (by decide), if_pos rfl,
    List.append_nil]

/-- Before its origins are set, a response keeps all that it tells but its methods and its length. -/
theorem exists_dress_eq (req : Request) (r : Response) :
    ∃ told, dress req r = withOrigins told ∧
      ∀ name, name ≠ "allow" → name ≠ "content-length" → told.values name = r.values name := by
  refine ⟨_, rfl, fun name hallow hlength => ?_⟩
  have hknown : (if req.method ∈ objectMethods then r
      else withAllow objectMethods r).withLength.values name = r.values name := by
    rw [values_withLength_of_ne hlength]
    split
    · rfl
    · exact values_withAllow_of_ne hallow _ r
  split
  · exact hknown
  · exact hknown

/-- On its way out a response keeps what it tells under the other names. -/
theorem values_dress_of_not_mem (h : name ∉ outwardFields) (req : Request) (r : Response) :
    (dress req r).values name = r.values name := by
  obtain ⟨told, hdress, hvalues⟩ := exists_dress_eq req r
  rw [hdress, values_withOrigins_of_not_mem h]
  simp only [outwardFields, List.mem_cons, List.not_mem_nil, or_false, not_or] at h
  exact hvalues name h.1 h.2.1

/-- On its way out a response is said to depend on its origin, and keeps what it said before. -/
theorem values_dress_vary (req : Request) (r : Response) :
    (dress req r).values "vary" = r.values "vary" ++
      ["origin, access-control-request-method, access-control-request-headers"] := by
  obtain ⟨told, hdress, hvalues⟩ := exists_dress_eq req r
  rw [hdress, values_withOrigins_vary, hvalues "vary" (by decide) (by decide)]

/-- The coding of the body is told where the body is compressed. -/
theorem values_ofObject_contentEncoding (r : ObjectResponse) :
    (Response.ofObject r).values "content-encoding" = if r.gzip then ["gzip"] else [] := by
  simp only [Response.values, Response.ofObject, valuesOf_append]
  cases r.gzip <;> simp (disch := decide) [valuesOf_cons_of_ne, valuesOf_optionalField_of_ne]

/-- That the body depends on what is accepted is told where the body is compressed. -/
theorem values_ofObject_vary (r : ObjectResponse) :
    (Response.ofObject r).values "vary" = if r.gzip then ["accept-encoding"] else [] := by
  simp only [Response.values, Response.ofObject, valuesOf_append]
  cases r.gzip <;> simp (disch := decide) [valuesOf_cons_of_ne, valuesOf_optionalField_of_ne]

end around

/-! ## Statuses -/

theorem status_withLength (r : Response) : r.withLength.status = r.status := by
  unfold Response.withLength
  split
  · rfl
  · split <;> rfl

/-- What is done to a response on its way out leaves the status. -/
theorem status_dress (req : Request) (r : Response) : (dress req r).status = r.status := by
  unfold dress withOrigins Response.withField Response.withoutBody
  dsimp only
  split
  · rw [status_withLength]
    split <;> rfl
  · rw [status_withLength]
    split <;> rfl

theorem body_withLength (r : Response) : r.withLength.body = r.body := by
  unfold Response.withLength
  split
  · rfl
  · split <;> rfl

/-- Only the answer to a request for headers alone has its body taken off. -/
theorem body_dress (req : Request) (r : Response) :
    (dress req r).body = if req.method = "HEAD" then .octets [] else r.body := by
  have hknown : (if req.method ∈ objectMethods then r
      else withAllow objectMethods r).withLength.body = r.body := by
    rw [body_withLength]
    split <;> rfl
  unfold dress withOrigins Response.withField Response.withoutBody
  dsimp only
  split
  · rfl
  · exact hknown

/-- No failure is told as success. -/
theorem status_ofFailure_ne (failure : RequestFailure) :
    (Response.ofFailure failure).status ≠ 200 := by
  have hkind : ∀ kind : ProblemClass, kind.status ≠ 200 := by
    intro kind
    cases kind <;> decide
  exact hkind failure.problem.kind

/-! ## The answer to a read -/

variable {req : Request} {r : ObjectResponse}

/-- What is answered to a read keeps the fields, the status and the body of the object response. -/
theorem dress_get_ofObject (hget : req.method = "GET") {length : Nat}
    (hlength : r.contentLength = some length) :
    dress req (.ofObject r) = withOrigins (.ofObject r) := by
  have hmember : req.method ∈ objectMethods := by
    rw [hget]
    decide
  have hhead : req.method ≠ "HEAD" := by
    rw [hget]
    decide
  have hwrite : (Text.Numeral.write length).all isValueChar = true := sendable_write length
  have htold : (Response.ofObject r).has "content-length" = true := by
    simp [Response.has, Response.ofObject, hlength, Response.optionalField, Response.field, hwrite]
  unfold dress
  simp only [if_pos hmember, if_neg hhead, Response.withLength, htold, if_true]

/-- What a client is told of an object that an answer carries. -/
structure Response.Tells (answer : Response) (contentType : String) (sent : Bytes) (gzip : Bool) :
    Prop where
  status : answer.status = 200
  body : answer.body = .octets sent
  contentType : answer.values "content-type" = [contentType]
  contentLength : answer.values "content-length" = [String.ofList (Text.Numeral.write sent.length)]
  contentEncoding : answer.values "content-encoding" = if gzip then ["gzip"] else []

/-- The answer to a read tells what the object response says. -/
theorem tells_ofObject (hget : req.method = "GET") {policy : CompressionPolicy}
    {object : Backend.StoredObject} {acceptsGzip : Bool}
    (hcarries : r.Carries policy object acceptsGzip)
    (hsendable : Sendable object.metadata.contentType.toList) :
    (dress req (.ofObject r)).Tells object.metadata.contentType r.body r.gzip := by
  have hlength : Sendable (String.ofList (Text.Numeral.write r.body.length)).toList := by
    rw [String.toList_ofList]
    exact sendable_write r.body.length
  rw [dress_get_ofObject hget hcarries.contentLength]
  refine ⟨hcarries.status, rfl, ?_, ?_, ?_⟩
  -- each name stands in one of the parts that the fields are made of, and in no other
  all_goals
    simp only [Response.values, withOrigins, Response.withField, Response.ofObject,
      hcarries.contentType, hcarries.contentLength, Option.map_some, valuesOf_append]
  · cases r.gzip <;>
      simp (disch := decide) [valuesOf_cons_of_ne, valuesOf_optionalField_of_ne,
        valuesOf_optionalField_self hsendable]
  · cases r.gzip <;>
      simp (disch := decide) [valuesOf_cons_of_ne, valuesOf_optionalField_of_ne,
        valuesOf_optionalField_self hlength]
  · cases r.gzip <;>
      simp (disch := decide) [valuesOf_cons_of_ne, valuesOf_optionalField_of_ne]

end Http

end ReadThrough
