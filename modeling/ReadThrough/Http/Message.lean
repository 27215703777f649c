import ReadThrough.Cache.Report
import ReadThrough.Http.Token
import ReadThrough.Object.Failure
import ReadThrough.Object.Request
import ReadThrough.Object.Response
import ReadThrough.Text.Numeral
import ReadThrough.Time.Format

/-!
# Requests and responses

A request has a method, the raw path of its target, header fields and a body. A response has a
status, header fields, a body, and the part that the cache had in it.

Problems are told as a small JSON object. The answers of the service paths are kept as what they
report; their text is made where they leave the server.
-/

namespace ReadThrough.Http

/-- A request. -/
structure Request where
  method : String
  /-- The path as it was sent, escapes and all. -/
  path : String
  headers : Headers
  body : Bytes
  deriving Repr, DecidableEq

/-- The body of a response. -/
inductive Body where
  | octets (data : Bytes)
  /-- What the cache says of itself. -/
  | report (r : Report)
  /-- The server is well, at the given time. -/
  | health (now : Time)
  deriving Repr, DecidableEq

/-- The size of a body, where it is known beforehand. -/
def Body.size? : Body → Option Nat
  | octets data => some data.length
  | _ => none

/-- A response. -/
structure Response where
  status : Nat
  /-- Fields in the order they were set; names are in small letters. -/
  headers : List (String × String)
  cache : Option CacheStatus
  body : Body
  deriving Repr, DecidableEq

/-! ## JSON text -/

/-- The digits of a control character's escape. -/
def controlDigits (n : Nat) : List Char :=
  [Char.ofNat ('0'.toNat + n / 16),
    if n % 16 < 10 then Char.ofNat ('0'.toNat + n % 16) else Char.ofNat ('a'.toNat + n % 16 - 10)]

/-- A character inside a JSON string. -/
def jsonChar (c : Char) : List Char :=
  if c = '"' then ['\\', '"']
  else if c = '\\' then ['\\', '\\']
  else if c = '\n' then ['\\', 'n']
  else if c = '\r' then ['\\', 'r']
  else if c = '\t' then ['\\', 't']
  else if c.toNat = 8 then ['\\', 'b']
  else if c.toNat = 12 then ['\\', 'f']
  else if c.toNat < 32 then '\\' :: 'u' :: '0' :: '0' :: controlDigits c.toNat
  else [c]

/-- A JSON string. -/
def jsonString (text : String) : List Char :=
  '"' :: text.toList.flatMap jsonChar ++ ['"']

/-- The JSON object that tells a problem. -/
def problemText (p : Problem) : String :=
  String.ofList ("\x7b\"error\":".toList ++ jsonString p.kind.name ++ ",\"message\":".toList ++
    jsonString p.message ++ "\x7d".toList)

/-! ## Responses -/

namespace Response

/-- A response without body, header fields and cache. -/
def bare (status : Nat) : Response where
  status := status
  headers := []
  cache := none
  body := .octets []

/-- The response that tells a problem. -/
def ofProblem (p : Problem) : Response where
  status := p.kind.status
  headers := [("content-type", "application/json")]
  cache := none
  body := .octets (Bytes.ofText (problemText p))

/-- The response to a failed request. -/
def ofFailure (failure : RequestFailure) : Response :=
  ofProblem failure.problem

/-- A field, unless its value cannot be sent. -/
def field (name value : String) : List (String × String) :=
  if value.toList.all isValueChar then [(name, value)] else []

/-- A field for a value that may be missing. -/
def optionalField (name : String) : Option String → List (String × String)
  | some value => field name value
  | none => []

/-- The response that carries the answer to an object request. -/
def ofObject (r : ObjectResponse) : Response where
  status := r.status
  headers :=
    optionalField "content-type" r.contentType ++
      optionalField "content-length" (r.contentLength.map fun n => String.ofList (Text.Numeral.write n)) ++
      optionalField "last-modified" (r.modified.map Time.httpDate) ++
      optionalField "etag" r.etag ++
      (if r.gzip then [("content-encoding", "gzip"), ("vary", "accept-encoding")] else [])
  cache := some r.cache
  body := .octets r.body

/-- The response to an object request. -/
def ofOutcome : Except RequestFailure ObjectResponse → Response
  | .ok r => ofObject r
  | .error failure => ofFailure failure

/-- True if a field is set. -/
def has (r : Response) (name : String) : Bool :=
  r.headers.any (·.1 == name)

/-- The response with a further field. -/
def withField (r : Response) (name value : String) : Response :=
  { r with headers := r.headers ++ [(name, value)] }

/-- The response with its length told, unless it is told already or not known. -/
def withLength (r : Response) : Response :=
  if r.has "content-length" then r
  else
    match r.body.size? with
    | some size => r.withField "content-length" (String.ofList (Text.Numeral.write size))
    | none => r

/-- The response without its body. -/
def withoutBody (r : Response) : Response :=
  { r with body := .octets [] }

/-- The size of the body, zero where it is not known. -/
def size (r : Response) : Nat :=
  r.body.size?.getD 0

/-- True if the body is compressed. -/
def isGzip (r : Response) : Bool :=
  r.headers.contains ("content-encoding", "gzip")

end Response

end ReadThrough.Http
