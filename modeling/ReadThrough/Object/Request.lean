import ReadThrough.Backend.Basic
import ReadThrough.Text.Blank
import ReadThrough.Text.Decimal
import ReadThrough.Text.Fields
import ReadThrough.Text.Fold

/-!
# What a request says of itself

Three header fields matter to an object request: the codings that its sender accepts, the type of
the body, and the coding of the body. Of a repeated field the first counts. A field with a
character outside visible ASCII, space and tab cannot be read, and one that is blank says nothing.

## Accepted codings

`accepts` looks for an item that names the coding and does not refuse it. An item refuses its
coding by a parameter `q=` whose number is zero in single precision. Items that name the coding
again, with a weight, do not take an acceptance back.
-/

namespace ReadThrough

/-- Header fields with their values; names are in small letters. -/
abbrev Headers := List (String × Bytes)

namespace Headers

/-- The first value of a field. -/
def first? (headers : Headers) (name : String) : Option Bytes :=
  headers.lookup name

/-- True for the octets of readable text: visible ASCII, space and tab. -/
def isReadable (octet : UInt8) : Bool :=
  octet == 9 || (32 ≤ octet && octet < 127)

/-- The text of a value whose octets are all readable. -/
def readable? (value : Bytes) : Option (List Char) :=
  if value.all isReadable then some (value.map fun octet => Char.ofNat octet.toNat) else none

/-- The readable text of a field. -/
def textOf? (headers : Headers) (name : String) : Option (List Char) :=
  (headers.first? name).bind readable?

/-- The text of a field without blanks around it, if anything is left. -/
def trimmed? (headers : Headers) (name : String) : Option (List Char) :=
  ((headers.textOf? name).map Text.trim).filter (· ≠ [])

end Headers

/-- The coding of compressed bodies. -/
def gzipCoding : List Char := "gzip".toList

/-- True for a parameter that gives a weight of zero. -/
def isRefusal (parameter : List Char) : Bool :=
  match Text.afterStart? "q=".toList parameter with
  | some weight => Text.Decimal.writesZero weight
  | none => false

/-- True if an item of a list of codings names `coding` and does not refuse it. -/
def itemAccepts (coding : List Char) (item : List Char) : Bool :=
  match (item.splitOn ';').map Text.trim with
  | [] => false
  | name :: parameters => Text.sameFolded name coding && !parameters.any isRefusal

/-- True if a list of codings accepts `coding`. -/
def accepts (coding : List Char) (list : List Char) : Bool :=
  (list.splitOn ',').any (itemAccepts coding)

/-- What the headers of an object request say. -/
structure RequestInfo where
  /-- The sender accepts a compressed body. -/
  acceptsGzip : Bool
  /-- The declared type of the body. -/
  contentType : Option String
  /-- The declared coding of the body. -/
  contentEncoding : Option String
  deriving Repr, DecidableEq

namespace RequestInfo

/-- What the given headers say. -/
def ofHeaders (headers : Headers) : RequestInfo where
  acceptsGzip := ((headers.trimmed? "accept-encoding").map (accepts gzipCoding)).getD false
  contentType := (headers.trimmed? "content-type").map String.ofList
  contentEncoding := (headers.trimmed? "content-encoding").map String.ofList

/-- True if the body is declared to be compressed. -/
def bodyIsGzip (info : RequestInfo) : Bool :=
  match info.contentEncoding with
  | some coding => Text.sameFolded coding.toList gzipCoding
  | none => false

end RequestInfo

/-- A request for an object. -/
inductive ObjectRequest where
  | get (id : ObjectId) (info : RequestInfo)
  | put (id : ObjectId) (info : RequestInfo) (body : Bytes)
  | delete (id : ObjectId)
  | head (id : ObjectId)
  deriving Repr, DecidableEq

/-- The object that a request is about. -/
def ObjectRequest.id : ObjectRequest → ObjectId
  | get id _ => id
  | put id .. => id
  | delete id => id
  | head id => id

end ReadThrough
