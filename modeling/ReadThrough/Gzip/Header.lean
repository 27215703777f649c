import ReadThrough.Checksum.Crc32

/-!
# The header of a gzip member

Ten octets stand first: the magic number, the method, the flags, and a time, level and system that
are not looked at. The flags say which optional fields follow, in this order: extra data with its
length, a name and a comment that end in a zero octet, and the low half of the checksum of all
header octets before it.

`Header.read` gives the octets after the header. Of two faults the one met first counts; an input
shorter than the ten octets is cut short whatever they are.
-/

namespace ReadThrough.Gzip

/-- Why a byte string is no gzip member. -/
inductive Fault where
  /-- The input ends inside the header or the trailer. -/
  | endOfInput
  /-- The magic number or the method is another, or a reserved flag is set. -/
  | badHeader
  /-- The name or the comment is longer than allowed. -/
  | fieldTooLong
  /-- A checksum or the length does not fit. -/
  | mismatch
  /-- The input ends inside the compressed stream. -/
  | incomplete
  /-- The compressed stream is none. -/
  | corrupt
  deriving Repr, DecidableEq

/-- What a fault is called. -/
def Fault.description : Fault → String
  | endOfInput => "unexpected end of file"
  | badHeader => "invalid gzip header"
  | fieldTooLong => "gzip header field too long"
  | mismatch => "corrupt gzip stream does not have a matching checksum"
  | incomplete => "incomplete deflate stream"
  | corrupt => "corrupt deflate stream"

/-- The text shown for a fault of the codec. -/
def Fault.message (fault : Fault) : String :=
  "codec failure: " ++ fault.description

namespace Header

/-- The longest name or comment. -/
def maxField : Nat := 65535

/-- The header of members without optional fields. -/
def plain : Bytes :=
  [0x1f, 0x8b, 8, 0, 0, 0, 0, 0, 0, 0xff]

/-- The optional parts that the flags announce. -/
structure Flags where
  checksum : Bool
  extra : Bool
  name : Bool
  comment : Bool
  deriving Repr, DecidableEq

/-- Reads the flags; the three reserved bits have to be clear. -/
def Flags.ofOctet? (octet : UInt8) : Option Flags :=
  if octet &&& 0xe0 = 0 then
    some {
      checksum := octet &&& 2 ≠ 0
      extra := octet &&& 4 ≠ 0
      name := octet &&& 8 ≠ 0
      comment := octet &&& 16 ≠ 0 }
  else none

/-- Skips extra data: two octets of length and as many octets as they say. -/
def skipExtra : Bytes → Except Fault Bytes
  | low :: high :: rest =>
    let length := Bytes.ofLittleEndian [low, high]
    if (rest.take length).length = length then .ok (rest.drop length) else .error .endOfInput
  | _ => .error .endOfInput

/-- Skips a field that ends in a zero octet and has room for `room` more octets before it. -/
def skipField : Nat → Bytes → Except Fault Bytes
  | _, [] => .error .endOfInput
  | room, octet :: rest =>
    if octet = 0 then .ok rest
    else
      match room with
      | 0 => .error .fieldTooLong
      | room + 1 => skipField room rest

/-- Checks the low half of the checksum of the header octets `before`. -/
def checkSum (before : Bytes) : Bytes → Except Fault Bytes
  | low :: high :: rest =>
    if Bytes.ofLittleEndian [low, high] = (Crc32.checksum before).toNat % 65536 then .ok rest
    else .error .mismatch
  | _ => .error .endOfInput

/-- Does a step if it is announced. -/
def announced (flag : Bool) (step : Bytes → Except Fault Bytes) (data : Bytes) :
    Except Fault Bytes :=
  if flag then step data else .ok data

/-- Reads a header and gives the octets after it. -/
def read (data : Bytes) : Except Fault Bytes :=
  match data with
  | magic :: magic' :: method :: flags :: _ :: _ :: _ :: _ :: _ :: _ :: rest => do
    if magic ≠ 0x1f ∨ magic' ≠ 0x8b ∨ method ≠ 8 then .error .badHeader
    else
      match Flags.ofOctet? flags with
      | none => .error .badHeader
      | some flags =>
        let rest ← announced flags.extra skipExtra rest
        let rest ← announced flags.name (skipField maxField) rest
        let rest ← announced flags.comment (skipField maxField) rest
        announced flags.checksum (fun rest => checkSum (data.take (data.length - rest.length)) rest)
          rest
  | _ => .error .endOfInput

end Header

end ReadThrough.Gzip
