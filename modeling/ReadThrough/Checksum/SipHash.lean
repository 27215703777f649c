import ReadThrough.Bytes

/-!
# SipHash-1-3 under the zero key

A 64-bit hash of a byte string: one mixing round for each eight octets, three at the end. It
labels contents (an object's tag) and spreads keys over slots; nothing relies on its strength.

## Steps

`Lanes` are the four working words, `Lanes.round` mixes them, `absorb` takes a word in, and
`absorbAll` walks the octets eight at a time, with the total length in the last word's top octet.
-/

namespace ReadThrough.SipHash

/-- The four words of the hash's state. -/
structure Lanes where
  v0 : UInt64
  v1 : UInt64
  v2 : UInt64
  v3 : UInt64

/-- The state before any octet, for the key of all zeros. -/
def Lanes.start : Lanes where
  v0 := 0x736f6d6570736575
  v1 := 0x646f72616e646f6d
  v2 := 0x6c7967656e657261
  v3 := 0x7465646279746573

/-- Turns a word left by `count` bits, for a `count` between 1 and 63. -/
def rotateLeft (word count : UInt64) : UInt64 :=
  (word <<< count) ||| (word >>> (64 - count))

/-- One mixing round. -/
def Lanes.round (s : Lanes) : Lanes :=
  let v0 := s.v0 + s.v1
  let v1 := rotateLeft s.v1 13 ^^^ v0
  let v0 := rotateLeft v0 32
  let v2 := s.v2 + s.v3
  let v3 := rotateLeft s.v3 16 ^^^ v2
  let v0 := v0 + v3
  let v3 := rotateLeft v3 21 ^^^ v0
  let v2 := v2 + v1
  let v1 := rotateLeft v1 17 ^^^ v2
  let v2 := rotateLeft v2 32
  { v0, v1, v2, v3 }

/-- Takes one word in, with a single round. -/
def Lanes.absorb (s : Lanes) (word : UInt64) : Lanes :=
  let mixed := { s with v3 := s.v3 ^^^ word }.round
  { mixed with v0 := mixed.v0 ^^^ word }

/-- Three closing rounds and the sum of the four words. -/
def Lanes.finish (s : Lanes) : UInt64 :=
  let closed := { s with v2 := s.v2 ^^^ 0xff }.round.round.round
  closed.v0 ^^^ closed.v1 ^^^ closed.v2 ^^^ closed.v3

/-- The word made of at most eight octets, least significant first. -/
def word (octets : Bytes) : UInt64 :=
  octets.foldr (fun octet high => (high <<< 8) ||| octet.toUInt64) 0

/-- Takes the octets in, eight at a time; the last word ends in `length` modulo 256. -/
def absorbAll (length : UInt64) (s : Lanes) : Bytes → Lanes
  | a :: b :: c :: d :: e :: f :: g :: h :: rest =>
    absorbAll length (s.absorb (word [a, b, c, d, e, f, g, h])) rest
  | tail => s.absorb ((length <<< 56) ||| word tail)

/-- The hash of `data`. -/
def hash (data : Bytes) : UInt64 :=
  (absorbAll data.length.toUInt64 Lanes.start data).finish

end ReadThrough.SipHash
