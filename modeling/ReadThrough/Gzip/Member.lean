import ReadThrough.Deflate.Matcher
import ReadThrough.Deflate.Reader
import ReadThrough.Deflate.Writer
import ReadThrough.Gzip.Header

/-!
# Gzip members

A member is a header, a compressed stream, and a trailer with the checksum of the content and its
length modulo 2³². `compress` writes a member, `decompress` reads the first member of an input and
does not look at what follows it.

A content has many members, and every encoder writes one of its own choice. `decompress` reads them
all; what `compress` writes is one of them, and others need not write the same octets, nor as many.
-/

namespace ReadThrough.Gzip

/-- The trailer of a member with the given content. -/
def trailer (content : Bytes) : Bytes :=
  Bytes.littleEndian 4 (Crc32.checksum content).toNat ++ Bytes.littleEndian 4 content.length

/-- The length of a trailer. -/
def trailerLength : Nat := 8

/--
A member with the given content. Its stream is always one block, in the fixed codes or in codes that
it describes; no content is stored as it is, and none is divided into blocks.
-/
def compress (content : Bytes) : Bytes :=
  Header.plain ++ Deflate.pack (Deflate.write (Deflate.tokens content)) ++ trailer content

/-- A fault of the stream is one of the member. -/
def Fault.ofStream : Deflate.Fault → Fault
  | .incomplete => .incomplete
  | .corrupt => .corrupt

/-- The content of the first member of an input. -/
def decompress (input : Bytes) : Except Fault Bytes := do
  let stream ← Header.read input
  match Deflate.read stream with
  | .error fault => .error (.ofStream fault)
  | .ok (tokens, rest) =>
    let content := Deflate.expand tokens
    let found := rest.take trailerLength
    if found.length < trailerLength then .error .endOfInput
    else if found = trailer content then .ok content
    else .error .mismatch

end ReadThrough.Gzip
