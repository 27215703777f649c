import ReadThrough.Gzip.Member
import ReadThrough.Proofs.Deflate.Matcher
import ReadThrough.Proofs.Deflate.Stream

/-!
# Members come back

`decompress` gives back what `compress` was given, for every byte string (`decompress_compress`).
It does so whatever follows (`decompress_compress_append`).
-/

namespace ReadThrough.Gzip

theorem read_plain (stream : Bytes) : Header.read (Header.plain ++ stream) = .ok stream :=
  rfl

theorem length_trailer (content : Bytes) : (trailer content).length = trailerLength := by
  rw [trailer, List.length_append, Bytes.littleEndian_length, Bytes.littleEndian_length]
  rfl

/-- What follows a member plays no part in what comes of it. -/
theorem decompress_compress_append (content rest : Bytes) :
    decompress (compress content ++ rest) = .ok content := by
  have hstream := Deflate.read_pack_write (Deflate.writable_tokens content)
    (trailer content ++ rest)
  have hfound : (trailer content ++ rest).take trailerLength = trailer content :=
    List.take_left' (length_trailer content)
  unfold decompress compress
  rw [List.append_assoc, List.append_assoc, read_plain]
  simp only [bind, Except.bind, hstream, Deflate.expand_tokens, hfound, length_trailer,
    Nat.lt_irrefl, if_false, if_true]

/--
**A compressed content decompresses to itself.** The header, the stream and the trailer that are
written of a byte string of any length are read, and nothing else comes of them.
-/
theorem decompress_compress (content : Bytes) : decompress (compress content) = .ok content := by
  have hmember := decompress_compress_append content []
  rwa [List.append_nil] at hmember

end ReadThrough.Gzip
