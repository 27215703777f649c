import ReadThrough.Proofs.Deflate.Soundness
import ReadThrough.Proofs.Gzip.Header
import ReadThrough.Proofs.Gzip.RoundTrip

/-!
# What is a member

A member is a header and a whole stream (`Frames`), and a trailer with the checksum and the length
of the content of the stream (`IsTrailer`). `decompress` accepts the octets that begin with a member
(`decompress_eq_ok_iff`).

* `decompress_of_frames` — behind a header and a stream the trailer alone decides
* `exists_decompress_eq_error_of_cut` — what is cut off a member is none
-/

namespace ReadThrough.Gzip

open Deflate (IsStream expand)

/-! ## What a member is -/

/-- Octets of a header, and of a whole stream with the content. -/
structure Frames (header stream content : Bytes) : Prop where
  header : Header.WellFormed header
  stream : ∃ tokens, IsStream tokens stream ∧ expand tokens = content

/-- Eight octets: the checksum of the content and its length modulo 2³², the lowest octets first. -/
structure IsTrailer (content octets : Bytes) : Prop where
  length_eq : octets.length = 8
  checksum_eq : Bytes.ofLittleEndian (octets.take 4) = (Crc32.checksum content).toNat
  size_eq : Bytes.ofLittleEndian (octets.drop 4) = content.length % 2 ^ 32

/-! ## Trailers -/

/-- Octets are told by their number and the word that they are. -/
theorem ofLittleEndian_inj {a b : Bytes} (hlength : a.length = b.length)
    (h : Bytes.ofLittleEndian a = Bytes.ofLittleEndian b) : a = b := by
  induction a generalizing b with
  | nil => exact (List.length_eq_zero_iff.1 hlength.symm).symm
  | cons octet a ih =>
    cases b with
    | nil => cases hlength
    | cons other b =>
      have hoctet := octet.toNat_lt
      have hother := other.toNat_lt
      simp only [Bytes.ofLittleEndian] at h
      have hfirst : octet = other := UInt8.toNat_inj.1 (by omega)
      rw [hfirst, ih (Nat.succ_inj.1 hlength) (by omega)]

theorem isTrailer_trailer (content : Bytes) : IsTrailer content (trailer content) where
  length_eq := length_trailer content
  checksum_eq := by
    rw [trailer, List.take_left' (Bytes.littleEndian_length _ _),
      Bytes.ofLittleEndian_littleEndian]
    exact Nat.mod_eq_of_lt (Crc32.checksum content).toNat_lt
  size_eq := by
    rw [trailer, List.drop_left' (Bytes.littleEndian_length _ _),
      Bytes.ofLittleEndian_littleEndian]
    rfl

/-- A content has one trailer. -/
theorem isTrailer_iff {content octets : Bytes} :
    IsTrailer content octets ↔ octets = trailer content := by
  constructor
  · rintro ⟨hlength, hchecksum, hsize⟩
    obtain ⟨hlength', hchecksum', hsize'⟩ := isTrailer_trailer content
    have htake := ofLittleEndian_inj (by rw [List.length_take, List.length_take, hlength, hlength'])
      (hchecksum.trans hchecksum'.symm)
    have hdrop := ofLittleEndian_inj (by rw [List.length_drop, List.length_drop, hlength, hlength'])
      (hsize.trans hsize'.symm)
    rw [← List.take_append_drop 4 octets, htake, hdrop, List.take_append_drop]
  · rintro rfl
    exact isTrailer_trailer content

/-! ## Members -/

section frames

variable {header stream content : Bytes}

/-- Behind a header and a whole stream the next eight octets decide. -/
theorem decompress_of_frames (h : Frames header stream content) {octets : Bytes}
    (hlength : octets.length = 8) (rest : Bytes) :
    decompress (header ++ (stream ++ (octets ++ rest))) =
      if octets = trailer content then .ok content else .error .mismatch := by
  obtain ⟨hheader, tokens, hstream, rfl⟩ := h
  have hread : Header.read (header ++ (stream ++ (octets ++ rest))) = .ok _ :=
    Header.read_eq_ok_iff.2 ⟨header, rfl, hheader⟩
  have hfound : (octets ++ rest).take trailerLength = octets := List.take_left' hlength
  have hlong : ¬ octets.length < trailerLength := Nat.not_lt_of_le (Nat.le_of_eq hlength.symm)
  unfold decompress
  rw [hread]
  simp only [bind, Except.bind, Deflate.read_of_isStream hstream, hfound, if_neg hlong]

/-- **Octets are decompressed if they begin with a member**, and to the content of its stream. -/
theorem decompress_eq_ok_iff {input : Bytes} :
    decompress input = .ok content ↔ ∃ header stream octets rest,
      input = header ++ (stream ++ (octets ++ rest)) ∧ Frames header stream content ∧
        IsTrailer content octets := by
  constructor
  · intro h
    unfold decompress at h
    obtain ⟨later, hheader, hlater⟩ := exists_of_bind_eq_ok h
    obtain ⟨header, rfl, hwellFormed⟩ := Header.read_eq_ok_iff.1 hheader
    split at hlater
    · cases hlater
    · next tokens found hread =>
      obtain ⟨stream, rfl, hstream⟩ := Deflate.read_eq_ok_iff.1 hread
      dsimp only at hlater
      split at hlater
      · cases hlater
      · split at hlater
        · next htrailer =>
          obtain rfl := Except.ok.inj hlater
          refine ⟨header, stream, found.take trailerLength, found.drop trailerLength, ?_,
            ⟨hwellFormed, tokens, hstream, rfl⟩, isTrailer_iff.2 htrailer⟩
          rw [List.take_append_drop]
        · cases hlater
  · rintro ⟨header, stream, octets, rest, rfl, hframes, htrailer⟩
    rw [decompress_of_frames hframes htrailer.length_eq, if_pos (isTrailer_iff.1 htrailer)]

/-- Octets begin with one header and one stream behind it at most. -/
theorem Frames.unique {header' stream' content' rest rest' : Bytes}
    (h : Frames header stream content) (h' : Frames header' stream' content')
    (heq : header ++ (stream ++ rest) = header' ++ (stream' ++ rest')) :
    header = header' ∧ stream = stream' ∧ content = content' ∧ rest = rest' := by
  obtain ⟨hheader, tokens, hstream, rfl⟩ := h
  obtain ⟨hheader', tokens', hstream', rfl⟩ := h'
  have hread : Header.read (header ++ (stream ++ rest)) = .ok (stream ++ rest) :=
    Header.read_eq_ok_iff.2 ⟨header, rfl, hheader⟩
  have hread' : Header.read (header' ++ (stream' ++ rest')) = .ok (stream' ++ rest') :=
    Header.read_eq_ok_iff.2 ⟨header', rfl, hheader'⟩
  have hrest : stream ++ rest = stream' ++ rest' :=
    Except.ok.inj (hread.symm.trans ((congrArg Header.read heq).trans hread'))
  obtain ⟨rfl, rfl⟩ := Deflate.isStream_unique hstream hstream' hrest
  rw [hrest] at heq
  exact ⟨List.append_cancel_right heq, rfl, rfl, List.append_cancel_left hrest⟩

end frames

/-! ## Whole members -/

/-- A header, a whole stream and its trailer, and nothing behind them. -/
def IsMember (content member : Bytes) : Prop :=
  ∃ header stream octets, member = header ++ (stream ++ octets) ∧
    Frames header stream content ∧ IsTrailer content octets

theorem frames_compress (content : Bytes) :
    Frames Header.plain (Deflate.pack (Deflate.write (Deflate.tokens content))) content where
  header := by
    obtain ⟨header, hheader, hwellFormed⟩ := Header.read_eq_ok_iff.1 (read_plain [])
    rwa [List.append_cancel_right hheader]
  stream := by
    have hread := Deflate.read_pack_write (Deflate.writable_tokens content) []
    obtain ⟨stream, hstream, hwhole⟩ := Deflate.read_eq_ok_iff.1 hread
    refine ⟨_, ?_, Deflate.expand_tokens content⟩
    rwa [List.append_cancel_right hstream]

/-- What is written is a member. -/
theorem isMember_compress (content : Bytes) : IsMember content (compress content) :=
  ⟨_, _, _, List.append_assoc _ _ _, frames_compress content, isTrailer_trailer content⟩

/--
**What is cut off a member is none.** Whoever wrote the member and wherever the cut is, in the
header, in the stream or in the trailer, what is left does not decompress to anything.
-/
theorem exists_decompress_eq_error_of_cut {content member cut : Bytes}
    (hmember : IsMember content member) (hcut : cut <+: member) (hshort : cut ≠ member) :
    ∃ fault, decompress cut = .error fault := by
  cases hread : decompress cut with
  | error fault => exact ⟨fault, rfl⟩
  | ok other =>
    -- a member would have its header and its stream in common with the whole, and its trailer, too
    obtain ⟨header, stream, octets, rest, rfl, hframes, htrailer⟩ := decompress_eq_ok_iff.1 hread
    obtain ⟨header', stream', octets', rfl, hframes', htrailer'⟩ := hmember
    obtain ⟨back, hback⟩ := hcut
    have hwhole : header ++ (stream ++ (octets ++ rest ++ back)) =
        header' ++ (stream' ++ octets') := by
      simpa only [List.append_assoc] using hback
    obtain ⟨-, -, -, htrailers⟩ := hframes.unique hframes' hwhole
    have hlength := congrArg List.length htrailers
    rw [List.length_append, List.length_append, htrailer.length_eq, htrailer'.length_eq] at hlength
    have hnone : back = [] := List.length_eq_zero_iff.1 (by omega)
    rw [hnone, List.append_nil] at hback
    exact absurd hback hshort

end ReadThrough.Gzip
