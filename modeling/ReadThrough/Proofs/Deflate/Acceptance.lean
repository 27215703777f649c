import ReadThrough.Proofs.Deflate.Codes
import ReadThrough.Proofs.Deflate.Readers

/-!
# What has the format is read

A reader makes of bits what they write, for every relation of the format, and it stops behind them.
So a whole stream is read to its tokens, whatever follows it (`read_of_isStream`).
-/

namespace ReadThrough.Deflate

/-! ## Tokens -/

theorem reads_of_writesSlot {slots : Array Slot} {index value : Nat} {bits : List Bool}
    (h : WritesSlot slots index value bits) : Reads (readSlot slots index) bits value := by
  obtain ⟨hslot, hbeyond⟩ := h
  intro s later hs
  obtain ⟨after, hafter, hlater, hpending⟩ := reads_take_toBits hbeyond s later hs
  refine ⟨after, ?_, hlater, hpending⟩
  simp only [readSlot, hslot, hafter]

section tokens

variable {literals distances : Code}

/-- A copy is read from what follows the word for its length. -/
theorem reads_readCopy {index symbol length distance : Nat} {extra word extra' : List Bool}
    (hlength : WritesSlot lengthSlots index length extra)
    (hword : (symbol, word) ∈ distances.tree.words)
    (hdistance : WritesSlot distanceSlots symbol distance extra') :
    Reads (readCopy distances index) (extra ++ (word ++ extra')) (.copy length distance) := by
  have hrest : Reads (andThen (readSlot distanceSlots symbol) fun distance =>
      give (Token.copy length distance)) extra' (.copy length distance) :=
    (reads_of_writesSlot hdistance).andThen_give (Token.copy length)
  have hboth : Reads (andThen distances.read fun symbol =>
      andThen (readSlot distanceSlots symbol) fun distance =>
        give (Token.copy length distance)) (word ++ extra') (.copy length distance) :=
    (reads_read hword).andThen hrest
  rw [readCopy_eq]
  exact (reads_of_writesSlot hlength).andThen hboth

/-- One token is read from its bits, whatever is read after it. -/
theorem exists_readTokens_of_writesToken {token : Token} {bits : List Bool}
    (h : WritesToken literals distances token bits) (done : Array Token) {s : Source}
    {later : List Bool} (hs : s.bits = bits ++ later) :
    ∃ after, readTokens literals distances done s =
        readTokens literals distances (done.push token) after ∧
      after.bits = later ∧ (s.pending.length < 8 → after.pending.length < 8) := by
  cases h with
  | literal hword =>
    obtain ⟨after, hread, hlater, hpending⟩ := reads_read hword s later hs
    exact ⟨after, readTokens_octet done hread (meaning_octet _), hlater, hpending⟩
  | copy hword hlength hword' hdistance =>
    rw [List.append_assoc] at hs
    obtain ⟨middle, hread, hmiddle, hpending⟩ := reads_read hword s _ hs
    obtain ⟨after, hcopied, hlater, hpending'⟩ :=
      reads_readCopy hlength hword' hdistance middle later hmiddle
    exact ⟨after, readTokens_copy done hread (meaning_length _) hcopied, hlater,
      hpending' ∘ hpending⟩

theorem reads_of_writesTokens {tokens : List Token} {bits : List Bool}
    (h : WritesTokens literals distances tokens bits) (done : Array Token) :
    Reads (readTokens literals distances done) bits (done.toList ++ tokens).toArray := by
  intro s later hs
  induction h generalizing done s later with
  | stop hword =>
    obtain ⟨after, hread, hlater, hpending⟩ := reads_read hword s later hs
    refine ⟨after, ?_, hlater, hpending⟩
    rw [readTokens_stop done hread rfl]
    simp
  | cons htoken _ ih =>
    rw [List.append_assoc] at hs
    obtain ⟨middle, heq, hmiddle, hpending⟩ := exists_readTokens_of_writesToken htoken done hs
    obtain ⟨after, hread, hlater, hpending'⟩ := ih (done.push _) middle later hmiddle
    refine ⟨after, ?_, hlater, hpending' ∘ hpending⟩
    rw [heq, hread]
    simp

end tokens

/-! ## Descriptions of codes -/

section lengths

variable {code : Code}

theorem reads_of_writesRun {last : Option Nat} {run : List Nat} {bits : List Bool}
    (h : WritesRun code last run bits) : Reads (readLengthRun code last) bits run := by
  rw [readLengthRun_eq]
  cases h with
  | single hlength hword =>
    have hboth : Reads (andThen code.tree.read (readEntry last)) (bits ++ []) _ :=
      (reads_read hword).andThen (reads_single hlength)
    rwa [List.append_nil] at hboth
  | again hlast hmore hword =>
    subst hlast
    exact (reads_read hword).andThen (reads_repeat 2 3 _ hmore)
  | zeros hmore hword => exact (reads_read hword).andThen (reads_repeat 3 3 0 hmore)
  | manyZeros hmore hword => exact (reads_read hword).andThen (reads_repeat 7 11 0 hmore)

theorem WritesRun.length_pos {last : Option Nat} {run : List Nat} {bits : List Bool}
    (h : WritesRun code last run bits) : 0 < run.length := by
  cases h with
  | single => exact Nat.one_pos
  | again | zeros | manyZeros =>
    rw [List.length_replicate]
    omega

theorem WritesLengths.length_le {done all : List Nat} {bits : List Bool}
    (h : WritesLengths code done all bits) : done.length ≤ all.length := by
  induction h with
  | nil => exact Nat.le_refl _
  | cons _ _ ih =>
    rw [List.length_append] at ih
    omega

theorem reads_of_writesLengths {done all : List Nat} {bits : List Bool}
    (h : WritesLengths code done all bits) :
    Reads (readLengths code all.length done.toArray) bits all := by
  induction h with
  | nil done => exact reads_readLengths_nil code done
  | cons hrun hrest ih =>
    exact reads_readLengths_cons (reads_of_writesRun hrun) hrun.length_pos hrest.length_le ih

end lengths

theorem reads_of_writesCodes {codes : Code × Code} {bits : List Bool} (h : WritesCodes codes bits) :
    Reads readCodes bits codes := by
  cases h with
  | @mk literalLengths distanceLengths written lengthCode literals distances bits hliteralCount
    hdistanceCount hwritten hsmall hlengthCode hfull hlengths hliterals hdistances =>
    exact reads_readCodes hliteralCount hdistanceCount hwritten hsmall
      (reads_readListed (Code.complete?_eq_ok_iff.2 ⟨hlengthCode, hfull⟩)
        (reads_of_writesLengths hlengths) (Code.canonical?_eq_ok_iff.2 hliterals)
        (Code.canonical?_eq_ok_iff.2 hdistances))

/-! ## Places -/

/-- The place is so many bits behind the start of an octet. -/
structure Source.At (s : Source) (before : Nat) : Prop where
  pending_lt : s.pending.length < 8
  aligned : (before + s.pending.length) % 8 = 0

theorem length_bits (s : Source) : s.bits.length = s.pending.length + 8 * s.rest.length := by
  rw [Source.bits, List.length_append, length_unpack]

theorem at_ofBytes (data : Bytes) : (Source.ofBytes data).At 0 :=
  ⟨(by decide : ([] : List Bool).length < 8), rfl⟩

/-- Behind further bits a place is so many bits on. -/
theorem Source.At.step {s after : Source} {before : Nat} {bits : List Bool} (h : s.At before)
    (hbits : s.bits = bits ++ after.bits)
    (hpending : s.pending.length < 8 → after.pending.length < 8) :
    after.At (before + bits.length) := by
  have hlength := congrArg List.length hbits
  have haligned := h.aligned
  rw [List.length_append, length_bits, length_bits] at hlength
  exact ⟨hpending h.pending_lt, by omega⟩

/-- Octets whose bits come first do so themselves. -/
theorem exists_back_of_unpack {data front : Bytes} {later : List Bool}
    (h : unpack data = unpack front ++ later) : ∃ back, data = front ++ back ∧ unpack back = later := by
  have hlength := congrArg List.length h
  rw [List.length_append, length_unpack, length_unpack] at hlength
  have hsplit := List.take_append_drop front.length data
  rw [← hsplit, unpack_append] at h
  have htake : (unpack (data.take front.length)).length = (unpack front).length := by
    rw [length_unpack, length_unpack, List.length_take]
    omega
  obtain ⟨hfront, hback⟩ := List.append_inj h htake
  refine ⟨data.drop front.length, ?_, hback⟩
  exact hsplit.symm.trans (congrArg (· ++ _) (unpack_inj hfront))

/-! ## Blocks -/

theorem foldl_push_literal (done : Array Token) (octets : Bytes) :
    octets.foldl (fun all octet => all.push (.literal octet)) done =
      (done.toList ++ octets.map Token.literal).toArray := by
  induction octets generalizing done with
  | nil => simp
  | cons octet octets ih => simp [ih]

/-- A block of octets as they are is read, where it begins at an octet. -/
theorem exists_readPlain_eq {s : Source} {before : Nat} (hs : s.At before)
    {octets size complement : Bytes} {padding later : List Bool} (hpadding : padding.length < 8)
    (hplace : (before + padding.length) % 8 = 0) (hsize : size.length = 2)
    (hcomplement : complement.length = 2) (hlength : Bytes.ofLittleEndian size = octets.length)
    (hsum : octets.length + Bytes.ofLittleEndian complement = 65535)
    (hbits : s.bits = padding ++ unpack (size ++ complement ++ octets) ++ later)
    (done : Array Token) :
    ∃ after, readPlain done s.align = .ok ((done.toList ++ octets.map Token.literal).toArray, after) ∧
      after.bits = later ∧ after.pending.length < 8 := by
  have hsame : s.pending.length = padding.length := by
    have haligned := hs.aligned
    have hshort := hs.pending_lt
    omega
  rw [Source.bits, List.append_assoc] at hbits
  obtain ⟨back, hrest, hback⟩ := exists_back_of_unpack (List.append_inj hbits hsame).2
  obtain ⟨a, b, rfl⟩ := List.length_eq_two.1 hsize
  obtain ⟨c, d, rfl⟩ := List.length_eq_two.1 hcomplement
  have hall : s.align.rest = a :: b :: c :: d :: (octets ++ back) := by
    rw [Source.align, hrest, List.append_assoc]
    rfl
  refine ⟨.ofBytes back, ?_, ?_, (by decide : ([] : List Bool).length < 8)⟩
  · rw [readPlain, hall]
    simp only [hlength, hsum, List.take_left, List.drop_left, foldl_push_literal, if_true]
  · exact hback

theorem exists_readBody_eq {s : Source} {before kind : Nat} (hs : s.At before)
    {tokens : List Token} {body later : List Bool} (h : WritesBody before kind tokens body)
    (hbits : s.bits = body ++ later) (done : Array Token) :
    ∃ after, readBody kind done s = .ok ((done.toList ++ tokens).toArray, after) ∧
      after.bits = later ∧ (s.pending.length < 8 → after.pending.length < 8) := by
  cases h with
  | plain hpadding hplace hsize hcomplement hlength hsum =>
    obtain ⟨after, hread, hlater, hpending⟩ :=
      exists_readPlain_eq hs hpadding hplace hsize hcomplement hlength hsum hbits done
    exact ⟨after, hread, hlater, fun _ => hpending⟩
  | fixed h => exact reads_of_writesTokens h done s later hbits
  | described hcodes htokens =>
    have hboth : Reads (andThen readCodes fun codes => readTokens codes.1 codes.2 done) _ _ :=
      (reads_of_writesCodes hcodes).andThen (reads_of_writesTokens htokens done)
    exact hboth s later hbits

theorem WritesBody.kind_lt {before kind : Nat} {tokens : List Token} {body : List Bool}
    (h : WritesBody before kind tokens body) : kind < 2 ^ 2 := by
  cases h <;> decide

/-- The mark and the kind of a block take three bits. -/
theorem exists_opened {s : Source} {before kind : Nat} (hs : s.At before) (hkind : kind < 2 ^ 2)
    {mark : Bool} {later : List Bool} (hbits : s.bits = mark :: (toBits 2 kind ++ later)) :
    ∃ marked opened, s.take 1 = .ok (mark.toNat, marked) ∧ marked.take 2 = .ok (kind, opened) ∧
      opened.bits = later ∧ opened.At (before + 3) := by
  obtain ⟨marked, opened, hmarked, hopened, rfl, hpending⟩ := exists_take_eq hkind hbits
  have hthree : s.bits = (mark :: toBits 2 kind) ++ opened.bits := hbits
  exact ⟨marked, opened, hmarked, hopened, rfl, hs.step hthree hpending⟩

theorem exists_readBlocks_eq {before : Nat} {tokens : List Token} {bits : List Bool}
    (h : WritesBlocks before tokens bits) {s : Source} (hs : s.At before) {later : List Bool}
    (hbits : s.bits = bits ++ later) (done : Array Token) :
    ∃ after, readBlocks done s = .ok ((done.toList ++ tokens).toArray, after) ∧
      after.bits = later ∧ after.pending.length < 8 := by
  induction h generalizing s done with
  | last hbody =>
    rw [List.cons_append, List.append_assoc] at hbits
    obtain ⟨marked, opened, hmark, hkind, hrest, hat⟩ := exists_opened hs hbody.kind_lt hbits
    obtain ⟨after, hread, hlater, hpending⟩ := exists_readBody_eq hat hbody hrest done
    exact ⟨after, readBlocks_of_readBody hmark hkind hread, hlater, hpending hat.pending_lt⟩
  | more hbody _ ih =>
    rw [List.cons_append, List.append_assoc, List.append_assoc] at hbits
    obtain ⟨marked, opened, hmark, hkind, hrest, hat⟩ := exists_opened hs hbody.kind_lt hbits
    obtain ⟨middle, hread, hmiddle, hpending⟩ := exists_readBody_eq hat hbody hrest done
    have hat' : middle.At _ := hat.step (hrest.trans (congrArg _ hmiddle.symm)) hpending
    obtain ⟨after, hread', hlater, hpending'⟩ := ih hat' hmiddle _
    refine ⟨after, ?_, hlater, hpending'⟩
    rw [readBlocks_of_readBody hmark hkind hread, if_neg (by decide), hread']
    simp

/-! ## Streams -/

/-- Bits left of less than an octet are passed over, and the octets behind them are told. -/
theorem rest_eq_of_bits {s : Source} {filling : List Bool} {rest : Bytes}
    (hpending : s.pending.length < 8) (hfilling : filling.length < 8)
    (hbits : s.bits = filling ++ unpack rest) : s.rest = rest := by
  have hlength := congrArg List.length hbits
  rw [length_bits, List.length_append, length_unpack] at hlength
  exact unpack_inj (List.append_inj hbits (by omega)).2

/-- A whole stream is read to its tokens, and what follows it is left alone. -/
theorem read_of_isStream {tokens : List Token} {stream : Bytes} (h : IsStream tokens stream)
    (rest : Bytes) : read (stream ++ rest) = .ok (tokens, rest) := by
  obtain ⟨bits, filling, hstream, hfilling, hblocks⟩ := h
  have hbits : (Source.ofBytes (stream ++ rest)).bits = bits ++ (filling ++ unpack rest) := by
    show [] ++ unpack (stream ++ rest) = _
    rw [List.nil_append, unpack_append, hstream, List.append_assoc]
  obtain ⟨after, hread, hlater, hpending⟩ :=
    exists_readBlocks_eq hblocks (at_ofBytes _) hbits #[]
  rw [read, hread, ← rest_eq_of_bits hpending hfilling hlater]
  rfl

end ReadThrough.Deflate
