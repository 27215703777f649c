import ReadThrough.Deflate.Writer
import ReadThrough.Proofs.Deflate.Acceptance
import ReadThrough.Proofs.Deflate.Description

/-!
# Streams come back

A written stream is read to the tokens that it was written from, whether its block has the fixed
codes or codes of its own (`reads_write`). The reader stops before the octets that follow, for what
is left of the last octet of the stream is less than an octet (`read_pack_write`).
-/

namespace ReadThrough.Deflate

variable {tokens : List Token}

/-! ## Blocks -/

/-- A last block is read by its mark, its kind and its body. -/
theorem reads_lastBlock {kind : Nat} {done all : Array Token} {bits : List Bool}
    (hkind : kind < 2 ^ 2) (hbody : Reads (readBody kind done) bits all) :
    Reads (readBlocks done) (lastBlockMark kind ++ bits) all := by
  intro s later hs
  have hfirst : s.bits = true :: (toBits 2 kind ++ (bits ++ later)) := by
    rw [hs, lastBlockMark, List.append_assoc]
    rfl
  obtain ⟨marked, opened, hmarked, hopened, hbits, hpending⟩ := exists_take_eq hkind hfirst
  obtain ⟨after, hafter, hlater, hpending'⟩ := hbody opened later hbits
  exact ⟨after, readBlocks_of_readBody hmarked hopened hafter, hlater, hpending' ∘ hpending⟩

theorem readBody_one (done : Array Token) :
    readBody 1 done = readTokens fixedLiteralCode fixedDistanceCode done :=
  rfl

theorem readBody_two (done : Array Token) :
    readBody 2 done = andThen readCodes fun codes => readTokens codes.1 codes.2 done :=
  rfl

theorem reads_fixedBlock (hwritable : ∀ token ∈ tokens, token.Writable) :
    Reads (readBlocks #[]) (fixedBlock tokens) tokens.toArray := by
  have hbody : Reads (readBody 1 #[])
      ((Words.ofCodes fixedLiteralCode fixedDistanceCode).body tokens) tokens.toArray := by
    rw [readBody_one]
    exact reads_of_writesTokens (writesTokens_body (cover_fixed hwritable) hwritable) #[]
  exact reads_lastBlock (by decide) hbody

theorem reads_describedBlock (hwritable : ∀ token ∈ tokens, token.Writable) :
    Reads (readBlocks #[]) (describedBlock tokens) tokens.toArray := by
  have htokens : Reads (readTokens (Code.grow (literalLengths tokens)).1
      (Code.grow (distanceLengths tokens)).1 #[]) _ tokens.toArray :=
    reads_of_writesTokens (writesTokens_body (cover_chosen hwritable) hwritable) #[]
  rw [describedBlock, described?_eq hwritable]
  refine reads_lastBlock (by decide) ?_
  rw [readBody_two]
  exact (reads_describe (describable tokens)).andThen htokens

theorem reads_write (hwritable : ∀ token ∈ tokens, token.Writable) :
    Reads (readBlocks #[]) (write tokens) tokens.toArray := by
  unfold write
  split
  · exact reads_fixedBlock hwritable
  · exact reads_describedBlock hwritable

/-! ## Octets -/

/-- What is written of tokens is read back, and what follows it is left alone. -/
theorem read_pack_write (hwritable : ∀ token ∈ tokens, token.Writable) (rest : Bytes) :
    read (pack (write tokens) ++ rest) = .ok (tokens, rest) := by
  obtain ⟨zeros, hzeros, hpack⟩ := unpack_pack (write tokens)
  have hbits : (Source.ofBytes (pack (write tokens) ++ rest)).bits =
      write tokens ++ (List.replicate zeros false ++ unpack rest) := by
    show [] ++ unpack (pack (write tokens) ++ rest) = _
    rw [List.nil_append, unpack_append, hpack, List.append_assoc]
  obtain ⟨after, hafter, hlater, hpending⟩ := reads_write hwritable _ _ hbits
  -- what is left of the octet that has been started is its filling, for both are less than an octet
  have hshort : after.pending.length < 8 := hpending (by decide : [].length < 8)
  have hfilling : (List.replicate zeros false).length < 8 := by rwa [List.length_replicate]
  rw [read, hafter]
  show Except.ok (tokens, after.rest) = _
  rw [rest_eq_of_bits hshort hfilling hlater]

end ReadThrough.Deflate
