import ReadThrough.Proofs.Deflate.Entries
import ReadThrough.Proofs.Deflate.Tokens

/-!
# Descriptions are read back

The codes that are chosen for tokens can be described, and their description is read as just these
codes (`reads_describe`). They have a word for every token, so that the check that `described?`
makes of its description never fails (`described?_eq`).
-/

namespace ReadThrough.Deflate

/-! ## The length code -/

/-- The lengths of the length code in the order in which they are written. -/
def writtenLengths (lengths : List Nat) : List Nat :=
  trimmed 4 (lengthCodeOrder.map fun symbol => lengths.getD symbol 0)

theorem inSymbolOrder_writtenLengths {lengths : List Nat} (h : lengths.length = lengthSymbols) :
    inSymbolOrder (writtenLengths lengths) = lengths := by
  have hlength : (inSymbolOrder (writtenLengths lengths)).length = lengths.length := by
    rw [h]
    simp [inSymbolOrder, lengthCodeOrder, lengthSymbols]
  refine List.ext_getElem hlength fun symbol _ hsymbol => ?_
  have hmem : ∀ symbol < lengthSymbols, symbol ∈ lengthCodeOrder := by decide
  have hplace := List.idxOf_lt_length_of_mem (hmem symbol (by omega))
  simp only [inSymbolOrder, List.getElem_map, List.getElem_range]
  rw [writtenLengths, getD_trimmed, List.getElem?_map, List.getElem?_eq_getElem hplace,
    List.getElem_idxOf hplace, Option.map_some, Option.getD_some, List.getD_eq_getElem _ _ hsymbol]

theorem length_writtenLengths (lengths : List Nat) :
    4 ≤ (writtenLengths lengths).length ∧ (writtenLengths lengths).length ≤ lengthSymbols := by
  have hlength := length_trimmed 4 (lengthCodeOrder.map fun symbol => lengths.getD symbol 0)
  rw [List.length_map] at hlength
  exact hlength

theorem lt_of_mem_writtenLengths {lengths : List Nat} {bound : Nat} (hpositive : 0 < bound)
    (h : ∀ length ∈ lengths, length < bound) :
    ∀ length ∈ writtenLengths lengths, length < bound := by
  intro length hmem
  obtain ⟨zeros, hzeros⟩ :=
    exists_eq_trimmed_append 4 (lengthCodeOrder.map fun symbol => lengths.getD symbol 0)
  have hwritten : length ∈ lengthCodeOrder.map fun symbol => lengths.getD symbol 0 := by
    rw [hzeros]
    exact List.mem_append_left _ hmem
  obtain ⟨symbol, -, rfl⟩ := List.mem_map.1 hwritten
  rw [List.getD_eq_getElem?_getD]
  cases hsymbol : lengths[symbol]? with
  | none => exact hpositive
  | some length => exact h length (List.mem_of_getElem? hsymbol)

/-! ## Descriptions -/

/-- A pair of lists of lengths, with entries for them and the lengths of a code for the entries. -/
structure Describes (literals distances : List Nat) (entries : List LengthEntry)
    (lengths : List Nat) : Prop where
  literalCount : 257 ≤ literals.length ∧ literals.length ≤ maxLiteralSymbols
  distanceCount : 1 ≤ distances.length ∧ distances.length ≤ maxDistanceSymbols
  extends_all : Extends [] entries (literals ++ distances)
  lengthCount : lengths.length = lengthSymbols
  lengths_lt : ∀ length ∈ lengths, length < 2 ^ 3
  complete : Code.complete? lengths = .ok (Code.grow lengths).1
  words : ∀ entry ∈ entries, entry.symbol < lengthSymbols ∧
    entry.symbol ∈ (Code.grow lengths).1.tree.words.map Prod.fst

/-- The word of a symbol among the entries. -/
theorem reads_entryWord {code : Code} {symbol : Nat} (hsymbol : symbol < lengthSymbols)
    (hmem : symbol ∈ code.tree.words.map Prod.fst) :
    Reads code.read ((wordTable code lengthSymbols).getD symbol []) symbol :=
  reads_read (mem_words_of_getD_wordTable (getD_wordTable_ne_nil hsymbol hmem))

variable {literals distances lengths : List Nat} {entries : List LengthEntry}
  {literalCode distanceCode : Code}

theorem reads_describes (h : Describes literals distances entries lengths)
    (hliterals : Code.canonical? literals = .ok literalCode)
    (hdistances : Code.canonical? distances = .ok distanceCode) :
    Reads readCodes
      (toBits 5 (literals.length - 257) ++ toBits 5 (distances.length - 1) ++
        toBits 4 ((writtenLengths lengths).length - 4) ++
        (writtenLengths lengths).flatMap (toBits 3) ++
        entries.flatMap fun entry =>
          (wordTable (Code.grow lengths).1 lengthSymbols).getD entry.symbol [] ++ entry.extra)
      (literalCode, distanceCode) := by
  have hlengthCode : Code.complete? (inSymbolOrder (writtenLengths lengths)) =
      .ok (Code.grow lengths).1 := by
    rw [inSymbolOrder_writtenLengths h.lengthCount, h.complete]
  have hlengths := reads_readLengths (Code.grow lengths).1
    (fun symbol => (wordTable (Code.grow lengths).1 lengthSymbols).getD symbol []) h.extends_all
    fun entry hmem => reads_entryWord (h.words entry hmem).1 (h.words entry hmem).2
  simp only [List.append_assoc]
  exact reads_readCodes h.literalCount h.distanceCount (length_writtenLengths lengths)
    (lt_of_mem_writtenLengths (by decide) h.lengths_lt)
    (reads_readListed hlengthCode hlengths hliterals hdistances)

/-! ## The choice of codes -/

/-- The lengths of the length code that is chosen for some entries. -/
def entryLengths (entries : List LengthEntry) : List Nat :=
  wordLengths longestLengthWord (tally lengthSymbols (entries.map (·.symbol)))

/-- The entries for lengths, and the length code that is chosen for them, describe the lengths. -/
theorem describes_lengthEntries
    (hliterals : 257 ≤ literals.length ∧ literals.length ≤ maxLiteralSymbols)
    (hdistances : 1 ≤ distances.length ∧ distances.length ≤ maxDistanceSymbols)
    (hsmall : ∀ length ∈ literals ++ distances, length < 16)
    (hsome : ∃ length ∈ literals, length ≠ 0) :
    Describes literals distances (lengthEntries (literals ++ distances))
      (entryLengths (lengthEntries (literals ++ distances))) := by
  have hmost : (tally lengthSymbols
      ((lengthEntries (literals ++ distances)).map (·.symbol))).length ≤ 2 ^ longestLengthWord := by
    rw [length_tally]
    decide
  have hsymbol : ∀ entry ∈ lengthEntries (literals ++ distances), entry.symbol < lengthSymbols :=
    fun entry hmem => symbol_lt_of_mem_lengthEntries hsmall hmem
  have hlongest : ∀ length ∈ entryLengths (lengthEntries (literals ++ distances)), length ≤ 7 :=
    le_of_mem_wordLengths (by decide) hmost
  have hexact : volume Code.longest (used (entryLengths (lengthEntries (literals ++ distances)))) =
      2 ^ Code.longest := by
    obtain ⟨length, hlength, hpositive⟩ := hsome
    have hlong : 8 ≤ (literals ++ distances).length := by
      rw [List.length_append]
      omega
    obtain ⟨a, ha, b, hb, hne⟩ :=
      exists_two_symbols hsmall (List.mem_append_left _ hlength) hpositive hlong
    refine volume_wordLengths (by decide) hmost (by decide) ?_
    refine two_le_length_occurring (mem_occurring_tally (hsymbol a ha) ?_)
      (mem_occurring_tally (hsymbol b hb) ?_) hne
    · exact List.mem_map.2 ⟨a, ha, rfl⟩
    · exact List.mem_map.2 ⟨b, hb, rfl⟩
  have hle : ∀ length ∈ entryLengths (lengthEntries (literals ++ distances)),
      length ≤ Code.longest := fun length hmem =>
    Nat.le_trans (hlongest length hmem) (by decide)
  refine
    { literalCount := hliterals
      distanceCount := hdistances
      extends_all := extends_lengthEntries hsmall []
      lengthCount := by rw [entryLengths, length_wordLengths, length_tally]
      lengths_lt := fun length hmem => Nat.lt_succ_of_le (hlongest length hmem)
      complete := Code.complete?_eq hle hexact
      words := fun entry hmem => ⟨hsymbol entry hmem, ?_⟩ }
  obtain ⟨length, hlength, hpositive⟩ := exists_wordLength (by decide) hmost
    (getElem?_tally (hsymbol entry hmem) _)
    (List.count_pos_iff.2 (List.mem_map.2 ⟨entry, hmem, rfl⟩))
  exact Code.mem_words_grow hle (Nat.le_of_eq hexact) hlength hpositive

/-- Lengths that can be described: not too many, for codes with a word for the end of a block. -/
structure Describable (literals distances : List Nat) : Prop where
  usableLiterals : Code.Usable literals
  usableDistances : Code.Usable distances
  literalCount : 257 ≤ literals.length ∧ literals.length ≤ maxLiteralSymbols
  distanceCount : 1 ≤ distances.length ∧ distances.length ≤ maxDistanceSymbols
  stop : ∃ length, literals[endOfBlock]? = some length ∧ 0 < length

theorem canonical?_trimmed (least : Nat) (lengths : List Nat) :
    Code.canonical? (trimmed least lengths) = Code.canonical? lengths := by
  unfold Code.canonical? Code.isLone Code.grow
  rw [ranked_trimmed]

theorem Describable.describes (h : Describable literals distances) :
    Describes (trimmed 257 literals) (trimmed 1 distances)
      (lengthEntries (trimmed 257 literals ++ trimmed 1 distances))
      (entryLengths (lengthEntries (trimmed 257 literals ++ trimmed 1 distances))) := by
  obtain ⟨hleast, hmost⟩ := h.literalCount
  obtain ⟨hleast', hmost'⟩ := h.distanceCount
  have hliterals := length_trimmed 257 literals
  have hdistances := length_trimmed 1 distances
  refine describes_lengthEntries (by omega) (by omega) (fun length hmem => ?_) ?_
  · refine Nat.lt_succ_of_le ?_
    rcases List.mem_append.1 hmem with hmem | hmem
    · exact h.usableLiterals.le_longest length (mem_of_mem_trimmed hmem)
    · exact h.usableDistances.le_longest length (mem_of_mem_trimmed hmem)
  · obtain ⟨length, hlength, hpositive⟩ := h.stop
    have hstop := getD_trimmed 257 literals endOfBlock
    rw [hlength, Option.getD_some] at hstop
    cases htrimmed : (trimmed 257 literals)[endOfBlock]? with
    | none =>
      rw [htrimmed] at hstop
      exact absurd hstop (Nat.ne_of_lt hpositive)
    | some found =>
      rw [htrimmed, Option.getD_some] at hstop
      exact ⟨found, List.mem_of_getElem? htrimmed, by omega⟩

/-- A description is read as the codes that it describes. -/
theorem reads_describe (h : Describable literals distances) :
    Reads readCodes (describe literals distances)
      ((Code.grow literals).1, (Code.grow distances).1) := by
  have hliterals : Code.canonical? (trimmed 257 literals) = .ok (Code.grow literals).1 := by
    rw [canonical?_trimmed, Code.canonical?_eq h.usableLiterals]
  have hdistances : Code.canonical? (trimmed 1 distances) = .ok (Code.grow distances).1 := by
    rw [canonical?_trimmed, Code.canonical?_eq h.usableDistances]
  exact reads_describes h.describes hliterals hdistances

/-! ## Codes for tokens -/

/-- The lengths of the literal code that is chosen for some tokens. -/
def literalLengths (tokens : List Token) : List Nat :=
  wordLengths Code.longest
    (tally maxLiteralSymbols (endOfBlock :: tokens.map Token.symbol))

/-- The lengths of the distance code that is chosen for some tokens. -/
def distanceLengths (tokens : List Token) : List Nat :=
  wordLengths Code.longest (tally maxDistanceSymbols (tokens.filterMap Token.distanceSymbol?))

theorem exists_lengthOf {symbols : List Nat} {count symbol : Nat}
    (hcount : count ≤ 2 ^ Code.longest) (hsymbol : symbol < count) (hmem : symbol ∈ symbols) :
    ∃ length, (wordLengths Code.longest (tally count symbols))[symbol]? = some length ∧
      0 < length :=
  exists_wordLength (by decide) (by rwa [length_tally]) (getElem?_tally hsymbol symbols)
    (List.count_pos_iff.2 hmem)

theorem describable (tokens : List Token) :
    Describable (literalLengths tokens) (distanceLengths tokens) where
  usableLiterals := usable_wordLengths (by decide) (by rw [length_tally]; decide) (Nat.le_refl _)
  usableDistances := usable_wordLengths (by decide) (by rw [length_tally]; decide) (Nat.le_refl _)
  literalCount := by
    rw [literalLengths, length_wordLengths, length_tally]
    decide
  distanceCount := by
    rw [distanceLengths, length_wordLengths, length_tally]
    decide
  stop := exists_lengthOf (by decide) (by decide) List.mem_cons_self

theorem bits_ofBits (bits : List Bool) : (Source.ofBits bits).bits = bits :=
  List.append_nil bits

theorem size_eq_zero_of_bits {s : Source} (h : s.bits = []) : s.size = 0 := by
  obtain ⟨pending, rest⟩ := s
  obtain ⟨hpending, hrest⟩ := List.append_eq_nil_iff.1 h
  have hlength := length_unpack rest
  simp only at hpending
  rw [hrest, List.length_nil] at hlength
  simp only [Source.size, hpending, List.length_nil]
  omega

/-- The chosen codes have words for the tokens that they were chosen for. -/
theorem cover_chosen {tokens : List Token} (hwritable : ∀ token ∈ tokens, token.Writable) :
    (Words.ofCodes (Code.grow (literalLengths tokens)).1
      (Code.grow (distanceLengths tokens)).1).cover tokens = true := by
  have husable := (describable tokens).usableLiterals
  have husable' := (describable tokens).usableDistances
  have hliteral : ∀ symbol ∈ endOfBlock :: tokens.map Token.symbol, symbol < maxLiteralSymbols →
      symbol ∈ (Code.grow (literalLengths tokens)).1.tree.words.map Prod.fst := by
    intro symbol hmem hsymbol
    obtain ⟨length, hlength, hpositive⟩ := exists_lengthOf (by decide) hsymbol hmem
    exact Code.mem_words_grow husable.le_longest husable.fits hlength hpositive
  refine cover_of_words (hliteral _ List.mem_cons_self (by decide)) (fun token hmem => ?_)
    (fun token hmem symbol hsymbol => ?_) hwritable
  · refine hliteral _ (List.mem_cons_of_mem _ (List.mem_map.2 ⟨token, hmem, rfl⟩)) ?_
    exact (hwritable token hmem).symbol_lt
  · have hlisted : symbol ∈ tokens.filterMap Token.distanceSymbol? :=
      List.mem_filterMap.2 ⟨token, hmem, hsymbol⟩
    obtain ⟨length, hlength, hpositive⟩ :=
      exists_lengthOf (by decide) ((hwritable token hmem).distanceSymbol_lt hsymbol) hlisted
    exact Code.mem_words_grow husable'.le_longest husable'.fits hlength hpositive

/-- The check of a description does not fail. -/
theorem described?_eq {tokens : List Token} (hwritable : ∀ token ∈ tokens, token.Writable) :
    described? tokens =
      some (describe (literalLengths tokens) (distanceLengths tokens),
        .ofCodes (Code.grow (literalLengths tokens)).1 (Code.grow (distanceLengths tokens)).1) := by
  obtain ⟨after, hread, hlater, -⟩ := reads_describe (describable tokens)
    (.ofBits (describe (literalLengths tokens) (distanceLengths tokens))) []
    (by rw [bits_ofBits, List.append_nil])
  have hsound : after.size = 0 ∧ (Words.ofCodes (Code.grow (literalLengths tokens)).1
      (Code.grow (distanceLengths tokens)).1).cover tokens = true :=
    ⟨size_eq_zero_of_bits hlater, cover_chosen hwritable⟩
  unfold literalLengths distanceLengths at hread hsound ⊢
  unfold described?
  simp only [hread, hsound, and_self, if_true]

end ReadThrough.Deflate
