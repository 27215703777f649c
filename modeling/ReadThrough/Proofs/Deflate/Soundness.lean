import ReadThrough.Proofs.Deflate.Acceptance

/-!
# What is read has the format

Whatever a reader accepts was written as the format says, and the bits it took are the ones that
write its value (`Source.Passes`). With the other direction this settles which octets are read:
those that begin with a whole stream, and the rest is what follows it (`read_eq_ok_iff`). So no
octets begin with two streams (`isStream_unique`).
-/

namespace ReadThrough.Deflate

/-! ## Bits that were taken -/

/-- Between two places lie the bits, and no more than an octet stays started. -/
structure Source.Passes (s : Source) (bits : List Bool) (after : Source) : Prop where
  bits_eq : s.bits = bits ++ after.bits
  pending_lt : s.pending.length < 8 → after.pending.length < 8

namespace Source.Passes

variable {s middle after : Source} {front back : List Bool}

theorem refl (s : Source) : s.Passes [] s :=
  ⟨rfl, id⟩

theorem trans (hfront : s.Passes front middle) (hback : middle.Passes back after) :
    s.Passes (front ++ back) after where
  bits_eq := by rw [hfront.bits_eq, hback.bits_eq, List.append_assoc]
  pending_lt := hback.pending_lt ∘ hfront.pending_lt

end Source.Passes

theorem passes_of_next? {s after : Source} {bit : Bool} (h : s.next? = some (bit, after)) :
    s.Passes [bit] after := by
  match s, h with
  | ⟨first :: pending, rest⟩, h =>
    obtain ⟨rfl, rfl⟩ := Prod.mk.inj (Option.some.inj h)
    exact ⟨rfl, Nat.lt_of_succ_lt⟩
  | ⟨[], octet :: rest⟩, h =>
    obtain ⟨rfl, rfl⟩ := Prod.mk.inj (Option.some.inj h)
    exact ⟨rfl, fun _ => Nat.lt_succ_self 7⟩

theorem passes_of_take {count number : Nat} {s after : Source}
    (h : s.take count = .ok (number, after)) :
    number < 2 ^ count ∧ s.Passes (toBits count number) after := by
  induction count generalizing s number with
  | zero =>
    obtain ⟨rfl, rfl⟩ := Prod.mk.inj (Except.ok.inj h)
    exact ⟨Nat.one_pos, .refl _⟩
  | succ count ih =>
    rw [Source.take] at h
    split at h
    · cases h
    · next bit middle hnext =>
      split at h
      · cases h
      · next high last htake =>
        obtain ⟨rfl, rfl⟩ := Prod.mk.inj (Except.ok.inj h)
        obtain ⟨hhigh, hpasses⟩ := ih htake
        have hbit := bit.toNat_lt
        have hlow : ((bit.toNat + 2 * high) % 2 == 1) = bit := by
          rw [Nat.add_mul_mod_self_left]
          cases bit <;> rfl
        have hrest : (bit.toNat + 2 * high) / 2 = high := by omega
        refine ⟨by rw [Nat.pow_succ]; omega, ?_⟩
        rw [toBits, hlow, hrest]
        exact (passes_of_next? hnext).trans hpasses

/-- A symbol is read from a word of its own. -/
theorem exists_word_of_read {tree : Tree} {symbol : Nat} {s after : Source}
    (h : tree.read s = .ok (symbol, after)) :
    ∃ word, (symbol, word) ∈ tree.words ∧ s.Passes word after := by
  induction tree generalizing s with
  | empty => cases h
  | leaf =>
    obtain ⟨rfl, rfl⟩ := Prod.mk.inj (Except.ok.inj h)
    exact ⟨[], List.mem_singleton_self _, .refl _⟩
  | node zero one ihZero ihOne =>
    rw [Tree.read] at h
    split at h
    · cases h
    · next bit middle hnext =>
      cases bit with
      | true =>
        obtain ⟨word, hword, hpasses⟩ := ihOne h
        exact ⟨true :: word, List.mem_append_right _ (List.mem_map_of_mem hword),
          (passes_of_next? hnext).trans hpasses⟩
      | false =>
        obtain ⟨word, hword, hpasses⟩ := ihZero h
        exact ⟨false :: word, List.mem_append_left _ (List.mem_map_of_mem hword),
          (passes_of_next? hnext).trans hpasses⟩

/-! ## Tokens -/

theorem exists_writesSlot_of_readSlot {slots : Array Slot} {index value : Nat} {s after : Source}
    (h : readSlot slots index s = .ok (value, after)) :
    ∃ bits, WritesSlot slots index value bits ∧ s.Passes bits after := by
  rw [readSlot] at h
  split at h
  · cases h
  · next slot hslot =>
    split at h
    · cases h
    · next beyond last htake =>
      obtain ⟨rfl, rfl⟩ := Prod.mk.inj (Except.ok.inj h)
      obtain ⟨hbeyond, hpasses⟩ := passes_of_take htake
      exact ⟨_, .mk hslot hbeyond, hpasses⟩

/-- The symbol of a meaning. -/
theorem meaning_eq_octet {symbol : Nat} {octet : UInt8}
    (h : Meaning.ofSymbol symbol = .octet octet) : symbol = octet.toNat := by
  rw [Meaning.ofSymbol] at h
  split at h
  · next hsymbol =>
    rw [← Meaning.octet.inj h]
    exact (UInt8.toNat_ofNat_of_lt' hsymbol).symm
  · split at h <;> cases h

theorem meaning_eq_stop {symbol : Nat} (h : Meaning.ofSymbol symbol = .stop) :
    symbol = endOfBlock := by
  rw [Meaning.ofSymbol] at h
  split at h
  · cases h
  · split at h
    · assumption
    · cases h

theorem meaning_eq_length {symbol index : Nat} (h : Meaning.ofSymbol symbol = .length index) :
    symbol = firstLengthSymbol + index := by
  rw [Meaning.ofSymbol] at h
  split at h
  · cases h
  · next hlarge =>
    split at h
    · cases h
    · next hother =>
      have hindex := Meaning.length.inj h
      simp only [endOfBlock] at hlarge hother
      simp only [firstLengthSymbol] at hindex ⊢
      omega

section tokens

variable {literals distances : Code}

theorem exists_bits_of_readCopy {index : Nat} {token : Token} {word : List Bool} {s after : Source}
    (hword : (firstLengthSymbol + index, word) ∈ literals.tree.words)
    (h : readCopy distances index s = .ok (token, after)) :
    ∃ bits, WritesToken literals distances token (word ++ bits) ∧ s.Passes bits after := by
  obtain ⟨⟨length, s1⟩, h1, h⟩ := exists_of_bind_eq_ok h
  obtain ⟨⟨symbol, s2⟩, h2, h⟩ := exists_of_bind_eq_ok h
  obtain ⟨⟨distance, s3⟩, h3, h⟩ := exists_of_bind_eq_ok h
  obtain ⟨rfl, rfl⟩ := Prod.mk.inj (Except.ok.inj h)
  obtain ⟨extra, hlength, hpasses⟩ := exists_writesSlot_of_readSlot h1
  obtain ⟨word', hword', hpasses'⟩ := exists_word_of_read h2
  obtain ⟨extra', hdistance, hpasses''⟩ := exists_writesSlot_of_readSlot h3
  exact ⟨_, .copy hword hlength hword' hdistance, hpasses.trans (hpasses'.trans hpasses'')⟩

theorem exists_writesTokens_of_readTokens {done all : Array Token} {s after : Source}
    (h : readTokens literals distances done s = .ok (all, after)) :
    ∃ tokens bits, all = (done.toList ++ tokens).toArray ∧
      WritesTokens literals distances tokens bits ∧ s.Passes bits after := by
  fun_induction readTokens literals distances done s with
  | case1 => cases h
  | case2 done s symbol middle hread octet hmeaning ih =>
    obtain ⟨word, hword, hpasses⟩ := exists_word_of_read hread
    obtain rfl := meaning_eq_octet hmeaning
    obtain ⟨tokens, bits, rfl, htokens, hpasses'⟩ := ih h
    exact ⟨_, _, by simp, .cons (.literal hword) htokens, hpasses.trans hpasses'⟩
  | case3 done s symbol middle hread hmeaning =>
    obtain ⟨rfl, rfl⟩ := Prod.mk.inj (Except.ok.inj h)
    obtain ⟨word, hword, hpasses⟩ := exists_word_of_read hread
    obtain rfl := meaning_eq_stop hmeaning
    exact ⟨[], word, by simp, .stop hword, hpasses⟩
  | case4 => cases h
  | case5 done s symbol middle hread index hmeaning token last hcopy ih =>
    obtain ⟨word, hword, hpasses⟩ := exists_word_of_read hread
    obtain rfl := meaning_eq_length hmeaning
    obtain ⟨bits, htoken, hpasses'⟩ := exists_bits_of_readCopy hword hcopy
    obtain ⟨tokens, bits', rfl, htokens, hpasses''⟩ := ih h
    exact ⟨_, _, by simp, .cons htoken htokens, (hpasses.trans hpasses').trans hpasses''⟩

end tokens

/-! ## Descriptions of codes -/

theorem exists_numbers_of_readNumbers {width count : Nat} {numbers : List Nat} {s after : Source}
    (h : readNumbers width count s = .ok (numbers, after)) :
    numbers.length = count ∧ (∀ number ∈ numbers, number < 2 ^ width) ∧
      s.Passes (numbers.flatMap (toBits width)) after := by
  induction count generalizing s numbers with
  | zero =>
    obtain ⟨rfl, rfl⟩ := Prod.mk.inj (Except.ok.inj h)
    exact ⟨rfl, List.forall_mem_nil _, .refl _⟩
  | succ count ih =>
    obtain ⟨⟨number, s1⟩, h1, h⟩ := exists_of_bind_eq_ok h
    obtain ⟨⟨rest, s2⟩, h2, h⟩ := exists_of_bind_eq_ok h
    obtain ⟨rfl, rfl⟩ := Prod.mk.inj (Except.ok.inj h)
    obtain ⟨hnumber, hpasses⟩ := passes_of_take h1
    obtain ⟨rfl, hrest, hpasses'⟩ := ih h2
    refine ⟨rfl, List.forall_mem_cons.2 ⟨hnumber, hrest⟩, ?_⟩
    rw [List.flatMap_cons]
    exact hpasses.trans hpasses'

section lengths

variable {code : Code}

theorem exists_more_of_readRepeat {width least length : Nat} {run : List Nat} {s after : Source}
    (h : readRepeat width least length s = .ok (run, after)) :
    ∃ more, more < 2 ^ width ∧ run = List.replicate (least + more) length ∧
      s.Passes (toBits width more) after := by
  obtain ⟨⟨more, s1⟩, h1, h⟩ := exists_of_bind_eq_ok h
  obtain ⟨rfl, rfl⟩ := Prod.mk.inj (Except.ok.inj h)
  obtain ⟨hmore, hpasses⟩ := passes_of_take h1
  exact ⟨more, hmore, rfl, hpasses⟩

/-- An entry is one that the format has, for the length code has no further symbols. -/
theorem exists_writesRun_of_readLengthRun (hsymbols : ∀ row ∈ code.tree.words, row.1 < 19)
    {last : Option Nat} {run : List Nat} {s after : Source}
    (h : readLengthRun code last s = .ok (run, after)) :
    ∃ bits, WritesRun code last run bits ∧ s.Passes bits after := by
  rw [readLengthRun_eq] at h
  obtain ⟨⟨symbol, s1⟩, h1, h⟩ := exists_of_bind_eq_ok h
  obtain ⟨word, hword, hpasses⟩ := exists_word_of_read h1
  have hsymbol : symbol < 19 := hsymbols _ hword
  dsimp only at h
  unfold readEntry at h
  split at h
  · next hlength =>
    obtain ⟨rfl, rfl⟩ := Prod.mk.inj (Except.ok.inj h)
    exact ⟨word, .single hlength hword, hpasses⟩
  · split at h
    · next hagain =>
      subst hagain
      split at h
      · cases h
      · obtain ⟨more, hmore, rfl, hpasses'⟩ := exists_more_of_readRepeat h
        exact ⟨_, .again rfl hmore hword, hpasses.trans hpasses'⟩
    · split at h
      · next hzeros =>
        subst hzeros
        obtain ⟨more, hmore, rfl, hpasses'⟩ := exists_more_of_readRepeat h
        exact ⟨_, .zeros hmore hword, hpasses.trans hpasses'⟩
      · obtain rfl : symbol = 18 := by omega
        obtain ⟨more, hmore, rfl, hpasses'⟩ := exists_more_of_readRepeat h
        exact ⟨_, .manyZeros hmore hword, hpasses.trans hpasses'⟩

theorem exists_writesLengths_of_readLengths (hsymbols : ∀ row ∈ code.tree.words, row.1 < 19)
    {total : Nat} {done : Array Nat} {all : List Nat} {s after : Source}
    (h : readLengths code total done s = .ok (all, after)) :
    all.length = total ∧ ∃ bits, WritesLengths code done.toList all bits ∧ s.Passes bits after := by
  fun_induction readLengths code total done s with
  | case1 done s hdone =>
    obtain ⟨rfl, rfl⟩ := Prod.mk.inj (Except.ok.inj h)
    exact ⟨hdone, [], .nil _, .refl _⟩
  | case2 => cases h
  | case3 => cases h
  | case4 done s _ _ run middle hrun ih =>
    obtain ⟨front, hwrites, hpasses⟩ := exists_writesRun_of_readLengthRun hsymbols hrun
    obtain ⟨htotal, back, hrest, hpasses'⟩ := ih h
    rw [← Array.getLast?_toList] at hwrites
    rw [Array.toList_appendList] at hrest
    exact ⟨htotal, _, .cons hwrites hrest, hpasses.trans hpasses'⟩

end lengths

theorem exists_writesCodes_of_readCodes {codes : Code × Code} {s after : Source}
    (h : readCodes s = .ok (codes, after)) :
    ∃ bits, WritesCodes codes bits ∧ s.Passes bits after := by
  obtain ⟨⟨literalCount, s1⟩, h1, h⟩ := exists_of_bind_eq_ok h
  obtain ⟨⟨distanceCount, s2⟩, h2, h⟩ := exists_of_bind_eq_ok h
  obtain ⟨⟨lengthCount, s3⟩, h3, h⟩ := exists_of_bind_eq_ok h
  dsimp only at h
  split at h
  · cases h
  · next hfew =>
    obtain ⟨⟨written, s4⟩, h4, h⟩ := exists_of_bind_eq_ok h
    obtain ⟨lengthCode, hlengthCode, h⟩ := exists_of_bind_eq_ok h
    obtain ⟨⟨lengths, s5⟩, h5, h⟩ := exists_of_bind_eq_ok h
    obtain ⟨literals, hliterals, h⟩ := exists_of_bind_eq_ok h
    obtain ⟨distances, hdistances, h⟩ := exists_of_bind_eq_ok h
    obtain ⟨rfl, rfl⟩ := Prod.mk.inj (Except.ok.inj h)
    obtain ⟨hliteralCount, hpasses1⟩ := passes_of_take h1
    obtain ⟨hdistanceCount, hpasses2⟩ := passes_of_take h2
    obtain ⟨hlengthCount, hpasses3⟩ := passes_of_take h3
    obtain ⟨hwritten, hsmall, hpasses4⟩ := exists_numbers_of_readNumbers h4
    obtain ⟨hcanonical, hfull⟩ := Code.complete?_eq_ok_iff.1 hlengthCode
    have hsymbols : ∀ row ∈ lengthCode.tree.words, row.1 < 19 := fun row hrow =>
      Nat.lt_of_lt_of_eq (Code.lt_of_mem_words hcanonical hrow) (by
        rw [inSymbolOrder, List.length_map, List.length_range]
        rfl)
    obtain ⟨htotal, bits, hlengths, hpasses5⟩ := exists_writesLengths_of_readLengths hsymbols h5
    rw [Bool.or_eq_true, decide_eq_true_eq, decide_eq_true_eq, not_or] at hfew
    have hfront : (lengths.take (literalCount + 257)).length = literalCount + 257 := by
      rw [List.length_take, htotal]
      omega
    have hback : (lengths.drop (literalCount + 257)).length = distanceCount + 1 := by
      rw [List.length_drop, htotal]
      omega
    rw [← List.take_append_drop (literalCount + 257) lengths] at hlengths
    have hcodes := WritesCodes.mk ⟨by omega, by omega⟩ ⟨by omega, by omega⟩
      ⟨by omega, show written.length ≤ 19 by omega⟩ hsmall hcanonical hfull
      hlengths (Code.canonical?_eq_ok_iff.1 hliterals) (Code.canonical?_eq_ok_iff.1 hdistances)
    rw [hfront, hback, hwritten, Nat.add_sub_cancel, Nat.add_sub_cancel, Nat.add_sub_cancel]
      at hcodes
    exact ⟨_, hcodes, hpasses1.trans (hpasses2.trans (hpasses3.trans (hpasses4.trans hpasses5)))⟩

/-! ## Blocks -/

/-- What a block of octets as they are passes over is the filling of the octet it begins in. -/
theorem exists_writesBody_of_readPlain {before : Nat} {done all : Array Token} {s after : Source}
    (hs : s.At before) (h : readPlain done s.align = .ok (all, after)) :
    ∃ tokens body, all = (done.toList ++ tokens).toArray ∧ WritesBody before 0 tokens body ∧
      s.Passes body after := by
  rw [readPlain] at h
  split at h
  · next a b c d rest hrest =>
    dsimp only at h
    split at h
    · next hsum =>
      split at h
      · next hlength =>
        obtain ⟨rfl, rfl⟩ := Prod.mk.inj (Except.ok.inj h)
        have hbody : WritesBody before 0 _ (s.pending ++ unpack ([a, b] ++ [c, d] ++
            rest.take (Bytes.ofLittleEndian [a, b]))) :=
          .plain hs.pending_lt hs.aligned rfl rfl hlength.symm (by rw [hlength, hsum])
        have hsplit : s.rest = [a, b] ++ [c, d] ++ rest.take (Bytes.ofLittleEndian [a, b]) ++
            rest.drop (Bytes.ofLittleEndian [a, b]) := by
          rw [List.append_assoc, List.take_append_drop]
          exact hrest
        refine ⟨_, _, foldl_push_literal _ _, hbody, ?_, fun _ => Nat.zero_lt_succ 7⟩
        rw [Source.bits, hsplit, unpack_append, ← List.append_assoc]
        rfl
      · cases h
    · cases h
  · cases h

theorem exists_writesBody_of_readBody {kind before : Nat} {done all : Array Token}
    {s after : Source} (hs : s.At before) (h : readBody kind done s = .ok (all, after)) :
    ∃ tokens body, all = (done.toList ++ tokens).toArray ∧ WritesBody before kind tokens body ∧
      s.Passes body after := by
  match kind with
  | 0 => exact exists_writesBody_of_readPlain hs h
  | 1 =>
    obtain ⟨tokens, bits, hall, htokens, hpasses⟩ := exists_writesTokens_of_readTokens h
    exact ⟨tokens, bits, hall, .fixed htokens, hpasses⟩
  | 2 =>
    obtain ⟨⟨codes, s1⟩, h1, h⟩ := exists_of_bind_eq_ok h
    obtain ⟨description, hcodes, hpasses⟩ := exists_writesCodes_of_readCodes h1
    obtain ⟨tokens, bits, hall, htokens, hpasses'⟩ := exists_writesTokens_of_readTokens h
    exact ⟨tokens, _, hall, .described hcodes htokens, hpasses.trans hpasses'⟩
  | _ + 3 => cases h

theorem exists_writesBlocks_of_readBlocks {before : Nat} {done all : Array Token}
    {s after : Source} (hs : s.At before) (h : readBlocks done s = .ok (all, after)) :
    ∃ tokens bits, all = (done.toList ++ tokens).toArray ∧ WritesBlocks before tokens bits ∧
      s.Passes bits after := by
  fun_induction readBlocks done s generalizing before with
  | case1 => cases h
  | case2 => cases h
  | case3 => cases h
  | case4 done s marked kind opened hkind all' last hbody hmark =>
    obtain ⟨rfl, rfl⟩ := Prod.mk.inj (Except.ok.inj h)
    have hpasses : s.Passes (true :: toBits 2 kind) opened :=
      (passes_of_take hmark).2.trans (passes_of_take hkind).2
    have hopened : opened.At (before + 3) := hs.step hpasses.bits_eq hpasses.pending_lt
    obtain ⟨tokens, body, hall, hwrites, hpasses'⟩ := exists_writesBody_of_readBody hopened hbody
    exact ⟨tokens, _, hall, .last hwrites, hpasses.trans hpasses'⟩
  | case5 done s mark marked hmark kind opened hkind all' last hbody hmore ih =>
    obtain rfl : mark = 0 := by
      have hmark' : mark < 2 ^ 1 := (passes_of_take hmark).1
      omega
    have hpasses : s.Passes (false :: toBits 2 kind) opened :=
      (passes_of_take hmark).2.trans (passes_of_take hkind).2
    have hopened : opened.At (before + 3) := hs.step hpasses.bits_eq hpasses.pending_lt
    obtain ⟨tokens, body, rfl, hwrites, hpasses'⟩ := exists_writesBody_of_readBody hopened hbody
    have hlast : last.At (before + 3 + body.length) :=
      hopened.step hpasses'.bits_eq hpasses'.pending_lt
    obtain ⟨later, bits, rfl, hrest, hpasses''⟩ := ih hlast h
    refine ⟨tokens ++ later, _, by simp, .more hwrites hrest, ?_⟩
    exact hpasses.trans (hpasses'.trans hpasses'')

/-! ## Streams -/

/-- Octets whose bits come last do so themselves. -/
theorem exists_front_of_unpack {data back : Bytes} {front : List Bool}
    (h : unpack data = front ++ unpack back) : ∃ stream, data = stream ++ back ∧ unpack stream = front := by
  have hlength := congrArg List.length h
  rw [List.length_append, length_unpack, length_unpack] at hlength
  have hsplit := List.take_append_drop (data.length - back.length) data
  rw [← hsplit, unpack_append] at h
  have hdrop : (unpack (data.drop (data.length - back.length))).length = (unpack back).length := by
    rw [length_unpack, length_unpack, List.length_drop]
    omega
  obtain ⟨hfront, hback⟩ := List.append_inj' h hdrop
  exact ⟨_, hsplit.symm.trans (congrArg _ (unpack_inj hback)), hfront⟩

/-- **Octets are read if they begin with a whole stream**, and as just its tokens. -/
theorem read_eq_ok_iff {data rest : Bytes} {tokens : List Token} :
    read data = .ok (tokens, rest) ↔ ∃ stream, data = stream ++ rest ∧ IsStream tokens stream := by
  constructor
  · intro h
    rw [read] at h
    split at h
    · cases h
    · next all after hblocks =>
      obtain ⟨rfl, rfl⟩ := Prod.mk.inj (Except.ok.inj h)
      obtain ⟨tokens, bits, rfl, hwrites, hbits, hpending⟩ :=
        exists_writesBlocks_of_readBlocks (at_ofBytes data) hblocks
      have hdata : unpack data = bits ++ after.pending ++ unpack after.rest := by
        rw [List.append_assoc]
        exact hbits
      obtain ⟨stream, hstream, hunpack⟩ := exists_front_of_unpack hdata
      exact ⟨stream, hstream, bits, after.pending, hunpack, hpending (Nat.zero_lt_succ 7), hwrites⟩
  · rintro ⟨stream, rfl, hstream⟩
    exact read_of_isStream hstream rest

/-- Octets begin with one stream at most. -/
theorem isStream_unique {tokens tokens' : List Token} {stream stream' rest rest' : Bytes}
    (h : IsStream tokens stream) (h' : IsStream tokens' stream')
    (heq : stream ++ rest = stream' ++ rest') : stream = stream' ∧ tokens = tokens' := by
  have hread := read_of_isStream h rest
  rw [heq, read_of_isStream h' rest'] at hread
  obtain ⟨rfl, rfl⟩ := Prod.mk.inj (Except.ok.inj hread)
  exact ⟨List.append_cancel_right heq, rfl⟩

end ReadThrough.Deflate
