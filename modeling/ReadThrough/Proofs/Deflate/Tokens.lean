import ReadThrough.Deflate.Words
import ReadThrough.Proofs.Deflate.Format

/-!
# Tokens are written in words

`Words.body` writes tokens as the format has it (`writesTokens_body`), in any two codes that have
words for all of them. The fixed codes have words for every token (`cover_fixed`).

A token can be written if its copy is within the range of the slots (`Token.Writable`). The slots
of an alphabet lie side by side and leave out no value (`Tiles`), so that a value is in the last
slot that starts at or below it.
-/

namespace ReadThrough.Deflate

/-! ## Slots -/

/-- The slots lie side by side, in order, and reach at least up to `last`. -/
def Tiles : List Slot → Nat → Prop
  | [], _ => False
  | [slot], last => last < slot.first + 2 ^ slot.extra
  | slot :: next :: slots, last =>
    slot.first < next.first ∧ next.first ≤ slot.first + 2 ^ slot.extra ∧ Tiles (next :: slots) last

theorem tiles_lengthSlots : Tiles lengthSlots.toList maxCopy := by
  simp [lengthSlots, Tiles, maxCopy]

theorem tiles_distanceSlots : Tiles distanceSlots.toList window := by
  simp [distanceSlots, Tiles, window]

theorem Tiles.first_lt {slot : Slot} {slots : List Slot} {last : Nat}
    (h : Tiles (slot :: slots) last) {other : Slot} (hmem : other ∈ slots) :
    slot.first < other.first := by
  induction slots generalizing slot with
  | nil => cases hmem
  | cons next slots ih =>
    obtain ⟨hnext, -, hrest⟩ := h
    rcases List.mem_cons.1 hmem with rfl | hmem
    · exact hnext
    · exact Nat.lt_trans hnext (ih hrest hmem)

/-- The last slot that starts at or below a value is the one that the value is in. -/
theorem Tiles.exists_slot {slot : Slot} {slots : List Slot} {last value : Nat}
    (h : Tiles (slot :: slots) last) (hfirst : slot.first ≤ value) (hlast : value ≤ last) :
    ∃ found, (slot :: slots)[(slot :: slots).countP (·.first ≤ value) - 1]? = some found ∧
      found.first ≤ value ∧ value < found.first + 2 ^ found.extra := by
  induction slots generalizing slot with
  | nil =>
    refine ⟨slot, ?_, hfirst, Nat.lt_of_le_of_lt hlast h⟩
    simp [hfirst]
  | cons next slots ih =>
    obtain ⟨-, hnext, hrest⟩ := h
    have hcount : (slot :: next :: slots).countP (·.first ≤ value) =
        (next :: slots).countP (·.first ≤ value) + 1 :=
      List.countP_cons_of_pos (by simpa using hfirst)
    -- if the next slot starts beyond the value, so do all after it
    by_cases hreached : next.first ≤ value
    · obtain ⟨found, hfound, hin⟩ := ih hrest hreached
      have hpositive : 0 < (next :: slots).countP (·.first ≤ value) :=
        List.countP_pos_iff.2 ⟨next, List.mem_cons_self, by simpa using hreached⟩
      refine ⟨found, ?_, hin⟩
      rw [hcount, Nat.add_sub_cancel, ← Nat.sub_add_cancel hpositive, List.getElem?_cons_succ]
      exact hfound
    · have hnone : (next :: slots).countP (·.first ≤ value) = 0 := by
        refine List.countP_eq_zero.2 fun other hmem => ?_
        rcases List.mem_cons.1 hmem with rfl | hmem
        · simpa using hreached
        · have := hrest.first_lt hmem
          simp only [decide_eq_true_eq]
          omega
      refine ⟨slot, ?_, hfirst, by omega⟩
      rw [hcount, hnone]
      rfl

section slots

variable {slots : Array Slot} {last value : Nat}

theorem exists_slotOf (h : Tiles slots.toList last)
    (hfirst : ∀ slot ∈ slots.toList.head?, slot.first ≤ value) (hlast : value ≤ last) :
    ∃ slot, slots[slotOf slots value]? = some slot ∧ slot.first ≤ value ∧
      value < slot.first + 2 ^ slot.extra := by
  rw [slotOf, ← Array.countP_toList, ← Array.getElem?_toList]
  cases hlist : slots.toList with
  | nil =>
    rw [hlist] at h
    cases h
  | cons slot rest =>
    rw [hlist] at h hfirst
    exact h.exists_slot (hfirst slot rfl) hlast

theorem slotOf_lt (h : Tiles slots.toList last)
    (hfirst : ∀ slot ∈ slots.toList.head?, slot.first ≤ value) (hlast : value ≤ last) :
    slotOf slots value < slots.size := by
  obtain ⟨slot, hslot, -⟩ := exists_slotOf h hfirst hlast
  exact (Array.getElem?_eq_some_iff.1 hslot).1

/-- A value is written in the extra bits of its slot. -/
theorem writesSlot_slotExtra (h : Tiles slots.toList last)
    (hfirst : ∀ slot ∈ slots.toList.head?, slot.first ≤ value) (hlast : value ≤ last) :
    WritesSlot slots (slotOf slots value) value (slotExtra slots value) := by
  obtain ⟨slot, hslot, hstart, hend⟩ := exists_slotOf h hfirst hlast
  have hextra : slotExtra slots value = toBits slot.extra (value - slot.first) := by
    unfold slotExtra
    rw [Array.getD_eq_getD_getElem?, hslot]
    rfl
  have hbeyond : value - slot.first < 2 ^ slot.extra := by omega
  have hwrites := WritesSlot.mk hslot hbeyond
  rw [Nat.add_sub_cancel' hstart] at hwrites
  rwa [hextra]

end slots

/-! ## Words -/

theorem word_ne_nil {code : Code} {symbol : Nat} {word : List Bool}
    (h : (symbol, word) ∈ code.tree.words) : word ≠ [] := by
  rcases List.mem_append.1 h with h | h <;>
  · obtain ⟨_, -, heq⟩ := List.mem_map.1 h
    obtain ⟨-, rfl⟩ := Prod.mk.inj heq
    exact List.cons_ne_nil _ _

theorem getD_wordTable (code : Code) {count symbol : Nat} (h : symbol < count) :
    (wordTable code count).getD symbol [] = (code.tree.words.lookup symbol).getD [] := by
  unfold wordTable
  simp [Array.getD_eq_getD_getElem?, h]

/-- A word that is there is one of the code. -/
theorem mem_words_of_getD_wordTable {code : Code} {count symbol : Nat}
    (h : (wordTable code count).getD symbol [] ≠ []) :
    (symbol, (wordTable code count).getD symbol []) ∈ code.tree.words := by
  by_cases hsymbol : symbol < count
  · rw [getD_wordTable code hsymbol] at h ⊢
    cases hword : code.tree.words.lookup symbol with
    | none =>
      rw [hword] at h
      exact absurd rfl h
    | some word =>
      obtain ⟨front, back, hwords, -⟩ := List.lookup_eq_some_iff.1 hword
      rw [hwords]
      exact List.mem_append_right _ List.mem_cons_self
  · refine absurd ?_ h
    unfold wordTable
    simp [Array.getD_eq_getD_getElem?, hsymbol]

/-- A symbol of the code has a word. -/
theorem getD_wordTable_ne_nil {code : Code} {count symbol : Nat} (hsymbol : symbol < count)
    (hmem : symbol ∈ code.tree.words.map Prod.fst) :
    (wordTable code count).getD symbol [] ≠ [] := by
  rw [getD_wordTable code hsymbol]
  cases hword : code.tree.words.lookup symbol with
  | none =>
    obtain ⟨⟨_, word⟩, hrow, rfl⟩ := List.mem_map.1 hmem
    have hother := List.lookup_eq_none_iff.1 hword _ hrow
    simp at hother
  | some word =>
    obtain ⟨front, back, hwords, -⟩ := List.lookup_eq_some_iff.1 hword
    have hrow : (symbol, word) ∈ code.tree.words := by
      rw [hwords]
      exact List.mem_append_right _ List.mem_cons_self
    exact word_ne_nil hrow

section words

variable {literals distances : Code}

theorem literal_ofCodes (literals distances : Code) (symbol : Nat) :
    (Words.ofCodes literals distances).literal symbol =
      (wordTable literals Words.literalSymbols).getD symbol [] := by
  rw [Words.literal, Words.ofCodes]

theorem distance_ofCodes (literals distances : Code) (symbol : Nat) :
    (Words.ofCodes literals distances).distance symbol =
      (wordTable distances Words.distanceSymbols).getD symbol [] := by
  rw [Words.distance, Words.ofCodes]

theorem mem_words_literal {symbol : Nat}
    (h : (!((Words.ofCodes literals distances).literal symbol).isEmpty) = true) :
    (symbol, (Words.ofCodes literals distances).literal symbol) ∈ literals.tree.words := by
  rw [literal_ofCodes, Bool.not_eq_true'] at h
  rw [literal_ofCodes]
  exact mem_words_of_getD_wordTable (List.isEmpty_eq_false_iff.1 h)

theorem mem_words_distance {symbol : Nat}
    (h : (!((Words.ofCodes literals distances).distance symbol).isEmpty) = true) :
    (symbol, (Words.ofCodes literals distances).distance symbol) ∈ distances.tree.words := by
  rw [distance_ofCodes, Bool.not_eq_true'] at h
  rw [distance_ofCodes]
  exact mem_words_of_getD_wordTable (List.isEmpty_eq_false_iff.1 h)

/-! ## Tokens -/

/-- The token is an octet, or a copy in the range of the format. -/
def Token.Writable : Token → Prop
  | literal _ => True
  | copy length distance => (minCopy ≤ length ∧ length ≤ maxCopy) ∧ 1 ≤ distance ∧ distance ≤ window

theorem minCopy_le_of_head {length : Nat} (h : minCopy ≤ length) :
    ∀ slot ∈ lengthSlots.toList.head?, slot.first ≤ length := by
  intro slot hslot
  obtain rfl := Option.some.inj hslot
  exact h

theorem one_le_of_head {distance : Nat} (h : 1 ≤ distance) :
    ∀ slot ∈ distanceSlots.toList.head?, slot.first ≤ distance := by
  intro slot hslot
  obtain rfl := Option.some.inj hslot
  exact h

/-- A token is written in its words. -/
theorem writesToken_bits {token : Token} (hwritable : token.Writable)
    (hwords : (Words.ofCodes literals distances).hasToken token = true) :
    WritesToken literals distances token (token.bits (Words.ofCodes literals distances)) := by
  obtain ⟨hliteral, hdistance⟩ := Bool.and_eq_true_iff.1 hwords
  cases token with
  | literal octet => exact .literal (mem_words_literal hliteral)
  | copy length distance =>
    obtain ⟨⟨hmin, hmax⟩, hone, hwindow⟩ := hwritable
    rw [Token.bits, List.append_assoc]
    exact .copy (mem_words_literal hliteral)
      (writesSlot_slotExtra tiles_lengthSlots (minCopy_le_of_head hmin) hmax)
      (mem_words_distance hdistance)
      (writesSlot_slotExtra tiles_distanceSlots (one_le_of_head hone) hwindow)

/-- Tokens are written one after another, and then the end of their block. -/
theorem writesTokens_body {tokens : List Token}
    (hcover : (Words.ofCodes literals distances).cover tokens = true)
    (hwritable : ∀ token ∈ tokens, token.Writable) :
    WritesTokens literals distances tokens ((Words.ofCodes literals distances).body tokens) := by
  obtain ⟨hstop, htokens⟩ := Bool.and_eq_true_iff.1 hcover
  induction tokens with
  | nil =>
    rw [Words.body, List.flatMap_nil, List.nil_append]
    exact .stop (mem_words_literal hstop)
  | cons token tokens ih =>
    obtain ⟨hwords, hrest⟩ := Bool.and_eq_true_iff.1 htokens
    obtain ⟨htoken, htokens'⟩ := List.forall_mem_cons.1 hwritable
    have hcover' : (Words.ofCodes literals distances).cover tokens = true :=
      Bool.and_eq_true_iff.2 ⟨hstop, hrest⟩
    rw [Words.body, List.flatMap_cons, List.append_assoc]
    exact .cons (writesToken_bits htoken hwords) (ih hcover' htokens' hrest)

theorem Token.Writable.symbol_lt {token : Token} (h : token.Writable) :
    token.symbol < maxLiteralSymbols := by
  cases token with
  | literal octet => exact Nat.lt_trans octet.toNat_lt (by decide)
  | copy length distance =>
    obtain ⟨⟨hmin, hmax⟩, -⟩ := h
    have hslot : slotOf lengthSlots length < 29 :=
      slotOf_lt tiles_lengthSlots (minCopy_le_of_head hmin) hmax
    show 257 + slotOf lengthSlots length < 286
    omega

theorem Token.Writable.distanceSymbol_lt {token : Token} (h : token.Writable) {symbol : Nat}
    (hsymbol : token.distanceSymbol? = some symbol) : symbol < maxDistanceSymbols := by
  cases token with
  | literal octet => cases hsymbol
  | copy length distance =>
    obtain ⟨-, hone, hwindow⟩ := h
    obtain rfl := Option.some.inj hsymbol
    exact slotOf_lt tiles_distanceSlots (one_le_of_head hone) hwindow

/-- Codes with the symbols of some tokens have words for them. -/
theorem cover_of_words {tokens : List Token}
    (hstop : endOfBlock ∈ literals.tree.words.map Prod.fst)
    (hliterals : ∀ token ∈ tokens, token.symbol ∈ literals.tree.words.map Prod.fst)
    (hdistances : ∀ token ∈ tokens, ∀ symbol, token.distanceSymbol? = some symbol →
      symbol ∈ distances.tree.words.map Prod.fst)
    (hwritable : ∀ token ∈ tokens, token.Writable) :
    (Words.ofCodes literals distances).cover tokens = true := by
  have hliteral : ∀ symbol < Words.literalSymbols, symbol ∈ literals.tree.words.map Prod.fst →
      (!((Words.ofCodes literals distances).literal symbol).isEmpty) = true := by
    intro symbol h hmem
    rw [literal_ofCodes, Bool.not_eq_true']
    exact List.isEmpty_eq_false_iff.2 (getD_wordTable_ne_nil h hmem)
  have hdistance : ∀ symbol < Words.distanceSymbols, symbol ∈ distances.tree.words.map Prod.fst →
      (!((Words.ofCodes literals distances).distance symbol).isEmpty) = true := by
    intro symbol h hmem
    rw [distance_ofCodes, Bool.not_eq_true']
    exact List.isEmpty_eq_false_iff.2 (getD_wordTable_ne_nil h hmem)
  refine Bool.and_eq_true_iff.2 ⟨hliteral endOfBlock (by decide) hstop, ?_⟩
  refine List.all_eq_true.2 fun token hmem => Bool.and_eq_true_iff.2 ⟨?_, ?_⟩
  · -- 286 literal and 30 distance symbols mean something, fewer than have words
    refine hliteral _ (Nat.lt_trans (hwritable token hmem).symbol_lt ?_) (hliterals token hmem)
    decide
  · cases hsymbol : token.distanceSymbol? with
    | none => rfl
    | some symbol =>
      refine hdistance _ (Nat.lt_trans ((hwritable token hmem).distanceSymbol_lt hsymbol) ?_)
        (hdistances token hmem symbol hsymbol)
      decide

end words

/-! ## The fixed codes -/

/-- The symbols of the fixed literal code, in order of their words. -/
theorem symbols_fixedLiteralCode :
    fixedLiteralCode.tree.words.map Prod.fst =
      List.range' 256 24 ++ List.range' 0 144 ++ List.range' 280 8 ++ List.range' 144 112 := by
  decide +kernel

/-- The symbols of the fixed distance code, in order of their words. -/
theorem symbols_fixedDistanceCode :
    fixedDistanceCode.tree.words.map Prod.fst = List.range' 0 32 := by
  decide +kernel

/-- The fixed codes have words for whatever can be written. -/
theorem cover_fixed {tokens : List Token} (hwritable : ∀ token ∈ tokens, token.Writable) :
    (Words.ofCodes fixedLiteralCode fixedDistanceCode).cover tokens = true := by
  have hliteral : ∀ symbol < maxLiteralSymbols,
      symbol ∈ fixedLiteralCode.tree.words.map Prod.fst := by
    intro symbol h
    rw [symbols_fixedLiteralCode]
    simp only [List.mem_append, List.mem_range'_1]
    simp only [maxLiteralSymbols] at h
    omega
  refine cover_of_words (hliteral _ (by decide))
    (fun token hmem => hliteral _ (hwritable token hmem).symbol_lt)
    (fun token hmem symbol hsymbol => ?_) hwritable
  have hlt := (hwritable token hmem).distanceSymbol_lt hsymbol
  rw [symbols_fixedDistanceCode, List.mem_range'_1]
  simp only [maxDistanceSymbols] at hlt
  omega

end ReadThrough.Deflate
