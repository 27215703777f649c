import ReadThrough.Deflate.Reader
import ReadThrough.Proofs.Deflate.Reading

/-!
# Readers, part by part

The readers of the format are taken apart here, once for all that is said of them: each is one
reader after another, or does one step and goes on.

* `readTokens_stop`, `readTokens_octet`, `readTokens_copy` — a step of the reader of tokens
* `reads_readLengths_cons` — a step of the reader of word lengths
* `reads_readCodes` — a description of two codes is read if its parts are
* `readBlocks_of_readBody` — a step of the reader of blocks
-/

namespace ReadThrough.Deflate

/-! ## Tokens -/

section tokens

variable {literals distances : Code}

theorem readCopy_eq (distances : Code) (index : Nat) :
    readCopy distances index = andThen (readSlot lengthSlots index) fun length =>
      andThen distances.read fun symbol =>
        andThen (readSlot distanceSlots symbol) fun distance => give (.copy length distance) :=
  rfl

/-- The meaning of a token's first symbol. -/
theorem meaning_octet (octet : UInt8) : Meaning.ofSymbol octet.toNat = .octet octet := by
  have hoctet : octet.toNat < endOfBlock := octet.toNat_lt
  rw [Meaning.ofSymbol, if_pos hoctet, UInt8.ofNat_toNat]

theorem meaning_length (index : Nat) :
    Meaning.ofSymbol (firstLengthSymbol + index) = .length index := by
  have hlarge : ¬ firstLengthSymbol + index < endOfBlock := by
    simp only [firstLengthSymbol, endOfBlock]
    omega
  have hother : firstLengthSymbol + index ≠ endOfBlock := by
    simp only [firstLengthSymbol, endOfBlock]
    omega
  rw [Meaning.ofSymbol, if_neg hlarge, if_neg hother, Nat.add_sub_cancel_left]

/-- What is done behind a word depends on the meaning of its symbol. -/
theorem readTokens_of_read {s after : Source} {symbol : Nat} (done : Array Token)
    (hread : literals.read s = .ok (symbol, after)) :
    readTokens literals distances done s =
      match Meaning.ofSymbol symbol with
      | .octet octet => readTokens literals distances (done.push (.literal octet)) after
      | .stop => .ok (done, after)
      | .length index =>
        match readCopy distances index after with
        | .error fault => .error fault
        | .ok (token, last) => readTokens literals distances (done.push token) last := by
  rw [readTokens]
  split
  · next hfault =>
    rw [hread] at hfault
    cases hfault
  · next hok =>
    obtain ⟨rfl, rfl⟩ := Prod.mk.inj (Except.ok.inj (hread.symm.trans hok))
    cases Meaning.ofSymbol symbol with
    | octet | stop => rfl
    | length index =>
      dsimp only
      split
      · next hfault => rw [hfault]
      · next hcopy => rw [hcopy]

theorem readTokens_stop {s after : Source} {symbol : Nat} (done : Array Token)
    (hread : literals.read s = .ok (symbol, after)) (hmeaning : Meaning.ofSymbol symbol = .stop) :
    readTokens literals distances done s = .ok (done, after) := by
  rw [readTokens_of_read done hread, hmeaning]

theorem readTokens_octet {s after : Source} {symbol : Nat} {octet : UInt8} (done : Array Token)
    (hread : literals.read s = .ok (symbol, after))
    (hmeaning : Meaning.ofSymbol symbol = .octet octet) :
    readTokens literals distances done s =
      readTokens literals distances (done.push (.literal octet)) after := by
  rw [readTokens_of_read done hread, hmeaning]

theorem readTokens_copy {s after last : Source} {symbol index : Nat} {token : Token}
    (done : Array Token) (hread : literals.read s = .ok (symbol, after))
    (hmeaning : Meaning.ofSymbol symbol = .length index)
    (hcopy : readCopy distances index after = .ok (token, last)) :
    readTokens literals distances done s =
      readTokens literals distances (done.push token) last := by
  rw [readTokens_of_read done hread, hmeaning]
  simp only [hcopy]

end tokens

/-! ## Word lengths -/

/-- A run of a length, as long as the next bits say. -/
def readRepeat (width least length : Nat) : Reader (List Nat) :=
  andThen (Source.take width) fun more => give (List.replicate (least + more) length)

/-- What the symbol of an entry stands for. -/
def readEntry (last : Option Nat) (symbol : Nat) : Reader (List Nat) := fun s =>
  if symbol < 16 then give [symbol] s
  else if symbol = 16 then
    match last with
    | none => .error .corrupt
    | some length => readRepeat 2 3 length s
  else if symbol = 17 then readRepeat 3 3 0 s
  else readRepeat 7 11 0 s

theorem readLengthRun_eq (code : Code) (last : Option Nat) :
    readLengthRun code last = andThen code.read (readEntry last) :=
  rfl

theorem reads_single {last : Option Nat} {symbol : Nat} (h : symbol < 16) :
    Reads (readEntry last symbol) [] [symbol] := by
  intro s later hs
  unfold readEntry
  rw [if_pos h]
  exact reads_give _ s later hs

theorem reads_repeat (width least length : Nat) {more : Nat} (hmore : more < 2 ^ width) :
    Reads (readRepeat width least length) (toBits width more)
      (List.replicate (least + more) length) :=
  (reads_take_toBits hmore).andThen_give fun more => List.replicate (least + more) length

theorem readLengths_succ {code : Code} {total : Nat} {done : Array Nat} {run : List Nat}
    {s after : Source} (hmore : done.size < total)
    (hrun : readLengthRun code done.back? s = .ok (run, after)) :
    readLengths code total done s = readLengths code total (done ++ run) after := by
  rw [readLengths, if_neg (Nat.ne_of_lt hmore), if_neg (Nat.not_lt_of_lt hmore)]
  split
  · next hfault =>
    rw [hrun] at hfault
    cases hfault
  · next hok =>
    obtain ⟨rfl, rfl⟩ := Prod.mk.inj (Except.ok.inj (hrun.symm.trans hok))
    rfl

theorem reads_readLengths_nil (code : Code) (done : List Nat) :
    Reads (readLengths code done.length done.toArray) [] done := by
  intro s later hs
  rw [readLengths, if_pos List.size_toArray]
  exact ⟨s, rfl, hs, id⟩

/-- A run is read, and then the lengths behind it. -/
theorem reads_readLengths_cons {code : Code} {done run all : List Nat} {front back : List Bool}
    (hrun : Reads (readLengthRun code done.getLast?) front run) (hpositive : 0 < run.length)
    (hle : (done ++ run).length ≤ all.length)
    (hrest : Reads (readLengths code all.length (done ++ run).toArray) back all) :
    Reads (readLengths code all.length done.toArray) (front ++ back) all := by
  have hmore : done.toArray.size < all.length := by
    rw [List.length_append] at hle
    rw [List.size_toArray]
    omega
  intro s later hs
  rw [List.append_assoc] at hs
  obtain ⟨middle, hmiddle, hbits, hpending⟩ := hrun s _ hs
  obtain ⟨after, hafter, hlater, hpending'⟩ := hrest middle later hbits
  refine ⟨after, ?_, hlater, hpending' ∘ hpending⟩
  rw [readLengths_succ hmore (by rwa [List.back?_toArray]), List.toArray_appendList, hafter]

/-! ## Descriptions of codes -/

theorem readNumbers_succ (width count : Nat) :
    readNumbers width (count + 1) = andThen (Source.take width) fun number =>
      andThen (readNumbers width count) fun numbers => give (number :: numbers) :=
  rfl

theorem reads_readNumbers {width : Nat} {numbers : List Nat}
    (h : ∀ number ∈ numbers, number < 2 ^ width) :
    Reads (readNumbers width numbers.length) (numbers.flatMap (toBits width)) numbers := by
  induction numbers with
  | nil => exact reads_give []
  | cons number numbers ih =>
    obtain ⟨hnumber, hrest⟩ := List.forall_mem_cons.1 h
    rw [List.length_cons, readNumbers_succ, List.flatMap_cons]
    exact (reads_take_toBits hnumber).andThen ((ih hrest).andThen_give (number :: ·))

/-- The codes of lengths that have been read. -/
def readBoth (literalCount : Nat) (lengths : List Nat) : Reader (Code × Code) := fun s => do
  let literals ← Code.canonical? (lengths.take literalCount)
  let distances ← Code.canonical? (lengths.drop literalCount)
  return ((literals, distances), s)

/-- What follows the lengths of the length code. -/
def readListed (literalCount distanceCount : Nat) (written : List Nat) : Reader (Code × Code) :=
  fun s => do
    let lengthCode ← Code.complete? (inSymbolOrder written)
    andThen (readLengths lengthCode (literalCount + distanceCount) #[]) (readBoth literalCount) s

/-- What follows the counts of a description. -/
def readCounted (literalCount distanceCount lengthCount : Nat) : Reader (Code × Code) := fun s =>
  if maxLiteralSymbols < literalCount || maxDistanceSymbols < distanceCount then .error .corrupt
  else andThen (readNumbers 3 (lengthCount + 4)) (readListed literalCount distanceCount) s

theorem readCodes_eq :
    readCodes = andThen (Source.take 5) fun literalCount =>
      andThen (Source.take 5) fun distanceCount =>
        andThen (Source.take 4) fun lengthCount =>
          readCounted (literalCount + 257) (distanceCount + 1) lengthCount :=
  rfl

section codes

variable {literals distances written : List Nat} {lengthCode literalCode distanceCode : Code}
  {bits : List Bool}

theorem reads_readBoth (hliterals : Code.canonical? literals = .ok literalCode)
    (hdistances : Code.canonical? distances = .ok distanceCode) :
    Reads (readBoth literals.length (literals ++ distances)) [] (literalCode, distanceCode) := by
  intro s later hs
  unfold readBoth
  rw [List.take_left, List.drop_left, hliterals, hdistances]
  exact reads_give _ s later hs

theorem reads_readListed (hlengthCode : Code.complete? (inSymbolOrder written) = .ok lengthCode)
    (hlengths : Reads (readLengths lengthCode (literals ++ distances).length #[]) bits
      (literals ++ distances))
    (hliterals : Code.canonical? literals = .ok literalCode)
    (hdistances : Code.canonical? distances = .ok distanceCode) :
    Reads (readListed literals.length distances.length written) bits
      (literalCode, distanceCode) := by
  have hboth := hlengths.andThen (reads_readBoth hliterals hdistances)
  rw [List.append_nil, List.length_append] at hboth
  intro s later hs
  unfold readListed
  rw [hlengthCode]
  exact hboth s later hs

/-- A description is read as two codes if its counts are right and its parts are read. -/
theorem reads_readCodes
    (hliteralCount : 257 ≤ literals.length ∧ literals.length ≤ maxLiteralSymbols)
    (hdistanceCount : 1 ≤ distances.length ∧ distances.length ≤ maxDistanceSymbols)
    (hwritten : 4 ≤ written.length ∧ written.length ≤ lengthCodeOrder.length)
    (hsmall : ∀ length ∈ written, length < 2 ^ 3)
    (hlisted : Reads (readListed literals.length distances.length written) bits
      (literalCode, distanceCode)) :
    Reads readCodes
      (toBits 5 (literals.length - 257) ++ (toBits 5 (distances.length - 1) ++
        (toBits 4 (written.length - 4) ++ (written.flatMap (toBits 3) ++ bits))))
      (literalCode, distanceCode) := by
  obtain ⟨hleast, hmost⟩ := hliteralCount
  obtain ⟨hleast', hmost'⟩ := hdistanceCount
  obtain ⟨hwritten, hwritten'⟩ := hwritten
  have hcounted : Reads (readCounted literals.length distances.length (written.length - 4))
      (written.flatMap (toBits 3) ++ bits) (literalCode, distanceCode) := by
    have hfew : ¬ (maxLiteralSymbols < literals.length ||
        maxDistanceSymbols < distances.length) = true := by
      rw [Bool.or_eq_true, decide_eq_true_eq, decide_eq_true_eq]
      exact fun hmany => hmany.elim (Nat.not_lt_of_le hmost) (Nat.not_lt_of_le hmost')
    intro s later hs
    unfold readCounted
    rw [if_neg hfew, Nat.sub_add_cancel hwritten]
    exact ((reads_readNumbers hsmall).andThen hlisted) s later hs
  simp only [maxLiteralSymbols, maxDistanceSymbols] at hmost hmost'
  have hwritten'' : written.length ≤ 19 := hwritten'
  rw [readCodes_eq]
  refine (reads_take_toBits (by omega)).andThen ((reads_take_toBits (by omega)).andThen
    ((reads_take_toBits (by omega)).andThen ?_))
  rw [Nat.sub_add_cancel hleast, Nat.sub_add_cancel hleast']
  exact hcounted

end codes

/-! ## Blocks -/

/-- The mark and the kind of a block are read, and its body stands behind them. -/
theorem exists_take_eq {s : Source} {kind : Nat} (hkind : kind < 2 ^ 2) {mark : Bool}
    {later : List Bool} (hbits : s.bits = mark :: (toBits 2 kind ++ later)) :
    ∃ marked opened, s.take 1 = .ok (mark.toNat, marked) ∧ marked.take 2 = .ok (kind, opened) ∧
      opened.bits = later ∧ (s.pending.length < 8 → opened.pending.length < 8) := by
  have hfirst : s.bits = [mark] ++ (toBits 2 kind ++ later) := hbits
  obtain ⟨marked, hmarked, hrest, hpending⟩ := reads_take [mark] s _ hfirst
  obtain ⟨opened, hopened, hlater, hpending'⟩ := reads_take_toBits hkind marked _ hrest
  exact ⟨marked, opened, hmarked, hopened, hlater, hpending' ∘ hpending⟩

/-- Behind its mark, its kind and its body a block is followed by others, unless it is the last. -/
theorem readBlocks_of_readBody {mark kind : Nat} {done all : Array Token}
    {s marked opened after : Source} (hmark : s.take 1 = .ok (mark, marked))
    (hkind : marked.take 2 = .ok (kind, opened))
    (hbody : readBody kind done opened = .ok (all, after)) :
    readBlocks done s = if mark = 1 then .ok (all, after) else readBlocks all after := by
  rw [readBlocks]
  split
  · next hfault =>
    rw [hmark] at hfault
    cases hfault
  · next hok =>
    obtain ⟨rfl, rfl⟩ := Prod.mk.inj (Except.ok.inj (hmark.symm.trans hok))
    split
    · next hfault =>
      rw [hkind] at hfault
      cases hfault
    · next hok =>
      obtain ⟨rfl, rfl⟩ := Prod.mk.inj (Except.ok.inj (hkind.symm.trans hok))
      split
      · next hfault =>
        rw [hbody] at hfault
        cases hfault
      · next hok =>
        obtain ⟨rfl, rfl⟩ := Prod.mk.inj (Except.ok.inj (hbody.symm.trans hok))
        rfl

end ReadThrough.Deflate
