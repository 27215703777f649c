import Mathlib.Algebra.Ring.Nat
import ReadThrough.Deflate.Reader
import ReadThrough.Deflate.Token

/-!
# The format of a compressed stream

What a compressed stream is, said of its bits and without a reader. Each relation holds between
what is written and the bits that write it, from the words of a code up to the blocks of a stream.

* `Canonical` — the code that word lengths stand for
* `WritesTokens` — the tokens of a block in two codes, and its end
* `WritesCodes` — the description of two codes
* `WritesBlocks` — blocks up to the last one
* `IsStream` — octets that are a whole stream

Only a block of octets as they are depends on where it stands: it begins at an octet. So the blocks
are told how many bits come `before` them.
-/

namespace ReadThrough.Deflate

/-! ## Codes -/

/--
The code of some word lengths. From left to right its words are those of the symbols in order of
length and then of number, each word as long as it should be, and no word is left over. One symbol
with a word of one bit, or no symbol at all, is a code as well.
-/
inductive Canonical (lengths : List Nat) : Code → Prop where
  | full {code : Code} (hfull : code.tree.full = true)
    (hwords : code.tree.words.map (fun (symbol, word) => (word.length, symbol)) =
      Code.ranked lengths) : Canonical lengths code
  | lone {symbol : Nat} (h : Code.ranked lengths = [(1, symbol)]) :
    Canonical lengths ⟨.leaf symbol, .empty⟩
  | none (h : Code.ranked lengths = []) : Canonical lengths ⟨.empty, .empty⟩

/-! ## Tokens -/

/-- A value of a slot is written in extra bits, which say how far it lies beyond the first. -/
inductive WritesSlot (slots : Array Slot) (index : Nat) : Nat → List Bool → Prop where
  | mk {slot : Slot} {beyond : Nat} (hslot : slots[index]? = some slot)
    (hbeyond : beyond < 2 ^ slot.extra) :
    WritesSlot slots index (slot.first + beyond) (toBits slot.extra beyond)

/-- A token is written as a word for its octet, or as words and extra bits for its two slots. -/
inductive WritesToken (literals distances : Code) : Token → List Bool → Prop where
  | literal {octet : UInt8} {word : List Bool} (hword : (octet.toNat, word) ∈ literals.tree.words) :
    WritesToken literals distances (.literal octet) word
  | copy {index symbol length distance : Nat} {word extra word' extra' : List Bool}
    (hword : (firstLengthSymbol + index, word) ∈ literals.tree.words)
    (hlength : WritesSlot lengthSlots index length extra)
    (hword' : (symbol, word') ∈ distances.tree.words)
    (hdistance : WritesSlot distanceSlots symbol distance extra') :
    WritesToken literals distances (.copy length distance) (word ++ (extra ++ (word' ++ extra')))

/-- The tokens of a block are written one after another, and the word for its end comes last. -/
inductive WritesTokens (literals distances : Code) : List Token → List Bool → Prop where
  | stop {word : List Bool} (hword : (endOfBlock, word) ∈ literals.tree.words) :
    WritesTokens literals distances [] word
  | cons {token : Token} {tokens : List Token} {front back : List Bool}
    (htoken : WritesToken literals distances token front)
    (hrest : WritesTokens literals distances tokens back) :
    WritesTokens literals distances (token :: tokens) (front ++ back)

/-! ## Descriptions of codes -/

/-- A run of word lengths is written in one entry of the length code, behind the `last` length. -/
inductive WritesRun (code : Code) (last : Option Nat) : List Nat → List Bool → Prop where
  | single {length : Nat} {word : List Bool} (hlength : length < 16)
    (hword : (length, word) ∈ code.tree.words) : WritesRun code last [length] word
  | again {length more : Nat} {word : List Bool} (hlast : last = some length) (hmore : more < 2 ^ 2)
    (hword : (16, word) ∈ code.tree.words) :
    WritesRun code last (List.replicate (3 + more) length) (word ++ toBits 2 more)
  | zeros {more : Nat} {word : List Bool} (hmore : more < 2 ^ 3)
    (hword : (17, word) ∈ code.tree.words) :
    WritesRun code last (List.replicate (3 + more) 0) (word ++ toBits 3 more)
  | manyZeros {more : Nat} {word : List Bool} (hmore : more < 2 ^ 7)
    (hword : (18, word) ∈ code.tree.words) :
    WritesRun code last (List.replicate (11 + more) 0) (word ++ toBits 7 more)

/-- Behind the lengths `done` the entries write lengths up to `all`. -/
inductive WritesLengths (code : Code) : (done all : List Nat) → List Bool → Prop where
  | nil (done : List Nat) : WritesLengths code done done []
  | cons {done run all : List Nat} {front back : List Bool}
    (hrun : WritesRun code done.getLast? run front)
    (hrest : WritesLengths code (done ++ run) all back) :
    WritesLengths code done all (front ++ back)

/--
Two codes are described by their word lengths. First it is said how many there are, then come the
lengths of the length code, which leaves no word over, and then the lengths of the two codes in it.
-/
inductive WritesCodes : Code × Code → List Bool → Prop where
  | mk {literalLengths distanceLengths written : List Nat} {lengthCode literals distances : Code}
    {bits : List Bool}
    (hliteralCount : 257 ≤ literalLengths.length ∧ literalLengths.length ≤ maxLiteralSymbols)
    (hdistanceCount : 1 ≤ distanceLengths.length ∧ distanceLengths.length ≤ maxDistanceSymbols)
    (hwritten : 4 ≤ written.length ∧ written.length ≤ lengthCodeOrder.length)
    (hsmall : ∀ length ∈ written, length < 2 ^ 3)
    (hlengthCode : Canonical (inSymbolOrder written) lengthCode)
    (hfull : lengthCode.tree.full = true)
    (hlengths : WritesLengths lengthCode [] (literalLengths ++ distanceLengths) bits)
    (hliterals : Canonical literalLengths literals)
    (hdistances : Canonical distanceLengths distances) :
    WritesCodes (literals, distances)
      (toBits 5 (literalLengths.length - 257) ++ (toBits 5 (distanceLengths.length - 1) ++
        (toBits 4 (written.length - 4) ++ (written.flatMap (toBits 3) ++ bits))))

/-! ## Blocks -/

/-- The tokens of a block of a kind are written in its body. -/
inductive WritesBody (before : Nat) : (kind : Nat) → List Token → List Bool → Prop where
  | plain {octets size complement : Bytes} {padding : List Bool} (hpadding : padding.length < 8)
    (hplace : (before + padding.length) % 8 = 0) (hsize : size.length = 2)
    (hcomplement : complement.length = 2) (hlength : Bytes.ofLittleEndian size = octets.length)
    (hsum : octets.length + Bytes.ofLittleEndian complement = 65535) :
    WritesBody before 0 (octets.map .literal) (padding ++ unpack (size ++ complement ++ octets))
  | fixed {tokens : List Token} {bits : List Bool}
    (h : WritesTokens fixedLiteralCode fixedDistanceCode tokens bits) :
    WritesBody before 1 tokens bits
  | described {literals distances : Code} {tokens : List Token} {description bits : List Bool}
    (hcodes : WritesCodes (literals, distances) description)
    (htokens : WritesTokens literals distances tokens bits) :
    WritesBody before 2 tokens (description ++ bits)

/-- Blocks have a mark, which only the last one sets, a kind, and a body. -/
inductive WritesBlocks : (before : Nat) → List Token → List Bool → Prop where
  | last {before kind : Nat} {tokens : List Token} {body : List Bool}
    (hbody : WritesBody (before + 3) kind tokens body) :
    WritesBlocks before tokens (true :: (toBits 2 kind ++ body))
  | more {before kind : Nat} {tokens later : List Token} {body bits : List Bool}
    (hbody : WritesBody (before + 3) kind tokens body)
    (hrest : WritesBlocks (before + 3 + body.length) later bits) :
    WritesBlocks before (tokens ++ later) (false :: (toBits 2 kind ++ (body ++ bits)))

/-- The octets are a whole stream of the tokens: its blocks, and a filling of less than an octet. -/
def IsStream (tokens : List Token) (stream : Bytes) : Prop :=
  ∃ bits filling, unpack stream = bits ++ filling ∧ filling.length < 8 ∧ WritesBlocks 0 tokens bits

end ReadThrough.Deflate
