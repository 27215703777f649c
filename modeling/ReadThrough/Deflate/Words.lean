import ReadThrough.Deflate.Alphabet
import ReadThrough.Deflate.Token

/-!
# Words for tokens

A token is written in symbols of the two alphabets: an octet is a literal symbol; a copy is the
literal symbol of its length's slot and the distance symbol of its distance's slot, each followed
by extra bits. `Words` has a word for each symbol, and `Token.bits` writes a token in them.

Words are written from the first branch of a code down, extra bits from the least significant. A
symbol without a word writes nothing; `Words.cover` says that a list of tokens needs no such
symbol.
-/

namespace ReadThrough.Deflate

/-! ## Symbols of a token -/

/-- The literal symbol of a token. -/
def Token.symbol : Token → Nat
  | literal octet => octet.toNat
  | copy length _ => firstLengthSymbol + slotOf lengthSlots length

/-- The distance symbol of a copy. -/
def Token.distanceSymbol? : Token → Option Nat
  | literal _ => none
  | copy _ distance => some (slotOf distanceSlots distance)

/-! ## Words -/

/-- The words of the first `count` symbols of a code. -/
def wordTable (code : Code) (count : Nat) : Array (List Bool) :=
  let words := code.tree.words
  (Array.range count).map fun symbol => (words.lookup symbol).getD []

/-- The words of a pair of codes. -/
structure Words where
  /-- The words of the literal symbols. -/
  literals : Array (List Bool)
  /-- The words of the distance symbols. -/
  distances : Array (List Bool)

namespace Words

/-- How many symbols the literal alphabet has, with two that mean nothing. -/
def literalSymbols : Nat := 288

/-- How many symbols the distance alphabet has, with two that mean nothing. -/
def distanceSymbols : Nat := 32

/-- The words of two codes. -/
def ofCodes (literals distances : Code) : Words where
  literals := wordTable literals literalSymbols
  distances := wordTable distances distanceSymbols

/-- The words of the fixed codes. -/
def fixed : Words :=
  ofCodes fixedLiteralCode fixedDistanceCode

/-- The word of a literal symbol. -/
def literal (words : Words) (symbol : Nat) : List Bool :=
  words.literals.getD symbol []

/-- The word of a distance symbol. -/
def distance (words : Words) (symbol : Nat) : List Bool :=
  words.distances.getD symbol []

/-- True if the symbols of a token have words. -/
def hasToken (words : Words) (token : Token) : Bool :=
  !(words.literal token.symbol).isEmpty &&
    token.distanceSymbol?.all fun symbol => !(words.distance symbol).isEmpty

/-- True if the tokens and the end of the block have words. -/
def cover (words : Words) (tokens : List Token) : Bool :=
  !(words.literal endOfBlock).isEmpty && tokens.all words.hasToken

end Words

/-! ## Bits -/

/-- The bits that say how far a value lies beyond the start of its slot. -/
def slotExtra (slots : Array Slot) (value : Nat) : List Bool :=
  let slot := slots.getD (slotOf slots value) ⟨0, 0⟩
  toBits slot.extra (value - slot.first)

/-- The bits of a token. -/
def Token.bits (words : Words) : Token → List Bool
  | literal octet => words.literal octet.toNat
  | copy length distance =>
    words.literal (firstLengthSymbol + slotOf lengthSlots length) ++ slotExtra lengthSlots length ++
      (words.distance (slotOf distanceSlots distance) ++ slotExtra distanceSlots distance)

/-- The bits of the tokens of a block and of its end. -/
def Words.body (words : Words) (tokens : List Token) : List Bool :=
  tokens.flatMap (Token.bits words) ++ words.literal endOfBlock

end ReadThrough.Deflate
