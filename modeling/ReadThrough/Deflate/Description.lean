import ReadThrough.Deflate.Lengths
import ReadThrough.Deflate.Reader
import ReadThrough.Deflate.Words

/-!
# Describing codes

A block may bring its own codes. They are described by the lengths of their words, the literal
code first; runs of one length are written as one entry where that is shorter, and the entries
have a code of their own, described in turn by three bits for each length.

`describe` writes a description. `described?` chooses the codes for a list of tokens by how often
their symbols occur. It does not trust the choice: the description is read back, and the codes
count only if nothing is left over and they have a word for every token.
-/

namespace ReadThrough.Deflate

/-! ## Entries -/

/-- A symbol of the length code and its extra bits. -/
structure LengthEntry where
  symbol : Nat
  extra : List Bool
  deriving Repr, DecidableEq

/-- Neighbours that are equal, with their number. -/
def runs : List Nat → List (Nat × Nat)
  | [] => []
  | length :: rest =>
    match runs rest with
    | [] => [(length, 1)]
    | (next, count) :: more =>
      if next = length then (length, count + 1) :: more else (length, 1) :: (next, count) :: more

/-- A number as a sum of parts, all but the last one equal to `most`. -/
def parts (most count : Nat) : List Nat :=
  List.replicate (count / most) most ++ if count % most = 0 then [] else [count % most]

/-- The entries for at most 138 zeros. -/
def zeroEntries (count : Nat) : List LengthEntry :=
  if count < 3 then List.replicate count ⟨0, []⟩
  else if count ≤ 10 then [⟨17, toBits 3 (count - 3)⟩]
  else [⟨18, toBits 7 (count - 11)⟩]

/-- The entries for at most six lengths that are the same as the one before them. -/
def repeatEntries (length count : Nat) : List LengthEntry :=
  if count < 3 then List.replicate count ⟨length, []⟩ else [⟨16, toBits 2 (count - 3)⟩]

/-- The entries for a run of lengths. -/
def runEntries (length count : Nat) : List LengthEntry :=
  if length = 0 then (parts 138 count).flatMap zeroEntries
  else ⟨length, []⟩ :: (parts 6 (count - 1)).flatMap (repeatEntries length)

/-- The entries for a list of lengths. -/
def lengthEntries (lengths : List Nat) : List LengthEntry :=
  (runs lengths).flatMap fun (length, count) => runEntries length count

/-! ## Descriptions -/

/-- How often each of the first `count` symbols occurs. -/
def tally (count : Nat) (symbols : List Nat) : List Nat :=
  (symbols.foldl (fun counts symbol => counts.modify symbol (· + 1)) (Array.replicate count 0)).toList

/-- A list without the zeros at its end, but not shorter than `least`. -/
def trimmed (least : Nat) (lengths : List Nat) : List Nat :=
  lengths.take least ++ ((lengths.drop least).reverse.dropWhile (· == 0)).reverse

/-- How many symbols the length code has. -/
def lengthSymbols : Nat := 19

/-- The longest word of the length code. -/
def longestLengthWord : Nat := 7

/-- The bits of a description of the codes with the given lengths. -/
def describe (literals distances : List Nat) : List Bool :=
  let literals := trimmed 257 literals
  let distances := trimmed 1 distances
  let entries := lengthEntries (literals ++ distances)
  let lengths := wordLengths longestLengthWord (tally lengthSymbols (entries.map (·.symbol)))
  let written := trimmed 4 (lengthCodeOrder.map fun symbol => lengths.getD symbol 0)
  let words := wordTable (Code.grow lengths).1 lengthSymbols
  toBits 5 (literals.length - 257) ++ toBits 5 (distances.length - 1) ++
    toBits 4 (written.length - 4) ++ written.flatMap (toBits 3) ++
    entries.flatMap fun entry => words.getD entry.symbol [] ++ entry.extra

/-- A description of codes for the tokens and the words of these codes. -/
def described? (tokens : List Token) : Option (List Bool × Words) :=
  let literals := tally maxLiteralSymbols (endOfBlock :: tokens.map Token.symbol)
  let distances := tally maxDistanceSymbols (tokens.filterMap Token.distanceSymbol?)
  let description :=
    describe (wordLengths Code.longest literals) (wordLengths Code.longest distances)
  match readCodes (.ofBits description) with
  | .error _ => none
  | .ok ((literals, distances), after) =>
    let words := Words.ofCodes literals distances
    if after.size = 0 ∧ words.cover tokens = true then some (description, words) else none

end ReadThrough.Deflate
