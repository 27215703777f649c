import ReadThrough.Deflate.Description

/-!
# Writing a compressed stream

A list of tokens is written as one block: the mark of the last block, its kind, the words of the
tokens and the end of the block. The block has the fixed codes if the tokens stand for little, and
codes of its own, described before the tokens, if they stand for more.
-/

namespace ReadThrough.Deflate

/-- The number of octets that a token stands for. -/
def Token.span : Token → Nat
  | literal _ => 1
  | copy length _ => length

/-- The number of octets that a list of tokens stands for. -/
def span (tokens : List Token) : Nat :=
  tokens.foldl (fun octets token => octets + token.span) 0

/-- The number of octets from which on a description pays. -/
def describedFrom : Nat := 48

/-- The three bits before a last block of the given kind. -/
def lastBlockMark (kind : Nat) : List Bool :=
  true :: toBits 2 kind

/-- The bits of a last block in the fixed codes. -/
def fixedBlock (tokens : List Token) : List Bool :=
  lastBlockMark 1 ++ Words.fixed.body tokens

/-- The bits of a last block in codes of its own; in the fixed codes if none can be described. -/
def describedBlock (tokens : List Token) : List Bool :=
  match described? tokens with
  | some (description, words) => lastBlockMark 2 ++ (description ++ words.body tokens)
  | none => fixedBlock tokens

/-- The bits of a stream of one block. -/
def write (tokens : List Token) : List Bool :=
  if span tokens < describedFrom then fixedBlock tokens else describedBlock tokens

end ReadThrough.Deflate
