import ReadThrough.Bytes

/-!
# Tokens of a compressed stream

A stream stands for a list of tokens: an octet as it is, or a run copied from what came out
before. `expand` is the meaning of such a list. A run may overlap its own output, and one that
reaches before the first octet finds zeros there.
-/

namespace ReadThrough.Deflate

/-- One step of output. -/
inductive Token where
  /-- An octet as it is. -/
  | literal (octet : UInt8)
  /-- The `length` octets that start `distance` back. -/
  | copy (length distance : Nat)
  deriving Repr, DecidableEq

/-- The octet `distance` back from the end; zero before the start. -/
def lookBack (out : Array UInt8) (distance : Nat) : UInt8 :=
  if distance ≤ out.size then out.getD (out.size - distance) 0 else 0

/-- Adds `count` octets, each the one `distance` back at its time. -/
def copyOnto (distance : Nat) : Nat → Array UInt8 → Array UInt8
  | 0, out => out
  | count + 1, out => copyOnto distance count (out.push (lookBack out distance))

/-- Adds what a token stands for. -/
def Token.expandOnto (out : Array UInt8) : Token → Array UInt8
  | literal octet => out.push octet
  | copy length distance => copyOnto distance length out

/-- What a list of tokens stands for. -/
def expand (tokens : List Token) : Bytes :=
  (tokens.foldl Token.expandOnto #[]).toList

/-! ## The range of copies -/

/-- The shortest copy that the format can write. -/
def minCopy : Nat := 3

/-- The longest copy. -/
def maxCopy : Nat := 258

/-- The farthest that a copy reaches back. -/
def window : Nat := 32768

end ReadThrough.Deflate
