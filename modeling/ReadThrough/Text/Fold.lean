/-!
# Letter case

Names of codings and permissions do not distinguish the case of ASCII letters. Other characters
stand for themselves.
-/

namespace ReadThrough.Text

/-- The text with its ASCII capitals made small. -/
def lower (cs : List Char) : List Char :=
  cs.map Char.toLower

/-- True if two texts are one but for the case of ASCII letters. -/
def sameFolded (a b : List Char) : Bool :=
  lower a == lower b

end ReadThrough.Text
