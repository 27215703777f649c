import ReadThrough.Bytes

/-!
# Names and values of HTTP

Methods and field names are tokens. The value of a field may hold any octet but control characters;
a tab is allowed.
-/

namespace ReadThrough.Http

/-- True for the characters of a token. -/
def isTokenChar (c : Char) : Bool :=
  c.isAlphanum || "!#$%&'*+-.^_`|~".toList.contains c

/-- True for a text that is a token. -/
def isToken (text : String) : Bool :=
  !text.isEmpty && text.toList.all isTokenChar

/-- The longest name of a field. -/
def maxFieldName : Nat := 65535

/-- The name of a field in small letters, if a text is one. -/
def fieldName? (text : String) : Option String :=
  if isToken text ∧ text.length ≤ maxFieldName then some (String.ofList (text.toList.map Char.toLower))
  else none

/-- True for the octets of a field's value. -/
def isValueOctet (octet : UInt8) : Bool :=
  octet == 9 || (32 ≤ octet && octet != 127)

/-- True for a byte string that may be the value of a field. -/
def isValue (value : Bytes) : Bool :=
  value.all isValueOctet

/-- True for the characters that a field's value may hold. -/
def isValueChar (c : Char) : Bool :=
  c == '\t' || (32 ≤ c.toNat && c.toNat != 127)

end ReadThrough.Http
