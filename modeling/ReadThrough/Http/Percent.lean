import ReadThrough.Bytes

/-!
# Percent escapes

`decode` replaces each percent sign that two hexadecimal digits follow by the octet they write;
any other percent sign stays. `decodeText?` fails if the octets are no text.
-/

namespace ReadThrough.Http.Percent

/-- The value of a hexadecimal digit. -/
def hexValue? (octet : UInt8) : Option UInt8 :=
  if 0x30 ≤ octet ∧ octet ≤ 0x39 then some (octet - 0x30)
  else if 0x41 ≤ octet ∧ octet ≤ 0x46 then some (octet - 0x41 + 10)
  else if 0x61 ≤ octet ∧ octet ≤ 0x66 then some (octet - 0x61 + 10)
  else none

/-- The octet that an escape at the start of a text writes, if there is one. -/
def escape? : Bytes → Option UInt8
  | 0x25 :: high :: low :: _ =>
    match hexValue? high, hexValue? low with
    | some high, some low => some (high * 16 + low)
    | _, _ => none
  | _ => none

/-- The octets of a text with its escapes replaced. -/
def decode : Bytes → Bytes
  | [] => []
  | octet :: rest =>
    match escape? (octet :: rest) with
    | some written => written :: decode (rest.drop 2)
    | none => octet :: decode rest
termination_by data => data.length
decreasing_by
  all_goals
    simp only [List.length_drop, List.length_cons]
    omega

/-- The text that an escaped text stands for. -/
def decodeText? (text : String) : Option String :=
  Bytes.toText? (decode (Bytes.ofText text))

end ReadThrough.Http.Percent
