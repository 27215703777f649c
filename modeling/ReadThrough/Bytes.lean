/-!
# Byte strings

Payloads, bodies and wire formats are lists of octets. A word is written least significant octet
first; `littleEndian_length` says how long its written form is and `ofLittleEndian_littleEndian`
that reading gives the word back.

## Text

`ofText` is the UTF-8 form of a text, `toText?` reads one back and fails on anything else.
-/

namespace ReadThrough

/-- A byte string. -/
abbrev Bytes := List UInt8

namespace Bytes

/-! ## Words -/

/-- The `count` low octets of `word`, least significant first. -/
def littleEndian : Nat → Nat → Bytes
  | 0, _ => []
  | count + 1, word => UInt8.ofNat word :: littleEndian count (word / 256)

/-- The number whose octets, least significant first, are `octets`. -/
def ofLittleEndian : Bytes → Nat
  | [] => 0
  | octet :: rest => octet.toNat + 256 * ofLittleEndian rest

@[simp] theorem littleEndian_length (count word : Nat) :
    (littleEndian count word).length = count := by
  induction count generalizing word with
  | zero => rfl
  | succ count ih => simp [littleEndian, ih]

/-- Reading the octets of a word gives the word, as far as the octets reach. -/
theorem ofLittleEndian_littleEndian (count word : Nat) :
    ofLittleEndian (littleEndian count word) = word % Nat.pow 256 count := by
  induction count generalizing word with
  | zero => simp [littleEndian, ofLittleEndian, Nat.mod_one]
  | succ count ih =>
    rw [littleEndian, ofLittleEndian, ih, Nat.pow_eq, Nat.pow_eq, Nat.pow_succ,
      Nat.mul_comm _ 256, Nat.mod_mul]
    simp

/-! ## Text -/

/-- The UTF-8 form of a text. -/
def ofText (text : String) : Bytes :=
  text.toUTF8.toList

/-- The text whose UTF-8 form is `data`, if there is one. -/
def toText? (data : Bytes) : Option String :=
  String.fromUTF8? data.toByteArray

end Bytes

end ReadThrough
