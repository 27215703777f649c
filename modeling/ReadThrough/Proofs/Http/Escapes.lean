import ReadThrough.Http.Percent

/-!
# Texts without escapes

* `Bytes.toText?_ofText`, `Bytes.ofText_of_toText?` — a text is read back from its octets, and from
  no others
* `Percent.decodeText?_of_not_mem` — a text without a percent sign stands for itself
* `Percent.eq_empty_of_decodeText?` — no other text than the empty one stands for it

The octets of a character outside ASCII are all large, so a percent sign among the octets of a text
is one among its characters.
-/

namespace ReadThrough

namespace Bytes

theorem toList_loop (array : ByteArray) (i : Nat) (seen : Bytes) :
    ByteArray.toList.loop array i seen = seen.reverse ++ array.data.toList.drop i := by
  fun_induction ByteArray.toList.loop array i seen with
  | case1 i seen hi ih =>
    have hlength : i < array.data.toList.length := hi
    have hget : array.get! i = array.data.toList[i] := getElem!_pos array.data i hi
    rw [ih, List.drop_eq_getElem_cons hlength, List.reverse_cons, List.append_assoc,
      List.singleton_append, hget]
  | case2 i seen hi =>
    have hlength : array.data.toList.length ≤ i := Nat.le_of_not_lt hi
    rw [List.drop_eq_nil_of_le hlength, List.append_nil]

/-- The octets of a text are those of its characters. -/
theorem ofText_eq_flatMap (text : String) :
    ofText text = text.toList.flatMap String.utf8EncodeChar := by
  have hoctets : text.toUTF8 = (text.toList.flatMap String.utf8EncodeChar).toByteArray :=
    String.utf8Encode_toList.symm
  rw [ofText, hoctets, ByteArray.toList, toList_loop, List.toList_data_toByteArray,
    List.reverse_nil, List.nil_append, List.drop_zero]

/-- A text is read back from its octets. -/
theorem toText?_ofText (text : String) : toText? (ofText text) = some text := by
  have hoctets : (ofText text).toByteArray = text.toByteArray := by
    rw [ofText_eq_flatMap]
    exact String.utf8Encode_toList
  rw [toText?, hoctets, String.fromUTF8?, dif_pos text.isValidUTF8]
  rfl

/-- What is read of octets has them for its own. -/
theorem ofText_of_toText? {data : Bytes} {text : String} (h : toText? data = some text) :
    ofText text = data := by
  unfold toText? String.fromUTF8? at h
  split at h
  · have hoctets : data.toByteArray = text.toUTF8 :=
      congrArg String.toByteArray (Option.some.inj h)
    rw [ofText, ← hoctets, ByteArray.toList, toList_loop, List.toList_data_toByteArray,
      List.reverse_nil, List.nil_append, List.drop_zero]
  · cases h

theorem ofText_empty : ofText "" = [] := by
  rw [ofText_eq_flatMap]
  rfl

theorem ofText_inj {a b : String} (h : ofText a = ofText b) : a = b := by
  have hread := toText?_ofText a
  rw [h, toText?_ofText, Option.some.injEq] at hread
  exact hread.symm

end Bytes

namespace Http.Percent

/-- An octet of a character is the character itself, or it is none of ASCII. -/
theorem toNat_of_mem_utf8EncodeChar {c : Char} {octet : UInt8}
    (h : octet ∈ String.utf8EncodeChar c) : octet.toNat = c.toNat ∨ 128 ≤ octet.toNat := by
  have hhigh {n : Nat} (hlow : 128 ≤ n) (hoctet : n < 256) : 128 ≤ (UInt8.ofNat n).toNat := by
    rwa [UInt8.toNat_ofNat_of_lt' hoctet]
  rw [String.utf8EncodeChar.eq_1] at h
  split at h
  · next hascii =>
    left
    rw [List.mem_singleton.1 h, UInt8.toNat_ofNat_of_lt' (Nat.lt_of_le_of_lt hascii (by decide))]
    rfl
  · right
    -- the octets of a longer form all have their highest bit set
    split at h
    · simp only [List.mem_cons, List.not_mem_nil, or_false] at h
      rcases h with rfl | rfl <;> exact hhigh (by omega) (by omega)
    · split at h <;> simp only [List.mem_cons, List.not_mem_nil, or_false] at h
      · rcases h with rfl | rfl | rfl <;> exact hhigh (by omega) (by omega)
      · rcases h with rfl | rfl | rfl | rfl <;> exact hhigh (by omega) (by omega)

theorem percent_not_mem_ofText {text : String} (h : '%' ∉ text.toList) :
    0x25 ∉ Bytes.ofText text := by
  rw [Bytes.ofText_eq_flatMap, List.mem_flatMap]
  rintro ⟨c, hc, hoctet⟩
  obtain hcode | hlarge := toNat_of_mem_utf8EncodeChar hoctet
  · have hpercent : c = '%' := Char.toNat_inj.1 hcode.symm
    exact h (hpercent ▸ hc)
  · exact absurd hlarge (by decide)

theorem escape?_of_ne {octet : UInt8} (h : octet ≠ 0x25) (rest : Bytes) :
    escape? (octet :: rest) = none := by
  unfold escape?
  split
  · next hdata => exact absurd (List.cons.inj hdata).1 h
  · rfl

/-- Where there is no percent sign there is nothing to replace. -/
theorem decode_of_not_mem {data : Bytes} (h : 0x25 ∉ data) : decode data = data := by
  induction data with
  | nil => rw [decode]
  | cons octet rest ih =>
    rw [List.mem_cons, not_or] at h
    rw [decode, escape?_of_ne (Ne.symm h.1)]
    exact congrArg (octet :: ·) (ih h.2)

/-- A text without a percent sign stands for itself. -/
theorem decodeText?_of_not_mem {text : String} (h : '%' ∉ text.toList) :
    decodeText? text = some text := by
  rw [decodeText?, decode_of_not_mem (percent_not_mem_ofText h), Bytes.toText?_ofText]

/-- No escape stands for nothing. -/
theorem decode_eq_nil_iff {data : Bytes} : decode data = [] ↔ data = [] := by
  cases data with
  | nil => simp [decode]
  | cons octet rest =>
    rw [decode]
    cases escape? (octet :: rest) <;> simp

/-- Only the empty text stands for the empty text. -/
theorem eq_empty_of_decodeText? {text : String} (h : decodeText? text = some "") : text = "" := by
  have hoctets : decode (Bytes.ofText text) = [] := by
    rw [← Bytes.ofText_of_toText? h, Bytes.ofText_empty]
  rw [decode_eq_nil_iff, ← Bytes.ofText_empty] at hoctets
  exact Bytes.ofText_inj hoctets

end Http.Percent

end ReadThrough
