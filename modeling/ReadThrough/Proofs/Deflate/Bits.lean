import Mathlib.Algebra.Ring.Nat
import Mathlib.Data.List.GetD
import ReadThrough.Deflate.Bits

/-!
# Bits and octets

Numbers are written and read back (`ofBits_toBits`), and so are bits: `unpack` gives back what
`pack` kept, with fewer than eight zeros after it (`unpack_pack`). Octets can be told from their
bits (`unpack_inj`).
-/

namespace ReadThrough.Deflate

/-! ## Numbers -/

theorem length_toBits (count number : Nat) : (toBits count number).length = count := by
  induction count generalizing number with
  | zero => rfl
  | succ count ih => rw [toBits, List.length_cons, ih]

/-- Reading the bits of a number gives the number, if there were enough of them. -/
theorem ofBits_toBits {count number : Nat} (h : number < 2 ^ count) :
    ofBits (toBits count number) = number := by
  induction count generalizing number with
  | zero =>
    rw [toBits, ofBits]
    omega
  | succ count ih =>
    rw [toBits, ofBits, ih (by omega)]
    have hbit : (number % 2 == 1).toNat = number % 2 := by
      rcases Nat.mod_two_eq_zero_or_one number with h | h <;> rw [h] <;> rfl
    omega

theorem ofBits_lt (bits : List Bool) : ofBits bits < 2 ^ bits.length := by
  induction bits with
  | nil => exact Nat.one_pos
  | cons bit bits ih =>
    rw [ofBits, List.length_cons, Nat.pow_succ]
    have := bit.toNat_le
    omega

theorem testBit_ofBits (bits : List Bool) (index : Nat) :
    (ofBits bits).testBit index = bits.getD index false := by
  induction bits generalizing index with
  | nil => exact Nat.zero_testBit index
  | cons bit bits ih =>
    cases index with
    | zero => cases bit <;> simp [ofBits]
    | succ index =>
      have hhalf : ofBits (bit :: bits) / 2 = ofBits bits := by
        rw [ofBits]
        have := bit.toNat_lt
        omega
      rw [Nat.testBit_succ, hhalf, ih, List.getD_cons_succ]

/-! ## Octets -/

theorem length_octetBits (octet : UInt8) : (octetBits octet).length = 8 :=
  rfl

theorem octetBits_eq_map (octet : UInt8) : octetBits octet = (List.range 8).map (bitAt octet) :=
  rfl

/-- An octet that keeps at most eight bits has them, and zeros after them. -/
theorem octetBits_ofNat {bits : List Bool} (h : bits.length ≤ 8) :
    octetBits (UInt8.ofNat (ofBits bits)) = bits ++ List.replicate (8 - bits.length) false := by
  have hnumber : (UInt8.ofNat (ofBits bits)).toNat = ofBits bits := by
    refine UInt8.toNat_ofNat_of_lt' (Nat.lt_of_lt_of_le (ofBits_lt bits) ?_)
    exact Nat.pow_le_pow_right (by decide) h
  have hlength : (bits ++ List.replicate (8 - bits.length) false).length = 8 := by
    rw [List.length_append, List.length_replicate]
    omega
  refine List.ext_getElem hlength.symm fun index _ hindex => ?_
  rw [hlength] at hindex
  simp only [octetBits_eq_map, List.getElem_map, List.getElem_range, bitAt, hnumber,
    testBit_ofBits]
  -- beyond the bits the number has zeros, and so has what is put after them
  by_cases hinside : index < bits.length
  · rw [List.getElem_append_left hinside, List.getD_eq_getElem bits false hinside]
  · rw [List.getElem_append_right (by omega), List.getElem_replicate,
      List.getD_eq_default bits false (by omega)]

/-- The bits of an octet tell which it is. -/
theorem ofBits_octetBits (octet : UInt8) : ofBits (octetBits octet) = octet.toNat := by
  refine Nat.eq_of_testBit_eq fun index => ?_
  rw [testBit_ofBits]
  by_cases hinside : index < 8
  · rw [List.getD_eq_getElem _ false hinside]
    simp only [octetBits_eq_map, List.getElem_map, List.getElem_range, bitAt]
  · have hsmall : octet.toNat < 2 ^ index :=
      Nat.lt_of_lt_of_le octet.toNat_lt (Nat.pow_le_pow_right (by decide) (by omega))
    rw [List.getD_eq_default _ false (by rw [length_octetBits]; omega),
      Nat.testBit_lt_two_pow hsmall]

/-! ## Byte strings -/

theorem unpack_cons (octet : UInt8) (data : Bytes) :
    unpack (octet :: data) = octetBits octet ++ unpack data :=
  List.flatMap_cons

theorem unpack_append (front back : Bytes) : unpack (front ++ back) = unpack front ++ unpack back :=
  List.flatMap_append

theorem length_unpack (data : Bytes) : (unpack data).length = 8 * data.length := by
  induction data with
  | nil => rfl
  | cons octet data ih =>
    rw [unpack_cons, List.length_append, length_octetBits, ih, List.length_cons]
    omega

/-- Byte strings with the same bits are the same. -/
theorem unpack_inj {a b : Bytes} (h : unpack a = unpack b) : a = b := by
  induction a generalizing b with
  | nil =>
    have hlength := congrArg List.length h
    rw [length_unpack, length_unpack, List.length_nil] at hlength
    exact (List.length_eq_zero_iff.1 (by omega)).symm
  | cons octet a ih =>
    cases b with
    | nil => cases h
    | cons other b =>
      rw [unpack_cons, unpack_cons] at h
      obtain ⟨hoctet, hrest⟩ := List.append_inj h rfl
      have hnumber := congrArg ofBits hoctet
      rw [ofBits_octetBits, ofBits_octetBits] at hnumber
      rw [UInt8.toNat_inj.1 hnumber, ih hrest]

theorem unpack_packOnto (done : Array UInt8) (bits : List Bool) :
    ∃ zeros < 8, unpack (packOnto done bits).toList =
      unpack done.toList ++ (bits ++ List.replicate zeros false) := by
  fun_induction packOnto done bits with
  | case1 done a b c d e f g h rest ih =>
    obtain ⟨zeros, hzeros, heq⟩ := ih
    refine ⟨zeros, hzeros, ?_⟩
    rw [heq, Array.toList_push, unpack_append, unpack_cons,
      octetBits_ofNat (by simp : [a, b, c, d, e, f, g, h].length ≤ 8)]
    simp [unpack]
  | case2 done => exact ⟨0, by decide, by simp⟩
  | case3 done tail hlong hnil =>
    -- the last octet is neither full nor empty
    have hpositive : 0 < tail.length := List.length_pos_iff.2 hnil
    have hshort : tail.length < 8 := by
      refine Nat.lt_of_not_le fun hlength => ?_
      match tail, hlength with
      | a :: b :: c :: d :: e :: f :: g :: h :: rest, _ => exact hlong a b c d e f g h rest rfl
      | [], h | [_], h | [_, _], h | [_, _, _], h | [_, _, _, _], h | [_, _, _, _, _], h
      | [_, _, _, _, _, _], h | [_, _, _, _, _, _, _], h => simp at h
    refine ⟨8 - tail.length, by omega, ?_⟩
    rw [Array.toList_push, unpack_append, unpack_cons, octetBits_ofNat (by omega)]
    simp [unpack]

/-- What was kept as octets comes out again, with fewer than eight zeros after it. -/
theorem unpack_pack (bits : List Bool) :
    ∃ zeros < 8, unpack (pack bits) = bits ++ List.replicate zeros false := by
  obtain ⟨zeros, hzeros, heq⟩ := unpack_packOnto #[] bits
  exact ⟨zeros, hzeros, heq⟩

end ReadThrough.Deflate
