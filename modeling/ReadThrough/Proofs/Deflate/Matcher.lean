import ReadThrough.Deflate.Matcher
import ReadThrough.Proofs.Deflate.Tokens

/-!
# Tokens stand for the data

`expand` gives back what `tokens` was given (`expand_tokens`), and its tokens can be written
(`writable_tokens`). Which places were searched does not matter: a copy is made of octets that have
been compared (`Repeats`), and such a copy adds the octets that come next (`copyOnto_extract`), also
where it overlaps what it adds.

The invariant of the walk is that the tokens so far spell the data so far (`Spell`).
-/

namespace ReadThrough.Deflate

variable {data : Array UInt8} {index length distance : Nat}

/-! ## Copies -/

/-- The `length` octets from `index` on are those that start `distance` back. -/
structure Repeats (data : Array UInt8) (index length distance : Nat) : Prop where
  pos : 1 ≤ distance
  le_index : distance ≤ index
  inside : index + length ≤ data.size
  same : ∀ k < length, data.getD (index + k - distance) 0 = data.getD (index + k) 0

theorem agreement_le (data : Array UInt8) (earlier index limit : Nat) :
    agreement data earlier index limit ≤ limit := by
  induction limit generalizing earlier index with
  | zero => exact Nat.le_refl 0
  | succ limit ih =>
    rw [agreement]
    split
    · exact Nat.succ_le_succ (ih _ _)
    · exact Nat.zero_le _

theorem agreement_spec {earlier limit k : Nat} (h : k < agreement data earlier index limit) :
    index + k < data.size ∧ data.getD (earlier + k) 0 = data.getD (index + k) 0 := by
  induction limit generalizing earlier index k with
  | zero => cases h
  | succ limit ih =>
    rw [agreement] at h
    split at h
    · next hsame =>
      cases k with
      | zero => exact hsame
      | succ k =>
        rw [← Nat.succ_add_eq_add_succ, ← Nat.succ_add_eq_add_succ]
        exact ih (Nat.lt_of_succ_lt_succ h)
    · cases h

/-- A copy that the search settles on repeats what was there. -/
theorem repeats_of_copyAt? {earlier : Nat}
    (h : copyAt? data index earlier = some (length, distance)) :
    Repeats data index length distance ∧ (Token.copy length distance).Writable := by
  unfold copyAt? at h
  dsimp only at h
  split at h
  · next hplace =>
    split at h
    · next hlong =>
      obtain ⟨rfl, rfl⟩ := Prod.mk.inj (Option.some.inj h)
      have hmin : minCopy ≤ agreement data earlier index maxCopy := by omega
      have hpositive : 0 < agreement data earlier index maxCopy :=
        Nat.lt_of_lt_of_le (by decide) hmin
      have hlast := agreement_spec (Nat.sub_lt hpositive Nat.one_pos)
      refine ⟨⟨by omega, by omega, by omega, fun k hk => ?_⟩, ⟨hmin, agreement_le ..⟩, by omega,
        hplace.2⟩
      have hback : index + k - (index - earlier) = earlier + k := by omega
      rw [hback]
      exact (agreement_spec hk).2
    · cases h
  · cases h

/-! ## Output -/

theorem extract_push (data : Array UInt8) (h : index < data.size) :
    (data.extract 0 index).push data[index] = data.extract 0 (index + 1) := by
  rw [Array.push_extract_getElem h, Nat.zero_min]

theorem lookBack_extract (hpos : 1 ≤ distance) (hback : distance ≤ index) (h : index ≤ data.size) :
    lookBack (data.extract 0 index) distance = data.getD (index - distance) 0 := by
  have hsize : (data.extract 0 index).size = index := by
    rw [Array.size_extract_of_le h, Nat.sub_zero]
  have hplace : index - distance < index := by omega
  rw [lookBack, hsize, if_pos hback, Array.getD_eq_getD_getElem?, Array.getD_eq_getD_getElem?,
    Array.getElem?_extract_of_lt (by omega)]
  simp only [Nat.zero_add]
  rw [Array.getElem?_eq_getElem (by omega)]

/-- A copy of octets that repeat adds the octets that come next. -/
theorem copyOnto_extract (h : Repeats data index length distance) :
    copyOnto distance length (data.extract 0 index) = data.extract 0 (index + length) := by
  induction length generalizing index with
  | zero => rfl
  | succ length ih =>
    have hinside := h.inside
    -- the octet that is copied is the next one, and the octets after it repeat at the same distance
    have hfirst : data.getD (index - distance) 0 = data.getD index 0 := h.same 0 (Nat.succ_pos _)
    have hnow : index < data.size := by omega
    have hoctet : data.getD index 0 = data[index] := by
      rw [Array.getD_eq_getD_getElem?, Array.getElem?_eq_getElem hnow, Option.getD_some]
    rw [copyOnto, lookBack_extract h.pos h.le_index (by omega), hfirst, hoctet,
      extract_push data hnow, ih, Nat.add_right_comm, Nat.add_assoc]
    refine ⟨h.pos, Nat.le_succ_of_le h.le_index, by omega, fun k hk => ?_⟩
    have hnext := h.same (k + 1) (Nat.succ_lt_succ hk)
    rwa [← Nat.add_assoc, Nat.add_right_comm] at hnext

/-! ## The walk -/

/-- The tokens stand for the octets before `index`, and they can be written. -/
structure Spell (data : Array UInt8) (tokens : Array Token) (index : Nat) : Prop where
  inside : index ≤ data.size
  output : tokens.toList.foldl Token.expandOnto #[] = data.extract 0 index
  writable : ∀ token ∈ tokens.toList, token.Writable

theorem spell_nil (data : Array UInt8) : Spell data #[] 0 where
  inside := Nat.zero_le _
  output := by simp
  writable := fun _ h => nomatch h

theorem Spell.push_literal {done : Array Token} (h : Spell data done index)
    (hindex : index < data.size) : Spell data (done.push (.literal data[index])) (index + 1) where
  inside := hindex
  output := by
    rw [Array.toList_push, List.foldl_append, h.output]
    exact extract_push data hindex
  writable := by
    rw [Array.toList_push]
    exact List.forall_mem_append.2 ⟨h.writable, List.forall_mem_singleton.2 trivial⟩

theorem Spell.push_copy {done : Array Token} (h : Spell data done index)
    (hrepeats : Repeats data index length distance)
    (hwritable : (Token.copy length distance).Writable) :
    Spell data (done.push (.copy length distance)) (index + length) where
  inside := hrepeats.inside
  output := by
    rw [Array.toList_push, List.foldl_append, h.output]
    exact copyOnto_extract hrepeats
  writable := by
    rw [Array.toList_push]
    exact List.forall_mem_append.2 ⟨h.writable, List.forall_mem_singleton.2 hwritable⟩

/-- The walk ends when everything is spelled. -/
theorem spell_tokensOnto {links : Array Nat} {done : Array Token} {guess : Option Nat}
    (h : Spell data done index) :
    Spell data (tokensOnto data links done index guess) data.size := by
  fun_induction tokensOnto data links done index guess with
  | case1 done index guess hindex hnone ih => exact ih (h.push_literal hindex)
  | case2 done index guess hindex length distance hcopy later hlater ih =>
    exact ih (h.push_literal hindex)
  | case3 done index guess hindex length distance hcopy hlater ih =>
    -- wherever the guess came from, `copyAt?` has compared the octets
    obtain ⟨earlier, -, hearlier⟩ := Option.bind_eq_some_iff.1 hcopy
    obtain ⟨hrepeats, hwritable⟩ := repeats_of_copyAt? hearlier
    exact ih (h.push_copy hrepeats hwritable)
  | case4 done index guess hend =>
    have hall : index = data.size := Nat.le_antisymm h.inside (Nat.le_of_not_lt hend)
    exact hall ▸ h

theorem spell_tokens (data : Bytes) :
    Spell data.toArray (tokens data).toArray data.toArray.size :=
  spell_tokensOnto (spell_nil data.toArray)

/-- The tokens of the data stand for the data. -/
theorem expand_tokens (data : Bytes) : expand (tokens data) = data := by
  rw [expand, (spell_tokens data).output, Array.extract_size]

theorem writable_tokens (data : Bytes) : ∀ token ∈ tokens data, token.Writable :=
  (spell_tokens data).writable

/-! ## Data of one octet -/

theorem hashAt_lt (data : Array UInt8) (index : Nat) : hashAt data index < hashMask.toNat + 1 := by
  unfold hashAt
  dsimp only
  rw [UInt32.toNat_and]
  exact Nat.lt_succ_of_le Nat.and_le_right

theorem getD_replicate {octet : UInt8} {count index : Nat} (h : index < count) :
    (Array.replicate count octet).getD index 0 = octet := by
  simp [Array.getD_eq_getD_getElem?, h]

/-- All hashes are the same where there is one octet only. -/
theorem hashAt_replicate (octet : UInt8) {count index : Nat} (h : index + minCopy ≤ count) :
    hashAt (Array.replicate count octet) index = hashAt (Array.replicate minCopy octet) 0 := by
  have hmin : minCopy = 3 := rfl
  rw [hmin] at h ⊢
  unfold hashAt
  rw [getD_replicate (by omega), getD_replicate (by omega), getD_replicate (by omega),
    getD_replicate (by omega), getD_replicate (by omega), getD_replicate (by omega)]

theorem toList_linksOnto_replicate {octet : UInt8} {count index places : Nat}
    {latest done : Array Nat} (hsize : latest.size = hashMask.toNat + 1)
    (hlatest : latest.getD (hashAt (Array.replicate minCopy octet) 0) 0 = index - 1)
    (hplaces : index + places + minCopy = count + 1) :
    (linksOnto (Array.replicate count octet) latest done index).toList =
      done.toList ++ (List.range' index places).map (· - 1) := by
  induction places generalizing latest done index with
  | zero =>
    rw [linksOnto, if_neg (by rw [Array.size_replicate]; omega)]
    simp
  | succ places ih =>
    have hinside : index + minCopy ≤ count := by omega
    rw [linksOnto, if_pos (by rw [Array.size_replicate]; exact hinside)]
    dsimp only
    rw [hashAt_replicate octet hinside, hlatest, ih (by simpa using hsize) ?_ (by omega)]
    · simp [List.range'_succ]
    · have hslot := hashAt_lt (Array.replicate minCopy octet) 0
      rw [← hsize] at hslot
      simp [Array.getD_eq_getD_getElem?, hslot]

/-- Where there is one octet only, each place leads back to the one before it. -/
theorem links_replicate (octet : UInt8) {count places : Nat} (h : places + minCopy = count + 1) :
    links (Array.replicate count octet) = ((List.range places).map (· - 1)).toArray := by
  have hlatest : (Array.replicate (hashMask.toNat + 1) 0).getD
      (hashAt (Array.replicate minCopy octet) 0) 0 = 0 - 1 := by
    have hslot := hashAt_lt (Array.replicate minCopy octet) 0
    simp [Array.getD_eq_getD_getElem?, hslot]
  have hlist : (linksOnto (Array.replicate count octet) (Array.replicate (hashMask.toNat + 1) 0)
      (Array.mkEmpty count) 0).toList = [] ++ (List.range' 0 places).map (· - 1) :=
    toList_linksOnto_replicate (by simp) hlatest (by omega)
  apply Array.toList_inj.1
  rw [links, Array.size_replicate, hlist, List.range_eq_range']
  rfl

end ReadThrough.Deflate
