import Mathlib.Algebra.Ring.Nat
import ReadThrough.Proofs.Cache.Checked
import ReadThrough.Proofs.Cache.Lookup

/-!
# The size of a cache is the sum of its entries' sizes

A cache keeps the sum of the sizes by hand: every path that removes an entry takes its size off, and
an insertion adds one. `Sound` says that the sum is exact and within the bound, and that the entries
state their sizes truly. Removing entries and making room keep a cache sound, and compute with the
true numbers (`removeChecked_eq`, `makeRoomChecked_eq`).

## Why there is always room

A walk lists all entries, so the sizes along it add up to the size of the cache. Taking them off one
by one reaches zero at the end of the walk at the latest, and a content within the bound fits then
(`victims_fit`).
-/

namespace ReadThrough

/-! ## Rows -/

/-- The sum of the stored sizes of some rows. -/
def storedTotal (rows : List (String × Entry)) : Nat :=
  (rows.map fun row => row.2.storedSize.toNat).sum

@[simp] theorem storedTotal_nil : storedTotal [] = 0 := rfl

@[simp] theorem storedTotal_cons (key : String) (e : Entry) (rows : List (String × Entry)) :
    storedTotal ((key, e) :: rows) = e.storedSize.toNat + storedTotal rows := by
  simp [storedTotal]

theorem storedTotal_append (front back : List (String × Entry)) :
    storedTotal (front ++ back) = storedTotal front + storedTotal back := by
  simp [storedTotal]

theorem storedTotal_perm {rows rows' : List (String × Entry)} (h : rows.Perm rows') :
    storedTotal rows = storedTotal rows' :=
  (h.map _).sum_nat

theorem Table.nodup_rows {κ α : Type} (t : Table κ α) : t.rows.Nodup :=
  List.Pairwise.of_map Prod.fst (fun _ _ hne he => hne (congrArg Prod.fst he)) t.nodup

/-- A table is one of its rows and the table without it. -/
theorem Table.perm_cons_erase {κ α : Type} [DecidableEq κ] {t : Table κ α} {key : κ} {value : α}
    (h : t.find? key = some value) : t.rows.Perm ((key, value) :: (t.erase key).rows) := by
  have hcons : ((key, value) :: (t.erase key).rows).Nodup := by
    refine List.nodup_cons.mpr ⟨fun hmem => ?_, (t.erase key).nodup_rows⟩
    exact t.not_mem_keys_erase key (List.mem_map_of_mem hmem)
  refine (List.perm_ext_iff_of_nodup t.nodup_rows hcons).mpr fun row => ?_
  obtain ⟨other, found⟩ := row
  rw [List.mem_cons, Table.mem_rows_iff, Table.mem_rows_iff, Table.find?_erase]
  by_cases hkey : other = key
  · subst hkey
    simp [h, eq_comm]
  · simp [hkey]

/-- A row for a new key goes to the end. -/
theorem Table.rows_insert_of_find?_eq_none {κ α : Type} [DecidableEq κ] {t : Table κ α} {key : κ}
    {value : α} (h : t.find? key = none) :
    (t.insert key value).rows = t.rows ++ [(key, value)] := by
  have herase : (t.erase key).rows = t.rows := by
    refine List.filter_eq_self.mpr fun row hrow => ?_
    simpa using fun he : row.1 = key =>
      Table.find?_eq_none_iff.mp h (List.mem_map.mpr ⟨row, hrow, he⟩)
  show (t.erase key).rows ++ [(key, value)] = _
  rw [herase]

/-- What a row stands for is freed by its erasure. -/
theorem storedTotal_erase {t : Table String Entry} {key : String} {e : Entry}
    (h : t.find? key = some e) :
    storedTotal (t.erase key).rows + e.storedSize.toNat = storedTotal t.rows := by
  rw [storedTotal_perm (t.perm_cons_erase h), storedTotal_cons, Nat.add_comm]

/-! ## Entries -/

/-- The sizes an entry states are those of its copies, and its compressed copy is of use. -/
structure Entry.WellSized (e : Entry) : Prop where
  rawSize : e.rawSize.toNat = e.raw.length
  smaller : ∀ copy, e.packed = some copy → copy.length < e.raw.length
  packedSize : e.packedSize.toNat = (e.packed.map List.length).getD 0
  storedSize : e.storedSize.toNat = (e.packed.getD e.raw).length

theorem toNat_ofNat_of_le {n : Nat} {bound : UInt64} (h : n ≤ bound.toNat) :
    (UInt64.ofNat n).toNat = n := by
  have := bound.toNat_lt
  rw [UInt64.toNat_ofNat', Nat.mod_eq_of_lt (by omega)]

/-- A new entry is well-sized if the size of its content is a word. -/
theorem wellSized_make {bound : UInt64} (key : String) {raw : Bytes} (packed : Option Bytes)
    (metadata : Metadata) (expires : Instant) (h : raw.length ≤ bound.toNat) :
    (Entry.make key raw packed metadata expires).WellSized := by
  have hraw : (UInt64.ofNat raw.length).toNat = raw.length := toNat_ofNat_of_le h
  unfold Entry.make
  cases hkept : packed.filter fun copy => decide (copy.length < raw.length) with
  | none => exact ⟨hraw, by simp, by simp, by simpa [Entry.storedSize, Entry.isPacked] using hraw⟩
  | some copy =>
    have hlt : copy.length < raw.length := by
      simpa using (Option.filter_eq_some_iff.mp hkept).2
    have hcopy : (UInt64.ofNat copy.length).toNat = copy.length :=
      toNat_ofNat_of_le (Nat.le_trans (Nat.le_of_lt hlt) h)
    refine ⟨hraw, ?_, by simpa using hcopy, by simpa [Entry.storedSize, Entry.isPacked] using hcopy⟩
    intro other hother
    obtain rfl := Option.some.inj hother
    exact hlt

/-- The copy that counts is no larger than the content. -/
theorem Entry.WellSized.storedSize_le {e : Entry} (h : e.WellSized) :
    e.storedSize.toNat ≤ e.raw.length := by
  rw [h.storedSize]
  cases hpacked : e.packed with
  | none => exact Nat.le_refl _
  | some copy => exact Nat.le_of_lt (h.smaller copy hpacked)

namespace Cache

/-! ## Sound caches -/

/-- The sum is exact and within the bound, and the entries are what they say. -/
structure Sound (c : Cache) : Prop where
  exact : c.currentSize.toNat = storedTotal c.entries.rows
  bounded : c.currentSize.toNat ≤ c.maxSize.toNat
  keyed : ∀ row ∈ c.entries.rows, row.2.key = row.1
  sized : ∀ row ∈ c.entries.rows, row.2.WellSized ∧ row.2.raw.length ≤ c.maxSize.toNat

theorem sound_empty (maxSize : UInt64) (ttl : Nat) (policy : CompressionPolicy) :
    (empty maxSize ttl policy).Sound where
  exact := rfl
  bounded := Nat.zero_le _
  keyed := fun _ hmem => absurd hmem List.not_mem_nil
  sized := fun _ hmem => absurd hmem List.not_mem_nil

/-- The sum is exact and within the bound, whatever the entries say of themselves. -/
structure Measured (c : Cache) : Prop where
  exact : c.currentSize.toNat = storedTotal c.entries.rows
  bounded : c.currentSize.toNat ≤ c.maxSize.toNat

theorem Sound.measured {c : Cache} (h : c.Sound) : c.Measured :=
  ⟨h.exact, h.bounded⟩

theorem Measured.storedSize_le {c : Cache} (h : c.Measured) {key : String} {e : Entry}
    (hfound : c.find? key = some e) : e.storedSize.toNat ≤ c.currentSize.toNat := by
  have := storedTotal_erase hfound
  have := h.exact
  omega

/-! ## Removing -/

theorem lessChecked_eq {size part : UInt64} (h : part.toNat ≤ size.toNat) :
    lessChecked size part = .ok (less size part) := by
  unfold lessChecked less
  rw [if_pos h, if_pos (UInt64.le_iff_toNat_le.mpr h)]

theorem toNat_less (size part : UInt64) :
    (less size part).toNat = size.toNat - part.toNat := by
  unfold less
  split
  · next hle => exact UInt64.toNat_sub_of_le _ _ hle
  · next hgt =>
    rw [UInt64.not_le, UInt64.lt_iff_toNat_lt] at hgt
    exact (Nat.sub_eq_zero_of_le (Nat.le_of_lt hgt)).symm

theorem sumChecked_eq {a b : UInt64} (h : a.toNat + b.toNat < UInt64.size) :
    sumChecked a b = .ok (a + b) := by
  unfold sumChecked
  rw [if_pos h]

theorem toNat_sum {a b : UInt64} (h : a.toNat + b.toNat < UInt64.size) :
    (a + b).toNat = a.toNat + b.toNat := by
  rw [UInt64.toNat_add, Nat.mod_eq_of_lt h]

theorem removeChecked_eq {c : Cache} (h : c.Sound) (key : String) :
    c.removeChecked key = .ok (c.remove key) := by
  unfold removeChecked
  split
  · next hnone => rw [remove_of_find?_eq_none hnone]
  · next e hfound =>
    rw [lessChecked_eq (h.measured.storedSize_le hfound), remove_of_find?_eq_some hfound]
    rfl

theorem mem_rows_remove {c : Cache} {key : String} {row : String × Entry} :
    row ∈ (c.remove key).entries.rows ↔ row ∈ c.entries.rows ∧ row.1 ≠ key := by
  refine ⟨mem_rows_of_mem_remove, fun ⟨hrow, hne⟩ => ?_⟩
  obtain ⟨other, e⟩ := row
  rw [Table.mem_rows_iff] at hrow ⊢
  have hfind := c.find?_remove key other
  rw [if_neg hne] at hfind
  exact hfind.trans hrow

theorem currentSize_remove {c : Cache} (h : c.Measured) {key : String} {e : Entry}
    (hfound : c.find? key = some e) :
    (c.remove key).currentSize.toNat + e.storedSize.toNat = c.currentSize.toNat := by
  have hle := h.storedSize_le hfound
  rw [remove_of_find?_eq_some hfound]
  show (less c.currentSize e.storedSize).toNat + _ = _
  rw [toNat_less]
  omega

theorem Measured.remove {c : Cache} (h : c.Measured) (key : String) :
    (c.remove key).Measured := by
  cases hfound : c.find? key with
  | none => rwa [remove_of_find?_eq_none hfound]
  | some e =>
    have hsize := currentSize_remove h hfound
    have htotal := storedTotal_erase hfound
    have hexact := h.exact
    have hbounded := h.bounded
    refine ⟨?_, ?_⟩
    · rw [remove_of_find?_eq_some hfound] at hsize ⊢
      show _ = storedTotal (c.entries.erase key).rows
      omega
    · rw [(c.sameTerms_remove key).maxSize]
      omega

theorem Sound.remove {c : Cache} (h : c.Sound) (key : String) : (c.remove key).Sound := by
  have hleft := h.measured.remove key
  have hrows : ∀ row ∈ (c.remove key).entries.rows, row ∈ c.entries.rows :=
    fun row hrow => (mem_rows_remove.mp hrow).1
  refine ⟨hleft.exact, hleft.bounded, fun row hrow => h.keyed row (hrows row hrow), ?_⟩
  rw [(c.sameTerms_remove key).maxSize]
  exact fun row hrow => h.sized row (hrows row hrow)

theorem removeAll_cons (c : Cache) (key : String) (e : Entry) (rows : List (String × Entry)) :
    c.removeAll ((key, e) :: rows) = (c.remove key).removeAll rows := rfl

theorem removeAllChecked_eq {c : Cache} (h : c.Sound) (rows : List (String × Entry)) :
    c.removeAllChecked rows = .ok (c.removeAll rows) := by
  induction rows generalizing c with
  | nil => rfl
  | cons row rows ih =>
    rw [removeAllChecked, removeChecked_eq h, removeAll_cons]
    exact ih (h.remove row.1)

theorem Measured.removeAll {c : Cache} (h : c.Measured) (rows : List (String × Entry)) :
    (c.removeAll rows).Measured := by
  induction rows generalizing c with
  | nil => exact h
  | cons row rows ih => exact ih (h.remove row.1)

theorem Sound.removeAll {c : Cache} (h : c.Sound) (rows : List (String × Entry)) :
    (c.removeAll rows).Sound := by
  induction rows generalizing c with
  | nil => exact h
  | cons row rows ih => exact ih (h.remove row.1)

/-- Removing rows frees what they stand for. -/
theorem currentSize_removeAll {c : Cache} (h : c.Measured) {rows : List (String × Entry)}
    (hrows : ∀ row ∈ rows, row ∈ c.entries.rows) (hkeys : (rows.map Prod.fst).Nodup) :
    (c.removeAll rows).currentSize.toNat + storedTotal rows = c.currentSize.toNat := by
  induction rows generalizing c with
  | nil => rfl
  | cons row rows ih =>
    obtain ⟨key, e⟩ := row
    rw [List.map_cons, List.nodup_cons] at hkeys
    have hfound : c.find? key = some e := Table.mem_rows_iff.mp (hrows _ List.mem_cons_self)
    have hleft : ∀ other ∈ rows, other ∈ (c.remove key).entries.rows := by
      intro other hother
      refine mem_rows_remove.mpr ⟨hrows other (List.mem_cons_of_mem _ hother), fun he => hkeys.1 ?_⟩
      exact List.mem_map.mpr ⟨other, hother, he⟩
    have hfirst := currentSize_remove h hfound
    have hrest := ih (h.remove key) hleft hkeys.2
    rw [removeAll_cons, storedTotal_cons]
    omega

/-! ## Making room -/

theorem victims_prefix_rows (maxSize incoming current : UInt64) (rows : List (String × Entry)) :
    victims maxSize incoming current rows <+: rows := by
  induction rows generalizing current with
  | nil => exact List.prefix_refl _
  | cons row rows ih =>
    rw [victims]
    split
    · exact List.nil_prefix
    · exact (List.prefix_cons_inj row).mpr (ih _)

section victims

variable {maxSize incoming current : UInt64} {rows : List (String × Entry)}

theorem victimsChecked_eq (hcurrent : current.toNat = storedTotal rows)
    (hsum : current.toNat + incoming.toNat < UInt64.size) :
    victimsChecked maxSize incoming current rows = .ok (victims maxSize incoming current rows) := by
  induction rows generalizing current with
  | nil => rfl
  | cons row rows ih =>
    obtain ⟨key, e⟩ := row
    rw [storedTotal_cons] at hcurrent
    have hpart : e.storedSize.toNat ≤ current.toNat := by omega
    have hleft := toNat_less current e.storedSize
    rw [victimsChecked, victims, sumChecked_eq hsum]
    by_cases hfits : current + incoming ≤ maxSize
    · simp only [hfits, bind, Except.bind, if_true, pure, Except.pure]
    · have hrest : victimsChecked maxSize incoming (less current e.storedSize) rows =
          .ok (victims maxSize incoming (less current e.storedSize) rows) :=
        ih (by omega) (by omega)
      simp only [hfits, bind, Except.bind, if_false, lessChecked_eq hpart, hrest, pure,
        Except.pure]

/-- What is left after the victims of a whole walk has room. -/
theorem victims_fit (hcurrent : current.toNat = storedTotal rows)
    (hsum : current.toNat + incoming.toNat < UInt64.size)
    (hincoming : incoming.toNat ≤ maxSize.toNat) :
    current.toNat + incoming.toNat ≤
      maxSize.toNat + storedTotal (victims maxSize incoming current rows) := by
  induction rows generalizing current with
  | nil =>
    rw [storedTotal_nil] at hcurrent
    omega
  | cons row rows ih =>
    obtain ⟨key, e⟩ := row
    rw [storedTotal_cons] at hcurrent
    have hpart : e.storedSize.toNat ≤ current.toNat := by omega
    have hleft := toNat_less current e.storedSize
    rw [victims]
    split
    · next hfits =>
      rw [UInt64.le_iff_toNat_le, toNat_sum hsum] at hfits
      omega
    · have hrest : (less current e.storedSize).toNat + incoming.toNat ≤
          maxSize.toNat + storedTotal (victims maxSize incoming (less current e.storedSize) rows) :=
        ih (by omega) (by omega)
      rw [storedTotal_cons]
      omega

end victims

section makeRoom

variable {c : Cache} {incoming : UInt64}

theorem toNat_currentSize_add (h : c.Measured) (hmax : c.maxSize.toNat < 2 ^ 63)
    (hincoming : incoming.toNat ≤ c.maxSize.toNat) :
    c.currentSize.toNat + incoming.toNat < UInt64.size := by
  have hbounded := h.bounded
  have : UInt64.size = 2 ^ 64 := rfl
  omega

/-- The rows that have to go, in the order of a walk. -/
def gone (c : Cache) (m : Moment) (incoming : UInt64) : List (String × Entry) :=
  victims c.maxSize incoming c.currentSize (m.walk c.entries.rows)

theorem storedTotal_walk (c : Cache) (m : Moment) :
    storedTotal (m.walk c.entries.rows) = storedTotal c.entries.rows :=
  storedTotal_perm (m.walk_perm _)

theorem mem_rows_of_mem_gone {m : Moment} {row : String × Entry} (h : row ∈ c.gone m incoming) :
    row ∈ c.entries.rows :=
  (m.walk_perm _).mem_iff.mp ((victims_prefix_rows _ _ _ _).subset h)

theorem nodup_keys_gone (c : Cache) (m : Moment) (incoming : UInt64) :
    ((c.gone m incoming).map Prod.fst).Nodup := by
  have hwalk : ((m.walk c.entries.rows).map Prod.fst).Nodup :=
    ((m.walk_perm _).map Prod.fst).nodup_iff.mpr c.entries.nodup
  exact hwalk.sublist ((victims_prefix_rows _ _ _ _).sublist.map Prod.fst)

theorem makeRoomChecked_eq (h : c.Sound) (hmax : c.maxSize.toNat < 2 ^ 63) (m : Moment)
    (hincoming : incoming.toNat ≤ c.maxSize.toNat) :
    c.makeRoomChecked m incoming = .ok (c.makeRoom m incoming) := by
  have hsum := toNat_currentSize_add h.measured hmax hincoming
  have hwalk : c.currentSize.toNat = storedTotal (m.walk c.entries.rows) := by
    rw [storedTotal_walk, h.exact]
  unfold makeRoomChecked makeRoom
  rw [sumChecked_eq hsum, victimsChecked_eq hwalk hsum]
  by_cases hfull : c.maxSize < c.currentSize + incoming
  · simp only [hfull, bind, Except.bind, if_true, removeAllChecked_eq h, pure, Except.pure]
  · simp only [hfull, bind, Except.bind, if_false, pure, Except.pure]

theorem Measured.makeRoom (h : c.Measured) (m : Moment) (incoming : UInt64) :
    (c.makeRoom m incoming).1.Measured := by
  unfold Cache.makeRoom
  split
  · have hleft := h.removeAll (c.gone m incoming)
    exact ⟨hleft.exact, hleft.bounded⟩
  · exact h

theorem Sound.makeRoom (h : c.Sound) (m : Moment) (incoming : UInt64) :
    (c.makeRoom m incoming).1.Sound := by
  unfold Cache.makeRoom
  split
  · have hleft := h.removeAll (c.gone m incoming)
    exact ⟨hleft.exact, hleft.bounded, hleft.keyed, hleft.sized⟩
  · exact h

theorem currentSize_makeRoom (h : c.Measured) (hmax : c.maxSize.toNat < 2 ^ 63) (m : Moment)
    (hincoming : incoming.toNat ≤ c.maxSize.toNat) :
    (c.makeRoom m incoming).1.currentSize.toNat + incoming.toNat ≤ c.maxSize.toNat := by
  have hsum := toNat_currentSize_add h hmax hincoming
  unfold Cache.makeRoom
  split
  · have hwalk : c.currentSize.toNat = storedTotal (m.walk c.entries.rows) := by
      rw [storedTotal_walk, h.exact]
    have hfit := victims_fit hwalk hsum hincoming
    have hfreed := currentSize_removeAll h (fun _ hrow => mem_rows_of_mem_gone hrow)
      (c.nodup_keys_gone m incoming)
    show (c.removeAll (c.gone m incoming)).currentSize.toNat + _ ≤ _
    unfold gone at hfreed ⊢
    omega
  · next hroom =>
    rw [UInt64.not_lt, UInt64.le_iff_toNat_le, toNat_sum hsum] at hroom
    exact hroom

end makeRoom

end Cache

end ReadThrough
