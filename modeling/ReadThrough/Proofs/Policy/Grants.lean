import ReadThrough.Policy.AccessPolicy
import ReadThrough.Proofs.Text.Blank

/-!
# What a policy list grants

A policy list is read from the front: each of its items is trimmed, divided and looked at, and a
later one takes the place of an earlier one. Here the same is said of the list as it is written.

* `Gives` — an item gives a bucket a permission, whatever blanks stand around its parts
* `LastGives` — of the items that give the bucket a permission, the last one gives this one
* `permission?_parse_eq_some_iff` — that is the permission that the policy knows
* `allows_parse_iff` — and the policy lets the methods that it opens
-/

namespace ReadThrough

/-! ## Permissions -/

namespace Permission

/-- The methods that a permission opens a bucket for. -/
def Opens (permission : Permission) (method : String) : Prop :=
  if method = "GET" ∨ method = "HEAD" then permission = read ∨ permission = all
  else if method = "PUT" ∨ method = "DELETE" then permission = write ∨ permission = all
  else permission = all

theorem allows_iff_opens {permission : Permission} {method : String} :
    permission.allows (.ofMethod method) = true ↔ permission.Opens method := by
  unfold Opens Operation.ofMethod
  split
  · cases permission <;> simp [allows]
  · split
    · cases permission <;> simp [allows]
    · cases permission <;> simp [allows]

theorem parse?_eq_some_iff {text : List Char} {permission : Permission} :
    parse? text = some permission ↔ wordOf text = permission.name.toList := by
  constructor
  · intro h
    have hname := List.find?_some h
    exact (beq_iff_eq.1 hname).symm
  · intro h
    rw [parse?, h]
    exact ofName?_name permission

end Permission

/-! ## Items -/

namespace AccessPolicy

/--
An item gives a bucket a permission: the two stand before and after its first colon. Blanks around
them do not count, nor does the case of the letters of the permission.
-/
def Gives (item : List Char) (bucket : String) (permission : Permission) : Prop :=
  ∃ before after, item = before ++ ':' :: after ∧ ':' ∉ before ∧
    Text.trim before = bucket.toList ∧ bucket ≠ "" ∧
    Text.lower (Text.trim after) = permission.name.toList

/-- The last of the items that give the bucket a permission gives it this one. -/
def LastGives (list bucket : String) (permission : Permission) : Prop :=
  ∃ front item back, list.toList.splitOn ',' = front ++ item :: back ∧
    Gives item bucket permission ∧ ∀ other ∈ back, ∀ p, ¬ Gives other bucket p

theorem parseItem_eq_ok_iff {item : List Char} {bucket : String} {permission : Permission} :
    parseItem item = .ok (bucket, permission) ↔ Gives item bucket permission := by
  constructor
  · intro h
    unfold parseItem at h
    split at h
    · cases h
    · next before after hcut =>
      dsimp only at h
      split at h
      · cases h
      · next hbucket =>
        split at h
        · cases h
        · next hparse =>
          obtain ⟨rfl, rfl⟩ := Prod.mk.inj (Except.ok.inj h)
          obtain ⟨hitem, hbefore⟩ := Text.cut?_eq_some_iff.1 hcut
          exact ⟨before, after, hitem, hbefore, String.toList_ofList.symm,
            fun hempty => hbucket (String.ofList_eq_empty_iff.1 hempty),
            Permission.parse?_eq_some_iff.1 hparse⟩
  · rintro ⟨before, after, hitem, hbefore, htrim, hbucket, hword⟩
    have hcut := Text.cut?_eq_some_iff.2 ⟨hitem, hbefore⟩
    have hname : bucket.toList ≠ [] := fun hempty => hbucket (String.toList_eq_nil_iff.1 hempty)
    have hparse : Permission.parse? after = some permission :=
      Permission.parse?_eq_some_iff.2 hword
    unfold parseItem
    simp only [hcut, htrim, hparse, if_neg hname, String.ofList_toList]

theorem gives_append_cons_iff {before after : List Char} {bucket : String}
    {permission : Permission} (hbefore : ':' ∉ before) :
    Gives (before ++ ':' :: after) bucket permission ↔
      Text.trim before = bucket.toList ∧ bucket ≠ "" ∧
        Text.lower (Text.trim after) = permission.name.toList := by
  constructor
  · rintro ⟨before', after', hitem, hbefore', hgives⟩
    have hcut := Text.cut?_eq_some_iff.2 ⟨hitem, hbefore'⟩
    rw [Text.cut?_append hbefore] at hcut
    obtain ⟨rfl, rfl⟩ := Prod.mk.inj (Option.some.inj hcut)
    exact hgives
  · intro hgives
    exact ⟨before, after, rfl, hbefore, hgives⟩

/-- Blanks around an item do not count. -/
theorem gives_trim_iff {item : List Char} {bucket : String} {permission : Permission} :
    Gives (Text.trim item) bucket permission ↔ Gives item bucket permission := by
  by_cases hcolon : ':' ∈ item
  · obtain ⟨before, after, rfl, hbefore⟩ := List.eq_append_cons_of_mem hcolon
    have hstart : ':' ∉ Text.trimStart before := fun hmem =>
      hbefore (Text.mem_of_mem_trimStart hmem)
    have hblank : Text.isBlank ':' = false := by decide
    rw [Text.trim_append_cons hblank, gives_append_cons_iff hstart, gives_append_cons_iff hbefore,
      Text.trim_trimStart, Text.trim_trimEnd]
  · constructor
    · rintro ⟨before, after, hitem, -⟩
      exact absurd (Text.mem_of_mem_trim (by simp [hitem])) hcolon
    · rintro ⟨before, after, rfl, -⟩
      exact absurd (by simp) hcolon

/-! ## Lists of items -/

/-- What a list of items writes, item by item: blank items need not be told apart. -/
theorem filterMap_items (list : String) :
    ((items list).filterMap fun item => (parseItem item).toOption) =
      (list.toList.splitOn ',').filterMap fun item => (parseItem (Text.trim item)).toOption := by
  unfold items
  rw [List.filterMap_filter, List.filterMap_map]
  refine List.filterMap_congr fun item _ => ?_
  by_cases hblank : Text.trim item = []
  · simp [hblank, parseItem, Text.cut?, Except.toOption]
  · simp [hblank]

/-- The last of the rows that a list gives rise to under a key. -/
theorem lookup_reverse_filterMap_eq_some_iff {α κ β : Type} [DecidableEq κ]
    {f : α → Option (κ × β)} {l : List α} {key : κ} {value : β} :
    (l.filterMap f).reverse.lookup key = some value ↔
      ∃ front a back, l = front ++ a :: back ∧ f a = some (key, value) ∧
        ∀ b ∈ back, ∀ other, f b ≠ some (key, other) := by
  constructor
  · intro h
    obtain ⟨l₁, l₂, hrows, hothers⟩ := List.lookup_eq_some_iff.1 h
    -- turned round, the rows before the one that is found are those that come after it
    have hsplit : l.filterMap f = l₂.reverse ++ (key, value) :: l₁.reverse := by
      rw [← List.reverse_reverse (l.filterMap f), hrows]
      simp
    obtain ⟨m₁, m₂, rfl, -, hm⟩ := List.filterMap_eq_append_iff.1 hsplit
    obtain ⟨n₁, a, n₂, rfl, -, ha, hn⟩ := List.filterMap_eq_cons_iff.1 hm
    refine ⟨m₁ ++ n₁, a, n₂, by simp, ha, ?_⟩
    intro b hb other hfound
    have hrow : (key, other) ∈ l₁ := by
      rw [← List.mem_reverse, ← hn]
      exact List.mem_filterMap.2 ⟨b, hb, hfound⟩
    simpa using hothers (key, other) hrow
  · rintro ⟨front, a, back, rfl, ha, hback⟩
    refine List.lookup_eq_some_iff.2
      ⟨(back.filterMap f).reverse, (front.filterMap f).reverse, by simp [ha], ?_⟩
    rintro ⟨other, found⟩ hrow
    obtain ⟨b, hb, hfound⟩ := List.mem_filterMap.1 (List.mem_reverse.1 hrow)
    have hne : key ≠ other := by
      rintro rfl
      exact hback b hb found hfound
    simpa using hne

/-- The policy that a list writes knows what the last item for a bucket gives. -/
theorem permission?_parse_eq_some_iff {list bucket : String} {permission : Permission} :
    (parse list).permission? bucket = some permission ↔ LastGives list bucket permission := by
  have hgives : ∀ item bucket permission,
      (parseItem (Text.trim item)).toOption = some (bucket, permission) ↔
        Gives item bucket permission := by
    intro item bucket permission
    rw [← gives_trim_iff, ← parseItem_eq_ok_iff]
    cases parseItem (Text.trim item) <;> simp [Except.toOption]
  rw [permission?, parse, Table.find?_ofRows, filterMap_items,
    lookup_reverse_filterMap_eq_some_iff]
  simp only [hgives, ne_eq, LastGives]

/-- The policy that a list writes lets the methods that the last item for a bucket opens. -/
theorem allows_parse_iff {list bucket method : String} :
    (parse list).allows bucket method = true ↔
      ∃ permission, LastGives list bucket permission ∧ permission.Opens method := by
  unfold allows
  cases hfound : (parse list).permission? bucket with
  | none =>
    constructor
    · intro h
      cases h
    · rintro ⟨permission, hlast, -⟩
      rw [permission?_parse_eq_some_iff.2 hlast] at hfound
      cases hfound
  | some permission =>
    dsimp only
    rw [Permission.allows_iff_opens]
    constructor
    · intro hopens
      exact ⟨permission, permission?_parse_eq_some_iff.1 hfound, hopens⟩
    · rintro ⟨other, hlast, hopens⟩
      rw [permission?_parse_eq_some_iff.2 hlast, Option.some.injEq] at hfound
      exact hfound ▸ hopens

end AccessPolicy

end ReadThrough
