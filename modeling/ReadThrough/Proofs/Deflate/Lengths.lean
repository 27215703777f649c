import ReadThrough.Deflate.Lengths
import ReadThrough.Proofs.Deflate.Canonical

/-!
# The lengths that are chosen use up every word

Tying bundles together makes a tree, and the leaves of a tree use up every word (`full_joinAll`).
Cutting the depths down to the limit takes up too much room; each of the longest words that are
given up gives back the room of one word (`Overfull.relieve`), and there are enough of them to get
down to what there is (`Overfull.fitted`).

* `used_wordLengths_perm` — the chosen lengths are those that fit
* `volume_wordLengths` — with at least two symbols they use up every word
* `exists_wordLength` — a symbol that occurs has a word
-/

namespace ReadThrough.Deflate

/-! ## Bundles -/

/-- Words of these lengths, or longer ones that start with them, are all the words there are. -/
def Full (depths : List Nat) : Prop :=
  ∀ greatest, (∀ depth ∈ depths, depth ≤ greatest) → volume greatest depths = 2 ^ greatest

theorem full_root : Full [0] := by
  intro greatest _
  rw [volume_cons, volume_nil, Nat.sub_zero, Nat.add_zero]

theorem Full.exists_mem {depths : List Nat} (h : Full depths) : ∃ depth, depth ∈ depths := by
  refine List.exists_mem_of_ne_nil depths fun hnil => ?_
  subst hnil
  have hvolume := h 0 fun _ hmem => nomatch hmem
  cases hvolume

theorem exists_ge (depths : List Nat) : ∃ greatest, ∀ depth ∈ depths, depth ≤ greatest := by
  induction depths with
  | nil => exact ⟨0, fun _ hmem => nomatch hmem⟩
  | cons depth depths ih =>
    obtain ⟨greatest, h⟩ := ih
    refine ⟨max depth greatest, List.forall_mem_cons.2 ⟨Nat.le_max_left _ _, fun other hmem => ?_⟩⟩
    exact Nat.le_trans (h other hmem) (Nat.le_max_right _ _)

theorem Full.pos {depths : List Nat} (h : Full depths) (htwo : 2 ≤ depths.length) {depth : Nat}
    (hdepth : depth ∈ depths) : 0 < depth := by
  refine Nat.pos_of_ne_zero fun hzero => ?_
  subst hzero
  -- a leaf at the root leaves no room for a second one
  obtain ⟨greatest, hgreatest⟩ := exists_ge depths
  have hperm := List.perm_cons_erase hdepth
  have hvolume := h greatest hgreatest
  rw [volume_perm hperm, volume_cons, Nat.sub_zero] at hvolume
  have hrest := eq_nil_of_volume_eq_zero (by omega : volume greatest (depths.erase 0) = 0)
  have hlength := hperm.length_eq
  rw [hrest, List.length_singleton] at hlength
  omega

namespace Bundle

theorem full_join {a b : Bundle} (ha : Full a.depths) (hb : Full b.depths) :
    Full (join a b).depths := by
  intro greatest hgreatest
  cases greatest with
  | zero =>
    obtain ⟨depth, hmem⟩ := ha.exists_mem
    have hdeeper := hgreatest _ (List.mem_map.2 ⟨depth, List.mem_append_left _ hmem, rfl⟩)
    exact absurd hdeeper (Nat.not_succ_le_zero depth)
  | succ below =>
    have hle : ∀ depth ∈ a.depths ++ b.depths, depth ≤ below := fun depth hmem =>
      Nat.le_of_succ_le_succ (hgreatest _ (List.mem_map.2 ⟨depth, hmem, rfl⟩))
    have hdeeper : volume (below + 1) (join a b).depths = volume below (a.depths ++ b.depths) := by
      simp only [volume, join, List.map_map, Function.comp_def, Nat.add_sub_add_right]
    rw [hdeeper, volume_append, ha below fun depth hmem => hle depth (List.mem_append_left _ hmem),
      hb below fun depth hmem => hle depth (List.mem_append_right _ hmem), Nat.pow_succ]
    omega

theorem insert_perm (bundle : Bundle) (others : List Bundle) :
    (insert bundle others).Perm (bundle :: others) := by
  induction others with
  | nil => exact List.Perm.refl _
  | cons other rest ih =>
    rw [insert]
    split
    · exact (ih.cons other).trans (List.Perm.swap bundle other rest)
    · exact List.Perm.refl _

/-- All symbols tied together are the leaves of a tree. -/
theorem full_joinAll {bundles : List Bundle} (hne : bundles ≠ [])
    (h : ∀ bundle ∈ bundles, Full bundle.depths) : Full (joinAll bundles) := by
  fun_induction joinAll bundles with
  | case1 => exact absurd rfl hne
  | case2 bundle => exact h bundle List.mem_cons_self
  | case3 a b rest ih =>
    have hperm := insert_perm (join a b) rest
    refine ih (fun hnil => ?_) fun bundle hmem => ?_
    · rw [hnil] at hperm
      exact List.cons_ne_nil _ _ hperm.nil_eq.symm
    · rcases List.mem_cons.1 (hperm.mem_iff.1 hmem) with rfl | hmem
      · exact full_join (h a (by simp)) (h b (by simp))
      · exact h bundle (List.mem_cons_of_mem _ (List.mem_cons_of_mem _ hmem))

theorem length_joinAll (bundles : List Bundle) :
    (joinAll bundles).length = (bundles.map fun bundle => bundle.depths.length).sum := by
  fun_induction joinAll bundles with
  | case1 => rfl
  | case2 bundle => simp
  | case3 a b rest ih =>
    rw [ih, ((insert_perm (join a b) rest).map _).sum_nat]
    simp only [join, List.map_cons, List.sum_cons, List.length_map, List.length_append]
    omega

end Bundle

/-! ## Counts of words -/

/-- The lengths of the words that are counted; the longest are counted first. -/
def spelled (limit : Nat) (counts : List Nat) : List Nat :=
  counts.zipIdx.flatMap fun (count, below) => List.replicate count (limit - below)

@[simp]
theorem room_cons (count : Nat) (shorter : List Nat) :
    room (count :: shorter) = count + 2 * room shorter :=
  rfl

theorem volume_replicate (greatest count length : Nat) :
    volume greatest (List.replicate count length) = count * 2 ^ (greatest - length) := by
  rw [volume, List.map_replicate, List.sum_replicate_nat]

theorem volume_spelled {limit : Nat} {counts : List Nat} (h : counts.length ≤ limit) :
    volume limit (spelled limit counts) = room counts := by
  suffices hfrom : ∀ start, start + counts.length ≤ limit →
      volume limit ((counts.zipIdx start).flatMap fun (count, below) =>
        List.replicate count (limit - below)) = 2 ^ start * room counts by
    have hall := hfrom 0 (by omega)
    rwa [Nat.pow_zero, Nat.one_mul] at hall
  clear h
  induction counts with
  | nil => exact fun _ _ => rfl
  | cons count shorter ih =>
    intro start hstart
    rw [List.length_cons] at hstart
    have hexponent : limit - (limit - start) = start := by omega
    rw [List.zipIdx_cons, List.flatMap_cons, volume_append, ih (start + 1) (by omega),
      volume_replicate, hexponent, room_cons, Nat.pow_succ, Nat.mul_add, Nat.mul_comm count,
      Nat.mul_assoc]

theorem length_spelled (limit : Nat) (counts : List Nat) :
    (spelled limit counts).length = counts.sum := by
  rw [spelled, List.length_flatMap]
  simp only [List.length_replicate]
  congr 1
  exact List.zipIdx_map_fst 0 counts

theorem range_of_mem_spelled {limit : Nat} {counts : List Nat} (h : counts.length ≤ limit)
    {length : Nat} (hmem : length ∈ spelled limit counts) : 0 < length ∧ length ≤ limit := by
  obtain ⟨⟨count, below⟩, hcount, hlength⟩ := List.mem_flatMap.1 hmem
  obtain ⟨-, rfl⟩ := List.mem_replicate.1 hlength
  have hbelow := List.snd_lt_of_mem_zipIdx hcount
  omega

/-! ## Limited lengths -/

/-- The length of the word for a symbol at some depth. -/
def cut (limit depth : Nat) : Nat :=
  min limit (max 1 depth)

theorem range_of_cut {limit : Nat} (hlimit : 0 < limit) (depth : Nat) :
    0 < cut limit depth ∧ cut limit depth ≤ limit := by
  unfold cut
  omega

theorem limited_eq (limit : Nat) (depths : List Nat) :
    limited limit depths = (List.range limit).map fun below =>
      (depths.map (cut limit)).countP (· == limit - below) :=
  rfl

theorem length_limited (limit : Nat) (depths : List Nat) :
    (limited limit depths).length = limit := by
  rw [limited_eq, List.length_map, List.length_range]

/-- Counted words are the words that were there. -/
theorem spelled_limited_perm {limit : Nat} (hlimit : 0 < limit) (depths : List Nat) :
    (spelled limit (limited limit depths)).Perm (depths.map (cut limit)) := by
  have hcounted : (limited limit depths).zipIdx = (List.range limit).map fun below =>
      ((depths.map (cut limit)).countP (· == limit - below), below) := by
    rw [limited_eq]
    exact List.ext_getElem (by simp) fun below _ _ => by simp
  have hspelled : spelled limit (limited limit depths) =
      ((List.range limit).map fun below => limit - below).flatMap fun length =>
        (depths.map (cut limit)).filter fun other => other == length := by
    rw [spelled, hcounted, List.flatMap_map, List.flatMap_map]
    congr 1
    funext below
    exact (List.filter_beq (limit - below)).symm
  have hlengths : ((List.range limit).map fun below => limit - below).Perm
      (List.range' 1 limit) := by
    refine (List.Perm.of_eq ?_).trans (List.reverse_perm (List.range' 1 limit))
    rw [List.reverse_range']
    exact List.map_congr_left fun below _ => by omega
  rw [hspelled]
  refine (hlengths.flatMap_right _).trans ?_
  refine (perm_flatMap_filter id (depths.map (cut limit)) limit).trans (List.Perm.of_eq ?_)
  refine List.filter_eq_self.2 fun length hmem => ?_
  obtain ⟨depth, -, rfl⟩ := List.mem_map.1 hmem
  simpa using range_of_cut hlimit depth

/-! ## Giving room back -/

theorem exists_ne_zero_of_room {counts : List Nat} (h : room counts ≠ 0) :
    ∃ count ∈ counts, count ≠ 0 := by
  induction counts with
  | nil => exact absurd rfl h
  | cons count shorter ih =>
    by_cases hcount : count = 0
    · rw [room_cons, hcount] at h
      obtain ⟨other, hmem, hother⟩ := ih (by omega)
      exact ⟨other, List.mem_cons_of_mem _ hmem, hother⟩
    · exact ⟨count, List.mem_cons_self, hcount⟩

/-- A shorter word becomes two longer ones, and the room stays the same. -/
theorem lengthen_spec {longer : Nat} {shorter : List Nat} (h : ∃ count ∈ shorter, count ≠ 0) :
    room (lengthen (longer :: shorter)) = room (longer :: shorter) ∧
      (lengthen (longer :: shorter)).sum = (longer :: shorter).sum + 1 ∧
      (lengthen (longer :: shorter)).length = (longer :: shorter).length ∧
      longer ≤ (lengthen (longer :: shorter)).headD 0 := by
  induction shorter generalizing longer with
  | nil =>
    obtain ⟨_, hmem, -⟩ := h
    cases hmem
  | cons count shorter ih =>
    rw [lengthen]
    split
    · next hzero =>
      subst hzero
      have hrest : ∃ count ∈ shorter, count ≠ 0 := by
        obtain ⟨count, hmem, hcount⟩ := h
        rcases List.mem_cons.1 hmem with rfl | hmem
        · exact absurd rfl hcount
        · exact ⟨count, hmem, hcount⟩
      obtain ⟨hroom, hsum, hlength, -⟩ := @ih 0 hrest
      refine ⟨by rw [room_cons, room_cons, hroom], ?_, ?_, Nat.le_refl _⟩
      · rw [List.sum_cons, hsum, List.sum_cons (a := longer), Nat.add_assoc]
      · rw [List.length_cons, hlength, List.length_cons (a := longer)]
    · next hcount =>
      refine ⟨?_, ?_, rfl, Nat.le_add_right _ _⟩
      · simp only [room_cons]
        omega
      · simp only [List.sum_cons]
        omega

/-- Counts that take up `more` words than there are, and have no fewer of the longest words. -/
structure Overfull (limit words more : Nat) (counts : List Nat) : Prop where
  room_eq : room counts = 2 ^ limit + more
  sum_eq : counts.sum = words
  length_eq : counts.length = limit
  longest : more ≤ counts.headD 0

theorem Overfull.relieve {limit words more : Nat} {counts : List Nat}
    (h : Overfull limit words (more + 1) counts) (hwords : words ≤ 2 ^ limit) :
    Overfull limit words more (relieve counts) := by
  obtain ⟨hroom, hsum, hlength, hlongest⟩ := h
  cases counts with
  | nil => cases hlongest
  | cons longest shorter =>
    rw [room_cons] at hroom
    rw [List.sum_cons] at hsum
    rw [List.headD_cons] at hlongest
    -- the longest words alone take up no more than there is, so that there are others
    have hother : ∃ count ∈ shorter, count ≠ 0 := exists_ne_zero_of_room (by omega)
    obtain ⟨hroom', hsum', hlength', hlongest'⟩ := @lengthen_spec (longest - 1) shorter hother
    rw [Deflate.relieve]
    rw [room_cons] at hroom'
    rw [List.sum_cons] at hsum'
    refine ⟨by omega, by omega, by rw [hlength', ← hlength]; rfl, by omega⟩

theorem Overfull.fitted {limit words more : Nat} {counts : List Nat}
    (h : Overfull limit words more counts) (hwords : words ≤ 2 ^ limit) :
    Overfull limit words 0 (Deflate.fitted limit counts) := by
  have hmore : room counts - 1 <<< limit = (List.range more).length := by
    rw [h.room_eq, Nat.one_shiftLeft, List.length_range, Nat.add_sub_cancel_left]
  suffices hall : ∀ steps : List Nat, ∀ counts, Overfull limit words steps.length counts →
      Overfull limit words 0 (steps.foldl (fun counts _ => Deflate.relieve counts) counts) by
    refine hall _ counts ?_
    rw [List.length_range, hmore, List.length_range]
    exact h
  intro steps
  induction steps with
  | nil => exact fun _ h => h
  | cons step steps ih => exact fun counts h => ih _ (h.relieve hwords)

/-! ## From depths to lengths -/

/-- Depths that are cut down take up at least what they did, and less than a word each more. -/
theorem volume_cut {limit more : Nat} {depths : List Nat}
    (hdepths : ∀ depth ∈ depths, 0 < depth ∧ depth ≤ limit + more) :
    volume (limit + more) depths ≤ 2 ^ more * volume limit (depths.map (cut limit)) ∧
      2 ^ more * volume limit (depths.map (cut limit)) ≤
        volume (limit + more) depths +
          2 ^ more * (depths.map (cut limit)).countP (· == limit) := by
  induction depths with
  | nil => exact ⟨Nat.le_refl _, Nat.le_refl _⟩
  | cons depth depths ih =>
    obtain ⟨⟨hpositive, hle⟩, hrest⟩ := List.forall_mem_cons.1 hdepths
    obtain ⟨hlow, hhigh⟩ := ih hrest
    simp only [List.map_cons, volume_cons, List.countP_cons, Nat.mul_add]
    by_cases hshort : depth ≤ limit
    · have hcut : cut limit depth = depth := by
        unfold cut
        omega
      have hexponent : limit + more - depth = more + (limit - depth) := by omega
      rw [hcut, hexponent, Nat.pow_add]
      omega
    · have hcut : cut limit depth = limit := by
        unfold cut
        omega
      have hsmall : 2 ^ (limit + more - depth) ≤ 2 ^ more :=
        Nat.pow_le_pow_right (by decide) (by omega)
      have hpositive' := Nat.two_pow_pos (limit + more - depth)
      simp only [hcut, Nat.sub_self, Nat.pow_zero, beq_self_eq_true, if_true, Nat.mul_one]
      omega

theorem headD_limited {limit : Nat} (hlimit : 0 < limit) (depths : List Nat) :
    (limited limit depths).headD 0 = (depths.map (cut limit)).countP (· == limit) := by
  rw [limited_eq]
  cases limit with
  | zero => cases hlimit
  | succ limit =>
    rw [List.range_succ_eq_map, List.map_cons, List.headD_cons, Nat.sub_zero]

theorem room_limited {limit : Nat} (hlimit : 0 < limit) (depths : List Nat) :
    room (limited limit depths) = volume limit (depths.map (cut limit)) := by
  rw [← volume_spelled (Nat.le_of_eq (length_limited limit depths)),
    volume_perm (spelled_limited_perm hlimit depths)]

/-- At least two symbols that are the leaves of a tree take up all words or too many. -/
theorem exists_overfull {limit : Nat} (hlimit : 0 < limit) {depths : List Nat} (h : Full depths)
    (htwo : 2 ≤ depths.length) :
    ∃ more, Overfull limit depths.length more (limited limit depths) := by
  obtain ⟨more, hgreatest⟩ : ∃ more, ∀ depth ∈ depths, depth ≤ limit + more := by
    obtain ⟨greatest, hgreatest⟩ := exists_ge depths
    exact ⟨greatest, fun depth hmem => Nat.le_trans (hgreatest depth hmem) (Nat.le_add_left _ _)⟩
  have hperm := spelled_limited_perm hlimit depths
  have hroom := room_limited hlimit depths
  have hsum : (limited limit depths).sum = depths.length := by
    rw [← length_spelled limit, hperm.length_eq, List.length_map]
  obtain ⟨hlow, hhigh⟩ :=
    volume_cut (fun depth hmem => ⟨h.pos htwo hmem, hgreatest depth hmem⟩)
  rw [h _ hgreatest, Nat.add_comm, Nat.pow_add, ← hroom] at hlow
  rw [h _ hgreatest, Nat.add_comm limit, Nat.pow_add, ← Nat.mul_add, ← hroom] at hhigh
  have hlow' := Nat.le_of_mul_le_mul_left hlow (Nat.two_pow_pos more)
  have hhigh' := Nat.le_of_mul_le_mul_left hhigh (Nat.two_pow_pos more)
  refine ⟨room (limited limit depths) - 2 ^ limit, by omega, hsum, length_limited limit depths, ?_⟩
  rw [headD_limited hlimit]
  omega

/-- The lengths of the words for symbols at these depths. -/
def fittedLengths (limit : Nat) (depths : List Nat) : List Nat :=
  spelled limit (fitted limit (limited limit depths))

/-- One length for each of the symbols; if there are at least two, they use up every word. -/
structure Fits (limit symbols : Nat) (lengths : List Nat) : Prop where
  length_eq : lengths.length = symbols
  range : ∀ length ∈ lengths, 0 < length ∧ length ≤ limit
  full : 2 ≤ symbols → volume limit lengths = 2 ^ limit
  lone : symbols ≤ 1 → lengths = List.replicate symbols 1

theorem fits_fittedLengths {limit : Nat} (hlimit : 0 < limit) {depths : List Nat}
    (h : Full depths) (htwo : 2 ≤ depths.length) (hmost : depths.length ≤ 2 ^ limit) :
    Fits limit depths.length (fittedLengths limit depths) := by
  obtain ⟨more, hoverfull⟩ := exists_overfull hlimit h htwo
  obtain ⟨hroom, hsum, hlength, -⟩ := hoverfull.fitted hmost
  refine ⟨by rw [fittedLengths, length_spelled, hsum], fun length hmem => ?_, fun _ => ?_,
    fun hone => absurd htwo (by omega)⟩
  · exact range_of_mem_spelled (Nat.le_of_eq hlength) hmem
  · rw [fittedLengths, volume_spelled (Nat.le_of_eq hlength), hroom, Nat.add_zero]

/-- Lengths that leave something over stay as they are. -/
theorem fittedLengths_perm {limit : Nat} (hlimit : 0 < limit) {depths : List Nat}
    (hroom : volume limit (depths.map (cut limit)) ≤ 2 ^ limit) :
    (fittedLengths limit depths).Perm (depths.map (cut limit)) := by
  have hsteps : room (limited limit depths) - 1 <<< limit = 0 := by
    rw [room_limited hlimit, Nat.one_shiftLeft]
    omega
  rw [fittedLengths, fitted, hsteps]
  exact spelled_limited_perm hlimit depths

theorem fits_nil {limit : Nat} (hlimit : 0 < limit) : Fits limit 0 (fittedLengths limit []) := by
  have hperm : (fittedLengths limit []).Perm [] := fittedLengths_perm hlimit (Nat.zero_le _)
  rw [hperm.eq_nil]
  exact ⟨rfl, fun _ hmem => (List.not_mem_nil hmem).elim, fun htwo => absurd htwo (by decide),
    fun _ => rfl⟩

theorem fits_root {limit : Nat} (hlimit : 0 < limit) : Fits limit 1 (fittedLengths limit [0]) := by
  have hcut : cut limit 0 = 1 := by
    unfold cut
    omega
  have hroom : volume limit ([0].map (cut limit)) ≤ 2 ^ limit := by
    rw [List.map_singleton, volume_cons, volume_nil, Nat.add_zero]
    exact Nat.pow_le_pow_right (by decide) (Nat.sub_le _ _)
  have hperm := fittedLengths_perm hlimit hroom
  rw [List.map_singleton, hcut] at hperm
  rw [hperm.eq_singleton]
  refine ⟨rfl, fun length hmem => ?_, fun htwo => absurd htwo (by decide), fun _ => rfl⟩
  obtain rfl := List.mem_singleton.1 hmem
  exact ⟨Nat.one_pos, hlimit⟩

/-! ## Lengths by symbol -/

theorem occurring_perm (counts : List Nat) :
    (occurring counts).Perm (counts.zipIdx.filter fun row => 0 < row.1) :=
  List.mergeSort_perm _ _

theorem nodup_occurring (counts : List Nat) : ((occurring counts).map Prod.snd).Nodup := by
  refine ((occurring_perm counts).map _).nodup_iff.2 ?_
  refine List.Nodup.sublist (List.filter_sublist.map _) ?_
  rw [List.zipIdx_map_snd]
  exact List.nodup_range'

theorem mem_occurring {counts : List Nat} {symbol : Nat} :
    symbol ∈ (occurring counts).map Prod.snd ↔
      ∃ count, counts[symbol]? = some count ∧ 0 < count := by
  rw [((occurring_perm counts).map _).mem_iff, List.mem_map]
  constructor
  · rintro ⟨⟨count, _⟩, hmem, rfl⟩
    obtain ⟨hmem, hpositive⟩ := List.mem_filter.1 hmem
    exact ⟨count, List.mem_zipIdx_iff_getElem?.1 hmem, by simpa using hpositive⟩
  · rintro ⟨count, hcount, hpositive⟩
    refine ⟨(count, symbol), List.mem_filter.2 ⟨?_, by simpa using hpositive⟩, rfl⟩
    exact List.mem_zipIdx_iff_getElem?.2 hcount

theorem length_occurring_le (counts : List Nat) : (occurring counts).length ≤ counts.length := by
  rw [(occurring_perm counts).length_eq]
  refine Nat.le_trans (List.length_filter_le _ _) ?_
  rw [List.length_zipIdx]

/-- The depths of the symbols that occur. -/
def depthsOf (counts : List Nat) : List Nat :=
  Bundle.joinAll ((occurring counts).map fun (count, _) => .ofCount count)

theorem length_depthsOf (counts : List Nat) :
    (depthsOf counts).length = (occurring counts).length := by
  have hone : ∀ bundle ∈ (occurring counts).map fun (count, _) => Bundle.ofCount count,
      bundle.depths.length = 1 := by
    intro bundle hmem
    obtain ⟨_, -, rfl⟩ := List.mem_map.1 hmem
    rfl
  rw [depthsOf, Bundle.length_joinAll, List.map_congr_left hone, List.map_const',
    List.sum_replicate_nat, List.length_map, Nat.mul_one]

theorem full_depthsOf {counts : List Nat} (hne : occurring counts ≠ []) :
    Full (depthsOf counts) := by
  refine Bundle.full_joinAll (fun hnil => hne (List.map_eq_nil_iff.1 hnil)) fun bundle hmem => ?_
  obtain ⟨_, -, rfl⟩ := List.mem_map.1 hmem
  exact full_root

/-- The lengths for the symbols that occur, the rarest first. -/
def chosenLengths (limit : Nat) (counts : List Nat) : List Nat :=
  fittedLengths limit (depthsOf counts)

theorem fits_chosenLengths {limit : Nat} (hlimit : 0 < limit) {counts : List Nat}
    (hmost : counts.length ≤ 2 ^ limit) :
    Fits limit (occurring counts).length (chosenLengths limit counts) := by
  have hle := length_occurring_le counts
  have hlength := length_depthsOf counts
  unfold chosenLengths
  match hrows : occurring counts with
  | [] =>
    have hdepths : depthsOf counts = [] := by
      rw [depthsOf, hrows, List.map_nil, Bundle.joinAll]
    rw [hdepths]
    exact fits_nil hlimit
  | [_] =>
    have hdepths : depthsOf counts = [0] := by
      rw [depthsOf, hrows, List.map_singleton, Bundle.joinAll]
      rfl
    rw [hdepths]
    exact fits_root hlimit
  | _ :: _ :: rest =>
    rw [hrows] at hlength hle
    have hfull : Full (depthsOf counts) := full_depthsOf (by rw [hrows]; exact List.cons_ne_nil _ _)
    simp only [List.length_cons] at hlength hle ⊢
    rw [← hlength]
    exact fits_fittedLengths hlimit hfull (by omega) (by omega)

/-- A list of rows without a key twice gives each of its values once. -/
theorem filterMap_lookup_perm {rows : List (Nat × Nat)} {keys : List Nat} (hkeys : keys.Nodup)
    (hnodup : (rows.map Prod.fst).Nodup) (hmem : ∀ row ∈ rows, row.1 ∈ keys) :
    (keys.filterMap fun key => rows.lookup key).Perm (rows.map Prod.snd) := by
  induction rows with
  | nil =>
    rw [List.filterMap_eq_nil_iff.2 fun key _ => List.lookup_nil]
    exact List.Perm.refl []
  | cons row rows ih =>
    obtain ⟨key, value⟩ := row
    obtain ⟨hkey, hrest⟩ := List.forall_mem_cons.1 hmem
    obtain ⟨hfresh, hnodup'⟩ := List.nodup_cons.1 hnodup
    have hperm := List.perm_cons_erase hkey
    -- the key gives its value, and was no key of the other rows
    have hnone : rows.lookup key = none := by
      refine List.lookup_eq_none_iff.2 fun other hother => ?_
      refine bne_iff_ne.2 fun hsame => hfresh ?_
      exact List.mem_map.2 ⟨other, hother, hsame.symm⟩
    have hothers : (keys.erase key).filterMap (fun other => ((key, value) :: rows).lookup other) =
        (keys.erase key).filterMap fun other => rows.lookup other := by
      refine List.filterMap_congr fun other hother => ?_
      have hne : other ≠ key := ((List.Nodup.mem_erase_iff hkeys).1 hother).1
      rw [List.lookup_cons, beq_eq_false_iff_ne.2 hne]
    have hbefore := (hperm.filterMap fun other => rows.lookup other).symm.trans
      (ih hnodup' hrest)
    simp only [List.filterMap_cons, hnone] at hbefore
    refine (hperm.filterMap _).trans ?_
    simp only [List.filterMap_cons, List.lookup_cons_self, hothers]
    exact hbefore.cons value

/-- The rows from which lengths are looked up. -/
def assigned (limit : Nat) (counts : List Nat) : List (Nat × Nat) :=
  ((occurring counts).map Prod.snd).zip (chosenLengths limit counts)

theorem wordLengths_eq (limit : Nat) (counts : List Nat) :
    wordLengths limit counts =
      (List.range counts.length).map fun symbol =>
        ((assigned limit counts).lookup symbol).getD 0 :=
  rfl

@[simp]
theorem length_wordLengths (limit : Nat) (counts : List Nat) :
    (wordLengths limit counts).length = counts.length := by
  rw [wordLengths_eq, List.length_map, List.length_range]

section fits

variable {limit : Nat} {counts : List Nat}

theorem map_fst_assigned (h : Fits limit (occurring counts).length (chosenLengths limit counts)) :
    (assigned limit counts).map Prod.fst = (occurring counts).map Prod.snd :=
  List.map_fst_zip (by rw [List.length_map, h.length_eq])

theorem map_snd_assigned (h : Fits limit (occurring counts).length (chosenLengths limit counts)) :
    (assigned limit counts).map Prod.snd = chosenLengths limit counts :=
  List.map_snd_zip (by rw [List.length_map, h.length_eq])

theorem range_of_lookup_assigned
    (h : Fits limit (occurring counts).length (chosenLengths limit counts)) {symbol length : Nat}
    (hlookup : (assigned limit counts).lookup symbol = some length) :
    0 < length ∧ length ≤ limit := by
  obtain ⟨front, back, hrows, -⟩ := List.lookup_eq_some_iff.1 hlookup
  refine h.range length ?_
  rw [← map_snd_assigned h, hrows, List.map_append, List.map_cons]
  exact List.mem_append_right _ List.mem_cons_self

/-- The lengths that are not zero are those that were chosen. -/
theorem used_wordLengths_perm
    (h : Fits limit (occurring counts).length (chosenLengths limit counts)) :
    (used (wordLengths limit counts)).Perm (chosenLengths limit counts) := by
  have hused : used (wordLengths limit counts) =
      (List.range counts.length).filterMap fun symbol =>
        (assigned limit counts).lookup symbol := by
    rw [wordLengths_eq, used]
    generalize List.range counts.length = symbols
    induction symbols with
    | nil => rfl
    | cons symbol symbols ih =>
      rw [List.map_cons]
      cases hlookup : (assigned limit counts).lookup symbol with
      | none =>
        simp only [List.filterMap_cons, hlookup]
        rw [List.filter_cons_of_neg (by simp), ih]
      | some length =>
        have hpositive := (range_of_lookup_assigned h hlookup).1
        simp only [List.filterMap_cons, hlookup]
        rw [List.filter_cons_of_pos (by simpa using hpositive), ih]
        rfl
  rw [hused, ← map_snd_assigned h]
  refine filterMap_lookup_perm List.nodup_range ?_ fun row hmem => ?_
  · rw [map_fst_assigned h]
    exact nodup_occurring counts
  · have hkey : row.1 ∈ (assigned limit counts).map Prod.fst := List.mem_map.2 ⟨row, hmem, rfl⟩
    rw [map_fst_assigned h] at hkey
    obtain ⟨count, hcount, -⟩ := mem_occurring.1 hkey
    exact List.mem_range.2 (List.getElem?_eq_some_iff.1 hcount).1

theorem le_of_mem_wordLengths (hlimit : 0 < limit) (hmost : counts.length ≤ 2 ^ limit) :
    ∀ length ∈ wordLengths limit counts, length ≤ limit := by
  intro length hmem
  rw [wordLengths_eq] at hmem
  obtain ⟨symbol, -, rfl⟩ := List.mem_map.1 hmem
  cases hlookup : (assigned limit counts).lookup symbol with
  | none => exact Nat.zero_le _
  | some length => exact (range_of_lookup_assigned (fits_chosenLengths hlimit hmost) hlookup).2

/-- A symbol that occurs has a word. -/
theorem exists_wordLength (hlimit : 0 < limit) (hmost : counts.length ≤ 2 ^ limit)
    {symbol count : Nat} (hcount : counts[symbol]? = some count) (hpositive : 0 < count) :
    ∃ length, (wordLengths limit counts)[symbol]? = some length ∧ 0 < length := by
  have h := fits_chosenLengths hlimit hmost
  have hkey : symbol ∈ (assigned limit counts).map Prod.fst := by
    rw [map_fst_assigned h]
    exact mem_occurring.2 ⟨count, hcount, hpositive⟩
  have hsymbol : symbol < counts.length := (List.getElem?_eq_some_iff.1 hcount).1
  have hlength : (wordLengths limit counts)[symbol]? =
      some (((assigned limit counts).lookup symbol).getD 0) := by
    rw [wordLengths_eq, List.getElem?_map, List.getElem?_range hsymbol]
    rfl
  rw [hlength]
  cases hlookup : (assigned limit counts).lookup symbol with
  | none =>
    obtain ⟨row, hrow, rfl⟩ := List.mem_map.1 hkey
    have hother := List.lookup_eq_none_iff.1 hlookup row hrow
    exact absurd rfl (bne_iff_ne.1 hother)
  | some length => exact ⟨length, rfl, (range_of_lookup_assigned h hlookup).1⟩

/-- With at least two symbols the lengths use up every word. -/
theorem volume_wordLengths (hlimit : 0 < limit) (hmost : counts.length ≤ 2 ^ limit)
    (hlongest : limit ≤ Code.longest) (htwo : 2 ≤ (occurring counts).length) :
    volume Code.longest (used (wordLengths limit counts)) = 2 ^ Code.longest := by
  have h := fits_chosenLengths hlimit hmost
  obtain ⟨more, hmore⟩ := Nat.exists_eq_add_of_le hlongest
  rw [volume_perm (used_wordLengths_perm h), hmore,
    volume_add (fun length hmem => (h.range length hmem).2), h.full htwo, ← Nat.pow_add,
    Nat.add_comm]

theorem usable_wordLengths (hlimit : 0 < limit) (hmost : counts.length ≤ 2 ^ limit)
    (hlongest : limit ≤ Code.longest) : Code.Usable (wordLengths limit counts) where
  le_longest length hmem := Nat.le_trans (le_of_mem_wordLengths hlimit hmost length hmem) hlongest
  exact_or_lone := by
    have h := fits_chosenLengths hlimit hmost
    have hperm := used_wordLengths_perm h
    by_cases htwo : 2 ≤ (occurring counts).length
    · exact Or.inl (volume_wordLengths hlimit hmost hlongest htwo)
    · have hfew : (occurring counts).length = 1 ∨ (occurring counts).length = 0 := by omega
      rw [h.lone (by omega)] at hperm
      rcases hfew with hone | hnone
      · rw [hone] at hperm
        exact Or.inr (Or.inl hperm.eq_singleton)
      · rw [hnone] at hperm
        exact Or.inr (Or.inr hperm.eq_nil)

end fits

end ReadThrough.Deflate
