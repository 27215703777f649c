import Mathlib.Algebra.Ring.Nat
import Mathlib.Data.List.Perm.Basic
import ReadThrough.Deflate.Code

/-!
# Lengths that use up every word

The words of a code take up room: a word of some length stands before all the longer words that
start with it. `volume` counts the words of the greatest length that the words of given lengths
take up.

Symbols are placed in a tree from left to right, the shortest words first, and each of them falls
on a multiple of its own volume; so a tree is full as soon as there is enough to place, and takes
no more than it has room for (`Placed`). Two trees with a common root have twice the room of each
(`Placed.node`).

* `grow_eq` — lengths that fit are all placed
* `complete?_eq`, `canonical?_eq` — lengths that use up every word give a code
-/

namespace ReadThrough.Deflate

/-- How many words of the greatest length the words of these lengths take up. -/
def volume (greatest : Nat) (lengths : List Nat) : Nat :=
  (lengths.map fun length => 2 ^ (greatest - length)).sum

@[simp]
theorem volume_nil (greatest : Nat) : volume greatest [] = 0 :=
  rfl

@[simp]
theorem volume_cons (greatest length : Nat) (lengths : List Nat) :
    volume greatest (length :: lengths) = 2 ^ (greatest - length) + volume greatest lengths := by
  simp [volume]

@[simp]
theorem volume_append (greatest : Nat) (front back : List Nat) :
    volume greatest (front ++ back) = volume greatest front + volume greatest back := by
  simp [volume]

theorem volume_perm {greatest : Nat} {a b : List Nat} (h : a.Perm b) :
    volume greatest a = volume greatest b :=
  (h.map _).sum_nat

theorem eq_nil_of_volume_eq_zero {greatest : Nat} {lengths : List Nat}
    (h : volume greatest lengths = 0) : lengths = [] := by
  cases lengths with
  | nil => rfl
  | cons length lengths =>
    have := Nat.two_pow_pos (greatest - length)
    rw [volume_cons] at h
    omega

/-- Words that may be longer leave more words over. -/
theorem volume_add {greatest : Nat} {lengths : List Nat} (h : ∀ length ∈ lengths, length ≤ greatest)
    (more : Nat) : volume (greatest + more) lengths = 2 ^ more * volume greatest lengths := by
  induction lengths with
  | nil => rfl
  | cons length lengths ih =>
    obtain ⟨hlength, hrest⟩ := List.forall_mem_cons.1 h
    have hexponent : greatest + more - length = more + (greatest - length) := by omega
    rw [volume_cons, volume_cons, ih hrest, hexponent, Nat.pow_add, Nat.mul_add]

/-! ## Placing symbols -/

/-- The first symbols are placed in a tree with room for `capacity` words, the others left over. -/
structure Placed (capacity greatest : Nat) (waiting placed later : List (Nat × Nat)) (tree : Tree) :
    Prop where
  split : waiting = placed ++ later
  symbols : tree.words.map Prod.fst = placed.map Prod.snd
  full : capacity ≤ volume greatest (waiting.map Prod.fst) →
    tree.full = true ∧ volume greatest (placed.map Prod.fst) = capacity
  exhausted : volume greatest (waiting.map Prod.fst) < capacity → later = []

theorem words_node (zero one : Tree) :
    (Tree.node zero one).words.map Prod.fst =
      zero.words.map Prod.fst ++ one.words.map Prod.fst := by
  simp [Tree.words, Function.comp_def]

theorem Placed.volume_eq {capacity greatest : Nat} {waiting placed later : List (Nat × Nat)}
    {tree : Tree} (h : Placed capacity greatest waiting placed later tree) :
    volume greatest (waiting.map Prod.fst) =
      volume greatest (placed.map Prod.fst) + volume greatest (later.map Prod.fst) := by
  rw [h.split, List.map_append, volume_append]

theorem Placed.node {capacity greatest : Nat} {waiting middle later front back : List (Nat × Nat)}
    {zero one : Tree} (hcapacity : 0 < capacity)
    (hzero : Placed capacity greatest waiting front middle zero)
    (hone : Placed capacity greatest middle back later one) :
    Placed (2 * capacity) greatest waiting (front ++ back) later (.node zero one) where
  split := by rw [hzero.split, hone.split, List.append_assoc]
  symbols := by rw [words_node, hzero.symbols, hone.symbols, List.map_append]
  full henough := by
    obtain ⟨hfull, hfront⟩ := hzero.full (by omega)
    have hsum := hzero.volume_eq
    obtain ⟨hfull', hback⟩ := hone.full (by omega)
    refine ⟨by rw [Tree.full, hfull, hfull']; rfl, ?_⟩
    rw [List.map_append, volume_append, hfront, hback]
    omega
  exhausted hscarce := by
    by_cases henough : capacity ≤ volume greatest (waiting.map Prod.fst)
    · obtain ⟨-, hfront⟩ := hzero.full henough
      have hsum := hzero.volume_eq
      exact hone.exhausted (by omega)
    · -- the first branch has taken everything
      have hmiddle := hzero.exhausted (by omega)
      refine hone.exhausted ?_
      rw [hmiddle]
      exact hcapacity

theorem placed_empty (room greatest : Nat) : Placed (2 ^ room) greatest [] [] [] .empty where
  split := rfl
  symbols := rfl
  full henough := absurd (Nat.two_pow_pos room) (Nat.not_lt_of_le henough)
  exhausted _ := rfl

/-- A word that is as long as its place is deep takes all the room that there is. -/
theorem placed_leaf (room depth symbol : Nat) (rest : List (Nat × Nat)) :
    Placed (2 ^ room) (depth + room) ((depth, symbol) :: rest) [(depth, symbol)] rest
      (.leaf symbol) where
  split := rfl
  symbols := rfl
  full _ := ⟨rfl, by simp⟩
  exhausted hscarce := by
    simp only [List.map_cons, volume_cons, Nat.add_sub_cancel_left] at hscarce
    omega

/-- A tree is grown from the symbols that it has room for. -/
theorem exists_placed_grow {room depth : Nat} {waiting : List (Nat × Nat)}
    (hsorted : waiting.Pairwise fun a b => a.1 ≤ b.1)
    (hrange : ∀ asked ∈ waiting, depth ≤ asked.1 ∧ asked.1 ≤ depth + room) :
    ∃ placed, Placed (2 ^ room) (depth + room) waiting placed (Tree.grow room depth waiting).2
      (Tree.grow room depth waiting).1 := by
  induction room generalizing depth waiting with
  | zero =>
    cases waiting with
    | nil => exact ⟨[], placed_empty 0 _⟩
    | cons asked rest =>
      obtain ⟨length, symbol⟩ := asked
      obtain rfl : length = depth := by
        have := hrange _ List.mem_cons_self
        simp only at this
        omega
      rw [Tree.grow, if_pos rfl]
      exact ⟨_, placed_leaf 0 length symbol rest⟩
  | succ room ih =>
    cases waiting with
    | nil => exact ⟨[], placed_empty (room + 1) _⟩
    | cons asked rest =>
      obtain ⟨length, symbol⟩ := asked
      by_cases hlength : length = depth
      · subst hlength
        rw [Tree.grow, if_pos rfl]
        exact ⟨_, placed_leaf (room + 1) length symbol rest⟩
      · -- the first symbol has the shortest word, so that all of them lie below this place
        have hbelow : ∀ other ∈ (length, symbol) :: rest,
            depth + 1 ≤ other.1 ∧ other.1 ≤ depth + 1 + room := by
          intro other hother
          have hfirst := hrange _ List.mem_cons_self
          have hthis := hrange other hother
          have hle : length ≤ other.1 := by
            rcases List.mem_cons.1 hother with rfl | hmem
            · exact Nat.le_refl _
            · exact List.rel_of_pairwise_cons hsorted hmem
          simp only at hfirst
          omega
        obtain ⟨front, hzero⟩ := ih hsorted hbelow
        have hlater : (Tree.grow room (depth + 1) ((length, symbol) :: rest)).2.Sublist
            ((length, symbol) :: rest) := by
          conv => rhs; rw [hzero.split]
          exact List.sublist_append_right _ _
        obtain ⟨back, hone⟩ := ih (hsorted.sublist hlater) fun other hother =>
          hbelow other (hlater.subset hother)
        rw [Tree.grow, if_neg hlength]
        have hboth := Placed.node (Nat.two_pow_pos room) hzero hone
        rw [Nat.pow_succ', ← Nat.add_assoc, Nat.add_right_comm]
        exact ⟨_, hboth⟩

/-! ## Canonical codes -/

/-- The lengths of the words that there are. -/
def used (lengths : List Nat) : List Nat :=
  lengths.filter (0 < ·)

/-- What is sorted by a key is all there, if the key of all is within reach. -/
theorem perm_flatMap_filter {α : Type} (key : α → Nat) (all : List α) (reach : Nat) :
    ((List.range' 1 reach).flatMap fun k => all.filter fun a => key a == k).Perm
      (all.filter fun a => 0 < key a && key a ≤ reach) := by
  induction reach with
  | zero =>
    have hnone : (all.filter fun a => 0 < key a && key a ≤ 0) = [] := by
      refine List.filter_eq_nil_iff.2 fun a _ => ?_
      simp only [Bool.and_eq_true, decide_eq_true_eq]
      omega
    rw [hnone]
    exact List.Perm.refl []
  | succ reach ih =>
    rw [List.range'_1_concat, List.flatMap_append, List.flatMap_singleton]
    refine (ih.append_right _).trans ?_
    -- what is within reach by one more was so before, or has just that key
    have hsplit := List.filter_append_perm (fun a => decide (key a ≤ reach))
      (all.filter fun a => 0 < key a && key a ≤ reach + 1)
    rw [List.filter_filter, List.filter_filter] at hsplit
    refine (List.Perm.of_eq ?_).trans hsplit
    congr 1
    · refine List.filter_congr fun a _ => ?_
      rw [Bool.eq_iff_iff]
      simp only [Bool.and_eq_true, decide_eq_true_eq]
      omega
    · refine List.filter_congr fun a _ => ?_
      rw [Bool.eq_iff_iff]
      simp only [Bool.and_eq_true, Bool.not_eq_true', decide_eq_true_eq, decide_eq_false_iff_not,
        beq_iff_eq]
      omega

namespace Code

variable {lengths : List Nat}

theorem ranked_perm (h : ∀ length ∈ lengths, length ≤ longest) :
    (ranked lengths).Perm (lengths.zipIdx.filter fun asked => 0 < asked.1) := by
  refine (perm_flatMap_filter Prod.fst lengths.zipIdx longest).trans (List.Perm.of_eq ?_)
  refine List.filter_congr fun asked hasked => ?_
  have hlength : asked.1 ≤ longest := by
    obtain ⟨length, symbol⟩ := asked
    exact h _ (List.fst_mem_of_mem_zipIdx hasked)
  simp [hlength]

theorem map_fst_ranked_perm (h : ∀ length ∈ lengths, length ≤ longest) :
    ((ranked lengths).map Prod.fst).Perm (used lengths) := by
  refine ((ranked_perm h).map _).trans (List.Perm.of_eq ?_)
  have hfilter := List.filter_map (f := Prod.fst) (p := fun length => decide (0 < length))
    (l := lengths.zipIdx)
  rw [List.zipIdx_map_fst] at hfilter
  exact hfilter.symm

theorem pairwise_ranked (lengths : List Nat) :
    (ranked lengths).Pairwise fun a b => a.1 ≤ b.1 := by
  refine List.pairwise_flatMap.2 ⟨fun length _ => ?_, ?_⟩
  · refine List.pairwise_of_forall_mem_list fun a ha b hb => ?_
    have hasked := (List.mem_filter.1 ha).2
    have hasked' := (List.mem_filter.1 hb).2
    simp only [beq_iff_eq] at hasked hasked'
    omega
  · have hlengths : (List.range' 1 longest).Pairwise (· < ·) := List.pairwise_lt_range'
    refine hlengths.imp fun hlt a ha b hb => ?_
    have hasked := (List.mem_filter.1 ha).2
    have hasked' := (List.mem_filter.1 hb).2
    simp only [beq_iff_eq] at hasked hasked'
    omega

theorem range_of_mem_ranked {asked : Nat × Nat} (h : asked ∈ ranked lengths) :
    1 ≤ asked.1 ∧ asked.1 ≤ longest := by
  obtain ⟨length, hlength, hasked⟩ := List.mem_flatMap.1 h
  have hsame := (List.mem_filter.1 hasked).2
  rw [List.mem_range'_1] at hlength
  simp only [beq_iff_eq] at hsame
  omega

/-- A symbol with a length is ranked. -/
theorem mem_ranked {length symbol : Nat} (hsymbol : lengths[symbol]? = some length)
    (hpositive : 0 < length) (hlongest : length ≤ longest) :
    (length, symbol) ∈ ranked lengths := by
  refine List.mem_flatMap.2 ⟨length, List.mem_range'_1.2 ⟨hpositive, by omega⟩, ?_⟩
  refine List.mem_filter.2 ⟨List.mem_zipIdx_iff_getElem?.2 hsymbol, ?_⟩
  simp

/-- The code of any lengths is two trees with a common root. -/
theorem exists_placed (lengths : List Nat) :
    ∃ placed, Placed (2 ^ longest) longest (ranked lengths) placed (grow lengths).2
      (grow lengths).1.tree := by
  have hrange : ∀ asked ∈ ranked lengths, 1 ≤ asked.1 ∧ asked.1 ≤ 1 + (longest - 1) :=
    fun asked hasked => range_of_mem_ranked hasked
  obtain ⟨front, hzero⟩ := exists_placed_grow (pairwise_ranked lengths) hrange
  have hlater : (Tree.grow (longest - 1) 1 (ranked lengths)).2.Sublist (ranked lengths) := by
    conv => rhs; rw [hzero.split]
    exact List.sublist_append_right _ _
  obtain ⟨back, hone⟩ := exists_placed_grow ((pairwise_ranked lengths).sublist hlater)
    fun asked hasked => hrange asked (hlater.subset hasked)
  exact ⟨_, Placed.node (Nat.two_pow_pos _) hzero hone⟩

/-- Lengths that ask for no more words than there are get all of them. -/
theorem grow_eq (h : ∀ length ∈ lengths, length ≤ longest)
    (hfits : volume longest (used lengths) ≤ 2 ^ longest) :
    (grow lengths).2 = [] ∧
      (grow lengths).1.tree.words.map Prod.fst = (ranked lengths).map Prod.snd := by
  obtain ⟨placed, hplaced⟩ := exists_placed lengths
  have hvolume : volume longest ((ranked lengths).map Prod.fst) = volume longest (used lengths) :=
    volume_perm (map_fst_ranked_perm h)
  have hnone : (grow lengths).2 = [] := by
    by_cases henough : 2 ^ longest ≤ volume longest ((ranked lengths).map Prod.fst)
    · obtain ⟨-, hexact⟩ := hplaced.full henough
      have hsum := hplaced.volume_eq
      have hrest : volume longest ((grow lengths).2.map Prod.fst) = 0 := by omega
      exact List.map_eq_nil_iff.1 (eq_nil_of_volume_eq_zero hrest)
    · exact hplaced.exhausted (by omega)
  refine ⟨hnone, ?_⟩
  rw [hplaced.symbols]
  conv => rhs; rw [hplaced.split, hnone, List.append_nil]

theorem full_grow (h : ∀ length ∈ lengths, length ≤ longest)
    (hexact : volume longest (used lengths) = 2 ^ longest) :
    (grow lengths).1.tree.full = true := by
  obtain ⟨placed, hplaced⟩ := exists_placed lengths
  refine (hplaced.full ?_).1
  rw [volume_perm (map_fst_ranked_perm h), hexact]

/-- Lengths that use up every word give a code. -/
theorem complete?_eq (h : ∀ length ∈ lengths, length ≤ longest)
    (hexact : volume longest (used lengths) = 2 ^ longest) :
    complete? lengths = .ok (grow lengths).1 := by
  unfold complete?
  obtain ⟨hnone, -⟩ := grow_eq h (Nat.le_of_eq hexact)
  simp only [hnone, full_grow h hexact, List.isEmpty_nil, Bool.and_self, if_true]

/-- The lengths use up every word, or there is no symbol to place but one at the root. -/
structure Usable (lengths : List Nat) : Prop where
  le_longest : ∀ length ∈ lengths, length ≤ longest
  exact_or_lone : volume longest (used lengths) = 2 ^ longest ∨ used lengths = [1] ∨
    used lengths = []

theorem isLone_of_used (h : ∀ length ∈ lengths, length ≤ longest)
    (hlone : used lengths = [1] ∨ used lengths = []) : isLone lengths = true := by
  have hperm := map_fst_ranked_perm h
  unfold isLone
  rcases hlone with hone | hnone
  · rw [hone] at hperm
    obtain ⟨⟨_, symbol⟩, hranked, rfl⟩ := List.map_eq_singleton_iff.1 hperm.eq_singleton
    rw [hranked]
    rfl
  · rw [hnone] at hperm
    rw [List.map_eq_nil_iff.1 hperm.eq_nil]

theorem Usable.fits (h : Usable lengths) : volume longest (used lengths) ≤ 2 ^ longest := by
  rcases h.exact_or_lone with hexact | hone | hnone
  · exact Nat.le_of_eq hexact
  · rw [hone]
    decide
  · rw [hnone]
    decide

theorem canonical?_eq (h : Usable lengths) : canonical? lengths = .ok (grow lengths).1 := by
  have hgood : ((grow lengths).1.tree.full || isLone lengths) = true := by
    rcases h.exact_or_lone with hexact | hlone
    · rw [full_grow h.le_longest hexact, Bool.true_or]
    · rw [isLone_of_used h.le_longest hlone, Bool.or_true]
  unfold canonical?
  simp only [(grow_eq h.le_longest h.fits).1, hgood, List.isEmpty_nil, Bool.and_self, if_true]

/-- Every symbol with a length has a word. -/
theorem mem_words_grow (h : ∀ length ∈ lengths, length ≤ longest)
    (hfits : volume longest (used lengths) ≤ 2 ^ longest) {length symbol : Nat}
    (hsymbol : lengths[symbol]? = some length) (hpositive : 0 < length) :
    symbol ∈ (grow lengths).1.tree.words.map Prod.fst := by
  rw [(grow_eq h hfits).2]
  have hlongest := h length (List.mem_of_getElem? hsymbol)
  exact List.mem_map.2 ⟨_, mem_ranked hsymbol hpositive hlongest, rfl⟩

end Code

end ReadThrough.Deflate
