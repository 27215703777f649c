import ReadThrough.Proofs.Deflate.Canonical
import ReadThrough.Proofs.Deflate.Format

/-!
# Codes and the lengths of their words

A code is grown from word lengths, and checked. What passes the check is the code of these lengths,
and the code of some lengths passes (`canonical?_eq_ok_iff`, `complete?_eq_ok_iff`).
-/

namespace ReadThrough.Deflate

/-! ## Trees -/

/-- The words of a tree that stands at `depth`, as lengths and symbols. -/
def Tree.ranks (depth : Nat) (tree : Tree) : List (Nat × Nat) :=
  tree.words.map fun (symbol, word) => (depth + word.length, symbol)

theorem ranks_leaf (depth symbol : Nat) : (Tree.leaf symbol).ranks depth = [(depth, symbol)] :=
  rfl

/-- What hangs under a branch is one deeper. -/
theorem ranks_node (depth : Nat) (zero one : Tree) :
    (Tree.node zero one).ranks depth = zero.ranks (depth + 1) ++ one.ranks (depth + 1) := by
  have hdeeper : ∀ (tree : Tree) (bit : Bool),
      (tree.words.map fun (symbol, word) => (symbol, bit :: word)).map
        (fun (symbol, word) => (depth + word.length, symbol)) = tree.ranks (depth + 1) := by
    intro tree bit
    rw [List.map_map]
    refine List.map_congr_left fun row _ => ?_
    show (depth + (row.2.length + 1), row.1) = (depth + 1 + row.2.length, row.1)
    rw [Nat.add_comm row.2.length, Nat.add_assoc]
  rw [Tree.ranks, Tree.words, List.map_append, hdeeper, hdeeper]

/-- A tree is grown of the symbols that it has words for, and leaves the others. -/
theorem ranks_grow (room depth : Nat) (waiting : List (Nat × Nat)) :
    waiting = (Tree.grow room depth waiting).1.ranks depth ++ (Tree.grow room depth waiting).2 := by
  induction room generalizing depth waiting with
  | zero =>
    cases waiting with
    | nil => rfl
    | cons asked rest =>
      obtain ⟨length, symbol⟩ := asked
      rw [Tree.grow]
      split
      · next hlength => rw [ranks_leaf, hlength]; rfl
      · rfl
  | succ room ih =>
    cases waiting with
    | nil => rfl
    | cons asked rest =>
      obtain ⟨length, symbol⟩ := asked
      rw [Tree.grow]
      split
      · next hlength => rw [ranks_leaf, hlength]; rfl
      · have hzero := ih (depth + 1) ((length, symbol) :: rest)
        have hone := ih (depth + 1) (Tree.grow room (depth + 1) ((length, symbol) :: rest)).2
        rw [ranks_node, List.append_assoc, ← hone, ← hzero]

theorem exists_mem_words_of_full {tree : Tree} (h : tree.full = true) : ∃ row, row ∈ tree.words := by
  induction tree with
  | empty => cases h
  | leaf symbol => exact ⟨_, List.mem_singleton_self _⟩
  | node zero one ihZero _ =>
    obtain ⟨row, hrow⟩ := ihZero (Bool.and_eq_true_iff.1 h).1
    exact ⟨_, List.mem_append_left _ (List.mem_map_of_mem hrow)⟩

/-- A tree without empty places grows from its own words again, if there is room for them. -/
theorem grow_ranks {tree : Tree} (hfull : tree.full = true) {room depth : Nat}
    (hroom : ∀ asked ∈ tree.ranks depth, asked.1 ≤ depth + room) (later : List (Nat × Nat)) :
    Tree.grow room depth (tree.ranks depth ++ later) = (tree, later) := by
  induction tree generalizing room depth later with
  | empty => cases hfull
  | leaf symbol =>
    rw [ranks_leaf, List.singleton_append]
    cases room <;> rw [Tree.grow, if_pos rfl]
  | node zero one ihZero ihOne =>
    obtain ⟨hzero, hone⟩ := Bool.and_eq_true_iff.1 hfull
    rw [ranks_node] at hroom ⊢
    have hdeep : ∀ (tree : Tree), ∀ asked ∈ tree.ranks (depth + 1), depth + 1 ≤ asked.1 := by
      intro tree asked hasked
      obtain ⟨row, -, rfl⟩ := List.mem_map.1 hasked
      exact Nat.le_add_right _ _
    obtain ⟨row, hrow⟩ := exists_mem_words_of_full hzero
    obtain ⟨first, rest, hfirst⟩ : ∃ first rest, zero.ranks (depth + 1) = first :: rest :=
      List.exists_cons_of_ne_nil (List.ne_nil_of_mem (List.mem_map_of_mem hrow))
    have hmem : first ∈ zero.ranks (depth + 1) := hfirst ▸ List.mem_cons_self
    have hbelow := hdeep zero first hmem
    have hreach := hroom first (List.mem_append_left _ hmem)
    cases room with
    | zero => omega
    | succ room =>
      have hroom' : ∀ asked ∈ zero.ranks (depth + 1) ++ one.ranks (depth + 1),
          asked.1 ≤ depth + 1 + room := fun asked hasked =>
        Nat.le_trans (hroom asked hasked) (by omega)
      have hzero' := ihZero hzero (fun asked hasked =>
        hroom' asked (List.mem_append_left _ hasked)) (one.ranks (depth + 1) ++ later)
      have hone' := ihOne hone (fun asked hasked =>
        hroom' asked (List.mem_append_right _ hasked)) later
      rw [List.append_assoc]
      rw [hfirst, List.cons_append] at hzero' ⊢
      rw [Tree.grow, if_neg (by omega), hzero']
      dsimp only
      rw [hone']

/-! ## Codes -/

namespace Code

variable {lengths : List Nat} {code : Code}

theorem ranked_grow (lengths : List Nat) :
    ranked lengths = (grow lengths).1.tree.ranks 0 ++ (grow lengths).2 := by
  have hzero := ranks_grow (longest - 1) 1 (ranked lengths)
  have hone := ranks_grow (longest - 1) 1 (Tree.grow (longest - 1) 1 (ranked lengths)).2
  rw [tree, ranks_node, List.append_assoc]
  exact hzero.trans (congrArg _ hone)

/-- A code without empty places grows from the lengths of its words. -/
theorem grow_of_full (hfull : code.tree.full = true) (hranks : code.tree.ranks 0 = ranked lengths) :
    grow lengths = (code, []) := by
  obtain ⟨zero, one⟩ := code
  obtain ⟨hzero, hone⟩ := Bool.and_eq_true_iff.1 hfull
  rw [tree, ranks_node] at hranks
  have hroom : ∀ asked ∈ zero.ranks 1 ++ one.ranks 1, asked.1 ≤ 1 + (longest - 1) := by
    intro asked hasked
    rw [hranks] at hasked
    exact (range_of_mem_ranked hasked).2
  have hzero' := grow_ranks hzero (fun asked hasked =>
    hroom asked (List.mem_append_left _ hasked)) (one.ranks 1)
  have hone' := grow_ranks hone (fun asked hasked =>
    hroom asked (List.mem_append_right _ hasked)) []
  rw [List.append_nil] at hone'
  rw [grow, ← hranks, hzero']
  dsimp only
  rw [hone']

theorem ranks_tree (code : Code) :
    code.tree.ranks 0 = code.tree.words.map fun (symbol, word) => (word.length, symbol) := by
  simp [Tree.ranks]

theorem grow_of_canonical (h : Canonical lengths code) : grow lengths = (code, []) := by
  cases h with
  | full hfull hwords => exact grow_of_full hfull ((ranks_tree code).trans hwords)
  | lone h | none h =>
    rw [grow, h]
    rfl

theorem canonical_of_full (hfull : (grow lengths).1.tree.full = true) (hnone : (grow lengths).2 = []) :
    Canonical lengths (grow lengths).1 := by
  refine .full hfull ?_
  rw [← ranks_tree]
  conv => rhs; rw [ranked_grow, hnone, List.append_nil]

/-- The codes that pass the check are those of the lengths. -/
theorem canonical?_eq_ok_iff : canonical? lengths = .ok code ↔ Canonical lengths code := by
  constructor
  · intro h
    unfold canonical? at h
    dsimp only at h
    split at h
    · next hgood =>
      obtain rfl := Except.ok.inj h
      obtain ⟨hnone, hgood⟩ := Bool.and_eq_true_iff.1 hgood
      rcases Bool.or_eq_true_iff.1 hgood with hfull | hlone
      · exact canonical_of_full hfull (List.isEmpty_iff.1 hnone)
      · unfold isLone at hlone
        split at hlone
        · next hranked =>
          rw [grow, hranked]
          exact .none hranked
        · next length symbol hranked =>
          obtain rfl := beq_iff_eq.1 hlone
          rw [grow, hranked]
          exact .lone hranked
        · cases hlone
    · cases h
  · intro h
    have hgood : (code.tree.full || isLone lengths) = true := by
      cases h with
      | full hfull => rw [hfull, Bool.true_or]
      | lone h | none h => rw [isLone, h, Bool.or_eq_true_iff]; exact Or.inr rfl
    unfold canonical?
    simp only [grow_of_canonical h, hgood, List.isEmpty_nil, Bool.and_self, if_true]

/-- The codes that pass the stricter check leave no word over. -/
theorem complete?_eq_ok_iff :
    complete? lengths = .ok code ↔ Canonical lengths code ∧ code.tree.full = true := by
  constructor
  · intro h
    unfold complete? at h
    dsimp only at h
    split at h
    · next hgood =>
      obtain rfl := Except.ok.inj h
      obtain ⟨hnone, hfull⟩ := Bool.and_eq_true_iff.1 hgood
      exact ⟨canonical_of_full hfull (List.isEmpty_iff.1 hnone), hfull⟩
    · cases h
  · rintro ⟨hcanonical, hfull⟩
    unfold complete?
    simp only [grow_of_canonical hcanonical, hfull, List.isEmpty_nil, Bool.and_self, if_true]

/-- A symbol that has a word is the number of a length. -/
theorem lt_of_mem_words (h : Canonical lengths code) {symbol : Nat} {word : List Bool}
    (hword : (symbol, word) ∈ code.tree.words) :
    symbol < lengths.length := by
  have hranked : (word.length, symbol) ∈ ranked lengths := by
    rw [ranked_grow, grow_of_canonical h, ranks_tree]
    exact List.mem_append_left _ (List.mem_map_of_mem hword)
  obtain ⟨length, -, hasked⟩ := List.mem_flatMap.1 hranked
  exact List.snd_lt_of_mem_zipIdx (List.mem_filter.1 hasked).1

end Code

end ReadThrough.Deflate
