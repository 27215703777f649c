import ReadThrough.Deflate.Bits

/-!
# Prefix codes

A prefix code is a binary tree whose leaves are symbols; a bit goes to the left (`false`) or to
the right (`true`). A `Code` always has its first branch, so that reading a symbol takes at least
one bit (`Code.size_of_read`).

## Canonical codes

A canonical code is given by the length of each symbol's word alone: words go to the symbols in
order of length, then of number, each the first one in lexicographic order that is still free.
That is the order in which `grow` meets the leaves of its tree from left to right.

Lengths may ask for more words than there are, or leave some of the tree without a symbol
(`Tree.full` is then false). A code that leaves words over is good for tokens only if it has no
symbol at all, or one whose word is a single bit (`isLone`).
-/

namespace ReadThrough.Deflate

/-- A binary tree of symbols, with empty places. -/
inductive Tree where
  | empty
  | leaf (symbol : Nat)
  | node (zero one : Tree)
  deriving Repr, DecidableEq

namespace Tree

/-- Follows bits down to a symbol. -/
def read : Tree → Source → Except Fault (Nat × Source)
  | empty, _ => .error .corrupt
  | leaf symbol, s => .ok (symbol, s)
  | node zero one, s =>
    match s.next? with
    | none => .error .incomplete
    | some (bit, after) => if bit then one.read after else zero.read after

/-- True if every path of the tree ends in a symbol. -/
def full : Tree → Bool
  | empty => false
  | leaf _ => true
  | node zero one => zero.full && one.full

/-- The symbols of the tree with the bits that lead to them, from left to right. -/
def words : Tree → List (Nat × List Bool)
  | empty => []
  | leaf symbol => [(symbol, [])]
  | node zero one =>
    (zero.words.map fun (symbol, word) => (symbol, false :: word)) ++
      (one.words.map fun (symbol, word) => (symbol, true :: word))

/--
The tree at `depth` whose leaves are the first of the `waiting` symbols, each at the depth it asks
for, together with those it had no place for. No leaf lies deeper than `depth + room`.
-/
def grow : (room depth : Nat) → List (Nat × Nat) → Tree × List (Nat × Nat)
  | _, _, [] => (empty, [])
  | 0, depth, (length, symbol) :: waiting =>
    if length = depth then (leaf symbol, waiting) else (empty, (length, symbol) :: waiting)
  | room + 1, depth, (length, symbol) :: waiting =>
    if length = depth then (leaf symbol, waiting)
    else
      let (zero, later) := grow room (depth + 1) ((length, symbol) :: waiting)
      let (one, last) := grow room (depth + 1) later
      (node zero one, last)

theorem size_of_read {tree : Tree} {s after : Source} {symbol : Nat}
    (h : tree.read s = .ok (symbol, after)) : after.size ≤ s.size := by
  induction tree generalizing s with
  | empty => simp [read] at h
  | leaf => simp [read] at h; simp [h]
  | node zero one ihZero ihOne =>
    rw [read] at h
    split at h
    · simp at h
    · rename_i hnext
      have hsize := Source.size_of_next? hnext
      split at h
      · exact Nat.le_trans (ihOne h) (by omega)
      · exact Nat.le_trans (ihZero h) (by omega)

end Tree

/-- A prefix code: the two branches under the first bit. -/
structure Code where
  zero : Tree
  one : Tree
  deriving Repr, DecidableEq

namespace Code

/-- The tree of the code. -/
def tree (c : Code) : Tree :=
  .node c.zero c.one

/-- Reads one symbol. -/
def read (c : Code) (s : Source) : Except Fault (Nat × Source) :=
  c.tree.read s

theorem size_of_read {c : Code} {s after : Source} {symbol : Nat}
    (h : c.read s = .ok (symbol, after)) : after.size < s.size := by
  rw [read, tree, Tree.read] at h
  split at h
  · simp at h
  · rename_i hnext
    have hsize := Source.size_of_next? hnext
    split at h
    all_goals exact Nat.lt_of_le_of_lt (Tree.size_of_read h) (by omega)

/-! ## Canonical codes -/

/-- The longest word of any code of the format. -/
def longest : Nat := 15

/-- The symbols that have a word, with its length, in order of length and then of number. -/
def ranked (lengths : List Nat) : List (Nat × Nat) :=
  (List.range' 1 longest).flatMap fun length =>
    lengths.zipIdx.filter fun (asked, _) => asked == length

/-- The canonical code of the given lengths, and the symbols that it has no place for. -/
def grow (lengths : List Nat) : Code × List (Nat × Nat) :=
  let (zero, later) := Tree.grow (longest - 1) 1 (ranked lengths)
  let (one, last) := Tree.grow (longest - 1) 1 later
  (⟨zero, one⟩, last)

/-- The canonical code of lengths that use up every word exactly. -/
def complete? (lengths : List Nat) : Except Fault Code :=
  let (code, last) := grow lengths
  if last.isEmpty && code.tree.full then .ok code else .error .corrupt

/-- True if no symbol has a word, or only one and that of a single bit. -/
def isLone (lengths : List Nat) : Bool :=
  match ranked lengths with
  | [] => true
  | [(length, _)] => length == 1
  | _ => false

/-- The canonical code of lengths that use up every word, or of a lone symbol. -/
def canonical? (lengths : List Nat) : Except Fault Code :=
  let (code, last) := grow lengths
  if last.isEmpty && (code.tree.full || isLone lengths) then .ok code else .error .corrupt

end Code

end ReadThrough.Deflate
