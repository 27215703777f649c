/-!
# Word lengths for counted symbols

A symbol that occurs often gets a short word. `wordLengths` ties the two lightest bundles of
symbols together until one bundle is left; how deep a symbol lies in it is the length of its word.
Of equally light bundles the one that has been there longer goes first.

Words may not be longer than a limit. Those that are get the limit (`limited`), which asks for
more words than there are; `relieve` gives one back by lengthening a shorter word, as often as it
takes. The lengths then go to the symbols in order: the rarest have the longest.

The size of what is written rests on these lengths, not its meaning.

## Termination

* `joinAll`: each step ties two bundles to one (`length_insert`).
-/

namespace ReadThrough.Deflate

/-! ## Bundles -/

/-- Symbols tied together: how often they occur, and how deep each of them lies. -/
structure Bundle where
  weight : Nat
  depths : List Nat
  deriving Repr, DecidableEq

namespace Bundle

/-- A symbol that occurs `count` times. -/
def ofCount (count : Nat) : Bundle :=
  ⟨count, [0]⟩

/-- Two bundles tied together. -/
def join (a b : Bundle) : Bundle :=
  ⟨a.weight + b.weight, (a.depths ++ b.depths).map (· + 1)⟩

/-- Puts a bundle behind those that are no heavier. -/
def insert (bundle : Bundle) : List Bundle → List Bundle
  | [] => [bundle]
  | other :: rest =>
    if other.weight ≤ bundle.weight then other :: insert bundle rest
    else bundle :: other :: rest

theorem length_insert (bundle : Bundle) (others : List Bundle) :
    (insert bundle others).length = others.length + 1 := by
  induction others with
  | nil => rfl
  | cons other rest ih =>
    rw [insert]
    split
    · rw [List.length_cons, List.length_cons, ih]
    · rfl

/-- The depths of all symbols once everything is tied together, given bundles in order of weight. -/
def joinAll : List Bundle → List Nat
  | [] => []
  | [bundle] => bundle.depths
  | a :: b :: rest => joinAll (insert (join a b) rest)
termination_by bundles => bundles.length
decreasing_by
  rw [length_insert, List.length_cons, List.length_cons]
  omega

end Bundle

/-! ## Limited lengths -/

/-- How many of the depths give words of the lengths `limit`, `limit - 1`, … down to one. -/
def limited (limit : Nat) (depths : List Nat) : List Nat :=
  let lengths := depths.map fun depth => min limit (max 1 depth)
  (List.range limit).map fun below => lengths.countP (· == limit - below)

/-- How many words of the greatest length the words take up; the longest are counted first. -/
def room (counts : List Nat) : Nat :=
  counts.foldr (fun count shorter => count + 2 * shorter) 0

/-- One word becomes two that are longer by one bit; of all words but the longest, the first. -/
def lengthen : List Nat → List Nat
  | longer :: count :: shorter =>
    if count = 0 then longer :: lengthen (count :: shorter) else (longer + 2) :: (count - 1) :: shorter
  | counts => counts

/-- Gives back the room of one of the longest words. -/
def relieve : List Nat → List Nat
  | longest :: shorter => lengthen ((longest - 1) :: shorter)
  | [] => []

/-- Counts of words that take up no more room than there is. -/
def fitted (limit : Nat) (counts : List Nat) : List Nat :=
  (List.range (room counts - 1 <<< limit)).foldl (fun counts _ => relieve counts) counts

/-! ## Lengths by symbol -/

/-- The symbols that occur with their counts, the rarest first. -/
def occurring (counts : List Nat) : List (Nat × Nat) :=
  (counts.zipIdx.filter fun (count, _) => 0 < count).mergeSort fun (a, _) (b, _) => a ≤ b

/--
Lengths of words, at most `limit`, for symbols that occur as often as `counts` says; zero for
those that do not.
-/
def wordLengths (limit : Nat) (counts : List Nat) : List Nat :=
  let symbols := occurring counts
  let depths := Bundle.joinAll (symbols.map fun (count, _) => .ofCount count)
  let lengths := (fitted limit (limited limit depths)).zipIdx.flatMap fun (count, below) =>
    List.replicate count (limit - below)
  let assigned := (symbols.map Prod.snd).zip lengths
  (List.range counts.length).map fun symbol => (assigned.lookup symbol).getD 0

end ReadThrough.Deflate
