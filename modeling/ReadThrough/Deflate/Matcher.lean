import ReadThrough.Deflate.Token

/-!
# Choosing tokens for a byte string

`tokens` walks over the data and writes a copy wherever what follows has been seen before, an
octet as it is elsewhere. Places that may have been seen before are found along `links`: from each
place a link leads back to the last one whose first three octets have the same hash.

`search` follows the links for the longest copy; it gives up after a number of steps, so that data
with many like places takes no undue time. A copy that is not long yet is put off where the next
place has a longer one.

## What is trusted

Only `copyAt?`. Links and search name places, and a place named is a guess: a copy is made only as
long as the octets at both places have been compared and are equal (`agreement`).

## Termination

* `linksOnto`, `tokensOnto`: the octets left become fewer; a copy is never empty
  (`length_pos_of_copyAt?`).
* `follow`: the steps allowed become fewer.
-/

namespace ReadThrough.Deflate

/-! ## Copies -/

/-- How many octets agree from `earlier` and from a later `index` on, up to `limit`. -/
def agreement (data : Array UInt8) (earlier index : Nat) : Nat → Nat
  | 0 => 0
  | limit + 1 =>
    if index < data.size ∧ data.getD earlier 0 = data.getD index 0 then
      agreement data (earlier + 1) (index + 1) limit + 1
    else 0

/-- The distance from which on a shortest copy takes more room than its octets. -/
def farForShortest : Nat := 8192

/-- The copy that may stand at `index` for what is found at `earlier`, if it pays. -/
def copyAt? (data : Array UInt8) (index earlier : Nat) : Option (Nat × Nat) :=
  let distance := index - earlier
  if earlier < index ∧ distance ≤ window then
    let length := agreement data earlier index maxCopy
    if minCopy < length ∨ (minCopy = length ∧ distance < farForShortest) then
      some (length, distance)
    else none
  else none

theorem length_pos_of_copyAt? {data : Array UInt8} {index earlier length distance : Nat}
    (h : copyAt? data index earlier = some (length, distance)) : 0 < length := by
  have hmin : 0 < minCopy := by decide
  rw [copyAt?] at h
  dsimp only at h
  split at h
  · split at h
    · obtain ⟨rfl, -⟩ := Prod.mk.inj (Option.some.inj h)
      omega
    · simp at h
  · simp at h

/-! ## Links -/

/-- The bits of a hash. -/
def hashMask : UInt32 := 0x7FFF

/-- The hash of the three octets at `index`. -/
def hashAt (data : Array UInt8) (index : Nat) : Nat :=
  let a := (data.getD index 0).toUInt32
  let b := (data.getD (index + 1) 0).toUInt32
  let c := (data.getD (index + 2) 0).toUInt32
  (((a <<< 10) ^^^ (b <<< 5) ^^^ c) &&& hashMask).toNat

/-- The links from `index` on, behind those `done`; `latest` has the last place of each hash. -/
def linksOnto (data : Array UInt8) (latest done : Array Nat) (index : Nat) : Array Nat :=
  if index + minCopy ≤ data.size then
    let hash := hashAt data index
    let earlier := latest.getD hash 0
    linksOnto data (latest.setIfInBounds hash index) (done.push earlier) (index + 1)
  else done
termination_by data.size - index
decreasing_by
  have : 0 < minCopy := by decide
  omega

/--
For each place the last one before it that has the same hash. Zero stands for none, so that no
copy starts at the first octet.
-/
def links (data : Array UInt8) : Array Nat :=
  linksOnto data (Array.replicate (hashMask.toNat + 1) 0) (Array.mkEmpty data.size) 0

/-! ## Searching -/

/-- How many places a search looks at until one may be better than the best so far. -/
def roundLength : Nat := 3

/-- The steps of a search that improves on a copy of `least` octets. -/
def patience (least : Nat) : Nat :=
  if least < 32 then 43 * roundLength else 11 * roundLength

/-- True if the octet that ends the best copy and the one after it are the same at both places. -/
def mayExceed (data : Array UInt8) (earlier index best : Nat) : Bool :=
  data.getD (earlier + best) 0 == data.getD (index + best) 0 &&
    data.getD (earlier + best - 1) 0 == data.getD (index + best - 1) 0

/--
Follows links from `place` back to the place that agrees longest with `index`, of those that agree
in more than `best` octets. Places farther than `farthest` do not count, nor do octets beyond
`most`. A place that may be better ends its round of steps.
-/
def follow (data : Array UInt8) (links : Array Nat) (index farthest most : Nat) :
    (steps place best : Nat) → Option Nat → Option Nat
  | 0, _, _, found => found
  | steps + 1, place, best, found =>
    let earlier := links.getD place 0
    if earlier = 0 ∨ index - earlier > farthest then found
    else if mayExceed data earlier index best then
      let left := steps / roundLength * roundLength
      let length := agreement data earlier index most
      if length ≤ best then follow data links index farthest most left earlier best found
      else if length = most then some earlier
      else follow data links index farthest most left earlier length (some earlier)
    else follow data links index farthest most steps earlier best found
termination_by steps => steps
decreasing_by all_goals have := Nat.div_mul_le_self steps roundLength; omega

/-- A place that agrees with `index` in more than `least` octets. -/
def search (data : Array UInt8) (links : Array Nat) (index least : Nat) : Option Nat :=
  let most := min maxCopy (data.size - index)
  if most ≤ least then none
  else follow data links index (window - most) most (patience least) index least none

/-! ## Tokens -/

/-- The length from which on a copy is not put off. -/
def longEnough : Nat := 128

/-- A place for a copy at the octet after `index` that is longer than the one at `index`. -/
def longerNext (data : Array UInt8) (links : Array Nat) (index length : Nat) : Option Nat :=
  if longEnough ≤ length then none else search data links (index + 1) length

/-- The place for the first copy that may be made at `index`. -/
def firstGuess (data : Array UInt8) (links : Array Nat) (index : Nat) : Option Nat :=
  search data links index (minCopy - 1)

/-- The tokens of the data from `index` on, behind those `done`; `guess` may have been seen before. -/
def tokensOnto (data : Array UInt8) (links : Array Nat) (done : Array Token) (index : Nat)
    (guess : Option Nat) : Array Token :=
  if h : index < data.size then
    match _hcopy : guess.bind (copyAt? data index) with
    | none =>
      tokensOnto data links (done.push (.literal data[index])) (index + 1)
        (firstGuess data links (index + 1))
    | some (length, distance) =>
      match longerNext data links index length with
      | some later =>
        tokensOnto data links (done.push (.literal data[index])) (index + 1) (some later)
      | none =>
        tokensOnto data links (done.push (.copy length distance)) (index + length)
          (firstGuess data links (index + length))
  else done
termination_by data.size - index
decreasing_by
  · omega
  · omega
  · obtain ⟨earlier, -, hearlier⟩ := Option.bind_eq_some_iff.mp _hcopy
    have := length_pos_of_copyAt? hearlier
    omega

/-- A list of tokens that stands for `data`. -/
def tokens (data : Bytes) : List Token :=
  let octets := data.toArray
  (tokensOnto octets (links octets) #[] 0 none).toList

end ReadThrough.Deflate
