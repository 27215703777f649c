import ReadThrough.Cache.Compression
import ReadThrough.Cache.Counters
import ReadThrough.Cache.Entry
import ReadThrough.Checksum.SipHash
import ReadThrough.Table

/-!
# The cache

A cache is a table of entries under a bound on the sum of their sizes. It keeps the sum as it goes:
every operation that removes an entry takes off what that entry stood for. What the outside decides
at an operation is its `Moment`: the reading of the clock, the time of the calendar, and the order
in which the entries are walked when room has to be made.

## Generations

Every deletion of a key moves the generation of the key's slot. A reader that goes to the store
behind the cache notes the generation first, and `insert` refuses what it brings back if the
generation has moved since: the content may be older than a write. Keys that share a slot only
cost each other such a refusal.

## Room

An entry that does not fit evicts others in walking order, no more than it needs.
-/

namespace ReadThrough

/-- What the outside decides at an operation. -/
structure Moment where
  now : Instant
  /-- The time of the calendar. -/
  civil : Time
  /-- The order in which entries are walked. -/
  walk : List (String × Entry) → List (String × Entry)
  walk_perm : ∀ rows, (walk rows).Perm rows

/-- A moment at which entries are walked as they came. -/
def Moment.at (now : Instant) (civil : Time) : Moment where
  now := now
  civil := civil
  walk := id
  walk_perm := fun rows => .refl rows

/-- The number of generation slots. -/
def generationSlots : Nat := 256

/-- The slot of a key: the hash of its text and a closing octet of ones. -/
def slotOfKey (key : String) : Fin generationSlots :=
  ⟨(SipHash.hash (Bytes.ofText key ++ [0xff])).toNat % generationSlots,
    Nat.mod_lt _ (by decide)⟩

/-- A cache. -/
structure Cache where
  /-- The entries by key. -/
  entries : Table String Entry
  /-- The sum of the entries' sizes. -/
  currentSize : UInt64
  counters : Counters
  /-- When expired entries were last swept out. -/
  lastSweep : Option Time
  /-- The generation of each slot. -/
  generations : Vector UInt64 generationSlots
  /-- The bound on the sum of sizes, and on every single content. -/
  maxSize : UInt64
  /-- The lifetime of new entries, in nanoseconds. -/
  ttl : Nat
  policy : CompressionPolicy

namespace Cache

/-- A cache without entries. -/
def empty (maxSize : UInt64) (ttl : Nat) (policy : CompressionPolicy) : Cache where
  entries := .empty
  currentSize := 0
  counters := .zero
  lastSweep := none
  generations := .replicate generationSlots 0
  maxSize := maxSize
  ttl := ttl
  policy := policy

/-- The entry of a key, dead or alive. -/
def find? (c : Cache) (key : String) : Option Entry :=
  c.entries.find? key

/-- True if there is an entry for a key, dead or alive. -/
def contains (c : Cache) (key : String) : Bool :=
  (c.find? key).isSome

/-- The number of entries, dead or alive. -/
def size (c : Cache) : Nat :=
  c.entries.size

/-- Takes one size off another, down to zero at most. -/
def less (size part : UInt64) : UInt64 :=
  if part ≤ size then size - part else 0

/-- The cache without the entry of a key. -/
def remove (c : Cache) (key : String) : Cache :=
  match c.find? key with
  | none => c
  | some e =>
    { c with
      entries := c.entries.erase key
      currentSize := less c.currentSize e.storedSize }

/-! ## Generations -/

/-- The generation of a key. -/
def generation (c : Cache) (key : String) : UInt64 :=
  c.generations[slotOfKey key]

/-- Moves the generation of a key. -/
def bump (c : Cache) (key : String) : Cache :=
  { c with
    generations := c.generations.set (slotOfKey key) (c.generation key + 1) (slotOfKey key).isLt }

/-! ## Making room -/

/-- The first entries of a walk, as many as have to go until `incoming` more bytes fit. -/
def victims (maxSize incoming : UInt64) :
    (current : UInt64) → List (String × Entry) → List (String × Entry)
  | _, [] => []
  | current, (key, e) :: rest =>
    if current + incoming ≤ maxSize then []
    else (key, e) :: victims maxSize incoming (less current e.storedSize) rest

/-- The cache without the entries of some rows. -/
def removeAll (c : Cache) (rows : List (String × Entry)) : Cache :=
  rows.foldl (fun c row => c.remove row.1) c

/-- Removes entries until `incoming` more bytes fit; gives their number too. -/
def makeRoom (c : Cache) (m : Moment) (incoming : UInt64) : Cache × Nat :=
  if c.maxSize < c.currentSize + incoming then
    let gone := victims c.maxSize incoming c.currentSize (m.walk c.entries.rows)
    let left := c.removeAll gone
    ({ left with counters := left.counters.recordEvictions (UInt64.ofNat gone.length) },
      gone.length)
  else (c, 0)

/-! ## Operations -/

/-- What an insertion did. -/
structure Insertion where
  /-- False if the content was refused. -/
  accepted : Bool
  /-- How many entries had to go. -/
  evicted : Nat
  cache : Cache

/-- The cache with an entry in place of the one of its key, and the number that had to go. -/
def accept (c : Cache) (m : Moment) (e : Entry) : Cache × Nat :=
  let (roomy, evicted) := (c.remove e.key).makeRoom m e.storedSize
  ({ roomy with
      entries := roomy.entries.insert e.key e
      currentSize := roomy.currentSize + e.storedSize }, evicted)

/--
Caches a content. It is refused if it is larger than the bound, and, where a generation is
`expected`, if the generation of its key is another. A refusal changes nothing.
-/
def insert (c : Cache) (m : Moment) (key : String) (content : Bytes) (metadata : Metadata)
    (expected : Option UInt64) : Except Halt Insertion :=
  if c.maxSize.toNat < content.length then .ok ⟨false, 0, c⟩
  else do
    let expires ← m.now.after c.ttl
    let e := Entry.make key content (c.policy.packed? metadata.contentType content) metadata expires
    if expected.all (· = c.generation key) then
      let (cache, evicted) := c.accept m e
      return ⟨true, evicted, cache⟩
    else return ⟨false, 0, c⟩

/-- Looks a key up. An expired entry is removed and counts as absent. -/
def get (c : Cache) (m : Moment) (key : String) : Option Entry × Cache :=
  match c.find? key with
  | none => (none, { c with counters := c.counters.recordMiss })
  | some e =>
    if e.isExpired m.now then
      (none, { c.remove key with counters := (c.counters.recordExpirations 1).recordMiss })
    else (some e, { c with counters := c.counters.recordHit })

/-- Removes the entry of a key, if there is one, and moves the key's generation in any case. -/
def delete (c : Cache) (key : String) : Bool × Cache :=
  (c.contains key, (c.bump key).remove key)

/-- Removes all expired entries and gives their number. -/
def sweep (c : Cache) (m : Moment) : Nat × Cache :=
  let dead := c.entries.rows.filter (·.2.isExpired m.now)
  let left := c.removeAll dead
  (dead.length,
    { left with
      counters := left.counters.recordExpirations (UInt64.ofNat dead.length)
      lastSweep := some m.civil })

/-! ## What a removal leaves -/

theorem mem_rows_of_mem_remove {c : Cache} {key : String} {row : String × Entry}
    (h : row ∈ (c.remove key).entries.rows) : row ∈ c.entries.rows ∧ row.1 ≠ key := by
  rw [remove] at h
  split at h
  · rename_i hnone
    refine ⟨h, fun hkey => ?_⟩
    exact Table.find?_eq_none_iff.1 hnone (hkey ▸ List.mem_map_of_mem h)
  · simpa [Table.erase] using h

end Cache

end ReadThrough
