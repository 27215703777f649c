/-!
# Counters of a cache

Four counts of events since the start. A count is a 64-bit word and starts again from zero after
the last one.
-/

namespace ReadThrough

/-- The counts of a cache's events. -/
structure Counters where
  /-- Look-ups that found a live entry. -/
  hits : UInt64
  /-- Look-ups that did not. -/
  misses : UInt64
  /-- Entries removed to make room. -/
  evictions : UInt64
  /-- Entries removed because their time was over. -/
  expirations : UInt64
  deriving Repr, DecidableEq

namespace Counters

/-- Nothing has happened yet. -/
def zero : Counters := ⟨0, 0, 0, 0⟩

/-- Counts a look-up that found a live entry. -/
def recordHit (c : Counters) : Counters :=
  { c with hits := c.hits + 1 }

/-- Counts a look-up that did not. -/
def recordMiss (c : Counters) : Counters :=
  { c with misses := c.misses + 1 }

/-- Counts removals to make room. -/
def recordEvictions (c : Counters) (count : UInt64) : Counters :=
  { c with evictions := c.evictions + count }

/-- Counts removals of entries whose time was over. -/
def recordExpirations (c : Counters) (count : UInt64) : Counters :=
  { c with expirations := c.expirations + count }

end Counters

end ReadThrough
