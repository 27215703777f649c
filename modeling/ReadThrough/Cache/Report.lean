import ReadThrough.Cache.Basic
import ReadThrough.Number.Double
import ReadThrough.Time.Format

/-!
# What a cache says of itself

A report is a snapshot of the counts and sizes of a cache. The compression ratio compares the
compressed entries with their contents and is zero without any; the hit rate is zero before the
first look-up.
-/

namespace ReadThrough

/-- A snapshot of a cache. -/
structure Report where
  counters : Counters
  entryCount : Nat
  currentSize : UInt64
  maxSize : UInt64
  /-- Compressed bytes over raw bytes, across the entries with a compressed copy. -/
  compressionRatio : Double
  /-- When expired entries were last swept out, in text. -/
  lastSweep : Option String
  deriving Repr, DecidableEq

namespace Report

/-- The share of look-ups that found something. -/
def hitRate (r : Report) : Double :=
  let total := r.counters.hits + r.counters.misses
  if total = 0 then .zero else .quotient r.counters.hits.toNat total.toNat

end Report

namespace Cache

/-- The sum of a size over the entries with a compressed copy. -/
def packedTotal (c : Cache) (size : Entry → UInt64) : UInt64 :=
  Entry.total size (c.entries.values.filter Entry.isPacked)

/-- A snapshot of a cache. -/
def report (c : Cache) : Report where
  counters := c.counters
  entryCount := c.size
  currentSize := c.currentSize
  maxSize := c.maxSize
  compressionRatio :=
    .quotient (c.packedTotal Entry.packedSize).toNat (c.packedTotal Entry.rawSize).toNat
  lastSweep := c.lastSweep.map Time.rfc3339

end Cache

end ReadThrough
