import ReadThrough.Cache.Basic

/-!
# Regular sweeps

A sweeper has expired entries swept out of a cache at regular times. Its ticks lie on a grid: the
start and every whole interval after it. The first tick, at the start, sweeps nothing. A sweeper
that has been stopped has no more ticks.

When time has moved past several ticks at once, each of them has its sweep, one after another. All
of these see the same moment, and after the first none finds an expired entry. There may be very
many, so `Cache.sweepDue` sweeps once for all of them.
-/

namespace ReadThrough

/-- A clock of regular ticks. -/
structure Sweeper where
  /-- The time between two ticks, in milliseconds. -/
  interval : Nat
  /-- The time since the last tick. -/
  elapsed : Nat
  /-- False once it has been stopped. -/
  running : Bool
  deriving Repr, DecidableEq

namespace Sweeper

/-- The shortest interval. -/
def minInterval : Nat := 10

/-- A sweeper that starts now; a shorter interval is raised to the shortest. -/
def start (interval : Nat) : Sweeper where
  interval := max interval minInterval
  elapsed := 0
  running := true

/-- The sweeper without further ticks. -/
def stop (s : Sweeper) : Sweeper :=
  { s with running := false }

/-- Moves time on; gives the number of ticks that have come due. -/
def advance (s : Sweeper) (span : Nat) : Nat × Sweeper :=
  if s.running then
    let total := s.elapsed + span
    (total / s.interval, { s with elapsed := total % s.interval })
  else (0, s)

end Sweeper

namespace Cache

/-- Sweeps a cache for the ticks that have come due together. -/
def sweepDue (c : Cache) (m : Moment) (due : Nat) : Cache :=
  if due = 0 then c else (c.sweep m).2

end Cache

end ReadThrough
