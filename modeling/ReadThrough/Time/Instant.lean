import ReadThrough.Time.Calendar

/-!
# Instants

The clock that entries expire by counts nanoseconds from a start of its own; it says nothing of
the calendar. It can show whole seconds below 2⁶³ only; a later instant does not exist, and asking
for one stops the server (`Halt`).
-/

namespace ReadThrough

/-- What stops the whole server. -/
inductive Halt where
  /-- The end of a lifetime lies past the last instant of the clock. -/
  | pastLastInstant
  deriving Repr, DecidableEq

/-- The text that the server stops with. -/
def Halt.message : Halt → String
  | pastLastInstant => "overflow when adding duration to instant"

/-- A reading of the clock, in nanoseconds. -/
structure Instant where
  nanos : Nat
  deriving Repr, DecidableEq

namespace Instant

/-- The end of the clock's range, in nanoseconds. -/
def limit : Nat := (1 <<< 63) * Time.second

/-- The instant `span` nanoseconds later. -/
def after (start : Instant) (span : Nat) : Except Halt Instant :=
  if start.nanos + span < limit then .ok ⟨start.nanos + span⟩ else .error .pastLastInstant

/-- True if an instant is at or past another. -/
def reached (due now : Instant) : Bool :=
  due.nanos ≤ now.nanos

end Instant

end ReadThrough
