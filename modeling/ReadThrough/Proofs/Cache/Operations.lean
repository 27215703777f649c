import ReadThrough.Cache.Basic

/-!
# Runs of operations

A cache is used by insertions, look-ups, deletions and sweeps, in any order and each at a moment of
its own. `performAll` does such a run and gives the answers; `c.performAll operations` for a cache
`c` without entries is how every state of a cache comes about.

Nothing is asked of the moments: the clock may stand still or go back, and each moment has its own
order of walking.
-/

namespace ReadThrough.Cache

/-- An operation with all that the outside decides. -/
inductive Operation where
  /-- Caches a content; with a generation, only if the key's is the same. -/
  | insert (m : Moment) (key : String) (content : Bytes) (metadata : Metadata)
      (expected : Option UInt64)
  | get (m : Moment) (key : String)
  | delete (key : String)
  | sweep (m : Moment)

/-- What an operation answers. -/
inductive Answer where
  /-- Whether the content was accepted, and how many entries had to go. -/
  | inserted (accepted : Bool) (evicted : Nat)
  | found (entry : Option Entry)
  /-- Whether there was an entry to delete. -/
  | deleted (present : Bool)
  | swept (count : Nat)
  deriving Repr, DecidableEq

/-- Does an operation. -/
def perform (c : Cache) : Operation → Except Halt (Answer × Cache)
  | .insert m key content metadata expected => do
    let done ← c.insert m key content metadata expected
    return (.inserted done.accepted done.evicted, done.cache)
  | .get m key => .ok (.found (c.get m key).1, (c.get m key).2)
  | .delete key => .ok (.deleted (c.delete key).1, (c.delete key).2)
  | .sweep m => .ok (.swept (c.sweep m).1, (c.sweep m).2)

/-- Does operations one after another. -/
def performAll (c : Cache) : List Operation → Except Halt (List Answer × Cache)
  | [] => .ok ([], c)
  | o :: rest => do
    let (answer, c) ← c.perform o
    let (answers, c) ← c.performAll rest
    return (answer :: answers, c)

/-- A run is its first operation and the run of the others. -/
theorem exists_of_performAll_cons {c c' : Cache} {o : Operation} {rest : List Operation}
    {answers : List Answer} (h : c.performAll (o :: rest) = .ok (answers, c')) :
    ∃ answer c₁ others, c.perform o = .ok (answer, c₁) ∧
      c₁.performAll rest = .ok (others, c') ∧ answers = answer :: others := by
  rw [performAll] at h
  cases hperform : c.perform o with
  | error stop => simp [hperform, bind, Except.bind] at h
  | ok performed =>
    obtain ⟨answer, c₁⟩ := performed
    simp only [hperform, bind, Except.bind] at h
    cases hrest : c₁.performAll rest with
    | error stop => simp [hrest] at h
    | ok finished =>
      obtain ⟨others, c₂⟩ := finished
      simp only [hrest] at h
      obtain ⟨rfl, rfl⟩ := Prod.mk.inj (Except.ok.inj h)
      exact ⟨answer, c₁, others, rfl, hrest, rfl⟩

/-- A run that does one operation more in front. -/
theorem performAll_cons {c c₁ c' : Cache} {o : Operation} {rest : List Operation} {answer : Answer}
    {answers : List Answer} (hperform : c.perform o = .ok (answer, c₁))
    (hrest : c₁.performAll rest = .ok (answers, c')) :
    c.performAll (o :: rest) = .ok (answer :: answers, c') := by
  rw [performAll, hperform]
  show (c₁.performAll rest >>= _) = _
  rw [hrest]
  rfl

/-- The lifetime of what an operation caches ends at an instant that the clock can show. -/
def Operation.EndsInTime (ttl : Nat) : Operation → Prop
  | .insert m .. => m.now.nanos + ttl < Instant.limit
  | _ => True

end ReadThrough.Cache
