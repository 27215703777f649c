import ReadThrough.Proofs.Cache.Operations

/-!
# Operations with checked arithmetic

The operations of a cache add sizes as words, which start again from zero, and take sizes off down
to zero at most (`Cache.less`). The operations below do the same work in the same order, but stop
with a `SizeFault` where a sum leaves the range of words or a difference would fall below zero.

Where they give a result no sum has started again and no difference has stopped at zero, so the
plain operation has computed with the true numbers throughout.
-/

namespace ReadThrough.Cache

/-- Why an operation with checked arithmetic stops. -/
inductive SizeFault where
  /-- A sum of sizes is no word. -/
  | overflow
  /-- A size is taken off a smaller one. -/
  | underflow
  /-- The plain operation stops too. -/
  | halt (halt : Halt)
  deriving Repr, DecidableEq

/-- The sum of two sizes, if it is a word. -/
def sumChecked (a b : UInt64) : Except SizeFault UInt64 :=
  if a.toNat + b.toNat < UInt64.size then .ok (a + b) else .error .overflow

/-- The difference of two sizes, if there is one. -/
def lessChecked (size part : UInt64) : Except SizeFault UInt64 :=
  if part.toNat ≤ size.toNat then .ok (size - part) else .error .underflow

/-- Removes the entry of a key. -/
def removeChecked (c : Cache) (key : String) : Except SizeFault Cache :=
  match c.find? key with
  | none => .ok c
  | some e => do
    let size ← lessChecked c.currentSize e.storedSize
    return { c with entries := c.entries.erase key, currentSize := size }

/-- Removes the entries of some rows. -/
def removeAllChecked (c : Cache) : List (String × Entry) → Except SizeFault Cache
  | [] => .ok c
  | row :: rows => do
    let c ← c.removeChecked row.1
    c.removeAllChecked rows

/-- Selects the first entries of a walk until `incoming` more bytes fit. -/
def victimsChecked (maxSize incoming : UInt64) :
    (current : UInt64) → List (String × Entry) → Except SizeFault (List (String × Entry))
  | _, [] => .ok []
  | current, (key, e) :: rest => do
    let projected ← sumChecked current incoming
    if projected ≤ maxSize then return []
    else
      let left ← lessChecked current e.storedSize
      let more ← victimsChecked maxSize incoming left rest
      return (key, e) :: more

/-- Removes entries until `incoming` more bytes fit. -/
def makeRoomChecked (c : Cache) (m : Moment) (incoming : UInt64) :
    Except SizeFault (Cache × Nat) := do
  let projected ← sumChecked c.currentSize incoming
  if c.maxSize < projected then
    let gone ← victimsChecked c.maxSize incoming c.currentSize (m.walk c.entries.rows)
    let left ← c.removeAllChecked gone
    return ({ left with counters := left.counters.recordEvictions (UInt64.ofNat gone.length) },
      gone.length)
  else return (c, 0)

/-- Puts an entry in place of the one of its key. -/
def acceptChecked (c : Cache) (m : Moment) (e : Entry) : Except SizeFault (Cache × Nat) := do
  let cleared ← c.removeChecked e.key
  let (roomy, evicted) ← cleared.makeRoomChecked m e.storedSize
  let size ← sumChecked roomy.currentSize e.storedSize
  return ({ roomy with entries := roomy.entries.insert e.key e, currentSize := size }, evicted)

/-- Caches a content. -/
def insertChecked (c : Cache) (m : Moment) (key : String) (content : Bytes)
    (metadata : Metadata) (expected : Option UInt64) : Except SizeFault Insertion :=
  if c.maxSize.toNat < content.length then .ok ⟨false, 0, c⟩
  else do
    let expires ← (m.now.after c.ttl).mapError .halt
    let e := Entry.make key content (c.policy.packed? metadata.contentType content) metadata expires
    if expected.all (· = c.generation key) then
      let (cache, evicted) ← c.acceptChecked m e
      return ⟨true, evicted, cache⟩
    else return ⟨false, 0, c⟩

/-- Looks a key up. -/
def getChecked (c : Cache) (m : Moment) (key : String) :
    Except SizeFault (Option Entry × Cache) :=
  match c.find? key with
  | none => .ok (none, { c with counters := c.counters.recordMiss })
  | some e =>
    if e.isExpired m.now then do
      let left ← c.removeChecked key
      return (none, { left with counters := (c.counters.recordExpirations 1).recordMiss })
    else .ok (some e, { c with counters := c.counters.recordHit })

/-- Removes the entry of a key and moves the key's generation. -/
def deleteChecked (c : Cache) (key : String) : Except SizeFault (Bool × Cache) := do
  let left ← (c.bump key).removeChecked key
  return (c.contains key, left)

/-- Removes all expired entries. -/
def sweepChecked (c : Cache) (m : Moment) : Except SizeFault (Nat × Cache) := do
  let dead := c.entries.rows.filter (·.2.isExpired m.now)
  let left ← c.removeAllChecked dead
  return (dead.length,
    { left with
      counters := left.counters.recordExpirations (UInt64.ofNat dead.length)
      lastSweep := some m.civil })

/-- Does an operation. -/
def performChecked (c : Cache) : Operation → Except SizeFault (Answer × Cache)
  | .insert m key content metadata expected => do
    let done ← c.insertChecked m key content metadata expected
    return (.inserted done.accepted done.evicted, done.cache)
  | .get m key => do
    let (entry, c) ← c.getChecked m key
    return (.found entry, c)
  | .delete key => do
    let (present, c) ← c.deleteChecked key
    return (.deleted present, c)
  | .sweep m => do
    let (count, c) ← c.sweepChecked m
    return (.swept count, c)

/-- Does operations one after another. -/
def performAllChecked (c : Cache) : List Operation → Except SizeFault (List Answer × Cache)
  | [] => .ok ([], c)
  | o :: rest => do
    let (answer, c) ← c.performChecked o
    let (answers, c) ← c.performAllChecked rest
    return (answer :: answers, c)

end ReadThrough.Cache
