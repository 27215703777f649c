import ReadThrough.Bench.Step
import ReadThrough.Cache.Sweeper

/-!
# Running a trial

`Trial` is what a trial consists of while it runs: the server, the store in memory with the faults
that have been asked for, the clock of the cache, the sweeper with a clock of its own, and the list
of calls made so far. `run` does steps one after another. A `Halt` ends the whole trial.

The calendar stands still, so that answers can be compared: every object of the store was modified
at the same time, unless it was put there with a time of its own.
-/

namespace ReadThrough.Bench

/-- A trial while it runs. -/
structure Trial where
  service : Service
  memory : Backend.Memory
  faults : Table Backend.Verb Fault
  now : Instant
  sweeper : Option Sweeper
  /-- The calls made so far, in words. -/
  calls : List String

namespace Trial

/-- The time of the calendar throughout a trial. -/
def civil : Time := ⟨1700000000, 0⟩

/-- The start of a trial: the clock has run for a day. -/
def started : Instant := ⟨86400 * Time.second⟩

/-- A trial of a server with an empty store. -/
def make (service : Service) : Trial where
  service := service
  memory := .empty
  faults := .empty
  now := started
  sweeper := none
  calls := []

/-- A trial of a cache with the given bounds; without a policy list every request passes. -/
def ofBounds (maxSize : UInt64) (ttlMillis : Nat) (minSize : UInt64) (policy : Option String) :
    Trial :=
  make (.make (.empty maxSize (ttlMillis * 1000000) ⟨minSize⟩)
    (match policy with
    | some list => ⟨.parse list, true⟩
    | none => ⟨.empty, false⟩))

/-- The moment that the clock shows. -/
def moment (t : Trial) : Moment :=
  .at t.now civil

/-- The trial with another cache. -/
def withCache (t : Trial) (cache : Cache) : Trial :=
  { t with service := { t.service with cache } }

/-- The cache as others see it. -/
def view (t : Trial) : View where
  report := t.service.cache.report
  anyPacked := t.service.cache.entries.values.any Entry.isPacked

/-! ## Steps without a call -/

/-- Looks keys up one after another. -/
def lookUpAll (m : Moment) : List String → Cache → List Entry × Cache
  | [], c => ([], c)
  | key :: keys, c =>
    let (found, c) := c.get m key
    let (others, c) := lookUpAll m keys c
    (found.toList ++ others, c)

/-- The sums over found entries. -/
def auditOf (found : List Entry) (size : UInt64) : Audit where
  sumAgrees := Entry.total Entry.storedSize found == size
  rawTotal := Entry.total Entry.rawSize (found.filter (!·.isPacked))
  packedCount := found.countP Entry.isPacked

/-- Does a step that makes no call. -/
def act (t : Trial) : Action → Except Halt (Answer × Trial)
  | .put key content metadata generation => do
    let inserted ← t.service.cache.insert t.moment key content metadata generation
    return (.truth inserted.accepted,
      { t with
        service := { t.service with
          cache := inserted.cache
          metrics := t.service.metrics.recordEvictions inserted.evicted } })
  | .get key =>
    let (found, cache) := t.service.cache.get t.moment key
    .ok (.entry found, t.withCache cache)
  | .delete key =>
    let (found, cache) := t.service.cache.delete key
    .ok (.truth found, t.withCache cache)
  | .contains key => .ok (.truth (t.service.cache.contains key), t)
  | .generation key => .ok (.number (t.service.cache.generation key).toNat, t)
  | .sweep =>
    let (count, cache) := t.service.cache.sweep t.moment
    .ok (.number count, t.withCache cache)
  | .audit keys =>
    let (found, cache) := lookUpAll t.moment keys t.service.cache
    .ok (.audit (auditOf found cache.currentSize), t.withCache cache)
  | .sleep span => .ok (.nothing, { t with now := ⟨t.now.nanos + span * 1000000⟩ })
  | .seed id content metadata =>
    .ok (.nothing, { t with memory := t.memory.place id ⟨content, metadata⟩ })
  | .peek id => .ok (.object (t.memory.find? id), t)
  | .fail verb how =>
    .ok (.nothing,
      { t with
        faults :=
          match how with
          | some fault => t.faults.insert verb fault
          | none => t.faults.erase verb })
  | .startSweeper interval => .ok (.nothing, { t with sweeper := some (.start interval) })
  | .advance span =>
    match t.sweeper with
    | none => .ok (.nothing, t)
    | some sweeper =>
      let (due, sweeper) := sweeper.advance span
      .ok (.nothing,
        { t.withCache (t.service.cache.sweepDue t.moment due) with sweeper := some sweeper })
  | .stopSweeper =>
    match t.sweeper with
    | none => .ok (.nothing, t)
    | some sweeper => .ok (.truth true, { t with sweeper := some sweeper.stop })
  | .unknown => .ok (.refused, t)

/-! ## Requests -/

/-- What runs during a call; gives the replies of what ran. -/
abbrev Interruption := Trial → Except Halt (List Reply × Trial)

/-- Steps that run at a phase of a call. -/
structure Hook where
  phase : Phase
  steps : Interruption

/-- Runs what a hook has for a phase. -/
def Hook.runAt (hook : Option Hook) (phase : Phase) (t : Trial) :
    Except Halt (Option (List Reply) × Trial) :=
  match hook with
  | none => .ok (none, t)
  | some hook =>
    if hook.phase = phase then do
      let (replies, t) ← hook.steps t
      return (some replies, t)
    else .ok (none, t)

/-- Makes a call. One that is asked to fail has no effect and runs no hook. -/
def call (t : Trial) (call : Backend.Call) (hook : Option Hook) :
    Except Halt (call.Outcome × Option (List Reply) × Trial) :=
  let t := { t with calls := t.calls ++ [call.label] }
  match t.faults.find? call.verb with
  | some fault => .ok (.error (fault.failure call.id), none, t)
  | none => do
    let (early, t) ← Hook.runAt hook .before t
    let (outcome, memory) := t.memory.perform civil call
    let (late, t) ← Hook.runAt hook .after { t with memory }
    return (outcome, early.or late, t)

/-- Sends a request. -/
def send (t : Trial) (traffic : Traffic) (hook : Option Hook) :
    Except Halt (Answer × Option (List Reply) × Trial) :=
  match traffic with
  | .unsendable => .ok (.refused, none, t)
  | .object request =>
    match request.start t.moment t.service.cache with
    | (.done outcome, cache) => .ok (.outcome outcome, none, t.withCache cache)
    | (.waiting awaiting, cache) => do
      let (outcome, during, t) ← (t.withCache cache).call awaiting.call hook
      let finished ← awaiting.resume outcome t.moment t.service.cache
      return (.outcome finished.outcome, during,
        { t with
          service := { t.service with
            cache := finished.cache
            metrics := t.service.metrics.recordEvictions finished.evicted } })
  | .http request =>
    match Http.start t.service request t.moment with
    | (.done response, service) =>
      .ok (.response response, none, { t with service })
    | (.waiting awaiting, service) => do
      let (outcome, during, t) ← { t with service }.call awaiting.call hook
      let (response, service) ← Http.resume t.service request awaiting outcome t.moment
      return (.response response, during, { t with service })

/-- Sends a request and tells what came of it. -/
def replyTo (t : Trial) (traffic : Traffic) (hook : Option Hook) : Except Halt (Reply × Trial) := do
  let (answer, during, after) ← t.send traffic hook
  let events :=
    match traffic with
    | .object _ => none
    | _ => some (after.service.log.drop t.service.log.length)
  return (.of answer (after.calls.drop t.calls.length) during events after.view, after)

mutual

/-- Does a step. -/
def step (t : Trial) : Step → Except Halt (Reply × Trial)
  | .action action => do
    let (answer, after) ← t.act action
    return (.of answer [] none none after.view, after)
  | .traffic traffic => t.replyTo traffic none
  | .interrupted traffic phase steps => t.replyTo traffic (some ⟨phase, fun t => run t steps⟩)

/-- Does steps one after another. -/
def run (t : Trial) : List Step → Except Halt (List Reply × Trial)
  | [] => .ok ([], t)
  | s :: rest => do
    let (reply, t) ← step t s
    let (replies, t) ← run t rest
    return (reply :: replies, t)

end

end Trial

end ReadThrough.Bench
