import ReadThrough.Proofs.Object.Copies
import ReadThrough.Proofs.Object.Interleaving

/-!
# Cached copies are current

However requests are interleaved, what the cache holds of an object is what the store holds,
unless a write of the object is between its effect and its second deletion.

## Invariant

An object is `Settled` if its entry copies what the store holds and every read that could still be
cached carries that too. Such a read is one of age zero: any other is refused, for its generation
has moved (`Flight.Tracked`). A write unsettles its object by its effect. It settles it again by
deleting its key, for then there is no entry left and every read in flight is a step older.

* `Coherent.withCache_shrinks`, `Coherent.withCache_delete` — segments that remove
* `Coherent.arrive_get` — a read whose content may be cached
* `Coherent.call` — the effect of a call
* `copies_of_reachable` — the main theorem
-/

namespace ReadThrough.Interleaving

open Backend

/-! ## The invariant -/

/-- The generation of a read in flight and its age make the present generation. -/
def Flight.Tracked (c : Cache) (f : Flight) : Prop :=
  match f.awaiting with
  | .get id generation _ => c.generation id.cacheKey = generation + UInt64.ofNat f.age
  | _ => True

/-- A write of the object has had its effect and has not deleted its key again. -/
def State.Overtaken (s : State) (id : ObjectId) : Prop :=
  ∃ f ∈ s.flights, f.HasWritten id

/-- The cache holds the present object or none, and can get no other from the reads in flight. -/
structure State.Settled (s : State) (id : ObjectId) : Prop where
  cached : ∀ e, s.cache.find? id.cacheKey = some e →
    ∃ object, s.memory.find? id = some object ∧ e.Copies object
  carried : ∀ generation acceptsGzip content metadata,
    ⟨.get id generation acceptsGzip, some (.ok (content, metadata)), 0⟩ ∈ s.flights →
      s.memory.find? id = some ⟨content, metadata⟩

/-- What every step keeps. -/
structure Coherent (objects : ObjectId → Prop) (s : State) : Prop where
  inside : ∀ f ∈ s.flights, objects f.id
  tracked : ∀ f ∈ s.flights, f.Tracked s.cache
  settled : ∀ id, objects id → s.Overtaken id ∨ s.Settled id
  logged : ∀ id left, s.writes.lookup id = some left →
    (s.memory.find? id).map StoredObject.content = left

variable {objects : ObjectId → Prop} {s : State}

theorem mem_middle {f g : Flight} {front back : List Flight} :
    f ∈ front ++ g :: back ↔ f = g ∨ f ∈ front ++ back := by
  rw [List.perm_middle.mem_iff, List.mem_cons]

/-! ## Generations and ages -/

/-- A generation that moves by one makes what noted it older by one. -/
theorem generation_eq_of_moved {noted before after : UInt64} {age : Nat}
    (htracked : before = noted + UInt64.ofNat age) (hmoved : after = before + 1) :
    after = noted + UInt64.ofNat (age + 1) := by
  rw [hmoved, htracked, UInt64.ofNat_add, UInt64.add_assoc]
  rfl

/-- An age below 2⁶⁴ that leads from a generation to itself is zero. -/
theorem age_eq_zero_of_generation_eq {generation : UInt64} {age : Nat}
    (htracked : generation = generation + UInt64.ofNat age) (hyoung : age < 2 ^ 64) : age = 0 := by
  have hwhole : 2 ^ 64 ∣ age := Cache.add_ofNat_eq_self_iff.mp htracked.symm
  exact Nat.eq_zero_of_dvd_of_lt hwhole hyoung

/-! ## Requests that see the cache change -/

theorem Flight.seeing_eq (before after : Cache) (f : Flight) :
    (f.seeing before after = f ∧
        after.generation f.id.cacheKey = before.generation f.id.cacheKey) ∨
      f.seeing before after = { f with age := f.age + 1 } ∧
        after.generation f.id.cacheKey ≠ before.generation f.id.cacheKey := by
  unfold seeing
  split
  · next hsame => exact Or.inl ⟨rfl, hsame⟩
  · next hmoved => exact Or.inr ⟨rfl, hmoved⟩

theorem Flight.id_seeing (before after : Cache) (f : Flight) :
    (f.seeing before after).id = f.id := by
  rcases f.seeing_eq before after with ⟨h, -⟩ | ⟨h, -⟩ <;> rw [h]
  rfl

theorem Flight.hasWritten_seeing (before after : Cache) (f : Flight) (id : ObjectId) :
    (f.seeing before after).HasWritten id ↔ f.HasWritten id := by
  rcases f.seeing_eq before after with ⟨h, -⟩ | ⟨h, -⟩ <;> rw [h]
  exact Iff.rfl

/-- A generation that moves by one makes a request older by one. -/
theorem Flight.Tracked.seeing {before after : Cache} {f : Flight} (h : f.Tracked before)
    (hmoves : after.generation f.id.cacheKey = before.generation f.id.cacheKey ∨
      after.generation f.id.cacheKey = before.generation f.id.cacheKey + 1) :
    (f.seeing before after).Tracked after := by
  obtain ⟨a, outcome, age⟩ := f
  cases a with
  | get id generation acceptsGzip =>
    have hbefore : before.generation id.cacheKey = generation + UInt64.ofNat age := h
    rcases Flight.seeing_eq before after
      ⟨.get id generation acceptsGzip, outcome, age⟩ with ⟨hseen, hsame⟩ | ⟨hseen, hmoved⟩
    · rw [hseen]
      exact hsame.trans hbefore
    · rw [hseen]
      exact generation_eq_of_moved hbefore (hmoves.resolve_left hmoved)
  | put | delete | head =>
    unfold Flight.seeing
    split <;> exact trivial

/-- A request of age zero has seen nothing move. -/
theorem State.mem_flights_of_withCache {c : Cache} {a : Awaiting}
    {outcome : Option a.call.Outcome} (h : ⟨a, outcome, 0⟩ ∈ (s.withCache c).flights) :
    ⟨a, outcome, 0⟩ ∈ s.flights ∧
      c.generation a.call.id.cacheKey = s.cache.generation a.call.id.cacheKey := by
  obtain ⟨f, hf, hseen⟩ := List.mem_map.1 h
  rcases f.seeing_eq s.cache c with ⟨heq, hsame⟩ | ⟨heq, -⟩
  · rw [heq] at hseen
    subst hseen
    exact ⟨hf, hsame⟩
  · rw [heq] at hseen
    have hage : f.age + 1 = 0 := congrArg Flight.age hseen
    omega

theorem State.overtaken_withCache (s : State) (c : Cache) (id : ObjectId) :
    (s.withCache c).Overtaken id ↔ s.Overtaken id := by
  constructor
  · rintro ⟨f, hf, hwritten⟩
    obtain ⟨g, hg, rfl⟩ := List.mem_map.1 hf
    exact ⟨g, hg, (g.hasWritten_seeing s.cache c id).1 hwritten⟩
  · rintro ⟨f, hf, hwritten⟩
    exact ⟨f.seeing s.cache c, List.mem_map_of_mem hf,
      (f.hasWritten_seeing s.cache c id).2 hwritten⟩

/-! ## Segments that change the cache -/

/-- Whoever finds no more than before stays settled. -/
theorem State.Settled.withCache {id : ObjectId} (h : s.Settled id) {c : Cache}
    (hfind : ∀ e, c.find? id.cacheKey = some e → s.cache.find? id.cacheKey = some e) :
    (s.withCache c).Settled id where
  cached := fun e hfound => h.cached e (hfind e hfound)
  carried := fun _ _ _ _ hmem => h.carried _ _ _ _ (State.mem_flights_of_withCache hmem).1

/-- A deletion settles the object whatever was before. -/
theorem State.settled_delete (s : State) (id : ObjectId) :
    (s.withCache (s.cache.delete id.cacheKey).2).Settled id where
  cached := by
    intro e hfound
    have hnone := s.cache.find?_delete_self id.cacheKey
    exact absurd (hnone.symm.trans hfound) (by simp)
  carried := by
    -- every read of the object in flight has seen the generation move, so none is of age zero
    intro generation acceptsGzip content metadata hmem
    have hsame : (s.cache.delete id.cacheKey).2.generation id.cacheKey =
        s.cache.generation id.cacheKey := (State.mem_flights_of_withCache hmem).2
    rw [Cache.generation_delete, if_pos rfl] at hsame
    simp at hsame

/-- Segments keep what they say nothing of. -/
theorem Coherent.withCache (h : Coherent objects s) {c : Cache}
    (hmoves : ∀ key, c.generation key = s.cache.generation key ∨
      c.generation key = s.cache.generation key + 1)
    (hsettled : ∀ id, objects id → s.Settled id → (s.withCache c).Settled id) :
    Coherent objects (s.withCache c) where
  inside := by
    intro f hf
    obtain ⟨g, hg, rfl⟩ := List.mem_map.1 hf
    rw [Flight.id_seeing]
    exact h.inside g hg
  tracked := by
    intro f hf
    obtain ⟨g, hg, rfl⟩ := List.mem_map.1 hf
    exact (h.tracked g hg).seeing (hmoves _)
  settled := by
    intro id hid
    rcases h.settled id hid with hovertaken | hs
    · exact Or.inl ((s.overtaken_withCache c id).2 hovertaken)
    · exact Or.inr (hsettled id hid hs)
  logged := h.logged

/-- A segment that only removes keeps the invariant. -/
theorem Coherent.withCache_shrinks (h : Coherent objects s) {c : Cache}
    (hshrinks : s.cache.Shrinks c) : Coherent objects (s.withCache c) :=
  h.withCache (fun key => Or.inl (hshrinks.generation_eq key))
    fun _ _ hs => hs.withCache fun _ => hshrinks.find?

/-- A deletion keeps the invariant, and settles its object. -/
theorem Coherent.withCache_delete (h : Coherent objects s) (id : ObjectId) :
    Coherent objects (s.withCache (s.cache.delete id.cacheKey).2) := by
  refine h.withCache ?_ fun _ _ hs => hs.withCache fun _ => Cache.find?_of_find?_delete
  intro key
  rw [Cache.generation_delete]
  split
  · exact Or.inr rfl
  · exact Or.inl rfl

/--
A read may cache what it carries: its generation is the present one, so that it is of age zero, and
then it carries what the store holds unless the object is overtaken.
-/
theorem Coherent.withCache_adds (hkeys : SeparateKeys objects) (h : Coherent objects s)
    {id : ObjectId} {acceptsGzip : Bool} {content : Bytes} {metadata : Metadata} {age : Nat}
    (hmem : ⟨.get id (s.cache.generation id.cacheKey) acceptsGzip, some (.ok (content, metadata)),
      age⟩ ∈ s.flights)
    (hyoung : age < 2 ^ 64) {e : Entry} {c : Cache} (hadds : s.cache.Adds e c)
    (hkey : e.key = id.cacheKey) (hcopies : e.Copies ⟨content, metadata⟩) :
    Coherent objects (s.withCache c) := by
  obtain rfl := age_eq_zero_of_generation_eq (h.tracked _ hmem) hyoung
  refine h.withCache (fun key => Or.inl (hadds.generation_eq key)) ?_
  intro other hother hs
  by_cases hsame : other = id
  · subst hsame
    refine ⟨fun x hfound => ?_, fun _ _ _ _ hflight =>
      hs.carried _ _ _ _ (State.mem_flights_of_withCache hflight).1⟩
    have hx : e = x := Option.some.inj (hadds.found.symm.trans (hkey ▸ hfound))
    exact ⟨⟨content, metadata⟩, hs.carried _ _ _ _ hmem, hx ▸ hcopies⟩
  · refine hs.withCache fun x hfound => hadds.others ?_ hfound
    intro hclash
    exact hsame (hkeys other id hother (h.inside _ hmem) (hclash.trans hkey))

/-! ## Segments that begin a request -/

/-- Before its call a request removes entries or deletes its key. -/
theorem start_cases (r : ObjectRequest) (m : Moment) (c : Cache) :
    c.Shrinks (r.start m c).2 ∨ (r.start m c).2 = (c.delete r.id.cacheKey).2 := by
  cases hstart : r.start m c with | mk p c'
  cases starts_of_eq hstart with
  | unnamed => exact Or.inl (.refl c)
  | found | missed | foundHead | missedHead => exact Or.inl (c.shrinks_get m _)
  | undecodable | put | delete => exact Or.inr rfl

/-- A request that waits is about its object, and a read notes the present generation. -/
theorem start_waiting {r : ObjectRequest} {m : Moment} {c c' : Cache} {a : Awaiting}
    (h : r.start m c = (.waiting a, c')) :
    a.call.id = r.id ∧ Flight.Tracked c' ⟨a, none, 0⟩ := by
  cases starts_of_eq h with
  | missed => exact ⟨rfl, (UInt64.add_zero _).symm⟩
  | put | delete | missedHead => exact ⟨rfl, trivial⟩

theorem Coherent.start (h : Coherent objects s) {r : ObjectRequest} {m : Moment} {p : Progress}
    {c : Cache} (hstart : r.start m s.cache = (p, c)) : Coherent objects (s.withCache c) := by
  have hcache : (r.start m s.cache).2 = c := congrArg Prod.snd hstart
  rcases start_cases r m s.cache with hshrinks | hdeleted
  · exact h.withCache_shrinks (hcache ▸ hshrinks)
  · rw [← hcache, hdeleted]
    exact h.withCache_delete r.id

/-- A request whose call has had no effect yet changes nothing by being there. -/
theorem Coherent.depart (h : Coherent objects s) {a : Awaiting} (hobject : objects a.call.id)
    (htracked : Flight.Tracked s.cache ⟨a, none, 0⟩) :
    Coherent objects (s.withFlights (⟨a, none, 0⟩ :: s.flights)) where
  inside := List.forall_mem_cons.2 ⟨hobject, h.inside⟩
  tracked := List.forall_mem_cons.2 ⟨htracked, h.tracked⟩
  settled := by
    intro id hid
    rcases h.settled id hid with ⟨f, hf, hwritten⟩ | hs
    · exact Or.inl ⟨f, List.mem_cons_of_mem _ hf, hwritten⟩
    · refine Or.inr ⟨hs.cached, fun generation acceptsGzip content metadata hmem => ?_⟩
      rcases List.mem_cons.1 hmem with heq | hmem
      · cases heq
      · exact hs.carried _ _ _ _ hmem
  logged := h.logged

/-! ## Segments that end a request -/

/-- A request may leave if what it has written is settled. -/
theorem Coherent.leave (h : Coherent objects s) {front back : List Flight} {f : Flight}
    (hflights : s.flights = front ++ f :: back)
    (hwritten : ∀ id, f.HasWritten id → s.Settled id) :
    Coherent objects (s.withFlights (front ++ back)) := by
  have hleft : ∀ g ∈ front ++ back, g ∈ s.flights := by
    intro g hg
    rw [hflights, mem_middle]
    exact Or.inr hg
  have hstays : ∀ id, s.Settled id → (s.withFlights (front ++ back)).Settled id := fun id hs =>
    ⟨hs.cached, fun _ _ _ _ hmem => hs.carried _ _ _ _ (hleft _ hmem)⟩
  refine ⟨fun g hg => h.inside g (hleft g hg), fun g hg => h.tracked g (hleft g hg), ?_, h.logged⟩
  intro id hid
  rcases h.settled id hid with ⟨g, hg, hghas⟩ | hs
  · rw [hflights, mem_middle] at hg
    rcases hg with rfl | hg
    · exact Or.inr (hstays id (hwritten id hghas))
    · exact Or.inl ⟨g, hg, hghas⟩
  · exact Or.inr (hstays id hs)

/-- A request that leaves may change the cache by its last segment. -/
theorem Coherent.withCache_leave {c : Cache} (h : Coherent objects (s.withCache c))
    {front back : List Flight} {f : Flight} (hflights : s.flights = front ++ f :: back)
    (hwritten : ∀ id, f.HasWritten id → (s.withCache c).Settled id) :
    Coherent objects ((s.withFlights (front ++ back)).withCache c) := by
  have hseen : (s.withCache c).flights = front.map (Flight.seeing s.cache c) ++
      f.seeing s.cache c :: back.map (Flight.seeing s.cache c) := by
    show s.flights.map _ = _
    rw [hflights, List.map_append, List.map_cons]
  have hleft := h.leave hseen fun id hhas => hwritten id ((f.hasWritten_seeing _ _ id).1 hhas)
  rw [← List.map_append] at hleft
  exact hleft

/-- A request leaves with a deletion of its key. -/
theorem Coherent.leave_delete (h : Coherent objects s) {front back : List Flight} {f : Flight}
    (hflights : s.flights = front ++ f :: back) {id : ObjectId} (hid : f.id = id) :
    Coherent objects
      ((s.withFlights (front ++ back)).withCache (s.cache.delete id.cacheKey).2) := by
  refine (h.withCache_delete id).withCache_leave hflights ?_
  rintro other ⟨-, hother, -⟩
  obtain rfl := hid.symm.trans hother
  exact s.settled_delete id

/-- A request that has written nothing leaves the cache as it is. -/
theorem Coherent.leave_unchanged (h : Coherent objects s) {front back : List Flight} {f : Flight}
    (hflights : s.flights = front ++ f :: back) (hwritten : ∀ id, ¬ f.HasWritten id) :
    Coherent objects ((s.withFlights (front ++ back)).withCache s.cache) :=
  (h.withCache_shrinks (.refl s.cache)).withCache_leave hflights
    fun id hhas => absurd hhas (hwritten id)

theorem Flight.not_hasWritten_of_error (a : Awaiting) (failure : Failure) (age : Nat)
    (id : ObjectId) : ¬ HasWritten id ⟨a, some (.error failure), age⟩ := by
  rintro ⟨-, -, reply, hreply⟩
  cases hreply

theorem Flight.not_hasWritten_of_read {a : Awaiting} (hread : a.call.isWrite = false)
    (outcome : Option a.call.Outcome) (age : Nat) (id : ObjectId) :
    ¬ HasWritten id ⟨a, outcome, age⟩ := by
  rintro ⟨hwrite, -, -⟩
  exact absurd (hread.symm.trans hwrite) (by simp)

/-- A read leaves and has its content cached, if the cache accepts it. -/
theorem Coherent.arrive_get (hkeys : SeparateKeys objects) (h : Coherent objects s)
    {front back : List Flight} {id : ObjectId} {generation : UInt64} {acceptsGzip : Bool}
    {content : Bytes} {metadata : Metadata} {age : Nat} {m : Moment} {inserted : Cache.Insertion}
    (hflights : s.flights =
      front ++ ⟨.get id generation acceptsGzip, some (.ok (content, metadata)), age⟩ :: back)
    (hyoung : age < 2 ^ 64)
    (hinsert : s.cache.insert m id.cacheKey content metadata (some generation) = .ok inserted) :
    Coherent objects ((s.withFlights (front ++ back)).withCache inserted.cache) := by
  have hunwritten := Flight.not_hasWritten_of_read (a := .get id generation acceptsGzip) rfl
    (some (.ok (content, metadata))) age
  rcases Cache.insert_cases hinsert with rfl | ⟨-, hgeneration, expires, -, rfl⟩
  · exact h.leave_unchanged hflights hunwritten
  · -- the cache has compared the generations, so the one that the read noted is the present one
    obtain rfl := hgeneration generation rfl
    have hmem : ⟨.get id (s.cache.generation id.cacheKey) acceptsGzip,
        some (.ok (content, metadata)), age⟩ ∈ s.flights := by
      rw [hflights, mem_middle]
      exact Or.inl rfl
    have hcached := h.withCache_adds hkeys hmem hyoung (Cache.adds_accept s.cache m _) rfl
      (Cache.copies_entryOf s.cache id.cacheKey content metadata expires)
    exact hcached.withCache_leave hflights fun other hhas => absurd hhas (hunwritten other)

/-- A read that goes on has failed, or is answered from what it fetched and may have it cached. -/
theorem resume_get_cases {id : ObjectId} {generation : UInt64} {acceptsGzip : Bool}
    {outcome : Except Failure (Bytes × Metadata)} {m : Moment} {c : Cache} {finished : Finished}
    (h : (Awaiting.get id generation acceptsGzip).resume outcome m c = .ok finished) :
    (∃ failure, outcome = .error failure ∧
        finished = ⟨.error (.ofCall "GET" id failure), 0, c⟩) ∨
      ∃ content metadata inserted, outcome = .ok (content, metadata) ∧
        c.insert m id.cacheKey content metadata (some generation) = .ok inserted ∧
        finished = ⟨.ok (Awaiting.answerFromFetch c.policy content metadata acceptsGzip),
          inserted.evicted, inserted.cache⟩ := by
  cases resumes_of_eq h with
  | fetchFailed => exact Or.inl ⟨_, rfl, rfl⟩
  | fetched _ hinsert => exact Or.inr ⟨_, _, _, rfl, hinsert, rfl⟩

/-- A request leaves with its answer. -/
theorem Coherent.arrive (hkeys : SeparateKeys objects) (h : Coherent objects s)
    {front back : List Flight} {a : Awaiting} {age : Nat} {outcome : a.call.Outcome} {m : Moment}
    {finished : Finished} (hflights : s.flights = front ++ ⟨a, some outcome, age⟩ :: back)
    (hyoung : Flight.Young ⟨a, some outcome, age⟩)
    (hresume : a.resume outcome m s.cache = .ok finished) :
    Coherent objects ((s.withFlights (front ++ back)).withCache finished.cache) := by
  cases a with
  | get id generation acceptsGzip =>
    rcases resume_get_cases hresume with
      ⟨failure, rfl, rfl⟩ | ⟨content, metadata, inserted, rfl, hinsert, rfl⟩
    · exact h.leave_unchanged hflights (Flight.not_hasWritten_of_error _ failure age)
    · exact h.arrive_get hkeys hflights hyoung hinsert
  | put id content contentType =>
    cases outcome with
    | error failure =>
      obtain rfl := Except.ok.inj hresume
      exact h.leave_unchanged hflights (Flight.not_hasWritten_of_error _ failure age)
    | ok reply =>
      obtain rfl := Except.ok.inj hresume
      exact h.leave_delete hflights rfl
  | delete id =>
    cases outcome with
    | error failure =>
      rw [Awaiting.resume] at hresume
      -- a deletion that finds nothing deletes its key again all the same
      split at hresume
      · obtain rfl := Except.ok.inj hresume
        exact h.leave_delete hflights rfl
      · obtain rfl := Except.ok.inj hresume
        exact h.leave_unchanged hflights (Flight.not_hasWritten_of_error _ failure age)
    | ok reply =>
      obtain rfl := Except.ok.inj hresume
      exact h.leave_delete hflights rfl
  | head id =>
    have hunwritten := Flight.not_hasWritten_of_read (a := .head id) rfl (some outcome) age
    cases outcome with
    | error failure =>
      obtain rfl := Except.ok.inj hresume
      exact h.leave_unchanged hflights hunwritten
    | ok metadata =>
      obtain rfl := Except.ok.inj hresume
      exact h.leave_unchanged hflights hunwritten

/-- Only a read can be given up. -/
theorem not_isWrite_of_resume_eq_error {a : Awaiting} {outcome : a.call.Outcome} {m : Moment}
    {c : Cache} {stop : Halt} (h : a.resume outcome m c = .error stop) :
    a.call.isWrite = false := by
  cases a with
  | get | head => rfl
  | put id content contentType => cases outcome <;> cases h
  | delete id =>
    cases outcome with
    | error failure =>
      rw [Awaiting.resume] at h
      split at h <;> cases h
    | ok reply => cases h

/-! ## Effects -/

/-- A write unsettles its object by its effect; the effect of any other call changes nothing. -/
theorem Coherent.call (h : Coherent objects s) {front back : List Flight} {a : Awaiting}
    {age : Nat} {outcome : a.call.Outcome} {memory : Memory}
    (hflights : s.flights = front ++ ⟨a, none, age⟩ :: back)
    (heffect : Effect s.memory a.call outcome memory) :
    Coherent objects
      { s with
        memory := memory
        flights := front ++ ⟨a, some outcome, age⟩ :: back
        writes := logWrite a.call outcome s.writes } := by
  have hcalling : ⟨a, none, age⟩ ∈ s.flights := by
    rw [hflights, mem_middle]
    exact Or.inl rfl
  have hflight : ∀ f, f ∈ front ++ ⟨a, some outcome, age⟩ :: back →
      f = ⟨a, some outcome, age⟩ ∨ f ∈ s.flights := by
    intro f hf
    rw [hflights, mem_middle]
    exact (mem_middle.1 hf).imp_right Or.inr
  have hstays : ∀ f ∈ s.flights,
      f = ⟨a, none, age⟩ ∨ f ∈ front ++ ⟨a, some outcome, age⟩ :: back := by
    intro f hf
    rw [hflights] at hf
    rw [mem_middle]
    exact (mem_middle.1 hf).imp_right Or.inr
  refine ⟨?_, ?_, ?_, fun id left => heffect.content_of_logWrite h.logged⟩
  · intro f hf
    rcases hflight f hf with rfl | hf
    · exact h.inside ⟨a, none, age⟩ hcalling
    · exact h.inside f hf
  · intro f hf
    rcases hflight f hf with rfl | hf
    · exact h.tracked ⟨a, none, age⟩ hcalling
    · exact h.tracked f hf
  · intro id hid
    rcases h.settled id hid with ⟨f, hf, hwritten⟩ | hs
    · rcases hstays f hf with rfl | hf
      · obtain ⟨-, -, reply, hreply⟩ := hwritten
        cases hreply
      · exact Or.inl ⟨f, hf, hwritten⟩
    · -- a settled object stays so unless the call changes what is stored of it
      by_cases hsame : memory.find? id = s.memory.find? id
      · refine Or.inr ⟨fun e hfound => hsame ▸ hs.cached e hfound, ?_⟩
        intro generation acceptsGzip content metadata hmem
        rcases hflight _ hmem with heq | hmem
        · cases heq
          exact heffect.find?_of_fetched
        · exact hsame.trans (hs.carried _ _ _ _ hmem)
      · refine Or.inl ⟨⟨a, some outcome, age⟩, mem_middle.2 (Or.inl rfl), ?_⟩
        have hid : a.call.id = id := by
          by_cases hne : id = a.call.id
          · exact hne.symm
          · exact absurd (heffect.find?_of_ne hne) hsame
        rcases heffect.written_or_same with ⟨hwrite, reply, rfl⟩ | rfl
        · exact ⟨hwrite, hid, reply, rfl⟩
        · exact absurd rfl hsame

/-! ## Runs -/

theorem coherent_initial (maxSize : UInt64) (ttl : Nat) (policy : CompressionPolicy)
    (memory : Memory) : Coherent objects (.initial maxSize ttl policy memory) where
  inside := fun _ hf => absurd hf List.not_mem_nil
  tracked := fun _ hf => absurd hf List.not_mem_nil
  settled := fun _ _ => Or.inr
    { cached := fun _ hfound => nomatch hfound
      carried := fun _ _ _ _ hmem => absurd hmem List.not_mem_nil }
  logged := fun _ _ hlookup => nomatch hlookup

theorem Coherent.step (hkeys : SeparateKeys objects) (h : Coherent objects s) {s' : State}
    (hstep : Step objects s s') : Coherent objects s' := by
  cases hstep with
  | answer hobject hstart => exact h.start hstart
  | depart hobject hstart =>
    obtain ⟨hid, htracked⟩ := start_waiting hstart
    exact (h.start hstart).depart (hid ▸ hobject) htracked
  | call hflights heffect => exact h.call hflights heffect
  | arrive hflights hyoung hresume => exact h.arrive hkeys hflights hyoung hresume
  | halt hflights hresume =>
    refine h.leave hflights fun id hhas => ?_
    exact absurd hhas
      (Flight.not_hasWritten_of_read (not_isWrite_of_resume_eq_error hresume) _ _ id)
  | sweep m => exact h.withCache_shrinks (s.cache.shrinks_sweep m)

theorem coherent_of_reachable (hkeys : SeparateKeys objects) (h : Reachable objects s) :
    Coherent objects s := by
  induction h with
  | initial maxSize ttl policy memory => exact coherent_initial maxSize ttl policy memory
  | step _ hstep ih => exact ih.step hkeys hstep

/--
**A cached copy is current.** In every state that interleaved requests lead to, an entry for an
object has the content, the type, the tag and the time of change that the store holds, unless a
write of the object has had its effect and has not deleted its key again. What the store holds is
what the last write of the object left.
-/
theorem copies_of_reachable (hkeys : SeparateKeys objects) (h : Reachable objects s)
    {id : ObjectId} (hid : objects id) (hquiet : ∀ f ∈ s.flights, ¬ f.HasWritten id) {e : Entry}
    (hcached : s.cache.find? id.cacheKey = some e) :
    ∃ object, s.memory.find? id = some object ∧ e.Copies object ∧
      ∀ left, s.writes.lookup id = some left → left = some e.raw := by
  have hcoherent := coherent_of_reachable hkeys h
  rcases hcoherent.settled id hid with ⟨f, hf, hwritten⟩ | hs
  · exact absurd hwritten (hquiet f hf)
  · obtain ⟨object, hfound, hcopies⟩ := hs.cached e hcached
    refine ⟨object, hfound, hcopies, fun left hlookup => ?_⟩
    rw [← hcoherent.logged id left hlookup, hfound, hcopies.raw]
    rfl

/--
A read fetches a letter, and before it is answered the letter is written anew. A second read starts
after the write has returned, fetches the new letter and is answered.
-/
def overtaking : List Move :=
  let dawn : Moment := .at ⟨0⟩ ⟨0, 0⟩
  let read : ObjectRequest := .get Session.greetingPlace ⟨true, none, none⟩
  let write : ObjectRequest :=
    .put Session.greetingPlace ⟨false, some "text/plain", none⟩ (Bytes.ofText "new")
  [.depart read dawn, .call 0 ⟨0, 0⟩,
    .depart write dawn, .call 0 ⟨1, 0⟩, .arrive 0 dawn,
    .depart read dawn, .call 0 ⟨1, 0⟩, .arrive 0 dawn]

/-- A store with the old letter. -/
def oldLetter : Memory :=
  Memory.empty.place Session.greetingPlace
    (Memory.objectOf (Bytes.ofText "old") "text/plain" ⟨0, 0⟩)

/--
The theorem at work: at the end of `overtaking` the new letter is cached, and the read that fetched
the old one is still in flight. It has seen the generation move twice.
-/
theorem copies_of_reachable_overtaking :
    ∃ s, Reachable (· = Session.greetingPlace) s ∧ s.flights.map Flight.age = [2] ∧
      ∃ e, s.cache.find? Session.greetingPlace.cacheKey = some e ∧ e.raw = Bytes.ofText "new" ∧
        ∃ object, s.memory.find? Session.greetingPlace = some object ∧ e.Copies object ∧
          ∀ left, s.writes.lookup Session.greetingPlace = some left → left = some e.raw := by
  have hend : ((State.initial 100 5 ⟨100⟩ oldLetter).moves? overtaking).bind (fun s =>
      (s.cache.find? Session.greetingPlace.cacheKey).map fun e =>
        (s.flights.map Flight.age, s.flights.all (!·.awaiting.call.isWrite), e.raw)) =
      some ([2], true, Bytes.ofText "new") := by
    decide +kernel
  simp only [Option.bind_eq_some_iff, Option.map_eq_some_iff, Prod.mk.injEq] at hend
  obtain ⟨s, hmoves, e, hfound, hages, hreads, hraw⟩ := hend
  have hkeys : SeparateKeys (· = Session.greetingPlace) := fun a b ha hb _ => ha.trans hb.symm
  have hinside : ∀ move ∈ overtaking, move.Inside (· = Session.greetingPlace) := by
    intro move hmove
    simp only [overtaking, List.mem_cons, List.not_mem_nil, or_false] at hmove
    rcases hmove with rfl | rfl | rfl | rfl | rfl | rfl | rfl | rfl <;> trivial
  have hs : Reachable (· = Session.greetingPlace) s :=
    (Reachable.initial 100 5 ⟨100⟩ oldLetter).moves hinside hmoves
  have hquiet : ∀ f ∈ s.flights, ¬ f.HasWritten Session.greetingPlace := by
    rintro f hf ⟨hwrite, -⟩
    have hread := List.all_eq_true.1 hreads f hf
    rw [hwrite] at hread
    cases hread
  exact ⟨s, hs, hages, e, hfound, hraw, copies_of_reachable hkeys hs rfl hquiet hfound⟩

end ReadThrough.Interleaving
