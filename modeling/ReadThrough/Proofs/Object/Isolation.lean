import ReadThrough.Proofs.Object.Transparency

/-!
# Objects stay out of each other's way

The store keeps objects by bucket and key, the cache by one text made of both. Two objects that
share that text are taken for each other by the cache: a read of one answers with the content of the
other (`exists_seen_ne`). A slash in a bucket's name is all that it takes.

Where objects have texts of their own, a request for one changes nothing of what a read of another
would show (`seen_serve_of_ne`). They have if no bucket has a slash in its name
(`separateKeys_of_plain`).
-/

namespace ReadThrough

open Backend

/-! ## Keys -/

theorem cut?_cacheKey {id : ObjectId} (hplain : '/' ∉ id.bucket.toList) :
    Text.cut? '/' id.cacheKey.toList = some (id.bucket.toList, id.key.toList) := by
  have htext : id.cacheKey.toList = id.bucket.toList ++ '/' :: id.key.toList := by
    simp [ObjectId.cacheKey]
  rw [htext, Text.cut?_append hplain]

/-- Where no bucket has a slash in its name, objects have keys of their own. -/
theorem separateKeys_of_plain {objects : ObjectId → Prop}
    (hplain : ∀ id, objects id → '/' ∉ id.bucket.toList) : SeparateKeys objects := by
  intro a b ha hb hkey
  have hcut := cut?_cacheKey (hplain a ha)
  rw [hkey, cut?_cacheKey (hplain b hb)] at hcut
  obtain ⟨hbucket, hkey⟩ := Prod.mk.inj (Option.some.inj hcut)
  obtain ⟨abucket, akey⟩ := a
  obtain ⟨bbucket, bkey⟩ := b
  rw [ObjectId.mk.injEq]
  exact ⟨(String.toList_injective hbucket).symm, (String.toList_injective hkey).symm⟩

/-! ## Without a cache -/

namespace ObjectRequest

/-- The request only looks. -/
def isRead : ObjectRequest → Bool
  | get .. => true
  | head _ => true
  | put .. => false
  | delete _ => false

/-- A request changes nothing in the store but what is at its own place. -/
theorem find?_direct_of_ne (r : ObjectRequest) (policy : CompressionPolicy) (now : Time)
    (memory : Memory) {other : ObjectId} (hne : other ≠ r.id) :
    (r.direct policy now memory).2.find? other = memory.find? other := by
  unfold direct
  split
  · rfl
  · cases r with
    | get id info =>
      dsimp only [Memory.perform]
      cases memory.find? id <;> rfl
    | put id info body =>
      dsimp only [Memory.perform]
      cases contentOf info body with
      | error fault => rfl
      | ok content => exact memory.find?_place_of_ne _ hne
    | delete id =>
      dsimp only [Memory.perform]
      cases memory.find? id with
      | none => rfl
      | some object => exact memory.find?_erase_of_ne hne
    | head id =>
      dsimp only [Memory.perform]
      cases memory.find? id <;> rfl

/-- A read shows what is at its own place. -/
theorem direct_eq_of_find?_eq {r : ObjectRequest} (hread : r.isRead = true)
    (policy : CompressionPolicy) (now : Time) {memory memory' : Memory}
    (hsame : memory'.find? r.id = memory.find? r.id) :
    (r.direct policy now memory').1 = (r.direct policy now memory).1 := by
  unfold direct
  split
  · rfl
  · cases r with
    | get id info =>
      dsimp only [Memory.perform]
      rw [show memory'.find? id = memory.find? id from hsame]
      cases memory.find? id <;> rfl
    | head id =>
      dsimp only [Memory.perform]
      rw [show memory'.find? id = memory.find? id from hsame]
      cases memory.find? id <;> rfl
    | put | delete => cases hread

end ObjectRequest

namespace Session

/-- What would be seen of a request, but for the part that the cache has in it. -/
def seen (s : Session) (v : Visit) : Except Halt ObjectOutcome :=
  (s.serve v).map fun served => ObjectOutcome.unmarked served.1

/-- A session that a run of requests for the objects leads to. -/
def Reached (objects : ObjectId → Prop) (ttl : Nat) (policy : CompressionPolicy) (s : Session) :
    Prop :=
  ∃ maxSize events outcomes, (∀ event ∈ events, event.Admissible objects ttl) ∧
    (fresh maxSize ttl policy).run events = .ok (outcomes, s)

variable {objects : ObjectId → Prop} {ttl : Nat} {policy : CompressionPolicy} {s : Session}

theorem Reached.faithful (h : Reached objects ttl policy s) (hkeys : SeparateKeys objects) :
    s.Faithful objects ttl policy := by
  obtain ⟨maxSize, events, outcomes, hevents, hrun⟩ := h
  obtain ⟨outcomes', s', hrun', hfaithful, -⟩ :=
    (faithful_fresh maxSize).run_faithful hkeys hevents
  rw [hrun] at hrun'
  obtain ⟨-, rfl⟩ := Prod.mk.inj (Except.ok.inj hrun')
  exact hfaithful

/-- What is seen of a request is what the store alone would show. -/
theorem Faithful.seen_eq (hkeys : SeparateKeys objects) (h : s.Faithful objects ttl policy)
    {v : Visit} (hid : objects v.request.id) (hclock : v.after.now.nanos + ttl < Instant.limit) :
    s.seen v = .ok (ObjectOutcome.unmarked (v.request.direct policy v.during s.memory).1) := by
  obtain ⟨outcome, s', hserve, -, houtcome, -⟩ := h.serve hkeys hid hclock
  rw [seen, hserve, ← houtcome]
  rfl

/-! ## Objects that share a key -/

/-- A write of an object at the first instant. -/
def write (id : ObjectId) (text : String) : Visit :=
  atOnce (.put id ⟨false, none, none⟩ (Bytes.ofText text))

/-- A read of an object at the first instant. -/
def glance (id : ObjectId) : Visit :=
  atOnce (.get id ⟨false, none, none⟩)

theorem toOption_eq_some_iff {ε α : Type} {x : Except ε α} {a : α} :
    x.toOption = some a ↔ x = .ok a := by
  cases x <;> simp [Except.toOption]

/--
**Objects that share a key do not stay apart.** Two objects are written whose buckets and keys make
one text. A read of the second changes what a read of the first shows.
-/
theorem exists_seen_ne :
    ∃ outcomes s outcome s' r r',
      (fresh 100 5 ⟨100⟩).run
        [.visit (write ⟨"a", "b/c"⟩ "one"), .visit (write ⟨"a/b", "c"⟩ "two")] =
          .ok (outcomes, s) ∧
      s.serve (glance ⟨"a/b", "c"⟩) = .ok (outcome, s') ∧
      s.seen (glance ⟨"a", "b/c"⟩) = .ok (.ok r) ∧ r.body = Bytes.ofText "one" ∧
      s'.seen (glance ⟨"a", "b/c"⟩) = .ok (.ok r') ∧ r'.body = Bytes.ofText "two" := by
  have hbodies : (((fresh 100 5 ⟨100⟩).run
      [.visit (write ⟨"a", "b/c"⟩ "one"), .visit (write ⟨"a/b", "c"⟩ "two")]).toOption.bind
        fun ran => (ran.2.serve (glance ⟨"a/b", "c"⟩)).toOption.bind
        fun served => (ran.2.seen (glance ⟨"a", "b/c"⟩)).toOption.bind
        fun before => (served.2.seen (glance ⟨"a", "b/c"⟩)).toOption.bind
        fun after => before.toOption.bind
        fun r => after.toOption.map fun r' => (r.body, r'.body)) =
      some (Bytes.ofText "one", Bytes.ofText "two") := by
    decide +kernel
  simp only [Option.bind_eq_some_iff, Option.map_eq_some_iff, toOption_eq_some_iff, Prod.exists,
    Prod.mk.injEq] at hbodies
  obtain ⟨outcomes, s, hrun, outcome, s', hserve, _, hseen, _, hseen', r, rfl, r', rfl, hr, hr'⟩ :=
    hbodies
  exact ⟨outcomes, s, outcome, s', r, r', hrun, hserve, hseen, hr, hseen', hr'⟩

/-! ## Objects with keys of their own -/

/--
**Objects with keys of their own stay apart.** Whatever is requested of one object, in any session
that requests lead to, a read of another object shows what it would have shown before: what the
store holds of that very object.
-/
theorem seen_serve_of_ne (hkeys : SeparateKeys objects) (hreached : Reached objects ttl policy s)
    {v w : Visit} (hv : objects v.request.id) (hw : objects w.request.id)
    (hne : w.request.id ≠ v.request.id) (hread : w.request.isRead = true)
    (hvclock : v.after.now.nanos + ttl < Instant.limit)
    (hwclock : w.after.now.nanos + ttl < Instant.limit) :
    ∃ outcome s', s.serve v = .ok (outcome, s') ∧ s'.seen w = s.seen w ∧
      s.seen w =
        .ok (ObjectOutcome.unmarked (w.request.direct policy w.during s.memory).1) := by
  have hfaithful := hreached.faithful hkeys
  obtain ⟨outcome, s', hserve, hfaithful', -, hmemory⟩ := hfaithful.serve hkeys hv hvclock
  refine ⟨outcome, s', hserve, ?_, hfaithful.seen_eq hkeys hw hwclock⟩
  have hstored : s'.memory.find? w.request.id = s.memory.find? w.request.id := by
    rw [hmemory]
    exact v.request.find?_direct_of_ne policy v.during s.memory hne
  rw [hfaithful'.seen_eq hkeys hw hwclock, hfaithful.seen_eq hkeys hw hwclock,
    ObjectRequest.direct_eq_of_find?_eq hread policy w.during hstored]

/--
The theorem at work: the copy of one object has to make room for the other, and what is read of it
stays the same.
-/
theorem seen_serve_of_ne_crowded :
    ∃ s, Reached (fun id => '/' ∉ id.bucket.toList) 5 ⟨100⟩ s ∧
      s.cache.contains "letters/hello" = true ∧
      ∃ outcome s', s.serve (glance ⟨"letters", "bye"⟩) = .ok (outcome, s') ∧
        s'.cache.contains "letters/hello" = false ∧
        s'.seen (glance greetingPlace) = s.seen (glance greetingPlace) ∧
        s.seen (glance greetingPlace) = .ok (ObjectOutcome.unmarked
          ((ObjectRequest.get greetingPlace ⟨false, none, none⟩).direct ⟨100⟩ ⟨0, 0⟩
            s.memory).1) := by
  have hcopies : (((fresh 5 5 ⟨100⟩).run
      [.visit (write greetingPlace "hi"), .visit (write ⟨"letters", "bye"⟩ "ciao"),
        .visit (glance greetingPlace)]).toOption.bind
        fun ran => (ran.2.serve (glance ⟨"letters", "bye"⟩)).toOption.map
        fun served => (ran.2.cache.contains "letters/hello",
          served.2.cache.contains "letters/hello")) = some (true, false) := by
    decide +kernel
  simp only [Option.bind_eq_some_iff, Option.map_eq_some_iff, toOption_eq_some_iff, Prod.exists,
    Prod.mk.injEq] at hcopies
  obtain ⟨outcomes, s, hrun, outcome, s', hserve, hbefore, hafter⟩ := hcopies
  have hclock : 0 + 5 < Instant.limit := by decide
  have hreached : Reached (fun id => '/' ∉ id.bucket.toList) 5 ⟨100⟩ s := by
    refine ⟨5, _, outcomes, ?_, hrun⟩
    intro event hevent
    simp only [List.mem_cons, List.not_mem_nil, or_false] at hevent
    rcases hevent with rfl | rfl | rfl <;> exact ⟨by decide, hclock⟩
  obtain ⟨outcome', s'', hserve', hseen⟩ :=
    seen_serve_of_ne (separateKeys_of_plain fun _ hid => hid) hreached
      (v := glance ⟨"letters", "bye"⟩) (w := glance greetingPlace) (by decide) (by decide)
      (by decide) rfl hclock hclock
  rw [hserve] at hserve'
  obtain ⟨-, rfl⟩ := Prod.mk.inj (Except.ok.inj hserve')
  exact ⟨s, hreached, hbefore, outcome, s', hserve, hafter, hseen⟩

end Session

end ReadThrough
