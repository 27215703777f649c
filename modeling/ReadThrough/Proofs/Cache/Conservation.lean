import ReadThrough.Cache.Report
import ReadThrough.Proofs.Cache.History

/-!
# The books of a cache balance

Every operation of a run leaves a `Record`: the cache that it was done to, and what it answered.
A record tells which entries came in (`Record.stored`) and which went out, each with the way in
which it went (`Record.departed`).

* `Balances` — from one cache to another: what was there or came in is there still or has gone,
  once; the four counts have moved by what the records show
* `balances_perform` — one operation, `Balances.trans` — one run after another
* `conserved_performAll_empty` — the main theorem: a run from a cache without entries

The clock plays no part in this and may go back.
-/

namespace ReadThrough.Cache

/-! ## Records -/

/-- An operation of a run: the cache that it was done to, and its answer. -/
structure Record where
  before : Cache
  operation : Operation
  answer : Answer

/-- The records of a run, in order. -/
def records (c : Cache) : List Operation → List Record
  | [] => []
  | o :: rest =>
    match c.perform o with
    | .error _ => []
    | .ok (answer, c') => ⟨c, o, answer⟩ :: records c' rest

/-- The row of a key, if there is one. -/
def rowsOf (c : Cache) (key : String) : List (String × Entry) :=
  ((c.find? key).map fun e => (key, e)).toList

/-- The way in which an entry has gone. -/
inductive Fate where
  /-- Another entry was accepted for its key. -/
  | replaced
  | deleted
  | evicted
  | expired
  deriving Repr, DecidableEq

/-- Rows that all went in one way. -/
def Fate.mark (fate : Fate) (rows : List (String × Entry)) : List (Fate × String × Entry) :=
  rows.map fun row => (fate, row)

namespace Record

/-- The row that came in. -/
@[simp] def stored : Record → List (String × Entry)
  | ⟨c, .insert m key content metadata _, .inserted true _⟩ =>
    [(key, c.entryOf key content metadata ⟨m.now.nanos + c.ttl⟩)]
  | _ => []

/-- The rows that went out, each with the way in which it went. -/
@[simp] def departed : Record → List (Fate × String × Entry)
  | ⟨c, .insert m key content metadata _, .inserted true _⟩ =>
    let e := c.entryOf key content metadata ⟨m.now.nanos + c.ttl⟩
    Fate.replaced.mark (c.rowsOf key) ++ Fate.evicted.mark ((c.remove key).gone m e.storedSize)
  | ⟨_, .insert .., _⟩ => []
  | ⟨c, .get m key, _⟩ =>
    Fate.expired.mark ((c.rowsOf key).filter fun row => row.2.isExpired m.now)
  | ⟨c, .delete key, _⟩ => Fate.deleted.mark (c.rowsOf key)
  | ⟨c, .sweep m, _⟩ =>
    Fate.expired.mark (c.entries.rows.filter fun row => row.2.isExpired m.now)

/-- A content was accepted. -/
@[simp] def accepts (r : Record) : Bool :=
  match r.answer with
  | .inserted accepted _ => accepted
  | _ => false

/-- A content was accepted for a key that had an entry, dead or alive. -/
@[simp] def replaces (r : Record) : Bool :=
  match r.operation with
  | .insert _ key .. => r.accepts && r.before.contains key
  | _ => false

/-- There was an entry to delete. -/
@[simp] def deletes (r : Record) : Bool :=
  match r.answer with
  | .deleted present => present
  | _ => false

/-- A look-up. -/
@[simp] def looksUp (r : Record) : Bool :=
  match r.answer with
  | .found _ => true
  | _ => false

/-- A look-up that gave an entry. -/
@[simp] def hits (r : Record) : Bool :=
  match r.answer with
  | .found entry => entry.isSome
  | _ => false

/-- A look-up that came upon an expired entry. -/
@[simp] def findsExpired (r : Record) : Bool :=
  match r.operation with
  | .get m key => (r.before.find? key).any fun e => e.isExpired m.now
  | _ => false

/-- How many entries had to go, as the operation tells. -/
@[simp] def evicted (r : Record) : Nat :=
  match r.answer with
  | .inserted _ count => count
  | _ => 0

/-- How many entries were swept out, as the operation tells. -/
@[simp] def swept (r : Record) : Nat :=
  match r.answer with
  | .swept count => count
  | _ => 0

end Record

/-- How many entries went in a given way. -/
def departures (fate : Fate) (rs : List Record) : Nat :=
  (rs.flatMap Record.departed).countP (·.1 = fate)

/-- How many entries were evicted, as the operations tell. -/
def evictedIn (rs : List Record) : Nat :=
  (rs.map Record.evicted).sum

/-- How many entries were swept out, or found expired by a look-up. -/
def expiredIn (rs : List Record) : Nat :=
  (rs.map Record.swept).sum + rs.countP Record.findsExpired

/-! ## Rows that go -/

theorem length_rowsOf (c : Cache) (key : String) :
    (c.rowsOf key).length = if c.contains key then 1 else 0 := by
  unfold rowsOf contains
  cases c.find? key <;> rfl

theorem perm_remove (c : Cache) (key : String) :
    c.entries.rows.Perm ((c.remove key).entries.rows ++ c.rowsOf key) := by
  unfold rowsOf
  cases hfound : c.find? key with
  | none =>
    rw [remove_of_find?_eq_none hfound]
    simp
  | some e =>
    rw [remove_of_find?_eq_some hfound]
    exact (Table.perm_cons_erase hfound).trans (List.perm_append_singleton _ _).symm

/-- Rows of a cache that are removed are the only ones that go. -/
theorem perm_removeAll {c : Cache} {rows : List (String × Entry)}
    (hrows : ∀ row ∈ rows, row ∈ c.entries.rows) (hkeys : (rows.map Prod.fst).Nodup) :
    c.entries.rows.Perm ((c.removeAll rows).entries.rows ++ rows) := by
  induction rows generalizing c with
  | nil => simp [removeAll]
  | cons row rows ih =>
    obtain ⟨key, e⟩ := row
    rw [List.map_cons, List.nodup_cons] at hkeys
    have hfound : c.find? key = some e := Table.mem_rows_iff.mp (hrows _ List.mem_cons_self)
    have hleft : ∀ other ∈ rows, other ∈ (c.remove key).entries.rows := by
      intro other hother
      refine mem_rows_remove.mpr ⟨hrows other (List.mem_cons_of_mem _ hother), fun he => hkeys.1 ?_⟩
      exact List.mem_map.mpr ⟨other, hother, he⟩
    have hfirst : c.entries.rows.Perm ((key, e) :: (c.remove key).entries.rows) := by
      rw [remove_of_find?_eq_some hfound]
      exact Table.perm_cons_erase hfound
    rw [removeAll_cons]
    exact hfirst.trans (((ih hleft hkeys.2).cons _).trans List.perm_middle.symm)

theorem perm_makeRoom (c : Cache) (m : Moment) (incoming : UInt64) :
    c.entries.rows.Perm ((c.makeRoom m incoming).1.entries.rows ++ c.gone m incoming) := by
  unfold makeRoom
  split
  · exact perm_removeAll (fun _ hrow => mem_rows_of_mem_gone hrow) (c.nodup_keys_gone m incoming)
  · next hroom =>
    rw [gone_eq_nil m hroom]
    simp

theorem perm_sweep (c : Cache) (m : Moment) :
    c.entries.rows.Perm ((c.sweep m).2.entries.rows ++
      c.entries.rows.filter fun row => row.2.isExpired m.now) :=
  perm_removeAll (fun _ hrow => (List.mem_filter.mp hrow).1)
    (c.entries.nodup.sublist (List.filter_sublist.map Prod.fst))

theorem perm_accept (c : Cache) (m : Moment) (e : Entry) :
    (c.entries.rows ++ [(e.key, e)]).Perm ((c.accept m e).1.entries.rows ++
      (c.rowsOf e.key ++ (c.remove e.key).gone m e.storedSize)) := by
  have hrows := c.rows_accept m e
  have hremove := List.perm_iff_count.mp (c.perm_remove e.key)
  have hroom := List.perm_iff_count.mp ((c.remove e.key).perm_makeRoom m e.storedSize)
  refine List.perm_iff_count.mpr fun row => ?_
  specialize hremove row
  specialize hroom row
  change _ = List.count row ((c.roomFor m e).entries.rows ++ _) at hroom
  simp only [hrows, List.count_append] at hremove hroom ⊢
  omega

/-! ## Counts -/

@[simp] theorem recordEvictions_zero (counters : Counters) :
    counters.recordEvictions 0 = counters := by
  simp [Counters.recordEvictions]

theorem counters_remove (c : Cache) (key : String) : (c.remove key).counters = c.counters := by
  unfold remove
  split <;> rfl

theorem counters_removeAll (c : Cache) (rows : List (String × Entry)) :
    (c.removeAll rows).counters = c.counters := by
  induction rows generalizing c with
  | nil => rfl
  | cons row rows ih =>
    rw [removeAll_cons, ih, counters_remove]

theorem counters_makeRoom (c : Cache) (m : Moment) (incoming : UInt64) :
    (c.makeRoom m incoming).1.counters =
      c.counters.recordEvictions (UInt64.ofNat (c.gone m incoming).length) := by
  unfold makeRoom
  split
  · show (c.removeAll (c.gone m incoming)).counters.recordEvictions _ = _
    rw [counters_removeAll]
    rfl
  · next hroom =>
    rw [gone_eq_nil m hroom]
    simp

theorem counters_accept (c : Cache) (m : Moment) (e : Entry) :
    (c.accept m e).1.counters = c.counters.recordEvictions
      (UInt64.ofNat ((c.remove e.key).gone m e.storedSize).length) := by
  show ((c.remove e.key).makeRoom m e.storedSize).1.counters = _
  rw [counters_makeRoom, counters_remove]

theorem counters_sweep (c : Cache) (m : Moment) :
    (c.sweep m).2.counters = c.counters.recordExpirations (UInt64.ofNat (c.sweep m).1) := by
  show (c.removeAll _).counters.recordExpirations _ = _
  rw [counters_removeAll]
  rfl

theorem snd_accept (c : Cache) (m : Moment) (e : Entry) :
    (c.accept m e).2 = ((c.remove e.key).gone m e.storedSize).length := by
  show ((c.remove e.key).makeRoom m e.storedSize).2 = _
  unfold makeRoom
  split
  · rfl
  · next hroom => rw [gone_eq_nil m hroom, List.length_nil]

theorem counters_delete (c : Cache) (key : String) : (c.delete key).2.counters = c.counters :=
  (c.bump key).counters_remove key

theorem counters_insert {c : Cache} {m : Moment} {key : String} {content : Bytes}
    {metadata : Metadata} {expected : Option UInt64} {done : Insertion}
    (h : c.insert m key content metadata expected = .ok done) :
    done.cache.counters = c.counters.recordEvictions (UInt64.ofNat done.evicted) := by
  rcases insert_cases h with rfl | ⟨-, -, expires, -, rfl⟩
  · simp
  · show (c.accept m _).1.counters = c.counters.recordEvictions (UInt64.ofNat (c.accept m _).2)
    rw [counters_accept, snd_accept]

/-- A look-up that gives an entry is a hit. -/
theorem counters_get_of_eq_some {c : Cache} {m : Moment} {key : String} {e : Entry}
    (h : (c.get m key).1 = some e) : (c.get m key).2.counters = c.counters.recordHit := by
  unfold get at h ⊢
  cases hfound : c.find? key with
  | none =>
    rw [hfound] at h
    cases h
  | some x =>
    simp only [hfound] at h ⊢
    by_cases hexpired : x.isExpired m.now = true
    · rw [if_pos hexpired] at h
      cases h
    · rw [if_neg hexpired]

/-- A look-up that gives none is a miss, whether an entry has expired or not. -/
theorem counters_get_of_eq_none {c : Cache} {m : Moment} {key : String}
    (h : (c.get m key).1 = none) :
    ∃ count, (c.get m key).2.counters = (c.counters.recordExpirations count).recordMiss := by
  unfold get at h ⊢
  cases hfound : c.find? key with
  | none => exact ⟨0, by simp [Counters.recordExpirations]⟩
  | some x =>
    simp only [hfound] at h ⊢
    by_cases hexpired : x.isExpired m.now = true
    · rw [if_pos hexpired]
      exact ⟨1, rfl⟩
    · rw [if_neg hexpired] at h
      cases h

/-! ## Balance -/

/--
From one cache to another by the operations of some records. Each entry that was there or came in
is there still or has gone in one way; the ways are those that the operations tell; the counts have
moved by as much.
-/
structure Balances (c : Cache) (rs : List Record) (c' : Cache) : Prop where
  rows : (c.entries.rows ++ rs.flatMap Record.stored).Perm
    (c'.entries.rows ++ (rs.flatMap Record.departed).map Prod.snd)
  accepted : (rs.flatMap Record.stored).length = rs.countP Record.accepts
  replaced : departures .replaced rs = rs.countP Record.replaces
  deleted : departures .deleted rs = rs.countP Record.deletes
  evicted : departures .evicted rs = evictedIn rs
  expired : departures .expired rs = expiredIn rs
  evictions : c'.counters.evictions = c.counters.evictions + UInt64.ofNat (evictedIn rs)
  expirations : c'.counters.expirations = c.counters.expirations + UInt64.ofNat (expiredIn rs)
  hits : c'.counters.hits = c.counters.hits + UInt64.ofNat (rs.countP Record.hits)
  lookUps : c'.counters.hits + c'.counters.misses =
    c.counters.hits + c.counters.misses + UInt64.ofNat (rs.countP Record.looksUp)

@[simp] theorem map_snd_mark (fate : Fate) (rows : List (String × Entry)) :
    (fate.mark rows).map Prod.snd = rows := by
  simp [Fate.mark, Function.comp_def]

@[simp] theorem countP_mark (fate way : Fate) (rows : List (String × Entry)) :
    (way.mark rows).countP (·.1 = fate) = if way = fate then rows.length else 0 := by
  by_cases h : way = fate <;> simp [Fate.mark, Function.comp_def, h]

theorem departures_append (fate : Fate) (rs rs' : List Record) :
    departures fate (rs ++ rs') = departures fate rs + departures fate rs' := by
  simp [departures]

theorem evictedIn_append (rs rs' : List Record) :
    evictedIn (rs ++ rs') = evictedIn rs + evictedIn rs' := by
  simp [evictedIn]

theorem expiredIn_append (rs rs' : List Record) :
    expiredIn (rs ++ rs') = expiredIn rs + expiredIn rs' := by
  simp only [expiredIn, List.map_append, List.sum_append, List.countP_append]
  omega

theorem balances_nil (c : Cache) : c.Balances [] c := by
  constructor <;> simp [departures, evictedIn, expiredIn]

/-- One run after another balances if both do. -/
theorem Balances.trans {c c' c'' : Cache} {rs rs' : List Record} (h : c.Balances rs c')
    (h' : c'.Balances rs' c'') : c.Balances (rs ++ rs') c'' where
  rows := by
    refine List.perm_iff_count.mpr fun row => ?_
    have hfirst := List.perm_iff_count.mp h.rows row
    have hsecond := List.perm_iff_count.mp h'.rows row
    simp only [List.flatMap_append, List.map_append, List.count_append] at hfirst hsecond ⊢
    omega
  accepted := by
    rw [List.flatMap_append, List.length_append, List.countP_append, h.accepted, h'.accepted]
  replaced := by rw [departures_append, List.countP_append, h.replaced, h'.replaced]
  deleted := by rw [departures_append, List.countP_append, h.deleted, h'.deleted]
  evicted := by rw [departures_append, evictedIn_append, h.evicted, h'.evicted]
  expired := by rw [departures_append, expiredIn_append, h.expired, h'.expired]
  evictions := by
    rw [h'.evictions, h.evictions, evictedIn_append, UInt64.ofNat_add, UInt64.add_assoc]
  expirations := by
    rw [h'.expirations, h.expirations, expiredIn_append, UInt64.ofNat_add, UInt64.add_assoc]
  hits := by rw [h'.hits, h.hits, List.countP_append, UInt64.ofNat_add, UInt64.add_assoc]
  lookUps := by
    rw [h'.lookUps, h.lookUps, List.countP_append, UInt64.ofNat_add, UInt64.add_assoc]

/-! ## One operation -/

section perform

variable (c : Cache) (m : Moment) (key : String)

theorem balances_refused (content : Bytes) (metadata : Metadata) (expected : Option UInt64) :
    c.Balances [⟨c, .insert m key content metadata expected, .inserted false 0⟩] c := by
  constructor <;> simp [departures, evictedIn, expiredIn]

theorem balances_accept (content : Bytes) (metadata : Metadata) (expected : Option UInt64)
    {e : Entry} (he : e = c.entryOf key content metadata ⟨m.now.nanos + c.ttl⟩) :
    c.Balances [⟨c, .insert m key content metadata expected, .inserted true (c.accept m e).2⟩]
      (c.accept m e).1 := by
  have hkey : e.key = key := by rw [he]; rfl
  have hrows := c.perm_accept m e
  have hcounters := c.counters_accept m e
  have hevicted := c.snd_accept m e
  rw [hkey] at hrows hcounters hevicted
  constructor <;>
    simp [departures, evictedIn, expiredIn, ← he, hrows, hcounters, hevicted, length_rowsOf,
      Counters.recordEvictions]

theorem balances_get :
    c.Balances [⟨c, .get m key, .found (c.get m key).1⟩] (c.get m key).2 := by
  have hrows := c.perm_remove key
  unfold get
  cases hfound : c.find? key with
  | none =>
    constructor <;>
      simp [departures, evictedIn, expiredIn, rowsOf, hfound, Counters.recordMiss,
        UInt64.add_assoc]
  | some e =>
    rw [rowsOf, hfound, Option.map_some, Option.toList_some] at hrows
    dsimp only
    cases hexpired : e.isExpired m.now with
    | false =>
      constructor <;>
        simp [departures, evictedIn, expiredIn, rowsOf, hfound, hexpired, Counters.recordHit,
          UInt64.add_assoc, UInt64.add_comm 1]
    | true =>
      constructor <;>
        simp [departures, evictedIn, expiredIn, rowsOf, hfound, hexpired, hrows,
          Counters.recordMiss, Counters.recordExpirations, UInt64.add_assoc]

theorem balances_delete :
    c.Balances [⟨c, .delete key, .deleted (c.delete key).1⟩] (c.delete key).2 := by
  have hrows : c.entries.rows.Perm ((c.delete key).2.entries.rows ++ c.rowsOf key) :=
    (c.bump key).perm_remove key
  have hcounters := c.counters_delete key
  have hpresent : (c.delete key).1 = c.contains key := rfl
  constructor <;>
    simp [departures, evictedIn, expiredIn, hrows, hcounters, hpresent, length_rowsOf]
  case deleted => rfl

theorem balances_sweep :
    c.Balances [⟨c, .sweep m, .swept (c.sweep m).1⟩] (c.sweep m).2 := by
  have hrows := c.perm_sweep m
  have hcounters := c.counters_sweep m
  have hcount : (c.sweep m).1 = (c.entries.rows.filter fun row => row.2.isExpired m.now).length :=
    rfl
  constructor <;>
    simp [departures, evictedIn, expiredIn, hrows, hcounters, ← hcount, Counters.recordExpirations]

end perform

/-- One operation balances. -/
theorem balances_perform {c c' : Cache} {o : Operation} {answer : Answer}
    (h : c.perform o = .ok (answer, c')) : c.Balances [⟨c, o, answer⟩] c' := by
  cases o with
  | insert m key content metadata expected =>
    rw [perform] at h
    obtain ⟨done, hinsert, h⟩ := exists_of_bind_eq_ok h
    obtain ⟨rfl, rfl⟩ := Prod.mk.inj (Except.ok.inj h)
    rcases insert_cases hinsert with rfl | ⟨-, -, expires, hexpires, rfl⟩
    · exact balances_refused c m key content metadata expected
    · obtain rfl := expires_eq hexpires
      exact balances_accept c m key content metadata expected rfl
  | get m key =>
    obtain ⟨rfl, rfl⟩ := Prod.mk.inj (Except.ok.inj h)
    exact balances_get c m key
  | delete key =>
    obtain ⟨rfl, rfl⟩ := Prod.mk.inj (Except.ok.inj h)
    exact balances_delete c key
  | sweep m =>
    obtain ⟨rfl, rfl⟩ := Prod.mk.inj (Except.ok.inj h)
    exact balances_sweep c m

/-! ## Runs -/

theorem records_cons {c c' : Cache} {o : Operation} {answer : Answer} (rest : List Operation)
    (h : c.perform o = .ok (answer, c')) :
    c.records (o :: rest) = [⟨c, o, answer⟩] ++ c'.records rest := by
  rw [records, h]
  rfl

/-- A run balances, and its records are those of all its operations. -/
theorem balances_performAll {c c' : Cache} {operations : List Operation} {answers : List Answer}
    (h : c.performAll operations = .ok (answers, c')) :
    c.Balances (c.records operations) c' ∧
      (c.records operations).map Record.operation = operations ∧
      (c.records operations).map Record.answer = answers := by
  induction operations generalizing c answers with
  | nil =>
    obtain ⟨rfl, rfl⟩ := Prod.mk.inj (Except.ok.inj h)
    exact ⟨balances_nil c, rfl, rfl⟩
  | cons o rest ih =>
    obtain ⟨answer, c₁, others, hperform, hrest, rfl⟩ := exists_of_performAll_cons h
    obtain ⟨hbalances, hoperations, hanswers⟩ := ih hrest
    rw [records_cons rest hperform]
    refine ⟨(balances_perform hperform).trans hbalances, ?_, ?_⟩
    · simp [hoperations]
    · simp [hanswers]

/-! ## From the beginning -/

theorem length_eq_sum_countP {α : Type} (gone : List (Fate × α)) :
    gone.length = gone.countP (·.1 = .replaced) + gone.countP (·.1 = .deleted) +
      gone.countP (·.1 = .evicted) + gone.countP (·.1 = .expired) := by
  induction gone with
  | nil => rfl
  | cons row gone ih =>
    obtain ⟨fate, row⟩ := row
    simp only [List.length_cons, List.countP_cons, ih]
    cases fate <;> simp <;> omega

/-- The books of a run from a cache without entries, held against the cache it leaves. -/
structure Conserved (rs : List Record) (c : Cache) : Prop where
  /-- Each entry that came in is there still or has gone, and that once. -/
  rows : (rs.flatMap Record.stored).Perm
    (c.entries.rows ++ (rs.flatMap Record.departed).map Prod.snd)
  /-- The ways in which entries went are as many as the operations tell. -/
  fates : departures .replaced rs = rs.countP Record.replaces ∧
    departures .deleted rs = rs.countP Record.deletes ∧
    departures .evicted rs = evictedIn rs ∧ departures .expired rs = expiredIn rs
  accepted : rs.countP Record.accepts =
    c.size + rs.countP Record.replaces + rs.countP Record.deletes + evictedIn rs + expiredIn rs
  /-- The same with the counts that the cache keeps, as words. -/
  reported : UInt64.ofNat (rs.countP Record.accepts) =
    UInt64.ofNat (c.size + rs.countP Record.replaces + rs.countP Record.deletes) +
      c.report.counters.evictions + c.report.counters.expirations
  expirations : c.report.counters.expirations = UInt64.ofNat (expiredIn rs)
  hits : c.report.counters.hits = UInt64.ofNat (rs.countP Record.hits)
  lookUps : c.report.counters.hits + c.report.counters.misses =
    UInt64.ofNat (rs.countP Record.looksUp)
  entryCount : c.report.entryCount = c.size

theorem Balances.conserved {maxSize : UInt64} {ttl : Nat} {policy : CompressionPolicy}
    {rs : List Record} {c : Cache} (h : (empty maxSize ttl policy).Balances rs c) :
    Conserved rs c := by
  have hrows : (rs.flatMap Record.stored).Perm
      (c.entries.rows ++ (rs.flatMap Record.departed).map Prod.snd) := h.rows
  have hevictions : c.counters.evictions = UInt64.ofNat (evictedIn rs) :=
    h.evictions.trans (UInt64.zero_add _)
  have hexpirations : c.counters.expirations = UInt64.ofNat (expiredIn rs) :=
    h.expirations.trans (UInt64.zero_add _)
  -- every row that has gone went in one of four ways, so their numbers add up
  have haccepted : rs.countP Record.accepts =
      c.size + rs.countP Record.replaces + rs.countP Record.deletes + evictedIn rs +
        expiredIn rs := by
    have hlength := hrows.length_eq
    have hfates := length_eq_sum_countP (rs.flatMap Record.departed)
    change _ = departures .replaced rs + departures .deleted rs + departures .evicted rs +
      departures .expired rs at hfates
    rw [h.replaced, h.deleted, h.evicted, h.expired] at hfates
    rw [h.accepted, List.length_append, List.length_map, hfates] at hlength
    change _ = c.size + _ at hlength
    omega
  refine ⟨hrows, ⟨h.replaced, h.deleted, h.evicted, h.expired⟩, haccepted, ?_, hexpirations,
    h.hits.trans (UInt64.zero_add _), ?_, rfl⟩
  · show _ = _ + c.counters.evictions + c.counters.expirations
    rw [haccepted, hevictions, hexpirations, UInt64.ofNat_add, UInt64.ofNat_add]
  · exact h.lookUps.trans (UInt64.zero_add _)

/--
**No entry is lost from the books, and none is booked twice.** After any run from a cache without
entries, each entry that was accepted is in the cache or has been replaced, deleted, evicted or has
expired, and that in one way only. As many contents were accepted as there are entries and as have
gone in these ways; the cache's own counts of evictions and expirations are those numbers, as words.
Hits are the look-ups that gave an entry, and hits and misses are all look-ups.
-/
theorem conserved_performAll_empty (maxSize : UInt64) {ttl : Nat} (policy : CompressionPolicy)
    {operations : List Operation} (hends : ∀ o ∈ operations, o.EndsInTime ttl) :
    ∃ answers c, (empty maxSize ttl policy).performAll operations = .ok (answers, c) ∧
      ((empty maxSize ttl policy).records operations).map Record.operation = operations ∧
      ((empty maxSize ttl policy).records operations).map Record.answer = answers ∧
      Conserved ((empty maxSize ttl policy).records operations) c := by
  obtain ⟨answers, c, hrun⟩ := exists_performAll_eq_ok (c := empty maxSize ttl policy) hends
  obtain ⟨hbalances, hoperations, hanswers⟩ := balances_performAll hrun
  exact ⟨answers, c, hrun, hoperations, hanswers, hbalances.conserved⟩

/-- A run in which entries go in all four ways, and contents are refused for both reasons. -/
def variedRun : List Operation :=
  let insert (now : Nat) (key : String) (content : Bytes) (expected : Option UInt64) : Operation :=
    .insert (.at ⟨now⟩ ⟨0, 0⟩) key content ⟨"text/plain", 4, ⟨0, 0⟩, "tag"⟩ expected
  [insert 0 "a/1" [1, 2, 3, 4, 5, 6] none, insert 0 "a/1" [1, 2, 3, 4, 5] none,
    insert 1 "a/2" [1, 2, 3, 4, 5, 6] none, insert 1 "a/3" [1, 2, 3, 4, 5, 6, 7, 8, 9, 10, 11] none,
    .delete "a/2", .delete "a/2", insert 1 "a/2" [1, 2, 3, 4] (some 0),
    insert 1 "a/4" [1, 2, 3, 4] none, insert 2 "a/5" [1, 2, 3, 4] none,
    .get (.at ⟨3⟩ ⟨0, 0⟩) "a/5", .get (.at ⟨6⟩ ⟨0, 0⟩) "a/4", .get (.at ⟨6⟩ ⟨0, 0⟩) "a/4",
    insert 6 "a/6" [1, 2] none, .sweep (.at ⟨7⟩ ⟨0, 0⟩)]

/--
The theorem at work: of six contents that were accepted one is left, one was replaced, one deleted,
one evicted, and two have expired.
-/
theorem conserved_performAll_empty_varied :
    (∀ o ∈ variedRun, o.EndsInTime 5) ∧
      (let rs := (empty 10 5 ⟨100⟩).records variedRun
      (rs.countP Record.accepts, rs.countP Record.replaces, rs.countP Record.deletes,
        evictedIn rs, expiredIn rs) = (6, 1, 1, 1, 2)) ∧
      ∃ answers c, (empty 10 5 ⟨100⟩).performAll variedRun = .ok (answers, c) ∧
        ((empty 10 5 ⟨100⟩).records variedRun).map Record.operation = variedRun ∧
        ((empty 10 5 ⟨100⟩).records variedRun).map Record.answer = answers ∧
        Conserved ((empty 10 5 ⟨100⟩).records variedRun) c := by
  have hends : ∀ o ∈ variedRun, o.EndsInTime 5 := by
    simp [variedRun, Operation.EndsInTime, Moment.at, Instant.limit, Time.second]
  exact ⟨hends, by decide +kernel, conserved_performAll_empty 10 ⟨100⟩ hends⟩

end ReadThrough.Cache
