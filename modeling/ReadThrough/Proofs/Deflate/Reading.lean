import ReadThrough.Deflate.Code
import ReadThrough.Proofs.Deflate.Bits

/-!
# What readers read

A reader takes bits off a source. `Reads` says which value it makes of which bits, wherever they
stand and whatever comes after them; it goes from the parts of a reader to the whole
(`Reads.andThen`).

* `reads_take`, `reads_read` — a number from its bits, a symbol from its word
-/

namespace ReadThrough.Deflate

/-- Something that takes bits off a source and makes a value of them. -/
abbrev Reader (α : Type) := Source → Except Fault (α × Source)

variable {α β : Type}

/--
The reader makes the value of the bits, and stops behind them. It does not leave more than an octet
started if there was not more before.
-/
def Reads (reader : Reader α) (bits : List Bool) (value : α) : Prop :=
  ∀ s later, s.bits = bits ++ later → ∃ after, reader s = .ok (value, after) ∧
    after.bits = later ∧ (s.pending.length < 8 → after.pending.length < 8)

/-! ## Parts and wholes -/

/-- A value without any bits. -/
def give (value : α) : Reader α := fun s => .ok (value, s)

/-- One reader after another. -/
def andThen (first : Reader α) (second : α → Reader β) : Reader β := fun s => do
  let (value, s) ← first s
  second value s

theorem reads_give (value : α) : Reads (give value) [] value :=
  fun s _ h => ⟨s, rfl, h, id⟩

theorem Reads.andThen {first : Reader α} {second : α → Reader β} {front back : List Bool}
    {value : α} {result : β} (hfirst : Reads first front value)
    (hsecond : Reads (second value) back result) :
    Reads (andThen first second) (front ++ back) result := by
  intro s later h
  rw [List.append_assoc] at h
  obtain ⟨middle, hmiddle, hbits, hpending⟩ := hfirst s _ h
  obtain ⟨after, hafter, hlater, hpending'⟩ := hsecond middle later hbits
  refine ⟨after, ?_, hlater, hpending' ∘ hpending⟩
  simp only [Deflate.andThen, hmiddle, bind, Except.bind, hafter]

/-- A value may be put to use behind the last bit. -/
theorem Reads.andThen_give {first : Reader α} {bits : List Bool} {value : α}
    (h : Reads first bits value) (f : α → β) :
    Reads (Deflate.andThen first fun value => give (f value)) bits (f value) := by
  have hboth : Reads (Deflate.andThen first fun value => give (f value)) (bits ++ []) (f value) :=
    Reads.andThen h (reads_give (f value))
  rwa [List.append_nil] at hboth

/-! ## Single bits -/

/-- The first bit to come is the next one. -/
theorem exists_next?_eq {s : Source} {bit : Bool} {later : List Bool} (h : s.bits = bit :: later) :
    ∃ after, s.next? = some (bit, after) ∧ after.bits = later ∧
      (s.pending.length < 8 → after.pending.length < 8) := by
  match s, h with
  | ⟨first :: pending, rest⟩, h =>
    obtain ⟨rfl, rfl⟩ := List.cons.inj h
    refine ⟨⟨pending, rest⟩, rfl, rfl, fun hshort => ?_⟩
    simp only [List.length_cons] at hshort
    exact Nat.lt_of_succ_lt hshort
  | ⟨[], octet :: rest⟩, h =>
    obtain ⟨rfl, rfl⟩ := List.cons.inj h
    exact ⟨⟨laterBits octet, rest⟩, rfl, rfl, fun _ => Nat.lt_succ_self 7⟩

/-! ## Numbers -/

theorem reads_take (bits : List Bool) : Reads (Source.take bits.length) bits (ofBits bits) := by
  induction bits with
  | nil => exact reads_give 0
  | cons bit bits ih =>
    intro s later h
    obtain ⟨middle, hmiddle, hbits, hpending⟩ := exists_next?_eq h
    obtain ⟨after, hafter, hlater, hpending'⟩ := ih middle later hbits
    refine ⟨after, ?_, hlater, hpending' ∘ hpending⟩
    simp only [List.length_cons, Source.take, hmiddle, hafter]
    rfl

/-- A number is read from its bits. -/
theorem reads_take_toBits {count number : Nat} (h : number < 2 ^ count) :
    Reads (Source.take count) (toBits count number) number := by
  have hreads := reads_take (toBits count number)
  rwa [length_toBits, ofBits_toBits h] at hreads

/-! ## Symbols -/

/-- A symbol is read from its word. -/
theorem reads_read {tree : Tree} {symbol : Nat} {word : List Bool}
    (h : (symbol, word) ∈ tree.words) : Reads tree.read word symbol := by
  induction tree generalizing word with
  | empty => cases h
  | leaf =>
    obtain ⟨rfl, rfl⟩ := Prod.mk.inj (List.mem_singleton.1 h)
    exact reads_give symbol
  | node zero one ihZero ihOne =>
    -- the first bit says in which branch the rest of the word leads to the symbol
    have hbranch : ∃ bit rest, word = bit :: rest ∧
        Reads (if bit then one.read else zero.read) rest symbol := by
      rcases List.mem_append.1 h with hzero | hone
      · obtain ⟨⟨_, rest⟩, hmem, heq⟩ := List.mem_map.1 hzero
        obtain ⟨rfl, rfl⟩ := Prod.mk.inj heq
        exact ⟨false, rest, rfl, ihZero hmem⟩
      · obtain ⟨⟨_, rest⟩, hmem, heq⟩ := List.mem_map.1 hone
        obtain ⟨rfl, rfl⟩ := Prod.mk.inj heq
        exact ⟨true, rest, rfl, ihOne hmem⟩
    obtain ⟨bit, rest, rfl, hreads⟩ := hbranch
    intro s later hs
    obtain ⟨middle, hmiddle, hbits, hpending⟩ := exists_next?_eq hs
    obtain ⟨after, hafter, hlater, hpending'⟩ := hreads middle later hbits
    refine ⟨after, ?_, hlater, hpending' ∘ hpending⟩
    rw [Tree.read, hmiddle]
    cases bit <;> exact hafter

end ReadThrough.Deflate
