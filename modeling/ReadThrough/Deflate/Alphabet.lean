import ReadThrough.Deflate.Code

/-!
# Symbols of a compressed stream

The literal alphabet has the 256 octets, the end of a block, and 29 slots for the length of a
copy; the distance alphabet has 30 slots. A slot stands for a range of values: its first value,
and a number of extra bits that say how far the value lies beyond it.

The fixed codes are those that a block may use without describing them.
-/

namespace ReadThrough.Deflate

/-- A range of values that share a symbol. -/
structure Slot where
  /-- The first value of the range. -/
  first : Nat
  /-- How many bits tell the values of the range apart. -/
  extra : Nat
  deriving Repr, DecidableEq

/-- The symbol that ends a block. -/
def endOfBlock : Nat := 256

/-- The symbol of the first length slot. -/
def firstLengthSymbol : Nat := 257

/-- What a symbol of the literal alphabet means. -/
inductive Meaning where
  | octet (value : UInt8)
  | stop
  | length (index : Nat)
  deriving Repr, DecidableEq

/-- The meaning of a symbol, by its range. -/
def Meaning.ofSymbol (symbol : Nat) : Meaning :=
  if symbol < endOfBlock then .octet (UInt8.ofNat symbol)
  else if symbol = endOfBlock then .stop
  else .length (symbol - firstLengthSymbol)

/-- The length slots, from symbol 257 on. -/
def lengthSlots : Array Slot := #[
  ⟨3, 0⟩, ⟨4, 0⟩, ⟨5, 0⟩, ⟨6, 0⟩, ⟨7, 0⟩, ⟨8, 0⟩, ⟨9, 0⟩, ⟨10, 0⟩, ⟨11, 1⟩, ⟨13, 1⟩, ⟨15, 1⟩,
  ⟨17, 1⟩, ⟨19, 2⟩, ⟨23, 2⟩, ⟨27, 2⟩, ⟨31, 2⟩, ⟨35, 3⟩, ⟨43, 3⟩, ⟨51, 3⟩, ⟨59, 3⟩, ⟨67, 4⟩,
  ⟨83, 4⟩, ⟨99, 4⟩, ⟨115, 4⟩, ⟨131, 5⟩, ⟨163, 5⟩, ⟨195, 5⟩, ⟨227, 5⟩, ⟨258, 0⟩]

/-- The distance slots, from symbol 0 on. -/
def distanceSlots : Array Slot := #[
  ⟨1, 0⟩, ⟨2, 0⟩, ⟨3, 0⟩, ⟨4, 0⟩, ⟨5, 1⟩, ⟨7, 1⟩, ⟨9, 2⟩, ⟨13, 2⟩, ⟨17, 3⟩, ⟨25, 3⟩, ⟨33, 4⟩,
  ⟨49, 4⟩, ⟨65, 5⟩, ⟨97, 5⟩, ⟨129, 6⟩, ⟨193, 6⟩, ⟨257, 7⟩, ⟨385, 7⟩, ⟨513, 8⟩, ⟨769, 8⟩,
  ⟨1025, 9⟩, ⟨1537, 9⟩, ⟨2049, 10⟩, ⟨3073, 10⟩, ⟨4097, 11⟩, ⟨6145, 11⟩, ⟨8193, 12⟩, ⟨12289, 12⟩,
  ⟨16385, 13⟩, ⟨24577, 13⟩]

/-- The number of the last slot that starts at or below `value`. -/
def slotOf (slots : Array Slot) (value : Nat) : Nat :=
  slots.countP (·.first ≤ value) - 1

/-- Reads the value that the symbol of slot `index` and its extra bits stand for. -/
def readSlot (slots : Array Slot) (index : Nat) (s : Source) : Except Fault (Nat × Source) :=
  match slots[index]? with
  | none => .error .corrupt
  | some slot =>
    match s.take slot.extra with
    | .error fault => .error fault
    | .ok (beyond, after) => .ok (slot.first + beyond, after)

theorem size_of_readSlot {slots : Array Slot} {index value : Nat} {s after : Source}
    (h : readSlot slots index s = .ok (value, after)) : after.size ≤ s.size := by
  rw [readSlot] at h
  split at h
  · simp at h
  · split at h
    · simp at h
    · rename_i htake
      simp at h
      obtain ⟨-, rfl⟩ := h
      have := Source.size_of_take htake
      omega

/-! ## Fixed codes -/

/-- The word lengths of the fixed literal code. -/
def fixedLiteralLengths : List Nat :=
  List.replicate 144 8 ++ List.replicate 112 9 ++ List.replicate 24 7 ++ List.replicate 8 8

/-- The word lengths of the fixed distance code. -/
def fixedDistanceLengths : List Nat :=
  List.replicate 32 5

/-- The fixed literal code. -/
def fixedLiteralCode : Code :=
  (Code.grow fixedLiteralLengths).1

/-- The fixed distance code. -/
def fixedDistanceCode : Code :=
  (Code.grow fixedDistanceLengths).1

end ReadThrough.Deflate
