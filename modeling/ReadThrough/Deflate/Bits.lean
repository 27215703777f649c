import ReadThrough.Bytes

/-!
# Bits of a compressed stream

A compressed stream is a sequence of bits, kept eight to an octet with the least significant bit
first. `unpack` lists the bits of a byte string and `pack` keeps bits as octets, the last one
filled with zeros.

A `Source` is a place in the stream: the bits left of the octet that has been started, and the
octets after it. Its view is the list of bits still to come (`Source.bits`), and `next?` takes the
first of them.

## Termination

`Source.size` counts the bits to come. Every reader of the format leaves a source that is no
larger, which is why its loops end.
-/

namespace ReadThrough.Deflate

/-- What is wrong with a compressed stream. -/
inductive Fault where
  /-- The input ends before the stream does. -/
  | incomplete
  /-- The bits read so far begin no stream. -/
  | corrupt
  deriving Repr, DecidableEq

/-! ## Octets and bits -/

/-- Bit `index` of an octet, counted from the least significant. -/
def bitAt (octet : UInt8) (index : Nat) : Bool :=
  octet.toNat.testBit index

/-- The bits of an octet after the first. -/
def laterBits (octet : UInt8) : List Bool :=
  [bitAt octet 1, bitAt octet 2, bitAt octet 3, bitAt octet 4, bitAt octet 5, bitAt octet 6,
    bitAt octet 7]

/-- The eight bits of an octet. -/
def octetBits (octet : UInt8) : List Bool :=
  bitAt octet 0 :: laterBits octet

/-- The bits of a byte string. -/
def unpack (data : Bytes) : List Bool :=
  data.flatMap octetBits

/-- The number that a list of bits writes, least significant first. -/
def ofBits : List Bool → Nat
  | [] => 0
  | bit :: rest => bit.toNat + 2 * ofBits rest

/-- The `count` low bits of a number, least significant first. -/
def toBits : Nat → Nat → List Bool
  | 0, _ => []
  | count + 1, number => (number % 2 == 1) :: toBits count (number / 2)

/-- Puts bits behind finished octets, eight at a time. -/
def packOnto (done : Array UInt8) : List Bool → Array UInt8
  | a :: b :: c :: d :: e :: f :: g :: h :: rest =>
    packOnto (done.push (UInt8.ofNat (ofBits [a, b, c, d, e, f, g, h]))) rest
  | [] => done
  | tail => done.push (UInt8.ofNat (ofBits tail))

/-- Bits kept as octets; the last octet is filled with zeros. -/
def pack (bits : List Bool) : Bytes :=
  (packOnto #[] bits).toList

/-! ## Sources -/

/-- A place in a stream of bits. -/
structure Source where
  /-- What is left of the octet that has been started. -/
  pending : List Bool
  /-- The octets after it. -/
  rest : Bytes

namespace Source

/-- The start of a byte string. -/
def ofBytes (data : Bytes) : Source where
  pending := []
  rest := data

/-- The start of a list of bits. -/
def ofBits (bits : List Bool) : Source where
  pending := bits
  rest := []

/-- The bits to come. -/
def bits (s : Source) : List Bool :=
  s.pending ++ unpack s.rest

/-- How many bits are to come. -/
def size (s : Source) : Nat :=
  s.pending.length + 8 * s.rest.length

/-- The next bit and the place after it. -/
def next? : Source → Option (Bool × Source)
  | ⟨bit :: pending, rest⟩ => some (bit, ⟨pending, rest⟩)
  | ⟨[], octet :: rest⟩ => some (bitAt octet 0, ⟨laterBits octet, rest⟩)
  | ⟨[], []⟩ => none

/-- The place at the next octet; bits left of the present one are passed over. -/
def align (s : Source) : Source :=
  { s with pending := [] }

/-- The number that the next `count` bits write, least significant first. -/
def take : Nat → Source → Except Fault (Nat × Source)
  | 0, s => .ok (0, s)
  | count + 1, s =>
    match s.next? with
    | none => .error .incomplete
    | some (bit, after) =>
      match take count after with
      | .error fault => .error fault
      | .ok (high, last) => .ok (bit.toNat + 2 * high, last)

theorem size_of_next? {s after : Source} {bit : Bool} (h : s.next? = some (bit, after)) :
    after.size + 1 = s.size := by
  match s, h with
  | ⟨_ :: _, _⟩, h =>
    obtain ⟨-, rfl⟩ := Prod.mk.inj (Option.some.inj h)
    simp only [size, List.length_cons]
    omega
  | ⟨[], _ :: _⟩, h =>
    obtain ⟨-, rfl⟩ := Prod.mk.inj (Option.some.inj h)
    simp only [size, laterBits, List.length_cons, List.length_nil]
    omega

theorem size_align_le (s : Source) : s.align.size ≤ s.size := by
  simp [align, size]

theorem size_of_take {count number : Nat} {s after : Source}
    (h : s.take count = .ok (number, after)) : after.size + count = s.size := by
  induction count generalizing s number with
  | zero =>
    simp [take] at h
    simp [h]
  | succ count ih =>
    rw [take] at h
    split at h
    · simp at h
    · rename_i hnext
      split at h
      · simp at h
      · rename_i htake
        simp at h
        obtain ⟨-, rfl⟩ := h
        have h1 := size_of_next? hnext
        have h2 := ih htake
        omega

end Source

end ReadThrough.Deflate
