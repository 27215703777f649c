import ReadThrough.Deflate.Alphabet
import ReadThrough.Deflate.Token

/-!
# Reading a compressed stream

A stream is a run of blocks, the last one marked. A block holds octets as they are, or tokens in
the fixed codes, or tokens in codes that it describes first. `read` gives the tokens of the whole
stream and the octets after it; bits left of the stream's last octet are passed over.

## Termination

No fuel is used. Every symbol and every block takes at least one bit, so the loops end with the
bits of the input; each reader has a lemma that says so.
-/

namespace ReadThrough

/-- What succeeds came from a first part that did, and from a second. -/
theorem exists_of_bind_eq_ok {ε α β : Type} {first : Except ε α} {second : α → Except ε β}
    {result : β} (h : (first >>= second) = .ok result) :
    ∃ value, first = .ok value ∧ second value = .ok result := by
  cases first with
  | error => simp [bind, Except.bind] at h
  | ok value => exact ⟨value, rfl, h⟩

end ReadThrough

namespace ReadThrough.Deflate

/-! ## Tokens in a pair of codes -/

/-- Reads the rest of a copy whose length has the slot `index`. -/
def readCopy (distances : Code) (index : Nat) (s : Source) : Except Fault (Token × Source) := do
  let (length, s) ← readSlot lengthSlots index s
  let (symbol, s) ← distances.read s
  let (distance, s) ← readSlot distanceSlots symbol s
  return (.copy length distance, s)

theorem size_of_readCopy {distances : Code} {index : Nat} {token : Token} {s after : Source}
    (h : readCopy distances index s = .ok (token, after)) : after.size < s.size := by
  obtain ⟨⟨_, s1⟩, h1, h⟩ := exists_of_bind_eq_ok h
  obtain ⟨⟨_, s2⟩, h2, h⟩ := exists_of_bind_eq_ok h
  obtain ⟨⟨_, s3⟩, h3, h⟩ := exists_of_bind_eq_ok h
  obtain ⟨-, rfl⟩ := Prod.mk.inj (Except.ok.inj h)
  have := size_of_readSlot h1
  have := Code.size_of_read h2
  have := size_of_readSlot h3
  omega

/-- Reads tokens up to the end of the block and puts them behind those `done`. -/
def readTokens (literals distances : Code) (done : Array Token) (s : Source) :
    Except Fault (Array Token × Source) :=
  match _hread : literals.read s with
  | .error fault => .error fault
  | .ok (symbol, after) =>
    match Meaning.ofSymbol symbol with
    | .octet octet => readTokens literals distances (done.push (.literal octet)) after
    | .stop => .ok (done, after)
    | .length index =>
      match _hcopy : readCopy distances index after with
      | .error fault => .error fault
      | .ok (token, last) => readTokens literals distances (done.push token) last
termination_by s.size
decreasing_by
  · exact Code.size_of_read _hread
  · exact Nat.lt_trans (size_of_readCopy _hcopy) (Code.size_of_read _hread)

theorem size_of_readTokens {literals distances : Code} {done all : Array Token}
    {s after : Source} (h : readTokens literals distances done s = .ok (all, after)) :
    after.size < s.size := by
  fun_induction readTokens literals distances done s with
  | case1 => simp at h
  | case2 =>
    rename_i hread _ _ ih
    exact Nat.lt_trans (ih h) (Code.size_of_read hread)
  | case3 =>
    rename_i hread _
    obtain ⟨-, rfl⟩ := Prod.mk.inj (Except.ok.inj h)
    exact Code.size_of_read hread
  | case4 => simp at h
  | case5 =>
    rename_i hread _ _ _ _ hcopy ih
    exact Nat.lt_trans (ih h) (Nat.lt_trans (size_of_readCopy hcopy) (Code.size_of_read hread))

/-! ## Codes described in the stream -/

/-- The order in which the word lengths of the length code are written. -/
def lengthCodeOrder : List Nat :=
  [16, 17, 18, 0, 8, 7, 9, 6, 10, 5, 11, 4, 12, 3, 13, 2, 14, 1, 15]

/-- Reads `count` numbers of `width` bits each. -/
def readNumbers (width : Nat) : Nat → Source → Except Fault (List Nat × Source)
  | 0, s => .ok ([], s)
  | count + 1, s => do
    let (number, s) ← s.take width
    let (numbers, s) ← readNumbers width count s
    return (number :: numbers, s)

/-- The lengths of the symbols 0 to 18 of the length code, written in their own order. -/
def inSymbolOrder (written : List Nat) : List Nat :=
  (List.range lengthCodeOrder.length).map fun symbol =>
    (written[lengthCodeOrder.idxOf symbol]?).getD 0

/-- Reads one entry of a list of word lengths: a length, or a run of the last one or of zeros. -/
def readLengthRun (code : Code) (last : Option Nat) (s : Source) :
    Except Fault (List Nat × Source) := do
  let (symbol, s) ← code.read s
  if symbol < 16 then return ([symbol], s)
  else if symbol = 16 then
    match last with
    | none => .error .corrupt
    | some length =>
      let (more, s) ← s.take 2
      return (List.replicate (3 + more) length, s)
  else if symbol = 17 then
    let (more, s) ← s.take 3
    return (List.replicate (3 + more) 0, s)
  else
    let (more, s) ← s.take 7
    return (List.replicate (11 + more) 0, s)

theorem size_of_readNumbers {width count : Nat} {numbers : List Nat} {s after : Source}
    (h : readNumbers width count s = .ok (numbers, after)) : after.size ≤ s.size := by
  induction count generalizing s numbers with
  | zero =>
    obtain ⟨-, rfl⟩ := Prod.mk.inj (Except.ok.inj h)
    exact Nat.le_refl _
  | succ count ih =>
    rw [readNumbers] at h
    obtain ⟨⟨_, s1⟩, h1, h⟩ := exists_of_bind_eq_ok h
    obtain ⟨⟨_, s2⟩, h2, h⟩ := exists_of_bind_eq_ok h
    obtain ⟨-, rfl⟩ := Prod.mk.inj (Except.ok.inj h)
    have := Source.size_of_take h1
    have := ih h2
    omega

theorem size_of_readLengthRun {code : Code} {last : Option Nat} {run : List Nat}
    {s after : Source} (h : readLengthRun code last s = .ok (run, after)) :
    after.size < s.size := by
  obtain ⟨⟨symbol, s1⟩, h1, h⟩ := exists_of_bind_eq_ok h
  have hsize := Code.size_of_read h1
  dsimp only at h
  split at h
  · obtain ⟨-, rfl⟩ := Prod.mk.inj (Except.ok.inj h)
    exact hsize
  · split at h
    · split at h
      · simp at h
      · obtain ⟨⟨_, s2⟩, h2, h⟩ := exists_of_bind_eq_ok h
        obtain ⟨-, rfl⟩ := Prod.mk.inj (Except.ok.inj h)
        have : s2.size + 2 = s1.size := Source.size_of_take h2
        show s2.size < s.size
        omega
    · split at h
      · obtain ⟨⟨_, s2⟩, h2, h⟩ := exists_of_bind_eq_ok h
        obtain ⟨-, rfl⟩ := Prod.mk.inj (Except.ok.inj h)
        have : s2.size + 3 = s1.size := Source.size_of_take h2
        show s2.size < s.size
        omega
      · obtain ⟨⟨_, s2⟩, h2, h⟩ := exists_of_bind_eq_ok h
        obtain ⟨-, rfl⟩ := Prod.mk.inj (Except.ok.inj h)
        have : s2.size + 7 = s1.size := Source.size_of_take h2
        show s2.size < s.size
        omega

/-- Reads word lengths in the length code until there are exactly `total`. -/
def readLengths (code : Code) (total : Nat) (done : Array Nat) (s : Source) :
    Except Fault (List Nat × Source) :=
  if done.size = total then .ok (done.toList, s)
  else if total < done.size then .error .corrupt
  else
    match _hrun : readLengthRun code done.back? s with
    | .error fault => .error fault
    | .ok (run, after) => readLengths code total (done ++ run) after
termination_by s.size
decreasing_by exact size_of_readLengthRun _hrun

theorem size_of_readLengths {code : Code} {total : Nat} {done : Array Nat} {all : List Nat}
    {s after : Source} (h : readLengths code total done s = .ok (all, after)) :
    after.size ≤ s.size := by
  fun_induction readLengths code total done s with
  | case1 =>
    obtain ⟨-, rfl⟩ := Prod.mk.inj (Except.ok.inj h)
    exact Nat.le_refl _
  | case2 => simp at h
  | case3 => simp at h
  | case4 _ _ _ _ _ _ hrun ih =>
    exact Nat.le_trans (ih h) (Nat.le_of_lt (size_of_readLengthRun hrun))

/-- The most symbols that a described literal code may list. -/
def maxLiteralSymbols : Nat := 286

/-- The most symbols that a described distance code may list. -/
def maxDistanceSymbols : Nat := 30

/-- Reads the description of a literal code and a distance code. -/
def readCodes (s : Source) : Except Fault ((Code × Code) × Source) := do
  let (literalCount, s) ← s.take 5
  let (distanceCount, s) ← s.take 5
  let (lengthCount, s) ← s.take 4
  let literalCount := literalCount + 257
  let distanceCount := distanceCount + 1
  if maxLiteralSymbols < literalCount || maxDistanceSymbols < distanceCount then
    .error .corrupt
  else
    let (written, s) ← readNumbers 3 (lengthCount + 4) s
    let lengthCode ← Code.complete? (inSymbolOrder written)
    let (lengths, s) ← readLengths lengthCode (literalCount + distanceCount) #[] s
    let literals ← Code.canonical? (lengths.take literalCount)
    let distances ← Code.canonical? (lengths.drop literalCount)
    return ((literals, distances), s)

theorem size_of_readCodes {codes : Code × Code} {s after : Source}
    (h : readCodes s = .ok (codes, after)) : after.size ≤ s.size := by
  obtain ⟨⟨_, s1⟩, h1, h⟩ := exists_of_bind_eq_ok h
  obtain ⟨⟨_, s2⟩, h2, h⟩ := exists_of_bind_eq_ok h
  obtain ⟨⟨_, s3⟩, h3, h⟩ := exists_of_bind_eq_ok h
  dsimp only at h
  split at h
  · simp at h
  · obtain ⟨⟨_, s4⟩, h4, h⟩ := exists_of_bind_eq_ok h
    obtain ⟨_, -, h⟩ := exists_of_bind_eq_ok h
    obtain ⟨⟨_, s5⟩, h5, h⟩ := exists_of_bind_eq_ok h
    obtain ⟨_, -, h⟩ := exists_of_bind_eq_ok h
    obtain ⟨_, -, h⟩ := exists_of_bind_eq_ok h
    obtain ⟨-, rfl⟩ := Prod.mk.inj (Except.ok.inj h)
    have : s1.size + 5 = s.size := Source.size_of_take h1
    have : s2.size + 5 = s1.size := Source.size_of_take h2
    have : s3.size + 4 = s2.size := Source.size_of_take h3
    have : s4.size ≤ s3.size := size_of_readNumbers h4
    have : s5.size ≤ s4.size := size_of_readLengths h5
    show s5.size ≤ s.size
    omega

/-! ## Blocks -/

/-- Reads a block of octets as they are: their number, its complement, and the octets. -/
def readPlain (done : Array Token) (s : Source) : Except Fault (Array Token × Source) :=
  match s.rest with
  | a :: b :: c :: d :: rest =>
    let length := Bytes.ofLittleEndian [a, b]
    if length + Bytes.ofLittleEndian [c, d] = 65535 then
      let octets := rest.take length
      if octets.length = length then
        .ok (octets.foldl (fun all octet => all.push (.literal octet)) done,
          .ofBytes (rest.drop length))
      else .error .incomplete
    else .error .corrupt
  | _ => .error .incomplete

theorem size_of_readPlain {done all : Array Token} {s after : Source}
    (h : readPlain done s = .ok (all, after)) : after.size ≤ s.size := by
  rw [readPlain] at h
  split at h
  · rename_i hrest
    dsimp only at h
    split at h
    · split at h
      · obtain ⟨-, rfl⟩ := Prod.mk.inj (Except.ok.inj h)
        simp only [Source.size, Source.ofBytes, hrest, List.length_nil, List.length_drop,
          List.length_cons]
        omega
      · simp at h
    · simp at h
  · simp at h

/-- Reads the body of a block of the given kind. -/
def readBody (kind : Nat) (done : Array Token) (s : Source) :
    Except Fault (Array Token × Source) :=
  match kind with
  | 0 => readPlain done s.align
  | 1 => readTokens fixedLiteralCode fixedDistanceCode done s
  | 2 => do
    let ((literals, distances), s) ← readCodes s
    readTokens literals distances done s
  | _ => .error .corrupt

theorem size_of_readBody {kind : Nat} {done all : Array Token} {s after : Source}
    (h : readBody kind done s = .ok (all, after)) : after.size ≤ s.size := by
  match kind with
  | 0 => exact Nat.le_trans (size_of_readPlain h) (Source.size_align_le s)
  | 1 => exact Nat.le_of_lt (size_of_readTokens h)
  | 2 =>
    obtain ⟨⟨_, s1⟩, h1, h⟩ := exists_of_bind_eq_ok h
    exact Nat.le_trans (Nat.le_of_lt (size_of_readTokens h)) (size_of_readCodes h1)
  | _ + 3 => simp [readBody] at h

/-- Reads blocks up to the last one. -/
def readBlocks (done : Array Token) (s : Source) : Except Fault (Array Token × Source) :=
  match _hmark : s.take 1 with
  | .error fault => .error fault
  | .ok (mark, s1) =>
    match _hkind : s1.take 2 with
    | .error fault => .error fault
    | .ok (kind, s2) =>
      match _hbody : readBody kind done s2 with
      | .error fault => .error fault
      | .ok (all, after) => if mark = 1 then .ok (all, after) else readBlocks all after
termination_by s.size
decreasing_by
  have := Source.size_of_take _hmark
  have := Source.size_of_take _hkind
  have := size_of_readBody _hbody
  omega

/-- Reads a whole stream; gives its tokens and the octets after it. -/
def read (data : Bytes) : Except Fault (List Token × Bytes) :=
  match readBlocks #[] (.ofBytes data) with
  | .error fault => .error fault
  | .ok (tokens, after) => .ok (tokens.toList, after.rest)

end ReadThrough.Deflate
