import ReadThrough.Deflate.Reader
import ReadThrough.Gzip.Header

/-!
# Headers of members

What a header is, said of its octets and without a reader (`WellFormed`): ten octets, of which the
fourth announces the optional fields, and then each field that is announced. `read` accepts the
octets that begin with a header, and gives those after it (`read_eq_ok_iff`).
-/

namespace ReadThrough.Gzip.Header

/-! ## What a header is -/

/-- Extra data: its length in two octets, and as many octets. -/
inductive IsExtra : Bytes → Prop where
  | mk {length data : Bytes} (hlength : length.length = 2)
    (h : Bytes.ofLittleEndian length = data.length) : IsExtra (length ++ data)

/-- A text that is not too long, and the zero octet that ends it. -/
inductive IsField : Bytes → Prop where
  | mk {text : Bytes} (hlength : text.length ≤ maxField) (h : ∀ octet ∈ text, octet ≠ 0) :
    IsField (text ++ [0])

/-- The low half of the checksum of the octets `before`, in two octets. -/
structure IsSum (before part : Bytes) : Prop where
  length_eq : part.length = 2
  sum_eq : Bytes.ofLittleEndian part = (Crc32.checksum before).toNat % 65536

/-- The part is there if it is announced. -/
def Announced (flag : Bool) (IsPart : Bytes → Prop) (part : Bytes) : Prop :=
  if flag then IsPart part else part = []

/-- The octets are a header. Time, level and system are not looked at. -/
inductive WellFormed : Bytes → Prop where
  | mk {octet : UInt8} {flags : Flags} {unseen extra name comment sum : Bytes}
    (hflags : Flags.ofOctet? octet = some flags) (hunseen : unseen.length = 6)
    (hextra : Announced flags.extra IsExtra extra) (hname : Announced flags.name IsField name)
    (hcomment : Announced flags.comment IsField comment)
    (hsum : Announced flags.checksum
      (IsSum ([0x1f, 0x8b, 8, octet] ++ unseen ++ extra ++ name ++ comment)) sum) :
    WellFormed ([0x1f, 0x8b, 8, octet] ++ unseen ++ extra ++ name ++ comment ++ sum)

/-! ## Steps of the reader -/

/-- The step takes parts of this kind off the octets, and nothing else. -/
def Skips (step : Bytes → Except Fault Bytes) (IsPart : Bytes → Prop) : Prop :=
  ∀ data rest, step data = .ok rest ↔ ∃ part, data = part ++ rest ∧ IsPart part

theorem exists_eq_pair {part : Bytes} (h : part.length = 2) : ∃ low high, part = [low, high] := by
  match part, h with
  | [low, high], _ => exact ⟨low, high, rfl⟩

theorem skips_skipExtra : Skips skipExtra IsExtra := by
  intro data rest
  constructor
  · intro h
    unfold skipExtra at h
    split at h
    · next low high data =>
      dsimp only at h
      split at h
      · next hlength =>
        obtain rfl := Except.ok.inj h
        refine ⟨[low, high] ++ data.take _, ?_, .mk rfl hlength.symm⟩
        rw [List.append_assoc, List.take_append_drop]
        rfl
      · cases h
    · cases h
  · rintro ⟨_, rfl, hlength, h⟩
    obtain ⟨low, high, rfl⟩ := exists_eq_pair hlength
    rw [List.append_assoc, List.cons_append, List.cons_append, List.nil_append, skipExtra, h]
    simp

theorem skipField_eq_ok_iff {room : Nat} {data rest : Bytes} :
    skipField room data = .ok rest ↔
      ∃ text, data = text ++ 0 :: rest ∧ text.length ≤ room ∧ ∀ octet ∈ text, octet ≠ 0 := by
  induction data generalizing room with
  | nil =>
    rw [skipField]
    refine iff_of_false nofun ?_
    rintro ⟨text, htext, -⟩
    exact absurd htext.symm (List.append_ne_nil_of_right_ne_nil text (List.cons_ne_nil _ _))
  | cons octet data ih =>
    rw [skipField.eq_def]
    dsimp only
    split
    · next hzero =>
      subst hzero
      constructor
      · intro h
        obtain rfl := Except.ok.inj h
        exact ⟨[], rfl, Nat.zero_le _, List.forall_mem_nil _⟩
      · rintro ⟨text, htext, -, hnone⟩
        cases text with
        | nil => rw [(List.cons.inj htext).2]
        | cons first text =>
          obtain ⟨rfl, -⟩ := List.cons.inj htext
          exact absurd rfl (hnone 0 List.mem_cons_self)
    · next hother =>
      -- the octet is the first of the text, for which there has to be room
      have hfirst : ∀ text, octet :: data = text ++ 0 :: rest →
          ∃ later, text = octet :: later ∧ data = later ++ 0 :: rest := by
        intro text htext
        cases text with
        | nil => exact absurd (List.cons.inj htext).1 hother
        | cons first later =>
          obtain ⟨rfl, hdata⟩ := List.cons.inj htext
          exact ⟨later, rfl, hdata⟩
      cases room with
      | zero =>
        refine iff_of_false nofun ?_
        rintro ⟨text, htext, hlength, -⟩
        obtain ⟨later, rfl, -⟩ := hfirst text htext
        exact absurd hlength (Nat.not_succ_le_zero _)
      | succ room =>
        rw [ih]
        constructor
        · rintro ⟨text, rfl, hlength, hnone⟩
          exact ⟨octet :: text, rfl, Nat.succ_le_succ hlength, List.forall_mem_cons.2 ⟨hother, hnone⟩⟩
        · rintro ⟨text, htext, hlength, hnone⟩
          obtain ⟨later, rfl, hdata⟩ := hfirst text htext
          exact ⟨later, hdata, Nat.le_of_succ_le_succ hlength, (List.forall_mem_cons.1 hnone).2⟩

theorem skips_skipField : Skips (skipField maxField) IsField := by
  intro data rest
  rw [skipField_eq_ok_iff]
  constructor
  · rintro ⟨text, rfl, hlength, hnone⟩
    exact ⟨text ++ [0], by simp, .mk hlength hnone⟩
  · rintro ⟨_, rfl, hlength, hnone⟩
    exact ⟨_, by simp, hlength, hnone⟩

theorem skips_checkSum (before : Bytes) : Skips (checkSum before) (IsSum before) := by
  intro data rest
  constructor
  · intro h
    unfold checkSum at h
    split at h
    · next low high data =>
      split at h
      · next hsum =>
        obtain rfl := Except.ok.inj h
        exact ⟨[low, high], rfl, rfl, hsum⟩
      · cases h
    · cases h
  · rintro ⟨part, rfl, hlength, hsum⟩
    obtain ⟨low, high, rfl⟩ := exists_eq_pair hlength
    rw [List.cons_append, List.cons_append, List.nil_append, checkSum, if_pos hsum]

theorem Skips.announced {step : Bytes → Except Fault Bytes} {IsPart : Bytes → Prop}
    (h : Skips step IsPart) (flag : Bool) :
    Skips (Header.announced flag step) (Announced flag IsPart) := by
  intro data rest
  cases flag with
  | true => exact h data rest
  | false =>
    constructor
    · intro hdata
      exact ⟨[], Except.ok.inj hdata, rfl⟩
    · rintro ⟨_, rfl, rfl⟩
      rfl

/-- A step that skips a part, and what is done behind it. -/
theorem Skips.bind_eq_ok_iff {step next : Bytes → Except Fault Bytes} {IsPart : Bytes → Prop}
    (h : Skips step IsPart) {data rest : Bytes} :
    (step data >>= next) = .ok rest ↔
      ∃ part later, data = part ++ later ∧ IsPart part ∧ next later = .ok rest := by
  constructor
  · intro hboth
    obtain ⟨later, hstep, hnext⟩ := exists_of_bind_eq_ok hboth
    obtain ⟨part, rfl, hpart⟩ := (h data later).1 hstep
    exact ⟨part, later, rfl, hpart, hnext⟩
  · rintro ⟨part, later, rfl, hpart, hnext⟩
    rw [(h _ later).2 ⟨part, rfl, hpart⟩]
    exact hnext

/-! ## The reader -/

/-- What is read behind the octets that stand first. -/
def readParts (first : Bytes) (flags : Flags) (data : Bytes) : Except Fault Bytes := do
  let rest ← announced flags.extra skipExtra data
  let rest ← announced flags.name (skipField maxField) rest
  let rest ← announced flags.comment (skipField maxField) rest
  announced flags.checksum
    (fun rest => checkSum ((first ++ data).take ((first ++ data).length - rest.length)) rest) rest

/-- Those octets are summed that lie before the place of the sum. -/
theorem announced_checkSum (flag : Bool) (before data : Bytes) :
    announced flag (fun rest =>
      checkSum ((before ++ data).take ((before ++ data).length - rest.length)) rest) data =
        announced flag (checkSum before) data := by
  unfold announced
  dsimp only
  rw [List.length_append, Nat.add_sub_cancel, List.take_left]

theorem readParts_eq_ok_iff {first data rest : Bytes} {flags : Flags} :
    readParts first flags data = .ok rest ↔ ∃ extra name comment sum,
      data = extra ++ (name ++ (comment ++ (sum ++ rest))) ∧ Announced flags.extra IsExtra extra ∧
        Announced flags.name IsField name ∧ Announced flags.comment IsField comment ∧
        Announced flags.checksum (IsSum (first ++ extra ++ name ++ comment)) sum := by
  have skipsExtra := skips_skipExtra.announced flags.extra
  have skipsName := skips_skipField.announced flags.name
  have skipsComment := skips_skipField.announced flags.comment
  have skipsSum := fun before => (skips_checkSum before).announced flags.checksum
  unfold readParts
  constructor
  · intro h
    obtain ⟨extra, _, rfl, hextra, h⟩ := skipsExtra.bind_eq_ok_iff.1 h
    obtain ⟨name, _, rfl, hname, h⟩ := skipsName.bind_eq_ok_iff.1 h
    obtain ⟨comment, _, rfl, hcomment, h⟩ := skipsComment.bind_eq_ok_iff.1 h
    rw [← List.append_assoc, ← List.append_assoc, ← List.append_assoc, announced_checkSum] at h
    obtain ⟨sum, rfl, hsum⟩ := (skipsSum _ _ _).1 h
    exact ⟨extra, name, comment, sum, rfl, hextra, hname, hcomment, hsum⟩
  · rintro ⟨extra, name, comment, sum, rfl, hextra, hname, hcomment, hsum⟩
    refine skipsExtra.bind_eq_ok_iff.2 ⟨extra, _, rfl, hextra, skipsName.bind_eq_ok_iff.2
      ⟨name, _, rfl, hname, skipsComment.bind_eq_ok_iff.2 ⟨comment, _, rfl, hcomment, ?_⟩⟩⟩
    rw [← List.append_assoc, ← List.append_assoc, ← List.append_assoc, announced_checkSum]
    exact (skipsSum _ _ _).2 ⟨sum, rfl, hsum⟩

/-- The octets that stand first are looked at before the parts are. -/
theorem read_first (magic magic' method octet : UInt8) {unseen : Bytes}
    (hunseen : unseen.length = 6) (data : Bytes) :
    read ([magic, magic', method, octet] ++ unseen ++ data) =
      if magic ≠ 0x1f ∨ magic' ≠ 0x8b ∨ method ≠ 8 then .error .badHeader
      else
        match Flags.ofOctet? octet with
        | none => .error .badHeader
        | some flags => readParts ([magic, magic', method, octet] ++ unseen) flags data := by
  match unseen, hunseen with
  | [_, _, _, _, _, _], _ => rfl

theorem exists_first_of_read {data rest : Bytes} (h : read data = .ok rest) :
    ∃ magic magic' method octet unseen later,
      data = [magic, magic', method, octet] ++ unseen ++ later ∧ unseen.length = 6 := by
  unfold read at h
  split at h
  · exact ⟨_, _, _, _, [_, _, _, _, _, _], _, rfl, rfl⟩
  · cases h

/-- **Octets are read if they begin with a header**, and those after it are given. -/
theorem read_eq_ok_iff {data rest : Bytes} :
    read data = .ok rest ↔ ∃ header, data = header ++ rest ∧ WellFormed header := by
  constructor
  · intro h
    obtain ⟨magic, magic', method, octet, unseen, data, rfl, hunseen⟩ := exists_first_of_read h
    rw [read_first _ _ _ _ hunseen] at h
    split at h
    · cases h
    · next hmagic =>
      simp only [ne_eq, not_or, Decidable.not_not] at hmagic
      obtain ⟨rfl, rfl, rfl⟩ := hmagic
      split at h
      · cases h
      · next flags hflags =>
        obtain ⟨extra, name, comment, sum, rfl, hextra, hname, hcomment, hsum⟩ :=
          readParts_eq_ok_iff.1 h
        refine ⟨_, ?_, .mk hflags hunseen hextra hname hcomment hsum⟩
        simp only [List.append_assoc]
  · rintro ⟨_, rfl, hflags, hunseen, hextra, hname, hcomment, hsum⟩
    rw [List.append_assoc, List.append_assoc, List.append_assoc, List.append_assoc,
      read_first _ _ _ _ hunseen, if_neg (by simp), hflags]
    exact readParts_eq_ok_iff.2 ⟨_, _, _, _, rfl, hextra, hname, hcomment, hsum⟩

end ReadThrough.Gzip.Header
