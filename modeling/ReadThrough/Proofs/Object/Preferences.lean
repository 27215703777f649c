import ReadThrough.Object.Request
import ReadThrough.Proofs.Http.Escapes
import ReadThrough.Proofs.Text.Blank
import ReadThrough.Proofs.Text.Weight
import ReadThrough.Http.Token

/-!
# Preferred codings

Who sends a request may list the codings that are welcome in the answer, each with a weight, or
none. `WritesList` says which texts are such lists, and of which preferences. A weight of zero
refuses a coding.

* `accepts_iff` — of such a list a coding is accepted if one of its elements is not refused, or is
  refused with a capital letter for the weight
* `acceptsGzip_iff` — and that is what the headers of a request come to
* `acceptsGzip_iff_welcomes_iff` — hence `gzip` is taken to be welcome if it is (`Welcomes`), unless
  it is only refused, and not always with a small letter (`Quiet`)
-/

namespace ReadThrough

/-! ## Lists of codings -/

/-- The weight of a coding, with the letter that stands for it. -/
structure Weight where
  letter : Char
  thousandths : Nat
  deriving Repr, DecidableEq

/-- What an element of a list says. -/
structure Preference where
  coding : List Char
  weight : Option Weight
  deriving Repr, DecidableEq

/-- Spaces and tabs may stand around elements, their weights, commas and semicolons. -/
def IsPadding (cs : List Char) : Prop :=
  ∀ c ∈ cs, c = ' ' ∨ c = '\t'

/-- A text with padding around it. -/
inductive Pads (text : List Char) : List Char → Prop where
  | mk {before after : List Char} (hbefore : IsPadding before) (hafter : IsPadding after) :
    Pads text (before ++ text ++ after)

/-- A name: some characters, and all of them those of tokens. -/
def IsName (cs : List Char) : Prop :=
  cs ≠ [] ∧ ∀ c ∈ cs, Http.isTokenChar c = true

/-- What stands between two commas: one element, or none. -/
inductive WritesPart : List Char → List Preference → Prop where
  | empty {part : List Char} (h : IsPadding part) : WritesPart part []
  | plain {part coding : List Char} (hcoding : IsName coding) (hpart : Pads coding part) :
    WritesPart part [⟨coding, none⟩]
  | weighted {front back coding value : List Char} {letter : Char} {number : Nat}
    (hcoding : IsName coding) (hfront : Pads coding front) (hletter : letter = 'q' ∨ letter = 'Q')
    (hvalue : Text.WritesWeight value number) (hback : Pads (letter :: '=' :: value) back) :
    WritesPart (front ++ ';' :: back) [⟨coding, some ⟨letter, number⟩⟩]

/-- A text lists preferences. -/
inductive WritesList : List Char → List Preference → Prop where
  | last {part : List Char} {ps : List Preference} (h : WritesPart part ps) : WritesList part ps
  | cons {part rest : List Char} {ps others : List Preference} (h : WritesPart part ps)
    (hrest : WritesList rest others) : WritesList (part ++ ',' :: rest) (ps ++ others)

namespace Preference

/-- The element names the coding; the case of letters does not count. -/
def Names (p : Preference) (coding : List Char) : Prop :=
  Text.lower p.coding = Text.lower coding

/-- The element has no weight, or one above zero. -/
def Admits (p : Preference) : Prop :=
  ∀ weight, p.weight = some weight → weight.thousandths ≠ 0

/-- The element has a weight of zero, and a capital letter stands for it. -/
def RefusesLoudly (p : Preference) : Prop :=
  ∃ weight, p.weight = some weight ∧ weight.thousandths = 0 ∧ weight.letter = 'Q'

/-- What the element says, apart from the case of its letters. -/
def meaning (p : Preference) : List Char × Option Nat :=
  (Text.lower p.coding, p.weight.map Weight.thousandths)

end Preference

/-! ## Characters -/

/-- The characters of names and weights: visible ones that do not divide a list. -/
def IsSolid (c : Char) : Prop :=
  33 ≤ c.toNat ∧ c.toNat < 127 ∧ c ≠ ',' ∧ c ≠ ';'

theorem isSolid_of_isTokenChar {c : Char} (h : Http.isTokenChar c = true) : IsSolid c := by
  have hascii : c.toNat < 127 := by
    rcases Bool.or_eq_true_iff.1 h with hletter | hmark
    · rcases Bool.or_eq_true_iff.1 hletter with hletter | hdigit
      · rcases Bool.or_eq_true_iff.1 hletter with hupper | hlower
        · exact Nat.lt_of_le_of_lt (m := 90) (of_decide_eq_true hupper).2 (by decide)
        · exact Nat.lt_of_le_of_lt (m := 122)
            (of_decide_eq_true (Bool.and_eq_true_iff.1 hlower).2) (by decide)
      · exact Nat.lt_of_le_of_lt (m := 57) (of_decide_eq_true (Bool.and_eq_true_iff.1 hdigit).2)
          (by decide)
    · have hall : "!#$%&'*+-.^_`|~".toList.all (·.toNat < 127) = true := by decide
      exact of_decide_eq_true (List.all_eq_true.1 hall c (List.contains_iff_mem.1 hmark))
  -- below the bound the characters can be gone through
  have hsolid : ∀ n < 127, Http.isTokenChar (Char.ofNat n) = true →
      33 ≤ n ∧ Char.ofNat n ≠ ',' ∧ Char.ofNat n ≠ ';' := by
    decide +kernel
  obtain ⟨hlow, hcomma, hsemicolon⟩ := hsolid c.toNat hascii (by rwa [Char.ofNat_toNat])
  rw [Char.ofNat_toNat] at hcomma hsemicolon
  exact ⟨hlow, hascii, hcomma, hsemicolon⟩

theorem isSolid_of_isDigit {c : Char} (h : c.isDigit = true) : IsSolid c := by
  refine isSolid_of_isTokenChar ?_
  rw [Http.isTokenChar, Char.isAlphanum, h, Bool.or_true, Bool.true_or]

theorem IsSolid.isBlank_eq_false {c : Char} (h : IsSolid c) : Text.isBlank c = false := by
  obtain ⟨hlow, hhigh, -⟩ := h
  rw [← Bool.not_eq_true]
  simp only [Text.isBlank, Bool.or_eq_true, Bool.and_eq_true, decide_eq_true_eq, beq_iff_eq]
  omega

theorem IsName.isSolid {coding : List Char} (h : IsName coding) : ∀ c ∈ coding, IsSolid c :=
  fun c hc => isSolid_of_isTokenChar (h.2 c hc)

theorem isSolid_of_writesWeight {text : List Char} {number : Nat}
    (h : Text.WritesWeight text number) : ∀ c ∈ text, IsSolid c := by
  have hpoint : IsSolid '.' := isSolid_of_isTokenChar (by decide)
  intro c hc
  cases h with
  | bare hfirst =>
    rw [List.mem_singleton.1 hc]
    exact isSolid_of_isDigit (Text.isDigit_of_first hfirst)
  | pointed hfirst hdigits _ =>
    rw [List.mem_cons, List.mem_cons] at hc
    rcases hc with rfl | rfl | hc
    · exact isSolid_of_isDigit (Text.isDigit_of_first (hfirst.imp id And.left))
    · exact hpoint
    · exact isSolid_of_isDigit (hdigits c hc)

theorem isSolid_of_weighted {value : List Char} {letter : Char} {number : Nat}
    (hletter : letter = 'q' ∨ letter = 'Q') (hvalue : Text.WritesWeight value number) :
    ∀ c ∈ letter :: '=' :: value, IsSolid c := by
  refine List.forall_mem_cons.2 ⟨?_, List.forall_mem_cons.2 ⟨?_, isSolid_of_writesWeight hvalue⟩⟩
  · rcases hletter with rfl | rfl <;> exact isSolid_of_isTokenChar (by decide)
  · exact ⟨by decide, by decide, by decide, by decide⟩

theorem isPadding_nil : IsPadding [] :=
  List.forall_mem_nil _

theorem IsPadding.isBlank {cs : List Char} (h : IsPadding cs) :
    ∀ c ∈ cs, Text.isBlank c = true := by
  intro c hc
  rcases h c hc with rfl | rfl <;> decide

/-- Padding alone has nothing in it. -/
theorem IsPadding.pads {cs : List Char} (h : IsPadding cs) : Pads [] cs := by
  have hpads : Pads [] (cs ++ [] ++ []) := .mk h isPadding_nil
  rwa [List.append_nil, List.append_nil] at hpads

/-- No padding needs to be there. -/
theorem pads_self (cs : List Char) : Pads cs cs := by
  have hpads : Pads cs ([] ++ cs ++ []) := .mk isPadding_nil isPadding_nil
  rwa [List.nil_append, List.append_nil] at hpads

namespace Pads

variable {text cs : List Char}

theorem trim_eq (h : Pads text cs) (htext : ∀ c ∈ text, IsSolid c) : Text.trim cs = text := by
  obtain ⟨hbefore, hafter⟩ := h
  exact Text.trim_append_append hbefore.isBlank (fun c hc => (htext c hc).isBlank_eq_false)
    hafter.isBlank

/-- What is padded has only the characters of the text and of the padding. -/
theorem mem_or (h : Pads text cs) {c : Char} (hc : c ∈ cs) : c ∈ text ∨ c = ' ' ∨ c = '\t' := by
  obtain ⟨hbefore, hafter⟩ := h
  rw [List.mem_append, List.mem_append] at hc
  rcases hc with (hc | hc) | hc
  · exact Or.inr (hbefore c hc)
  · exact Or.inl hc
  · exact Or.inr (hafter c hc)

theorem not_mem_separator (h : Pads text cs) (htext : ∀ c ∈ text, IsSolid c) :
    ',' ∉ cs ∧ ';' ∉ cs := by
  constructor <;> intro hc <;> rcases h.mem_or hc with hc | hc
  · exact (htext _ hc).2.2.1 rfl
  · revert hc
    decide
  · exact (htext _ hc).2.2.2 rfl
  · revert hc
    decide

end Pads

/-! ## Readable characters -/

/-- Visible ASCII, space and tab. -/
def IsPrintable (c : Char) : Prop :=
  c = '\t' ∨ 32 ≤ c.toNat ∧ c.toNat < 127

theorem IsSolid.isPrintable {c : Char} (h : IsSolid c) : IsPrintable c :=
  Or.inr ⟨Nat.le_of_succ_le h.1, h.2.1⟩

theorem isPrintable_of_padding {c : Char} (h : c = ' ' ∨ c = '\t') : IsPrintable c := by
  rcases h with rfl | rfl
  · exact Or.inr (by decide)
  · exact Or.inl rfl

theorem Pads.isPrintable {text cs : List Char} (h : Pads text cs)
    (htext : ∀ c ∈ text, IsSolid c) : ∀ c ∈ cs, IsPrintable c := by
  intro c hc
  rcases h.mem_or hc with hc | hc
  · exact (htext c hc).isPrintable
  · exact isPrintable_of_padding hc

theorem WritesPart.isPrintable {part : List Char} {ps : List Preference} (h : WritesPart part ps) :
    ∀ c ∈ part, IsPrintable c := by
  cases h with
  | empty h => exact fun c hc => isPrintable_of_padding (h c hc)
  | plain hcoding hpart => exact hpart.isPrintable hcoding.isSolid
  | weighted hcoding hfront hletter hvalue hback =>
    have hsemicolon : IsPrintable ';' := Or.inr (by decide)
    exact List.forall_mem_append.2 ⟨hfront.isPrintable hcoding.isSolid,
      List.forall_mem_cons.2 ⟨hsemicolon,
        hback.isPrintable (isSolid_of_weighted hletter hvalue)⟩⟩

theorem WritesList.isPrintable {text : List Char} {ps : List Preference} (h : WritesList text ps) :
    ∀ c ∈ text, IsPrintable c := by
  induction h with
  | last h => exact h.isPrintable
  | cons h _ ih =>
    have hcomma : IsPrintable ',' := Or.inr (by decide)
    exact List.forall_mem_append.2 ⟨h.isPrintable, List.forall_mem_cons.2 ⟨hcomma, ih⟩⟩

/-- A character of ASCII is one octet. -/
theorem utf8EncodeChar_of_lt {c : Char} (h : c.toNat < 128) :
    String.utf8EncodeChar c = [UInt8.ofNat c.toNat] := by
  have hval : c.val.toNat ≤ 127 := Nat.le_of_lt_succ h
  rw [String.utf8EncodeChar.eq_1, if_pos hval]
  rfl

theorem IsPrintable.toNat_lt {c : Char} (h : IsPrintable c) : c.toNat < 127 := by
  rcases h with rfl | ⟨-, hhigh⟩
  · decide
  · exact hhigh

theorem IsPrintable.isReadable {c : Char} (h : IsPrintable c) :
    Headers.isReadable (UInt8.ofNat c.toNat) = true := by
  have hoctet : (UInt8.ofNat c.toNat).toNat = c.toNat :=
    UInt8.toNat_ofNat_of_lt' (Nat.lt_trans h.toNat_lt (by decide))
  simp only [Headers.isReadable, Bool.or_eq_true, beq_iff_eq, Bool.and_eq_true, decide_eq_true_eq,
    UInt8.le_iff_toNat_le, UInt8.lt_iff_toNat_lt, hoctet]
  rcases h with rfl | hvisible
  · exact Or.inl rfl
  · exact Or.inr hvisible

/-- A text of printable characters is read back from the octets of a field. -/
theorem readable?_ofText {text : List Char} (h : ∀ c ∈ text, IsPrintable c) :
    Headers.readable? (Bytes.ofText (String.ofList text)) = some text := by
  have hoctets : Bytes.ofText (String.ofList text) = text.map fun c => UInt8.ofNat c.toNat := by
    rw [Bytes.ofText_eq_flatMap, String.toList_ofList, ← List.flatMap_pure_eq_map]
    exact List.flatMap_congr fun c hc =>
      utf8EncodeChar_of_lt (Nat.lt_succ_of_lt (h c hc).toNat_lt)
  have hreadable : (Bytes.ofText (String.ofList text)).all Headers.isReadable = true := by
    rw [hoctets, List.all_map, List.all_eq_true]
    exact fun c hc => (h c hc).isReadable
  rw [Headers.readable?, if_pos hreadable, hoctets, List.map_map]
  refine congrArg some ((List.map_congr_left fun c hc => ?_).trans (List.map_id text))
  have hoctet : (UInt8.ofNat c.toNat).toNat = c.toNat :=
    UInt8.toNat_ofNat_of_lt' (Nat.lt_trans (h c hc).toNat_lt (by decide))
  rw [Function.comp_apply, hoctet, Char.ofNat_toNat]
  rfl

/-! ## What is accepted -/

/-- A parameter refuses if it is a weight of zero and a small letter stands for it. -/
theorem isRefusal_iff {letter : Char} {value : List Char} {number : Nat}
    (hletter : letter = 'q' ∨ letter = 'Q') (hvalue : Text.WritesWeight value number) :
    isRefusal (letter :: '=' :: value) = true ↔ number = 0 ∧ letter ≠ 'Q' := by
  rcases hletter with rfl | rfl
  · have hafter : Text.afterStart? "q=".toList ('q' :: '=' :: value) = some value :=
      Text.afterStart?_eq_some_iff.2 rfl
    rw [isRefusal, hafter, ← Text.Decimal.writesZero_iff hvalue]
    exact (and_iff_left (by decide)).symm
  · have hafter : Text.afterStart? "q=".toList ('Q' :: '=' :: value) = none := rfl
    rw [isRefusal, hafter]
    simp

section accepts

variable {coding : List Char}

theorem sameFolded_iff {a b : List Char} :
    Text.sameFolded a b = true ↔ Text.lower a = Text.lower b :=
  beq_iff_eq

/-- An item with one parameter. -/
theorem itemAccepts_append_cons {front back : List Char} (hfront : ';' ∉ front)
    (hback : ';' ∉ back) : itemAccepts coding (front ++ ';' :: back) = true ↔
      Text.sameFolded (Text.trim front) coding = true ∧ ¬ isRefusal (Text.trim back) = true := by
  rw [itemAccepts, List.splitOn_append_cons_self, List.splitOn_eq_singleton hfront,
    List.splitOn_eq_singleton hback]
  simp

theorem itemAccepts_of_not_mem {item : List Char} (h : ';' ∉ item) :
    itemAccepts coding item = true ↔ Text.sameFolded (Text.trim item) coding = true := by
  rw [itemAccepts, List.splitOn_eq_singleton h]
  simp

/-- What stands between two commas accepts a coding if it is an element that does. -/
theorem WritesPart.itemAccepts_iff {part : List Char} {ps : List Preference}
    (h : WritesPart part ps) (hcoding : coding ≠ []) :
    itemAccepts coding part = true ↔
      ∃ p ∈ ps, p.Names coding ∧ (p.Admits ∨ p.RefusesLoudly) := by
  cases h with
  | empty h =>
    have hsolid := List.forall_mem_nil IsSolid
    rw [itemAccepts_of_not_mem (h.pads.not_mem_separator hsolid).2, h.pads.trim_eq hsolid,
      sameFolded_iff]
    simp [Text.lower, hcoding, eq_comm]
  | plain hname hpart =>
    have hsolid := hname.isSolid
    rw [itemAccepts_of_not_mem (hpart.not_mem_separator hsolid).2, hpart.trim_eq hsolid,
      sameFolded_iff]
    simp [Preference.Names, Preference.Admits]
  | @weighted _ _ _ _ _ number hname hfront hletter hvalue hback =>
    have hsolid := hname.isSolid
    have hparameter := isSolid_of_weighted hletter hvalue
    rw [itemAccepts_append_cons (hfront.not_mem_separator hsolid).2
        (hback.not_mem_separator hparameter).2, hfront.trim_eq hsolid, hback.trim_eq hparameter,
      sameFolded_iff, isRefusal_iff hletter hvalue]
    simp only [List.mem_singleton, exists_eq_left, Preference.Names, Preference.Admits,
      Preference.RefusesLoudly, Option.some.injEq, forall_eq', exists_eq_left']
    refine and_congr_right fun _ => ?_
    rw [not_and_or, not_not]
    by_cases hzero : number = 0 <;> simp [hzero]

theorem WritesPart.not_mem_comma {part : List Char} {ps : List Preference}
    (h : WritesPart part ps) : ',' ∉ part := by
  cases h with
  | empty h => exact (h.pads.not_mem_separator (List.forall_mem_nil _)).1
  | plain hname hpart => exact (hpart.not_mem_separator hname.isSolid).1
  | weighted hname hfront hletter hvalue hback =>
    rw [List.mem_append, List.mem_cons, not_or, not_or]
    exact ⟨(hfront.not_mem_separator hname.isSolid).1, by decide,
      (hback.not_mem_separator (isSolid_of_weighted hletter hvalue)).1⟩

/-- **A list accepts a coding** if one of its elements for the coding is not refused, or is refused
with a capital letter. -/
theorem accepts_iff {text : List Char} {ps : List Preference} (h : WritesList text ps)
    (hcoding : coding ≠ []) :
    accepts coding text = true ↔ ∃ p ∈ ps, p.Names coding ∧ (p.Admits ∨ p.RefusesLoudly) := by
  induction h with
  | last h =>
    rw [accepts, List.splitOn_eq_singleton h.not_mem_comma, List.any_cons, List.any_nil,
      Bool.or_false, h.itemAccepts_iff hcoding]
  | cons h _ ih =>
    rw [accepts] at ih ⊢
    rw [List.splitOn_append_cons_self, List.splitOn_eq_singleton h.not_mem_comma,
      List.singleton_append, List.any_cons, Bool.or_eq_true, ih, h.itemAccepts_iff hcoding]
    simp only [List.mem_append, or_and_right, exists_or]

theorem itemAccepts_trim (item : List Char) :
    itemAccepts coding (Text.trim item) = itemAccepts coding item := by
  unfold itemAccepts
  rw [Text.map_trim_splitOn_trim (by decide)]

/-- Blanks around a list do not count. -/
theorem accepts_trim (text : List Char) : accepts coding (Text.trim text) = accepts coding text := by
  have hitems : ∀ items : List (List Char),
      items.any (itemAccepts coding) = (items.map Text.trim).any (itemAccepts coding) := by
    intro items
    rw [List.any_map]
    exact congrArg items.any (funext fun item => (itemAccepts_trim item).symm)
  rw [accepts, accepts, hitems, Text.map_trim_splitOn_trim (by decide), ← hitems]

theorem accepts_nil (hcoding : coding ≠ []) : accepts coding [] = false := by
  have hlist : WritesList [] [] := .last (.empty isPadding_nil)
  rw [← Bool.not_eq_true, accepts_iff hlist hcoding]
  simp

end accepts

/-! ## The headers of a request -/

/-- The first field for the accepted codings lists the preferences. -/
def Prefers (headers : Headers) (ps : List Preference) : Prop :=
  ∃ text, headers.first? "accept-encoding" = some (Bytes.ofText (String.ofList text)) ∧
    WritesList text ps

/-- What the headers of a request come to. -/
theorem acceptsGzip_iff {headers : Headers} {ps : List Preference} (h : Prefers headers ps) :
    (RequestInfo.ofHeaders headers).acceptsGzip = true ↔
      ∃ p ∈ ps, p.Names gzipCoding ∧ (p.Admits ∨ p.RefusesLoudly) := by
  obtain ⟨text, hfield, hlist⟩ := h
  have hgzip : gzipCoding ≠ [] := by decide
  have htrimmed : headers.trimmed? "accept-encoding" =
      (some (Text.trim text)).filter (· ≠ []) := by
    rw [Headers.trimmed?, Headers.textOf?, hfield, Option.bind_some,
      readable?_ofText hlist.isPrintable, Option.map_some]
  have haccepts : (RequestInfo.ofHeaders headers).acceptsGzip = accepts gzipCoding text := by
    rw [RequestInfo.ofHeaders, htrimmed, ← accepts_trim]
    by_cases hblank : Text.trim text = []
    · rw [hblank, accepts_nil hgzip]
      rfl
    · have hkept : (some (Text.trim text)).filter (· ≠ []) = some (Text.trim text) :=
        Option.filter_some_pos (decide_eq_true hblank)
      rw [hkept]
      rfl
  rw [haccepts, accepts_iff hlist hgzip]

/-- Some element names `gzip` and does not refuse it. -/
def Welcomes (ps : List Preference) : Prop :=
  ∃ p ∈ ps, p.Names gzipCoding ∧ p.Admits

/-- No element refuses `gzip` with a capital letter. -/
def Quiet (ps : List Preference) : Prop :=
  ∀ p ∈ ps, p.Names gzipCoding → ¬ p.RefusesLoudly

theorem acceptsGzip_iff_welcomes_or {headers : Headers} {ps : List Preference}
    (h : Prefers headers ps) :
    (RequestInfo.ofHeaders headers).acceptsGzip = true ↔ Welcomes ps ∨ ¬ Quiet ps := by
  rw [acceptsGzip_iff h]
  simp only [Welcomes, Quiet, and_or_left, exists_or, not_forall, not_not, exists_prop]

/-- The headers of a request come to what they mean, but if `gzip` is only refused, and with a capital
letter. -/
theorem acceptsGzip_iff_welcomes_iff {headers : Headers} {ps : List Preference}
    (h : Prefers headers ps) :
    ((RequestInfo.ofHeaders headers).acceptsGzip = true ↔ Welcomes ps) ↔
      Welcomes ps ∨ Quiet ps := by
  rw [acceptsGzip_iff_welcomes_or h]
  by_cases hwelcomes : Welcomes ps <;> simp [hwelcomes]

/-- Whether `gzip` is welcome is a matter of what the elements mean. -/
theorem welcomes_iff_exists_meaning {ps : List Preference} :
    Welcomes ps ↔ ∃ said ∈ ps.map Preference.meaning,
      said.1 = Text.lower gzipCoding ∧ said.2 ≠ some 0 := by
  simp only [Welcomes, List.mem_map, exists_exists_and_eq_and]
  refine exists_congr fun p => and_congr_right fun _ => and_congr_right fun _ => ?_
  obtain ⟨coding, weight⟩ := p
  cases weight <;> simp [Preference.Admits, Preference.meaning]

end ReadThrough
