import ReadThrough.Deflate.Description
import ReadThrough.Proofs.Deflate.Lengths
import ReadThrough.Proofs.Deflate.Readers

/-!
# Entries stand for lengths

Behind the lengths that have been read, an entry stands for a run of at least one length. `Extends`
says so of a list of entries, and the reader of lengths reads what they stand for
(`reads_readLengths`). The entries that are written for lengths stand for them
(`extends_lengthEntries`).
-/

namespace ReadThrough.Deflate

/-! ## What entries stand for -/

theorem reads_readRepeat {width least length count : Nat} (hleast : least ≤ count)
    (hcount : count - least < 2 ^ width) :
    Reads (readRepeat width least length) (toBits width (count - least))
      (List.replicate count length) := by
  have hreads := reads_repeat width least length hcount
  rwa [Nat.add_sub_cancel' hleast] at hreads

/-- Behind the lengths `done` the entries stand for lengths up to `all`, each of them for some. -/
inductive Extends : (done : List Nat) → List LengthEntry → (all : List Nat) → Prop where
  | nil (done : List Nat) : Extends done [] done
  | cons {done run all : List Nat} {entry : LengthEntry} {entries : List LengthEntry}
      (hrun : Reads (readEntry done.getLast? entry.symbol) entry.extra run) (hne : run ≠ [])
      (hrest : Extends (done ++ run) entries all) : Extends done (entry :: entries) all

theorem Extends.append {done middle all : List Nat} {front back : List LengthEntry}
    (hfront : Extends done front middle) (hback : Extends middle back all) :
    Extends done (front ++ back) all := by
  induction hfront with
  | nil => exact hback
  | cons hrun hne _ ih => exact .cons hrun hne (ih hback)

theorem Extends.eq_of_nil {done all : List Nat} (h : Extends done [] all) : all = done := by
  cases h
  rfl

theorem Extends.length_le {done all : List Nat} {entries : List LengthEntry}
    (h : Extends done entries all) : done.length ≤ all.length := by
  induction h with
  | nil => exact Nat.le_refl _
  | cons _ _ _ ih =>
    rw [List.length_append] at ih
    omega

/-- Lengths are read from entries that stand for them. -/
theorem reads_readLengths (code : Code) (word : Nat → List Bool) {done all : List Nat}
    {entries : List LengthEntry} (h : Extends done entries all)
    (hwords : ∀ entry ∈ entries, Reads code.read (word entry.symbol) entry.symbol) :
    Reads (readLengths code all.length done.toArray)
      (entries.flatMap fun entry => word entry.symbol ++ entry.extra) all := by
  -- each entry is read behind the lengths that the entries before it stand for
  induction h with
  | nil done => exact reads_readLengths_nil code done
  | cons hrun hne hrest ih =>
    obtain ⟨hword, hwords'⟩ := List.forall_mem_cons.1 hwords
    exact reads_readLengths_cons (hword.andThen hrun) (List.length_pos_iff.2 hne) hrest.length_le
      (ih hwords')

/-! ## Entries that are written -/

theorem extends_singles {length : Nat} (hlength : length < 16) (done : List Nat) (count : Nat) :
    Extends done (List.replicate count ⟨length, []⟩) (done ++ List.replicate count length) := by
  induction count generalizing done with
  | zero =>
    rw [List.replicate_zero, List.replicate_zero, List.append_nil]
    exact .nil done
  | succ count ih =>
    have hrest := ih (done ++ [length])
    rw [List.append_assoc, List.singleton_append, ← List.replicate_succ] at hrest
    rw [List.replicate_succ]
    exact .cons (reads_single hlength) (List.cons_ne_nil _ _) hrest

/-- A single entry for a run. -/
theorem extends_one {done : List Nat} {entry : LengthEntry} {length count : Nat}
    (hpositive : 0 < count)
    (h : Reads (readEntry done.getLast? entry.symbol) entry.extra (List.replicate count length)) :
    Extends done [entry] (done ++ List.replicate count length) := by
  refine .cons h (fun hnil => ?_) (.nil _)
  rw [List.replicate_eq_nil_iff] at hnil
  omega

theorem extends_zeroEntries (done : List Nat) {count : Nat} (hcount : count ≤ 138) :
    Extends done (zeroEntries count) (done ++ List.replicate count 0) := by
  unfold zeroEntries
  split
  · exact extends_singles (by decide) done count
  · split
    · exact extends_one (by omega) (reads_readRepeat (by omega) (by omega))
    · exact extends_one (by omega) (reads_readRepeat (by omega) (by omega))

theorem extends_repeatEntries {done : List Nat} {length count : Nat} (hlength : length < 16)
    (hlast : done.getLast? = some length) (hcount : count ≤ 6) :
    Extends done (repeatEntries length count) (done ++ List.replicate count length) := by
  unfold repeatEntries
  split
  · exact extends_singles hlength done count
  · refine extends_one (by omega) ?_
    rw [hlast]
    exact reads_readRepeat (by omega) (by omega)

theorem parts_spec {most : Nat} (hmost : 0 < most) (count : Nat) :
    (∀ part ∈ parts most count, part ≤ most) ∧ (parts most count).sum = count := by
  have hrest := Nat.mod_lt count hmost
  have hdivide := Nat.div_add_mod' count most
  unfold parts
  refine ⟨fun part hmem => ?_, ?_⟩
  · rcases List.mem_append.1 hmem with hmem | hmem
    · exact Nat.le_of_eq (List.eq_of_mem_replicate hmem)
    · split at hmem
      · cases hmem
      · obtain rfl := List.mem_singleton.1 hmem
        omega
  · rw [List.sum_append_nat, List.sum_replicate_nat]
    split
    · rw [List.sum_nil]
      omega
    · rw [List.sum_singleton]
      exact hdivide

/-- A run is written in parts, each of them behind the ones before it. -/
theorem extends_parts (Ready : List Nat → Prop) {entries : Nat → List LengthEntry}
    {length : Nat} {parts : List Nat}
    (hstep : ∀ done, Ready done → ∀ part ∈ parts,
      Extends done (entries part) (done ++ List.replicate part length) ∧
        Ready (done ++ List.replicate part length))
    {done : List Nat} (hready : Ready done) :
    Extends done (parts.flatMap entries) (done ++ List.replicate parts.sum length) := by
  induction parts generalizing done with
  | nil =>
    rw [List.flatMap_nil, List.sum_nil, List.replicate_zero, List.append_nil]
    exact .nil done
  | cons part parts ih =>
    obtain ⟨hfirst, hready'⟩ := hstep done hready part List.mem_cons_self
    have hrest := ih (fun done hready other hmem =>
      hstep done hready other (List.mem_cons_of_mem _ hmem)) hready'
    rw [List.append_assoc, List.replicate_append_replicate] at hrest
    rw [List.flatMap_cons, List.sum_cons]
    exact hfirst.append hrest

theorem getLast?_append_replicate {done : List Nat} {length : Nat}
    (hlast : done.getLast? = some length) (count : Nat) :
    (done ++ List.replicate count length).getLast? = some length := by
  rw [List.getLast?_append, List.getLast?_replicate, hlast]
  split <;> rfl

theorem extends_runEntries (done : List Nat) {length count : Nat} (hlength : length < 16)
    (hcount : 0 < count) :
    Extends done (runEntries length count) (done ++ List.replicate count length) := by
  unfold runEntries
  split
  · next hzero =>
    subst hzero
    obtain ⟨hmost, hsum⟩ := parts_spec (by decide : 0 < 138) count
    have hparts : Extends done ((parts 138 count).flatMap zeroEntries)
        (done ++ List.replicate (parts 138 count).sum 0) :=
      extends_parts (fun _ => True)
        (fun done _ part hmem => ⟨extends_zeroEntries done (hmost part hmem), trivial⟩) trivial
    rwa [hsum] at hparts
  · obtain ⟨hmost, hsum⟩ := parts_spec (by decide : 0 < 6) (count - 1)
    have hparts := extends_parts (fun done => done.getLast? = some length)
      (fun done hlast part hmem =>
        ⟨extends_repeatEntries hlength hlast (hmost part hmem),
          getLast?_append_replicate hlast part⟩)
      (List.getLast?_concat : (done ++ [length]).getLast? = some length)
    rw [hsum, List.append_assoc, List.singleton_append, ← List.replicate_succ,
      Nat.sub_add_cancel hcount] at hparts
    exact .cons (reads_single hlength) (List.cons_ne_nil _ _) hparts

/-! ## Runs of a list -/

theorem flatMap_runs (lengths : List Nat) :
    (runs lengths).flatMap (fun (length, count) => List.replicate count length) = lengths := by
  fun_induction runs lengths with
  | case1 => rfl
  | case2 length rest hnil ih =>
    rw [hnil] at ih
    rw [← ih]
    rfl
  | case3 rest next count more hruns ih =>
    rw [hruns] at ih
    rw [← ih]
    rfl
  | case4 length rest next count more hruns hne ih =>
    rw [hruns] at ih
    rw [← ih]
    rfl

theorem pos_of_mem_runs {lengths : List Nat} : ∀ run ∈ runs lengths, 0 < run.2 := by
  fun_induction runs lengths with
  | case1 => exact fun _ hmem => nomatch hmem
  | case2 length rest hnil ih => simp
  | case3 rest next count more hruns ih =>
    rw [hruns] at ih
    exact List.forall_mem_cons.2 ⟨Nat.succ_pos _, (List.forall_mem_cons.1 ih).2⟩
  | case4 length rest next count more hruns hne ih =>
    rw [hruns] at ih
    exact List.forall_mem_cons.2 ⟨Nat.one_pos, ih⟩

theorem exists_run_of_mem {lengths : List Nat} {length : Nat} (h : length ∈ lengths) :
    ∃ count, (length, count) ∈ runs lengths := by
  rw [← flatMap_runs lengths] at h
  obtain ⟨⟨_, count⟩, hrun, hmem⟩ := List.mem_flatMap.1 h
  obtain rfl := List.eq_of_mem_replicate hmem
  exact ⟨count, hrun⟩

theorem length_of_mem_runs {lengths : List Nat} {run : Nat × Nat} (h : run ∈ runs lengths) :
    run.1 ∈ lengths := by
  have hpositive := pos_of_mem_runs run h
  rw [← flatMap_runs lengths]
  exact List.mem_flatMap.2 ⟨run, h, List.mem_replicate.2 ⟨Nat.ne_of_gt hpositive, rfl⟩⟩

theorem extends_rows {rows : List (Nat × Nat)} (h : ∀ row ∈ rows, row.1 < 16 ∧ 0 < row.2)
    (done : List Nat) :
    Extends done (rows.flatMap fun (length, count) => runEntries length count)
      (done ++ rows.flatMap fun (length, count) => List.replicate count length) := by
  induction rows generalizing done with
  | nil =>
    rw [List.flatMap_nil, List.flatMap_nil, List.append_nil]
    exact .nil done
  | cons row rows ih =>
    obtain ⟨⟨hlength, hcount⟩, hrest⟩ := List.forall_mem_cons.1 h
    rw [List.flatMap_cons, List.flatMap_cons, ← List.append_assoc]
    exact (extends_runEntries done hlength hcount).append (ih hrest _)

/-- The entries for lengths stand for them. -/
theorem extends_lengthEntries {lengths : List Nat} (h : ∀ length ∈ lengths, length < 16)
    (done : List Nat) : Extends done (lengthEntries lengths) (done ++ lengths) := by
  have hrows := extends_rows (fun run hmem =>
    ⟨h _ (length_of_mem_runs hmem), pos_of_mem_runs run hmem⟩) done
  rwa [flatMap_runs] at hrows

/-! ## Symbols of entries -/

theorem symbol_of_mem_zeroEntries {count : Nat} {entry : LengthEntry}
    (h : entry ∈ zeroEntries count) :
    entry.symbol = 0 ∨ entry.symbol = 17 ∨ entry.symbol = 18 := by
  unfold zeroEntries at h
  split at h
  · rw [List.eq_of_mem_replicate h]
    exact Or.inl rfl
  · split at h
    · rw [List.mem_singleton.1 h]
      exact Or.inr (Or.inl rfl)
    · rw [List.mem_singleton.1 h]
      exact Or.inr (Or.inr rfl)

theorem symbol_of_mem_repeatEntries {length count : Nat} {entry : LengthEntry}
    (h : entry ∈ repeatEntries length count) : entry.symbol = length ∨ entry.symbol = 16 := by
  unfold repeatEntries at h
  split at h
  · rw [List.eq_of_mem_replicate h]
    exact Or.inl rfl
  · rw [List.mem_singleton.1 h]
    exact Or.inr rfl

theorem symbol_of_mem_runEntries {length count : Nat} {entry : LengthEntry}
    (h : entry ∈ runEntries length count) :
    (length = 0 ∧ (entry.symbol = 0 ∨ entry.symbol = 17 ∨ entry.symbol = 18)) ∨
      length ≠ 0 ∧ (entry.symbol = length ∨ entry.symbol = 16) := by
  unfold runEntries at h
  split at h
  · next hzero =>
    obtain ⟨part, -, hentry⟩ := List.mem_flatMap.1 h
    exact Or.inl ⟨hzero, symbol_of_mem_zeroEntries hentry⟩
  · next hpositive =>
    refine Or.inr ⟨hpositive, ?_⟩
    rcases List.mem_cons.1 h with rfl | h
    · exact Or.inl rfl
    · obtain ⟨part, -, hentry⟩ := List.mem_flatMap.1 h
      exact symbol_of_mem_repeatEntries hentry

theorem mem_lengthEntries {lengths : List Nat} {entry : LengthEntry} :
    entry ∈ lengthEntries lengths ↔ ∃ run ∈ runs lengths, entry ∈ runEntries run.1 run.2 :=
  List.mem_flatMap

theorem symbol_lt_of_mem_lengthEntries {lengths : List Nat} (h : ∀ length ∈ lengths, length < 16)
    {entry : LengthEntry} (hentry : entry ∈ lengthEntries lengths) :
    entry.symbol < lengthSymbols := by
  obtain ⟨⟨length, count⟩, hrun, hmem⟩ := mem_lengthEntries.1 hentry
  have hlength : length < 16 := h _ (length_of_mem_runs hrun)
  have hsymbol := symbol_of_mem_runEntries hmem
  show entry.symbol < 19
  omega

/-- Every length is among the entries: itself, or if it is zero with a symbol for zeros. -/
theorem exists_entry_of_mem {lengths : List Nat} (h : ∀ length ∈ lengths, length < 16)
    {length : Nat} (hlength : length ∈ lengths) :
    ∃ entry ∈ lengthEntries lengths,
      if length = 0 then entry.symbol = 0 ∨ entry.symbol = 17 ∨ entry.symbol = 18
      else entry.symbol = length := by
  obtain ⟨count, hrun⟩ := exists_run_of_mem hlength
  split
  · next hzero =>
    have hextends := extends_runEntries [] (h _ hlength) (pos_of_mem_runs _ hrun)
    cases hentries : runEntries length count with
    | nil =>
      rw [hentries] at hextends
      have hnone := hextends.eq_of_nil
      rw [List.nil_append, List.replicate_eq_nil_iff] at hnone
      exact absurd hnone (Nat.ne_of_gt (pos_of_mem_runs _ hrun))
    | cons entry rest =>
      have hmem : entry ∈ runEntries length count := by
        rw [hentries]
        exact List.mem_cons_self
      refine ⟨entry, mem_lengthEntries.2 ⟨_, hrun, hmem⟩, ?_⟩
      have hsymbol := symbol_of_mem_runEntries hmem
      omega
  · next hpositive =>
    refine ⟨⟨length, []⟩, mem_lengthEntries.2 ⟨_, hrun, ?_⟩, rfl⟩
    rw [runEntries, if_neg hpositive]
    exact List.mem_cons_self

theorem runs_replicate (length count : Nat) :
    runs (List.replicate (count + 1) length) = [(length, count + 1)] := by
  induction count with
  | zero => rfl
  | succ count ih =>
    rw [List.replicate_succ, runs, ih]
    simp

/-- A list that is long enough and not all zeros has entries with two symbols. -/
theorem exists_two_symbols {lengths : List Nat} (h : ∀ length ∈ lengths, length < 16)
    {length : Nat} (hlength : length ∈ lengths) (hpositive : length ≠ 0)
    (hlong : 8 ≤ lengths.length) :
    ∃ a ∈ lengthEntries lengths, ∃ b ∈ lengthEntries lengths, a.symbol ≠ b.symbol := by
  obtain ⟨a, ha, hsymbol⟩ := exists_entry_of_mem h hlength
  rw [if_neg hpositive] at hsymbol
  have hsmall := h length hlength
  by_cases hall : ∀ other ∈ lengths, other = length
  · -- a single run is repeated by an entry of its own
    obtain ⟨count, hcount⟩ : ∃ count, lengths.length = count + 8 :=
      ⟨_, (Nat.sub_add_cancel hlong).symm⟩
    have hruns : runs lengths = [(length, count + 8)] := by
      rw [List.eq_replicate_iff.2 ⟨hcount, hall⟩]
      exact runs_replicate length (count + 7)
    have hrepeat : ⟨16, toBits 2 3⟩ ∈ runEntries length (count + 8) := by
      rw [runEntries, if_neg hpositive]
      refine List.mem_cons_of_mem _ (List.mem_flatMap.2 ⟨6, ?_, List.mem_cons_self⟩)
      exact List.mem_append_left _ (List.mem_replicate.2 ⟨by omega, rfl⟩)
    refine ⟨a, ha, ⟨16, toBits 2 3⟩, mem_lengthEntries.2 ⟨(length, count + 8), ?_, hrepeat⟩, ?_⟩
    · rw [hruns]
      exact List.mem_cons_self
    · show a.symbol ≠ 16
      omega
  · obtain ⟨other, hother, hne⟩ : ∃ other ∈ lengths, other ≠ length := by
      simpa using hall
    obtain ⟨b, hb, hsymbol'⟩ := exists_entry_of_mem h hother
    refine ⟨a, ha, b, hb, ?_⟩
    split at hsymbol' <;> omega

/-! ## Tallies -/

theorem length_tally (count : Nat) (symbols : List Nat) : (tally count symbols).length = count := by
  suffices hsize : ∀ counts : Array Nat,
      (symbols.foldl (fun counts symbol => counts.modify symbol (· + 1)) counts).size =
        counts.size by
    rw [tally, Array.length_toList, hsize, Array.size_replicate]
  induction symbols with
  | nil => exact fun _ => rfl
  | cons symbol symbols ih =>
    intro counts
    rw [List.foldl_cons, ih, Array.size_modify]

/-- A symbol is counted as often as it is there. -/
theorem getElem?_tally {count symbol : Nat} (h : symbol < count) (symbols : List Nat) :
    (tally count symbols)[symbol]? = some (symbols.count symbol) := by
  suffices hcounts : ∀ counts : Array Nat,
      (symbols.foldl (fun counts symbol => counts.modify symbol (· + 1)) counts)[symbol]? =
        counts[symbol]?.map (· + symbols.count symbol) by
    rw [tally, Array.getElem?_toList, hcounts, Array.getElem?_replicate, if_pos h, Option.map_some,
      Nat.zero_add]
  induction symbols with
  | nil => simp
  | cons other symbols ih =>
    intro counts
    rw [List.foldl_cons, ih, Array.getElem?_modify, List.count_cons]
    split
    · next hsame =>
      rw [Option.map_map, hsame, beq_self_eq_true, if_pos rfl]
      congr 1
      funext before
      show before + 1 + _ = _
      omega
    · next hne =>
      rw [beq_eq_false_iff_ne.2 hne]
      rfl

/-- A symbol that is there occurs. -/
theorem mem_occurring_tally {count symbol : Nat} {symbols : List Nat} (hcount : symbol < count)
    (hmem : symbol ∈ symbols) : symbol ∈ (occurring (tally count symbols)).map Prod.snd :=
  mem_occurring.2 ⟨_, getElem?_tally hcount symbols, List.count_pos_iff.2 hmem⟩

theorem two_le_length_occurring {counts : List Nat} {a b : Nat}
    (ha : a ∈ (occurring counts).map Prod.snd) (hb : b ∈ (occurring counts).map Prod.snd)
    (hne : a ≠ b) : 2 ≤ (occurring counts).length := by
  match hrows : (occurring counts).map Prod.snd with
  | [] =>
    rw [hrows] at ha
    cases ha
  | [_] =>
    rw [hrows, List.mem_singleton] at ha hb
    exact absurd (ha.trans hb.symm) hne
  | _ :: _ :: rest =>
    have hlength := congrArg List.length hrows
    rw [List.length_map] at hlength
    simp only [List.length_cons] at hlength
    omega

/-! ## Lists without the zeros at their end -/

theorem exists_eq_trimmed_append (least : Nat) (lengths : List Nat) :
    ∃ zeros, lengths = trimmed least lengths ++ List.replicate zeros 0 := by
  have hsplit := List.takeWhile_append_dropWhile (p := (· == 0)) (l := (lengths.drop least).reverse)
  refine ⟨((lengths.drop least).reverse.takeWhile (· == 0)).length, ?_⟩
  have hzeros : (lengths.drop least).reverse.takeWhile (· == 0) =
      List.replicate ((lengths.drop least).reverse.takeWhile (· == 0)).length 0 :=
    List.eq_replicate_iff.2 ⟨rfl, fun length hmem =>
      eq_of_beq (List.all_eq_true.1 List.all_takeWhile length hmem)⟩
  have hback := congrArg List.reverse hsplit
  rw [List.reverse_append, List.reverse_reverse] at hback
  rw [trimmed, List.append_assoc]
  conv => lhs; rw [← List.take_append_drop least lengths, ← hback, hzeros, List.reverse_replicate]

theorem length_trimmed (least : Nat) (lengths : List Nat) :
    min least lengths.length ≤ (trimmed least lengths).length ∧
      (trimmed least lengths).length ≤ lengths.length := by
  obtain ⟨zeros, hzeros⟩ := exists_eq_trimmed_append least lengths
  have hlength := congrArg List.length hzeros
  rw [List.length_append] at hlength
  refine ⟨?_, by omega⟩
  rw [trimmed, List.length_append, List.length_take]
  omega

theorem mem_of_mem_trimmed {least length : Nat} {lengths : List Nat}
    (h : length ∈ trimmed least lengths) : length ∈ lengths := by
  obtain ⟨zeros, hzeros⟩ := exists_eq_trimmed_append least lengths
  rw [hzeros]
  exact List.mem_append_left _ h

/-- Zeros at the end do not matter to what stands before them. -/
theorem getD_trimmed (least : Nat) (lengths : List Nat) (index : Nat) :
    (trimmed least lengths)[index]?.getD 0 = lengths[index]?.getD 0 := by
  obtain ⟨zeros, hzeros⟩ := exists_eq_trimmed_append least lengths
  conv => rhs; rw [hzeros]
  by_cases hinside : index < (trimmed least lengths).length
  · rw [List.getElem?_append_left hinside]
  · rw [List.getElem?_append_right (by omega), List.getElem?_eq_none (by omega),
      List.getElem?_replicate]
    split <;> rfl

/-- Zeros at the end do not matter to a canonical code. -/
theorem ranked_trimmed (least : Nat) (lengths : List Nat) :
    Code.ranked (trimmed least lengths) = Code.ranked lengths := by
  obtain ⟨zeros, hzeros⟩ := exists_eq_trimmed_append least lengths
  conv => rhs; rw [hzeros]
  unfold Code.ranked
  refine List.flatMap_congr fun length hlength => ?_
  have hpositive := (List.mem_range'_1.1 hlength).1
  rw [List.zipIdx_append, List.filter_append]
  have hnone : (((List.replicate zeros 0).zipIdx (0 + (trimmed least lengths).length)).filter
      fun asked => asked.1 == length) = [] := by
    refine List.filter_eq_nil_iff.2 fun asked hmem => ?_
    have hzero := List.eq_of_mem_replicate (List.fst_mem_of_mem_zipIdx hmem)
    simp only [hzero, beq_iff_eq]
    omega
  rw [hnone, List.append_nil]

end ReadThrough.Deflate
