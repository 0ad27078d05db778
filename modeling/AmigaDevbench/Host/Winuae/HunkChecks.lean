import AmigaDevbench.Host.Winuae.HunkFormat

/-!
# The checks of the hunk parser

The parser tests every relocation, symbol and record as it comes. Together the tests say that the
hunk it ends with is well formed, that its records are in order, and that the budgets are kept.
-/

namespace AmigaDevbench.Winuae

open Decoder

namespace HunkFormat

/-! ### What is read -/

theorem foldl_relocate (target : Nat) (offsets : List Nat) : ∀ r : Reading,
    offsets.foldl (fun r o => r.relocate o target) r =
      { r with
        offsets := r.offsets ++ offsets
        hunk := { r.hunk with
          relocations := r.hunk.relocations ++ offsets.map (·, target) } } := by
  induction offsets with
  | nil =>
    intro r
    simp only [List.foldl_nil, List.map_nil, List.append_nil]
  | cons o offsets ih =>
    intro r
    rw [List.foldl_cons, ih]
    simp only [Reading.relocate, List.append_assoc, List.map_cons, List.singleton_append]

theorem Group.read_eq (g : Group) (r : Reading) :
    g.read r =
      { r with
        relocationCount := r.relocationCount + g.offsets.length
        offsets := r.offsets ++ g.offsets
        hunk := { r.hunk with
          relocations := r.hunk.relocations ++ g.offsets.map (·, g.target) } } :=
  foldl_relocate ..

theorem foldl_group (groups : List Group) : ∀ r : Reading,
    groups.foldl Group.read r =
      { r with
        relocationCount := r.relocationCount + (groups.flatMap Group.offsets).length
        offsets := r.offsets ++ groups.flatMap Group.offsets
        hunk := { r.hunk with
          relocations := r.hunk.relocations ++
            groups.flatMap fun g => g.offsets.map (·, g.target) } } := by
  induction groups with
  | nil =>
    intro r
    simp only [List.foldl_nil, List.flatMap_nil, List.append_nil, List.length_nil, Nat.add_zero]
  | cons g groups ih =>
    intro r
    simp only [List.foldl_cons, ih, Group.read_eq, List.append_assoc, List.flatMap_cons,
      List.length_append, Nat.add_assoc]

theorem foldl_definition (definitions : List Definition) : ∀ r : Reading,
    definitions.foldl Definition.read r =
      { r with
        symbolCount := r.symbolCount + definitions.length
        hunk := { r.hunk with
          symbols := r.hunk.symbols ++ definitions.map fun d => (d.name, d.offset) } } := by
  induction definitions with
  | nil =>
    intro r
    simp only [List.foldl_nil, List.map_nil, List.append_nil, List.length_nil, Nat.add_zero]
  | cons d definitions ih =>
    intro r
    simp only [List.foldl_cons, ih, Definition.read, Reading.define, List.append_assoc,
      List.map_cons, List.singleton_append, List.length_cons, Nat.add_assoc, Nat.add_comm 1]

theorem Record.hunk_read (r : Reading) (record : Record) :
    (record.read r).hunk = record.apply r.hunk := by
  cases record with
  | comment _ _ | payload _ _ _ => rfl
  | relocations tag groups padding => rw [read, foldl_group, apply]
  | symbols definitions => rw [read, foldl_definition, apply]

theorem hunk_foldl (records : List Flagged) (r : Reading) :
    (records.foldl Flagged.read r).hunk =
      (records.map Flagged.record).foldl Record.apply r.hunk := by
  induction records generalizing r with
  | nil => rfl
  | cons f records ih =>
    rw [List.foldl_cons, ih, Flagged.read, Record.hunk_read, List.map_cons, List.foldl_cons]

/-- Every relocation and symbol that is read is counted. -/
theorem Record.counts_read (r : Reading) (record : Record) :
    (record.read r).relocationCount + r.hunk.relocations.length =
        r.relocationCount + (record.read r).hunk.relocations.length ∧
      (record.read r).symbolCount + r.hunk.symbols.length =
        r.symbolCount + (record.read r).hunk.symbols.length := by
  cases record with
  | comment _ _ | payload _ _ _ => exact ⟨rfl, rfl⟩
  | relocations tag groups padding =>
    have hlength : (groups.flatMap fun g => g.offsets.map (·, g.target)).length =
        (groups.flatMap Group.offsets).length := by
      simp only [List.length_flatMap, List.length_map]
    simp only [read, foldl_group, List.length_append, hlength]
    exact ⟨by omega, trivial⟩
  | symbols definitions =>
    simp only [read, foldl_definition, List.length_append, List.length_map]
    exact ⟨trivial, by omega⟩

theorem counts_foldl (records : List Flagged) (r : Reading) :
    (records.foldl Flagged.read r).relocationCount + r.hunk.relocations.length =
        r.relocationCount + (records.foldl Flagged.read r).hunk.relocations.length ∧
      (records.foldl Flagged.read r).symbolCount + r.hunk.symbols.length =
        r.symbolCount + (records.foldl Flagged.read r).hunk.symbols.length := by
  induction records generalizing r with
  | nil => exact ⟨rfl, rfl⟩
  | cons f records ih =>
    have hrest := ih (f.read r)
    have hfirst := Record.counts_read r f.record
    simp only [List.foldl_cons, Flagged.read] at hrest ⊢
    omega

/-! ### The checks of the parser -/

/-- What the parser has made sure of. -/
structure Sound (count : Nat) (r : Reading) : Prop where
  offsets : r.offsets = r.hunk.relocations.map Prod.fst
  relocations : ∀ q ∈ r.hunk.relocations, q.1 % 2 = 0 ∧ q.1 + 4 ≤ r.hunk.size ∧ q.2 < count
  apart : r.hunk.relocations.Pairwise fun p q => p.1 + 4 ≤ q.1 ∨ q.1 + 4 ≤ p.1
  symbols : ∀ s ∈ r.hunk.symbols, s.1 ≠ [] ∧ s.2 ≤ r.hunk.size
  relocationCount : r.relocationCount ≤ 262144
  symbolCount : r.symbolCount ≤ 65536

/-- Between even offsets the test of the parser is that the longwords do not overlap. -/
theorem accepts_iff {count : Nat} (r : Reading) (offset target : Nat) (htarget : target < count) :
    r.Accepts offset ∧ Sound count r ↔ True ∧ Sound count (r.relocate offset target) := by
  rw [true_and]
  constructor
  · rintro ⟨⟨heven, hinside, hfree⟩, h⟩
    refine ⟨?_, ?_, ?_, h.symbols, h.relocationCount, h.symbolCount⟩
    · simp only [Reading.relocate, List.map_append, h.offsets, List.map_cons, List.map_nil]
    · intro q hq
      rcases List.mem_append.mp hq with hold | hnew
      · exact h.relocations q hold
      · rw [List.mem_singleton.mp hnew]
        exact ⟨heven, hinside, htarget⟩
    · refine List.pairwise_append.mpr ⟨h.apart, List.pairwise_singleton _ _, fun p hp q hq => ?_⟩
      rw [List.mem_singleton.mp hq]
      have hmem : p.1 ∈ r.offsets := by
        rw [h.offsets]
        exact List.mem_map_of_mem hp
      have hother := hfree p.1 hmem
      have hpeven := (h.relocations p hp).1
      omega
  · intro h
    have hmem : (offset, target) ∈ (r.relocate offset target).hunk.relocations :=
      List.mem_append_right _ (List.mem_singleton_self _)
    have hold (q : Nat × Nat) (hq : q ∈ r.hunk.relocations) :
        q ∈ (r.relocate offset target).hunk.relocations := List.mem_append_left _ hq
    obtain ⟨hapart, -, hnew⟩ := List.pairwise_append.mp h.apart
    have hoffsets : r.offsets = r.hunk.relocations.map Prod.fst := by
      have hall := h.offsets
      simp only [Reading.relocate, List.map_append, List.map_cons, List.map_nil] at hall
      exact List.append_cancel_right hall
    obtain ⟨heven, hinside, -⟩ := h.relocations _ hmem
    refine ⟨⟨heven, hinside, fun o ho => ?_⟩, hoffsets, fun q hq => h.relocations q (hold q hq),
      hapart, h.symbols, h.relocationCount, h.symbolCount⟩
    rw [hoffsets] at ho
    obtain ⟨q, hq, rfl⟩ := List.mem_map.mp ho
    have hdisjoint := hnew q hq _ (List.mem_singleton_self _)
    simp only at hdisjoint
    omega

/-- A group with an offset is accepted where nothing is wrong behind it. -/
theorem Group.fits_iff {count tag : Nat} (r : Reading) (g : Group) :
    (g.Valid tag ∧ g.Fits count r) ∧ Sound count r ↔ g.Valid tag ∧ Sound count (g.read r) := by
  rw [and_assoc]
  refine and_congr_right fun hvalid => ?_
  let s : Reading := { r with relocationCount := r.relocationCount + g.offsets.length }
  have hcount : Sound count s ↔
      r.relocationCount + g.offsets.length ≤ 262144 ∧ Sound count r := by
    constructor
    · intro h
      exact ⟨h.relocationCount, h.offsets, h.relocations, h.apart, h.symbols,
        Nat.le_trans (Nat.le_add_right _ _) h.relocationCount, h.symbolCount⟩
    · rintro ⟨hbudget, h⟩
      exact ⟨h.offsets, h.relocations, h.apart, h.symbols, hbudget, h.symbolCount⟩
  have hoffsets (htarget : g.target < count) :
      AllAlong (fun r o => r.relocate o g.target) Reading.Accepts s g.offsets ∧ Sound count s ↔
        AllAlong (fun r o => r.relocate o g.target) (fun _ _ => True) s g.offsets ∧
          Sound count (g.read r) :=
    allAlong_and_iff (fun r o => accepts_iff r o g.target htarget) g.offsets s
  constructor
  · rintro ⟨⟨hbudget, htarget, hall⟩, h⟩
    exact ((hoffsets htarget).mp ⟨hall, hcount.mpr ⟨hbudget, h⟩⟩).2
  · intro h
    have htarget : g.target < count := by
      obtain ⟨o, offsets, ho⟩ := List.exists_cons_of_ne_nil
        (fun hnil => hvalid.nonempty (congrArg List.length hnil))
      have hmem : (o, g.target) ∈ (g.read r).hunk.relocations := by
        rw [Group.read_eq, ho]
        exact List.mem_append_right _ (List.mem_cons_self ..)
      exact (h.relocations _ hmem).2.2
    have htrue : AllAlong (fun r o => r.relocate o g.target) (fun _ _ => True) s g.offsets :=
      allAlong_true _ _
    obtain ⟨hall, hs⟩ := (hoffsets htarget).mpr ⟨htrue, h⟩
    obtain ⟨hbudget, hr⟩ := hcount.mp hs
    exact ⟨⟨hbudget, htarget, hall⟩, hr⟩

theorem Definition.fits_iff {count : Nat} (r : Reading) (d : Definition) :
    d.Fits r ∧ Sound count r ↔ True ∧ Sound count (d.read r) := by
  rw [true_and]
  constructor
  · rintro ⟨⟨hbudget, hname, hinside⟩, h⟩
    refine ⟨h.offsets, h.relocations, h.apart, fun s hs => ?_, h.relocationCount, hbudget⟩
    rcases List.mem_append.mp hs with hold | hnew
    · exact h.symbols s hold
    · rw [List.mem_singleton.mp hnew]
      exact ⟨hname, hinside⟩
  · intro h
    obtain ⟨hname, hinside⟩ := h.symbols (d.name, d.offset)
      (List.mem_append_right _ (List.mem_singleton_self _))
    exact ⟨⟨h.symbolCount, hname, hinside⟩, h.offsets, h.relocations, h.apart,
      fun s hs => h.symbols s (List.mem_append_left _ hs), h.relocationCount,
      Nat.le_of_succ_le h.symbolCount⟩

/-- The order of the records: one payload, and relocations and symbols behind it. -/
def Record.InOrder (r : Reading) : Record → Prop
  | .comment _ _ => True
  | .payload _ _ _ => r.payload = false
  | .relocations _ _ _ | .symbols _ => r.payload = true

/-- A record is accepted where it is in order and nothing is wrong behind it. -/
theorem Record.fits_iff {count : Nat} {r : Reading} {record : Record}
    (hvalid : record.Valid r.hunk.size) :
    record.Fits count r ∧ Sound count r ↔ record.InOrder r ∧ Sound count (record.read r) := by
  cases record with
  | comment tag content => exact Iff.rfl
  | payload tag words content =>
    have hload : Sound count r ↔ Sound count (r.load (payloadKind tag) content) :=
      ⟨fun h => ⟨h.offsets, h.relocations, h.apart, h.symbols, h.relocationCount, h.symbolCount⟩,
        fun h => ⟨h.offsets, h.relocations, h.apart, h.symbols, h.relocationCount, h.symbolCount⟩⟩
    exact and_congr_right fun _ => hload
  | relocations tag groups padding =>
    have hgroups := allAlong_and_iff (fun r g => @Group.fits_iff count tag r g) groups r
    rw [allAlong_and_const, allAlong_const, and_assoc] at hgroups
    simp only [Fits, InOrder, and_assoc]
    exact and_congr_right fun _ => (and_congr_right_iff.mp hgroups) hvalid.2.1
  | symbols definitions =>
    have hdefinitions := allAlong_and_iff (fun r d => @Definition.fits_iff count r d) definitions r
    rw [and_iff_right (allAlong_true definitions r)] at hdefinitions
    simp only [Fits, InOrder, and_assoc]
    exact and_congr_right fun _ => hdefinitions

/-! ### The order of the records -/

theorem Record.payload_read (r : Reading) (record : Record) :
    (record.read r).payload = (record.isPayload || r.payload) := by
  cases record with
  | comment _ _ | payload _ _ _ => rfl
  | relocations _ groups _ =>
    rw [read, foldl_group]
    rfl
  | symbols definitions =>
    rw [read, foldl_definition]
    rfl

/-- Behind the payload no other may come. -/
theorem inOrder_of_payload (records : List Flagged) : ∀ r : Reading, r.payload = true →
    (AllAlong Flagged.read (fun r f => f.record.InOrder r) r records ↔
        ∀ f ∈ records.map Flagged.record, f.isPayload = false) ∧
      (records.foldl Flagged.read r).payload = true := by
  induction records with
  | nil => exact fun r hr => ⟨iff_of_true trivial nofun, hr⟩
  | cons f records ih =>
    intro r hr
    have hread : (f.read r).payload = true := by
      rw [Flagged.read, Record.payload_read, hr, Bool.or_true]
    obtain ⟨hrest, hend⟩ := ih _ hread
    refine ⟨?_, hend⟩
    rw [AllAlong, hrest, List.map_cons, List.forall_mem_cons]
    refine and_congr_left fun _ => ?_
    cases f.record with
    | comment _ _ => exact iff_of_true trivial rfl
    | payload _ _ _ =>
      refine iff_of_false (fun h => ?_) Bool.noConfusion
      exact Bool.noConfusion (hr.symm.trans h)
    | relocations _ _ _ | symbols _ => exact iff_of_true hr rfl

theorem ordered_comment {record : Record} (h : record.isComment = true) (records : List Record) :
    Ordered (record :: records) ↔ Ordered records := by
  constructor
  · rintro ⟨before, payload, after, hall, hbefore, hpayload, hafter⟩
    cases before with
    | nil =>
      obtain ⟨rfl, rfl⟩ := List.cons.inj hall
      cases record with
      | comment _ _ => cases hpayload
      | payload _ _ _ | relocations _ _ _ | symbols _ => cases h
    | cons first before =>
      obtain ⟨rfl, rfl⟩ := List.cons.inj hall
      exact ⟨before, payload, after, rfl, (List.forall_mem_cons.mp hbefore).2, hpayload, hafter⟩
  · rintro ⟨before, payload, after, rfl, hbefore, hpayload, hafter⟩
    exact ⟨record :: before, payload, after, rfl, List.forall_mem_cons.mpr ⟨h, hbefore⟩, hpayload,
      hafter⟩

theorem ordered_of_not_comment {record : Record} (h : record.isComment = false)
    (records : List Record) :
    Ordered (record :: records) ↔
      record.isPayload = true ∧ ∀ r ∈ records, r.isPayload = false := by
  constructor
  · rintro ⟨before, payload, after, hall, hbefore, hpayload, hafter⟩
    cases before with
    | nil =>
      obtain ⟨rfl, rfl⟩ := List.cons.inj hall
      exact ⟨hpayload, hafter⟩
    | cons first before =>
      obtain ⟨rfl, rfl⟩ := List.cons.inj hall
      have hcomment := (List.forall_mem_cons.mp hbefore).1
      rw [h] at hcomment
      cases hcomment
  · rintro ⟨hpayload, hafter⟩
    exact ⟨[], record, records, rfl, nofun, hpayload, hafter⟩

/-- The parser's order is that of the format. -/
theorem inOrder_iff (records : List Flagged) : ∀ r : Reading, r.payload = false →
    (AllAlong Flagged.read (fun r f => f.record.InOrder r) r records ∧
        (records.foldl Flagged.read r).payload = true ↔
      Ordered (records.map Flagged.record)) := by
  induction records with
  | nil =>
    intro r hr
    refine iff_of_false (fun h => ?_) ?_
    · exact Bool.noConfusion (hr.symm.trans h.2)
    · rintro ⟨before, payload, after, h, -⟩
      exact List.append_ne_nil_of_right_ne_nil before (List.cons_ne_nil _ _) h.symm
  | cons f records ih =>
    intro r hr
    rw [AllAlong, List.foldl_cons, List.map_cons, and_assoc]
    have hread : (f.read r).payload = (f.record.isPayload || r.payload) :=
      Record.payload_read r f.record
    cases hrecord : f.record with
    | comment tag content =>
      rw [hrecord, hr] at hread
      rw [ordered_comment rfl]
      exact (and_iff_right trivial).trans (ih _ hread)
    | payload tag words content =>
      rw [hrecord] at hread
      obtain ⟨hrest, hend⟩ := inOrder_of_payload records _ hread
      rw [ordered_of_not_comment rfl, hrest]
      exact and_congr (iff_of_true hr rfl) (and_iff_left hend)
    | relocations tag groups padding =>
      rw [ordered_of_not_comment rfl]
      exact iff_of_false (fun h => Bool.noConfusion (hr.symm.trans h.1))
        fun h => Bool.noConfusion h.1
    | symbols definitions =>
      rw [ordered_of_not_comment rfl]
      exact iff_of_false (fun h => Bool.noConfusion (hr.symm.trans h.1))
        fun h => Bool.noConfusion h.1

/-! ### Hunks -/

/-- The hunk as the table announces it. -/
def blank (h : Hunk) : Hunk := ⟨h.index, h.size, .bss, h.memory, [], [], []⟩

/-- The reading of a hunk when it begins, with the counts so far. -/
def begun (h : Hunk) (relocationCount symbolCount : Nat) : Reading :=
  ⟨blank h, false, [], relocationCount, symbolCount⟩

/-- The reading of a hunk when it has ended. -/
def ended (h : Hunk) (relocationCount symbolCount : Nat) : Reading :=
  ⟨h, true, h.relocations.map Prod.fst, relocationCount + h.relocations.length,
    symbolCount + h.symbols.length⟩

theorem size_of_blank {h h' : Hunk} (heq : blank h = blank h') : h.size = h'.size := by
  have hsize := congrArg Hunk.size heq
  exact hsize

theorem Record.blank_apply (h : Hunk) (record : Record) : blank (record.apply h) = blank h := by
  cases record <;> rfl

theorem blank_foldl (records : List Record) (h : Hunk) :
    blank (records.foldl Record.apply h) = blank h := by
  induction records generalizing h with
  | nil => rfl
  | cons record records ih => rw [List.foldl_cons, ih, Record.blank_apply]

theorem Record.offsets_read {r : Reading} (h : r.offsets = r.hunk.relocations.map Prod.fst)
    (record : Record) :
    (record.read r).offsets = (record.read r).hunk.relocations.map Prod.fst := by
  cases record with
  | comment _ _ | payload _ _ _ => exact h
  | relocations tag groups padding =>
    simp only [read, foldl_group, h, List.map_append, List.map_flatMap, List.map_map,
      Function.comp_def, List.map_id']
  | symbols definitions =>
    simp only [read, foldl_definition]
    exact h

theorem offsets_foldl (records : List Flagged) : ∀ r : Reading,
    r.offsets = r.hunk.relocations.map Prod.fst →
      (records.foldl Flagged.read r).offsets =
        (records.foldl Flagged.read r).hunk.relocations.map Prod.fst := by
  induction records with
  | nil => exact fun r h => h
  | cons f records ih => exact fun r h => ih _ (Record.offsets_read h f.record)

/-- Behind its records a hunk is read. -/
theorem foldl_begun {h : Hunk} {relocationCount symbolCount : Nat} {records : List Flagged}
    (hpayload : (records.foldl Flagged.read (begun h relocationCount symbolCount)).payload = true) :
    records.foldl Flagged.read (begun h relocationCount symbolCount) =
      ended ((records.map Flagged.record).foldl Record.apply (blank h)) relocationCount
        symbolCount := by
  have hhunk := hunk_foldl records (begun h relocationCount symbolCount)
  have hoffsets := offsets_foldl records (begun h relocationCount symbolCount) rfl
  have hcounts := counts_foldl records (begun h relocationCount symbolCount)
  rw [hhunk] at hoffsets hcounts
  generalize records.foldl Flagged.read (begun h relocationCount symbolCount) = t at *
  obtain ⟨hunk, payload, offsets, relocations, symbols⟩ := t
  obtain rfl : hunk = _ := hhunk
  obtain rfl : payload = true := hpayload
  obtain rfl : offsets = _ := hoffsets
  obtain rfl : relocations = _ := hcounts.1
  obtain rfl : symbols = _ := hcounts.2
  rfl

theorem sound_begun {count relocationCount symbolCount : Nat} (h : Hunk) :
    Sound count (begun h relocationCount symbolCount) ↔
      relocationCount ≤ 262144 ∧ symbolCount ≤ 65536 :=
  ⟨fun h => ⟨h.relocationCount, h.symbolCount⟩,
    fun ⟨hr, hs⟩ => ⟨rfl, nofun, List.Pairwise.nil, nofun, hr, hs⟩⟩

/-- The parser reads the hunks of the format in which nothing is wrong. -/
theorem chain_hunk {count c relocationCount symbolCount : Nat} {h : Hunk} {t : Reading} {b : Bytes}
    (hc : c % 4 = 0) (hr : relocationCount ≤ 262144) (hs : symbolCount ≤ 65536) :
    Chain (RecordAt count) (begun h relocationCount symbolCount) c t b ↔
      t = ended t.hunk relocationCount symbolCount ∧ blank t.hunk = blank h ∧ HunkBytes t.hunk b ∧
        Sound count t := by
  have hbegun : Sound count (begun h relocationCount symbolCount) :=
    (sound_begun h).mpr ⟨hr, hs⟩
  rw [chain_records hc]
  have hall (records : List Flagged) :
      AllAlong Flagged.read (Flagged.Fits count) (begun h relocationCount symbolCount) records ↔
        (∀ f ∈ records, f.flags < 4 ∧ f.record.Valid h.size) ∧
          AllAlong Flagged.read (fun r f => f.record.InOrder r)
            (begun h relocationCount symbolCount) records ∧
          Sound count (records.foldl Flagged.read (begun h relocationCount symbolCount)) := by
    have hstep (r : Reading) (f : Flagged) : Flagged.Fits count r f ∧ Sound count r ↔
        ((f.flags < 4 ∧ f.record.Valid r.hunk.size) ∧ f.record.InOrder r) ∧
          Sound count (f.read r) := by
      simp only [Flagged.Fits, and_assoc]
      exact and_congr_right fun _ => and_congr_right fun hvalid => Record.fits_iff hvalid
    have hsize (r : Reading) (f : Flagged) : (f.read r).hunk.size = r.hunk.size := by
      rw [Flagged.read, Record.hunk_read]
      exact size_of_blank (Record.blank_apply r.hunk f.record)
    have hfixed := allAlong_and (R := fun (size : Nat) (f : Flagged) =>
      f.flags < 4 ∧ f.record.Valid size) (P := fun (r : Reading) (f : Flagged) =>
        f.record.InOrder r) (fun r : Reading => r.hunk.size) hsize records
      (begun h relocationCount symbolCount)
    have hsteps := allAlong_and_iff hstep records (begun h relocationCount symbolCount)
    rw [and_iff_left hbegun, hfixed, and_assoc] at hsteps
    exact hsteps
  constructor
  · rintro ⟨records, ending, hrecords, rfl, ⟨hpayload, flags, hflags, rfl⟩, rfl⟩
    obtain ⟨hvalid, horder, hsound⟩ := (hall records).mp hrecords
    have horder' := (inOrder_iff records _ rfl).mp ⟨horder, hpayload⟩
    have hend := foldl_begun hpayload
    have hblank := blank_foldl (records.map Flagged.record) (blank h)
    rw [hend] at hsound ⊢
    have hsize : ((records.map Flagged.record).foldl Record.apply (blank h)).size = h.size :=
      size_of_blank hblank
    refine ⟨rfl, hblank, ⟨records, flags, ?_, hflags, horder', ?_, rfl⟩, hsound⟩
    · intro f hf
      have hf' := hvalid f hf
      change f.flags < 4 ∧ f.record.Valid ((records.map Flagged.record).foldl Record.apply
        (blank h)).size
      rwa [hsize]
    · change _ = (records.map Flagged.record).foldl Record.apply
        (blank ((records.map Flagged.record).foldl Record.apply (blank h)))
      rw [hblank]
      rfl
  · rintro ⟨hend, hblank, ⟨records, flags, hvalid, hflags, horder, hhunk, rfl⟩, hsound⟩
    have hsize : t.hunk.size = h.size := size_of_blank hblank
    have hhunk' : t.hunk = (records.map Flagged.record).foldl Record.apply (blank h) := by
      rw [← hblank]
      exact hhunk
    obtain ⟨horder', hpayload⟩ := (inOrder_iff records
      (begun h relocationCount symbolCount) rfl).mpr horder
    have ht : t = records.foldl Flagged.read (begun h relocationCount symbolCount) := by
      rw [foldl_begun hpayload, ← hhunk']
      exact hend
    refine ⟨records, _, (hall records).mpr ⟨fun f hf => ?_, horder', ?_⟩, ht, ⟨?_, flags, hflags,
      rfl⟩, rfl⟩
    · rw [← hsize]
      exact hvalid f hf
    · rw [← ht]
      exact hsound
    · rw [ht]
      exact hpayload

end HunkFormat

end AmigaDevbench.Winuae
