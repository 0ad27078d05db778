import AmigaDevbench.Host.Winuae.HunkChecks

/-!
# The hunk parser is exact

The table and the hunks are read one behind the other, up to the end of the file; on other bytes
the parser raises its exception.
-/

namespace AmigaDevbench.Winuae

open Decoder

namespace HunkFormat

/-! ### The table -/

theorem memoryFlags_lt (m : HunkMemory) : memoryFlags m < 3 := by
  cases m <;> decide

theorem memoryOf_memoryFlags (m : HunkMemory) : memoryOf (memoryFlags m) = m := by
  cases m <;> rfl

theorem memoryFlags_memoryOf {flags : Nat} (h : flags < 3) :
    memoryFlags (memoryOf flags) = flags := by
  match flags, h with
  | 0, _ | 1, _ | 2, _ => rfl

/-- The table announces the hunks, their sizes within the limit. -/
theorem exact_readTable (left : Nat) : ∀ index total : Nat, total ≤ 8 * 1024 * 1024 →
    Exact (readTable left index total) fun _ hunks b =>
      hunks.length = left ∧ hunks.map Hunk.index = List.range' index left ∧
        (∀ h ∈ hunks, blank h = h ∧ h.size % 4 = 0) ∧
        total + (hunks.map Hunk.size).sum ≤ 8 * 1024 * 1024 ∧ b = hunks.flatMap descriptor := by
  induction left with
  | zero =>
    intro index total htotal
    refine (exact_pure _).congr fun c hunks b => ?_
    constructor
    · rintro ⟨rfl, rfl⟩
      exact ⟨rfl, rfl, nofun, htotal, rfl⟩
    · rintro ⟨hlength, -, -, -, rfl⟩
      rw [List.length_eq_zero_iff.mp hlength]
      exact ⟨rfl, rfl⟩
  | succ left ih =>
    intro index total _
    refine (exact_bind exact_u32 fun word => exact_require_bind fun _ => exact_require_bind
      fun htotal => exact_bind (ih (index + 1) _ htotal) fun hunks => exact_pure _).congr
      fun c hunks b => ?_
    constructor
    · rintro ⟨word, b₁, b₂, rfl, ⟨hword, rfl⟩, hflags, htotal, hunks, b₃, b₄, rfl,
        ⟨rfl, hindices, hall, hsum, rfl⟩, rfl, rfl⟩
      have hkind : memoryFlags (memoryOf (word / 2 ^ 30)) = word / 2 ^ 30 :=
        memoryFlags_memoryOf (by omega)
      have hdescriptor : descriptor ⟨index, word % 2 ^ 30 * 4, .bss, memoryOf (word / 2 ^ 30), [],
          [], []⟩ = long word := by
        rw [descriptor, hkind, Nat.mul_div_cancel _ (by decide), Nat.div_add_mod']
      refine ⟨rfl, ?_, List.forall_mem_cons.mpr ⟨⟨rfl, ?_⟩, hall⟩, ?_, ?_⟩
      · rw [List.map_cons, hindices, List.range'_succ]
      · exact Nat.mul_mod_left _ _
      · rw [List.map_cons, List.sum_cons, ← Nat.add_assoc]
        exact hsum
      · rw [List.flatMap_cons, hdescriptor, List.append_nil]
    · rintro ⟨hlength, hindices, hall, hsum, rfl⟩
      obtain ⟨h, hunks, rfl⟩ := List.exists_cons_of_length_eq_add_one hlength
      obtain ⟨⟨hblank, hmod⟩, hall⟩ := List.forall_mem_cons.mp hall
      rw [List.map_cons, List.sum_cons, ← Nat.add_assoc] at hsum
      rw [List.map_cons, List.range'_succ] at hindices
      obtain ⟨hindex, hindices⟩ := List.cons.inj hindices
      have hflags := memoryFlags_lt h.memory
      have hword : memoryFlags h.memory * 2 ^ 30 + h.size / 4 < 2 ^ 32 := by omega
      have hquot : (memoryFlags h.memory * 2 ^ 30 + h.size / 4) / 2 ^ 30 =
          memoryFlags h.memory := by
        omega
      have hsize : (memoryFlags h.memory * 2 ^ 30 + h.size / 4) % 2 ^ 30 * 4 = h.size := by omega
      refine ⟨_, _, _, rfl, ⟨hword, rfl⟩, ?_⟩
      rw [hquot, hsize, memoryOf_memoryFlags]
      refine ⟨by omega, by omega, hunks, _, [], (List.append_nil _).symm,
        ⟨Nat.succ.inj hlength, hindices, hall, hsum, rfl⟩, ?_, rfl⟩
      rw [← hindex]
      exact congrArg (· :: hunks) hblank.symm

/-- The header of a file of the format. -/
theorem exact_readHeader :
    Exact readHeader fun _ hunks b => (hunks ≠ [] ∧ hunks.length ≤ 256) ∧
      hunks.map Hunk.index = List.range hunks.length ∧
      (∀ h ∈ hunks, blank h = h ∧ h.size % 4 = 0) ∧
      (hunks.map Hunk.size).sum ≤ 8 * 1024 * 1024 ∧ b = header hunks := by
  refine (exact_bind exact_u32 fun magic => exact_require_bind fun _ => exact_bind exact_u32
    fun libraries => exact_require_bind fun _ => exact_bind exact_u32 fun count => exact_bind
    exact_u32 fun first => exact_bind exact_u32 fun last => exact_require_bind fun _ =>
    exact_readTable count 0 0 (by decide)).congr fun c hunks b => ?_
  constructor
  · rintro ⟨magic, b₁, b₂, rfl, ⟨-, rfl⟩, rfl, libraries, b₃, b₄, rfl, ⟨-, rfl⟩, rfl, count, b₅,
      b₆, rfl, ⟨-, rfl⟩, first, b₇, b₈, rfl, ⟨-, rfl⟩, last, b₉, b₁₀, rfl, ⟨-, rfl⟩, htable, rfl,
      hindices, hall, hsum, rfl⟩
    rw [Nat.zero_add] at hsum
    have hfirst : first = 0 := by omega
    have hlast : last = hunks.length - 1 := by omega
    refine ⟨⟨fun hnil => ?_, by omega⟩, ?_, hall, hsum, ?_⟩
    · rw [hnil] at htable
      exact htable (.inl rfl)
    · rw [hindices, List.range_eq_range']
    · rw [hfirst, hlast]
      simp only [header, List.append_assoc]
  · rintro ⟨⟨hne, hcount⟩, hindices, hall, hsum, rfl⟩
    have hpos := List.length_pos_of_ne_nil hne
    rw [List.range_eq_range'] at hindices
    refine ⟨1011, long 1011, _, ?_, ⟨by decide, rfl⟩, rfl, 0, long 0, _, rfl, ⟨by decide, rfl⟩,
      rfl, hunks.length, long hunks.length, _, rfl, ⟨by omega, rfl⟩, 0, long 0, _, rfl,
      ⟨by decide, rfl⟩, hunks.length - 1, long (hunks.length - 1), hunks.flatMap descriptor, rfl,
      ⟨by omega, rfl⟩, by omega, rfl, hindices, hall, ?_, rfl⟩
    · simp only [header, List.append_assoc]
    · rwa [Nat.zero_add]

/-! ### The contents of the hunks -/

/-- What `readHunks` reads. -/
def HunksAt (count : Nat) : List Hunk → Nat → Nat → Grammar (List Hunk)
  | [], _, _ => fun _ hunks b => hunks = [] ∧ b = []
  | h :: table, relocationCount, symbolCount => fun c hunks b => ∃ t b₁ b₂, b = b₁ ++ b₂ ∧
      Chain (RecordAt count) ⟨h, false, [], relocationCount, symbolCount⟩ c t b₁ ∧
      ∃ hunks', HunksAt count table t.relocationCount t.symbolCount (c + b₁.length) hunks' b₂ ∧
        hunks = t.hunk :: hunks'

theorem exact_readHunks (count : Nat) (table : List Hunk) : ∀ relocationCount symbolCount : Nat,
    Exact (readHunks count table relocationCount symbolCount)
      (HunksAt count table relocationCount symbolCount) := by
  induction table with
  | nil => exact fun _ _ => exact_pure _
  | cons h table ih =>
    intro relocationCount symbolCount
    refine (exact_bind (exact_records count _) fun t => exact_bind (ih _ _) fun hunks =>
      exact_pure _).congr fun c hunks b => ?_
    constructor
    · rintro ⟨t, b₁, b₂, rfl, hchain, hunks, b₃, b₄, rfl, hrest, rfl, rfl⟩
      rw [List.append_nil]
      exact ⟨t, b₁, b₃, rfl, hchain, hunks, hrest, rfl⟩
    · rintro ⟨t, b₁, b₂, rfl, hchain, hunks, hrest, rfl⟩
      exact ⟨t, b₁, b₂, rfl, hchain, hunks, b₂, [], (List.append_nil _).symm, hrest, rfl, rfl⟩

/-- A hunk fills longwords. -/
theorem HunkBytes.length_mod {h : Hunk} {b : Bytes} (hb : HunkBytes h b) : b.length % 4 = 0 := by
  obtain ⟨records, flags, hvalid, -, -, -, rfl⟩ := hb
  have hrecords : (records.flatMap Flagged.bytes).length % 4 = 0 := by
    induction records with
    | nil => rfl
    | cons f records ih =>
      obtain ⟨hf, hrest⟩ := List.forall_mem_cons.mp hvalid
      have hbody := Record.length_body hf.2
      have hih := ih hrest
      rw [List.flatMap_cons, List.length_append, Flagged.bytes, List.length_append, length_long]
      omega
  rw [List.length_append, length_long]
  omega

/-- The payload fits, its size having been checked. -/
theorem HunkBytes.data_le {h : Hunk} {b : Bytes} (hb : HunkBytes h b) :
    h.data.length ≤ h.size := by
  obtain ⟨records, flags, hvalid, -, -, hhunk, -⟩ := hb
  have hfits (rs : List Flagged) : ∀ g : Hunk, (∀ f ∈ rs, f.record.Valid h.size) →
      g.data.length ≤ h.size →
      ((rs.map Flagged.record).foldl Record.apply g).data.length ≤ h.size := by
    induction rs with
    | nil => exact fun g _ hg => hg
    | cons f rs ih =>
      intro g hrs hg
      obtain ⟨hf, hrest⟩ := List.forall_mem_cons.mp hrs
      refine ih _ hrest ?_
      revert hf
      cases f.record with
      | comment _ _ | relocations _ _ _ | symbols _ => exact fun _ => hg
      | payload tag words content =>
        rintro ⟨-, -, hwords, hlength⟩
        change content.length ≤ h.size
        rw [hlength]
        split <;> omega
  have hdata := congrArg (fun g : Hunk => g.data.length) hhunk
  exact Nat.le_trans (Nat.le_of_eq hdata)
    (hfits records _ (fun f hf => (hvalid f hf).2) (Nat.zero_le h.size))

theorem sound_ended {count relocationCount symbolCount : Nat} {h : Hunk} {b : Bytes}
    (hb : HunkBytes h b) :
    Sound count (ended h relocationCount symbolCount) ↔ WellFormed count h ∧
      relocationCount + h.relocations.length ≤ 262144 ∧
      symbolCount + h.symbols.length ≤ 65536 :=
  ⟨fun hs => ⟨⟨hb.data_le, hs.relocations, hs.apart, hs.symbols⟩, hs.relocationCount,
      hs.symbolCount⟩,
    fun ⟨hw, hr, hs⟩ => ⟨rfl, hw.relocations, hw.apart, hw.symbols, hr, hs⟩⟩

/-- The hunks of the table are read with their contents, within the limits. -/
theorem hunksAt_iff {count : Nat} (table : List Hunk) : ∀ {relocationCount symbolCount c : Nat}
    {hunks : List Hunk} {b : Bytes}, (∀ h ∈ table, blank h = h) → c % 4 = 0 →
    relocationCount ≤ 262144 → symbolCount ≤ 65536 →
    (HunksAt count table relocationCount symbolCount c hunks b ↔
      ∃ bodies, b = bodies.flatten ∧ List.Forall₂ HunkBytes hunks bodies ∧
        hunks.map blank = table ∧ (∀ h ∈ hunks, WellFormed count h) ∧
        relocationCount + (hunks.map fun h => h.relocations.length).sum ≤ 262144 ∧
        symbolCount + (hunks.map fun h => h.symbols.length).sum ≤ 65536) := by
  induction table with
  | nil =>
    intro relocationCount symbolCount c hunks b _ _ hr hs
    constructor
    · rintro ⟨rfl, rfl⟩
      exact ⟨[], rfl, .nil, rfl, nofun, hr, hs⟩
    · rintro ⟨bodies, rfl, hbodies, htable, -⟩
      obtain rfl := List.map_eq_nil_iff.mp htable
      cases hbodies
      exact ⟨rfl, rfl⟩
  | cons h table ih =>
    intro relocationCount symbolCount c hunks b hblank hc hr hs
    obtain ⟨hfirst, hrest⟩ := List.forall_mem_cons.mp hblank
    have hbegun : (⟨h, false, [], relocationCount, symbolCount⟩ : Reading) =
        begun h relocationCount symbolCount := by
      rw [begun, hfirst]
    simp only [HunksAt, hbegun, chain_hunk hc hr hs]
    constructor
    · rintro ⟨t, b₁, b₂, rfl, ⟨hend, ht, hb, hsound⟩, hunks, hhunks, rfl⟩
      rw [hend] at hsound hhunks
      obtain ⟨hw, hr', hs'⟩ := (sound_ended hb).mp hsound
      have hb' := hb.length_mod
      obtain ⟨bodies, rfl, hbodies, htable, hall, hrsum, hssum⟩ :=
        (ih hrest (by omega) hr' hs').mp hhunks
      refine ⟨b₁ :: bodies, rfl, .cons hb hbodies, ?_, List.forall_mem_cons.mpr ⟨hw, hall⟩, ?_, ?_⟩
      · rw [List.map_cons, ht, hfirst, htable]
      · rw [List.map_cons, List.sum_cons, ← Nat.add_assoc]
        exact hrsum
      · rw [List.map_cons, List.sum_cons, ← Nat.add_assoc]
        exact hssum
    · rintro ⟨bodies, rfl, hbodies, htable, hall, hrsum, hssum⟩
      cases hbodies with
      | nil => cases htable
      | @cons g b₁ hunks bodies hb hbodies =>
        obtain ⟨hw, hall⟩ := List.forall_mem_cons.mp hall
        rw [List.map_cons, List.sum_cons, ← Nat.add_assoc] at hrsum hssum
        obtain ⟨hg, htable⟩ := List.cons.inj htable
        have hb' := hb.length_mod
        have hr' : relocationCount + g.relocations.length ≤ 262144 := by omega
        have hs' : symbolCount + g.symbols.length ≤ 65536 := by omega
        refine ⟨ended g relocationCount symbolCount, b₁, bodies.flatten, rfl,
          ⟨rfl, by rw [hfirst]; exact hg, hb, (sound_ended hb).mpr ⟨hw, hr', hs'⟩⟩, hunks, ?_, rfl⟩
        exact (ih hrest (by omega) hr' hs').mpr ⟨bodies, rfl, hbodies, htable, hall, hrsum, hssum⟩

/-! ### Files -/

theorem length_header (hunks : List Hunk) : (header hunks).length % 4 = 0 := by
  have htable : (hunks.flatMap descriptor).length % 4 = 0 := by
    induction hunks with
    | nil => rfl
    | cons h hunks ih =>
      rw [List.flatMap_cons, List.length_append, descriptor, length_long]
      omega
  simp only [header, List.length_append, length_long]
  omega

/-- The header depends on the table alone. -/
theorem header_blank (hunks : List Hunk) : header (hunks.map blank) = header hunks := by
  have htable : (hunks.map blank).flatMap descriptor = hunks.flatMap descriptor := by
    rw [List.flatMap_map]
    rfl
  rw [header, header, htable, List.length_map]

theorem map_blank {α : Type} (f : Hunk → α) (hf : ∀ h, f (blank h) = f h) (hunks : List Hunk) :
    (hunks.map blank).map f = hunks.map f := by
  rw [List.map_map]
  exact List.map_congr_left fun h _ => hf h

theorem forall_map_blank (hunks : List Hunk) :
    (∀ h ∈ hunks.map blank, blank h = h ∧ h.size % 4 = 0) ↔ ∀ h ∈ hunks, h.size % 4 = 0 := by
  rw [List.forall_mem_map]
  exact forall₂_congr fun h _ => and_iff_right rfl

/-- A file is read from the start to its end. -/
theorem exact_parseFile (length : Nat) :
    Exact (parseFile length) fun c hunks b => ∃ table b₁ b₂, b = b₁ ++ b₂ ∧
      ((table ≠ [] ∧ table.length ≤ 256) ∧ table.map Hunk.index = List.range table.length ∧
        (∀ h ∈ table, blank h = h ∧ h.size % 4 = 0) ∧
        (table.map Hunk.size).sum ≤ 8 * 1024 * 1024 ∧ b₁ = header table) ∧
      HunksAt table.length table 0 0 (c + b₁.length) hunks b₂ ∧
      c + b₁.length + b₂.length = length := by
  refine (exact_bind exact_readHeader fun table => exact_bind (exact_readHunks _ table 0 0)
    fun hunks => exact_bind exact_position fun cursor => exact_require_bind fun _ =>
      exact_pure _).congr fun c hunks b => ?_
  constructor
  · rintro ⟨table, b₁, b₂, rfl, htable, hunks, b₃, b₄, rfl, hhunks, cursor, b₅, b₆, rfl,
      ⟨rfl, rfl⟩, hend, rfl, rfl⟩
    rw [List.append_nil, List.append_nil]
    exact ⟨table, b₁, b₃, rfl, htable, hhunks, hend⟩
  · rintro ⟨table, b₁, b₂, rfl, htable, hhunks, hend⟩
    exact ⟨table, b₁, b₂, rfl, htable, hunks, b₂, [], (List.append_nil _).symm, hhunks, _, [], [],
      rfl, ⟨rfl, rfl⟩, hend, rfl, rfl⟩

/-- The parser returns the program that a file encodes. -/
theorem parseHunk_eq_ok_iff (data : Bytes) (hunks : List Hunk) :
    parseHunk data = .ok hunks ↔ Program hunks ∧ Encodes hunks data := by
  have hrun : parseHunk data = .ok hunks ↔
      ∃ j, parseFile data.length ⟨0, data⟩ = .ok (hunks, j) := by
    rw [parseHunk]
    cases parseFile data.length ⟨0, data⟩ with
    | error e =>
      constructor
      · intro h
        cases h
      · rintro ⟨j, h⟩
        cases h
    | ok r =>
      constructor
      · intro h
        cases h
        exact ⟨r.2, rfl⟩
      · rintro ⟨j, h⟩
        cases h
        rfl
  simp only [hrun, exact_parseFile data.length _ _ _]
  have hplace (table : List Hunk) : (0 + (header table).length) % 4 = 0 := by
    rw [Nat.zero_add]
    exact length_header table
  constructor
  · rintro ⟨j, b, hrest, -, table, b₁, b₂, rfl, ⟨⟨hne, hcount⟩, hindices, hall, htotal, rfl⟩,
      hhunks, hend⟩
    obtain ⟨bodies, rfl, hbodies, rfl, hwell, hr, hs⟩ := (hunksAt_iff table
      (fun h hh => (hall h hh).1) (hplace table) (Nat.zero_le _) (Nat.zero_le _)).mp hhunks
    rw [Nat.zero_add] at hr hs
    rw [List.length_map] at hcount hindices hwell
    rw [map_blank _ fun _ => rfl] at hindices htotal
    rw [header_blank] at hrest hend
    have hnil : j.rest = [] := by
      have hlength := congrArg List.length hrest
      rw [List.length_append, List.length_append] at hlength
      exact List.length_eq_zero_iff.mp (by omega)
    rw [hnil, List.append_nil] at hrest
    exact ⟨⟨⟨fun h => hne (congrArg (List.map blank) h), hcount, hindices,
      (forall_map_blank hunks).mp hall, htotal, hwell⟩, hr, hs⟩, bodies, hrest, hbodies⟩
  · rintro ⟨hprogram, bodies, rfl, hbodies⟩
    have htable : ∀ h ∈ hunks.map blank, blank h = h ∧ h.size % 4 = 0 :=
      (forall_map_blank hunks).mpr hprogram.sizes
    refine ⟨⟨(header hunks ++ bodies.flatten).length, []⟩, _, (List.append_nil _).symm,
      (Nat.zero_add _).symm, hunks.map blank, header hunks, bodies.flatten, rfl,
      ⟨⟨?_, ?_⟩, ?_, htable, ?_, (header_blank hunks).symm⟩, ?_, ?_⟩
    · exact fun h => hprogram.nonempty (List.map_eq_nil_iff.mp h)
    · rw [List.length_map]
      exact hprogram.count
    · rw [map_blank _ fun _ => rfl, List.length_map]
      exact hprogram.indices
    · rw [map_blank _ fun _ => rfl]
      exact hprogram.total
    · refine (hunksAt_iff _ (fun h hh => (htable h hh).1) (hplace hunks) (Nat.zero_le _)
        (Nat.zero_le _)).mpr ⟨bodies, rfl, hbodies, rfl, ?_, ?_, ?_⟩
      · rw [List.length_map]
        exact hprogram.wellFormed
      · rw [Nat.zero_add]
        exact hprogram.relocations
      · rw [Nat.zero_add]
        exact hprogram.symbols
    · rw [Nat.zero_add, List.length_append]

/-! ### Other bytes -/

theorem live_u32 : Live u32 := live_bind (live_take _ 4) fun _ => live_pure _

theorem live_number (tag : Nat) : Live (number tag) := by
  unfold number
  split
  · exact live_u32
  · exact live_bind (live_take _ 2) fun _ => live_pure _

theorem live_readOffsets (tag target n : Nat) : ∀ r, Live (readOffsets tag target n r) := by
  induction n with
  | zero => exact fun r => live_pure r
  | succ n ih =>
    exact fun r => live_bind (live_number tag) fun _ => live_bind (live_require _ _) fun _ => ih _

theorem live_readGroup (count tag : Nat) (r : Reading) : Live (readGroup count tag r) :=
  live_bind (live_number tag) fun _ => live_ite (live_pure _) <|
    live_bind (live_require _ _) fun _ => live_bind (live_number tag) fun _ =>
      live_bind (live_require _ _) fun _ => live_bind (live_readOffsets tag _ _ _) fun _ =>
        live_pure _

theorem live_readSymbol (r : Reading) : Live (readSymbol r) :=
  live_bind live_u32 fun _ => live_ite (live_pure _) <|
    live_bind (live_require _ _) fun _ => live_bind (live_take _ _) fun _ =>
      live_bind live_u32 fun _ => live_bind (live_require _ _) fun _ => live_pure _

theorem live_readRecord (count : Nat) (r : Reading) : Live (readRecord count r) := by
  refine live_bind live_u32 fun word => ?_
  refine live_ite ?_ (live_ite ?_ (live_ite ?_ (live_ite ?_ (live_ite (live_pure _)
    (live_raise _)))))
  · exact live_bind live_u32 fun _ => live_bind (live_take _ _) fun _ => live_pure _
  · exact live_bind (live_require _ _) fun _ => live_bind live_u32 fun _ =>
      live_bind (live_require _ _) fun _ => live_bind (live_take _ _) fun _ => live_pure _
  · refine live_bind (live_require _ _) fun _ => live_bind ?_ fun _ => live_bind ?_ fun _ =>
      live_pure _
    · exact live_iterate (live_readGroup count _) (exact_readGroup count _)
        (turn_ne_nil (Group.bytes_ne_nil _)) r
    · exact live_bind live_position fun _ => live_ite
        (live_bind (live_take _ 2) fun _ => live_pure _) (live_pure _)
  · refine live_bind (live_require _ _) fun _ => live_bind ?_ fun _ => live_pure _
    exact live_iterate live_readSymbol exact_readSymbol
      (turn_ne_nil fun _ => long_append_ne_nil _ _) r

theorem live_readTable (left : Nat) : ∀ index total, Live (readTable left index total) := by
  induction left with
  | zero => exact fun _ _ => live_pure _
  | succ left ih =>
    exact fun index total => live_bind live_u32 fun _ => live_bind (live_require _ _) fun _ =>
      live_bind (live_require _ _) fun _ => live_bind (ih _ _) fun _ => live_pure _

theorem live_readHeader : Live readHeader :=
  live_bind live_u32 fun _ => live_bind (live_require _ _) fun _ => live_bind live_u32 fun _ =>
    live_bind (live_require _ _) fun _ => live_bind live_u32 fun count => live_bind live_u32
      fun _ => live_bind live_u32 fun _ => live_bind (live_require _ _) fun _ =>
        live_readTable count 0 0

theorem live_readHunks (count : Nat) (table : List Hunk) : ∀ relocationCount symbolCount,
    Live (readHunks count table relocationCount symbolCount) := by
  induction table with
  | nil => exact fun _ _ => live_pure _
  | cons h table ih =>
    intro relocationCount symbolCount
    refine live_bind (live_iterate (live_readRecord count) (exact_readRecord count) ?_ _)
      fun _ => live_bind (ih _ _) fun _ => live_pure _
    exact recordAt_ne_nil count

/-- The parser ends, with a program or with `DebugError`. -/
theorem parseHunk_ne_stuck (data : Bytes) : parseHunk data ≠ .error .stuck := by
  have hlive : Live (parseFile data.length) :=
    live_bind live_readHeader fun _ => live_bind (live_readHunks _ _ 0 0) fun _ =>
      live_bind live_position fun _ => live_bind (live_require _ _) fun _ => live_pure _
  intro h
  rw [parseHunk] at h
  cases hrun : parseFile data.length ⟨0, data⟩ with
  | error e =>
    rw [hrun] at h
    cases h
    exact hlive _ hrun
  | ok r =>
    rw [hrun] at h
    cases h

/-- The parser is exact: it returns the programs within its limits, each from every file that
encodes it, and raises `DebugError` for any other bytes. -/
theorem parseHunk_exact (data : Bytes) :
    (∀ hunks, Program hunks → Encodes hunks data → parseHunk data = .ok hunks) ∧
      ((¬ ∃ hunks, Program hunks ∧ Encodes hunks data) →
        ∃ e, parseHunk data = .error (.raised e)) ∧
      ∀ hunks, parseHunk data = .ok hunks →
        Program hunks ∧ Encodes hunks data ∧ ∀ h ∈ hunks, WellFormed hunks.length h := by
  have hiff := parseHunk_eq_ok_iff data
  refine ⟨fun hunks hp he => (hiff hunks).mpr ⟨hp, he⟩, fun hnone => ?_, fun hunks h => ?_⟩
  · cases hparse : parseHunk data with
    | ok hunks => exact absurd ⟨hunks, (hiff hunks).mp hparse⟩ hnone
    | error failure =>
      cases failure with
      | raised e => exact ⟨e, rfl⟩
      | stuck => exact absurd hparse (parseHunk_ne_stuck data)
  · obtain ⟨hp, he⟩ := (hiff hunks).mp h
    exact ⟨hp, he, hp.wellFormed⟩

/-- A symbol `a` at the start of its hunk. -/
def symbolA : Definition := ⟨[97, 0, 0, 0], 0⟩

/-- An empty hunk with the symbol `n` times. -/
def manySymbols (n : Nat) : Hunk := ⟨0, 0, .code, .any, [], [], List.replicate n ("a".toList, 0)⟩

theorem encodes_manySymbols (n : Nat) : ∃ data, Encodes [manySymbols n] data := by
  refine ⟨_, [_], rfl, .cons ⟨[⟨0, .payload 1001 0 []⟩, ⟨0, .symbols (List.replicate n symbolA)⟩],
    0, ?_, by decide, ?_, ?_, rfl⟩ .nil⟩
  · have hsymbols : ∀ d ∈ List.replicate n symbolA, d.Valid := by
      intro d hd
      rw [List.eq_of_mem_replicate hd]
      exact ⟨by decide, by decide, by decide, by decide⟩
    rw [List.forall_mem_cons, List.forall_mem_singleton]
    exact ⟨⟨Nat.succ_pos 3, .inl rfl, by decide, Nat.le_refl 0, rfl⟩, Nat.succ_pos 3, hsymbols⟩
  · exact ⟨[], _, _, rfl, nofun, rfl, List.forall_mem_singleton.mpr rfl⟩
  · have hnames : (List.replicate n symbolA).map (fun d => (d.name, d.offset)) =
        List.replicate n ("a".toList, 0) := by
      rw [List.map_replicate]
      rfl
    change manySymbols n = { manySymbols n with
      symbols := [] ++ (List.replicate n symbolA).map fun d => (d.name, d.offset) }
    rw [hnames]
    rfl

/-- A program with 65537 symbols is refused, however small it is. -/
theorem parseHunk_refuses_symbols :
    ¬ ∀ hunks data, Sized hunks → Encodes hunks data → parseHunk data = .ok hunks := by
  intro hall
  obtain ⟨data, hdata⟩ := encodes_manySymbols 65537
  have hsized : Sized [manySymbols 65537] := by
    refine ⟨List.cons_ne_nil _ _, by decide, rfl, ?_, by decide, ?_⟩
    · exact List.forall_mem_singleton.mpr rfl
    · rw [List.forall_mem_singleton]
      refine ⟨Nat.le_refl 0, nofun, List.Pairwise.nil, fun s hs => ?_⟩
      rw [List.eq_of_mem_replicate hs]
      exact ⟨by decide, Nat.le_refl 0⟩
  have hlimit := ((parseHunk_eq_ok_iff data _).mp (hall _ data hsized hdata)).1.symbols
  rw [List.map_singleton, List.sum_singleton, manySymbols, List.length_replicate] at hlimit
  exact absurd hlimit (by decide)

end HunkFormat

end AmigaDevbench.Winuae
