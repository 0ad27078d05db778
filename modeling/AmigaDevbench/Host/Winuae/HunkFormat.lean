import AmigaDevbench.Host.Winuae.Hunk

/-!
# The hunk format

A hunk file is a table of sizes and, for each hunk, a list of records. The format fixes the bytes
of a record up to its flags and its padding; the parser reads exactly the files of this format that
keep its limits.
-/

namespace AmigaDevbench.Winuae

open Decoder

namespace HunkFormat

/-! ### Records -/

/-- A longword. -/
def long (n : Nat) : Bytes := Bytes.bigEndian 4 n

/-- A field of a relocation record is a longword, or a word in the short forms. -/
def fieldWidth (tag : Nat) : Nat := if tag = 1004 then 4 else 2

def field (tag n : Nat) : Bytes := Bytes.bigEndian (fieldWidth tag) n

/-- Relocations of one hunk against another. -/
structure Group where
  target : Nat
  offsets : List Nat

def Group.bytes (tag : Nat) (g : Group) : Bytes :=
  field tag g.offsets.length ++ (field tag g.target ++ g.offsets.flatMap (field tag))

/-- The fields of the group have values, and a group has an offset. -/
structure Group.Valid (tag : Nat) (g : Group) : Prop where
  nonempty : g.offsets.length ≠ 0
  length : g.offsets.length < 256 ^ fieldWidth tag
  target : g.target < 256 ^ fieldWidth tag
  offsets : ∀ o ∈ g.offsets, o < 256 ^ fieldWidth tag

/-- A symbol, its name padded to longwords. -/
structure Definition where
  raw : Bytes
  offset : Nat

namespace Definition

def bytes (d : Definition) : Bytes := long (d.raw.length / 4) ++ (d.raw ++ long d.offset)

/-- The text before the padding. -/
def name (d : Definition) : Text := Bytes.latin1 (d.raw.takeWhile (· ≠ 0))

structure Valid (d : Definition) : Prop where
  nonempty : d.raw.length / 4 ≠ 0
  longwords : d.raw.length % 4 = 0
  length : d.raw.length / 4 ≤ 256
  offset : d.offset < 2 ^ 32

end Definition

/-- The records of a hunk, with their tags. -/
inductive Record where
  /-- HUNK_NAME, HUNK_DEBUG. -/
  | comment (tag : Nat) (content : Bytes)
  /-- HUNK_CODE, HUNK_DATA; HUNK_BSS, which has a size and no content. -/
  | payload (tag words : Nat) (content : Bytes)
  /-- HUNK_RELOC32, HUNK_RELOC32SHORT and its historical number. -/
  | relocations (tag : Nat) (groups : List Group) (padding : Bytes)
  /-- HUNK_SYMBOL. -/
  | symbols (definitions : List Definition)

namespace Record

def tag : Record → Nat
  | .comment tag _ | .payload tag _ _ | .relocations tag _ _ => tag
  | .symbols _ => 1008

/-- What stands behind the tag. -/
def body : Record → Bytes
  | .comment _ content => long (content.length / 4) ++ content
  | .payload _ words content => long words ++ content
  | .relocations tag groups padding => groups.flatMap (Group.bytes tag) ++ field tag 0 ++ padding
  | .symbols definitions => definitions.flatMap Definition.bytes ++ long 0

/-- The record as it is laid out, for a hunk of the given size. -/
def Valid (size : Nat) : Record → Prop
  | .comment tag content =>
    (tag = 1000 ∨ tag = 1009) ∧ content.length % 4 = 0 ∧ content.length / 4 < 2 ^ 32
  | .payload tag words content =>
    (tag = 1001 ∨ tag = 1002 ∨ tag = 1003) ∧ words < 2 ^ 32 ∧ words * 4 ≤ size ∧
      content.length = if tag = 1003 then 0 else words * 4
  | .relocations tag groups padding =>
    (tag = 1004 ∨ tag = 1015 ∨ tag = 1020) ∧ (∀ g ∈ groups, g.Valid tag) ∧
      padding.length =
        if (groups.flatMap (Group.bytes tag) ++ field tag 0).length % 4 = 0 then 0 else 2
  | .symbols definitions => ∀ d ∈ definitions, d.Valid

/-- What the record adds to its hunk. -/
def apply (h : Hunk) : Record → Hunk
  | .comment _ _ => h
  | .payload tag _ content => { h with kind := payloadKind tag, data := content }
  | .relocations _ groups _ =>
    { h with relocations := h.relocations ++ groups.flatMap fun g => g.offsets.map (·, g.target) }
  | .symbols definitions =>
    { h with symbols := h.symbols ++ definitions.map fun d => (d.name, d.offset) }

def isComment : Record → Bool
  | .comment _ _ => true
  | .payload _ _ _ | .relocations _ _ _ | .symbols _ => false

def isPayload : Record → Bool
  | .payload _ _ _ => true
  | .comment _ _ | .relocations _ _ _ | .symbols _ => false

end Record

/-- A tag has two bits of flags, which are without meaning. -/
structure Flagged where
  flags : Nat
  record : Record

def Flagged.bytes (f : Flagged) : Bytes := long (f.flags * 2 ^ 30 + f.record.tag) ++ f.record.body

/-- One payload, before it comments only. -/
def Ordered (records : List Record) : Prop :=
  ∃ before payload after, records = before ++ payload :: after ∧
    (∀ r ∈ before, r.isComment = true) ∧ payload.isPayload = true ∧
    ∀ r ∈ after, r.isPayload = false

/-- The bytes of a hunk: its records and HUNK_END. -/
def HunkBytes (h : Hunk) (b : Bytes) : Prop :=
  ∃ (records : List Flagged) (flags : Nat),
    (∀ f ∈ records, f.flags < 4 ∧ f.record.Valid h.size) ∧ flags < 4 ∧
    Ordered (records.map Flagged.record) ∧
    h = (records.map Flagged.record).foldl Record.apply
      ⟨h.index, h.size, .bss, h.memory, [], [], []⟩ ∧
    b = records.flatMap Flagged.bytes ++ long (flags * 2 ^ 30 + 1010)

/-! ### Files -/

/-- The memory flags in the table. -/
def memoryFlags : HunkMemory → Nat
  | .any => 0
  | .chip => 1
  | .fast => 2

/-- The entry of a hunk in the table. -/
def descriptor (h : Hunk) : Bytes := long (memoryFlags h.memory * 2 ^ 30 + h.size / 4)

def header (hunks : List Hunk) : Bytes :=
  long 1011 ++ long 0 ++ long hunks.length ++ long 0 ++ long (hunks.length - 1) ++
    hunks.flatMap descriptor

/-- The payload fits its hunk; the relocated longwords are even, inside the hunk and apart, with
targets that exist; symbols have names and lie in the hunk. -/
structure WellFormed (count : Nat) (h : Hunk) : Prop where
  data : h.data.length ≤ h.size
  relocations : ∀ q ∈ h.relocations, q.1 % 2 = 0 ∧ q.1 + 4 ≤ h.size ∧ q.2 < count
  apart : h.relocations.Pairwise fun p q => p.1 + 4 ≤ q.1 ∨ q.1 + 4 ≤ p.1
  symbols : ∀ s ∈ h.symbols, s.1 ≠ [] ∧ s.2 ≤ h.size

/-- A program of at most 256 hunks and 8 MiB. -/
structure Sized (hunks : List Hunk) : Prop where
  nonempty : hunks ≠ []
  count : hunks.length ≤ 256
  indices : hunks.map Hunk.index = List.range hunks.length
  sizes : ∀ h ∈ hunks, h.size % 4 = 0
  total : (hunks.map Hunk.size).sum ≤ 8 * 1024 * 1024
  wellFormed : ∀ h ∈ hunks, WellFormed hunks.length h

/-- A program within the limits of the parser, which also bound its relocations and symbols. -/
structure Program (hunks : List Hunk) : Prop extends Sized hunks where
  relocations : (hunks.map fun h => h.relocations.length).sum ≤ 262144
  symbols : (hunks.map fun h => h.symbols.length).sum ≤ 65536

/-- The bytes of a program. -/
def Encodes (hunks : List Hunk) (data : Bytes) : Prop :=
  ∃ bodies, data = header hunks ++ bodies.flatten ∧ List.Forall₂ HunkBytes hunks bodies

/-! ### The parser reads the format -/

theorem exact_numberOf (width : Nat) :
    Exact (do let bytes ← takeBytes width; return Bytes.fromBigEndian bytes)
      fun _ n b => n < 256 ^ width ∧ b = Bytes.bigEndian width n := by
  refine (exact_bind (exact_take _ width) fun bytes => exact_pure _).congr ?_
  intro c n b
  constructor
  · rintro ⟨bytes, b₁, b₂, rfl, ⟨rfl, rfl⟩, rfl, rfl⟩
    rw [List.append_nil, Bytes.bigEndian_fromBigEndian]
    exact ⟨Bytes.fromBigEndian_lt _, rfl⟩
  · rintro ⟨hlt, rfl⟩
    exact ⟨_, _, [], (List.append_nil _).symm, ⟨rfl, Bytes.length_bigEndian _ _⟩,
      (Bytes.fromBigEndian_bigEndian hlt).symm, rfl⟩

theorem exact_u32 : Exact u32 fun _ n b => n < 2 ^ 32 ∧ b = long n := exact_numberOf 4

theorem exact_number (tag : Nat) :
    Exact (number tag) fun _ n b => n < 256 ^ fieldWidth tag ∧ b = field tag n := by
  unfold number field fieldWidth
  split
  · exact exact_numberOf 4
  · exact exact_numberOf 2

theorem length_long (n : Nat) : (long n).length = 4 := Bytes.length_bigEndian 4 n

theorem length_field (tag n : Nat) : (field tag n).length = fieldWidth tag :=
  Bytes.length_bigEndian _ n

/-- A group is read offset by offset. -/
theorem exact_readOffsets (tag target n : Nat) : ∀ r : Reading,
    Exact (readOffsets tag target n r) fun _ t b => ∃ offsets : List Nat,
      offsets.length = n ∧ (∀ o ∈ offsets, o < 256 ^ fieldWidth tag) ∧
      AllAlong (fun r o => r.relocate o target) Reading.Accepts r offsets ∧
      t = offsets.foldl (fun r o => r.relocate o target) r ∧ b = offsets.flatMap (field tag) := by
  induction n with
  | zero =>
    intro r
    refine (exact_pure r).congr fun c t b => ?_
    constructor
    · rintro ⟨rfl, rfl⟩
      exact ⟨[], rfl, nofun, trivial, rfl, rfl⟩
    · rintro ⟨offsets, hlength, -, -, rfl, rfl⟩
      rw [List.length_eq_zero_iff.mp hlength]
      exact ⟨rfl, rfl⟩
  | succ n ih =>
    intro r
    refine (exact_bind (exact_number tag) fun offset => exact_require_bind fun _ => ih _).congr ?_
    intro c t b
    constructor
    · rintro ⟨offset, b₁, b₂, rfl, ⟨hlt, rfl⟩, haccepts, offsets, rfl, hall, hoffsets, rfl, rfl⟩
      exact ⟨offset :: offsets, rfl, List.forall_mem_cons.mpr ⟨hlt, hall⟩, ⟨haccepts, hoffsets⟩,
        rfl, rfl⟩
    · rintro ⟨offsets, hlength, hall, hoffsets, rfl, rfl⟩
      obtain ⟨offset, offsets, rfl⟩ := List.exists_cons_of_length_eq_add_one hlength
      obtain ⟨hlt, hall⟩ := List.forall_mem_cons.mp hall
      exact ⟨offset, _, _, rfl, ⟨hlt, rfl⟩, hoffsets.1, offsets, Nat.succ.inj hlength, hall,
        hoffsets.2, rfl, rfl⟩

/-- The group is added to what is read. -/
def Group.read (r : Reading) (g : Group) : Reading :=
  g.offsets.foldl (fun r o => r.relocate o g.target)
    { r with relocationCount := r.relocationCount + g.offsets.length }

/-- The parser accepts the group. -/
def Group.Fits (count : Nat) (r : Reading) (g : Group) : Prop :=
  r.relocationCount + g.offsets.length ≤ 262144 ∧ g.target < count ∧
    AllAlong (fun r o => r.relocate o g.target) Reading.Accepts
      { r with relocationCount := r.relocationCount + g.offsets.length } g.offsets

theorem exact_readGroup (count tag : Nat) (r : Reading) :
    Exact (readGroup count tag r) (Turn Group.read (fun r g => g.Valid tag ∧ g.Fits count r)
      (Group.bytes tag) (fun _ b => b = field tag 0) r) := by
  refine (exact_bind (exact_number tag) fun n => exact_ite (fun _ => exact_pure _) fun _ =>
    exact_require_bind fun _ => exact_bind (exact_number tag) fun target =>
      exact_require_bind fun _ => exact_bind (exact_readOffsets tag target n _) fun t =>
        exact_pure _).congr ?_
  intro c x b
  constructor
  · rintro ⟨n, b₁, b₂, rfl, ⟨hn, rfl⟩, hrest⟩
    split at hrest
    · rename_i hzero
      obtain ⟨rfl, rfl⟩ := hrest
      rw [hzero, List.append_nil]
      exact .inl ⟨rfl, rfl⟩
    · rename_i hne
      obtain ⟨hbudget, target, b₃, b₄, rfl, ⟨ht, rfl⟩, htarget, t, b₅, b₆, rfl,
        ⟨offsets, rfl, hall, hoffsets, rfl, rfl⟩, rfl, rfl⟩ := hrest
      rw [List.append_nil]
      exact .inr ⟨⟨target, offsets⟩, ⟨⟨hne, hn, ht, hall⟩, hbudget, htarget, hoffsets⟩, rfl, rfl⟩
  · rintro (⟨rfl, rfl⟩ | ⟨⟨target, offsets⟩, ⟨⟨hne, hn, ht, hall⟩, hbudget, htarget, hoffsets⟩,
      rfl, rfl⟩)
    · refine ⟨0, field tag 0, [], (List.append_nil _).symm, ⟨Nat.pow_pos (by decide), rfl⟩, ?_⟩
      rw [if_pos rfl]
      exact ⟨rfl, rfl⟩
    · refine ⟨offsets.length, _, _, rfl, ⟨hn, rfl⟩, ?_⟩
      rw [if_neg hne]
      exact ⟨hbudget, target, _, _, rfl, ⟨ht, rfl⟩, htarget, _, _, [],
        (List.append_nil _).symm, ⟨offsets, rfl, hall, hoffsets, rfl, rfl⟩, rfl, rfl⟩

theorem length_field_pos (tag n : Nat) : 0 < (field tag n).length := by
  rw [length_field, fieldWidth]
  split <;> decide

theorem Group.bytes_ne_nil (tag : Nat) (g : Group) : g.bytes tag ≠ [] := by
  have hpos := length_field_pos tag g.offsets.length
  rw [Group.bytes, ← List.length_pos_iff, List.length_append]
  omega

/-- The groups of a record, up to the empty one. -/
theorem exact_groups (count tag : Nat) (r : Reading) :
    Exact (iterate (readGroup count tag) r) fun _ t b => ∃ (groups : List Group) (ending : Bytes),
      AllAlong Group.read (fun r g => g.Valid tag ∧ g.Fits count r) r groups ∧
      t = groups.foldl Group.read r ∧ ending = field tag 0 ∧
      b = groups.flatMap (Group.bytes tag) ++ ending :=
  exact_items (exact_readGroup count tag) (Group.bytes_ne_nil tag) r

/-- The symbol is added to what is read. -/
def Definition.read (r : Reading) (d : Definition) : Reading := r.define d.name d.offset

/-- The parser accepts the symbol. -/
def Definition.Fits (r : Reading) (d : Definition) : Prop :=
  r.symbolCount + 1 ≤ 65536 ∧ d.name ≠ [] ∧ d.offset ≤ r.hunk.size

theorem exact_readSymbol (r : Reading) :
    Exact (readSymbol r) (Turn Definition.read (fun r d => d.Valid ∧ d.Fits r) Definition.bytes
      (fun _ b => b = long 0) r) := by
  refine (exact_bind exact_u32 fun n => exact_ite (fun _ => exact_pure _) fun _ =>
    exact_require_bind fun _ => exact_bind (exact_take _ _) fun raw => exact_bind exact_u32
      fun offset => exact_require_bind fun _ => exact_pure _).congr ?_
  intro c x b
  constructor
  · rintro ⟨words, b₁, b₂, rfl, ⟨hwords, rfl⟩, hrest⟩
    split at hrest
    · rename_i hzero
      obtain ⟨rfl, rfl⟩ := hrest
      rw [hzero, List.append_nil]
      exact .inl ⟨rfl, rfl⟩
    · rename_i hne
      obtain ⟨⟨hbudget, hlimit⟩, raw, b₃, b₄, rfl, ⟨rfl, hlength⟩, offset, b₅, b₆, rfl,
        ⟨hoffset, rfl⟩, ⟨hname, hinside⟩, rfl, rfl⟩ := hrest
      have hdiv : raw.length / 4 = words := by omega
      refine .inr ⟨⟨raw, offset⟩, ⟨⟨?_, ?_, ?_, hoffset⟩, hbudget, hname, hinside⟩, rfl, ?_⟩
      · rwa [hdiv]
      · change raw.length % 4 = 0
        omega
      · rwa [hdiv]
      · rw [List.append_nil, Definition.bytes, hdiv]
  · rintro (⟨rfl, rfl⟩ | ⟨⟨raw, offset⟩, ⟨⟨hne, hmod, hlimit, hoffset⟩, hbudget, hname, hinside⟩,
      rfl, rfl⟩)
    · refine ⟨0, long 0, [], (List.append_nil _).symm, ⟨by decide, rfl⟩, ?_⟩
      rw [if_pos rfl]
      exact ⟨rfl, rfl⟩
    · have hlength : raw.length = raw.length / 4 * 4 := by
        change raw.length % 4 = 0 at hmod
        omega
      refine ⟨raw.length / 4, _, _, rfl, ⟨Nat.lt_of_le_of_lt hlimit (by decide), rfl⟩, ?_⟩
      rw [if_neg hne]
      exact ⟨⟨hbudget, hlimit⟩, raw, _, _, rfl, ⟨rfl, hlength⟩, offset, _, [],
        (List.append_nil _).symm, ⟨hoffset, rfl⟩, ⟨hname, hinside⟩, rfl, rfl⟩

theorem long_append_ne_nil (n : Nat) (b : Bytes) : long n ++ b ≠ [] := by
  rw [← List.length_pos_iff, List.length_append, length_long]
  omega

/-- The symbols of a record, up to the end mark. -/
theorem exact_symbols (r : Reading) :
    Exact (iterate readSymbol r) fun _ t b => ∃ (definitions : List Definition) (ending : Bytes),
      AllAlong Definition.read (fun r d => d.Valid ∧ d.Fits r) r definitions ∧
      t = definitions.foldl Definition.read r ∧ ending = long 0 ∧
      b = definitions.flatMap Definition.bytes ++ ending :=
  exact_items exact_readSymbol (fun _ => long_append_ne_nil _ _) r

namespace Record

/-- The record is added to what is read. -/
def read (r : Reading) : Record → Reading
  | .comment _ _ => r
  | .payload tag _ content => r.load (payloadKind tag) content
  | .relocations _ groups _ => groups.foldl Group.read r
  | .symbols definitions => definitions.foldl Definition.read r

/-- The parser accepts the record. -/
def Fits (count : Nat) (r : Reading) : Record → Prop
  | .comment _ _ => True
  | .payload _ _ _ => r.payload = false
  | .relocations _ groups _ => r.payload = true ∧ AllAlong Group.read (Group.Fits count) r groups
  | .symbols definitions =>
    r.payload = true ∧ AllAlong Definition.read Definition.Fits r definitions

end Record

theorem exact_readComment (r : Reading) :
    Exact (readComment r) fun _ x b => ∃ content : Bytes, content.length % 4 = 0 ∧
      content.length / 4 < 2 ^ 32 ∧ x = .inl r ∧ b = long (content.length / 4) ++ content := by
  refine (exact_bind exact_u32 fun words => exact_bind (exact_take _ _) fun _ =>
    exact_pure _).congr fun c x b => ?_
  constructor
  · rintro ⟨words, b₁, b₂, rfl, ⟨hwords, rfl⟩, content, b₃, b₄, rfl, ⟨rfl, hlength⟩, rfl, rfl⟩
    have hdiv : content.length / 4 = words := by omega
    refine ⟨content, by omega, ?_, rfl, ?_⟩
    · rwa [hdiv]
    · rw [hdiv, List.append_nil]
  · rintro ⟨content, hmod, hwords, rfl, rfl⟩
    exact ⟨_, _, _, rfl, ⟨hwords, rfl⟩, content, _, [], (List.append_nil _).symm,
      ⟨rfl, by omega⟩, rfl, rfl⟩

theorem exact_readPayload (tag : Nat) (r : Reading) :
    Exact (readPayload tag r) fun _ x b => ∃ words, ∃ content : Bytes, r.payload = false ∧
      words < 2 ^ 32 ∧ words * 4 ≤ r.hunk.size ∧
      content.length = (if tag = 1003 then 0 else words * 4) ∧
      x = .inl (r.load (payloadKind tag) content) ∧ b = long words ++ content := by
  refine (exact_require_bind fun _ => exact_bind exact_u32 fun words => exact_require_bind
    fun _ => exact_bind (exact_take _ _) fun _ => exact_pure _).congr fun c x b => ?_
  constructor
  · rintro ⟨hfirst, words, b₁, b₂, rfl, ⟨hwords, rfl⟩, hfits, content, b₃, b₄, rfl,
      ⟨rfl, hlength⟩, rfl, rfl⟩
    rw [List.append_nil]
    exact ⟨words, content, hfirst, hwords, hfits, hlength, rfl, rfl⟩
  · rintro ⟨words, content, hfirst, hwords, hfits, hlength, rfl, rfl⟩
    exact ⟨hfirst, words, _, _, rfl, ⟨hwords, rfl⟩, hfits, content, _, [],
      (List.append_nil _).symm, ⟨rfl, hlength⟩, rfl, rfl⟩

theorem exact_skipPadding (tag : Nat) :
    Exact (skipPadding tag) fun c _ b => b.length = if tag ≠ 1004 ∧ c % 4 ≠ 0 then 2 else 0 := by
  refine (exact_bind exact_position fun cursor => exact_ite (fun _ => exact_bind
    (exact_take _ 2) fun _ => exact_pure ()) fun _ => exact_pure ()).congr fun c x b => ?_
  constructor
  · rintro ⟨_, _, b₂, rfl, ⟨rfl, rfl⟩, hrest⟩
    split at hrest
    · rename_i hpad
      obtain ⟨padding, b₃, b₄, rfl, ⟨rfl, hlength⟩, -, rfl⟩ := hrest
      rw [if_pos hpad, List.nil_append, List.append_nil]
      exact hlength
    · rename_i hpad
      obtain ⟨-, rfl⟩ := hrest
      rw [if_neg hpad]
      rfl
  · intro hlength
    refine ⟨c, [], b, rfl, ⟨rfl, rfl⟩, ?_⟩
    split
    · rename_i hpad
      rw [if_pos hpad] at hlength
      exact ⟨b, b, [], (List.append_nil b).symm, ⟨rfl, hlength⟩, rfl, rfl⟩
    · rename_i hpad
      rw [if_neg hpad] at hlength
      exact ⟨rfl, List.length_eq_zero_iff.mp hlength⟩

theorem exact_readRelocations (count tag : Nat) (r : Reading) :
    Exact (readRelocations count tag r) fun c x b => ∃ (groups : List Group) (padding : Bytes),
      r.payload = true ∧ (∀ g ∈ groups, g.Valid tag) ∧
      AllAlong Group.read (Group.Fits count) r groups ∧
      padding.length = (if tag ≠ 1004 ∧
        (c + (groups.flatMap (Group.bytes tag) ++ field tag 0).length) % 4 ≠ 0 then 2 else 0) ∧
      x = .inl (groups.foldl Group.read r) ∧
      b = groups.flatMap (Group.bytes tag) ++ field tag 0 ++ padding := by
  refine (exact_require_bind fun _ => exact_bind (exact_groups count tag r) fun _ =>
    exact_bind (exact_skipPadding tag) fun _ => exact_pure _).congr fun c x b => ?_
  constructor
  · rintro ⟨hpayload, t, b₁, b₂, rfl, ⟨groups, ending, hgroups, rfl, rfl, rfl⟩, _, padding, b₃,
      rfl, hpadding, rfl, rfl⟩
    obtain ⟨hvalid, hfits⟩ := (allAlong_and_const groups r).mp hgroups
    rw [List.append_nil]
    exact ⟨groups, padding, hpayload, hvalid, hfits, hpadding, rfl, rfl⟩
  · rintro ⟨groups, padding, hpayload, hvalid, hfits, hpadding, rfl, rfl⟩
    exact ⟨hpayload, _, _, _, rfl, ⟨groups, _, (allAlong_and_const groups r).mpr ⟨hvalid, hfits⟩,
      rfl, rfl, rfl⟩, (), padding, [], (List.append_nil _).symm, hpadding, rfl, rfl⟩

theorem exact_readSymbols (r : Reading) :
    Exact (readSymbols r) fun _ x b => ∃ definitions : List Definition, r.payload = true ∧
      (∀ d ∈ definitions, d.Valid) ∧ AllAlong Definition.read Definition.Fits r definitions ∧
      x = .inl (definitions.foldl Definition.read r) ∧
      b = definitions.flatMap Definition.bytes ++ long 0 := by
  refine (exact_require_bind fun _ => exact_bind (exact_symbols r) fun _ =>
    exact_pure _).congr fun c x b => ?_
  constructor
  · rintro ⟨hpayload, t, b₁, b₂, rfl, ⟨definitions, ending, hdefinitions, rfl, rfl, rfl⟩, rfl,
      rfl⟩
    obtain ⟨hvalid, hfits⟩ := (allAlong_and_const definitions r).mp hdefinitions
    rw [List.append_nil]
    exact ⟨definitions, hpayload, hvalid, hfits, rfl, rfl⟩
  · rintro ⟨definitions, hpayload, hvalid, hfits, rfl, rfl⟩
    exact ⟨hpayload, _, _, [], (List.append_nil _).symm, ⟨definitions, _,
      (allAlong_and_const definitions r).mpr ⟨hvalid, hfits⟩, rfl, rfl, rfl⟩, rfl, rfl⟩

/-- The record as the parser finds it behind its tag, with padding for where it ends. -/
def Record.ValidAt (c size : Nat) : Record → Prop
  | .relocations tag groups padding =>
    (tag = 1004 ∨ tag = 1015 ∨ tag = 1020) ∧ (∀ g ∈ groups, g.Valid tag) ∧
      padding.length = if tag ≠ 1004 ∧
        (c + (groups.flatMap (Group.bytes tag) ++ field tag 0).length) % 4 ≠ 0 then 2 else 0
  | record => record.Valid size

/-- What stands behind a tag. -/
def BodyAt (count tag : Nat) (r : Reading) : Grammar (Reading ⊕ Reading) := fun c x b =>
  (x = .inr r ∧ r.payload = true ∧ tag = 1010 ∧ b = []) ∨
    ∃ record : Record, record.tag = tag ∧ record.ValidAt c r.hunk.size ∧ record.Fits count r ∧
      x = .inl (record.read r) ∧ b = record.body

/-- The part of `readRecord` behind the tag. -/
theorem exact_body (count tag : Nat) (r : Reading) :
    Exact (if tag = 1000 ∨ tag = 1009 then readComment r
      else if tag = 1001 ∨ tag = 1002 ∨ tag = 1003 then readPayload tag r
      else if tag = 1004 ∨ tag = 1015 ∨ tag = 1020 then readRelocations count tag r
      else if tag = 1008 then readSymbols r
      else if tag = 1010 ∧ r.payload = true then pure (.inr r)
      else raise ⟨s!"Unsupported hunk record {tag}"⟩) (BodyAt count tag r) := by
  refine (exact_ite (fun _ => exact_readComment r) fun _ =>
    exact_ite (fun _ => exact_readPayload tag r) fun _ =>
    exact_ite (fun _ => exact_readRelocations count tag r) fun _ =>
    exact_ite (fun _ => exact_readSymbols r) fun _ =>
    exact_ite (fun _ => exact_pure _) fun _ => exact_raise _).congr fun c x b => ?_
  constructor
  · intro h
    split at h
    · rename_i htag
      obtain ⟨content, hmod, hlength, rfl, rfl⟩ := h
      exact .inr ⟨.comment tag content, rfl, ⟨htag, hmod, hlength⟩, trivial, rfl, rfl⟩
    split at h
    · rename_i htag
      obtain ⟨words, content, hfirst, hwords, hfits, hlength, rfl, rfl⟩ := h
      exact .inr ⟨.payload tag words content, rfl, ⟨htag, hwords, hfits, hlength⟩, hfirst, rfl, rfl⟩
    split at h
    · rename_i htag
      obtain ⟨groups, padding, hpayload, hvalid, hfits, hpadding, rfl, rfl⟩ := h
      exact .inr ⟨.relocations tag groups padding, rfl, ⟨htag, hvalid, hpadding⟩,
        ⟨hpayload, hfits⟩, rfl, rfl⟩
    split at h
    · rename_i htag
      obtain ⟨definitions, hpayload, hvalid, hfits, rfl, rfl⟩ := h
      exact .inr ⟨.symbols definitions, htag.symm, hvalid, ⟨hpayload, hfits⟩, rfl, rfl⟩
    split at h
    · rename_i htag
      obtain ⟨rfl, rfl⟩ := h
      exact .inl ⟨rfl, htag.2, htag.1, rfl⟩
    · exact h.elim
  · rintro (⟨rfl, hpayload, rfl, rfl⟩ | ⟨record, htag, hvalid, hfits, rfl, rfl⟩)
    · rw [if_neg (by decide), if_neg (by decide), if_neg (by decide), if_neg (by decide),
        if_pos ⟨rfl, hpayload⟩]
      exact ⟨rfl, rfl⟩
    · cases record with
      | comment tag' content =>
        obtain rfl : tag' = tag := htag
        obtain ⟨hkind, hmod, hlength⟩ := hvalid
        rw [if_pos hkind]
        exact ⟨content, hmod, hlength, rfl, rfl⟩
      | payload tag' words content =>
        obtain rfl : tag' = tag := htag
        obtain ⟨hkind, hwords, hfit, hlength⟩ := hvalid
        have hcomment : ¬ (tag' = 1000 ∨ tag' = 1009) := by omega
        rw [if_neg hcomment, if_pos hkind]
        exact ⟨words, content, hfits, hwords, hfit, hlength, rfl, rfl⟩
      | relocations tag' groups padding =>
        obtain rfl : tag' = tag := htag
        obtain ⟨hkind, hvalid, hpadding⟩ := hvalid
        have hcomment : ¬ (tag' = 1000 ∨ tag' = 1009) := by omega
        have hpayload : ¬ (tag' = 1001 ∨ tag' = 1002 ∨ tag' = 1003) := by omega
        rw [if_neg hcomment, if_neg hpayload, if_pos hkind]
        exact ⟨groups, padding, hfits.1, hvalid, hfits.2, hpadding, rfl, rfl⟩
      | symbols definitions =>
        obtain rfl : 1008 = tag := htag
        rw [if_neg (by decide), if_neg (by decide), if_neg (by decide), if_pos rfl]
        exact ⟨definitions, hfits.1, hvalid, hfits.2, rfl, rfl⟩

/-- The flagged record is added to what is read. -/
def Flagged.read (r : Reading) (f : Flagged) : Reading := f.record.read r

/-- The parser accepts the flagged record. -/
def Flagged.Fits (count : Nat) (r : Reading) (f : Flagged) : Prop :=
  (f.flags < 4 ∧ f.record.Valid r.hunk.size) ∧ f.record.Fits count r

/-- HUNK_END, behind the payload. -/
def Ends (r : Reading) (b : Bytes) : Prop :=
  r.payload = true ∧ ∃ flags < 4, b = long (flags * 2 ^ 30 + 1010)

theorem Record.tag_lt {record : Record} {c size : Nat} (h : record.ValidAt c size) :
    record.tag < 2 ^ 30 := by
  cases record with
  | comment tag content =>
    obtain ⟨htag, -⟩ := h
    simp only [Record.tag]
    omega
  | payload tag words content =>
    obtain ⟨htag, -⟩ := h
    simp only [Record.tag]
    omega
  | relocations tag groups padding =>
    obtain ⟨htag, -⟩ := h
    simp only [Record.tag]
    omega
  | symbols definitions =>
    simp only [Record.tag]
    decide

/-- What a turn of the record loop reads, wherever it begins. -/
def RecordAt (count : Nat) (r : Reading) : Grammar (Reading ⊕ Reading) := fun c x b =>
  x = .inr r ∧ Ends r b ∨
    ∃ f : Flagged, ((f.flags < 4 ∧ f.record.ValidAt (c + 4) r.hunk.size) ∧ f.record.Fits count r) ∧
      x = .inl (f.read r) ∧ b = f.bytes

theorem exact_readRecord (count : Nat) (r : Reading) :
    Exact (readRecord count r) (RecordAt count r) := by
  refine (exact_bind exact_u32 fun word => exact_body count (word % 2 ^ 30) r).congr
    fun c x b => ?_
  constructor
  · rintro ⟨word, b₁, b₂, rfl, ⟨hword, rfl⟩, hbody⟩
    have hflags : word / 2 ^ 30 < 4 := by omega
    have hparts : word / 2 ^ 30 * 2 ^ 30 + word % 2 ^ 30 = word := Nat.div_add_mod' word (2 ^ 30)
    rw [length_long] at hbody
    rcases hbody with ⟨rfl, hpayload, htag, rfl⟩ | ⟨record, htag, hvalid, hfits, rfl, rfl⟩
    · refine .inl ⟨rfl, hpayload, word / 2 ^ 30, hflags, ?_⟩
      rw [List.append_nil, ← htag, hparts]
    · refine .inr ⟨⟨word / 2 ^ 30, record⟩, ⟨⟨hflags, hvalid⟩, hfits⟩, rfl, ?_⟩
      rw [Flagged.bytes, htag, hparts]
  · rintro (⟨rfl, hpayload, flags, hflags, rfl⟩ | ⟨⟨flags, record⟩, ⟨⟨hflags, hvalid⟩, hfits⟩, rfl,
      rfl⟩)
    · refine ⟨_, _, [], (List.append_nil _).symm, ⟨by omega, rfl⟩, .inl ⟨rfl, hpayload, ?_, rfl⟩⟩
      omega
    · have htag : record.tag < 2 ^ 30 := Record.tag_lt hvalid
      have hword : flags * 2 ^ 30 + record.tag < 2 ^ 32 := by
        change flags < 4 at hflags
        omega
      refine ⟨_, _, _, rfl, ⟨hword, rfl⟩, .inr ⟨record, ?_, ?_, hfits, rfl, rfl⟩⟩
      · omega
      · rw [length_long]
        exact hvalid

/-! ### Places -/

/-- The groups fill a whole number of fields. -/
theorem fieldWidth_dvd_groups (tag : Nat) (groups : List Group) :
    fieldWidth tag ∣ (groups.flatMap (Group.bytes tag)).length := by
  induction groups with
  | nil => exact Nat.dvd_zero _
  | cons g groups ih =>
    have hoffsets : fieldWidth tag ∣ (g.offsets.flatMap (field tag)).length := by
      induction g.offsets with
      | nil => exact Nat.dvd_zero _
      | cons o offsets ih =>
        rw [List.flatMap_cons, List.length_append, length_field]
        exact Nat.dvd_add (Nat.dvd_refl _) ih
    rw [List.flatMap_cons, Group.bytes, List.length_append, List.length_append,
      List.length_append, length_field, length_field]
    exact Nat.dvd_add (Nat.dvd_add (Nat.dvd_refl _) (Nat.dvd_add (Nat.dvd_refl _) hoffsets)) ih

theorem fieldWidth_dvd_relocations (tag : Nat) (groups : List Group) :
    fieldWidth tag ∣ (groups.flatMap (Group.bytes tag) ++ field tag 0).length := by
  rw [List.length_append, length_field]
  exact Nat.dvd_add (fieldWidth_dvd_groups tag groups) (Nat.dvd_refl _)

/-- Where a longword begins, the padding does not depend on the place. -/
theorem Record.validAt_iff {c size : Nat} (hc : c % 4 = 0) (record : Record) :
    record.ValidAt c size ↔ record.Valid size := by
  cases record with
  | comment _ _ | payload _ _ _ | symbols _ => exact Iff.rfl
  | relocations tag groups padding =>
    have hwhole := fieldWidth_dvd_relocations tag groups
    have hplace : (if tag ≠ 1004 ∧
        (c + (groups.flatMap (Group.bytes tag) ++ field tag 0).length) % 4 ≠ 0 then 2 else 0) =
        if (groups.flatMap (Group.bytes tag) ++ field tag 0).length % 4 = 0 then 0 else 2 := by
      generalize (groups.flatMap (Group.bytes tag) ++ field tag 0).length = n at hwhole ⊢
      by_cases htag : tag = 1004
      · rw [fieldWidth, if_pos htag] at hwhole
        rw [if_pos (Nat.mod_eq_zero_of_dvd hwhole), if_neg (fun h => h.1 htag)]
      · have hmod : (c + n) % 4 = n % 4 := by omega
        rw [hmod]
        by_cases hn : n % 4 = 0
        · rw [if_pos hn, if_neg (fun h => h.2 hn)]
        · rw [if_neg hn, if_pos ⟨htag, hn⟩]
    simp only [ValidAt, Valid, hplace]

theorem length_definitions {definitions : List Definition} (h : ∀ d ∈ definitions, d.Valid) :
    (definitions.flatMap Definition.bytes).length % 4 = 0 := by
  induction definitions with
  | nil => rfl
  | cons d definitions ih =>
    obtain ⟨hd, hrest⟩ := List.forall_mem_cons.mp h
    have hlongwords := hd.longwords
    have hih := ih hrest
    rw [List.flatMap_cons, Definition.bytes, List.length_append, List.length_append,
      List.length_append, length_long, length_long]
    omega

/-- A record fills longwords. -/
theorem Record.length_body {size : Nat} {record : Record} (h : record.Valid size) :
    record.body.length % 4 = 0 := by
  cases record with
  | comment tag content =>
    have hlongwords := h.2.1
    rw [body, List.length_append, length_long]
    omega
  | payload tag words content =>
    have hlength := h.2.2.2
    rw [body, List.length_append, length_long, hlength]
    split <;> omega
  | relocations tag groups padding =>
    have hwhole := fieldWidth_dvd_relocations tag groups
    have hpadding := h.2.2
    rw [body, List.length_append, hpadding]
    generalize (groups.flatMap (Group.bytes tag) ++ field tag 0).length = n at hwhole ⊢
    have heven : n % 2 = 0 := by
      rw [fieldWidth] at hwhole
      split at hwhole <;> omega
    split <;> omega
  | symbols definitions =>
    have hlongwords := length_definitions h
    rw [body, List.length_append, length_long]
    omega

theorem recordAt_iff (count : Nat) (r : Reading) (c : Nat) (x : Reading ⊕ Reading) (b : Bytes)
    (hc : c % 4 = 0) :
    RecordAt count r c x b ↔
      Turn Flagged.read (Flagged.Fits count) Flagged.bytes Ends r c x b := by
  have hplace : (c + 4) % 4 = 0 := by omega
  simp only [RecordAt, Turn, Flagged.Fits, Record.validAt_iff hplace]

theorem recordAt_ne_nil (count : Nat) (r : Reading) (c : Nat) (t : Reading) (b : Bytes)
    (h : RecordAt count r c (.inl t) b) : b ≠ [] := by
  rcases h with ⟨h, -⟩ | ⟨f, -, -, rfl⟩
  · cases h
  · exact long_append_ne_nil _ _

/-- The records of a hunk, up to its end. -/
theorem exact_records (count : Nat) (r : Reading) :
    Exact (iterate (readRecord count) r) (Chain (RecordAt count) r) :=
  exact_iterate (exact_readRecord count) (recordAt_ne_nil count) r

theorem chain_records {count c : Nat} {r t : Reading} {b : Bytes} (hc : c % 4 = 0) :
    Chain (RecordAt count) r c t b ↔ ∃ (records : List Flagged) (ending : Bytes),
      AllAlong Flagged.read (Flagged.Fits count) r records ∧ t = records.foldl Flagged.read r ∧
      Ends t ending ∧ b = records.flatMap Flagged.bytes ++ ending := by
  refine chain_iff (fun c => c % 4 = 0) (recordAt_iff count) (fun s c f hc hf => ?_) hc
  have hbody := Record.length_body hf.1.2
  rw [Flagged.bytes, List.length_append, length_long]
  omega

end HunkFormat

end AmigaDevbench.Winuae
