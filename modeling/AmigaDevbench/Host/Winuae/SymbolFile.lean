import AmigaDevbench.Host.Winuae.HunkExact
import AmigaDevbench.Host.Winuae.HunkLoad
import AmigaDevbench.Host.Winuae.Rsp

/-!
# Symbol files

The sections and symbols of a hunk executable or of an ELF file. All positions in an ELF file come
from the file, so each record is checked against the end of the data before it is read; whatever
the bytes are, the parser returns or raises `DebugError`.
-/

namespace AmigaDevbench.Winuae

open Rsp

namespace SymbolFile

inductive FileFormat where
  | hunk
  | elf
  deriving DecidableEq

/-- A section in the result. -/
structure FileSection where
  index : Nat
  name : Text
  size : Nat
  address : Nat
  deriving DecidableEq

/-- A symbol in the result. Its size may be unknown. -/
structure FileSymbol where
  name : Text
  sectionIndex : Nat
  offset : Nat
  size : Option Nat
  deriving DecidableEq

structure Parsed where
  format : FileFormat
  sections : List FileSection
  symbols : List FileSymbol

/-- The fields of a section header. -/
structure SectionHeader where
  index : Nat
  nameOffset : Nat
  type : Nat
  flags : Nat
  address : Nat
  offset : Nat
  size : Nat
  link : Nat
  entrySize : Nat

section Parse

/- `bs.decode("utf-8", "replace")`. -/
variable (decodeUtf8 : Bytes → Text) (data : Bytes)

/-- `at`. -/
def atOffset (offset size : Nat) : Except Raised Bytes :=
  if data.length < offset + size then raise "An ELF record extends beyond the file"
  else .ok ((data.drop offset).take size)

def u16At (b : Bytes) (o : Nat) : Nat := Bytes.fromBigEndian ((b.drop o).take 2)

def u32At (b : Bytes) (o : Nat) : Nat := Bytes.fromBigEndian ((b.drop o).take 4)

/-- The checks of the header. -/
def IsElf (header : Bytes) : Prop :=
  header.take 4 = [0x7f, 0x45, 0x4c, 0x46] ∧ (header.drop 4).take 3 = [1, 2, 1] ∧
    u16At header 18 = 4 ∧ u32At header 20 = 1 ∧ (u16At header 16 = 1 ∨ u16At header 16 = 2) ∧
    u16At header 40 = 52

instance decidableIsElf (header : Bytes) : Decidable (IsElf header) := by
  unfold IsElf
  infer_instance

/-- A section with contents lies in the file. -/
def sectionBody (s : SectionHeader) : Except Raised Bytes :=
  if s.type ≠ 8 then atOffset data s.offset s.size else .ok []

/-- The checks of a section. -/
def checkSection (s : SectionHeader) : Except Raised SectionHeader := do
  let _ ← sectionBody data s
  if s.flags &&& 0x800 ≠ 0 then raise "Compressed ELF sections are unsupported"
  else return s

/-- One section header of the table. -/
def readSection (table i : Nat) : Except Raised SectionHeader := do
  let h ← atOffset data (table + i * 40) 40
  checkSection data ⟨i, u32At h 0, u32At h 4, u32At h 8, u32At h 12, u32At h 16, u32At h 20,
    u32At h 24, u32At h 36⟩

/-- `string`. -/
def readString (raw : List SectionHeader) (index offset : Nat) : Except Raised Text :=
  match raw[index]? with
  | none => raise "Invalid ELF string reference"
  | some s =>
    if s.type ≠ 3 ∨ s.size ≤ offset then raise "Invalid ELF string reference"
    else do
      let body ← atOffset data s.offset s.size
      match (body.drop offset).findIdx? (· = 0) with
      | none => raise "Unterminated or oversized ELF string"
      | some length =>
        if 4096 < length then raise "Unterminated or oversized ELF string"
        else return decodeUtf8 ((body.drop offset).take length)

/-- A section that is loaded. -/
def namedSection (raw : List SectionHeader) (namesIndex : Nat) (s : SectionHeader) :
    Except Raised FileSection := do
  let name ← readString decodeUtf8 data raw namesIndex s.nameOffset
  return ⟨s.index, name, s.size, s.address⟩

/-- A symbol is kept once; a set of keys has what the list has. -/
def keepSymbol (symbols : List FileSymbol) (sym : FileSymbol) : List FileSymbol :=
  if sym ∈ symbols then symbols else symbols ++ [sym]

/-- The end of the loop body: the symbol with a name in its section. -/
def placeSymbol (elfType kind value size : Nat) (name : Text) (s : FileSection)
    (symbols : List FileSymbol) : Except Raised (List FileSymbol) :=
  let relative : Int := if elfType = 1 then value else value - s.address
  -- Markers without a type and a size may stand behind their section.
  if relative < 0 ∨ s.size < relative + size ∧ (kind ≠ 0 ∨ size ≠ 0) then
    raise ("Symbol " ++ String.ofList name ++ " exceeds its section")
  else
    .ok (keepSymbol symbols
      ⟨name, s.index, relative.toNat, if size = 0 then none else some size⟩)

/-- The loop body over the entries of a symbol table. -/
def readSymbol (raw : List SectionHeader) (sections : List FileSection) (elfType : Nat)
    (symtab : SectionHeader) (symbols : List FileSymbol) (entry : Nat) :
    Except Raised (List FileSymbol) := do
  let record ← atOffset data (symtab.offset + entry * 16) 16
  let info ← byteAt record 12
  let kind := info.toNat &&& 15
  match sections.find? (·.index = u16At record 14) with
  | none => return symbols
  | some s =>
    if kind ≠ 0 ∧ kind ≠ 1 ∧ kind ≠ 2 then return symbols
    else do
      let name ← readString decodeUtf8 data raw symtab.link (u32At record 0)
      if name = [] then return symbols
      else placeSymbol elfType kind (u32At record 4) (u32At record 8) name s symbols

/-- The loop body over the symbol tables, with the number of entries so far. -/
def readSymtab (raw : List SectionHeader) (sections : List FileSection) (elfType : Nat)
    (state : Nat × List FileSymbol) (symtab : SectionHeader) :
    Except Raised (Nat × List FileSymbol) :=
  if symtab.entrySize ≠ 16 ∨ symtab.size % 16 ≠ 0 then raise "Invalid ELF symbol table"
  else
    let entries := state.1 + symtab.size / 16
    if 65536 < entries then raise "ELF symbol budget exceeded"
    else do
      let symbols ← (List.range (symtab.size / 16)).foldlM
        (readSymbol decodeUtf8 data raw sections elfType symtab) state.2
      return (entries, symbols)

/-- The part for ELF files. -/
def parseElf : Except Raised Parsed := do
  let header ← atOffset data 0 52
  if ¬ IsElf header then
    raise "Expected an ELF32 big-endian m68k relocatable or executable file"
  else
    let count := u16At header 48
    let namesIndex := u16At header 50
    if u16At header 46 ≠ 40 ∨ ¬ (1 ≤ count ∧ count ≤ 4096) ∨
        ¬ (0 < namesIndex ∧ namesIndex < count) then
      raise "Unsupported ELF section table"
    else do
      let raw ← (List.range count).mapM (readSection data (u32At header 32))
      let sections ← (raw.filter (·.flags &&& 2 ≠ 0)).mapM
        (namedSection decodeUtf8 data raw namesIndex)
      let (_, symbols) ← (raw.filter fun s => s.type = 2 ∨ s.type = 11).foldlM
        (readSymtab decodeUtf8 data raw sections (u16At header 16)) (0, [])
      return ⟨.elf, sections, symbols⟩

/-- `f"{h.kind}:{h.index}"` -/
def hunkName (h : Hunk) : Text :=
  let kind := match h.kind with
    | .code => "code"
    | .data => "data"
    | .bss => "bss"
  kind.toList ++ ':' :: Nat.toDigits 10 h.index

/-- The result for a hunk executable. -/
def ofHunks (hunks : List Hunk) : Parsed where
  format := .hunk
  sections := hunks.map fun h => ⟨h.index, hunkName h, h.size, 0⟩
  symbols := hunks.flatMap fun h => h.symbols.map fun s => ⟨s.1, h.index, s.2, none⟩

/-- `parse_symbols`. -/
def parseSymbols : Except Raised Parsed :=
  if 4 ≤ data.length ∧ Bytes.fromBigEndian (data.take 4) = 1011 then
    match HunkLoad.parsedHunks data with
    | .ok hunks => .ok (ofHunks hunks)
    | .error e => .error (.debugError e)
  else parseElf decodeUtf8 data

end Parse

/-! ### What the parser ends with -/

section Ends

variable {decodeUtf8 : Bytes → Text} {data : Bytes}

theorem ends_raise {α : Type} {R : α → Prop} (message : String) :
    Ends R IsDebugError (raise message : Except Raised α) := ⟨_, rfl⟩

theorem ends_atOffset (offset size : Nat) :
    Ends (fun b => b.length = size) IsDebugError (atOffset data offset size) := by
  rw [atOffset]
  split
  · exact ends_raise _
  · next h =>
    change ((data.drop offset).take size).length = size
    rw [List.length_take, List.length_drop]
    omega

theorem ends_checkSection (s : SectionHeader) :
    Ends (fun _ => True) IsDebugError (checkSection data s) := by
  have hbody : Ends (fun _ => True) IsDebugError (sectionBody data s) := by
    rw [sectionBody]
    split
    · exact (ends_atOffset _ _).mono fun _ _ => trivial
    · exact trivial
  refine ends_bind hbody fun _ _ => ?_
  split
  · exact ends_raise _
  · exact trivial

theorem ends_readString (raw : List SectionHeader) (index offset : Nat) :
    Ends (fun _ => True) IsDebugError (readString decodeUtf8 data raw index offset) := by
  rw [readString]
  split
  · exact ends_raise _
  split
  · exact ends_raise _
  refine ends_bind (ends_atOffset _ _) fun body _ => ?_
  split
  · exact ends_raise _
  split
  · exact ends_raise _
  · exact trivial

/-- Each symbol is one of a section. -/
def Owned (sections : List FileSection) (symbols : List FileSymbol) : Prop :=
  ∀ sym ∈ symbols, ∃ s ∈ sections, s.index = sym.sectionIndex

variable {sections : List FileSection} {symbols : List FileSymbol}

theorem owned_keepSymbol {new : FileSymbol} (howned : Owned sections symbols)
    (hnew : ∃ s ∈ sections, s.index = new.sectionIndex) :
    Owned sections (keepSymbol symbols new) := by
  rw [keepSymbol]
  split
  · exact howned
  · intro sym hsym
    rcases List.mem_append.mp hsym with hsym | hsym
    · exact howned sym hsym
    · exact List.mem_singleton.mp hsym ▸ hnew

theorem ends_placeSymbol (elfType kind value size : Nat) (name : Text) {s : FileSection}
    (hs : s ∈ sections) (howned : Owned sections symbols) :
    Ends (Owned sections) IsDebugError (placeSymbol elfType kind value size name s symbols) := by
  rw [placeSymbol]
  generalize (if elfType = 1 then (value : Int) else value - s.address) = relative
  split
  · exact ends_raise _
  · exact owned_keepSymbol howned ⟨s, hs, rfl⟩

/-- A record has 16 bytes, so it has one at 12. -/
theorem ends_readSymbol (raw : List SectionHeader) (elfType : Nat) (symtab : SectionHeader)
    (entry : Nat) (howned : Owned sections symbols) :
    Ends (Owned sections) IsDebugError
      (readSymbol decodeUtf8 data raw sections elfType symtab symbols entry) := by
  refine ends_bind (ends_atOffset _ _) fun record hrecord => ?_
  have hinfo : Ends (fun _ => True) IsDebugError (byteAt record 12) := by
    rw [byteAt, List.getElem?_eq_getElem (by omega)]
    exact trivial
  refine ends_bind hinfo fun info _ => ?_
  cases hfind : sections.find? (·.index = u16At record 14) with
  | none => exact howned
  | some s =>
    dsimp only
    split
    · exact howned
    refine ends_bind (ends_readString _ _ _) fun name _ => ?_
    split
    · exact howned
    · exact ends_placeSymbol _ _ _ _ _ (List.mem_of_find?_eq_some hfind) howned

theorem ends_readSymtab (raw : List SectionHeader) (elfType : Nat) (symtab : SectionHeader)
    {state : Nat × List FileSymbol} (howned : Owned sections state.2) :
    Ends (fun state => Owned sections state.2) IsDebugError
      (readSymtab decodeUtf8 data raw sections elfType state symtab) := by
  rw [readSymtab]
  split
  · exact ends_raise _
  dsimp only
  split
  · exact ends_raise _
  refine ends_bind (R := Owned sections) ?_ fun symbols hsymbols => hsymbols
  exact ends_foldlM (fun entry _ symbols h => ends_readSymbol raw elfType symtab entry h) howned

/-- A symbol file is parsed into sections and symbols of theirs, or refused. -/
theorem ends_parseElf :
    Ends (fun p => Owned p.sections p.symbols) IsDebugError (parseElf decodeUtf8 data) := by
  refine ends_bind (ends_atOffset _ _) fun header _ => ?_
  split
  · exact ends_raise _
  dsimp only
  split
  · exact ends_raise _
  refine ends_bind (R := fun _ => True)
    ((ends_mapM (R := fun _ => True) fun i _ => ?_).mono fun _ _ => trivial) fun raw _ => ?_
  · exact ends_bind (ends_atOffset _ _) fun h _ => ends_checkSection _
  refine ends_bind (R := fun _ => True)
    ((ends_mapM (R := fun _ => True) fun s _ => ?_).mono fun _ _ => trivial) fun sections _ => ?_
  · exact ends_bind (ends_readString _ _ _) fun _ _ => trivial
  refine ends_bind (R := fun state => Owned sections state.2) ?_ fun state hstate => ?_
  · exact ends_foldlM (fun symtab _ state h => ends_readSymtab raw _ symtab h)
      fun sym hsym => absurd hsym List.not_mem_nil
  · exact hstate

theorem ends_parseSymbols (decodeUtf8 : Bytes → Text) (data : Bytes) :
    Ends (fun p => Owned p.sections p.symbols) IsDebugError (parseSymbols decodeUtf8 data) := by
  rw [parseSymbols]
  split
  · split
    · next hunks _ =>
      intro sym hsym
      obtain ⟨h, hmem, hsym⟩ := List.mem_flatMap.mp hsym
      obtain ⟨s, -, rfl⟩ := List.mem_map.mp hsym
      exact ⟨_, List.mem_map_of_mem hmem, rfl⟩
    · exact ⟨_, rfl⟩
  · exact ends_parseElf

end Ends

end SymbolFile

end AmigaDevbench.Winuae
