import AmigaDevbench.Core.BigEndian
import AmigaDevbench.Core.Decoding
import AmigaDevbench.Host.Winuae.Debugger

/-!
# The hunk parser of `winuae_files.py`
-/

namespace AmigaDevbench.Winuae

open Decoder

inductive HunkKind where
  | code | data | bss
  deriving DecidableEq

inductive HunkMemory where
  | any | chip | fast
  deriving DecidableEq

/-- `Hunk`. -/
structure Hunk where
  index : Nat
  size : Nat
  kind : HunkKind
  memory : HunkMemory
  data : Bytes
  relocations : List (Nat × Nat)
  symbols : List (Text × Nat)
  deriving DecidableEq

abbrev HunkParser := Decoder DebugError

/-- The inner function `take`. -/
def takeBytes (n : Nat) : HunkParser Bytes :=
  take (fun cursor => ⟨s!"Truncated hunk file at offset {cursor}"⟩) n

def u32 : HunkParser Nat := do
  let bytes ← takeBytes 4
  return Bytes.fromBigEndian bytes

def u16 : HunkParser Nat := do
  let bytes ← takeBytes 2
  return Bytes.fromBigEndian bytes

/-- `number`: the width of the fields of a relocation record. -/
def number (tag : Nat) : HunkParser Nat := if tag = 1004 then u32 else u16

/-! ### The records of a hunk -/

/-- The hunk that is being read, and the other variables of the loop. -/
structure Reading where
  hunk : Hunk
  payload : Bool
  offsets : List Nat
  relocationCount : Nat
  symbolCount : Nat

namespace Reading

/-- `hunk.relocations.append`. -/
def relocate (r : Reading) (offset target : Nat) : Reading :=
  { r with
    offsets := r.offsets ++ [offset]
    hunk := { r.hunk with relocations := r.hunk.relocations ++ [(offset, target)] } }

/-- `hunk.symbols.append`. -/
def define (r : Reading) (name : Text) (offset : Nat) : Reading :=
  { r with
    symbolCount := r.symbolCount + 1
    hunk := { r.hunk with symbols := r.hunk.symbols ++ [(name, offset)] } }

/-- The payload has been read. -/
def load (r : Reading) (kind : HunkKind) (data : Bytes) : Reading :=
  { r with payload := true, hunk := { r.hunk with kind, data } }

/-- A relocation offset that is even, inside the hunk, and apart from the ones before it. -/
def Accepts (r : Reading) (offset : Nat) : Prop :=
  offset % 2 = 0 ∧ offset + 4 ≤ r.hunk.size ∧
    ∀ o ∈ r.offsets, o ≠ offset ∧ o + 2 ≠ offset ∧ o ≠ offset + 2

instance (r : Reading) : DecidablePred r.Accepts :=
  fun _ => inferInstanceAs (Decidable (_ ∧ _ ∧ _))

end Reading

/-- The offsets of a relocation group. -/
def readOffsets (tag target : Nat) : Nat → Reading → HunkParser Reading
  | 0, r => return r
  | n + 1, r => do
    let offset ← number tag
    require (r.Accepts offset) ⟨"Invalid or overlapping relocation offset"⟩
    readOffsets tag target n (r.relocate offset target)

/-- One turn of the loop over the relocation groups of a record. -/
def readGroup (count tag : Nat) (r : Reading) : HunkParser (Reading ⊕ Reading) := do
  let n ← number tag
  if n = 0 then
    return .inr r
  else
    require (r.relocationCount + n ≤ 262144) ⟨"Too many relocations"⟩
    let target ← number tag
    require (target < count) ⟨"Invalid relocation target"⟩
    let r ← readOffsets tag target n { r with relocationCount := r.relocationCount + n }
    return .inl r

/-- What follows the groups of a short relocation record. -/
def skipPadding (tag : Nat) : HunkParser Unit := do
  let cursor ← position
  if tag ≠ 1004 ∧ cursor % 4 ≠ 0 then
    discard (takeBytes 2)

/-- One turn of the loop over the symbols of a record. -/
def readSymbol (r : Reading) : HunkParser (Reading ⊕ Reading) := do
  let words ← u32
  if words = 0 then
    return .inr r
  else
    require (r.symbolCount + 1 ≤ 65536 ∧ words ≤ 256) ⟨"Symbol budget exceeded"⟩
    let raw ← takeBytes (words * 4)
    let name := Bytes.latin1 (raw.takeWhile (· ≠ 0))
    let offset ← u32
    require (name ≠ [] ∧ offset ≤ r.hunk.size) ⟨"Invalid hunk symbol"⟩
    return .inl (r.define name offset)

def readComment (r : Reading) : HunkParser (Reading ⊕ Reading) := do
  let words ← u32
  let _ ← takeBytes (words * 4)
  return .inl r

/-- The kind of hunk that a payload record makes. -/
def payloadKind (tag : Nat) : HunkKind :=
  if tag = 1001 then .code else if tag = 1002 then .data else .bss

def readPayload (tag : Nat) (r : Reading) : HunkParser (Reading ⊕ Reading) := do
  require (r.payload = false) ⟨"Duplicate hunk payload"⟩
  let words ← u32
  require (words * 4 ≤ r.hunk.size) ⟨"Payload exceeds the reserved hunk size"⟩
  let data ← takeBytes (if tag = 1003 then 0 else words * 4)
  return .inl (r.load (payloadKind tag) data)

def readRelocations (count tag : Nat) (r : Reading) : HunkParser (Reading ⊕ Reading) := do
  require (r.payload = true) ⟨"Relocations precede the hunk payload"⟩
  let r ← iterate (readGroup count tag) r
  skipPadding tag
  return .inl r

def readSymbols (r : Reading) : HunkParser (Reading ⊕ Reading) := do
  require (r.payload = true) ⟨"Symbols precede the hunk payload"⟩
  let r ← iterate readSymbol r
  return .inl r

/-- One turn of the loop over the records of a hunk. -/
def readRecord (count : Nat) (r : Reading) : HunkParser (Reading ⊕ Reading) := do
  let word ← u32
  let tag := word % 2 ^ 30
  if tag = 1000 ∨ tag = 1009 then
    readComment r
  else if tag = 1001 ∨ tag = 1002 ∨ tag = 1003 then
    readPayload tag r
  else if tag = 1004 ∨ tag = 1015 ∨ tag = 1020 then
    readRelocations count tag r
  else if tag = 1008 then
    readSymbols r
  else if tag = 1010 ∧ r.payload = true then
    return .inr r
  else
    raise ⟨s!"Unsupported hunk record {tag}"⟩

/-! ### The file -/

/-- `{1: "chip", 2: "fast"}.get(flags, "any")`. -/
def memoryOf (flags : Nat) : HunkMemory :=
  if flags = 1 then .chip else if flags = 2 then .fast else .any

/-- The sizes in the hunk table, from a hunk on. -/
def readTable : Nat → Nat → Nat → HunkParser (List Hunk)
  | 0, _, _ => return []
  | left + 1, index, total => do
    let descriptor ← u32
    let flags := descriptor / 2 ^ 30
    require (flags ≠ 3) ⟨"Extended memory attributes are unsupported"⟩
    let size := descriptor % 2 ^ 30 * 4
    require (total + size ≤ 8 * 1024 * 1024) ⟨"Hunk allocations exceed 8 MiB"⟩
    let hunks ← readTable left (index + 1) (total + size)
    return ⟨index, size, .bss, memoryOf flags, [], [], []⟩ :: hunks

def readHeader : HunkParser (List Hunk) := do
  let magic ← u32
  require (magic = 1011) ⟨"Expected a HUNK_HEADER executable"⟩
  let libraries ← u32
  require (libraries = 0) ⟨"Resident library dependencies are unsupported"⟩
  let count ← u32
  let first ← u32
  let last ← u32
  require (¬ (count = 0 ∨ 256 < count ∨ first ≠ 0 ∨ last ≠ count - 1))
    ⟨"Unsupported hunk table or overlay"⟩
  readTable count 0 0

/-- The contents of the hunks that are left, with the counts so far. -/
def readHunks (count : Nat) : List Hunk → Nat → Nat → HunkParser (List Hunk)
  | [], _, _ => return []
  | hunk :: hunks, relocationCount, symbolCount => do
    let r ← iterate (readRecord count) ⟨hunk, false, [], relocationCount, symbolCount⟩
    let hunks ← readHunks count hunks r.relocationCount r.symbolCount
    return r.hunk :: hunks

def parseFile (length : Nat) : HunkParser (List Hunk) := do
  let table ← readHeader
  let hunks ← readHunks table.length table 0 0
  let cursor ← position
  require (cursor = length) ⟨"Trailing data or an unsupported overlay"⟩
  return hunks

/-- `parse_hunk`. -/
def parseHunk (data : Bytes) : Except (Failure DebugError) (List Hunk) :=
  (parseFile data.length ⟨0, data⟩).map (·.1)

end AmigaDevbench.Winuae
