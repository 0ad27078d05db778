import AmigaDevbench.Host.Winuae.SymbolFile

/-!
# Reading symbols

A symbol of a file is located in the guest through the segments that are loaded or through a mapping
of its section, and the bytes from an offset in it are read. The requests are written down in the
order in which they are sent; whatever the target replies, each request for memory stays inside the
symbol, its section and the segment.
-/

namespace AmigaDevbench.Winuae

open Raises SymbolFile

namespace SymbolRead

/-! ### Values -/

/-- A decoded JSON value. Of a number with a fraction only the integer is kept that it equals, if it
equals one. -/
inductive Json where
  | null
  | bool (b : Bool)
  | int (n : Int)
  | float (value : Option Int)
  | str (s : Text)
  | list (xs : List Json)
  | dict (kvs : List (Text × Json))

abbrev Obj := List (Text × Json)

/-- `d.get(key, default)`. -/
def getKey (d : Obj) (key : String) (default : Json) : Json := (d.lookup key.toList).getD default

namespace Json

/-- `v == n`. A Boolean equals one or zero. -/
def equalsInt : Json → Int → Bool
  | .int m, n => m = n
  | .bool b, n => (if b then 1 else 0 : Int) = n
  | .float (some m), n => m = n
  | _, _ => false

/-- `v == s`. -/
def equalsText : Json → Text → Bool
  | .str t, s => t = s
  | _, _ => false

def isNull : Json → Bool
  | .null => true
  | _ => false

/-- The value as `integer` sees it, which takes texts and integers. -/
def toVal : Json → Val
  | .int n => .int n
  | .str s => .str s
  | _ => .list []

end Json

/-- What leaves a request other than by a return: `DebugError`, or another exception. -/
inductive Failure where
  | debugError (e : DebugError)
  | other

def refuse {α : Type} (message : String) : Except Failure α := .error (.debugError ⟨message⟩)

def Failure.ofRaised : Raised → Failure
  | .debugError e => .debugError e
  | .python _ => .other

/-- `integer`, of a number that is not negative. -/
def natural (value : Json) (name : String) (maximum minimum : Nat) : Except Failure Nat :=
  match integer value.toVal name maximum minimum with
  | .ok n => .ok n.toNat
  | .error e => .error (.debugError e)

/-! ### Requests -/

inductive Request where
  | segments (process : Option Nat)
  | memory (address size : Nat)
  deriving DecidableEq

/-- What the target replies. A reply to a request for memory may depend on all requests so far. -/
structure Target where
  packetSize : Nat
  segments : Except DebugError Json
  memory : List Request → Except DebugError Text
  packetSize_ge : 64 ≤ packetSize

/-- Code that sends requests, which are kept. -/
abbrev Sends := Raises Failure (List Request)

section Code

variable (target : Target)

/-- `_monitor("segments")`. -/
def askSegments (process : Option Nat) : Sends Json := do
  modify (· ++ [.segments process])
  liftExcept (target.segments.mapError Failure.debugError)

/-- The request for memory. -/
def askMemory (address size : Nat) : Sends Text := do
  modify (· ++ [.memory address size])
  let sent ← get
  liftExcept ((target.memory sent).mapError Failure.debugError)

/-- The bytes of a reply, which has two digits for each. -/
def replyBytes (length : Nat) (reply : Text) : Except Failure Bytes :=
  if reply.length = length * 2 ∧ ∀ c ∈ reply, Py.isDigitOf 16 c = true then
    (Py.fromhex reply).mapError fun _ => Failure.other
  else refuse "Truncated memory response"

/-- `chunk_size`. -/
def chunkSize : Nat := min 4096 ((target.packetSize - 40) / 2)

/-- `range(0, size, chunk_size)`. -/
def chunkOffsets (size : Nat) : List Nat :=
  (List.range ((size + (chunkSize target - 1)) / chunkSize target)).map (· * chunkSize target)

/-- The loop of `read_bytes`. -/
def readChunks (address size : Nat) : List Nat → Sends Bytes
  | [] => return []
  | offset :: offsets => do
    let length := min (chunkSize target) (size - offset)
    let reply ← askMemory target (address + offset) length
    let part ← liftExcept (replyBytes length reply)
    let rest ← readChunks address size offsets
    return part ++ rest

/-- `read_bytes`. -/
def readBytes (address size : Nat) : Sends Bytes :=
  if 0x100000000 < address + size then throw (.debugError ⟨"Memory range wraps the address space"⟩)
  else readChunks target address size (chunkOffsets target size)

/-! ### The place of a section -/

/-- The mapping if it is one of the section, which it names or whose index it has. -/
def mappingOf (s : FileSection) : Json → Option Obj
  | .dict m =>
    let name := getKey m "section" .null
    if name.equalsInt s.index || name.equalsText s.name then some m else none
  | _ => none

/-- `matching`. -/
def matching (s : FileSection) (mappings : Json) : List Obj :=
  match mappings with
  | .list ms => ms.filterMap (mappingOf s)
  | _ => []

/-- At most 256 mappings, if any. -/
def validMappings : Json → Bool
  | .null => true
  | .list ms => ms.length ≤ 256
  | _ => false

/-- `mapping`. -/
def chooseMapping (format : FileFormat) (s : FileSection) (mappings : Json) : Except Failure Obj :=
  if !validMappings mappings then refuse "Expected at most 256 section mappings"
  else match matching s mappings with
    | [] =>
      if format = .hunk then .ok [("segment".toList, .int s.index)]
      else refuse "ELF needs exactly one explicit mapping for this section"
    | [m] => .ok m
    | _ :: _ :: _ => refuse "ELF needs exactly one explicit mapping for this section"

/-- The list that is looked through for a segment. All of its elements are asked for their index. -/
def segmentList : Json → Except Failure (List Obj)
  | .list xs => xs.mapM fun x => match x with
    | .dict d => .ok d
    | _ => .error .other
  | .str [] | .dict [] => .ok []
  | _ => .error .other

/-- The segments in a report. -/
def reportedSegments : Json → Except Failure (List Obj)
  | .dict d => segmentList (getKey d "segments" (.list []))
  | _ => .ok []

/-- `d[key]`. -/
def item (d : Obj) (key : String) : Except Failure Json :=
  match d.lookup key.toList with
  | some v => .ok v
  | none => .error .other

/-- Base and capacity of the only segment with an index. -/
def findSegment (segments : List Obj) (index : Nat) : Except Failure (Nat × Nat) :=
  match segments.filter fun d => (getKey d "index" .null).equalsInt index with
  | [d] => do
    let address ← item d "address"
    let base ← natural address "segment address" 0xffffffff 0
    let size ← item d "size"
    let capacity ← natural size "segment size" 0xffffffff 0
    return (base, capacity)
  | _ => refuse "Loaded segment not found"

/-- Base and capacity that a mapping gives itself. -/
def explicitPlace (m : Obj) : Except Failure (Nat × Nat) :=
  if (getKey m "segment" .null).isNull then do
    let base ← natural (getKey m "address" .null) "mapping address" 0xffffffff 0
    let capacity ← natural (getKey m "size" .null) "mapping size" 0xffffffff 0
    return (base, capacity)
  else refuse "A mapping takes an address or a segment, not both"

/-- Base and capacity. -/
def place (m : Obj) (process : Option Nat) : Sends (Nat × Nat) :=
  if (getKey m "address" .null).isNull then do
    let index ← liftExcept (natural (getKey m "segment" .null) "segment" 255 0)
    let report ← askSegments target process
    let segments ← liftExcept (reportedSegments report)
    liftExcept (findSegment segments index)
  else liftExcept (explicitPlace m)

/-- `section_base`: base, capacity and the offset of the section. -/
def sectionBase (format : FileFormat) (s : FileSection) (mappings : Json) (process : Option Nat) :
    Sends (Nat × Nat × Nat) := do
  let m ← liftExcept (chooseMapping format s mappings)
  let offset ← liftExcept (natural (getKey m "offset" (.int 0)) "mapping offset" 0xffffffff 0)
  let (base, capacity) ← place target m process
  if 0x100000000 < base + capacity ∨ capacity < offset + s.size then
    throw (.debugError ⟨"The section does not fit its mapped segment"⟩)
  else return (base, capacity, offset)

/-! ### The request -/

/-- The arguments of `symbol_read` behind the file. -/
structure Arguments where
  symbol : Json
  sectionIndex : Json
  process : Json
  offset : Json
  format : Json
  length : Json
  count : Json
  mappings : Json

/-- `FORMATS`: the size of an element, and whether it has a sign. -/
def formats : List (Text × Nat × Bool) := [
  ("u8".toList, 1, false), ("s8".toList, 1, true), ("u16".toList, 2, false),
  ("s16".toList, 2, true), ("u32".toList, 4, false), ("s32".toList, 4, true)]

/-- `wanted` -/
def wantedSection (index : Json) : Except Failure (Option Nat) :=
  if index.isNull then .ok none else (natural index "section" 4095 0).map some

/-- The only symbol of that name, in that section if one is given. -/
def chooseSymbol (parsed : Parsed) (args : Arguments) : Except Failure FileSymbol :=
  match args.symbol with
  | .str name =>
    if name = [] ∨ 1024 < name.length then refuse "Expected an exact symbol name"
    else do
      let wanted ← wantedSection args.sectionIndex
      match parsed.symbols.filter fun s =>
          s.name = name ∧ ∀ w ∈ wanted, s.sectionIndex = w with
      | [sym] => return sym
      | [] => refuse "Symbol not found"
      | _ :: _ :: _ => refuse "Ambiguous symbol; supply its section index"
  | _ => refuse "Expected an exact symbol name"

/-- `element`, the sign and `size`. A list or a dictionary is no key. -/
def readSize (args : Arguments) : Except Failure (Nat × Bool × Nat) :=
  match args.format with
  | .str name =>
    if name = "bytes".toList then do
      let size ← natural args.length "length" 4096 1
      return (1, false, size)
    else match formats.lookup name with
      | some (element, signed) => do
        let count ← natural args.count "count" 256 1
        return (element, signed, element * count)
      | none => refuse "format must be bytes, u8, s8, u16, s16, u32 or s32"
  | .list _ | .dict _ => .error .other
  | _ => refuse "format must be bytes, u8, s8, u16, s16, u32 or s32"

/-- The section of a symbol. -/
def sectionOf (parsed : Parsed) (sym : FileSymbol) : Except Failure FileSection :=
  match parsed.sections.find? (·.index = sym.sectionIndex) with
  | some s => .ok s
  | none => .error .other

/-- The checks of the range in the symbol and in its section. -/
def checkRange (sym : FileSymbol) (s : FileSection) (start size : Nat) : Except Failure PUnit :=
  if ∃ n ∈ sym.size, n < start + size then refuse "The read exceeds the symbol size"
  else if s.size < sym.offset + start + size then refuse "The read exceeds the symbol section"
  else .ok ⟨⟩

/-- `proc`. -/
def processOf (process : Json) : Except Failure (Option Nat) :=
  if process.isNull then .ok none
  else do
    let proc ← natural process "process" 0xffffffff 4
    if proc % 4 ≠ 0 then refuse "The process address must be longword aligned"
    else return some proc

/-- `int.from_bytes(part, "big", signed=signed)`. -/
def elementValue (signed : Bool) (part : Bytes) : Int :=
  let n : Int := Bytes.fromBigEndian part
  if signed ∧ 2 ^ (8 * part.length) ≤ 2 * n then n - 2 ^ (8 * part.length) else n

structure Result where
  symbol : FileSymbol
  fileSection : FileSection
  address : Nat
  length : Nat
  data : Bytes
  /-- Nothing for the format `bytes`. -/
  values : List Int

/-- `symbol_read`, behind the reading of the file. -/
def symbolRead (decodeUtf8 : Bytes → Text) (data : Bytes) (args : Arguments) : Sends Result := do
  let parsed ← liftExcept ((parseSymbols decodeUtf8 data).mapError Failure.ofRaised)
  let sym ← liftExcept (chooseSymbol parsed args)
  let s ← liftExcept (sectionOf parsed sym)
  let (element, signed, size) ← liftExcept (readSize args)
  let start ← liftExcept (natural args.offset "offset" 0xffffffff 0)
  liftExcept (checkRange sym s start size)
  let process ← liftExcept (processOf args.process)
  let (base, _, within) ← sectionBase target parsed.format s args.mappings process
  let address := base + within + sym.offset + start
  if 0x100000000 < address + size then
    throw (.debugError ⟨"Address range wraps the 32-bit address space"⟩)
  else do
    let bytes ← readBytes target address size
    let values := if args.format.equalsText "bytes".toList then [] else
      (List.range (size / element)).map fun i =>
        elementValue signed ((bytes.drop (i * element)).take element)
    return ⟨sym, s, address, size, bytes, values⟩

end Code

/-! ### The memory that is asked for -/

section Confined

variable {target : Target} {data : Bytes} {args : Arguments}

/-- No memory has been asked for. -/
def Quiet (sent : List Request) : Prop := ∀ a n, Request.memory a n ∉ sent

/-- All memory that has been asked for lies in a range. -/
def Within (address size : Nat) (sent : List Request) : Prop :=
  ∀ a n, Request.memory a n ∈ sent → address ≤ a ∧ a + n ≤ address + size

theorem Quiet.within {sent : List Request} (h : Quiet sent) (address size : Nat) :
    Within address size sent := fun a n hmem => absurd hmem (h a n)

theorem of_mapError {ε ε' α : Type} {x : Except ε α} {f : ε → ε'} {a : α}
    (h : x.mapError f = .ok a) : x = .ok a := by
  cases x with
  | ok b =>
    cases h
    rfl
  | error e => cases h

theorem keeps_askMemory {address size a n : Nat} (ha : address ≤ a) (hn : a + n ≤ address + size) :
    Keeps (Within address size) (askMemory target a n) := by
  refine triple_bind (triple_modify (R := fun _ => Within address size) ?_) fun _ => ?_
  · intro sent hsent b m hmem
    rcases List.mem_append.mp hmem with hmem | hmem
    · exact hsent b m hmem
    · cases List.mem_singleton.mp hmem
      exact ⟨ha, hn⟩
  refine triple_bind (triple_get (R := fun _ => Within address size) fun _ h => h) fun sent => ?_
  exact triple_liftExcept (fun _ _ _ h => h) fun _ h => h

theorem chunkSize_pos : 0 < chunkSize target := by
  have hpacket := target.packetSize_ge
  rw [chunkSize]
  omega

/-- A chunk begins inside the range. -/
theorem le_of_mem_chunkOffsets {size offset : Nat} (h : offset ∈ chunkOffsets target size) :
    offset ≤ size := by
  obtain ⟨i, hi, rfl⟩ := List.mem_map.mp h
  have hpos := @chunkSize_pos target
  have hlt := List.mem_range.mp hi
  have hturn : (i + 1) * chunkSize target ≤ size + (chunkSize target - 1) :=
    (Nat.le_div_iff_mul_le hpos).mp hlt
  rw [Nat.add_mul, Nat.one_mul] at hturn
  omega

/-- One chunk after the other. -/
theorem keeps_readChunks {address size : Nat} (offsets : List Nat)
    (h : ∀ o ∈ offsets, o ≤ size) :
    Keeps (Within address size) (readChunks target address size offsets) := by
  induction offsets with
  | nil => exact triple_pure fun _ h => h
  | cons offset offsets ih =>
    have hoffset := h offset List.mem_cons_self
    refine triple_bind (keeps_askMemory (by omega) (by omega)) fun reply => ?_
    refine triple_bind (triple_liftExcept (Q := fun _ => Within address size)
      (fun _ _ _ h => h) fun _ h => h) fun part => ?_
    refine triple_bind (ih fun o ho => h o (List.mem_cons_of_mem _ ho)) fun rest => ?_
    exact triple_pure fun _ h => h

theorem keeps_readBytes (address size : Nat) :
    Keeps (Within address size) (readBytes target address size) := by
  rw [readBytes]
  split
  · exact triple_throw fun _ h => h
  · exact keeps_readChunks _ fun o ho => le_of_mem_chunkOffsets ho

/-! ### The mapped segment -/

/-- The mapping of a section: the only one that names it, or in a hunk executable the loaded segment
of the same index. -/
def Selected (format : FileFormat) (s : FileSection) (mappings : Json) (m : Obj) : Prop :=
  matching s mappings = [m] ∨
    matching s mappings = [] ∧ format = .hunk ∧ m = [("segment".toList, .int s.index)]

/-- The segment of a mapping: the range that it gives, or the only loaded segment of its index. -/
inductive Segment (target : Target) (m : Obj) : Nat → Nat → Prop where
  | range {base capacity : Nat}
      (hbase : natural (getKey m "address" .null) "mapping address" 0xffffffff 0 = .ok base)
      (hcapacity : natural (getKey m "size" .null) "mapping size" 0xffffffff 0 = .ok capacity) :
      Segment target m base capacity
  | loaded {index base capacity : Nat} {report address size : Json} {segments : List Obj} {d : Obj}
      (hindex : natural (getKey m "segment" .null) "segment" 255 0 = .ok index)
      (hreport : target.segments = .ok report)
      (hsegments : reportedSegments report = .ok segments)
      (honly : (segments.filter fun d => (getKey d "index" .null).equalsInt index) = [d])
      (haddress : item d "address" = .ok address) (hsize : item d "size" = .ok size)
      (hbase : natural address "segment address" 0xffffffff 0 = .ok base)
      (hcapacity : natural size "segment size" 0xffffffff 0 = .ok capacity) :
      Segment target m base capacity

/-- The mapping of a section puts it at an offset in a segment, in which it has room. -/
structure Mapped (target : Target) (format : FileFormat) (s : FileSection) (mappings : Json)
    (base capacity offset : Nat) : Prop where
  selected : ∃ m, Selected format s mappings m ∧ Segment target m base capacity ∧
    natural (getKey m "offset" (.int 0)) "mapping offset" 0xffffffff 0 = .ok offset
  address : base + capacity ≤ 2 ^ 32
  room : offset + s.size ≤ capacity

theorem selected_of_chooseMapping {format : FileFormat} {s : FileSection} {mappings : Json}
    {m : Obj} (h : chooseMapping format s mappings = .ok m) : Selected format s mappings m := by
  rw [chooseMapping] at h
  split at h
  · cases h
  split at h
  · next hnone =>
    split at h
    · next hhunk =>
      cases h
      exact .inr ⟨hnone, hhunk, rfl⟩
    · cases h
  · next hone =>
    cases h
    exact .inl hone
  · cases h

theorem segment_of_findSegment {m : Obj} {report : Json} {segments : List Obj}
    {index : Nat} {range : Nat × Nat}
    (hindex : natural (getKey m "segment" .null) "segment" 255 0 = .ok index)
    (hreport : target.segments = .ok report) (hsegments : reportedSegments report = .ok segments)
    (h : findSegment segments index = .ok range) : Segment target m range.1 range.2 := by
  rw [findSegment] at h
  split at h
  · next d honly =>
    obtain ⟨address, haddress, h⟩ := bind_eq_ok_iff.mp h
    obtain ⟨base, hbase, h⟩ := bind_eq_ok_iff.mp h
    obtain ⟨size, hsize, h⟩ := bind_eq_ok_iff.mp h
    obtain ⟨capacity, hcapacity, h⟩ := bind_eq_ok_iff.mp h
    cases h
    exact .loaded hindex hreport hsegments honly haddress hsize hbase hcapacity
  · cases h

theorem segment_of_explicitPlace {m : Obj} {range : Nat × Nat} (h : explicitPlace m = .ok range) :
    Segment target m range.1 range.2 := by
  rw [explicitPlace] at h
  split at h
  · obtain ⟨base, hbase, h⟩ := bind_eq_ok_iff.mp h
    obtain ⟨capacity, hcapacity, h⟩ := bind_eq_ok_iff.mp h
    cases h
    exact .range hbase hcapacity
  · cases h

/-- The request for the segments asks for no memory. -/
theorem triple_askSegments (process : Option Nat) :
    Triple Quiet (askSegments target process)
      (fun report sent => target.segments = .ok report ∧ Quiet sent) Quiet := by
  refine triple_bind (triple_modify (R := fun _ => Quiet) ?_) fun _ => ?_
  · intro sent hsent a n hmem
    rcases List.mem_append.mp hmem with hmem | hmem
    · exact hsent a n hmem
    · cases List.mem_singleton.mp hmem
  exact triple_liftExcept (fun report sent h hsent => ⟨of_mapError h, hsent⟩) fun _ h => h

theorem triple_place (m : Obj) (process : Option Nat) :
    Triple Quiet (place target m process)
      (fun range sent => Segment target m range.1 range.2 ∧ Quiet sent) Quiet := by
  rw [place]
  split
  · refine triple_bind (triple_liftExcept (fun index _ h hsent => And.intro h hsent)
      fun _ h => h) fun index => triple_of_and fun hindex => ?_
    refine triple_bind (triple_askSegments process) fun report =>
      triple_of_and fun hreport => ?_
    refine triple_bind (triple_liftExcept (fun segments _ h hsent => And.intro h hsent)
      fun _ h => h) fun segments => triple_of_and fun hsegments => ?_
    exact triple_liftExcept (fun range _ h hsent =>
      ⟨segment_of_findSegment hindex hreport hsegments h, hsent⟩) fun _ h => h
  · exact triple_liftExcept (fun range _ h hsent => ⟨segment_of_explicitPlace h, hsent⟩)
      fun _ h => h

theorem triple_sectionBase (format : FileFormat) (s : FileSection) (mappings : Json)
    (process : Option Nat) :
    Triple Quiet (sectionBase target format s mappings process)
      (fun r sent => Mapped target format s mappings r.1 r.2.1 r.2.2 ∧ Quiet sent) Quiet := by
  refine triple_bind (triple_liftExcept (fun m _ h hsent => And.intro h hsent)
    fun _ h => h) fun m => triple_of_and fun hm => ?_
  refine triple_bind (triple_liftExcept (fun offset _ h hsent => And.intro h hsent)
    fun _ h => h) fun offset => triple_of_and fun hoffset => ?_
  refine triple_bind (triple_place m process) fun range => triple_of_and fun hrange => ?_
  dsimp only
  split
  · exact triple_throw fun _ h => h
  · next hfits =>
    rw [not_or, Nat.not_lt, Nat.not_lt] at hfits
    exact triple_pure fun sent hsent =>
      ⟨⟨⟨m, selected_of_chooseMapping hm, hrange, hoffset⟩, hfits.1, hfits.2⟩, hsent⟩

/-! ### The symbol and its range -/

/-- The only symbol with the name, in the section asked for, and the segment to which its section is
mapped. -/
structure Located (target : Target) (parsed : Parsed) (args : Arguments) (sym : FileSymbol)
    (s : FileSection) (base capacity offset : Nat) : Prop where
  name : args.symbol = .str sym.name
  only : ∃ wanted, wantedSection args.sectionIndex = .ok wanted ∧
    (parsed.symbols.filter fun s => s.name = sym.name ∧ ∀ w ∈ wanted, s.sectionIndex = w) = [sym]
  fileSection : s ∈ parsed.sections
  owner : s.index = sym.sectionIndex
  mapped : Mapped target parsed.format s args.mappings base capacity offset

/-- A range lies in the segment, in the image of the section, and in the symbol if its size is
known. -/
structure Inside (sym : FileSymbol) (s : FileSection) (base capacity offset a n : Nat) : Prop where
  segment : base ≤ a ∧ a + n ≤ base + capacity
  image : base + offset ≤ a ∧ a + n ≤ base + offset + s.size
  symbol : ∀ size ∈ sym.size,
    base + offset + sym.offset ≤ a ∧ a + n ≤ base + offset + sym.offset + size

theorem chooseSymbol_eq_ok {parsed : Parsed} {sym : FileSymbol}
    (h : chooseSymbol parsed args = .ok sym) : args.symbol = .str sym.name ∧
      ∃ wanted, wantedSection args.sectionIndex = .ok wanted ∧
        (parsed.symbols.filter fun s => s.name = sym.name ∧ ∀ w ∈ wanted, s.sectionIndex = w) =
          [sym] := by
  rw [chooseSymbol] at h
  split at h
  · next name hname =>
    split at h
    · cases h
    obtain ⟨wanted, hwanted, h⟩ := bind_eq_ok_iff.mp h
    split at h
    · next sym' hfilter =>
      cases h
      have hmem := List.mem_filter.mp (hfilter ▸ List.mem_singleton_self sym)
      obtain ⟨rfl, -⟩ := of_decide_eq_true hmem.2
      exact ⟨hname, wanted, hwanted, hfilter⟩
    · cases h
    · cases h
  · cases h

theorem sectionOf_eq_ok {parsed : Parsed} {sym : FileSymbol} {s : FileSection}
    (h : sectionOf parsed sym = .ok s) : s ∈ parsed.sections ∧ s.index = sym.sectionIndex := by
  rw [sectionOf] at h
  split at h
  · next s' hfind =>
    cases h
    have hindex := List.find?_some hfind
    exact ⟨List.mem_of_find?_eq_some hfind, of_decide_eq_true hindex⟩
  · cases h

theorem checkRange_eq_ok {sym : FileSymbol} {s : FileSection} {start size : Nat} {a : PUnit}
    (h : checkRange sym s start size = .ok a) :
    (∀ n ∈ sym.size, start + size ≤ n) ∧ sym.offset + start + size ≤ s.size := by
  rw [checkRange] at h
  split at h
  · cases h
  split at h
  · cases h
  · next hsize hsection =>
    exact ⟨fun n hn => Nat.not_lt.mp fun hlt => hsize ⟨n, hn, hlt⟩, Nat.not_lt.mp hsection⟩

/-- What lies in the range of the request lies in the segment, the section and the symbol. -/
theorem inside_of_within {sym : FileSymbol} {s : FileSection} {format : FileFormat}
    {mappings : Json} {base capacity offset start size : Nat}
    (hmapped : Mapped target format s mappings base capacity offset)
    (hsize : ∀ n ∈ sym.size, start + size ≤ n) (hsection : sym.offset + start + size ≤ s.size)
    {a n : Nat} (ha : base + offset + sym.offset + start ≤ a)
    (hn : a + n ≤ base + offset + sym.offset + start + size) :
    Inside sym s base capacity offset a n := by
  have hroom := hmapped.room
  refine ⟨⟨by omega, by omega⟩, ⟨by omega, by omega⟩, fun m hm => ?_⟩
  have hle := hsize m hm
  exact ⟨by omega, by omega⟩

/-- If memory has been asked for, it is that of a symbol of the file. -/
def Confined (target : Target) (decodeUtf8 : Bytes → Text) (data : Bytes) (args : Arguments)
    (sent : List Request) : Prop :=
  Quiet sent ∨ ∃ parsed sym s base capacity offset, parseSymbols decodeUtf8 data = .ok parsed ∧
    Located target parsed args sym s base capacity offset ∧
    ∀ a n, Request.memory a n ∈ sent → Inside sym s base capacity offset a n

theorem triple_symbolRead (decodeUtf8 : Bytes → Text) :
    Triple Quiet (symbolRead target decodeUtf8 data args)
      (fun _ => Confined target decodeUtf8 data args)
      (Confined target decodeUtf8 data args) := by
  have hquiet : ∀ sent, Quiet sent → Confined target decodeUtf8 data args sent := fun _ h => .inl h
  refine triple_bind (triple_liftExcept (fun parsed _ h hsent => And.intro (of_mapError h) hsent)
    hquiet) fun parsed => triple_of_and fun hparsed => ?_
  refine triple_bind (triple_liftExcept (fun sym _ h hsent => And.intro h hsent)
    hquiet) fun sym => triple_of_and fun hsym => ?_
  refine triple_bind (triple_liftExcept (fun s _ h hsent => And.intro h hsent)
    hquiet) fun s => triple_of_and fun hs => ?_
  refine triple_bind (triple_liftExcept (Q := fun _ => Quiet) (fun _ _ _ hsent => hsent)
    hquiet) fun size => ?_
  refine triple_bind (triple_liftExcept (Q := fun _ => Quiet) (fun _ _ _ hsent => hsent)
    hquiet) fun start => ?_
  refine triple_bind (triple_liftExcept (fun _ _ h hsent => And.intro h hsent)
    hquiet) fun _ => triple_of_and fun hrange => ?_
  refine triple_bind (triple_liftExcept (Q := fun _ => Quiet) (fun _ _ _ hsent => hsent)
    hquiet) fun process => ?_
  refine triple_bind ((triple_sectionBase _ _ _ _).conseq (fun _ h => h) (fun _ _ h => h) hquiet)
    fun location => triple_of_and fun hmapped => ?_
  dsimp only
  split
  · exact triple_throw hquiet
  obtain ⟨hname, honly⟩ := chooseSymbol_eq_ok hsym
  obtain ⟨hsection, howner⟩ := sectionOf_eq_ok hs
  obtain ⟨hsize, hroom⟩ := checkRange_eq_ok hrange
  have hconfined : ∀ sent, Within (location.1 + location.2.2 + sym.offset + start) size.2.2 sent →
      Confined target decodeUtf8 data args sent := fun sent hsent =>
    .inr ⟨parsed, sym, s, _, _, _, hparsed, ⟨hname, honly, hsection, howner, hmapped⟩,
      fun a n hread => inside_of_within hmapped hsize hroom (hsent a n hread).1
        (hsent a n hread).2⟩
  refine triple_bind ((keeps_readBytes _ _).conseq (fun _ h => h.within _ _)
    (fun _ _ h => h) hconfined) fun bytes => ?_
  exact triple_pure hconfined

/-- Whatever the bytes of a file are, they are parsed or refused with `DebugError`. Whatever is
asked for, and whatever the target replies, each request for memory lies in the segment to which the
section of the symbol is mapped, in the image of the section, and in the symbol if its size is
known. -/
theorem symbolRead_confined (decodeUtf8 : Bytes → Text) (data : Bytes) :
    parseHunk data ≠ .error .stuck ∧
      Ends (fun _ => True) Rsp.IsDebugError (parseSymbols decodeUtf8 data) ∧
      ∀ (target : Target) (args : Arguments), Confined target decodeUtf8 data args
        ((symbolRead target decodeUtf8 data args).outcome []).2 := by
  refine ⟨HunkFormat.parseHunk_ne_stuck data,
    (ends_parseSymbols decodeUtf8 data).mono fun _ _ => trivial, fun target args => ?_⟩
  have hread := @triple_symbolRead target data args decodeUtf8 []
    fun a n h => absurd h List.not_mem_nil
  revert hread
  rcases (symbolRead target decodeUtf8 data args).outcome [] with ⟨r, sent⟩
  cases r with
  | ok a => exact id
  | error e => exact id

end Confined

end SymbolRead

end AmigaDevbench.Winuae
