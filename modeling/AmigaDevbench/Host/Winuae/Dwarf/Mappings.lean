import Mathlib.Algebra.Order.Group.Int
import AmigaDevbench.Core.Moves
import AmigaDevbench.Host.Winuae.Dwarf.Expression
import AmigaDevbench.Host.Winuae.SymbolRead

/-!
# The mappings of a DWARF request

The host takes one mapping for each section that is named and refuses those that overlap, on either
side; the helper translates an address through the only mapping that covers it. A runtime address is
always below `2 ^ 32`, but a section may be linked to a range that goes on beyond it.
-/

namespace AmigaDevbench.Winuae

namespace DwarfTool

open Raises SymbolFile SymbolRead
open Dwarf (Mapping valueError checked)

/-! ### The request -/

/-- The debugger: whether its target has an MMU, the registers in the current context and at the
last fault, and the replies to requests for the segments. A reply may depend on all requests so
far. -/
structure Session where
  mmuModel : Bool
  registers : (fault : Bool) → Except SymbolRead.Failure Obj
  segments : List Request → Except DebugError Json

/-- `current`: a section and its place in the guest. -/
structure RuntimeSection extends Mapping where
  sectionIndex : Nat

/-- `request`, for the helper. -/
structure HelperRequest where
  action : Text
  elf : Bytes
  mappings : List RuntimeSection
  registers : Obj
  expression : Json
  maxFrames : Nat
  address : Option Nat

/-- A linked executable. -/
def checkLinked (parsed : Parsed) (data : Bytes) : Except SymbolRead.Failure PUnit :=
  if parsed.format ≠ .elf ∨ u16At data 16 ≠ 2 then
    refuse "DWARF tools need a linked ELF32 m68k executable"
  else .ok ⟨⟩

/-- `mappings` -/
def mappingList (args : Obj) : Except SymbolRead.Failure (List Json) :=
  match getKey args "mappings" .null with
  | .list ms =>
    if 1 ≤ ms.length ∧ ms.length ≤ 256 then .ok ms
    else refuse "Supply explicit runtime section mappings"
  | _ => refuse "Supply explicit runtime section mappings"

/-- A text of at most 256 characters. -/
def isExpression : Json → Bool
  | .str s => s.length ≤ 256
  | _ => false

/-- `expression`, which is a text if it is that of a variable. -/
def expressionOf (kind : Text) (args : Obj) : Except SymbolRead.Failure Json :=
  let expression := getKey args "expression" .null
  if kind = "variable".toList ∧ isExpression expression = false then
    refuse "Supply a variable expression of at most 256 characters"
  else .ok expression

/-- `address` -/
def addressOf (args : Obj) : Except SymbolRead.Failure (Option Nat) :=
  let address := getKey args "address" .null
  if address.isNull then .ok none else (natural address "address" 0xffffffff 0).map some

/-- `context`: whether it is that of the last fault. -/
def isFault (args : Obj) : Except SymbolRead.Failure Bool :=
  let context := getKey args "context" (.str "current".toList)
  if context.equalsText "current".toList then .ok false
  else if context.equalsText "fault".toList then .ok true
  else refuse "context must be current or fault"

/-- `process` -/
def toolProcess (args : Obj) : Except SymbolRead.Failure (Option Nat) :=
  let process := getKey args "process" .null
  if process.isNull then .ok none
  else do
    let process ← natural process "process" 0xffffffff 4
    if process % 4 ≠ 0 then refuse "The process address must be aligned" else return some process

section Code

variable (session : Session)

def checkMmu : Except SymbolRead.Failure PUnit :=
  if session.mmuModel then
    refuse "DWARF inspection needs an MMU-disabled target; remote memory reads are physical"
  else .ok ⟨⟩

/-- `_monitor("segments")`. -/
def monitorSegments (process : Option Nat) : Sends Json := do
  modify (· ++ [.segments process])
  let sent ← get
  liftExcept ((session.segments sent).mapError SymbolRead.Failure.debugError)

/-- A mapping without an address has its segment looked up. -/
def needsSegments : Json → Bool
  | .dict m => (getKey m "address" .null).isNull
  | _ => false

/-- `segments`, which are asked for once if a mapping needs them. -/
def segmentsFor (process : Option Nat) (ms : List Json) : Sends Json :=
  if ms.any needsSegments then do
    let report ← monitorSegments session process
    match report with
    | .dict d => return getKey d "segments" (.list [])
    | _ => return .list []
  else return .list []

/-- The list that a segment is looked up in, which is asked for again if there is none. -/
def segmentsIn (process : Option Nat) (segments : Json) : Sends (List Obj) :=
  if segments.isNull then do
    let report ← monitorSegments session process
    liftExcept (reportedSegments report)
  else liftExcept (segmentList segments)

/-- Base and capacity. -/
def placeIn (m : Obj) (process : Option Nat) (segments : Json) : Sends (Nat × Nat) :=
  if (getKey m "address" .null).isNull then do
    let index ← liftExcept (natural (getKey m "segment" .null) "segment" 255 0)
    let segments ← segmentsIn session process segments
    liftExcept (findSegment segments index)
  else liftExcept (explicitPlace m)

/-- `section_base`, with the segments that are known. -/
def sectionBaseIn (format : FileFormat) (s : FileSection) (mappings : Json) (process : Option Nat)
    (segments : Json) : Sends (Nat × Nat × Nat) := do
  let m ← liftExcept (chooseMapping format s mappings)
  let offset ← liftExcept (natural (getKey m "offset" (.int 0)) "mapping offset" 0xffffffff 0)
  let (base, capacity) ← placeIn session m process segments
  if 0x100000000 < base + capacity ∨ capacity < offset + s.size then
    throw (.debugError ⟨"The section does not fit its mapped segment"⟩)
  else return (base, capacity, offset)

/-- `found` -/
def sectionsOf (sections : List FileSection) (m : Obj) : List FileSection :=
  let name := getKey m "section" .null
  sections.filter fun s => name.equalsInt s.index || name.equalsText s.name

/-- The first part of the loop body: the section of a mapping and its place. -/
def placeSection (parsed : Parsed) (process : Option Nat) (segments : Json) (mapping : Json) :
    Sends RuntimeSection :=
  match mapping with
  | .dict m =>
    match sectionsOf parsed.sections m with
    | [s] => do
      let (base, _, offset) ←
        sectionBaseIn session parsed.format s (.list [mapping]) process segments
      return ⟨⟨s.address, base + offset, s.size⟩, s.index⟩
    | _ => throw (.debugError ⟨"A mapping must name one allocated ELF section"⟩)
  | _ => throw (.debugError ⟨"Invalid section mapping"⟩)

/-- The same section, or ranges that overlap in the guest or in the file. -/
def RuntimeSection.Clashes (other current : RuntimeSection) : Prop :=
  other.sectionIndex = current.sectionIndex ∨
    (other.address < current.address + current.size ∧
      current.address < other.address + other.size) ∨
    (other.linked < current.linked + current.size ∧ current.linked < other.linked + other.size)

instance decidableClashes (other current : RuntimeSection) : Decidable (other.Clashes current) :=
  inferInstanceAs (Decidable (_ ∨ _))

/-- The loop over the mappings, behind those that are accepted. -/
def placeSections (parsed : Parsed) (process : Option Nat) (segments : Json) :
    List Json → List RuntimeSection → Sends (List RuntimeSection)
  | [], runtime => return runtime
  | mapping :: ms, runtime => do
    let current ← placeSection session parsed process segments mapping
    if ∃ other ∈ runtime, other.Clashes current then
      throw (.debugError ⟨"Ambiguous or overlapping section mappings"⟩)
    else placeSections parsed process segments ms (runtime ++ [current])

/-- `dwarf_tool`, between the reading of the file and the start of the helper. -/
def dwarfTool (decodeUtf8 : Bytes → Text) (kind : Text) (data : Bytes) (args : Obj) :
    Sends HelperRequest := do
  let parsed ← liftExcept ((parseSymbols decodeUtf8 data).mapError SymbolRead.Failure.ofRaised)
  liftExcept (checkLinked parsed data)
  let ms ← liftExcept (mappingList args)
  let expression ← liftExcept (expressionOf kind args)
  let maxFrames ← liftExcept (natural (getKey args "max_frames" (.int 32)) "max_frames" 64 1)
  let address ← liftExcept (addressOf args)
  let fault ← liftExcept (isFault args)
  let process ← liftExcept (toolProcess args)
  liftExcept (checkMmu session)
  let registers ← liftExcept (session.registers fault)
  let segments ← segmentsFor session process ms
  let runtime ← placeSections session parsed process segments ms []
  return ⟨kind, data, runtime, registers, expression, maxFrames, address⟩

end Code

/-! ### What is accepted -/

section Accepted

variable {session : Session} {parsed : Parsed} {process : Option Nat} {segments : Json}
  {runtime : List RuntimeSection} {current : RuntimeSection}

/-- The place of a section is the one that `symbol_read` finds, if no segments are known. -/
theorem sectionBaseIn_null (target : Target) (h : session.segments = fun _ => target.segments)
    (format : FileFormat) (s : FileSection) (mappings : Json) :
    sectionBaseIn session format s mappings process .null =
      sectionBase target format s mappings process := by
  have hask : monitorSegments session process = askSegments target process := by
    rw [monitorSegments, h]
    rfl
  have hsegments : segmentsIn session process .null =
      askSegments target process >>= fun report => liftExcept (reportedSegments report) := by
    rw [segmentsIn, hask]
    rfl
  have hplace (m : Obj) : placeIn session m process .null = place target m process := by
    rw [placeIn, place, hsegments]
    simp only [bind_assoc]
  rw [sectionBaseIn, sectionBase]
  simp only [hplace]

/-- A section ends inside of the address space. -/
def RuntimeSection.InSpace (current : RuntimeSection) : Prop :=
  current.address + current.size ≤ 2 ^ 32

/-- The sections of a request do not clash. -/
structure Accepted (runtime : List RuntimeSection) : Prop where
  apart : runtime.Pairwise fun other current => ¬ other.Clashes current
  inSpace : ∀ current ∈ runtime, current.InSpace

theorem Accepted.concat (h : Accepted runtime) (hspace : current.InSpace)
    (hclash : ¬ ∃ other ∈ runtime, other.Clashes current) : Accepted (runtime ++ [current]) := by
  refine ⟨List.pairwise_append.mpr ⟨h.apart, List.pairwise_singleton .., ?_⟩, ?_⟩
  · intro other hother c hc
    rw [List.mem_singleton.mp hc]
    exact fun hboth => hclash ⟨other, hother, hboth⟩
  · intro c hc
    rcases List.mem_append.mp hc with hc | hc
    · exact h.inSpace c hc
    · rw [List.mem_singleton.mp hc]
      exact hspace

theorem yields_any {α : Type} (x : Sends α) : Yields (fun _ => True) (fun _ => True) x :=
  (yields_outcome x).mono (fun _ _ => trivial) fun _ h => h

theorem yields_sectionBaseIn (format : FileFormat) (s : FileSection) (mappings : Json) :
    Yields (fun r : Nat × Nat × Nat => r.1 + r.2.1 ≤ 2 ^ 32 ∧ r.2.2 + s.size ≤ r.2.1)
      (fun _ => True) (sectionBaseIn session format s mappings process segments) := by
  refine yields_bind (yields_any _) fun m _ => yields_bind (yields_any _) fun offset _ => ?_
  refine yields_bind (yields_any _) fun range _ => ?_
  dsimp only
  split
  · exact yields_throw trivial
  · next hfits =>
    rw [not_or, Nat.not_lt, Nat.not_lt] at hfits
    exact yields_pure hfits

theorem yields_placeSection (mapping : Json) :
    Yields RuntimeSection.InSpace (fun _ => True)
      (placeSection session parsed process segments mapping) := by
  cases mapping with
  | dict m =>
    rw [placeSection]
    split
    · next s _ =>
      refine yields_bind (yields_sectionBaseIn _ _ _) fun r hr => yields_pure ?_
      change r.1 + r.2.2 + s.size ≤ 2 ^ 32
      omega
    · exact yields_throw trivial
  | _ => exact yields_throw trivial

/-- One mapping after the other. -/
theorem yields_placeSections (ms : List Json) (h : Accepted runtime) :
    Yields Accepted (fun _ => True)
      (placeSections session parsed process segments ms runtime) := by
  induction ms generalizing runtime with
  | nil => exact yields_pure h
  | cons mapping ms ih =>
    refine yields_bind (yields_placeSection mapping) fun current hspace => ?_
    split
    · exact yields_throw trivial
    · next hclash => exact ih (h.concat hspace hclash)

theorem yields_dwarfTool (decodeUtf8 : Bytes → Text) (kind : Text) (data : Bytes) (args : Obj) :
    Yields (fun request => Accepted request.mappings) (fun _ => True)
      (dwarfTool session decodeUtf8 kind data args) := by
  refine yields_bind (yields_any _) fun parsed _ => yields_bind (yields_any _) fun _ _ => ?_
  refine yields_bind (yields_any _) fun ms _ => yields_bind (yields_any _) fun expression _ => ?_
  refine yields_bind (yields_any _) fun frames _ => yields_bind (yields_any _) fun address _ => ?_
  refine yields_bind (yields_any _) fun fault _ => yields_bind (yields_any _) fun process _ => ?_
  refine yields_bind (yields_any _) fun _ _ => yields_bind (yields_any _) fun registers _ => ?_
  refine yields_bind (yields_any _) fun segments _ => ?_
  have hnone : Accepted [] := ⟨List.Pairwise.nil, fun _ h => absurd h List.not_mem_nil⟩
  exact yields_bind (yields_placeSections ms hnone) fun runtime hruntime => yields_pure hruntime

end Accepted

/-! ### Translation -/

section Translation

variable {maps : List Mapping} {m : Mapping} {runtime : Bool} {address target : Int}

/-- The move of an address, in one direction or the other. -/
def move (runtime : Bool) (m : Mapping) : Move Int :=
  ⟨(m.ends runtime).1, (m.ends runtime).2, m.size⟩

/-- The addresses that an address may stand for. -/
def candidates (maps : List Mapping) (runtime : Bool) (address : Int) : List Int :=
  Move.images (maps.map (move runtime)) address

theorem candidates_eq (maps : List Mapping) (runtime : Bool) (address : Int) :
    candidates maps runtime address = maps.filterMap fun m =>
      if ((m.ends runtime).1 : Int) ≤ address ∧ address < (m.ends runtime).1 + m.size then
        some ((m.ends runtime).2 + address - (m.ends runtime).1) else none := by
  rw [candidates, Move.images, List.filterMap_map]
  rfl

theorem translate_of_candidates (h : candidates maps runtime address = [target]) :
    Dwarf.translate maps address runtime = checked target 0xffffffff := by
  rw [candidates_eq] at h
  simp only [Dwarf.translate, h]

/-- An address without a mapping or with several ones. -/
theorem translate_of_length_ne_one (h : (candidates maps runtime address).length ≠ 1) :
    Dwarf.translate maps address runtime =
      .error (valueError "Address has no unique explicit section mapping") := by
  rw [candidates_eq] at h
  simp only [Dwarf.translate]
  split
  · next heq =>
    rw [heq] at h
    exact absurd rfl h
  · rfl

theorem candidates_of_translate (h : Dwarf.translate maps address runtime = .ok target) :
    candidates maps runtime address = [target] ∧ 0 ≤ target ∧ target ≤ 0xffffffff := by
  simp only [Dwarf.translate] at h
  rw [candidates_eq]
  split at h
  · next heq =>
    obtain ⟨rfl, hbounds⟩ := Dwarf.checked_ok h
    exact ⟨heq, hbounds⟩
  · cases h

theorem map_swap_move (maps : List Mapping) (runtime : Bool) :
    (maps.map (move runtime)).map Move.swap = maps.map (move !runtime) := by
  rw [List.map_map]
  cases runtime <;> rfl

/-- No two mappings overlap, neither in the file nor in the guest, and the guest has 32-bit
addresses. -/
structure Separate (maps : List Mapping) : Prop where
  apart : ∀ runtime, (maps.map (move runtime)).Pairwise Move.Apart
  inSpace : ∀ m ∈ maps, m.address + m.size ≤ 2 ^ 32

theorem separate_of_accepted {runtime : List RuntimeSection} (h : Accepted runtime) :
    Separate (runtime.map (·.toMapping)) := by
  refine ⟨fun side => ?_, fun m hm => ?_⟩
  · rw [List.map_map, List.pairwise_map]
    refine h.apart.imp fun {other current} hclash => ?_
    rw [RuntimeSection.Clashes, not_or, not_or] at hclash
    obtain ⟨-, hguest, hfile⟩ := hclash
    rintro ⟨hleft, hright⟩
    cases side with
    | false =>
      have hleft' : (other.linked : Int) < current.linked + current.size := hleft
      have hright' : (current.linked : Int) < other.linked + other.size := hright
      exact hfile ⟨by omega, by omega⟩
    | true =>
      have hleft' : (other.address : Int) < current.address + current.size := hleft
      have hright' : (current.address : Int) < other.address + other.size := hright
      exact hguest ⟨by omega, by omega⟩
  · obtain ⟨current, hcurrent, rfl⟩ := List.mem_map.mp hm
    exact h.inSpace current hcurrent

/-- An address in a mapping has the address at the same offset as its only candidate. -/
theorem Separate.candidates_eq (h : Separate maps) (hm : m ∈ maps) (runtime : Bool) {i : Nat}
    (hi : i < m.size) : candidates maps runtime ((m.ends runtime).1 + i : Nat) =
      [(((m.ends runtime).2 + i : Nat) : Int)] := by
  have hcovers : (move runtime m).Covers ((m.ends runtime).1 + i : Nat) := by
    constructor
    · exact Int.ofNat_le.mpr (Nat.le_add_right _ _)
    · change (((m.ends runtime).1 + i : Nat) : Int) < (m.ends runtime).1 + m.size
      omega
  have himage : (move runtime m).image ((m.ends runtime).1 + i : Nat) =
      (((m.ends runtime).2 + i : Nat) : Int) := by
    change ((m.ends runtime).2 : Int) + ((m.ends runtime).1 + i : Nat) - (m.ends runtime).1 = _
    omega
  rw [candidates, Move.images_eq_singleton (h.apart runtime) (List.mem_map_of_mem hm) hcovers,
    himage]

/-- The candidates there and back. -/
theorem Separate.candidates_swap (h : Separate maps) :
    candidates maps runtime address = [target] ↔ candidates maps (!runtime) target = [address] := by
  have htarget := h.apart (!runtime)
  rw [← map_swap_move] at htarget
  rw [candidates, candidates, ← map_swap_move]
  exact Move.images_swap (h.apart runtime) htarget

theorem Separate.bounds_of_candidates (h : Separate maps)
    (hcandidates : candidates maps runtime address = [target]) :
    0 ≤ address ∧ (runtime = true → address ≤ 0xffffffff) := by
  obtain ⟨p, hp, hcovers, -⟩ := Move.mem_images.mp (hcandidates ▸ List.mem_singleton_self target)
  obtain ⟨m, hm, rfl⟩ := List.mem_map.mp hp
  have hlow : ((m.ends runtime).1 : Int) ≤ address := hcovers.1
  have hhigh : address < (m.ends runtime).1 + m.size := hcovers.2
  have hspace := h.inSpace m hm
  refine ⟨by omega, ?_⟩
  rintro rfl
  have hguest : address < m.address + m.size := hhigh
  omega

theorem checked_eq_ok {value : Int} (hlow : 0 ≤ value) (hhigh : value ≤ 0xffffffff) :
    checked value 0xffffffff = .ok value := if_pos ⟨hlow, hhigh⟩

theorem length_candidates (maps : List Mapping) (side : Bool) (address : Int) :
    (candidates maps side address).length = (maps.filter fun m =>
      (m.ends side).1 ≤ address ∧ address < (m.ends side).1 + m.size).length := by
  rw [candidates, Move.length_images, List.filter_map, List.length_map]
  rfl

/-- What the helper makes of addresses with a list of mappings: the translations are inverse to each
other on the addresses of 32 bits; an address in a section goes to the guest; an address in the guest
comes from a section unless it is linked beyond 32 bits; and an address that is not in exactly one
mapping is refused. -/
structure Inverse (maps : List Mapping) : Prop where
  inverse : ∀ linked runtime : Int, linked ≤ 0xffffffff →
    (Dwarf.translate maps linked false = .ok runtime ↔
      Dwarf.translate maps runtime true = .ok linked)
  forth : ∀ m ∈ maps, ∀ i < m.size,
    Dwarf.translate maps (m.linked + i : Nat) false = .ok ((m.address + i : Nat) : Int)
  back : ∀ m ∈ maps, ∀ i < m.size, m.linked + i ≤ 0xffffffff →
    Dwarf.translate maps (m.address + i : Nat) true = .ok ((m.linked + i : Nat) : Int)
  beyond : ∀ m ∈ maps, ∀ i < m.size, 0xffffffff < m.linked + i →
    Dwarf.translate maps (m.address + i : Nat) true =
      .error (valueError "Invalid address, size or DWARF constant")
  refused : ∀ (side : Bool) (address : Int),
    (maps.filter fun m =>
      (m.ends side).1 ≤ address ∧ address < (m.ends side).1 + m.size).length ≠ 1 →
    Dwarf.translate maps address side =
      .error (valueError "Address has no unique explicit section mapping")

theorem Separate.inverse (h : Separate maps) : Inverse maps where
  inverse linked runtime hlinked := by
    constructor
    · intro htranslate
      obtain ⟨hforth, -⟩ := candidates_of_translate htranslate
      have hback : candidates maps true runtime = [linked] := h.candidates_swap.mp hforth
      rw [translate_of_candidates hback]
      exact checked_eq_ok (h.bounds_of_candidates hforth).1 hlinked
    · intro htranslate
      obtain ⟨hback, -⟩ := candidates_of_translate htranslate
      have hforth : candidates maps false linked = [runtime] := h.candidates_swap.mp hback
      obtain ⟨hlow, hhigh⟩ := h.bounds_of_candidates hback
      rw [translate_of_candidates hforth]
      exact checked_eq_ok hlow (hhigh rfl)
  forth m hm i hi := by
    have hspace := h.inSpace m hm
    refine (translate_of_candidates (h.candidates_eq hm false hi)).trans (checked_eq_ok ?_ ?_)
    · exact Int.natCast_nonneg _
    · change ((m.address + i : Nat) : Int) ≤ 0xffffffff
      omega
  back m hm i hi hlinked := by
    refine (translate_of_candidates (h.candidates_eq hm true hi)).trans (checked_eq_ok ?_ ?_)
    · exact Int.natCast_nonneg _
    · exact Int.ofNat_le.mpr hlinked
  beyond m hm i hi hlinked := by
    refine (translate_of_candidates (h.candidates_eq hm true hi)).trans (if_neg ?_)
    rintro ⟨-, hle⟩
    have hle' : ((m.linked + i : Nat) : Int) ≤ 0xffffffff := hle
    omega
  refused side address hcount := by
    rw [← length_candidates] at hcount
    exact translate_of_length_ne_one hcount

end Translation

/-- Whatever mappings the host accepts for a file, the helper's translations with them are inverse
to each other on the addresses of 32 bits, and they refuse what is not in exactly one mapping. -/
theorem translations_inverse (session : Session) (decodeUtf8 : Bytes → Text) (kind : Text)
    (data : Bytes) (args : Obj) {request : HelperRequest} {sent : List Request}
    (h : (dwarfTool session decodeUtf8 kind data args).outcome [] = (.ok request, sent)) :
    Inverse (request.mappings.map (·.toMapping)) :=
  (separate_of_accepted ((yields_dwarfTool decodeUtf8 kind data args).of_ok h)).inverse

/-! ### A section at the end of the address space -/

/-- A linked executable of one section, `.bss`, with 16 bytes on each side of `2 ^ 32`. -/
def edgeFile : Bytes :=
  [0x7f454c46, 0x01020100, 0, 0, 0x00020004, 1, 0, 0, 52, 0, 0x00340000, 40, 0x00030002,
    0, 0, 0, 0, 0, 0, 0, 0, 0, 0,
    1, 8, 2, 0xfffffff0, 0, 0x20, 0, 0, 0, 0,
    0, 3, 0, 0, 172, 6, 0, 0, 0, 0].flatMap (Bytes.bigEndian 4) ++
  [0x00, 0x2e, 0x62, 0x73, 0x73, 0x00]

/-- Its section is put at `1000`. -/
def edgeArgs : Obj :=
  [("mappings".toList, .list [.dict [("section".toList, .int 1), ("address".toList, .int 0x1000),
    ("size".toList, .int 0x20)]])]

/-- A target without an MMU. -/
def edgeSession : Session := ⟨false, fun _ => .ok [], fun _ => .ok .null⟩

def asciiText (bytes : Bytes) : Text := bytes.map fun b => Char.ofNat b.toNat

def edgeRequest : HelperRequest :=
  ⟨"source".toList, edgeFile, [⟨⟨0xfffffff0, 0x1000, 0x20⟩, 1⟩], [], .null, 32, none⟩

set_option maxRecDepth 20000 in
theorem edge_accepted :
    (dwarfTool edgeSession asciiText "source".toList edgeFile edgeArgs).outcome [] =
      (.ok edgeRequest, []) := by
  rfl

theorem translations_inverse_edge : Inverse [⟨0xfffffff0, 0x1000, 0x20⟩] :=
  translations_inverse edgeSession asciiText "source".toList edgeFile edgeArgs edge_accepted

/-- The guest's address of the second half of the section is in the mapping, but it is refused. -/
theorem translations_not_inverse :
    ¬ ∀ (session : Session) (decodeUtf8 : Bytes → Text) (kind : Text) (data : Bytes) (args : Obj)
      (request : HelperRequest) (sent : List Request),
      (dwarfTool session decodeUtf8 kind data args).outcome [] = (.ok request, sent) →
      ∀ m ∈ request.mappings.map (·.toMapping), ∀ i < m.size,
        Dwarf.translate (request.mappings.map (·.toMapping)) (m.linked + i : Nat) false =
            .ok ((m.address + i : Nat) : Int) ∧
          Dwarf.translate (request.mappings.map (·.toMapping)) (m.address + i : Nat) true =
            .ok ((m.linked + i : Nat) : Int) := by
  intro hall
  have hmapped := hall _ _ _ _ _ _ _ edge_accepted ⟨0xfffffff0, 0x1000, 0x20⟩
    List.mem_cons_self 0x10 (by decide)
  have hrefused :
      Dwarf.translate (edgeRequest.mappings.map (·.toMapping)) (0x1000 + 0x10 : Nat) true =
        .error (valueError "Invalid address, size or DWARF constant") := rfl
  cases hrefused.symm.trans hmapped.2

end DwarfTool

end AmigaDevbench.Winuae
