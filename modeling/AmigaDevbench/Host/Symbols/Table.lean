import AmigaDevbench.Core.Bisect
import AmigaDevbench.Host.SourceStep
import AmigaDevbench.Host.Symbols.StructDef

/-!
# Symbol tables

The table of a loaded binary and the two searches in it. Both halve a sorted list of addresses and
go on at the position they find: the one in a dictionary, the other in a list beside it. They return
the nearest entry if the table is kept so that every address of the index leads to an entry of that
address.
-/

namespace AmigaDevbench

namespace Symbols

open Bisect Keyed

/-- `SourceLine`. -/
abbrev SourceLine := SourceStep.SourceLine

/-- `Symbol`. -/
structure Symbol where
  name : Text
  address : Int
  symType : Text
  size : Nat
  file : Text
  line : Nat
  deriving DecidableEq

/-- Where a variable of a function is kept. -/
inductive Kind where
  | param
  | local
  deriving DecidableEq

/-- A variable of a function. -/
structure LocalVar where
  name : Text
  type : Text
  offset : Int
  kind : Kind
  size : Nat
  deriving DecidableEq

/-- `SymbolTable`. The dictionaries refer to symbols by their positions in the list. -/
structure SymbolTable where
  symbols : List Symbol
  byAddress : List (Int × Nat)
  byName : List (Text × Nat)
  sortedAddrs : List Int
  sourceLines : List SourceLine
  lineAddrs : List Int
  structTypes : List (Text × StructType)
  funcSource : List (Text × Text × Nat)
  funcLocals : List (Text × List LocalVar)

namespace SymbolTable

/-- A table of a binary that has not been loaded. -/
def empty : SymbolTable := ⟨[], [], [], [], [], [], [], [], []⟩

variable (t : SymbolTable)

/-- The text for a symbol and an offset behind it. -/
def label (sym : Symbol) (offset : Int) : Text :=
  if offset = 0 then sym.name
  else sym.name ++ ['+', '0', 'x'] ++ Nat.toDigits 16 offset.toNat

/-- `lookup_address`. -/
def lookupAddress (addr : Int) : Option Text := do
  let idx ← floorIndex t.sortedAddrs addr
  let symAddr ← t.sortedAddrs[idx]?
  let sym ← (lookup t.byAddress symAddr).bind (t.symbols[·]?)
  if addr - symAddr < 0x10000 then some (label sym (addr - symAddr)) else none

/-- `lookup_source_line`. -/
def lookupSourceLine (addr : Int) : Option (Text × Nat) := do
  let idx ← floorIndex t.lineAddrs addr
  let sl ← t.sourceLines[idx]?
  if 0x1000 < addr - sl.address then none else some (sl.file, sl.line)

/-- The index has some addresses, each of which leads to a symbol, and some of the lines, those at
the front of the list. -/
structure Covers (addrs : List Int) (lines : List SourceLine) : Prop where
  sorted : t.sortedAddrs.Pairwise (· ≤ ·)
  mem_sorted : ∀ a, a ∈ t.sortedAddrs ↔ a ∈ addrs
  leads : ∀ a ∈ addrs, ∃ i sym, lookup t.byAddress a = some i ∧ t.symbols[i]? = some sym ∧
    sym.address = a
  sorted_lines : lines.Pairwise fun sl sl' => sl.address ≤ sl'.address
  lineAddrs : t.lineAddrs = lines.map (·.address)
  front : lines <+: t.sourceLines

/-- The text returned is that of a symbol with the greatest address not above the query, which is
less than 64 KiB away, and nothing is returned only if none is. -/
def NearestSymbol (addrs : List Int) (query : Int) : Prop :=
  match t.lookupAddress query with
  | some text => ∃ sym ∈ t.symbols, IsGreatest {a | a ∈ addrs ∧ a ≤ query} sym.address ∧
      query - sym.address < 0x10000 ∧ text = label sym (query - sym.address)
  | none => ∀ a ∈ addrs, a ≤ query → 0x10000 ≤ query - a

/-- The file and the line returned are those of a line entry with the greatest address not above
the query, which is at most 4 KiB away, and nothing is returned only if none is. -/
def NearestLine (lines : List SourceLine) (query : Int) : Prop :=
  match t.lookupSourceLine query with
  | some found => ∃ sl ∈ lines, IsGreatest {a | a ∈ lines.map (·.address) ∧ a ≤ query} sl.address ∧
      query - sl.address ≤ 0x1000 ∧ found = (sl.file, sl.line)
  | none => ∀ sl ∈ lines, sl.address ≤ query → 0x1000 < query - sl.address

variable {t} {addrs : List Int} {lines : List SourceLine}

/-- Of the addresses below the query, the greatest is the nearest. -/
theorem far_of_isGreatest {s : List Int} {b query d : Int}
    (h : IsGreatest {a | a ∈ s ∧ a ≤ query} b) (hfar : d ≤ query - b) :
    ∀ a ∈ s, a ≤ query → d ≤ query - a := by
  intro a ha hle
  have hab : a ≤ b := h.2 ⟨ha, hle⟩
  omega

/-- The search for an address returns the nearest of the addresses in the index. -/
theorem Covers.nearestSymbol (h : t.Covers addrs lines) (query : Int) :
    t.NearestSymbol addrs query := by
  rw [NearestSymbol, lookupAddress]
  cases hfloor : floorIndex t.sortedAddrs query with
  | none =>
    intro a ha hle
    have hlt := (floorIndex_eq_none h.sorted).mp hfloor a ((h.mem_sorted a).mpr ha)
    omega
  | some idx =>
    obtain ⟨b, hb, hgreatest⟩ := isGreatest_of_floorIndex h.sorted hfloor
    have hset : {a | a ∈ t.sortedAddrs ∧ a ≤ query} = {a | a ∈ addrs ∧ a ≤ query} := by
      ext a
      simp only [Set.mem_ofPred_eq, h.mem_sorted]
    rw [hset] at hgreatest
    obtain ⟨i, sym, hlookup, hsym, rfl⟩ := h.leads b hgreatest.1.1
    simp only [Option.bind_eq_bind, Option.bind_some, hb, hlookup, hsym]
    by_cases hnear : query - sym.address < 0x10000
    · rw [if_pos hnear]
      exact ⟨sym, List.mem_of_getElem? hsym, hgreatest, hnear, rfl⟩
    · rw [if_neg hnear]
      exact far_of_isGreatest hgreatest (not_lt.mp hnear)

/-- The search for a line returns the nearest of the lines in the index. -/
theorem Covers.nearestLine (h : t.Covers addrs lines) (query : Int) :
    t.NearestLine lines query := by
  have hsorted : t.lineAddrs.Pairwise (· ≤ ·) := by
    rw [h.lineAddrs, List.pairwise_map]
    exact h.sorted_lines
  rw [NearestLine, lookupSourceLine]
  cases hfloor : floorIndex t.lineAddrs query with
  | none =>
    intro sl hsl hle
    have hmem : sl.address ∈ t.lineAddrs := h.lineAddrs ▸ List.mem_map_of_mem hsl
    have hlt := (floorIndex_eq_none hsorted).mp hfloor _ hmem
    omega
  | some idx =>
    obtain ⟨b, hb, hgreatest⟩ := isGreatest_of_floorIndex hsorted hfloor
    rw [h.lineAddrs] at hb hgreatest
    obtain ⟨sl, hsl, rfl⟩ := Option.map_eq_some_iff.mp (List.getElem?_map ▸ hb)
    have hlt : idx < lines.length := (List.getElem?_eq_some_iff.mp hsl).1
    have hfront : t.sourceLines[idx]? = some sl :=
      (List.prefix_iff_getElem?.mp h.front idx hlt).trans
        ((List.getElem?_eq_getElem hlt).symm.trans hsl)
    simp only [Option.bind_eq_bind, Option.bind_some, hfront]
    by_cases hfar : 0x1000 < query - sl.address
    · rw [if_pos hfar]
      intro sl' hsl' hle
      exact far_of_isGreatest hgreatest hfar _ (List.mem_map_of_mem hsl') hle
    · rw [if_neg hfar]
      exact ⟨sl, List.mem_of_getElem? hsl, hgreatest, not_lt.mp hfar, rfl⟩

end SymbolTable

end Symbols

end AmigaDevbench
