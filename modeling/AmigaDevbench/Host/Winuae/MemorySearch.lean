import AmigaDevbench.Core.Occurrences
import AmigaDevbench.Host.Winuae.HunkLoad

/-!
# Searching the guest's memory

The range is read in blocks, and each block is searched behind the last bytes of the one before
it, one fewer than the pattern has. A search that reaches its limit tells where to go on. The
pages of a search that is repeated there are together the list of all matches of the range.
-/

namespace AmigaDevbench.Winuae

namespace MemorySearch

open Raises HunkLoad Occurrences

/-- `memory_range`. -/
def memoryRange (address length : Val) (maximum : Int) : Except DebugError (Nat × Nat) := do
  let start ← integer address "address" 0xffffffff 0
  let size ← integer length "length" maximum 1
  if start + size > 0x100000000 then
    throw ⟨"Address range wraps the 32-bit address space"⟩
  return (start.toNat, size.toNat)

/-- `hex_bytes`. The pattern leaves `bytes.fromhex` nothing to reject. -/
def hexBytes (value : Val) (maximum : Nat) : Except DebugError Bytes :=
  let error : DebugError :=
    ⟨"Expected 1.." ++ toString maximum ++ " bytes as an even-length hexadecimal string"⟩
  match value with
  | .str text =>
    if text.isEmpty || text.length % 2 ≠ 0 || !text.all (Py.isDigitOf 16) ||
        text.length > maximum * 2 then throw error
    else (Py.fromhex text).mapError fun _ => error
  | .int _ | .bool _ | .list _ | .dict _ => throw error

/-- The arguments of `memory_search`. -/
structure Arguments where
  address : Val
  length : Val
  hex : Val
  maxMatches : Val
  alignment : Val

/-- The arguments as they are used. -/
structure Query where
  start : Nat
  size : Nat
  pattern : Bytes
  limit : Nat
  align : Nat

/-- The checks at the head of `_memory_search`. -/
def accept (args : Arguments) : Except DebugError Query := do
  let (start, size) ← memoryRange args.address args.length (16 * 1024 * 1024)
  let pattern ← hexBytes args.hex 4096
  if pattern.length > size then throw ⟨"The pattern is longer than the search range"⟩
  let limit ← integer args.maxMatches "max_matches" 4096 1
  let align ← integer args.alignment "alignment" 4096 1
  return ⟨start, size, pattern, limit.toNat, align.toNat⟩

/-- The reply. -/
structure Page where
  address : Nat
  length : Nat
  found : List Nat
  limitReached : Bool
  nextAddress : Option Nat
  remaining : Nat
  deriving DecidableEq

/-- `data.find(pattern, place)`. -/
def find (pattern data : Bytes) (place : Nat) : Option Nat :=
  first? (fun j => pattern.isPrefixOf (data.drop j)) place
    (data.length + 1 - pattern.length - place)

/-- The inner loop: the matches so far, and the one that reached the limit. Each round moves on
by at least one byte, so the fuel counts the bytes. -/
def scan (q : Query) (data : Bytes) (base : Nat) :
    Nat → Option Nat → List Nat → List Nat × Option Nat
  | 0, _, hits => (hits, none)
  | _ + 1, none, hits => (hits, none)
  | fuel + 1, some place, hits =>
    if (base + place) % q.align = 0 then
      if hits.length + 1 = q.limit then (hits ++ [base + place], some (base + place))
      else scan q data base fuel (find q.pattern data (place + 1)) (hits ++ [base + place])
    else scan q data base fuel (find q.pattern data (place + 1)) hits

def blockSize : Nat := 65536

/-- `range(0, size, 65536)`. -/
def blockOffsets (size : Nat) : List Nat :=
  (List.range ((size + (blockSize - 1)) / blockSize)).map (· * blockSize)

section Search

variable (target : Target)

/-- The outer loop. -/
def searchBlocks (q : Query) : List Nat → Bytes → List Nat → Load Page
  | [], _, hits => return ⟨q.start, q.size, hits, false, none, 0⟩
  | offset :: offsets, carry, hits => do
    let chunk ← readBytes target (q.start + offset) (min blockSize (q.size - offset))
    let data := carry ++ chunk
    let base := q.start + offset - carry.length
    match scan q data base (data.length + 1) (find q.pattern data 0) hits with
    | (hits, some found) =>
      return ⟨q.start, q.size, hits, true, some (found + 1), q.start + q.size - found - 1⟩
    | (hits, none) =>
      searchBlocks q offsets (data.drop (data.length + 1 - q.pattern.length)) hits

/-- `_memory_search`. -/
def memorySearch (args : Arguments) : Load Page := do
  let q ← liftExcept (accept args)
  searchBlocks target q (blockOffsets q.size) [] []

/-- The request that follows a page: the same one for the rest of the range. -/
def Arguments.resumed (args : Arguments) (next remaining : Nat) : Arguments :=
  { args with address := .int next, length := .int remaining }

/-- The requests that a client makes for all matches: it goes on at the address told while what
remains is not shorter than the pattern. -/
def allPages : Nat → Arguments → Load (List (List Nat))
  | 0, _ => return []
  | fuel + 1, args => do
    let page ← memorySearch target args
    let q ← liftExcept (accept args)
    match page.nextAddress with
    | none => return [page.found]
    | some next =>
      if page.remaining < q.pattern.length then return [page.found]
      else return page.found :: (← allPages fuel (args.resumed next page.remaining))

end Search

/-! ### What is to be found -/

/-- A match at an address. -/
def isMatch (q : Query) (memory : Nat → UInt8) (a : Nat) : Bool :=
  decide (readMemory memory a q.pattern.length = q.pattern) && decide (a % q.align = 0)

/-- The naive search of the first `n` bytes of the range: every address at which the pattern
still fits is tried. -/
def naive (q : Query) (memory : Nat → UInt8) (n : Nat) : List Nat :=
  places (isMatch q memory) q.start (n + 1 - q.pattern.length)

/-- The page that holds the first matches of all. -/
def pageOf (q : Query) (all : List Nat) : Page :=
  { address := q.start
    length := q.size
    found := all.take q.limit
    limitReached := decide (q.limit ≤ all.length)
    nextAddress := all[q.limit - 1]?.map (· + 1)
    remaining := match all[q.limit - 1]? with
      | none => 0
      | some found => q.start + q.size - found - 1 }

/-! ### What is accepted -/

/-- What the checks establish. -/
structure Query.Valid (q : Query) : Prop where
  size_le : q.start + q.size ≤ 0x100000000
  pattern_pos : 0 < q.pattern.length
  pattern_le : q.pattern.length ≤ q.size
  limit_pos : 0 < q.limit

theorem memoryRange_eq_ok_iff {address length : Val} {maximum : Int} {start size : Nat} :
    memoryRange address length maximum = .ok (start, size) ↔
      ∃ a n, integer address "address" 0xffffffff 0 = .ok a ∧
        integer length "length" maximum 1 = .ok n ∧ a + n ≤ 0x100000000 ∧
        start = a.toNat ∧ size = n.toNat := by
  rw [memoryRange, bind_eq_ok_iff]
  refine exists_congr fun a => ⟨?_, ?_⟩
  · rintro ⟨ha, h⟩
    obtain ⟨n, hn, h⟩ := bind_eq_ok_iff.mp h
    simp only at h
    split at h
    · cases h
    · next hwrap =>
      cases h
      exact ⟨n, ha, hn, by omega, rfl, rfl⟩
  · rintro ⟨n, ha, hn, hwrap, rfl, rfl⟩
    refine ⟨ha, bind_eq_ok_iff.mpr ⟨n, hn, ?_⟩⟩
    rw [if_neg (by omega)]
    rfl

/-- What each check lets through. -/
theorem accept_eq_ok_iff {args : Arguments} {q : Query} :
    accept args = .ok q ↔
      memoryRange args.address args.length (16 * 1024 * 1024) = .ok (q.start, q.size) ∧
        hexBytes args.hex 4096 = .ok q.pattern ∧ q.pattern.length ≤ q.size ∧
        (∃ n, integer args.maxMatches "max_matches" 4096 1 = .ok n ∧ q.limit = n.toNat) ∧
        ∃ n, integer args.alignment "alignment" 4096 1 = .ok n ∧ q.align = n.toNat := by
  rw [accept]
  refine ⟨fun h => ?_, ?_⟩
  · obtain ⟨⟨start, size⟩, hrange, h⟩ := bind_eq_ok_iff.mp h
    obtain ⟨pattern, hpattern, h⟩ := bind_eq_ok_iff.mp h
    simp only at h
    split at h
    · cases h
    · next hle =>
      obtain ⟨limit, hlimit, h⟩ := bind_eq_ok_iff.mp h
      obtain ⟨align, halign, h⟩ := bind_eq_ok_iff.mp h
      cases h
      exact ⟨hrange, hpattern, Nat.le_of_not_gt hle, ⟨limit, hlimit, rfl⟩, align, halign, rfl⟩
  · rintro ⟨hrange, hpattern, hle, ⟨limit, hlimit, hl⟩, align, halign, ha⟩
    refine bind_eq_ok_iff.mpr ⟨_, hrange, bind_eq_ok_iff.mpr ⟨_, hpattern, ?_⟩⟩
    simp only
    rw [if_neg (by omega)]
    refine bind_eq_ok_iff.mpr ⟨_, hlimit, bind_eq_ok_iff.mpr ⟨_, halign, ?_⟩⟩
    rw [← hl, ← ha]
    rfl

/-- Two digits at the head of a text are its first byte. -/
theorem length_of_fromhex {c d : Char} {rest : Text} {bytes : Bytes}
    (hc : Py.isDigitOf 16 c = true) (h : Py.fromhex (c :: d :: rest) = .ok bytes) :
    0 < bytes.length := by
  cases hval : Py.digitVal c with
  | none => simp [Py.isDigitOf, hval] at hc
  | some hi =>
    have hspace := (Py.digitVal_eq_some hval).1
    have hblank : c.toNat ∉ [0x09, 0x0a, 0x0b, 0x0c, 0x0d, 0x20] := by
      simp only [Py.intSpace, List.mem_cons, List.not_mem_nil, or_false,
        decide_eq_false_iff_not] at hspace ⊢
      omega
    rw [Py.fromhex, if_neg hblank, hval] at h
    cases hlow : Py.digitVal d with
    | none =>
      rw [hlow] at h
      cases h
    | some lo =>
      rw [hlow] at h
      cases hrest : Py.fromhex rest with
      | error e =>
        rw [hrest] at h
        cases h
      | ok found =>
        rw [hrest] at h
        cases h
        exact Nat.succ_pos _

/-- A text of digits that is not empty has a first byte. -/
theorem length_of_hexBytes {value : Val} {maximum : Nat} {bytes : Bytes}
    (h : hexBytes value maximum = .ok bytes) : 0 < bytes.length := by
  rw [hexBytes.eq_def] at h
  cases value with
  | str text =>
    simp only at h
    split at h
    · cases h
    · next hdigits =>
      simp only [Bool.or_eq_true, Bool.not_eq_true', decide_eq_true_eq, not_or] at hdigits
      obtain ⟨⟨⟨hne, heven⟩, hall⟩, _⟩ := hdigits
      cases hbytes : Py.fromhex text with
      | error e =>
        rw [hbytes] at h
        cases h
      | ok found =>
        rw [hbytes] at h
        cases h
        match text with
        | [] => exact absurd rfl hne
        | [_] => exact absurd Nat.one_ne_zero heven
        | c :: d :: rest => exact length_of_fromhex (by simp_all) hbytes
  | int _ | bool _ | list _ | dict _ => cases h

theorem valid_of_accept {args : Arguments} {q : Query} (h : accept args = .ok q) : q.Valid := by
  obtain ⟨hrange, hpattern, hle, ⟨limit, hlimit, hl⟩, _⟩ := accept_eq_ok_iff.mp h
  obtain ⟨a, n, ha, hn, hwrap, hstart, hsize⟩ := memoryRange_eq_ok_iff.mp hrange
  have hbounds := integer_bounds ha
  have hbounds' := integer_bounds hn
  have hbounds'' := integer_bounds hlimit
  exact {
    size_le := by omega
    pattern_pos := length_of_hexBytes hpattern
    pattern_le := hle
    limit_pos := by omega }

theorem integer_int {n maximum minimum : Int} (name : String) (hmin : minimum ≤ n)
    (hmax : n ≤ maximum) : integer (.int n) name maximum minimum = .ok n := by
  rw [integer]
  exact if_pos ⟨hmin, hmax⟩

/-- A request that is repeated behind a match is accepted while the pattern fits. -/
theorem accept_resumed {args : Arguments} {q : Query} (h : accept args = .ok q) {next n : Nat}
    (hnext : next + n ≤ q.start + q.size) (hn : n ≤ q.size) (hle : q.pattern.length ≤ n) :
    accept (args.resumed next n) = .ok { q with start := next, size := n } := by
  obtain ⟨hrange, hpattern, _, hlimit, halign⟩ := accept_eq_ok_iff.mp h
  obtain ⟨a, k, ha, hk, hwrap, hstart, hsize⟩ := memoryRange_eq_ok_iff.mp hrange
  have hpos := length_of_hexBytes hpattern
  have hbounds := integer_bounds ha
  have hbounds' := integer_bounds hk
  refine accept_eq_ok_iff.mpr
    ⟨memoryRange_eq_ok_iff.mpr ⟨next, n, ?_⟩, hpattern, hle, hlimit, halign⟩
  exact ⟨integer_int _ (by omega) (by omega), integer_int _ (by omega) (by omega), by omega,
    rfl, rfl⟩

/-! ### One block -/

section Blocks

variable {q : Query} {m : Nat → UInt8}

theorem drop_readMemory (m : Nat → UInt8) (a n k : Nat) (h : k ≤ n) :
    (readMemory m a n).drop k = readMemory m (a + k) (n - k) := by
  obtain ⟨d, rfl⟩ : ∃ d, n = k + d := ⟨n - k, by omega⟩
  rw [readMemory_add, List.drop_left' (length_readMemory m a k), Nat.add_sub_cancel_left]

/-- Where the pattern fits into the bytes read, it stands there or not as it does in memory. -/
theorem isPrefixOf_readMemory {pattern : Bytes} {a n j : Nat} (h : j + pattern.length ≤ n) :
    pattern.isPrefixOf ((readMemory m a n).drop j) =
      decide (readMemory m (a + j) pattern.length = pattern) := by
  obtain ⟨d, hd⟩ : ∃ d, n - j = pattern.length + d := ⟨n - j - pattern.length, by omega⟩
  rw [drop_readMemory m a n j (by omega), hd, readMemory_add, Bool.eq_iff_iff,
    List.isPrefixOf_iff_prefix, decide_eq_true_iff, List.prefix_iff_eq_take,
    List.take_left' (length_readMemory _ _ _)]
  exact eq_comm

/-- The inner loop takes the places of the pattern from the current one on. -/
theorem scan_eq (data : Bytes) (base fuel : Nat) (place : Nat) (hits : List Nat)
    (hfuel : data.length + 1 - q.pattern.length - place < fuel) :
    scan q data base fuel (find q.pattern data place) hits =
      upTo q.limit hits (((places (fun j => q.pattern.isPrefixOf (data.drop j)) place
        (data.length + 1 - q.pattern.length - place)).map (base + ·)).filter
          fun a => decide (a % q.align = 0)) := by
  induction fuel generalizing place hits with
  | zero => omega
  | succ fuel ih =>
    cases hfind : find q.pattern data place with
    | none =>
      rw [places_of_first?_eq_none hfind]
      rfl
    | some found =>
      have hmem := first?_mem hfind
      have hrest : place + (data.length + 1 - q.pattern.length - place) - (found + 1) =
          data.length + 1 - q.pattern.length - (found + 1) := by omega
      rw [places_of_first?_eq_some hfind, hrest, List.map_cons, List.filter_cons, scan,
        ih _ _ (by omega), ih _ _ (by omega)]
      by_cases haligned : (base + found) % q.align = 0
      · rw [if_pos haligned, if_pos (decide_eq_true haligned), upTo]
      · rw [if_neg haligned, decide_eq_false haligned]
        rfl

/-- In a window of the memory these are the matches at which the pattern fits. -/
theorem scan_readMemory (hq : 0 < q.pattern.length) (base n : Nat) (hits : List Nat) :
    scan q (readMemory m base n) base (n + 1) (find q.pattern (readMemory m base n) 0) hits =
      upTo q.limit hits (places (isMatch q m) base (n + 1 - q.pattern.length)) := by
  rw [scan_eq _ _ (n + 1) 0 hits (by rw [length_readMemory]; have := hq; omega),
    length_readMemory, Nat.sub_zero]
  congr 1
  have hmatch : places (fun j => q.pattern.isPrefixOf ((readMemory m base n).drop j)) 0
      (n + 1 - q.pattern.length) =
      places (fun j => decide (readMemory m (base + j) q.pattern.length = q.pattern)) 0
        (n + 1 - q.pattern.length) :=
    places_congr fun j _ hj => isPrefixOf_readMemory (by omega)
  rw [hmatch, map_places (fun a => decide (readMemory m a q.pattern.length = q.pattern)),
    filter_places, Nat.add_zero]
  exact places_congr fun a _ _ => Bool.and_comm _ _

/-- The carry behind the first `o` bytes of the range. -/
def carried (q : Query) (m : Nat → UInt8) (o : Nat) : Bytes :=
  readMemory m (q.start + o - min o (q.pattern.length - 1)) (min o (q.pattern.length - 1))

@[simp] theorem length_carried (o : Nat) :
    (carried q m o).length = min o (q.pattern.length - 1) := length_readMemory _ _ _

theorem carried_append (o k : Nat) : carried q m o ++ readMemory m (q.start + o) k =
    readMemory m (q.start + o - min o (q.pattern.length - 1))
      (min o (q.pattern.length - 1) + k) := by
  rw [readMemory_add, carried, Nat.sub_add_cancel (by omega)]

/-- The end of the bytes that were searched is the carry for the next block. -/
theorem drop_carried_append (hq : 0 < q.pattern.length) (o k : Nat) :
    (carried q m o ++ readMemory m (q.start + o) k).drop
      (min o (q.pattern.length - 1) + k + 1 - q.pattern.length) = carried q m (o + k) := by
  rw [carried_append, drop_readMemory _ _ _ _ (by omega), carried]
  congr 1 <;> omega

/-- What is kept of the bytes before makes the blocks meet. -/
theorem naive_add (hq : 0 < q.pattern.length) (o k : Nat) :
    naive q m o ++ places (isMatch q m) (q.start + o - min o (q.pattern.length - 1))
      (min o (q.pattern.length - 1) + k + 1 - q.pattern.length) = naive q m (o + k) := by
  rcases Nat.lt_or_ge o q.pattern.length with hlt | hge
  · have hmin : min o (q.pattern.length - 1) = o := by omega
    have hnone : o + 1 - q.pattern.length = 0 := by omega
    rw [hmin, naive, hnone, Nat.add_sub_cancel]
    rfl
  · have hmin : min o (q.pattern.length - 1) = q.pattern.length - 1 := by omega
    have hcount : o + k + 1 - q.pattern.length = o + 1 - q.pattern.length + k := by omega
    have hblock : q.pattern.length - 1 + k + 1 - q.pattern.length = k := by omega
    have hstart : q.start + (o + 1 - q.pattern.length) = q.start + o - (q.pattern.length - 1) := by
      omega
    rw [hmin, hblock, naive, naive, hcount, places_add, hstart]

/-- One block goes on with the matches that it completes. -/
theorem scan_block (hq : 0 < q.pattern.length) (o k : Nat)
    (hroom : (naive q m o).length < q.limit) :
    scan q (carried q m o ++ readMemory m (q.start + o) k)
      (q.start + o - min o (q.pattern.length - 1)) (min o (q.pattern.length - 1) + k + 1)
      (find q.pattern (carried q m o ++ readMemory m (q.start + o) k) 0) (naive q m o) =
      ((naive q m (o + k)).take q.limit, (naive q m (o + k))[q.limit - 1]?) := by
  rw [carried_append, scan_readMemory hq, upTo_eq hroom, naive_add hq]

/-- The pattern does not fit into fewer bytes than it has. -/
theorem naive_of_lt {n : Nat} (h : n < q.pattern.length) : naive q m n = [] := by
  rw [naive, Nat.sub_eq_zero_of_le h, places_zero]

/-- The matches of a part of the range come first. -/
theorem naive_prefix {o n : Nat} (h : o ≤ n) : naive q m o <+: naive q m n := by
  obtain ⟨d, hd⟩ : ∃ d, n + 1 - q.pattern.length = o + 1 - q.pattern.length + d :=
    ⟨n + 1 - q.pattern.length - (o + 1 - q.pattern.length), by omega⟩
  rw [naive, naive, hd, places_add]
  exact List.prefix_append _ _

/-- The page is settled as soon as the limit is reached. -/
theorem pageOf_initial {first all : List Nat} (h : first <+: all) {found : Nat}
    (hlast : first[q.limit - 1]? = some found) (hlimit : 0 < q.limit) :
    pageOf q all = ⟨q.start, q.size, first.take q.limit, true, some (found + 1),
      q.start + q.size - found - 1⟩ := by
  obtain ⟨rest, rfl⟩ := h
  have hlt := (List.getElem?_eq_some_iff.mp hlast).1
  have hle : q.limit ≤ first.length := by omega
  rw [pageOf, List.getElem?_append_left hlt, hlast, List.take_append_of_le_length hle,
    List.length_append, decide_eq_true (by omega)]
  rfl

theorem pageOf_of_lt {all : List Nat} (h : all.length < q.limit) :
    pageOf q all = ⟨q.start, q.size, all, false, none, 0⟩ := by
  rw [pageOf, List.getElem?_eq_none (by omega), List.take_of_length_le (Nat.le_of_lt h),
    decide_eq_false (by omega)]
  rfl

end Blocks

/-! ### The whole range -/

section Range

variable {target : Target} {P E : Guest → Prop} {q : Query} {m : Nat → UInt8}

/-- What the outer loop relies on: a read within the address space returns the bytes in memory. -/
def Reads (target : Target) (m : Nat → UInt8) (P E : Guest → Prop) : Prop :=
  ∀ address size, address + size ≤ 0x100000000 →
    Triple P (readBytes target address size)
      (fun b s => b = readMemory m address size ∧ P s) E

/-- One block: either the limit is reached in it, or the other ones follow. -/
theorem triple_block (hread : Reads target m P E) (hq : q.Valid) {o : Nat} (ho : o ≤ q.size)
    {offsets : List Nat} (hroom : (naive q m o).length < q.limit)
    (hrest : (naive q m (o + min blockSize (q.size - o))).length < q.limit →
      Triple P (searchBlocks target q offsets (carried q m (o + min blockSize (q.size - o)))
          (naive q m (o + min blockSize (q.size - o))))
        (fun page s => page = pageOf q (naive q m q.size) ∧ P s) E) :
    Triple P (searchBlocks target q (o :: offsets) (carried q m o) (naive q m o))
      (fun page s => page = pageOf q (naive q m q.size) ∧ P s) E := by
  have hpattern := hq.pattern_pos
  have hsize := hq.size_le
  rw [searchBlocks]
  refine triple_bind (hread _ _ (by omega)) fun chunk => ?_
  rintro s ⟨rfl, hs⟩
  simp only [List.length_append, length_carried, length_readMemory, drop_carried_append hpattern]
  rw [scan_block hpattern _ _ hroom]
  cases hlast : (naive q m (o + min blockSize (q.size - o)))[q.limit - 1]? with
  | none =>
    have hlt := List.getElem?_eq_none_iff.mp hlast
    have hlimit := hq.limit_pos
    rw [List.take_of_length_le (by omega)]
    exact hrest (by omega) s hs
  | some found =>
    have hprefix : naive q m (o + min blockSize (q.size - o)) <+: naive q m q.size :=
      naive_prefix (by omega)
    exact ⟨(pageOf_initial hprefix hlast hq.limit_pos).symm, hs⟩

/-- From block `j` on, with the matches of the blocks before it. -/
theorem triple_searchBlocks (hread : Reads target m P E) (hq : q.Valid) (r : Nat) :
    ∀ j, q.size ≤ (j + r) * blockSize → (j + r) * blockSize < q.size + blockSize →
      (naive q m (min q.size (j * blockSize))).length < q.limit →
      Triple P (searchBlocks target q ((List.range' j r).map (· * blockSize))
          (carried q m (min q.size (j * blockSize))) (naive q m (min q.size (j * blockSize))))
        (fun page s => page = pageOf q (naive q m q.size) ∧ P s) E := by
  induction r with
  | zero =>
    intro j hall _ hroom
    rw [Nat.add_zero] at hall
    rw [Nat.min_eq_left hall] at hroom ⊢
    exact triple_pure fun s hs => ⟨(pageOf_of_lt hroom).symm, hs⟩
  | succ r ih =>
    intro j hall hlast hroom
    have hnext := ih (j + 1) (by rwa [Nat.add_right_comm, Nat.add_assoc])
      (by rwa [Nat.add_right_comm, Nat.add_assoc])
    have hj : j * blockSize < q.size := by
      rw [← Nat.add_assoc, Nat.succ_mul, Nat.add_mul] at hlast
      omega
    have hblock : min q.size ((j + 1) * blockSize) =
        j * blockSize + min blockSize (q.size - j * blockSize) := by
      rw [Nat.succ_mul]
      omega
    rw [hblock] at hnext
    rw [Nat.min_eq_right (Nat.le_of_lt hj)] at hroom ⊢
    exact triple_block hread hq (Nat.le_of_lt hj) hroom hnext

/-- The search of an accepted range finds the first matches. -/
theorem triple_search (hread : Reads target m P E) (hq : q.Valid) :
    Triple P (searchBlocks target q (blockOffsets q.size) [] [])
      (fun page s => page = pageOf q (naive q m q.size) ∧ P s) E := by
  have hnone : naive q m (min q.size (0 * blockSize)) = [] := by
    have hpattern := hq.pattern_pos
    rw [Nat.zero_mul, Nat.min_zero, naive_of_lt hpattern]
  have hpos : 0 < blockSize := by decide
  have hdiv := Nat.div_add_mod (q.size + (blockSize - 1)) blockSize
  have hmod := Nat.mod_lt (q.size + (blockSize - 1)) hpos
  rw [Nat.mul_comm] at hdiv
  have hsearch := triple_searchBlocks hread hq ((q.size + (blockSize - 1)) / blockSize) 0
    (by rw [Nat.zero_add]; omega) (by rw [Nat.zero_add]; omega)
    (by rw [hnone]; exact hq.limit_pos)
  rw [hnone, ← List.range_eq_range', Nat.zero_mul, Nat.min_zero] at hsearch
  exact hsearch

end Range

/-! ### Page after page -/

section Pages

variable {target : Target} {P E : Guest → Prop} {q : Query} {m : Nat → UInt8}

/-- The matches of the range are those of the page and those that the next request is about. -/
theorem take_append_resumed {found : Nat}
    (h : (naive q m q.size)[q.limit - 1]? = some found) (hq : q.Valid) :
    (naive q m q.size).take q.limit ++
      naive { q with start := found + 1, size := q.start + q.size - found - 1 } m
        (q.start + q.size - found - 1) = naive q m q.size := by
  have hmem := (mem_places.mp (List.mem_of_getElem? h)).1
  have hpattern := hq.pattern_pos
  have hdrop := drop_places h
  rw [Nat.sub_add_cancel hq.limit_pos] at hdrop
  have hcount : q.start + q.size - found - 1 + 1 - q.pattern.length =
      q.start + (q.size + 1 - q.pattern.length) - (found + 1) := by omega
  rw [← hcount] at hdrop
  have hrest : naive { q with start := found + 1, size := q.start + q.size - found - 1 } m
      (q.start + q.size - found - 1) = (naive q m q.size).drop q.limit := hdrop.symm
  rw [hrest, List.take_append_drop]

theorem triple_memorySearch (hread : Reads target m P E) {args : Arguments}
    (hq : accept args = .ok q) :
    Triple P (memorySearch target args)
      (fun page s => page = pageOf q (naive q m q.size) ∧ P s) E := by
  rw [memorySearch]
  intro s hs
  rw [outcome_bind, outcome_liftExcept, hq]
  exact triple_search hread (valid_of_accept hq) s hs

/-- All pages together hold every match of the range once. -/
theorem triple_allPages (hread : Reads target m P E) (fuel : Nat) :
    ∀ {args : Arguments} {q : Query}, accept args = .ok q → q.size ≤ fuel →
      Triple P (allPages target fuel args)
        (fun pages s => pages.flatten = naive q m q.size ∧ P s) E := by
  induction fuel with
  | zero =>
    intro args q hq hfuel
    have hvalid := valid_of_accept hq
    have hpattern := hvalid.pattern_pos
    have hfits := hvalid.pattern_le
    omega
  | succ fuel ih =>
    intro args q hq hfuel
    have hvalid := valid_of_accept hq
    rw [allPages]
    refine triple_bind (triple_memorySearch hread hq) fun page => ?_
    rintro s ⟨rfl, hs⟩
    rw [outcome_bind, outcome_liftExcept, hq]
    cases hlast : (naive q m q.size)[q.limit - 1]? with
    | none =>
      have hlimit := hvalid.limit_pos
      have hlen := List.getElem?_eq_none_iff.mp hlast
      rw [pageOf_of_lt (by omega)]
      exact And.intro (List.flatten_singleton) hs
    | some found =>
      have hmem := (mem_places.mp (List.mem_of_getElem? hlast)).1
      have hall := take_append_resumed hlast hvalid
      have hpattern := hvalid.pattern_pos
      rw [pageOf_initial (List.prefix_refl _) hlast hvalid.limit_pos]
      simp only
      split
      · next hshort =>
        have hnone : naive { q with start := found + 1, size := q.start + q.size - found - 1 } m
            (q.start + q.size - found - 1) = [] := naive_of_lt hshort
        rw [hnone, List.append_nil] at hall
        exact And.intro (List.flatten_singleton.trans hall) hs
      · next hlong =>
        have hnext := @accept_resumed _ _ hq (found + 1) (q.start + q.size - found - 1)
          (by omega) (by omega) (by omega)
        refine (triple_bind (ih hnext (by simp only; omega)) fun pages => triple_pure ?_) s hs
        rintro s' ⟨hpages, hs'⟩
        refine ⟨?_, hs'⟩
        rw [List.flatten_cons, hpages]
        exact hall

end Pages

/-! ### The guest's memory -/

section Reading

variable {target : Target}

/-- A read that returns has read the memory. -/
theorem reads_memory (target : Target) (m : Nat → UInt8) :
    Reads target m (fun s => s.memory = m) (fun s => s.memory = m) := by
  intro address size _
  refine (triple_readBytes (P := fun m' _ => m' = m) address size).conseq (fun _ h => h) ?_
    fun _ h => h
  rintro b s ⟨hb, hs⟩
  have hm : s.memory = m := hs
  rw [hm] at hb
  exact ⟨hb, hs⟩

/-- The chunks of a read are answered one after the other. -/
theorem returns_readChunks (hanswered : ∀ n, target.fate n = .answered) (address size : Nat)
    (offsets : List Nat) :
    Triple (fun s : Guest => s.connected = true) (readChunks target address size offsets)
      (fun _ s => s.connected = true) (fun _ => False) := by
  induction offsets with
  | nil => exact triple_pure fun _ h => h
  | cons offset offsets ih =>
    rw [readChunks]
    refine triple_bind (Q := fun _ s => s.connected = true) ?_ fun _ =>
      triple_bind (triple_get fun _ h => h) fun _ => triple_bind ih fun _ =>
        triple_pure fun _ h => h
    intro s hs
    have hup : (!s.connected) = false := by rw [hs]; rfl
    rw [sendRequest, outcome_bind, outcome_get]
    simp only [hup, Bool.false_eq_true, if_false, hanswered]
    exact hs

/-- While the target answers, every read returns. -/
theorem reads_answered (hanswered : ∀ n, target.fate n = .answered) (m : Nat → UInt8) :
    Reads target m (fun s => s.memory = m ∧ s.connected = true) (fun _ => False) := by
  intro address size hwrap
  have hreturns : Triple (fun s : Guest => s.connected = true) (readBytes target address size)
      (fun _ s => s.connected = true) (fun _ => False) := by
    rw [readBytes, if_neg (by omega)]
    exact returns_readChunks hanswered address size _
  refine ((reads_memory target m address size hwrap).and hreturns).conseq (fun _ h => h) ?_
    fun _ h => h.2
  rintro b s ⟨⟨hb, hm⟩, hup⟩
  exact ⟨hb, hm, hup⟩

end Reading

/-- An accepted search returns the first matches of the naive one, the pages of a search that is
repeated where each of them tells to go on make up the naive search, and while the target answers
both return. -/
theorem memorySearch_naive (target : Target) (s : Guest) (args : Arguments) (q : Query)
    (hq : accept args = .ok q) :
    (∀ page s', (memorySearch target args).outcome s = (.ok page, s') →
      page = pageOf q (naive q s.memory q.size)) ∧
    (∀ fuel pages s', q.size ≤ fuel → (allPages target fuel args).outcome s = (.ok pages, s') →
      pages.flatten = naive q s.memory q.size) ∧
    (s.connected = true → (∀ n, target.fate n = .answered) →
      (∃ page s', (memorySearch target args).outcome s = (.ok page, s')) ∧
      ∀ fuel, q.size ≤ fuel →
        ∃ pages s', (allPages target fuel args).outcome s = (.ok pages, s')) := by
  refine ⟨fun page s' h => ?_, fun fuel pages s' hfuel h => ?_, fun hup hanswered => ⟨?_, ?_⟩⟩
  · have hpage := triple_memorySearch (reads_memory target s.memory) hq s rfl
    rw [h] at hpage
    exact hpage.1
  · have hpages := triple_allPages (reads_memory target s.memory) fuel hq hfuel s rfl
    rw [h] at hpages
    exact hpages.1
  · exact returns_of_triple (triple_memorySearch (reads_answered hanswered s.memory) hq) ⟨rfl, hup⟩
  · intro fuel hfuel
    exact returns_of_triple
      (triple_allPages (reads_answered hanswered s.memory) fuel hq hfuel) ⟨rfl, hup⟩

/-- Three zero bytes, searched for zeros with two matches to a page. -/
theorem memorySearch_naive_zeros :
    ∃ pages s', (allPages ⟨64, fun _ => .answered, fun _ _ _ => 0, fun _ => none, by decide⟩ 3
        ⟨.int 0, .int 3, .str "00".toList, .int 2, .int 1⟩).outcome
          ⟨fun _ => 0, true, 0, none⟩ = (.ok pages, s') ∧ pages.flatten = [0, 1, 2] := by
  have hsearch := memorySearch_naive
    ⟨64, fun _ => .answered, fun _ _ _ => 0, fun _ => none, by decide⟩
    ⟨fun _ => 0, true, 0, none⟩ ⟨.int 0, .int 3, .str "00".toList, .int 2, .int 1⟩
    ⟨0, 3, [0], 2, 1⟩ rfl
  obtain ⟨pages, s', h⟩ := (hsearch.2.2 rfl fun _ => rfl).2 3 (by decide)
  exact ⟨pages, s', h, (hsearch.2.1 3 pages s' (by decide) h).trans (by decide)⟩

end MemorySearch

end AmigaDevbench.Winuae
