import AmigaDevbench.Core.Occurrences
import AmigaDevbench.Daemon.Commands
import AmigaDevbench.Daemon.Memory

/-!
# The SEARCH command

The loop runs over the offsets at which the pattern fits into the range, whose size is cut to one
mebibyte, and stops at 32 matches. Its bound is an unsigned difference, so the results below are
about patterns that are not longer than the range.
-/

namespace AmigaDevbench.Daemon

open Occurrences

/-- The variables of the loop, with the addresses it has read and the rounds it has made. -/
structure Search where
  i : Nat
  found : List Nat
  examined : List Nat
  rounds : Nat
  deriving DecidableEq, Repr

/-- The inner loop: whether the pattern stands at an offset, and the addresses read. -/
def compareAt (memory : Memory) (address : Nat) : Bytes → Nat → Bool × List Nat
  | [], _ => (true, [])
  | b :: bs, k =>
    if memory (wrap address k) ≠ b then (false, [wrap address k])
    else ((compareAt memory address bs (k + 1)).1,
      wrap address k :: (compareAt memory address bs (k + 1)).2)

/-- The most matches. -/
def maxMatches : Nat := 32

/-- One round. -/
def Search.round (memory : Memory) (address : Nat) (pattern : Bytes) (s : Search) : Search :=
  let (found, examined) := compareAt memory address pattern s.i
  { i := (s.i + 1) % 2 ^ 32
    found := if found then s.found ++ [wrap address s.i] else s.found
    examined := s.examined ++ examined
    rounds := s.rounds + 1 }

/-- The loop, with the rounds it is given; `none` when it needs more. -/
def searchLoop (memory : Memory) (address bound : Nat) (pattern : Bytes) :
    Nat → Search → Option Search
  | 0, s => if s.i ≤ bound ∧ s.found.length < maxMatches then none else some s
  | fuel + 1, s =>
    if s.i ≤ bound ∧ s.found.length < maxMatches then
      searchLoop memory address bound pattern fuel (s.round memory address pattern)
    else some s

/-- The most bytes that are searched. -/
def maxSearch : Nat := 1048576

/-- The loop of `sys_handle_search`: it runs while `i <= size - pat_len`, in 32 bits. -/
def search (memory : Memory) (fuel address size : Nat) (pattern : Bytes) : Option Search :=
  searchLoop memory address ((min size maxSearch + 2 ^ 32 - pattern.length) % 2 ^ 32) pattern fuel
    ⟨0, [], [], 0⟩

/-- `"%lx"`. -/
def hexLong (n : Nat) : Text := Nat.toDigits 16 n

/-- The reply for the matches. -/
def searchLine (found : List Nat) : Text :=
  "SEARCH|".toList ++ decimal found.length ++ match found with
    | [] => []
    | a :: rest => '|' :: hexLong a ++ rest.flatMap fun b => ',' :: hexLong b

/-- The pattern that is searched for: the digits fill a buffer of 64 bytes. -/
def searchPattern (digits : Text) : Bytes := ((patternBytes digits).take 64).map UInt8.ofNat

/-- `sys_handle_search` behind the reading of its fields. -/
def handleSearch (memory : Memory) (fuel address size : Nat) (digits : Text) : Option Text :=
  if searchPattern digits = [] then some "ERR|SEARCH|Empty pattern".toList
  else if address < 0x100 then some "ERR|SEARCH|Invalid memory address".toList
  else (search memory fuel address size (searchPattern digits)).map fun s => searchLine s.found

/-! ### What the loop finds -/

section Results

variable {memory : Memory} {address : Nat}

theorem wrap_wrap (address i j : Nat) : wrap (wrap address i) j = wrap address (i + j) := by
  unfold wrap
  omega

/-- The pattern stands at an offset. -/
def standsAt (memory : Memory) (address : Nat) (pattern : Bytes) (k : Nat) : Bool :=
  decide (readBytes memory (wrap address k) pattern.length = pattern)

theorem standsAt_cons (b : UInt8) (bs : Bytes) (k : Nat) :
    standsAt memory address (b :: bs) k =
      (decide (memory (wrap address k) = b) && standsAt memory address bs (k + 1)) := by
  have hread : readBytes memory (wrap address k) (bs.length + 1) =
      memory (wrap address k) :: readBytes memory (wrap address (k + 1)) bs.length := by
    rw [readBytes, List.range_succ_eq_map, List.map_cons, List.map_map, readBytes, wrap_wrap]
    congr 1
    refine List.map_congr_left fun i _ => ?_
    simp only [Function.comp_apply, wrap_wrap, Nat.succ_eq_add_one, Nat.add_comm, Nat.add_left_comm]
  rw [standsAt, List.length_cons, hread, Bool.eq_iff_iff, Bool.and_eq_true, decide_eq_true_iff,
    decide_eq_true_iff, standsAt, decide_eq_true_iff, List.cons.injEq]

theorem compareAt_fst (pattern : Bytes) (k : Nat) :
    (compareAt memory address pattern k).1 = standsAt memory address pattern k := by
  induction pattern generalizing k with
  | nil => rfl
  | cons b bs ih =>
    rw [standsAt_cons, compareAt, ← ih (k + 1)]
    by_cases hb : memory (wrap address k) = b
    · rw [if_neg (not_not_intro hb), decide_eq_true hb, Bool.true_and]
    · rw [if_pos hb, decide_eq_false hb, Bool.false_and]

/-- No byte behind the place of the pattern is read. -/
theorem mem_compareAt {pattern : Bytes} {k a : Nat}
    (h : a ∈ (compareAt memory address pattern k).2) :
    ∃ o, k ≤ o ∧ o < k + pattern.length ∧ a = wrap address o := by
  induction pattern generalizing k with
  | nil => cases h
  | cons b bs ih =>
    rw [compareAt] at h
    split at h
    · exact ⟨k, Nat.le_refl _, by simp, List.mem_singleton.mp h⟩
    · rcases List.mem_cons.mp h with rfl | h
      · exact ⟨k, Nat.le_refl _, by simp, rfl⟩
      · obtain ⟨o, hle, hlt, ho⟩ := ih h
        rw [List.length_cons]
        exact ⟨o, by omega, by omega, ho⟩

/-- The matches of a round. -/
theorem found_round (memory : Memory) (address : Nat) (pattern : Bytes) (s : Search) :
    (s.round memory address pattern).found = s.found ++
      (if standsAt memory address pattern s.i then [wrap address s.i] else []) := by
  simp only [Search.round, compareAt_fst]
  split
  · rfl
  · exact (List.append_nil _).symm

theorem mem_examined_round {pattern : Bytes} {s : Search} {a : Nat}
    (h : a ∈ (s.round memory address pattern).examined) :
    a ∈ s.examined ∨ ∃ o < s.i + pattern.length, a = wrap address o := by
  rcases List.mem_append.mp h with h | h
  · exact .inl h
  · obtain ⟨o, _, hlt, ho⟩ := mem_compareAt h
    exact .inr ⟨o, hlt, ho⟩

/-- The loop with `n` offsets left. -/
theorem searchLoop_eq (memory : Memory) (address : Nat) {bound : Nat}
    (hbound : bound < 2 ^ 32 - 1) (pattern : Bytes) (n : Nat) :
    ∀ (fuel : Nat) (s : Search), s.i + n = bound + 1 → s.found.length ≤ maxMatches → n ≤ fuel →
      ∃ r, searchLoop memory address bound pattern fuel s = some r ∧
        r.found = (s.found ++ (places (standsAt memory address pattern) s.i n).map
          (wrap address)).take maxMatches ∧
        r.rounds ≤ s.rounds + n ∧
        ∀ a ∈ r.examined, a ∈ s.examined ∨ ∃ o < bound + pattern.length, a = wrap address o := by
  induction n with
  | zero =>
    intro fuel s hi hlen _
    have hdone : ¬ (s.i ≤ bound ∧ s.found.length < maxMatches) := by omega
    refine ⟨s, ?_, ?_, Nat.le_refl _, fun a ha => .inl ha⟩
    · cases fuel with
      | zero => rw [searchLoop, if_neg hdone]
      | succ fuel => rw [searchLoop, if_neg hdone]
    · rw [places_zero, List.map_nil, List.append_nil, List.take_of_length_le hlen]
  | succ n ih =>
    intro fuel s hi hlen hfuel
    obtain ⟨fuel, rfl⟩ : ∃ f, fuel = f + 1 := ⟨fuel - 1, by omega⟩
    rw [searchLoop]
    by_cases hroom : s.found.length < maxMatches
    · have hnext : (s.round memory address pattern).i = s.i + 1 := Nat.mod_eq_of_lt (by omega)
      have hfound := found_round memory address pattern s
      have hlen' : (s.round memory address pattern).found.length ≤ maxMatches := by
        rw [hfound, List.length_append]
        split
        · exact hroom
        · exact hlen
      obtain ⟨r, hr, hall, hrounds, hexamined⟩ :=
        ih fuel (s.round memory address pattern) (by omega) hlen' (by omega)
      refine ⟨r, ?_, ?_, ?_, fun a ha => ?_⟩
      · rw [if_pos ⟨by omega, hroom⟩, hr]
      · rw [hall, hfound, hnext, places_succ, List.append_assoc]
        split
        · rfl
        · rfl
      · have hone : (s.round memory address pattern).rounds = s.rounds + 1 := rfl
        omega
      · rcases hexamined a ha with h | h
        · rcases mem_examined_round h with h | ⟨o, hlt, ho⟩
          · exact .inl h
          · exact .inr ⟨o, by omega, ho⟩
        · exact .inr h
    · refine ⟨s, by rw [if_neg (by omega)], ?_, Nat.le_add_right _ _, fun a ha => .inl ha⟩
      have hfull : s.found.length = maxMatches := by omega
      rw [← hfull, List.take_left]

/-- What the loop makes of a range that is not shorter than the pattern. -/
theorem search_eq (memory : Memory) (address size : Nat) {pattern : Bytes}
    (hpos : 0 < pattern.length)
    (hle : pattern.length ≤ min size maxSearch) {fuel : Nat} (hfuel : min size maxSearch ≤ fuel) :
    ∃ r, search memory fuel address size pattern = some r ∧
      r.found = ((places (standsAt memory address pattern) 0
        (min size maxSearch + 1 - pattern.length)).map (wrap address)).take maxMatches ∧
      r.rounds ≤ min size maxSearch ∧
      ∀ a ∈ r.examined, ∃ o < min size maxSearch, a = wrap address o := by
  have hmax : min size maxSearch ≤ 1048576 := Nat.min_le_right _ _
  have hbound : (min size maxSearch + 2 ^ 32 - pattern.length) % 2 ^ 32 =
      min size maxSearch - pattern.length := by omega
  have hlt : min size maxSearch - pattern.length < 2 ^ 32 - 1 := by omega
  obtain ⟨r, hr, hfound, hrounds, hexamined⟩ := searchLoop_eq memory address hlt pattern
    (min size maxSearch + 1 - pattern.length) fuel ⟨0, [], [], 0⟩ (by simp only; omega)
    (Nat.zero_le _) (by omega)
  refine ⟨r, by rw [search, hbound, hr], hfound, by simp only at hrounds; omega, fun a ha => ?_⟩
  rcases hexamined a ha with h | ⟨o, hlt, ho⟩
  · cases h
  · exact ⟨o, by omega, ho⟩

/-- With the range cut to one mebibyte and a pattern that is not longer than it, the loop makes no
more rounds than the range has bytes, reads no others, and the reply names the first 32 of all
places at which the pattern lies in the range, in ascending order. -/
theorem handleSearch_exact (memory : Memory) (address size : Nat) (digits : Text)
    (haddress : 0x100 ≤ address) (hpattern : searchPattern digits ≠ [])
    (hle : (searchPattern digits).length ≤ min size maxSearch) (fuel : Nat)
    (hfuel : min size maxSearch ≤ fuel) :
    ∃ r, search memory fuel address size (searchPattern digits) = some r ∧
      handleSearch memory fuel address size digits = some (searchLine r.found) ∧
      r.rounds ≤ min size maxSearch ∧
      (∀ a ∈ r.examined, ∃ o < min size maxSearch, a = wrap address o) ∧
      r.found = (((List.range (min size maxSearch + 1 - (searchPattern digits).length)).filter
        (standsAt memory address (searchPattern digits))).take 32).map (wrap address) := by
  obtain ⟨r, hr, hfound, hrounds, hexamined⟩ :=
    search_eq memory address size (List.length_pos_iff.mpr hpattern) hle hfuel
  refine ⟨r, hr, ?_, hrounds, hexamined, ?_⟩
  · rw [handleSearch, if_neg hpattern, if_neg (by omega), hr]
    rfl
  · rw [hfound, List.map_take, List.range_eq_range']
    rfl

/-- Three zero bytes from `0x100` on. -/
theorem handleSearch_exact_zeros :
    ∃ r, search (fun _ => 0) 3 0x100 3 (searchPattern "00".toList) = some r ∧
      r.found = [0x100, 0x101, 0x102] := by
  obtain ⟨r, hr, _, _, _, hfound⟩ := handleSearch_exact (fun _ => 0) 0x100 3 "00".toList (by decide)
    (by decide) (by decide) 3 (by decide)
  exact ⟨r, hr, hfound.trans (by decide)⟩

/-- A byte `ff` behind the first mebibyte of zeros. -/
def farByte : Memory := fun a => if a = 0x180100 then 0xff else 0

/-- A match behind the first mebibyte of the range is not reported. -/
theorem search_incomplete : ¬ ∀ (memory : Memory) (address size fuel : Nat) (pattern : Bytes)
    (r : Search), 0x100 ≤ address → pattern ≠ [] → search memory fuel address size pattern = some r →
      r.found = ((places (standsAt memory address pattern) 0 (size + 1 - pattern.length)).map
        (wrap address)).take 32 := by
  intro h
  have hstands : ∀ k, standsAt farByte 0x100 [0xff] k = decide (wrap 0x100 k = 0x180100) := by
    intro k
    rw [standsAt_cons, Bool.eq_iff_iff, Bool.and_eq_true, decide_eq_true_iff, decide_eq_true_iff,
      farByte]
    split
    · next hk => exact iff_of_true ⟨rfl, rfl⟩ hk
    · next hk => exact iff_of_false (fun hb => absurd hb.1 (by decide)) hk
  have hplace : standsAt farByte 0x100 [0xff] 0x180000 = true := (hstands _).trans rfl
  have hbefore : places (standsAt farByte 0x100 [0xff]) 0 0x100000 = [] := by
    refine List.filter_eq_nil_iff.mpr fun k hk => ?_
    have hlt := (List.mem_range'_1.mp hk).2
    have hne : wrap 0x100 k ≠ 0x180100 := by
      unfold wrap
      omega
    rw [hstands, decide_eq_false hne]
    exact Bool.false_ne_true
  have hpos : 0 < ([0xff] : Bytes).length := Nat.one_pos
  obtain ⟨r, hr, hfound, _⟩ := search_eq farByte 0x100 0x200000 hpos (by decide) (Nat.le_refl _)
  have hcount : min 0x200000 maxSearch + 1 - ([0xff] : Bytes).length = 0x100000 := rfl
  have hall := h farByte 0x100 0x200000 _ [0xff] r (Nat.le_refl _) (List.cons_ne_nil _ _) hr
  rw [hfound, hcount, hbefore] at hall
  have hnone := (List.take_eq_nil_iff.mp hall.symm).resolve_left (by decide)
  have hmem : 0x180000 ∈ places (standsAt farByte 0x100 [0xff]) 0
      (0x200000 + 1 - ([0xff] : Bytes).length) :=
    mem_places.mpr ⟨⟨Nat.zero_le _, by decide⟩, hplace⟩
  rw [List.map_eq_nil_iff.mp hnone] at hmem
  cases hmem

end Results

end AmigaDevbench.Daemon
