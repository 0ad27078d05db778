import Mathlib.Data.Set.Basic
import Mathlib.Order.Bounds.Basic
import AmigaDevbench.Core.Records

/-!
# Prefixes that fit in a buffer

What is written behind a pointer, and how far a list can be written if the cost of its prefixes may
not reach a capacity.
-/

namespace AmigaDevbench

variable {α : Type}

/-! ### Writing to a buffer -/

/-- The cells of a buffer after a list has been written from a position on. -/
def store (cells : Nat → α) (pos : Nat) (xs : List α) : Nat → α := fun i =>
  if i < pos then cells i else xs[i - pos]?.getD (cells i)

variable {cells : Nat → α} {pos : Nat} {xs ys : List α}

theorem store_of_lt {i : Nat} (h : i < pos) : store cells pos xs i = cells i := if_pos h

theorem store_of_le {i : Nat} (h : pos + xs.length ≤ i) : store cells pos xs i = cells i := by
  rw [store, if_neg (by omega), List.getElem?_eq_none (by omega)]
  rfl

theorem store_of_inside {i : Nat} (h : i < xs.length) : store cells pos xs (pos + i) = xs[i] := by
  rw [store, if_neg (by omega), Nat.add_sub_cancel_left, List.getElem?_eq_getElem h]
  rfl

/-- One list behind the other. -/
theorem store_store (cells : Nat → α) (pos : Nat) (xs ys : List α) :
    store (store cells pos xs) (pos + xs.length) ys = store cells pos (xs ++ ys) := by
  funext i
  by_cases hfirst : i < pos + xs.length
  · rw [store_of_lt hfirst]
    by_cases hpos : i < pos
    · rw [store_of_lt hpos, store_of_lt hpos]
    · rw [store, store, if_neg hpos, if_neg hpos, List.getElem?_append_left (by omega)]
  · rw [store, if_neg hfirst, store_of_le (by omega), store, if_neg (by omega),
      List.getElem?_append_right (by omega), Nat.sub_sub]

/-- What is written over is gone. -/
theorem store_over (h : xs.length ≤ ys.length) :
    store (store cells pos xs) pos ys = store cells pos ys := by
  funext i
  by_cases hpos : i < pos
  · rw [store_of_lt hpos, store_of_lt hpos, store_of_lt hpos]
  by_cases hi : i < pos + ys.length
  · obtain ⟨j, rfl⟩ := Nat.exists_eq_add_of_le (Nat.not_lt.mp hpos)
    rw [store_of_inside (by omega), store_of_inside (by omega)]
  · rw [store_of_le (by omega), store_of_le (by omega), store_of_le (by omega)]

/-- A text goes on where its terminator was. -/
theorem store_over_last (cells : Nat → α) (pos : Nat) (xs : List α) (x : α) (hne : ys ≠ []) :
    store (store cells pos (xs ++ [x])) (pos + xs.length) ys = store cells pos (xs ++ ys) := by
  have hlength : [x].length ≤ ys.length := List.length_pos_iff.mpr hne
  rw [← store_store, store_over hlength, store_store]

/-! ### The longest prefix -/

/-- The lengths of the prefixes that cost less than a capacity. -/
def Fitting (cost : List α → Nat) (cap : Nat) (xs : List α) : Set Nat :=
  {k | k ≤ xs.length ∧ cost (xs.take k) < cap}

variable {cost : List α → Nat} {cap k : Nat} {x : α}

theorem fitting_nil (h : cost [] < cap) : IsGreatest (Fitting cost cap []) 0 :=
  ⟨⟨Nat.le_refl 0, h⟩, fun _ hk => hk.1⟩

/-- The whole list fits. -/
theorem isGreatest_length (h : cost xs < cap) : IsGreatest (Fitting cost cap xs) xs.length := by
  refine ⟨⟨Nat.le_refl _, ?_⟩, fun _ hk => hk.1⟩
  rw [List.take_length]
  exact h

/-- The list is as long as its longest prefix that fits exactly if it fits. -/
theorem eq_length_iff (h : IsGreatest (Fitting cost cap xs) k) :
    k = xs.length ↔ cost xs < cap := by
  constructor
  · rintro rfl
    have hfits := h.1.2
    rwa [List.take_length] at hfits
  · exact fun hfits => h.unique (isGreatest_length hfits)

/-- An element that no longer fits adds nothing. -/
theorem isGreatest_concat (h : IsGreatest (Fitting cost cap xs) k) (hx : cap ≤ cost (xs ++ [x])) :
    IsGreatest (Fitting cost cap (xs ++ [x])) k := by
  have htake {j : Nat} (hj : j ≤ xs.length) : (xs ++ [x]).take j = xs.take j :=
    List.take_append_of_le_length hj
  have hlength : (xs ++ [x]).length = xs.length + 1 := List.length_append
  constructor
  · refine ⟨?_, ?_⟩
    · rw [hlength]
      exact Nat.le_add_right_of_le h.1.1
    · rw [htake h.1.1]
      exact h.1.2
  · rintro j ⟨hj, hcost⟩
    rw [hlength] at hj
    rcases Nat.le_or_eq_of_le_succ hj with hle | rfl
    · rw [htake hle] at hcost
      exact h.2 ⟨hle, hcost⟩
    · rw [List.take_of_length_le hlength.le] at hcost
      exact absurd hcost (Nat.not_lt.mpr hx)

/-! ### Joined texts -/

namespace Text

/-- A further piece has a separator in front of it, unless it is the first one. -/
theorem intercalate_concat_eq (c : Char) (pieces : List Text) (piece : Text) :
    [c].intercalate (pieces ++ [piece]) =
      [c].intercalate pieces ++ ((if pieces = [] then [] else [c]) ++ piece) := by
  by_cases h : pieces = []
  · rw [h, if_pos rfl, List.nil_append, List.nil_append, List.intercalate_singleton]
    rfl
  · rw [if_neg h, intercalate_concat [c] piece h, List.append_assoc]

/-- Many copies of a piece, with the separators between them. -/
theorem length_intercalate_replicate (c : Char) (n : Nat) (piece : Text) :
    ([c].intercalate (List.replicate (n + 1) piece)).length =
      piece.length + n * (piece.length + 1) := by
  rw [List.replicate_succ, intercalate_cons_eq, List.length_append, List.map_replicate,
    List.length_flatten, List.map_replicate, List.sum_replicate_nat, List.length_cons]

end Text

end AmigaDevbench
