import Mathlib.Data.List.Basic

/-!
# Finding places up to a limit

A search that stops at its limit takes the first places of the list of all places, and a search
resumed behind the last one taken goes through the rest of that list. The list of all places is
the range of numbers filtered by the condition, so it may be scanned piece by piece.
-/

namespace AmigaDevbench

namespace Occurrences

/-- The places with `q` among the `n` numbers from `start` on. -/
def places (q : Nat → Bool) (start n : Nat) : List Nat := (List.range' start n).filter q

section Places

variable {q : Nat → Bool} {start n : Nat}

theorem places_add (q : Nat → Bool) (start m n : Nat) :
    places q start (m + n) = places q start m ++ places q (start + m) n := by
  rw [places, ← List.range'_append_1, List.filter_append]
  rfl

@[simp] theorem places_zero : places q start 0 = [] := rfl

theorem mem_places {a : Nat} : a ∈ places q start n ↔ (start ≤ a ∧ a < start + n) ∧ q a = true := by
  rw [places, List.mem_filter, List.mem_range'_1]

/-- The places of a shifted range. -/
theorem map_places (q : Nat → Bool) (base start n : Nat) :
    (places (fun j => q (base + j)) start n).map (base + ·) = places q (base + start) n := by
  rw [places, places, ← List.map_add_range', List.filter_map]
  rfl

theorem filter_places (q r : Nat → Bool) (start n : Nat) :
    (places q start n).filter r = places (fun a => r a && q a) start n := by
  rw [places, List.filter_filter]
  rfl

theorem places_congr {r : Nat → Bool} (h : ∀ a, start ≤ a → a < start + n → q a = r a) :
    places q start n = places r start n := by
  refine List.filter_congr fun a ha => ?_
  have hrange := List.mem_range'_1.mp ha
  exact h a hrange.1 hrange.2

theorem places_succ (q : Nat → Bool) (start n : Nat) :
    places q start (n + 1) =
      if q start then start :: places q (start + 1) n else places q (start + 1) n := by
  rw [places, List.range'_succ, List.filter_cons]
  rfl

/-- The least place, which is what a search returns. -/
def first? (q : Nat → Bool) (start n : Nat) : Option Nat := (List.range' start n).find? q

theorem places_of_first?_eq_none (h : first? q start n = none) : places q start n = [] := by
  rw [places, List.filter_eq_nil_iff]
  exact List.find?_eq_none.mp h

/-- Behind the least place the other ones follow. -/
theorem places_of_first?_eq_some {a : Nat} (h : first? q start n = some a) :
    places q start n = a :: places q (a + 1) (start + n - (a + 1)) := by
  induction n generalizing start with
  | zero => cases h
  | succ n ih =>
    rw [first?, List.range'_succ, List.find?_cons] at h
    rw [places_succ]
    cases hq : q start with
    | true =>
      rw [hq] at h
      obtain rfl := Option.some.inj h
      rw [if_pos rfl]
      congr 2
      omega
    | false =>
      rw [hq] at h
      rw [if_neg (by simp), ih h]
      congr 2
      omega

theorem first?_mem {a : Nat} (h : first? q start n = some a) : start ≤ a ∧ a < start + n :=
  List.mem_range'_1.mp (List.mem_of_find?_eq_some h)

/-- Behind one of the places the list of places goes on with those of the rest of the range. -/
theorem drop_places {k a : Nat} (h : (places q start n)[k]? = some a) :
    (places q start n).drop (k + 1) = places q (a + 1) (start + n - (a + 1)) := by
  induction n generalizing start k with
  | zero => cases h
  | succ n ih =>
    have hrest : start + (n + 1) = start + 1 + n := by omega
    rw [places_succ] at h ⊢
    split
    · next hq =>
      rw [if_pos hq] at h
      cases k with
      | zero =>
        obtain rfl := Option.some.inj h
        rw [hrest, Nat.add_sub_cancel_left]
        rfl
      | succ k => rw [List.drop_succ_cons, ih h, hrest]
    · next hq =>
      rw [if_neg hq] at h
      rw [ih h, hrest]

end Places

/-! ### Stopping at the limit -/

/-- Take items one by one until `limit` are held, and tell the one that reached the limit. -/
def upTo {α : Type*} (limit : Nat) : List α → List α → List α × Option α
  | held, [] => (held, none)
  | held, x :: xs =>
    if held.length + 1 = limit then (held ++ [x], some x) else upTo limit (held ++ [x]) xs

section UpTo

variable {α : Type*} {limit : Nat} {held : List α}

/-- The items held in the end are the first ones of all. -/
theorem upTo_eq (h : held.length < limit) (xs : List α) :
    upTo limit held xs = ((held ++ xs).take limit, (held ++ xs)[limit - 1]?) := by
  induction xs generalizing held with
  | nil =>
    rw [upTo, List.append_nil, List.take_of_length_le (Nat.le_of_lt h),
      List.getElem?_eq_none (by omega)]
  | cons x xs ih =>
    rw [upTo]
    split
    · next hfull =>
      subst hfull
      have hsplit : held ++ x :: xs = (held ++ [x]) ++ xs := by rw [List.append_assoc]; rfl
      rw [hsplit, List.take_left' (by rw [List.length_append]; rfl), ← hsplit, Nat.add_sub_cancel,
        List.getElem?_append_right (Nat.le_refl _), Nat.sub_self]
      rfl
    · next hroom =>
      rw [ih (by simp only [List.length_append, List.length_cons, List.length_nil]; omega),
        List.append_assoc]
      rfl

end UpTo

end Occurrences

end AmigaDevbench
