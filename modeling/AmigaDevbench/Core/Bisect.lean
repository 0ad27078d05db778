import Mathlib.Data.List.Sort
import Mathlib.Order.Bounds.Basic

/-!
# Bisection

The elements of a sorted list that are not above a value are those in front of a position, which is
found by halving. The one before that position is the greatest of them.
-/

namespace AmigaDevbench

namespace Bisect

variable {α : Type*} [LinearOrder α]

/-- The loop of `bisect_right` between two positions. -/
def search (a : List α) (x : α) (lo hi : Nat) (hhi : hi ≤ a.length) : Nat :=
  if hlt : lo < hi then
    have hmid : (lo + hi) / 2 < a.length := by omega
    if x < a[(lo + hi) / 2] then search a x lo ((lo + hi) / 2) hmid.le
    else search a x ((lo + hi) / 2 + 1) hi hhi
  else lo
termination_by hi - lo

/-- `bisect_right(a, x)` -/
def bisectRight (a : List α) (x : α) : Nat := search a x 0 a.length (Nat.le_refl _)

/-- `bisect_right(a, x) - 1` if that is not negative. -/
def floorIndex (a : List α) (x : α) : Option Nat :=
  match bisectRight a x with
  | 0 => none
  | i + 1 => some i

variable {a : List α} {x : α}

/-- A list that is sorted by a key. -/
theorem pairwise_mergeSort_key {β : Type*} (f : β → α) (l : List β) :
    (l.mergeSort fun a b => f a ≤ f b).Pairwise fun a b => f a ≤ f b := by
  have hsorted : (l.mergeSort fun a b => f a ≤ f b).Pairwise
      fun a b => decide (f a ≤ f b) = true := by
    refine List.pairwise_mergeSort (fun a b c hab hbc => ?_) (fun a b => ?_) l
    · exact decide_eq_true ((of_decide_eq_true hab).trans (of_decide_eq_true hbc))
    · simpa using le_total (f a) (f b)
  exact hsorted.imp of_decide_eq_true

/-- A sorted list rises with the position. -/
theorem getElem_le_getElem (ha : a.Pairwise (· ≤ ·)) {i j : Nat} (hij : i ≤ j)
    (hj : j < a.length) : a[i] ≤ a[j] := by
  rcases Nat.eq_or_lt_of_le hij with rfl | hlt
  · exact le_refl _
  · exact List.pairwise_iff_getElem.mp ha i j _ hj hlt

/-- Between a position with no greater element before it and one with greater elements behind it
only, the search ends where the elements become greater. -/
theorem search_spec (ha : a.Pairwise (· ≤ ·)) (lo hi : Nat) (hhi : hi ≤ a.length) (hle : lo ≤ hi)
    (hbelow : ∀ j (hj : j < a.length), j < lo → a[j] ≤ x)
    (habove : ∀ j (hj : j < a.length), hi ≤ j → x < a[j]) :
    search a x lo hi hhi ≤ a.length ∧
      ∀ j (hj : j < a.length), a[j] ≤ x ↔ j < search a x lo hi hhi := by
  fun_induction search a x lo hi hhi with
  | case1 lo hi hhi hlt hmid hless ih =>
    refine ih (by omega) hbelow fun j hj hge => ?_
    exact hless.trans_le (getElem_le_getElem ha hge hj)
  | case2 lo hi hhi hlt hmid hless ih =>
    refine ih (by omega) (fun j hj hj' => ?_) habove
    exact (getElem_le_getElem ha (Nat.lt_succ_iff.mp hj') hmid).trans (not_lt.mp hless)
  | case3 lo hi hhi hlt =>
    refine ⟨by omega, fun j hj => ⟨fun hx => ?_, hbelow j hj⟩⟩
    by_contra hge
    exact absurd (habove j hj (by omega)) (not_lt.mpr hx)

theorem bisectRight_le (ha : a.Pairwise (· ≤ ·)) : bisectRight a x ≤ a.length :=
  (search_spec ha 0 a.length (Nat.le_refl _) (Nat.zero_le _) (fun _ _ h => absurd h (by omega))
    fun _ _ h => absurd h (by omega)).1

/-- The elements that are not above the value stand before the position. -/
theorem getElem_le_iff (ha : a.Pairwise (· ≤ ·)) {j : Nat} (hj : j < a.length) :
    a[j] ≤ x ↔ j < bisectRight a x :=
  (search_spec ha 0 a.length (Nat.le_refl _) (Nat.zero_le _) (fun _ _ h => absurd h (by omega))
    fun _ _ h => absurd h (by omega)).2 j hj

theorem floorIndex_eq_none (ha : a.Pairwise (· ≤ ·)) :
    floorIndex a x = none ↔ ∀ b ∈ a, x < b := by
  have hzero : floorIndex a x = none ↔ bisectRight a x = 0 := by
    rw [floorIndex]
    cases bisectRight a x with
    | zero => exact iff_of_true rfl rfl
    | succ i => exact iff_of_false (by simp) (by simp)
  rw [hzero]
  constructor
  · intro h b hb
    obtain ⟨j, hj, rfl⟩ := List.getElem_of_mem hb
    refine not_le.mp fun hle => ?_
    have hlt := (getElem_le_iff ha hj).mp hle
    omega
  · intro h
    by_contra hne
    have hlength := bisectRight_le (x := x) ha
    have hlt : 0 < a.length := by omega
    have hle := (getElem_le_iff ha hlt).mpr (Nat.pos_of_ne_zero hne)
    exact absurd (h _ (List.getElem_mem hlt)) (not_lt.mpr hle)

/-- The position found is that of the greatest element that is not above the value. -/
theorem isGreatest_of_floorIndex (ha : a.Pairwise (· ≤ ·)) {i : Nat}
    (h : floorIndex a x = some i) :
    ∃ b, a[i]? = some b ∧ IsGreatest {c | c ∈ a ∧ c ≤ x} b := by
  have hi : bisectRight a x = i + 1 := by
    rw [floorIndex] at h
    split at h
    · cases h
    · next heq =>
      cases h
      exact heq
  have hlength := bisectRight_le (x := x) ha
  have hlt : i < a.length := by omega
  refine ⟨a[i], List.getElem?_eq_getElem hlt, ⟨List.getElem_mem hlt, ?_⟩, ?_⟩
  · exact (getElem_le_iff ha hlt).mpr (by omega)
  · rintro c ⟨hc, hle⟩
    obtain ⟨j, hj, rfl⟩ := List.getElem_of_mem hc
    have hj' := (getElem_le_iff ha hj).mp hle
    exact getElem_le_getElem ha (by omega) hlt

omit [LinearOrder α] in
/-- A condition that holds in front of a position and not behind it holds of so many elements at the
front. -/
theorem length_takeWhile {p : α → Bool} {a : List α} {m : Nat} (hm : m ≤ a.length)
    (h : ∀ j (hj : j < a.length), p a[j] = true ↔ j < m) : (a.takeWhile p).length = m := by
  induction a generalizing m with
  | nil => exact (Nat.le_zero.mp hm).symm
  | cons b a ih =>
    have hfirst := h 0 (Nat.zero_lt_succ _)
    rw [List.getElem_cons_zero] at hfirst
    rw [List.takeWhile_cons]
    cases m with
    | zero =>
      have hb : ¬ p b = true := mt hfirst.mp (Nat.lt_irrefl 0)
      rw [if_neg hb, List.length_nil]
    | succ m =>
      rw [if_pos (hfirst.mpr (Nat.zero_lt_succ m)), List.length_cons,
        ih (Nat.le_of_succ_le_succ hm)]
      intro j hj
      have hnext := h (j + 1) (Nat.succ_lt_succ hj)
      rw [List.getElem_cons_succ] at hnext
      exact hnext.trans Nat.succ_lt_succ_iff

/-- In front of the position are the elements up to the value. -/
theorem bisectRight_eq (ha : a.Pairwise (· ≤ ·)) :
    bisectRight a x = (a.takeWhile (· ≤ x)).length := by
  refine (length_takeWhile (bisectRight_le ha) fun j hj => ?_).symm
  rw [decide_eq_true_eq]
  exact getElem_le_iff ha hj

end Bisect

end AmigaDevbench
