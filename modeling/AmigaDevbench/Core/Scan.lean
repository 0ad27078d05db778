import AmigaDevbench.Core.Text

/-!
# Scanning a text

The pieces of a pattern whose neighbours have no character in common: a run of characters of a
class, and a single character. A match is then found without going back, and all matches of a text
are found one behind the other.
-/

namespace AmigaDevbench

namespace Scan

/-- The run of characters of a class at the beginning of a text, which is not empty, and the
rest. -/
def run (p : Char → Bool) (s : Text) : Option (Text × Text) :=
  if s.takeWhile p = [] then none else some (s.takeWhile p, s.dropWhile p)

/-- The rest behind a character. -/
def char (c : Char) : Text → Option Text
  | [] => none
  | d :: s => if d = c then some s else none

/-- What begins with no character of a class. -/
def Stops (p : Char → Bool) (s : Text) : Prop := ∀ c ∈ s.head?, p c = false

variable {p : Char → Bool} {c : Char} {s w rest : Text}

theorem stops_cons (h : p c = false) : Stops p (c :: s) := fun _ hd => by
  cases hd
  exact h

/-- A run is read as a whole. -/
theorem run_append (hw : w ≠ []) (hall : ∀ c ∈ w, p c = true) (hstop : Stops p rest) :
    run p (w ++ rest) = some (w, rest) := by
  have htake : (w ++ rest).takeWhile p = w ∧ (w ++ rest).dropWhile p = rest := by
    cases rest with
    | nil =>
      rw [List.append_nil]
      exact ⟨List.takeWhile_eq_self_iff.mpr hall, List.dropWhile_eq_nil_iff.mpr hall⟩
    | cons d rest =>
      have hd : p d = false := hstop d rfl
      rw [List.takeWhile_append_of_pos hall, List.dropWhile_append_of_pos hall,
        List.takeWhile_cons, List.dropWhile_cons]
      simp [hd]
  rw [run, htake.1, htake.2, if_neg hw]

theorem run_eq_none (h : Stops p s) : run p s = none := by
  cases s with
  | nil => rfl
  | cons d s =>
    have hd : p d = false := h d rfl
    rw [run, List.takeWhile_cons]
    simp [hd]

/-- What a run is made of. -/
theorem run_eq_some (h : run p s = some (w, rest)) :
    s = w ++ rest ∧ w ≠ [] ∧ ∀ c ∈ w, p c = true := by
  rw [run] at h
  split at h
  · cases h
  · next hne =>
    cases h
    exact ⟨(List.takeWhile_append_dropWhile ..).symm, hne, fun c hc => List.mem_takeWhile_imp hc⟩

@[simp] theorem char_cons : char c (c :: s) = some s := if_pos rfl

theorem char_eq_none {d : Char} (h : d ≠ c) : char c (d :: s) = none := if_neg h

theorem char_eq_some (h : char c s = some rest) : s = c :: rest := by
  cases s with
  | nil => cases h
  | cons d s =>
    rw [char] at h
    split at h
    · next heq =>
      cases h
      rw [heq]
    · cases h

/-! ### All matches -/

variable {α : Type} {m : Text → Option (α × Text)}

/-- The matches of a text of at most so many characters. -/
def findAll (m : Text → Option (α × Text)) : Nat → Text → List α
  | 0, _ => []
  | _ + 1, [] => []
  | n + 1, c :: s =>
    match m (c :: s) with
    | some (a, rest) => a :: findAll m n rest
    | none => findAll m n s

/-- `pattern.finditer(s)`. -/
def finditer (m : Text → Option (α × Text)) (s : Text) : List α := findAll m s.length s

/-- A match takes at least one character. -/
def Shortens (m : Text → Option (α × Text)) : Prop :=
  ∀ s a rest, m s = some (a, rest) → rest.length < s.length

theorem findAll_eq (hm : Shortens m) (n : Nat) : ∀ {k : Nat} {s : Text}, s.length ≤ n →
    s.length ≤ k → findAll m n s = findAll m k s := by
  induction n with
  | zero =>
    intro k s hn _
    obtain rfl := List.length_eq_zero_iff.mp (Nat.le_zero.mp hn)
    cases k <;> rfl
  | succ n ih =>
    intro k s hn hk
    cases s with
    | nil => cases k <;> rfl
    | cons c s =>
      cases k with
      | zero => cases hk
      | succ k =>
        rw [List.length_cons] at hn hk
        rw [findAll, findAll]
        cases hcase : m (c :: s) with
        | none => exact ih (by omega) (by omega)
        | some found =>
          obtain ⟨a, rest⟩ := found
          have hshort := hm _ _ _ hcase
          rw [List.length_cons] at hshort
          exact congrArg _ (ih (by omega) (by omega))

@[simp] theorem finditer_nil : finditer m [] = [] := rfl

/-- Behind a match the search goes on. -/
theorem finditer_of_match (hm : Shortens m) {a : α} (h : m s = some (a, rest)) (hs : s ≠ []) :
    finditer m s = a :: finditer m rest := by
  have hshort := hm _ _ _ h
  cases s with
  | nil => exact (hs rfl).elim
  | cons c s =>
    rw [List.length_cons] at hshort
    rw [finditer, List.length_cons, findAll, h]
    exact congrArg _ (findAll_eq hm _ (by omega) (Nat.le_refl _))

/-- Where nothing matches, the search goes on behind the character. -/
theorem finditer_of_none (h : m (c :: s) = none) : finditer m (c :: s) = finditer m s := by
  rw [finditer, List.length_cons, findAll, h]
  rfl

/-- A text in which no match begins is passed over. -/
theorem finditer_append (h : ∀ v c t, w = v ++ c :: t → m (c :: t ++ rest) = none) :
    finditer m (w ++ rest) = finditer m rest := by
  induction w with
  | nil => rfl
  | cons c w ih =>
    have hnone : m (c :: (w ++ rest)) = none := h [] c w rfl
    rw [List.cons_append, finditer_of_none hnone]
    exact ih fun v d t heq => h (c :: v) d t (congrArg _ heq)

end Scan

end AmigaDevbench
