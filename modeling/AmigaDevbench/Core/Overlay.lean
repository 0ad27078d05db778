import Mathlib.Data.Set.Insert
import Mathlib.Logic.Function.Basic

/-!
# A memory with marked places

A function that equals another one except at the places of a set, where it has one fixed value:
memory in which some words are replaced by a mark. Writing the mark adds a place, and writing the
old value back removes it.
-/

namespace AmigaDevbench

variable {α β : Type*}

open Classical in
/-- The values of `base`, and `mark` at the places of the set. -/
noncomputable def overlay (base : α → β) (marked : Set α) (mark : β) : α → β := fun a =>
  if a ∈ marked then mark else base a

variable {base : α → β} {marked : Set α} {mark : β}

theorem overlay_of_mem {a : α} (h : a ∈ marked) : overlay base marked mark a = mark :=
  if_pos h

theorem overlay_of_notMem {a : α} (h : a ∉ marked) : overlay base marked mark a = base a :=
  if_neg h

@[simp] theorem overlay_empty : overlay base ∅ mark = base :=
  funext fun _ => if_neg (Set.notMem_empty _)

/-- A mark that the base never has shows exactly the marked places. -/
theorem overlay_eq_mark_iff (hmark : ∀ a, base a ≠ mark) (a : α) :
    overlay base marked mark a = mark ↔ a ∈ marked := by
  by_cases h : a ∈ marked
  · simp only [overlay_of_mem h, h]
  · simp only [overlay_of_notMem h, hmark a, h]

variable [DecidableEq α]

/-- Writing the mark. -/
theorem update_overlay_mark (a : α) :
    Function.update (overlay base marked mark) a mark = overlay base (insert a marked) mark := by
  funext b
  by_cases hb : b = a
  · rw [hb, Function.update_self, overlay_of_mem (Set.mem_insert a marked)]
  · rw [Function.update_of_ne hb]
    by_cases hmem : b ∈ marked
    · rw [overlay_of_mem hmem, overlay_of_mem (Set.mem_insert_of_mem a hmem)]
    · have hnew : b ∉ insert a marked := fun h => (Set.mem_insert_iff.mp h).elim hb hmem
      rw [overlay_of_notMem hmem, overlay_of_notMem hnew]

/-- Writing the old value back. -/
theorem update_overlay_base (a : α) :
    Function.update (overlay base marked mark) a (base a) =
      overlay base (marked \ {a}) mark := by
  funext b
  by_cases hb : b = a
  · have hout : a ∉ marked \ {a} := fun h => h.2 rfl
    rw [hb, Function.update_self, overlay_of_notMem hout]
  · rw [Function.update_of_ne hb]
    by_cases hmem : b ∈ marked
    · have hin : b ∈ marked \ {a} := ⟨hmem, hb⟩
      rw [overlay_of_mem hmem, overlay_of_mem hin]
    · have hout : b ∉ marked \ {a} := fun h => hmem h.1
      rw [overlay_of_notMem hmem, overlay_of_notMem hout]

end AmigaDevbench
