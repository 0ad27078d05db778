import Mathlib.Algebra.Order.Group.Defs
import Mathlib.Data.List.Basic
import Mathlib.Tactic.Abel

/-!
# Moved intervals

A move takes the numbers of an interval to another interval of the same width. Where no two moves
of a list overlap, neither in front of the move nor behind it, the list is a bijection between the
numbers that it covers on its two sides.
-/

namespace AmigaDevbench

/-- An interval and the place to which it is moved. -/
structure Move (α : Type) where
  source : α
  target : α
  width : α

namespace Move

variable {α : Type}

/-- The move back. -/
def swap (p : Move α) : Move α := ⟨p.target, p.source, p.width⟩

theorem map_swap_swap (ps : List (Move α)) : (ps.map swap).map swap = ps := by
  rw [List.map_map]
  exact List.map_id ps

variable [AddCommGroup α]

def image (p : Move α) (a : α) : α := p.target + a - p.source

theorem swap_image_image (p : Move α) (a : α) : p.swap.image (p.image a) = a := by
  simp only [image, swap]
  abel

variable [LinearOrder α] {p q : Move α} {ps : List (Move α)} {a b : α}

/-- The number is one of the interval that is moved. -/
def Covers (p : Move α) (a : α) : Prop := p.source ≤ a ∧ a < p.source + p.width

instance decidableCovers (p : Move α) (a : α) : Decidable (p.Covers a) :=
  inferInstanceAs (Decidable (_ ∧ _))

/-- The intervals do not overlap. -/
def Apart (p q : Move α) : Prop :=
  ¬ (p.source < q.source + q.width ∧ q.source < p.source + p.width)

/-- Two intervals that have a number in common overlap. -/
theorem Apart.not_covers (h : p.Apart q) (hp : p.Covers a) : ¬ q.Covers a :=
  fun hq => h ⟨hp.1.trans_lt hq.2, hq.1.trans_lt hp.2⟩

/-- The places to which a number is moved. -/
def images (ps : List (Move α)) (a : α) : List α :=
  ps.filterMap fun p => if p.Covers a then some (p.image a) else none

theorem mem_images : b ∈ images ps a ↔ ∃ p ∈ ps, p.Covers a ∧ p.image a = b := by
  rw [images, List.mem_filterMap]
  refine exists_congr fun p => and_congr_right fun _ => ?_
  split
  · next h => rw [Option.some.injEq, and_iff_right h]
  · next h => exact ⟨fun hb => absurd hb.symm (Option.some_ne_none b), fun hb => absurd hb.1 h⟩

theorem images_eq_nil (h : ∀ p ∈ ps, ¬ p.Covers a) : images ps a = [] := by
  refine List.eq_nil_iff_forall_not_mem.mpr fun b hb => ?_
  obtain ⟨p, hp, hcovers, -⟩ := mem_images.mp hb
  exact h p hp hcovers

/-- A number goes to as many places as there are intervals that cover it. -/
theorem length_images (ps : List (Move α)) (a : α) :
    (images ps a).length = (ps.filter fun p => p.Covers a).length := by
  induction ps with
  | nil => rfl
  | cons p ps ih =>
    rw [images, List.filterMap_cons, List.filter_cons]
    by_cases h : p.Covers a
    · rw [if_pos h, if_pos (decide_eq_true h), List.length_cons, List.length_cons, ← ih]
      rfl
    · rw [if_neg h, if_neg (by rw [decide_eq_true_iff]; exact h), ← ih]
      rfl

/-- If the intervals are apart, a number that is covered goes to one place. -/
theorem images_eq_singleton (hapart : ps.Pairwise Apart) (hp : p ∈ ps) (h : p.Covers a) :
    images ps a = [p.image a] := by
  induction ps with
  | nil => exact absurd hp List.not_mem_nil
  | cons q ps ih =>
    obtain ⟨hq, hrest⟩ := List.pairwise_cons.mp hapart
    rw [images, List.filterMap_cons]
    rcases List.mem_cons.mp hp with rfl | hmem
    · have hnone : images ps a = [] := images_eq_nil fun r hr => (hq r hr).not_covers h
      rw [if_pos h, ← images, hnone]
    · have hnot : ¬ q.Covers a := fun hcovers => (hq p hmem).not_covers hcovers h
      rw [if_neg hnot]
      exact ih hrest hmem

variable [IsOrderedAddMonoid α]

theorem covers_swap_image (h : p.Covers a) : p.swap.Covers (p.image a) := by
  have himage : p.image a = p.target + (a - p.source) := add_sub_assoc ..
  rw [himage]
  constructor
  · exact le_add_of_nonneg_right (sub_nonneg.mpr h.1)
  · exact add_lt_add_right (sub_lt_iff_lt_add'.mpr h.2) _

theorem images_swap_of_images (htarget : (ps.map swap).Pairwise Apart) (h : images ps a = [b]) :
    images (ps.map swap) b = [a] := by
  obtain ⟨p, hp, hcovers, rfl⟩ := mem_images.mp (h ▸ List.mem_singleton_self b)
  rw [images_eq_singleton htarget (List.mem_map_of_mem hp) (covers_swap_image hcovers),
    swap_image_image]

/-- The moves there and back are inverse to each other. -/
theorem images_swap (hsource : ps.Pairwise Apart) (htarget : (ps.map swap).Pairwise Apart) :
    images ps a = [b] ↔ images (ps.map swap) b = [a] := by
  refine ⟨images_swap_of_images htarget, fun h => ?_⟩
  rw [← map_swap_swap ps] at hsource
  have hthere := images_swap_of_images hsource h
  rwa [map_swap_swap] at hthere

end Move

end AmigaDevbench
