import Mathlib.Data.List.Perm.Basic
import AmigaDevbench.Core.Slots

/-!
# Tables without gaps

Such a table is a list with a bound. An entry is added at the end unless its key is already there;
then it takes the place of the old one. Removing an entry closes the gap. A table of slots and a
table without gaps that get the same entries hold the same entries, up to their order.
-/

namespace AmigaDevbench

namespace Packed

variable {α κ : Type*} [DecidableEq κ]

/-- Put other entries in the place of the first one with the key. -/
def splice (key : α → κ) (k : κ) (new : List α) : List α → List α
  | [] => []
  | e :: l => if key e = k then new ++ l else e :: splice key k new l

/-- Only the first entry is exchanged. -/
example : splice id 2 [7, 8] [1, 2, 3, 2] = [1, 7, 8, 3, 2] := by simp [splice]

/-- Overwrite the entry with the same key, or add a new one if there is room. -/
def upsert (key : α → κ) (cap : Nat) (l : List α) (a : α) : List α :=
  if key a ∈ l.map key then splice key (key a) [a] l
  else if l.length < cap then l ++ [a]
  else l

/-- Remove the first entry with the key. -/
def remove (key : α → κ) (l : List α) (k : κ) : List α := splice key k [] l

section Splice

variable {key : α → κ} {k : κ} {new l rest : List α} {e : α}

theorem splice_of_notMem (h : k ∉ l.map key) : splice key k new l = l := by
  induction l with
  | nil => rfl
  | cons x l ih =>
    rw [List.map_cons, List.mem_cons, not_or] at h
    rw [splice, if_neg (Ne.symm h.1), ih h.2]

/-- In a table with different keys the entry with the key is exchanged. -/
theorem perm_splice (hnodup : (l.map key).Nodup) (he : key e = k) :
    l.Perm (e :: rest) → (splice key k new l).Perm (new ++ rest) := by
  induction l generalizing rest with
  | nil => exact fun h => nomatch h.length_eq
  | cons x l ih =>
    intro h
    rw [List.map_cons, List.nodup_cons] at hnodup
    rw [splice]
    split_ifs with hx
    · have hxe : e = x := by
        rcases List.mem_cons.mp (h.mem_iff.mpr List.mem_cons_self) with heq | hmem
        · exact heq
        · exact absurd (hx.trans he.symm ▸ List.mem_map_of_mem hmem) hnodup.1
      rw [hxe] at h
      exact h.cons_inv.append_left new
    · have hmem : x ∈ rest := by
        rcases List.mem_cons.mp (h.mem_iff.mp List.mem_cons_self) with rfl | hmem
        · exact absurd he hx
        · exact hmem
      obtain ⟨front, back, hsplit⟩ := List.append_of_mem hmem
      have hrest' : rest.Perm (x :: (front ++ back)) := hsplit ▸ List.perm_middle
      generalize front ++ back = rest' at hrest'
      have hl : l.Perm (e :: rest') :=
        (h.trans ((hrest'.cons e).trans (List.Perm.swap x e rest'))).cons_inv
      calc (x :: splice key k new l).Perm (x :: (new ++ rest')) := (ih hnodup.2 hl).cons x
        _ |>.Perm (new ++ x :: rest') := List.perm_middle.symm
        _ |>.Perm (new ++ rest) := hrest'.symm.append_left new

end Splice

section Upsert

variable {key : α → κ} {cap : Nat} {l rest : List α} {a e : α} {k : κ}

theorem map_splice (l : List α) : (splice key (key a) [a] l).map key = l.map key := by
  induction l with
  | nil => rfl
  | cons e l ih =>
    rw [splice]
    split_ifs with h
    · rw [List.singleton_append, List.map_cons, List.map_cons, h]
    · rw [List.map_cons, List.map_cons, ih]

/-- Keys stay different. -/
theorem nodup_upsert (h : (l.map key).Nodup) : ((upsert key cap l a).map key).Nodup := by
  unfold upsert
  split_ifs with hmem
  · rwa [map_splice]
  · rw [List.map_append, List.map_singleton]
    exact List.nodup_append.mpr ⟨h, List.nodup_singleton _, fun x hx y hy heq =>
      hmem (by rw [← List.mem_singleton.mp hy, ← heq]; exact hx)⟩
  · exact h

theorem sublist_remove (l : List α) : (remove key l k).Sublist l := by
  induction l with
  | nil => exact List.Sublist.refl _
  | cons e l ih =>
    rw [remove, splice]
    split_ifs with h
    · exact List.sublist_cons_self e l
    · exact ih.cons_cons e

theorem nodup_remove (h : (l.map key).Nodup) : ((remove key l k).map key).Nodup :=
  h.sublist ((sublist_remove l).map key)

theorem mem_splice {b : α} {new : List α} (h : b ∈ splice key k new l) : b ∈ new ∨ b ∈ l := by
  induction l with
  | nil => cases h
  | cons e l ih =>
    rw [splice] at h
    split_ifs at h
    · exact (List.mem_append.mp h).imp id (List.mem_cons_of_mem e)
    · rcases List.mem_cons.mp h with rfl | h
      · exact .inr List.mem_cons_self
      · exact (ih h).imp id (List.mem_cons_of_mem e)

theorem mem_upsert {b : α} (h : b ∈ upsert key cap l a) : b = a ∨ b ∈ l := by
  unfold upsert at h
  split_ifs at h
  · exact (mem_splice h).imp List.mem_singleton.mp id
  · exact (List.mem_append.mp h).symm.imp List.mem_singleton.mp id
  · exact .inr h

end Upsert

section Slots

variable {β : Type*} {n : Nat} {info : β → α} {key : α → κ} {t : Slots n β} {l : List α}

/-- A table of slots holds the entries of a table without gaps, under different keys. -/
structure SameEntries (info : β → α) (key : α → κ) (t : Slots n β) (l : List α) : Prop where
  perm : (t.entries.map info).Perm l
  nodup : (l.map key).Nodup

/-- An entry with the key is in both tables or in neither. -/
theorem SameEntries.find_eq_none (h : SameEntries info key t l) {k : κ} :
    t.find (fun e => key (info e) = k) = none ↔ k ∉ l.map key := by
  rw [← (h.perm.map key).mem_iff, List.map_map, Slots.find_eq_none]
  simp only [List.mem_map, Slots.mem_entries, Function.comp_apply, decide_eq_false_iff_not,
    not_exists, not_and]
  exact ⟨fun hall e ⟨i, hi⟩ => hall i e hi, fun hall i e hi => hall e ⟨i, hi⟩⟩

/-- Both tables get an entry: it replaces the one with its key, or there is room in both or in
neither. -/
theorem SameEntries.store (h : SameEntries info key t l) (b : β) :
    SameEntries info key (t.store (fun e => key (info e) = key (info b)) b)
      (upsert key n l (info b)) := by
  refine ⟨?_, nodup_upsert h.nodup⟩
  cases hfind : t.find fun e => key (info e) = key (info b) with
  | some i =>
    obtain ⟨e, hi, he⟩ := Slots.find_eq_some hfind
    obtain ⟨rest, hbefore, -, hafter⟩ := Slots.perm_used hi
    have hmem : key (info b) ∈ l.map key := by
      by_contra hnone
      rw [h.find_eq_none.mpr hnone] at hfind
      cases hfind
    have hl : l.Perm (info e :: rest.map info) := h.perm.symm.trans (hbefore.map info)
    rw [Slots.store, Slots.slotFor, hfind, Option.some_or, upsert, if_pos hmem]
    calc ((t.put i b).entries.map info).Perm ([info b] ++ rest.map info) := (hafter b).map info
      _ |>.Perm (splice key (key (info b)) [info b] l) :=
        (perm_splice h.nodup (of_decide_eq_true he) hl).symm
  | none =>
    have hnone : key (info b) ∉ l.map key := h.find_eq_none.mp hfind
    have hlen : l.length = t.entries.length := by
      rw [← h.perm.length_eq, List.length_map]
    rw [Slots.store, Slots.slotFor, hfind, Option.none_or, upsert, if_neg hnone]
    cases hfree : t.findFree with
    | some i =>
      have hput := Slots.perm_put_free (a := b) (Slots.findFree_eq_some hfree)
      have hle := hput.length_eq ▸ Slots.length_entries_le (t := t.put i b)
      rw [List.length_cons] at hle
      rw [if_pos (by omega)]
      calc ((t.put i b).entries.map info).Perm (info b :: t.entries.map info) := hput.map info
        _ |>.Perm (info b :: l) := h.perm.cons _
        _ |>.Perm (l ++ [info b]) := (List.perm_append_singleton _ _).symm
    | none =>
      rw [if_neg (by rw [hlen, Slots.length_entries_of_full hfree]; omega)]
      exact h.perm

/-- The entry with a key is removed from both tables. -/
theorem SameEntries.discard (h : SameEntries info key t l) (k : κ) :
    SameEntries info key (t.discard fun e => key (info e) = k) (remove key l k) := by
  refine ⟨?_, nodup_remove h.nodup⟩
  cases hfind : t.find fun e => key (info e) = k with
  | some i =>
    obtain ⟨e, hi, he⟩ := Slots.find_eq_some hfind
    obtain ⟨rest, hbefore, hafter, -⟩ := Slots.perm_used hi
    have hl : l.Perm (info e :: rest.map info) := h.perm.symm.trans (hbefore.map info)
    rw [Slots.discard, hfind, remove]
    calc ((t.clear i).entries.map info).Perm ([] ++ rest.map info) := hafter.map info
      _ |>.Perm (splice key k [] l) := (perm_splice h.nodup (of_decide_eq_true he) hl).symm
  | none =>
    rw [Slots.discard, hfind, remove, splice_of_notMem (h.find_eq_none.mp hfind)]
    exact h.perm

end Slots

end Packed

end AmigaDevbench
