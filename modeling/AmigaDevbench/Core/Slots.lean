import Mathlib.Data.List.FinRange
import Mathlib.Logic.Function.Basic
import AmigaDevbench.Core.Sizes

/-!
# Tables of fixed size

A table is an array whose slots are free or hold an entry. Its loops run over the slots in order:
they find the first entry with a property, or the first free slot. Up to their order, the entries
change by one when one slot is written.
-/

namespace AmigaDevbench

/-- The slots of a table. -/
abbrev Slots (n : Nat) (α : Type*) := Fin n → Option α

namespace Slots

variable {n : Nat} {α β : Type*}

/-- Every slot is free. -/
def empty : Slots n α := fun _ => none

/-- The entries in the order of the slots. -/
def entries (t : Slots n α) : List α := (List.finRange n).filterMap t

/-- The first slot whose entry satisfies the test. -/
def find (t : Slots n α) (p : α → Bool) : Option (Fin n) :=
  (List.finRange n).find? fun i => (t i).any p

/-- The first free slot. -/
def findFree (t : Slots n α) : Option (Fin n) :=
  (List.finRange n).find? fun i => (t i).isNone

/-- Write an entry into a slot. -/
def put (t : Slots n α) (i : Fin n) (a : α) : Slots n α := Function.update t i (some a)

/-- Free a slot. -/
def clear (t : Slots n α) (i : Fin n) : Slots n α := Function.update t i none

/-- Change the entry of a slot. -/
def modify (t : Slots n α) (i : Fin n) (f : α → α) : Slots n α :=
  Function.update t i ((t i).map f)

/-- The slot of the first entry that satisfies the test, or else the first free one. -/
def slotFor (t : Slots n α) (p : α → Bool) : Option (Fin n) := (t.find p).or t.findFree

/-- Write an entry into the slot for it, if there is one. -/
def store (t : Slots n α) (p : α → Bool) (a : α) : Slots n α :=
  match t.slotFor p with
  | some i => t.put i a
  | none => t

/-- Free the slot of the first entry that satisfies the test. -/
def discard (t : Slots n α) (p : α → Bool) : Slots n α :=
  match t.find p with
  | some i => t.clear i
  | none => t

variable {t : Slots n α} {i j : Fin n} {a : α} {p : α → Bool}

@[simp] theorem put_self : t.put i a i = some a := Function.update_self ..

@[simp] theorem put_of_ne (h : j ≠ i) : t.put i a j = t j := Function.update_of_ne h ..

@[simp] theorem clear_self : t.clear i i = none := Function.update_self ..

@[simp] theorem clear_of_ne (h : j ≠ i) : t.clear i j = t j := Function.update_of_ne h ..

@[simp] theorem modify_self {f : α → α} : t.modify i f i = (t i).map f := Function.update_self ..

@[simp] theorem modify_of_ne {f : α → α} (h : j ≠ i) : t.modify i f j = t j :=
  Function.update_of_ne h ..

theorem mem_entries : a ∈ t.entries ↔ ∃ i, t i = some a := by
  simp only [entries, List.mem_filterMap, List.mem_finRange, true_and]

@[simp] theorem entries_empty : (empty : Slots n α).entries = [] := by
  simp [entries, empty]

theorem find_eq_some (h : t.find p = some i) : ∃ a, t i = some a ∧ p a = true := by
  have hfound := List.find?_some h
  exact (Option.any_eq_true ..).mp hfound

theorem find_eq_none : t.find p = none ↔ ∀ i a, t i = some a → p a = false := by
  simp only [find, List.find?_eq_none, List.mem_finRange, true_implies, Bool.not_eq_true,
    Option.any_eq_false]

theorem find_isSome : (t.find p).isSome ↔ ∃ i a, t i = some a ∧ p a = true := by
  rw [← not_iff_not, Option.not_isSome_iff_eq_none, find_eq_none]
  simp

/-- The only entry with the property is found. -/
theorem find_of_unique (hi : t i = some a) (hp : p a = true)
    (hunique : ∀ j b, t j = some b → p b = true → j = i) : t.find p = some i := by
  cases hfind : t.find p with
  | none => exact absurd hp (by simp [find_eq_none.mp hfind i a hi])
  | some j =>
    obtain ⟨b, hj, hb⟩ := find_eq_some hfind
    rw [hunique j b hj hb]

/-- The first slot is the same where the tests come out the same. -/
theorem find_congr {t' : Slots n β} {q : β → Bool} (h : ∀ i, (t i).any p = (t' i).any q) :
    t.find p = t'.find q := by
  rw [find, find, funext h]

theorem findFree_eq_some (h : t.findFree = some i) : t i = none := by
  have hfound := List.find?_some h
  exact Option.isNone_iff_eq_none.mp hfound

theorem findFree_eq_none : t.findFree = none ↔ ∀ i, ∃ a, t i = some a := by
  simp only [findFree, List.find?_eq_none, List.mem_finRange, true_implies, Option.isNone_iff_eq_none,
    ← ne_eq, Option.ne_none_iff_exists']

theorem length_entries_le : t.entries.length ≤ n := by
  have hle := List.length_filterMap_le t (List.finRange n)
  rwa [List.length_finRange] at hle

/-- A table without free slot is full. -/
theorem length_entries_of_full (h : t.findFree = none) : t.entries.length = n := by
  have hsome : ∀ i, ∃ a, t i = some a := findFree_eq_none.mp h
  choose f hf using hsome
  have hentries : t.entries = (List.finRange n).map f := by
    rw [entries, ← List.filterMap_eq_map]
    exact List.filterMap_congr fun i _ => hf i
  rw [hentries, List.length_map, List.length_finRange]

/-- Writing one slot adds its entry to the others, whatever they are. -/
theorem perm_entries_update (t : Slots n α) (i : Fin n) : ∃ rest : List α, ∀ o : Option α,
    (entries (Function.update t i o)).Perm (o.toList ++ rest) := by
  have hmem := List.mem_finRange i
  obtain ⟨front, back, hsplit⟩ := List.append_of_mem hmem
  have hnodup := List.nodup_finRange n
  rw [hsplit, List.nodup_append] at hnodup
  obtain ⟨-, hback, hfront⟩ := hnodup
  refine ⟨front.filterMap t ++ back.filterMap t, fun o => ?_⟩
  have hside : ∀ l : List (Fin n), (∀ j ∈ l, j ≠ i) →
      l.filterMap (Function.update t i o) = l.filterMap t :=
    fun l hl => List.filterMap_congr fun j hj => Function.update_of_ne (hl j hj) ..
  have hleft := hside front fun j hj => hfront j hj i List.mem_cons_self
  have hright := hside back fun j hj heq => (List.nodup_cons.mp hback).1 (heq ▸ hj)
  have hmiddle : (i :: back).filterMap (Function.update t i o) =
      o.toList ++ back.filterMap t := by
    cases o with
    | none => rw [List.filterMap_cons_none (Function.update_self ..), hright]; rfl
    | some a => rw [List.filterMap_cons_some (Function.update_self ..), hright]; rfl
  rw [entries, hsplit, List.filterMap_append, hleft, hmiddle]
  exact List.perm_append_comm_assoc ..

/-- An entry goes into a free slot. -/
theorem perm_put_free (h : t i = none) : (t.put i a).entries.Perm (a :: t.entries) := by
  obtain ⟨rest, hrest⟩ := perm_entries_update t i
  have hbefore := hrest none
  rw [← h, Function.update_eq_self, h] at hbefore
  exact (hrest (some a)).trans (hbefore.symm.cons a)

/-- An entry is replaced, or removed. -/
theorem perm_used (h : t i = some a) : ∃ rest : List α, t.entries.Perm (a :: rest) ∧
    (t.clear i).entries.Perm rest ∧ ∀ b, (t.put i b).entries.Perm (b :: rest) := by
  obtain ⟨rest, hrest⟩ := perm_entries_update t i
  refine ⟨rest, ?_, hrest none, fun b => hrest (some b)⟩
  have hbefore := hrest (some a)
  rw [← h, Function.update_eq_self, h] at hbefore
  exact hbefore

end Slots

end AmigaDevbench
