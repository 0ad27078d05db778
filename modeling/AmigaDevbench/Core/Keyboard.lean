import Mathlib.Data.Finset.Erase
import Mathlib.Data.Finset.Lattice.Lemmas
import Mathlib.Data.Finset.SDiff
import Mathlib.Data.List.Nodup

/-!
# Keys that are pressed and released

A keyboard knows which keys are held. A key that is pressed types what its legend says among the
keys that are held, and neither a held key can be pressed again nor another one be released. A chord
is pressed in its order and released in the opposite order, which leaves the held keys as they were.
-/

namespace AmigaDevbench

/-- What happens to a key. -/
inductive Stroke (κ : Type*) where
  | down (key : κ)
  | up (key : κ)

namespace Keyboard

/-- The keys that are held, and what has been typed. -/
structure State (κ γ : Type*) where
  held : Finset κ
  typed : List γ

variable {κ γ : Type*} [DecidableEq κ] (legend : Finset κ → κ → Option γ)

/-- One stroke, if it is possible. -/
def stroke (s : State κ γ) : Stroke κ → Option (State κ γ)
  | .down key =>
    if key ∈ s.held then none
    else some ⟨insert key s.held, s.typed ++ (legend s.held key).toList⟩
  | .up key => if key ∈ s.held then some ⟨s.held.erase key, s.typed⟩ else none

/-- One stroke after the other. -/
def strokes (s : State κ γ) (all : List (Stroke κ)) : Option (State κ γ) :=
  all.foldlM (stroke legend) s

/-- What keys type that are pressed in this order. -/
def typedBy (held : Finset κ) : List κ → List γ
  | [] => []
  | key :: keys => (legend held key).toList ++ typedBy (insert key held) keys

/-- The strokes of a chord. -/
def chord (keys : List κ) : List (Stroke κ) := keys.map .down ++ keys.reverse.map .up

variable {legend} {s t : State κ γ} {first second : List (Stroke κ)} {keys : List κ}

theorem strokes_append (h : strokes legend s first = some t) :
    strokes legend s (first ++ second) = strokes legend t second := by
  rw [strokes] at h
  rw [strokes, List.foldlM_append, h]
  rfl

/-- New keys are all held behind their strokes. -/
theorem strokes_down (hnew : ∀ key ∈ keys, key ∉ s.held) (hnodup : keys.Nodup) :
    strokes legend s (keys.map .down) =
      some ⟨s.held ∪ keys.toFinset, s.typed ++ typedBy legend s.held keys⟩ := by
  induction keys generalizing s with
  | nil =>
    rw [typedBy, List.append_nil, List.toFinset_nil, Finset.union_empty]
    rfl
  | cons key keys ih =>
    obtain ⟨hkey, hkeys⟩ := List.nodup_cons.mp hnodup
    have hstroke : stroke legend s (.down key) =
        some ⟨insert key s.held, s.typed ++ (legend s.held key).toList⟩ :=
      if_neg (hnew key List.mem_cons_self)
    have hrest : ∀ k ∈ keys, k ∉ insert key s.held := by
      intro k hk hmem
      rcases Finset.mem_insert.mp hmem with rfl | hmem
      · exact hkey hk
      · exact hnew k (List.mem_cons_of_mem key hk) hmem
    rw [List.map_cons, strokes, List.foldlM_cons, hstroke]
    refine (ih hrest hkeys).trans ?_
    rw [typedBy, List.append_assoc, List.toFinset_cons, Finset.insert_union, Finset.union_insert]

/-- Held keys can be released in any order. -/
theorem strokes_up (hheld : ∀ key ∈ keys, key ∈ s.held) (hnodup : keys.Nodup) :
    strokes legend s (keys.map .up) = some ⟨s.held \ keys.toFinset, s.typed⟩ := by
  induction keys generalizing s with
  | nil =>
    rw [List.toFinset_nil, Finset.sdiff_empty]
    rfl
  | cons key keys ih =>
    obtain ⟨hkey, hkeys⟩ := List.nodup_cons.mp hnodup
    have hstroke : stroke legend s (.up key) = some ⟨s.held.erase key, s.typed⟩ :=
      if_pos (hheld key List.mem_cons_self)
    have hrest : ∀ k ∈ keys, k ∈ s.held.erase key := fun k hk =>
      Finset.mem_erase.mpr ⟨fun heq => hkey (heq ▸ hk), hheld k (List.mem_cons_of_mem key hk)⟩
    rw [List.map_cons, strokes, List.foldlM_cons, hstroke]
    refine (ih hrest hkeys).trans ?_
    congr 2
    ext k
    simp only [Finset.mem_sdiff, Finset.mem_erase, List.toFinset_cons, Finset.mem_insert, not_or]
    tauto

/-- A chord of different keys types what its keys type in their order, and holds nothing longer. -/
theorem strokes_chord (hnew : ∀ key ∈ keys, key ∉ s.held) (hnodup : keys.Nodup) :
    strokes legend s (chord keys) = some ⟨s.held, s.typed ++ typedBy legend s.held keys⟩ := by
  have hheld : ∀ key ∈ keys.reverse, key ∈ s.held ∪ keys.toFinset := fun key hkey =>
    Finset.mem_union_right _ (List.mem_toFinset.mpr (List.mem_reverse.mp hkey))
  rw [chord, strokes_append (strokes_down hnew hnodup),
    strokes_up hheld (List.nodup_reverse.mpr hnodup)]
  congr 2
  ext key
  simp only [Finset.mem_sdiff, Finset.mem_union, List.mem_toFinset, List.mem_reverse]
  constructor
  · rintro ⟨hmem | hmem, hnot⟩
    · exact hmem
    · exact absurd hmem hnot
  · exact fun hmem => ⟨.inl hmem, fun hkey => hnew key hkey hmem⟩

end Keyboard

end AmigaDevbench
