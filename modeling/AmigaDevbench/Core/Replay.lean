import Mathlib.Data.List.Basic
import Mathlib.Logic.Function.Basic

/-!
# Writes that several readers replay

A state is a function of its fields, and a write gives values to some of them. Several readers
replay a stream of writes on one shared state, each from a queue and at a pace of its own. The
outcome is settled when nothing that still waits can give a field another value than the wanted
one, in whatever order the readers go on.
-/

namespace AmigaDevbench

namespace Replay

variable {φ ν ι : Type*}

/-- A write: the values of the fields that it touches. -/
abbrev Write (φ ν : Type*) := φ → Option ν

/-- The state behind a write. -/
def Write.apply (w : Write φ ν) (s : φ → ν) : φ → ν := fun f => (w f).getD (s f)

/-- A write that is made again changes nothing. -/
theorem Write.apply_apply (w : Write φ ν) (s : φ → ν) : w.apply (w.apply s) = w.apply s := by
  funext f
  cases hw : w f <;> simp [Write.apply, hw]

/-- The value that the last write of a queue gives it. -/
def last (f : φ) : List (Write φ ν) → Option ν
  | [] => none
  | w :: q => (last f q).or (w f)

theorem last_append (f : φ) (q q' : List (Write φ ν)) :
    last f (q ++ q') = (last f q').or (last f q) := by
  induction q with
  | nil => simp [last]
  | cons w q ih => simp only [List.cons_append, last, ih, Option.or_assoc]

/-- Whatever the order in which the queues are worked off, the outcome is the wanted state. -/
structure Settles (want view : φ → ν) (queues : ι → List (Write φ ν)) : Prop where
  /-- The last write that waits anywhere for a field gives it the wanted value. -/
  waiting : ∀ i f v, last f (queues i) = some v → v = want f
  /-- A field for which no write waits has its wanted value. -/
  idle : ∀ f, (∀ i, last f (queues i) = none) → view f = want f

theorem settles_of_empty (s : φ → ν) : Settles s s fun _ : ι => [] :=
  ⟨fun _ _ _ h => (nomatch h), fun _ _ => rfl⟩

variable {want view view' : φ → ν} {queues queues' : ι → List (Write φ ν)} {w : Write φ ν}

/-- When nothing waits, the state is the wanted one. -/
theorem Settles.eq_of_empty (h : Settles want view queues) (hempty : ∀ i, queues i = []) :
    view = want :=
  funext fun f => h.idle f fun i => by rw [hempty i, last]

/-- Working off a write keeps the outcome settled. -/
theorem Settles.handle [DecidableEq ι] (h : Settles want view queues) {i : ι}
    {q : List (Write φ ν)} (hi : queues i = w :: q) :
    Settles want (w.apply view) (Function.update queues i q) := by
  have hrest : ∀ j f v, last f (Function.update queues i q j) = some v →
      last f (queues j) = some v := by
    intro j f v hv
    by_cases hj : j = i
    · subst hj
      rw [Function.update_self] at hv
      rw [hi, last, hv, Option.some_or]
    · rwa [Function.update_of_ne hj] at hv
  refine ⟨fun j f v hv => h.waiting j f v (hrest j f v hv), fun f hnone => ?_⟩
  have hq : last f q = none := by simpa using hnone i
  have hlast : last f (queues i) = w f := by rw [hi, last, hq, Option.none_or]
  cases hw : w f with
  | some v =>
    have hwant := h.waiting i f v (hlast.trans hw)
    rw [Write.apply, hw, Option.getD_some, hwant]
  | none =>
    have hidle : ∀ j, last f (queues j) = none := by
      intro j
      by_cases hj : j = i
      · rw [hj, hlast, hw]
      · simpa [Function.update_of_ne hj] using hnone j
    rw [Write.apply, hw, Option.getD_none, h.idle f hidle]

/-- A new write settles on the state behind it, if somebody is going to replay it and those who
are not hold nothing that says otherwise. -/
theorem Settles.publish (h : Settles want view queues)
    (hview : ∀ f, view' f = view f ∨ w f = some (view' f))
    (hqueues : ∀ i f, last f (queues' i) = (w f).or (last f (queues i)) ∨
      last f (queues' i) = last f (queues i) ∧
        ∀ v, last f (queues i) = some v → v = w.apply want f)
    (i₀ : ι) (hreplay : ∀ f, last f (queues' i₀) = (w f).or (last f (queues i₀))) :
    Settles (w.apply want) view' queues' := by
  refine ⟨fun i f v hv => ?_, fun f hnone => ?_⟩
  · rcases hqueues i f with hnew | ⟨hold, hagree⟩
    · rw [hnew] at hv
      cases hw : w f with
      | some u =>
        rw [hw, Option.some_or, Option.some.injEq] at hv
        rw [Write.apply, hw, Option.getD_some, hv]
      | none =>
        rw [hw, Option.none_or] at hv
        rw [Write.apply, hw, Option.getD_none, h.waiting i f v hv]
    · exact hagree v (hold ▸ hv)
  · have hw : w f = none := by
      have hboth := (hreplay f).symm.trans (hnone i₀)
      exact (Option.or_eq_none_iff.mp hboth).1
    have hidle : ∀ i, last f (queues i) = none := by
      intro i
      rcases hqueues i f with hnew | ⟨hold, _⟩
      · have hboth := hnew.symm.trans (hnone i)
        exact (Option.or_eq_none_iff.mp hboth).2
      · exact hold.symm.trans (hnone i)
    have hsame : view' f = view f := by
      rcases hview f with hsame | hwritten
      · exact hsame
      · rw [hw] at hwritten
        cases hwritten
    rw [Write.apply, hw, Option.getD_none, hsame, h.idle f hidle]

end Replay

end AmigaDevbench
