import Mathlib.Data.List.Basic

/-!
# An unreliable channel

The messages in flight are a list. Any of them may be the next to arrive, so a message may be
delayed behind later ones; a fault loses a message or makes a second copy of it. No message comes
into being on the way.
-/

namespace AmigaDevbench

/-- The messages in flight. -/
abbrev Channel (α : Type*) := List α

namespace Channel

variable {α : Type*} {q q' : Channel α}

/-- One message arrives and leaves the channel. -/
def receive (q : Channel α) (i : Nat) : Option (α × Channel α) :=
  (q[i]?).map fun a => (a, q.eraseIdx i)

/-- What may happen to a message on the way. -/
inductive Fault where
  | lose (i : Nat)
  | duplicate (i : Nat)
  deriving DecidableEq, Repr

/-- The channel behind a fault. -/
def disturb (q : Channel α) : Fault → Option (Channel α)
  | .lose i => (q[i]?).map fun _ => q.eraseIdx i
  | .duplicate i => (q[i]?).map fun a => a :: q

theorem mem_of_receive {a : α} {i : Nat} (h : q.receive i = some (a, q')) :
    a ∈ q ∧ ∀ b ∈ q', b ∈ q := by
  obtain ⟨a', ha, hpair⟩ := Option.map_eq_some_iff.mp h
  cases hpair
  exact ⟨List.mem_of_getElem? ha, fun b hb => List.mem_of_mem_eraseIdx hb⟩

theorem mem_of_disturb {f : Fault} (h : q.disturb f = some q') : ∀ b ∈ q', b ∈ q := by
  cases f with
  | lose i =>
    obtain ⟨_, _, rfl⟩ := Option.map_eq_some_iff.mp h
    exact fun b hb => List.mem_of_mem_eraseIdx hb
  | duplicate i =>
    obtain ⟨a, ha, rfl⟩ := Option.map_eq_some_iff.mp h
    intro b hb
    rcases List.mem_cons.mp hb with rfl | hb
    · exact List.mem_of_getElem? ha
    · exact hb

end Channel

end AmigaDevbench
