import Mathlib.Data.List.Basic

/-!
# Bounded queues that drop their oldest entry

Entries are addressed to a reader one after the other and wait in a queue of limited length. A
full queue gives up its oldest entry for a new one, so the queue is a final piece of all that was
addressed, and what was neither read nor is waiting has as many later entries as the limit says.
-/

namespace AmigaDevbench

namespace Backlog

variable {α : Type*}

/-- A new entry; a full queue drops its oldest. -/
def push (limit : Nat) (queue : List α) (x : α) : List α :=
  if queue.length < limit then queue ++ [x] else queue.tail ++ [x]

/-- The position behind the last one read. -/
def next (read : List Nat) : Nat := (read.getLast?.map (· + 1)).getD 0

@[simp] theorem next_nil : next [] = 0 := rfl

@[simp] theorem next_append (read : List Nat) (p : Nat) : next (read ++ [p]) = p + 1 := by
  simp [next]

/-- How far a reader of `log` is: the positions that it has read, in the order of reading, and the
queue of what waits. -/
structure Kept (limit : Nat) (log : List α) (read : List Nat) (queue : List α) : Prop where
  increasing : read.Pairwise (· < ·)
  inside : ∀ p ∈ read, p < log.length
  /-- The latest entries behind the last one read, up to the limit. -/
  waiting : queue = log.drop (max (next read) (log.length - limit))
  /-- An entry passed over was given up for `limit` later ones. -/
  dropped : ∀ p < next read, p ∉ read → p + limit < log.length

variable {limit : Nat} {log queue : List α} {read : List Nat}

theorem kept_nil : Kept limit ([] : List α) [] [] :=
  ⟨.nil, fun _ h => (List.not_mem_nil h).elim, List.drop_nil.symm,
    fun _ h => (Nat.not_lt_zero _ h).elim⟩

/-- The next position is not beyond the log. -/
theorem Kept.next_le (h : Kept limit log read queue) : next read ≤ log.length := by
  rcases List.eq_nil_or_concat read with rfl | ⟨before, p, rfl⟩
  · exact Nat.zero_le _
  · rw [List.concat_eq_append, next_append]
    exact h.inside p (by simp)

/-- What waits is not more than the limit. -/
theorem Kept.length_le (h : Kept limit log read queue) : queue.length ≤ limit := by
  rw [h.waiting, List.length_drop]
  omega

/-- One more entry is addressed. -/
theorem Kept.push (h : Kept limit log read queue) (hlimit : 0 < limit) (x : α) :
    Kept limit (log ++ [x]) read (push limit queue x) := by
  have hnext := h.next_le
  have hlength : (log ++ [x]).length = log.length + 1 := by simp
  refine ⟨h.increasing, fun p hp => ?_, ?_, fun p hp hread => ?_⟩
  · exact hlength ▸ Nat.lt_succ_of_lt (h.inside p hp)
  · have hq : queue.length = log.length - max (next read) (log.length - limit) := by
      rw [h.waiting, List.length_drop]
    rw [Backlog.push, hlength]
    split
    · next hroom =>
      have hsame : max (next read) (log.length + 1 - limit) =
          max (next read) (log.length - limit) := by omega
      rw [hsame, List.drop_append_of_le_length (by omega), ← h.waiting]
    · next hfull =>
      have hone : max (next read) (log.length + 1 - limit) =
          max (next read) (log.length - limit) + 1 := by omega
      rw [hone, List.drop_append_of_le_length (by omega), ← List.tail_drop, ← h.waiting]
  · exact hlength ▸ Nat.lt_succ_of_lt (h.dropped p hp hread)

/-- The oldest entry that waits is read. -/
theorem Kept.take {x : α} (h : Kept limit log read (x :: queue)) :
    ∃ p, log[p]? = some x ∧ Kept limit log (read ++ [p]) queue := by
  let p := max (next read) (log.length - limit)
  have hdrop : log.drop p = x :: queue := h.waiting.symm
  have hget : log[p]? = some x := by
    rw [← Nat.add_zero p, ← List.getElem?_drop, hdrop]
    rfl
  have hp : p < log.length := (List.getElem?_eq_some_iff.mp hget).1
  have hlast : ∀ q ∈ read, q < next read := by
    intro q hq
    rcases List.eq_nil_or_concat read with rfl | ⟨before, r, rfl⟩
    · exact (List.not_mem_nil hq).elim
    · have hsorted := h.increasing
      rw [List.concat_eq_append] at hsorted hq ⊢
      rw [next_append]
      rcases List.mem_append.mp hq with hq | hq
      · exact Nat.lt_succ_of_lt ((List.pairwise_append.mp hsorted).2.2 q hq r (by simp))
      · rw [List.mem_singleton.mp hq]
        exact Nat.lt_succ_self r
  refine ⟨p, hget, ?_, ?_, ?_, ?_⟩
  · refine List.pairwise_append.mpr ⟨h.increasing, List.pairwise_singleton _ _, fun q hq r hr => ?_⟩
    rw [List.mem_singleton.mp hr]
    exact Nat.lt_of_lt_of_le (hlast q hq) (Nat.le_max_left _ _)
  · intro q hq
    rcases List.mem_append.mp hq with hq | hq
    · exact h.inside q hq
    · exact List.mem_singleton.mp hq ▸ hp
  · rw [next_append, Nat.max_eq_left (by omega), ← List.tail_drop, hdrop, List.tail_cons]
  · intro q hq hread
    rw [next_append] at hq
    have hne : q ≠ p := fun heq => hread (by simp [heq])
    have hold : q ∉ read := fun hmem => hread (List.mem_append_left _ hmem)
    by_cases hbefore : q < next read
    · exact h.dropped q hbefore hold
    · omega

end Backlog

end AmigaDevbench
