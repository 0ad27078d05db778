import Mathlib.Data.List.Basic

/-!
# Delimited streams that arrive in chunks

A receiver keeps the unfinished end of what has arrived and hands on the pieces that a
delimiter has finished. The pieces do not depend on the division of the stream into chunks.
-/

namespace AmigaDevbench

namespace Framing

variable {α : Type*} [BEq α] [LawfulBEq α]

/-- The pieces that a delimiter finishes. -/
def finished (c : α) (s : List α) : List (List α) := (s.splitOn c).dropLast

/-- What stands behind the last delimiter. -/
def pending (c : α) (s : List α) : List α := (s.splitOn c).getLastD []

/-- What each chunk finishes, behind a first part that is there already. -/
def deliver (c : α) : List α → List (List α) → List (List (List α))
  | _, [] => []
  | p, chunk :: chunks => finished c (p ++ chunk) :: deliver c (pending c (p ++ chunk)) chunks

omit [LawfulBEq α] in
theorem splitOn_eq (c : α) (s : List α) : s.splitOn c = finished c s ++ [pending c s] := by
  have hne := List.splitOn_ne_nil c s
  rw [finished, pending, List.getLastD_eq_getLast?, List.getLast?_eq_some_getLast hne,
    Option.getD_some, List.dropLast_append_getLast]

omit [LawfulBEq α] in
/-- The two parts are determined by the split. -/
theorem parts_eq {c : α} {s : List α} {pieces : List (List α)} {last : List α}
    (h : s.splitOn c = pieces ++ [last]) : finished c s = pieces ∧ pending c s = last := by
  rw [finished, pending, h, List.dropLast_concat, List.getLastD_concat]
  exact ⟨rfl, rfl⟩

/-- A delimiter finishes the piece in front of it. -/
theorem parts_cons_self (c : α) (s : List α) :
    finished c (c :: s) = [] :: finished c s ∧ pending c (c :: s) = pending c s := by
  apply parts_eq
  rw [List.splitOn_cons_eq_if_modifyHead, if_pos (beq_self_eq_true c), splitOn_eq c s,
    List.cons_append]

/-- Another element joins the first piece. -/
theorem parts_cons_of_ne {a c : α} (h : a ≠ c) (s : List α) :
    finished c (a :: s) = (finished c s).modifyHead (a :: ·) ∧
      pending c (a :: s) = if finished c s = [] then a :: pending c s else pending c s := by
  apply parts_eq
  rw [List.splitOn_cons_eq_if_modifyHead, if_neg (by simpa using h), splitOn_eq c s]
  cases finished c s <;> simp

/-- More of the stream continues the unfinished piece. -/
theorem parts_append (c : α) (s t : List α) :
    finished c (s ++ t) = finished c s ++ finished c (pending c s ++ t) ∧
      pending c (s ++ t) = pending c (pending c s ++ t) := by
  induction s with
  | nil => simp [finished, pending]
  | cons a s ih =>
    rw [List.cons_append]
    by_cases ha : a = c
    · rw [ha, (parts_cons_self c s).1, (parts_cons_self c s).2, (parts_cons_self c _).1,
        (parts_cons_self c _).2, ih.1, ih.2]
      exact ⟨rfl, rfl⟩
    · rw [(parts_cons_of_ne ha s).1, (parts_cons_of_ne ha s).2, (parts_cons_of_ne ha _).1,
        (parts_cons_of_ne ha _).2, ih.1, ih.2]
      cases finished c s with
      | nil =>
        have hcons := parts_cons_of_ne ha (pending c s ++ t)
        simp [hcons]
      | cons piece pieces => simp

/-- The chunks together finish what the whole stream finishes. -/
theorem flatten_deliver (c : α) (p chunk : List α) (chunks : List (List α)) :
    (deliver c p (chunk :: chunks)).flatten = finished c (p ++ (chunk :: chunks).flatten) := by
  induction chunks generalizing p chunk with
  | nil => simp [deliver]
  | cons next chunks ih =>
    have happend := (parts_append c (p ++ chunk) (next :: chunks).flatten).1
    rw [deliver, List.flatten_cons, ih, ← happend, List.append_assoc]
    rfl

end Framing

end AmigaDevbench
