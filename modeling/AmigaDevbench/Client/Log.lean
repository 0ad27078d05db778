import AmigaDevbench.Core.CText

/-!
# Logging from a client

`ab_log` formats its text behind a level digit and a bar into the fixed data field of an IPC
message. The text is what the format produces.
-/

namespace AmigaDevbench.Client

open CText

/-- `AB_MAX_DATA`. -/
def maxData : Nat := 256

/-- The data field of an IPC message, as the C string in it, and its length field. -/
structure LogMsg where
  data : Text
  dataLen : Nat

/-- The buffer of `ab_log`: the last character of the array is always a terminator. -/
def logdata (level : Int) (text : Text) : Text :=
  fit (maxData - 1) (ofInt (48 + level) :: '|' :: text)

/-- `ab_log`: a client that is not connected sends nothing. -/
def abLog (connected : Bool) (level : Int) (text : Text) : Option LogMsg :=
  if connected then some ⟨logdata level text, (logdata level text).length + 1⟩ else none

/-- A text that fits into the data field behind the level digit is sent whole. -/
theorem logdata_eq {level : Int} {text : Text} (hlevel : 0 ≤ level ∧ level ≤ 3)
    (hnul : nul ∉ text) (hlen : text.length ≤ maxData - 3) :
    logdata level text = ofInt (48 + level) :: '|' :: text := by
  have hdigit : ofInt (48 + level) ≠ nul := by
    have hcases : level = 0 ∨ level = 1 ∨ level = 2 ∨ level = 3 := by omega
    rcases hcases with rfl | rfl | rfl | rfl <;> decide
  have hbar : nul ≠ '|' := by decide
  apply fit_eq_self
  · simp only [List.mem_cons, not_or]
    exact ⟨hdigit.symm, hbar, hnul⟩
  · simp only [List.length_cons, maxData] at hlen ⊢
    omega

end AmigaDevbench.Client
