import AmigaDevbench.Client.Variables
import AmigaDevbench.Core.CText

/-!
# ARexx messages of the daemon

`arexx_bridge.c` sends one message at a time to the port of an application and reports the answer in
one line.
-/

namespace AmigaDevbench.Daemon.Arexx

open CText

/-- A character of `resultbuf`, sanitized for the line. -/
def sanitized (c : Char) : Char :=
  if c = '|' ∨ c = '\n' ∨ c = '\r' then ' '
  else if signed c < 0x20 ∧ c ≠ nul then ' '
  else c

/-- The line that `arexx_poll` sends for a reply: the result is dropped if `rm_Result1` is not
zero. -/
def resultLine (rc : Int) (result : Text) : Text :=
  "AREXXRESULT|".toList ++ Client.longText rc ++ "|".toList ++
    if rc = 0 then (result.take (maxLine - 65)).map sanitized else []

/-- A line of an answer is never too long. -/
theorem length_resultLine_lt {rc : Int} (hlow : -2 ^ 31 ≤ rc) (hhigh : rc < 2 ^ 31)
    (result : Text) : (resultLine rc result).length < maxLine := by
  have hmax : maxLine = 8192 := rfl
  have hname : "AREXXRESULT|".toList.length = 12 := rfl
  have hbar : "|".toList.length = 1 := rfl
  have hrc : (Client.longText rc).length ≤ 11 := by
    rw [Client.longText]
    split
    · have hdigits : (decimal rc.natAbs).length ≤ 10 := by
        rw [decimal, Nat.length_toDigits_le_iff (by decide) (by decide)]
        omega
      rw [List.length_cons]
      omega
    · rw [decimal]
      exact (Nat.length_toDigits_le_iff (by decide) (by decide)).mpr (by omega)
  have htext : (if rc = 0 then (result.take (maxLine - 65)).map sanitized else []).length ≤
      maxLine - 65 := by
    split
    · rw [List.length_map]
      exact List.length_take_le _ _
    · exact Nat.zero_le _
  unfold resultLine
  simp only [List.length_append, hname, hbar]
  omega

end AmigaDevbench.Daemon.Arexx
