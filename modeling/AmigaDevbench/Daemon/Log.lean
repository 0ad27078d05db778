import AmigaDevbench.Client.Log

/-!
# Forwarding a client's log line

The daemon looks the client up, takes the level digit off the message and sends one line. The
name `sys` is the daemon's own and goes out without attribution.
-/

namespace AmigaDevbench.Daemon

open CText

/-- `BRIDGE_MAX_LINE`. -/
def maxLine : Nat := 8192

/-- The name field of a client's registry entry: an array of 34 characters. -/
structure ClientName where
  chars : Text
  nul_notMem : nul ∉ chars
  length_le : chars.length ≤ 33

/-- `client_register`: the name is cut to the array. -/
def ClientName.register (name : Text) : ClientName :=
  ⟨fit 33 name, nul_notMem_fit 33 name, length_fit_le 33 name⟩

/-- `AB_INFO`. -/
def abInfo : Int := 1

/-- `level_chars`. -/
def levelChars : Text := "DIWE".toList

/-- The letter of a level; a level that does not exist is reported as information. -/
def levelLetter (level : Int) : Char :=
  levelChars.getD (if level < 0 ∨ 3 < level then abInfo else level).toNat 'I'

/-- `send_line`: what is written to the link. -/
def sendLine (line : Text) : Text := line.take maxLine ++ ['\n']

/-- `protocol_send_log`, up to `send_line`. -/
def logLine (clientName : Text) (level : Int) (tick : Nat) (message : Text) : Text :=
  let lvl := [levelLetter level]
  let buf :=
    if clientName ≠ "sys".toList then
      "CLOG|".toList ++ clientName ++ "|".toList ++ lvl ++ "|".toList ++ Nat.toDigits 10 tick ++
        "|".toList
    else "LOG|".toList ++ lvl ++ "|".toList ++ Nat.toDigits 10 tick ++ "|".toList
  (strncat buf message (maxLine - buf.length - 1)).take (maxLine - 1)

/-- `protocol_send_log`. -/
def protocolSendLog (clientName : Text) (level : Int) (tick : Nat) (message : Text) : Text :=
  sendLine (logLine clientName level tick message)

/-- The `ABMSG_LOG` case of `ipc_process` for a registered client. -/
def ipcLog (client : ClientName) (bm : Client.LogMsg) : Text :=
  if 2 < bm.dataLen ∧ bm.data.getD 1 nul = '|' then
    protocolSendLog client.chars (signed (bm.data.headD nul) - 48) 0 (bm.data.drop 2)
  else protocolSendLog client.chars abInfo 0 bm.data

/-- A level survives the digit it travels as. -/
theorem signed_ofInt_level {level : Int} (h : 0 ≤ level ∧ level ≤ 3) :
    signed (ofInt (48 + level)) - 48 = level := by
  have hcases : level = 0 ∨ level = 1 ∨ level = 2 ∨ level = 3 := by omega
  rcases hcases with rfl | rfl | rfl | rfl <;> decide

/-- The line of a client's log message, when the text fits into the message. -/
theorem ipcLog_eq {client : ClientName} {level : Int} {text : Text} {bm : Client.LogMsg}
    (hsys : client.chars ≠ "sys".toList) (hlevel : 0 ≤ level ∧ level ≤ 3) (hnul : nul ∉ text)
    (hlen : text.length ≤ Client.maxData - 3) (hbm : Client.abLog true level text = some bm) :
    ipcLog client bm = "CLOG|".toList ++ client.chars ++ "|".toList ++ [levelLetter level] ++
      "|0|".toList ++ text ++ ['\n'] := by
  have hdata := Client.logdata_eq hlevel hnul hlen
  have hname := client.length_le
  simp only [Client.maxData] at hlen
  simp only [Client.abLog, hdata, if_true, Option.some.injEq] at hbm
  subst hbm
  have hlong : 2 < (ofInt (48 + level) :: '|' :: text).length + 1 := by
    simp only [List.length_cons]
    omega
  simp only [ipcLog, hlong, List.getD_cons_succ, List.getD_cons_zero, and_self, if_true,
    List.headD_cons, signed_ofInt_level hlevel, List.drop_succ_cons, List.drop_zero,
    protocolSendLog, logLine, ne_eq, hsys, not_false_eq_true, sendLine]
  rw [strncat_eq_append hnul]
  · rw [List.take_of_length_le, List.take_of_length_le]
    · simp
    · simp [maxLine]
      omega
    · simp [maxLine]
      omega
  · simp [maxLine]
    omega

end AmigaDevbench.Daemon
