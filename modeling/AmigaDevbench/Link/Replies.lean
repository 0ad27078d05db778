import AmigaDevbench.Client.Variables
import AmigaDevbench.Daemon.Memory
import AmigaDevbench.Host.Script
import AmigaDevbench.Host.SerialConn

/-!
# The daemon's replies as events on the host

A reply line is parsed and published under the event name of its type. The requests of the host
wait for these events. A FILE reply names the path, the offset, the length and the bytes; the
host files the offset under `size` and the length under `offset`, and uses neither.
-/

namespace AmigaDevbench.Replies

open Daemon Protocol SerialConn

/-- The events that one line publishes. -/
def published (hasDbg : Bool) (now line : Text) : List Event :=
  (handleLines hasDbg now [line]).effects.filterMap fun e =>
    match e with
    | .publish event data => some ⟨event, data⟩
    | _ => none

/-- The message of a FILE reply. -/
def fileMsg (path : Text) (offset : Nat) (chunk : Bytes) : Dict :=
  [("type", .str "FILE".toList), ("path", .str path), ("size", .int offset),
    ("offset", .int chunk.length), ("hexData", .str chunk.hex)]

/-- The message of a CMD reply. -/
def cmdMsg (cmdId : Nat) (status data : Text) : Dict :=
  [("type", .str "CMD".toList), ("id", .int cmdId), ("status", .str status), ("data", .str data)]

/-- The message of a CHECKSUM reply. -/
def checksumMsg (path : Text) (file : Bytes) : Dict :=
  [("type", .str "CHECKSUM".toList), ("path", .str path),
    ("crc32", .str (hex8 (Crc32.crc32 file).toNat)), ("size", .int file.length)]

theorem hasText_checksumMsg (path : Text) (file : Bytes) :
    (checksumMsg path file).hasText "path" path = true :=
  decide_eq_true (rfl : path = path)

theorem hasText_fileMsg (path : Text) (offset : Nat) (chunk : Bytes) :
    (fileMsg path offset chunk).hasText "path" path = true :=
  decide_eq_true (rfl : path = path)

theorem length_decimal_le {n : Nat} (h : n < 2 ^ 32) : (decimal n).length ≤ 10 := by
  rw [decimal, Nat.length_toDigits_le_iff (by decide) (by decide)]
  omega

/-- Numbers of the daemon are 32 bits wide, so the host reads them back. -/
theorem int_decimal {n : Nat} (h : n < 2 ^ 32) : int (decimal n) = n := by
  have hlen : (Nat.toDigits 10 n).length ≤ 10 := length_decimal_le h
  have hint := Py.int_toDigits (b := 10) (n := n) (by decide) (by decide) 0
    fun _ => by simpa using hlen.trans (by decide)
  rw [List.replicate_zero, List.nil_append] at hint
  rw [int, decimal, hint]

theorem int_hex8 (n : Nat) : Py.int 16 (hex8 n) = .ok n :=
  Py.int_toDigits (by decide) (by decide) _ fun h => absurd h (by decide)

theorem bar_notMem_decimal (n : Nat) : '|' ∉ decimal n := by
  intro h
  exact absurd (Nat.isDigit_of_mem_toDigits (by omega) (by omega) h) (by decide)

/-- A numeral with a minus sign converts to the negative number. -/
theorem int_neg_toDigits {n : Nat} (hlen : (Nat.toDigits 10 n).length ≤ Py.maxStrDigits) :
    Py.int 10 ('-' :: Nat.toDigits 10 n) = .ok (-(n : Int)) := by
  have hdigit : ∀ c ∈ Nat.toDigits 10 n, Py.isDigitOf 10 c = true := fun c hc =>
    Py.isDigitOf_of_mem_toDigits (by omega) (by omega) hc
  have hval : ∀ c ∈ Nat.toDigits 10 n, ∃ d, Py.digitVal c = some d := fun c hc =>
    Option.isSome_iff_exists.mp (Option.isSome_of_any (hdigit c hc))
  have hstrip : Text.stripBy Py.intSpace ('-' :: Nat.toDigits 10 n) =
      '-' :: Nat.toDigits 10 n := by
    refine Text.stripBy_eq_self fun c hc => ?_
    rcases List.mem_cons.mp hc with rfl | hc
    · decide
    · obtain ⟨d, hd⟩ := hval c hc
      exact (Py.digitVal_eq_some hd).1
  have hgroups : Py.digitGroups 10 ('-' :: Nat.toDigits 10 n) = [Nat.toDigits 10 n] := by
    rw [Py.digitGroups, hstrip]
    refine List.splitOn_eq_singleton fun h => ?_
    obtain ⟨d, hd⟩ := hval _ h
    exact (Py.digitVal_eq_some hd).2.2.2.1 rfl
  have hliteral : Py.isIntLiteral 10 ('-' :: Nat.toDigits 10 n) = true := by
    simp only [Py.isIntLiteral, hgroups, List.all_cons, List.all_nil, Bool.and_true,
      List.flatten_cons, List.flatten_nil, List.append_nil, Bool.and_eq_true]
    exact ⟨⟨by simp [Nat.toDigits_ne_nil], List.all_eq_true.mpr hdigit⟩, by simp [hlen]⟩
  rw [Py.int, if_pos hliteral, hgroups, hstrip, List.flatten_cons, List.flatten_nil,
    List.append_nil, Py.digitsVal_toDigits (by omega) (by omega)]
  rfl

/-- A number of the daemon in decimal digits is read back. -/
theorem int_longText {n : Int} (hlow : -2 ^ 31 ≤ n) (hhigh : n < 2 ^ 31) :
    int (Client.longText n) = n := by
  rw [Client.longText]
  split
  · next hneg =>
    have hlen : (Nat.toDigits 10 n.natAbs).length ≤ 10 := by
      rw [Nat.length_toDigits_le_iff (by omega) (by omega)]
      omega
    rw [int, decimal, int_neg_toDigits (hlen.trans (by decide))]
    simp only
    omega
  · rw [int_decimal (by omega)]
    omega

theorem notMem_longText {n : Int} {c : Char} (hdigit : c.isDigit = false) (hminus : c ≠ '-') :
    c ∉ Client.longText n := by
  have hdecimal : ∀ k, c ∉ decimal k := fun k h =>
    Bool.eq_false_iff.mp hdigit (CNumber.isDigit_of_mem_toDigits h)
  rw [Client.longText]
  split
  · rw [List.mem_cons, not_or]
    exact ⟨hminus, hdecimal _⟩
  · exact hdecimal _

theorem bar_notMem_hex (bs : Bytes) : '|' ∉ bs.hex := by
  have hdigit : ∀ n < 16, Nat.digitChar n ≠ '|' := by decide
  induction bs with
  | nil => exact List.not_mem_nil
  | cons b bs ih =>
    have hb := b.toNat_lt
    simp only [Bytes.hex_cons, List.mem_cons, not_or]
    exact ⟨(hdigit _ (by omega)).symm, (hdigit _ (by omega)).symm, ih⟩

/-- A message of a plain type is published under the name of its event. -/
theorem published_of_parse {hasDbg : Bool} {now line : Text} {msg : Dict} {event : String}
    (hparse : parseMessage now line = .ok (some msg))
    (hprocess : processMessage hasDbg now msg = .ok [.sawMessage, .publish event msg]) :
    published hasDbg now line = [⟨event, msg⟩] := by
  simp only [published, handleLines, hparse, hprocess]
  rfl

/-- The message read from the line of a FILE reply. -/
theorem parseMessage_file (now : Text) {path : Text} {offset : Nat} {chunk : Bytes}
    (hpath : '|' ∉ path) (hoffset : offset < 2 ^ 32) (hlen : chunk.length < 2 ^ 32) :
    parseMessage now ("FILE|".toList ++ path ++ "|".toList ++ decimal offset ++ "|".toList ++
      decimal chunk.length ++ "|".toList ++ chunk.hex) = .ok (some (fileMsg path offset chunk)) := by
  have hassoc : "FILE|".toList ++ path ++ "|".toList ++ decimal offset ++ "|".toList ++
      decimal chunk.length ++ "|".toList ++ chunk.hex = "FILE".toList ++ '|' :: (path ++ '|' ::
        (decimal offset ++ '|' :: (decimal chunk.length ++ '|' :: chunk.hex))) := by
    have hfile : "FILE|".toList = "FILE".toList ++ ['|'] := rfl
    have hbar : "|".toList = ['|'] := rfl
    simp only [hfile, hbar, List.append_assoc, List.nil_append,
      List.cons_append]
  have hbranch : branchOf "FILE".toList = some (.guarded fun _ _ p => parseFile p) := rfl
  rw [hassoc, parseMessage, Text.splitOn_field (by decide), Text.splitOn_field hpath,
    Text.splitOn_field (bar_notMem_decimal _), Text.splitOn_field (bar_notMem_decimal _),
    List.splitOn_eq_singleton (bar_notMem_hex chunk)]
  simp only [List.headD_cons, hbranch, Branch.run, parseFile, num, field,
    List.getD_cons_succ, List.getD_cons_zero, int_decimal hoffset, int_decimal hlen, fileMsg]

/-- A line publishes at most one event, or only events that go with an update of the state. -/
theorem published_cases (hasDbg : Bool) (now line : Text) :
    (published hasDbg now line).length ≤ 1 ∨
      ∀ e ∈ published hasDbg now line, e.name ∈ stateEvents := by
  cases hparse : parseMessage now line with
  | error e => exact Or.inl (by simp [published, handleLines, hparse])
  | ok parsed =>
    cases parsed with
    | none => exact Or.inl (by simp [published, handleLines, hparse])
    | some msg =>
      cases hprocess : processMessage hasDbg now msg with
      | error e => exact Or.inl (by simp [published, handleLines, hparse, hprocess])
      | ok effects =>
        have heffects : Ensures (fun effects => ∃ rest, effects = .sawMessage :: rest ∧
            (rest = [] ∨ (∃ event, rest = [.publish event msg]) ∨ OnlyStateEvents rest))
            (processMessage hasDbg now msg) := by
          refine ensures_bind fun _ effects h => ?_
          cases hdispatch : SerialConn.dispatch hasDbg now msg with
          | error e =>
            rw [hdispatch] at h
            cases h
          | ok rest =>
            rw [hdispatch] at h
            cases h
            exact ⟨rest, rfl, dispatch_cases hasDbg now msg rest hdispatch⟩
        obtain ⟨rest, rfl, hrest⟩ := heffects effects hprocess
        simp only [published, handleLines, hparse, hprocess, List.append_nil]
        rcases hrest with rfl | ⟨event, rfl⟩ | hstate
        · exact Or.inl (by simp)
        · exact Or.inl (by simp)
        · refine Or.inr fun e he => ?_
          obtain ⟨effect, heffect, hmatch⟩ := List.mem_filterMap.mp he
          cases effect <;> simp only [reduceCtorEq, Option.some.injEq] at hmatch
          next event data =>
            subst hmatch
            exact hstate event data (by simpa using heffect)

/-- An event that goes with no update is the only one of its line. -/
theorem published_eq_singleton {hasDbg : Bool} {now line : Text} {e : Event}
    (he : e ∈ published hasDbg now line) (hname : e.name ∉ stateEvents) :
    published hasDbg now line = [e] := by
  rcases published_cases hasDbg now line with hlen | hstate
  · obtain ⟨e', he'⟩ := List.length_eq_one_iff.mp
      (Nat.le_antisymm hlen (List.length_pos_of_mem he))
    rw [he', List.mem_singleton] at he
    rw [he', he]
  · exact absurd (hstate e he) hname

/-- A FILE reply is published as `file`. -/
theorem published_file (hasDbg : Bool) (now : Text) {path : Text} {offset : Nat} (size : Nat)
    (file : Bytes) (hpath : '|' ∉ path) (hoffset : offset < 2 ^ 32) :
    published hasDbg now (protocolSendFile path offset size (some file)) =
      [⟨"file", fileMsg path offset (fileChunk path offset size file)⟩] := by
  have hlen := length_fileChunk_lt path offset size file
  exact published_of_parse (parseMessage_file now hpath hoffset hlen) rfl

theorem protocolSendCmdResponse_eq (cmdId : Nat) (status data : Text) :
    protocolSendCmdResponse cmdId status data =
      "CMD".toList ++ '|' :: (decimal cmdId ++ '|' :: (status ++ '|' :: data)) := by
  have hcmd : "CMD|".toList = "CMD".toList ++ ['|'] := rfl
  have hbar : "|".toList = ['|'] := rfl
  change "CMD|".toList ++ decimal cmdId ++ "|".toList ++ status ++ "|".toList ++ data = _
  simp only [hcmd, hbar, List.append_assoc, List.nil_append, List.cons_append]

theorem bar_notMem_hex8 (n : Nat) : '|' ∉ hex8 n := by
  intro h
  rcases List.mem_append.mp h with h | h
  · exact absurd (List.eq_of_mem_replicate h) (by decide)
  · exact absurd (Py.isDigitOf_of_mem_toDigits (by decide) (by decide) h) (by decide)

/-- A CHECKSUM reply is published as `checksum`. -/
theorem published_checksum (hasDbg : Bool) (now : Text) {path : Text} {file : Bytes}
    (hpath : '|' ∉ path) (hsize : file.length < 2 ^ 32) :
    published hasDbg now (handleChecksum path (some file)) =
      [⟨"checksum", checksumMsg path file⟩] := by
  have hline : handleChecksum path (some file) = "CHECKSUM".toList ++ '|' :: (path ++ '|' ::
      (hex8 (Crc32.crc32 file).toNat ++ '|' :: decimal file.length)) := by
    have hchecksum : "CHECKSUM|".toList = "CHECKSUM".toList ++ ['|'] := rfl
    have hbar : "|".toList = ['|'] := rfl
    change "CHECKSUM|".toList ++ path ++ "|".toList ++ hex8 (fsChecksum file).1.toNat ++
      "|".toList ++ decimal (fsChecksum file).2 = _
    simp only [fsChecksum_eq, hchecksum, hbar, List.append_assoc, List.nil_append,
      List.cons_append]
  have hbranch : branchOf "CHECKSUM".toList = some (.guarded fun _ _ p => parseChecksum p) := rfl
  have hparse : parseMessage now (handleChecksum path (some file)) =
      .ok (some (checksumMsg path file)) := by
    rw [hline, parseMessage, Text.splitOn_field (by decide), Text.splitOn_field hpath,
      Text.splitOn_field (bar_notMem_hex8 _), List.splitOn_eq_singleton (bar_notMem_decimal _)]
    simp only [List.headD_cons, hbranch, Branch.run, parseChecksum]
    simp only [num, field, List.getD_cons_succ, List.getD_cons_zero, int_decimal hsize,
      checksumMsg]
  exact published_of_parse hparse rfl

/-- A path with a separator is not read back from a CHECKSUM reply. -/
theorem published_checksum_of_bar (hasDbg : Bool) (now : Text) {path : Text} (file : Bytes)
    (hpath : '|' ∈ path) {e : Event}
    (he : [e] = published hasDbg now (handleChecksum path (some file))) :
    e.data.hasText "path" path = false := by
  obtain ⟨tail, hline⟩ : ∃ tail, handleChecksum path (some file) =
      "CHECKSUM".toList ++ '|' :: tail := ⟨_, rfl⟩
  let parts := "CHECKSUM".toList :: tail.splitOn '|'
  have hsplit : (handleChecksum path (some file)).splitOn '|' = parts := by
    rw [hline, Text.splitOn_field (by decide)]
  obtain ⟨msg, hmsg⟩ : ∃ msg, parseChecksum parts = some msg := ⟨_, rfl⟩
  have hbranch : branchOf "CHECKSUM".toList = some (.guarded fun _ _ p => parseChecksum p) := rfl
  have hparse : parseMessage now (handleChecksum path (some file)) = .ok (some msg) := by
    simp only [parseMessage, hsplit, parts, List.headD_cons, hbranch, Branch.run]
    rw [← hmsg]
  have hprocess : processMessage hasDbg now msg = .ok [.sawMessage, .publish "checksum" msg] := by
    cases hmsg
    rfl
  rw [published_of_parse hparse hprocess] at he
  have hdata : e.data = msg := by rw [(List.cons.inj he).1]
  have hfirst : field parts 1 [] = (tail.splitOn '|').headD [] := by
    simp only [field, parts, List.getD_cons_succ]
    cases tail.splitOn '|' <;> rfl
  have hne : field parts 1 [] ≠ path := by
    rw [hfirst]
    intro heq
    have hbar := Text.notMem_headD_splitOn '|' tail
    rw [heq] at hbar
    exact hbar hpath
  rw [hdata]
  cases hmsg
  exact decide_eq_false hne

/-- The OK of a WRITEFILE is published as `ok`, with the number of bytes. -/
theorem published_writeOk (hasDbg : Bool) (now : Text) (n : Nat) :
    published hasDbg now ("OK|WRITEFILE|".toList ++ decimal n) =
      [⟨"ok", [("type", .str "OK".toList), ("context", .str "WRITEFILE".toList),
        ("message", .str (decimal n))]⟩] := by
  have hline : "OK|WRITEFILE|".toList ++ decimal n =
      "OK".toList ++ '|' :: ("WRITEFILE".toList ++ '|' :: decimal n) := rfl
  have hbranch : branchOf "OK".toList = some (.guarded fun _ _ p => parseOutcome "OK" p) := rfl
  have hrest : rest ["OK".toList, "WRITEFILE".toList, decimal n] 2 = decimal n := by
    simp only [rest, List.drop_succ_cons, List.drop_zero, Text.joinBar]
    exact List.intercalate_singleton
  have hparse : parseMessage now ("OK|WRITEFILE|".toList ++ decimal n) =
      .ok (some [("type", .str "OK".toList), ("context", .str "WRITEFILE".toList),
        ("message", .str (decimal n))]) := by
    rw [hline, parseMessage, Text.splitOn_field (by decide), Text.splitOn_field (by decide),
      List.splitOn_eq_singleton (bar_notMem_decimal n)]
    simp only [List.headD_cons, hbranch, Branch.run]
    simp only [parseOutcome, hrest, field, List.getD_cons_succ, List.getD_cons_zero]
  exact published_of_parse hparse rfl

/-- The message read from the line of a CMD reply. -/
theorem parseMessage_cmd (now : Text) {cmdId : Nat} {status : Text} (data : Text)
    (hid : cmdId < 2 ^ 32) (hstatus : '|' ∉ status) :
    parseMessage now (protocolSendCmdResponse cmdId status data) =
      .ok (some (cmdMsg cmdId status data)) := by
  have hbranch : branchOf "CMD".toList = some (.guarded fun _ _ p => parseCmd p) := rfl
  have hlen : ¬ ("CMD".toList :: decimal cmdId :: status :: data.splitOn '|').length < 4 := by
    have hpos := List.length_pos_of_ne_nil (List.splitOn_ne_nil '|' data)
    simp only [List.length_cons]
    omega
  have hrest : rest ("CMD".toList :: decimal cmdId :: status :: data.splitOn '|') 3 = data :=
    Text.joinBar_splitOn data
  rw [protocolSendCmdResponse_eq, parseMessage, Text.splitOn_field (by decide),
    Text.splitOn_field (bar_notMem_decimal _), Text.splitOn_field hstatus]
  simp only [List.headD_cons, hbranch, Branch.run]
  simp only [parseCmd, require, if_neg hlen, hrest]
  simp only [num, field, List.getD_cons_succ, List.getD_cons_zero, int_decimal hid, cmdMsg]

/-- A CMD reply is published as `cmd`. -/
theorem published_cmd (hasDbg : Bool) (now : Text) {cmdId : Nat} {status : Text} (data : Text)
    (hid : cmdId < 2 ^ 32) (hstatus : '|' ∉ status) :
    published hasDbg now (protocolSendCmdResponse cmdId status data) =
      [⟨"cmd", cmdMsg cmdId status data⟩] :=
  published_of_parse (parseMessage_cmd now data hid hstatus) rfl

/-- The message of a MEM line. -/
def memMsg (address : Nat) (data : Bytes) : Dict :=
  [("type", .str "MEM".toList), ("address", .str (hex8 address)), ("size", .int data.length),
    ("hexData", .str data.hex)]

/-- A MEM line is published as `mem`. -/
theorem published_mem (hasDbg : Bool) (now : Text) (address : Nat) {data : Bytes}
    (hlen : data.length < 2 ^ 32) :
    published hasDbg now (memLine address data) = [⟨"mem", memMsg address data⟩] := by
  have hline : memLine address data = "MEM".toList ++ '|' :: (hex8 address ++ '|' ::
      (decimal data.length ++ '|' :: data.hex)) := rfl
  have hbranch : branchOf "MEM".toList = some (.guarded fun _ _ p => parseMem p) := rfl
  have hparse : parseMessage now (memLine address data) = .ok (some (memMsg address data)) := by
    rw [hline, parseMessage, Text.splitOn_field (by decide), Text.splitOn_field (bar_notMem_hex8 _),
      Text.splitOn_field (bar_notMem_decimal _), List.splitOn_eq_singleton (bar_notMem_hex data)]
    simp only [List.headD_cons, hbranch, Branch.run, parseMem]
    simp only [require, num, field, List.getD_cons_succ, List.getD_cons_zero, int_decimal hlen,
      memMsg]
    rfl
  exact published_of_parse hparse rfl

/-- An ERR line is published as `err`. -/
theorem published_err (hasDbg : Bool) (now text : Text) :
    ∃ msg, published hasDbg now ("ERR|".toList ++ text) = [⟨"err", msg⟩] := by
  have hline : "ERR|".toList ++ text = "ERR".toList ++ '|' :: text := rfl
  have hbranch : branchOf "ERR".toList = some (.guarded fun _ _ p => parseOutcome "ERR" p) := rfl
  obtain ⟨msg, hmsg, hprocess⟩ : ∃ msg,
      parseOutcome "ERR" ("ERR".toList :: text.splitOn '|') = some msg ∧
      SerialConn.processMessage hasDbg now msg = .ok [.sawMessage, .publish "err" msg] :=
    ⟨_, rfl, rfl⟩
  have hparse : parseMessage now ("ERR|".toList ++ text) = .ok (some msg) := by
    rw [hline, parseMessage, Text.splitOn_field (by decide)]
    simp only [List.headD_cons, hbranch, Branch.run, hmsg]
  exact ⟨msg, published_of_parse hparse hprocess⟩

end AmigaDevbench.Replies
