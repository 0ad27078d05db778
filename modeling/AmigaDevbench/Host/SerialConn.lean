import AmigaDevbench.Host.Protocol.Totality

/-!
# Receiving on the host

`_handle_data` cuts the stream into lines, cleans each complete line, parses it and hands the
message to `_process_message`, which updates the shared state and publishes events. The
updates and events are kept as a list of effects in program order; an exception ends the read
where it is raised.
-/

namespace AmigaDevbench

open Protocol

/-- What `_process_message` does to the shared state, the debugger state and the event bus. -/
inductive Effect where
  | sawMessage
  | addLog (entry : Dict)
  | setVar (name : Text) (entry : Dict)
  | setHeartbeat (msg : Dict)
  | setClients (names : Val)
  | setCrash (msg : Dict)
  | updateFromStop (msg : Dict)
  | updateFromState (msg : Dict)
  | publish (event : String) (data : Dict)

namespace SerialConn

/-- The message types that are published as they are, with the name of their event. -/
def plainEvents : List (String × String) :=
  [("MEM", "mem"), ("CMD", "cmd"), ("READY", "ready"), ("TASKS", "tasks"), ("LIBS", "libs"),
   ("DIR", "dir"), ("FILE", "file"), ("FILEINFO", "fileinfo"), ("PROC", "proc"),
   ("VOLUMES", "volumes"), ("PONG", "pong"), ("HOOKS", "hooks"), ("MEMREGS", "memregs"),
   ("CINFO", "cinfo"), ("DEVICES", "devices"), ("OK", "ok"), ("ERR", "err"),
   ("SCRINFO", "scrinfo"), ("SCRDATA", "scrdata"), ("SCRRGB", "scrrgb"), ("SCRRLE", "scrrle"),
   ("PALETTE", "palette"), ("COPPER", "copper"), ("SPRITE", "sprite"),
   ("DBGRUNNING", "dbg_running"), ("DBGDETACHED", "dbg_detached"), ("BPINFO", "dbg_bpinfo"),
   ("BPLIST", "dbg_bplist"), ("DBGREGS", "dbg_regs"), ("DBGBT", "dbg_bt"),
   ("RESOURCES", "resources"), ("PERF", "perf"), ("WINLIST", "winlist"), ("MEMMAP", "memmap"),
   ("STACKINFO", "stackinfo"), ("CHIPREGS", "chipregs"), ("REGS", "regs"), ("SEARCH", "search"),
   ("LIBINFO", "libinfo"), ("DEVINFO", "devinfo"), ("LIBFUNCS", "libfuncs"), ("SNOOP", "snoop"),
   ("SNOOPSTATE", "snoopstate"), ("AUDIOCHANNELS", "audiochannels"),
   ("AUDIOSAMPLE", "audiosample"), ("SCREENS", "screens"), ("WINDOWS", "windows"),
   ("GADGETS", "gadgets"), ("FONTS", "fonts"), ("FONTINFO", "fontinfo"), ("CHIPLOG", "chiplog"),
   ("CHIPLOGCHANGE", "chiplogchange"), ("POOLS", "pools"), ("CLIPBOARD", "clipboard"),
   ("AREXXPORTS", "arexxports"), ("AREXXRESULT", "arexxresult"),
   ("CAPABILITIES", "capabilities"), ("PROCLIST", "proclist"), ("PROCSTAT", "procstat"),
   ("TAILDATA", "taildata"), ("CHECKSUM", "checksum"), ("ASSIGNS", "assigns"),
   ("PROTECT", "protect"), ("VERSION", "version"), ("ENV", "env"), ("PORTS", "ports"),
   ("SYSINFO", "sysinfo"), ("UPTIME", "uptime")]

/-- `f"{n:08X}"`. -/
def fmt08X (n : Int) : Text :=
  let digits := (Nat.toDigits 16 n.natAbs).map Char.toUpper
  let sign := if n < 0 then ['-'] else []
  sign ++ List.replicate (8 - sign.length - digits.length) '0' ++ digits

/-- A log entry of the bridge itself. -/
def logEntry (level : Char) (message timestamp : Text) : Dict :=
  [("type", .str "LOG".toList), ("level", .str [level]), ("tick", .int 0),
    ("message", .str message), ("timestamp", .str timestamp)]

/-- The line shown in the log for a message of the test harness. -/
def testSummary (test : Dict) : Option (Char × Text) :=
  let suite := test.getText "suite" ['?']
  let name := test.getText "testName" ['?']
  let num (k : String) : Text := Py.str (test.getInt k 0)
  if test.getText "type" [] = "TEST_PASS".toList then some ('I', "[TEST] PASS: ".toList ++ name)
  else if test.getText "type" [] = "TEST_FAIL".toList then
    some ('E', "[TEST] FAIL: ".toList ++ name ++ " at ".toList ++ test.getText "file" ['?'] ++
      ":".toList ++ num "line")
  else if test.getText "type" [] = "TEST_END".toList then
    some (if test.getInt "failed" 0 > 0 then 'E' else 'I', "[TEST] Suite '".toList ++ suite ++
      "': ".toList ++ num "passed" ++ "/".toList ++ num "total" ++ " passed, ".toList ++
      num "failed" ++ " failed".toList)
  else if test.getText "type" [] = "TEST_BEGIN".toList then
    some ('I', "[TEST] Suite '".toList ++ suite ++ "' started".toList)
  else none

/-- A client's log line that carries a message of the test harness: it is published as a test
event and not as a client log. -/
def processTest (msg test : Dict) : List Effect :=
  let client := msg.getText "client" []
  let stamp := msg.getText "timestamp" []
  let test := (test.set "client" (.str client)).set "timestamp" (.str stamp)
  .publish "test" test ::
    match testSummary test with
    | some (level, text) =>
      [.publish "log" (logEntry level text stamp ++ [("client", .str client)])]
    | none => []

/-- A client's ordinary log line. -/
def processClientLog (msg : Dict) : Except PyError (List Effect) := do
  let level ← msg.getItem "level"
  let tick ← msg.getItem "tick"
  let timestamp ← msg.getItem "timestamp"
  let client ← msg.getItem "client"
  let entry : Dict := [("type", .str "LOG".toList), ("level", level), ("tick", tick),
    ("message", .str ("[".toList ++ msg.getText "client" [] ++ "] ".toList ++
      msg.getText "message" [])), ("timestamp", timestamp), ("client", client)]
  return [.addLog entry, .publish "log" entry, .publish "clog" msg]

/-- The CLOG branch: test messages embedded in a log line are looked for first. -/
def processClog (now : Text) (msg : Dict) : Except PyError (List Effect) := do
  let _ ← msg.getItem "message"
  let raw := msg.getText "message" []
  if "TEST_".toList.isPrefixOf raw then
    match ← parseMessage now raw with
    | some test => return processTest msg test
    | none => processClientLog msg
  else processClientLog msg

/-- The CVAR branch. -/
def processCvar (msg : Dict) : Except PyError (List Effect) := do
  let name ← msg.getItem "name"
  let varType ← msg.getItem "varType"
  let value ← msg.getItem "value"
  let client ← msg.getItem "client"
  let entry : Dict := [("type", .str "VAR".toList), ("name", name), ("varType", varType),
    ("value", value), ("client", client)]
  return [.setVar (msg.getText "name" []) entry, .publish "var" entry, .publish "cvar" msg]

/-- The log line of a crash. -/
def crashEntry (msg : Dict) : Dict :=
  logEntry 'E' ("CRASH: ".toList ++ msg.getText "alertName" ['?'] ++ " (0x".toList ++
    msg.getText "alertNum" ['?'] ++ ")".toList) (msg.getText "timestamp" [])

/-- The log line of a debugger stop. -/
def stopEntry (msg : Dict) : Dict :=
  logEntry 'W' ("[DBG] Stopped: ".toList ++ msg.getText "reason" ['?'] ++ " at PC=0x".toList ++
    fmt08X (msg.getInt "pc" 0)) (msg.getText "timestamp" [])

/-- `_process_message` behind the time stamp: `hasDbg` says that a debugger state is set, and
`now` is the clock reading of a nested parse. -/
def dispatch (hasDbg : Bool) (now : Text) (msg : Dict) : Except PyError (List Effect) :=
  let type := msg.getText "type" []
  if type = "LOG".toList then .ok [.addLog msg, .publish "log" msg]
  else if type = "VAR".toList then do
    let _ ← msg.getItem "name"
    return [.setVar (msg.getText "name" []) msg, .publish "var" msg]
  else if type = "HB".toList then .ok [.setHeartbeat msg, .publish "heartbeat" msg]
  else if type = "CLOG".toList then processClog now msg
  else if type = "CVAR".toList then processCvar msg
  else if type = "CLIENTS".toList then
    .ok [.setClients ((msg.get? "names").getD (.list [])), .publish "clients" msg]
  else if type = "DBGSTOP".toList then
    .ok ((if hasDbg then [.updateFromStop msg] else []) ++
      [.publish "dbg_stop" msg, .publish "log" (stopEntry msg)])
  else if type = "DBGSTATE".toList then
    .ok ((if hasDbg then [.updateFromState msg] else []) ++ [.publish "dbg_state" msg])
  else if type = "CRASH".toList then
    .ok [.setCrash msg, .addLog (crashEntry msg), .publish "crash" msg,
      .publish "log" (crashEntry msg)]
  else match plainEvents.find? (·.1.toList = type) with
    | some (_, event) => .ok [.publish event msg]
    | none => .ok []

/-- `_process_message`. -/
def processMessage (hasDbg : Bool) (now : Text) (msg : Dict) : Except PyError (List Effect) := do
  let _ ← msg.getItem "type"
  let effects ← dispatch hasDbg now msg
  return .sawMessage :: effects

/-- The events that go with an update of the shared state. -/
def stateEvents : List String :=
  ["log", "var", "heartbeat", "test", "clog", "cvar", "clients", "dbg_stop", "dbg_state", "crash"]

/-- Every event among the effects is one of them. -/
def OnlyStateEvents (effects : List Effect) : Prop :=
  ∀ event data, .publish event data ∈ effects → event ∈ stateEvents

theorem onlyStateEvents_processTest (msg test : Dict) : OnlyStateEvents (processTest msg test) := by
  intro event data h
  simp only [processTest] at h
  split at h
  · simp only [List.mem_cons, Effect.publish.injEq, List.not_mem_nil, or_false] at h
    rcases h with ⟨rfl, _⟩ | ⟨rfl, _⟩ <;> decide
  · simp only [List.mem_cons, Effect.publish.injEq, List.not_mem_nil, or_false] at h
    rcases h with ⟨rfl, _⟩
    decide

theorem onlyStateEvents_processClientLog {msg : Dict} :
    Ensures OnlyStateEvents (processClientLog msg) := by
  refine ensures_bind fun _ => ensures_bind fun _ => ensures_bind fun _ => ensures_bind fun _ =>
    ensures_pure ?_
  intro event data h
  simp only [List.mem_cons, Effect.publish.injEq, List.not_mem_nil, or_false, reduceCtorEq,
    false_or] at h
  rcases h with ⟨rfl, _⟩ | ⟨rfl, _⟩ <;> decide

theorem onlyStateEvents_processClog (now : Text) {msg : Dict} :
    Ensures OnlyStateEvents (processClog now msg) := by
  refine ensures_bind fun _ => ?_
  simp only
  split
  · refine ensures_bind fun test => ?_
    cases test with
    | some test => exact ensures_pure (onlyStateEvents_processTest msg test)
    | none => exact onlyStateEvents_processClientLog
  · exact onlyStateEvents_processClientLog

theorem onlyStateEvents_processCvar {msg : Dict} :
    Ensures OnlyStateEvents (processCvar msg) := by
  refine ensures_bind fun _ => ensures_bind fun _ => ensures_bind fun _ => ensures_bind fun _ =>
    ensures_pure ?_
  intro event data h
  simp only [List.mem_cons, Effect.publish.injEq, List.not_mem_nil, or_false, reduceCtorEq,
    false_or] at h
  rcases h with ⟨rfl, _⟩ | ⟨rfl, _⟩ <;> decide

/-- A message is published under the name of its type alone, or with an update of the state. -/
theorem dispatch_cases (hasDbg : Bool) (now : Text) (msg : Dict) :
    Ensures (fun effects => effects = [] ∨ (∃ event, effects = [.publish event msg]) ∨
      OnlyStateEvents effects) (dispatch hasDbg now msg) := by
  have hstate : ∀ {x : Except PyError (List Effect)}, Ensures OnlyStateEvents x →
      Ensures (fun effects => effects = [] ∨ (∃ event, effects = [.publish event msg]) ∨
        OnlyStateEvents effects) x :=
    fun hx effects heffects => Or.inr (Or.inr (hx effects heffects))
  have hlist : ∀ effects : List Effect, (∀ e ∈ effects, ∀ event data, e = .publish event data →
      event ∈ stateEvents) → OnlyStateEvents effects :=
    fun effects h event data hmem => h _ hmem event data rfl
  unfold dispatch
  simp only
  repeat' split
  all_goals first
    | exact hstate (onlyStateEvents_processClog now)
    | exact hstate onlyStateEvents_processCvar
    | exact ensures_ok (Or.inl rfl)
    | exact ensures_ok (Or.inr (Or.inl ⟨_, rfl⟩))
    | exact hstate (ensures_ok (hlist _ (by simp [stateEvents])))
    | exact hstate (ensures_bind fun _ => ensures_pure (hlist _ (by simp [stateEvents])))

/-- A line as `parse_message` sees it: stripped, and without the control characters of serial
noise. Nothing is left of a blank line. -/
def cleanLine (line : Text) : Option Text :=
  let trimmed := Py.strip line
  let cleaned :=
    if trimmed.all fun c => 32 ≤ c.toNat && c.toNat < 127 then trimmed
    else trimmed.filter fun c => 32 ≤ c.toNat || c = '\t'
  if trimmed = [] ∨ cleaned = [] then none else some cleaned

/-- The characters that survive the removal of noise. -/
def plain (c : Char) : Bool := 32 ≤ c.toNat || c = '\t'

/-- A stripped line without its noise, and nothing if that is empty. -/
theorem cleanLine_eq (line : Text) :
    cleanLine line =
      if (Py.strip line).filter plain = [] then none else some ((Py.strip line).filter plain) := by
  have hfilter : (if (Py.strip line).all fun c => 32 ≤ c.toNat && c.toNat < 127 then Py.strip line
      else (Py.strip line).filter plain) = (Py.strip line).filter plain := by
    split
    · next hall =>
      rw [eq_comm, List.filter_eq_self]
      intro c hc
      have hrange := List.all_eq_true.mp hall c hc
      simp only [Bool.and_eq_true, decide_eq_true_eq] at hrange
      simp only [plain, hrange.1, decide_true, Bool.true_or]
    · rfl
  change (if Py.strip line = [] ∨ (if _ then _ else (Py.strip line).filter plain) = [] then none
    else some (if _ then _ else (Py.strip line).filter plain)) = _
  rw [hfilter]
  cases hs : Py.strip line with
  | nil => rfl
  | cons c s => simp

/-- What a read did: the lines given to the parser, the messages processed, their effects, and
the exception that ended the read, if any. -/
structure Handled where
  parsed : List Text
  processed : List Dict
  effects : List Effect
  raised : Option PyError

/-- The loop of `_handle_data` over the cleaned lines of one read. -/
def handleLines (hasDbg : Bool) (now : Text) : List Text → Handled
  | [] => ⟨[], [], [], none⟩
  | line :: lines =>
    match parseMessage now line with
    | .error e => ⟨[line], [], [], some e⟩
    | .ok none =>
      let r := handleLines hasDbg now lines
      { r with parsed := line :: r.parsed }
    | .ok (some msg) =>
      match processMessage hasDbg now msg with
      | .error e => ⟨[line], [], [], some e⟩
      | .ok effects =>
        let r := handleLines hasDbg now lines
        { r with
          parsed := line :: r.parsed
          processed := msg :: r.processed
          effects := effects ++ r.effects }

/-- How the connection is made. -/
inductive Mode where
  | tcp
  | pty
  deriving DecidableEq, Repr

end SerialConn

/-- The receiving side of a connection. Times are milliseconds of the monotonic clock. -/
structure SerialConn where
  mode : SerialConn.Mode
  host : Text
  port : Nat
  firstData : Bool
  httpDetected : Bool
  lineBuf : Text
  lineBufTime : Option Nat
  hasDbg : Bool

namespace SerialConn

/-- An unfinished line older than this is dropped. -/
def staleAfter : Nat := 2000

/-- The first data of a TCP connection is an HTTP response. -/
def looksHttp (conn : SerialConn) (data : Text) : Bool :=
  conn.firstData && conn.mode == Mode.tcp &&
    ("HTTP/".toList.isPrefixOf data || "<!DOCTYPE".toList.isPrefixOf data ||
      "<html".toList.isPrefixOf data)

/-- The report of a port conflict. -/
def conflictText (conn : SerialConn) : Text :=
  "PORT CONFLICT: Received HTTP response on serial port ".toList ++ conn.host ++ ":".toList ++
    Py.str conn.port ++ (" — another application (not FS-UAE) is listening on this port. " ++
      "Check for conflicting services (e.g. LM Studio, web servers) and kill them, " ++
      "or change the serial port in devbench.toml.").toList

/-- The line buffer after the check for a stale partial line. -/
def freshBuf (conn : SerialConn) (time : Nat) : Text :=
  match conn.lineBufTime with
  | some t => if conn.lineBuf ≠ [] ∧ staleAfter < time - t then [] else conn.lineBuf
  | none => conn.lineBuf

/-- The lines of the buffered stream; the last one is unfinished. -/
def bufferedLines (conn : SerialConn) (time : Nat) (data : Text) : List Text :=
  (conn.freshBuf time ++ data).splitOn '\n'

/-- The cleaned complete lines that a read delivers to the parser. -/
def batch (conn : SerialConn) (time : Nat) (data : Text) : List Text :=
  if conn.looksHttp data then [] else (conn.bufferedLines time data).dropLast.filterMap cleanLine

/-- `_handle_data`. -/
def handleData (conn : SerialConn) (time : Nat) (now data : Text) : SerialConn × Handled :=
  let seen := { conn with firstData := conn.firstData && conn.mode != Mode.tcp }
  if conn.looksHttp data then
    ({ seen with httpDetected := true },
      ⟨[], [], [.publish "port_conflict" [("message", .str conn.conflictText)],
        .addLog (logEntry 'E' conn.conflictText now)], none⟩)
  else
    ({ seen with
        lineBuf := (conn.bufferedLines time data).getLastD []
        lineBufTime := some time },
      handleLines conn.hasDbg now (conn.batch time data))

end SerialConn

end AmigaDevbench
