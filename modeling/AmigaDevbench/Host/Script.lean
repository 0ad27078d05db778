import AmigaDevbench.Host.EventBus

/-!
# Running a script from the host

`script_execute` starts a script, waits for the daemon's acknowledgement and then reads the
captured output again and again until it finds the sentinel. The events and answers that reach
the host while it waits are arguments; a poll is one attempt to read the whole file.
-/

namespace AmigaDevbench

namespace Script

/-- `SCRIPT_SENTINEL`. -/
def sentinel : Text := "###ABDONE###".toList

/-- The size that every READFILE asks for. -/
def chunkSize : Nat := 4096

/-- The attempt to read the captured file at one moment: the events that arrive while the host
waits for the answer to the `i`-th READFILE, by path and offset, and whether the host is still
connected afterwards. -/
structure Poll where
  events : Text → Nat → Nat → List Event
  connected : Bool

/-- The event ends the wait for a piece of the file. -/
def answersFile (path : Text) (e : Event) : Bool :=
  e.name = "err" || e.name = "file" && e.data.hasText "path" path

/-- The answer to one READFILE, `none` for an error or no answer. -/
def awaitFile (path : Text) (events : List Event) : Option Dict :=
  match events.find? (answersFile path) with
  | some e => if e.name = "err" then none else some e.data
  | none => none

/-- The loop of `_read_amiga_file_text`. It goes on only after a full chunk, so sixteen rounds
reach the limit of 65536 bytes. -/
def readLoop (path : Text) (events : Nat → Nat → List Event) :
    Nat → Nat → Bytes → Except PyError (Option Bytes)
  | 0, _, collected => .ok (some collected)
  | rounds + 1, i, collected =>
    match awaitFile path (events i collected.length) with
    | none => .ok none
    | some got => do
      let hexd := got.getText "hexData" []
      if hexd = [] then return some collected
      let chunk ← Py.fromhex hexd
      if chunk.length < chunkSize then return some (collected ++ chunk)
      readLoop path events rounds (i + 1) (collected ++ chunk)

/-- `_read_amiga_file_text`. -/
def readAmigaFileText (path : Text) (poll : Poll) : Except PyError (Option Text) := do
  let collected ← readLoop path (poll.events path) 16 0 []
  return collected.map Bytes.latin1

/-- How a script ended for the host. -/
inductive Status where
  | ok
  | running
  | timeout
  | disconnected
  | error
  deriving DecidableEq, Repr

/-- `text.split(SCRIPT_SENTINEL)[0].rstrip()`. -/
def output (text : Text) : Text := Py.rstrip ((Text.beforeStr? sentinel text).getD text)

/-- The polls that start before the deadline. `last` is the text of the last readable poll. -/
def pollLoop (path : Text) : List Poll → Text → Except PyError (Status × Text)
  | [], last => .ok (.running, if last = [] then [] else output last)
  | poll :: polls, last => do
    match ← readAmigaFileText path poll with
    | some text =>
      if (Text.beforeStr? sentinel text).isSome then return (.ok, output text)
      else pollLoop path polls text
    | none => if poll.connected then pollLoop path polls last else return (.disconnected, [])

/-- The event ends the wait for the acknowledgement of `cmd_id`. -/
def acknowledges (cmdId : Nat) (e : Event) : Bool :=
  e.name = "err" || e.name = "cmd" && e.data.getInt "id" (-1) = cmdId

/-- `script_execute`: the events that arrive before the first deadline, whether the host is
connected after it, and the polls before the second one. -/
def scriptExecute (cmdId : Nat) (events : List Event) (connected : Bool) (polls : List Poll) :
    Except PyError (Status × Text) :=
  match events.find? (acknowledges cmdId) with
  | none => .ok (if connected then .timeout else .disconnected, [])
  | some e =>
    if e.name = "err" then .ok (.error, e.data.getText "message" "Error".toList)
    else
      let resp := e.data.getText "data" []
      if "ASYNC|".toList.isPrefixOf resp then
        pollLoop (Py.strip (resp.drop "ASYNC|".toList.length)) polls []
      else .ok (.ok, resp.map fun c => if c = ';' then '\n' else c)

end Script

end AmigaDevbench
