import AmigaDevbench.Host.Python

/-!
# `format_command`

A command dictionary becomes a line: its type and its fields, joined with `|`. Every branch of
the function is one row of a table that says which keys it reads and in which order. `send`
appends the newline and encodes the line in Latin-1; nothing is escaped.
-/

namespace AmigaDevbench.Protocol

/-- A value of a command dictionary. -/
inductive Arg where
  | str (s : Text)
  | int (n : Int)
  | bool (b : Bool)
  deriving DecidableEq, Repr

/-- A command dictionary. -/
abbrev Command := List (String × Arg)

namespace Arg

/-- The text of a value in an f-string. -/
def format : Arg → Text
  | str s => s
  | int n => Py.str n
  | bool true => "True".toList
  | bool false => "False".toList

/-- `bool(v)`. -/
def truthy : Arg → Bool
  | str s => !s.isEmpty
  | int n => n != 0
  | bool b => b

end Arg

namespace Command

/-- `cmd.get(k)`. -/
def get? (cmd : Command) (k : String) : Option Arg := (cmd.find? (·.1 = k)).map (·.2)

/-- `cmd[k]`. -/
def getItem (cmd : Command) (k : String) : Except PyError Arg :=
  match cmd.get? k with
  | some v => .ok v
  | none => .error .keyError

end Command

/-- How a branch of `format_command` obtains a field. -/
inductive Slot where
  /-- `cmd[key]`. -/
  | item (key : String)
  /-- `cmd.get(key, default)`. -/
  | get (key : String) (default : Arg)
  /-- A field that is left out unless the value is true. -/
  | ifSet (key : String)
  /-- The field `1`, left out unless the value is true. -/
  | flag (key : String)

/-- The fields that a slot contributes. -/
def Slot.args (cmd : Command) : Slot → Except PyError (List Arg)
  | item key => (cmd.getItem key).map fun v => [v]
  | get key default => .ok [(cmd.get? key).getD default]
  | ifSet key => .ok (((cmd.get? key).toList).filter Arg.truthy)
  | flag key => .ok ((((cmd.get? key).toList).filter Arg.truthy).map fun _ => .str ['1'])

open Slot in
/-- The command types in the order of the source, each with its fields. -/
def commands : List (String × List Slot) :=
  [("PING", []),
   ("GETVAR", [item "name"]),
   ("SETVAR", [item "name", item "value"]),
   ("INSPECT", [item "address", item "size"]),
   ("EXEC", [item "id", item "expression"]),
   ("LISTCLIENTS", []),
   ("LISTTASKS", []),
   ("LISTLIBS", []),
   ("LISTDEVS", []),
   ("LISTVOLUMES", []),
   ("LISTDIR", [item "path", get "offset" (.int 0)]),
   ("READFILE", [item "path", item "offset", item "size"]),
   ("WRITEFILE", [item "path", item "offset", item "hexData"]),
   ("FILEINFO", [item "path"]),
   ("DELETEFILE", [item "path"]),
   ("MAKEDIR", [item "path"]),
   ("LAUNCH", [item "id", item "command"]),
   ("DOSCOMMAND", [item "id", item "command"]),
   ("RUN", [item "id", item "command"]),
   ("BREAK", [item "name"]),
   ("LISTHOOKS", [get "client" (.str [])]),
   ("CALLHOOK", [item "id", item "client", item "hook", get "args" (.str [])]),
   ("LISTMEMREGS", [get "client" (.str [])]),
   ("READMEMREG", [item "client", item "region"]),
   ("CLIENTINFO", [item "client"]),
   ("STOP", [item "name", ifSet "signal"]),
   ("SCRIPT", [item "id", item "script"]),
   ("WRITEMEM", [item "address", item "hexData"]),
   ("SHUTDOWN", []),
   ("SCREENSHOT", [ifSet "window"]),
   ("PALETTE", []),
   ("SETPALETTE", [item "index", item "rgb"]),
   ("COPPERLIST", []),
   ("SPRITES", []),
   ("LISTRESOURCES", [item "client"]),
   ("GETPERF", [item "client"]),
   ("LASTCRASH", []),
   ("LISTWINDOWS", []),
   ("CRASHINIT", []),
   ("CRASHREMOVE", []),
   ("CRASHTEST", []),
   ("MEMMAP", []),
   ("STACKINFO", [item "task"]),
   ("CHIPREGS", []),
   ("READREGS", []),
   ("SEARCH", [item "address", item "size", item "pattern"]),
   ("LIBINFO", [item "name"]),
   ("DEVINFO", [item "name"]),
   ("LIBFUNCS", [item "name", item "libtype", get "start" (.int 0)]),
   ("SNOOPSTART", []),
   ("SNOOPSTOP", []),
   ("SNOOPSTATUS", []),
   ("AUDIOCHANNELS", []),
   ("AUDIOSAMPLE", [item "address", item "size"]),
   ("LISTSCREENS", []),
   ("LISTWINDOWS2", [get "screen" (.str [])]),
   ("LISTGADGETS", [item "window"]),
   ("INPUTKEY", [item "rawkey", item "direction"]),
   ("INPUTMOVE", [item "dx", item "dy"]),
   ("INPUTPOS", [item "x", item "y"]),
   ("INPUTCLICK", [item "button", item "direction"]),
   ("WINACTIVATE", [item "window"]),
   ("WINTOFRONT", [item "window"]),
   ("WINTOBACK", [item "window"]),
   ("WINZIP", [item "window"]),
   ("WINMOVE", [item "window", item "x", item "y"]),
   ("WINSIZE", [item "window", item "width", item "height"]),
   ("SCRTOFRONT", [item "screen"]),
   ("SCRTOBACK", [item "screen"]),
   ("LISTFONTS", []),
   ("FONTINFO", [item "name", item "size"]),
   ("CHIPLOGSTART", []),
   ("CHIPLOGSTOP", []),
   ("CHIPLOGSNAPSHOT", []),
   ("POOLSTART", []),
   ("POOLSTOP", []),
   ("POOLS", []),
   ("CLIPGET", []),
   ("CLIPSET", [item "text"]),
   ("AREXXPORTS", []),
   ("AREXXSEND", [item "port", item "command"]),
   ("CAPABILITIES", []),
   ("PROCLIST", []),
   ("PROCSTAT", [item "id"]),
   ("SIGNAL", [item "id", item "sigType"]),
   ("TAIL", [item "path"]),
   ("STOPTAIL", []),
   ("CHECKSUM", [item "path"]),
   ("ASSIGNS", []),
   ("ASSIGN", [item "name", item "path", ifSet "mode"]),
   ("PROTECT", [item "path", ifSet "bits"]),
   ("RENAME", [item "oldPath", item "newPath"]),
   ("SETCOMMENT", [item "path", item "comment"]),
   ("COPY", [item "src", item "dst"]),
   ("APPEND", [item "path", item "hexData"]),
   ("GETENV", [item "name", .flag "archive"]),
   ("SETENV", [item "name", item "value", .flag "archive"]),
   ("SETDATE", [item "path", item "days", item "mins", item "ticks"]),
   ("VOLUMES", []),
   ("PORTS", []),
   ("SYSINFO", []),
   ("UPTIME", []),
   ("VERSION", []),
   ("REBOOT", []),
   ("DBGATTACH", [item "target"]),
   ("DBGDETACH", []),
   ("BPSET", [item "address"]),
   ("BPCLEAR", [item "id"]),
   ("BPLIST", []),
   ("DBGSTEP", []),
   ("DBGNEXT", []),
   ("DBGCONT", []),
   ("DBGREGS", []),
   ("DBGSETREG", [item "reg", item "value"]),
   ("DBGBT", []),
   ("DBGSTATUS", []),
   ("DBGBREAK", [])]

/-- The row of a command type. -/
def slotsOf (type : Arg) : Except PyError (String × List Slot) :=
  match commands.find? fun c => type = .str c.1.toList with
  | some c => .ok c
  | none => .error .valueError

/-- The type and the fields that a command dictionary asks for. -/
def requested (cmd : Command) : Except PyError (String × List Arg) := do
  let type ← cmd.getItem "type"
  let row ← slotsOf type
  let args ← row.2.mapM (Slot.args cmd)
  return (row.1, args.flatten)

/-- A type and its fields as a line. -/
def commandLine (type : String) (args : List Arg) : Text :=
  Text.joinBar (type.toList :: args.map Arg.format)

/-- `format_command`. -/
def formatCommand (cmd : Command) : Except PyError Text := do
  let (type, args) ← requested cmd
  return commandLine type args

/-- `(line + "\n").encode("latin-1")`. -/
def encode (line : Text) : Except PyError Text :=
  if line.all (·.toNat < 256) then .ok (line ++ ['\n']) else .error .unicodeEncodeError

/-- `SerialConnection.send`, up to the write: the bytes for the link. -/
def send (connected : Bool) (cmd : Command) : Except PyError Text :=
  if connected then do
    let line ← formatCommand cmd
    encode line
  else .error .runtimeError

end AmigaDevbench.Protocol
