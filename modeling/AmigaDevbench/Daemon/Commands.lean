import AmigaDevbench.Core.CNumber
import AmigaDevbench.Daemon.Log

/-!
# Reading a command line

The daemon collects the bytes of the link into a line, cuts the command off at the first `|`
and hands the rest to the command's handler, which cuts its own fields off in turn. How a
handler reads a field is one of a few ways (a copy into an array, a number, the rest of the
line), so a handler's reading is a row of the table `handlers`.
-/

namespace AmigaDevbench.Daemon

open CText CNumber

/-- A field as a handler has read it. -/
inductive FieldVal where
  | text (s : Text)
  | num (n : Int)
  | bytes (bs : List Nat)
  deriving DecidableEq, Repr

/-- How a handler reads one field off the rest of its line. -/
inductive Cut where
  /-- The text up to the separator, cut to `mid` characters; without a separator behind it, to
  `last` characters or not at all. -/
  | text (mid : Nat) (last : Option Nat)
  /-- A variable name up to the separator, with an optional client name in front of a dot. The
  client name, or a name without dot, is cut to 33 characters. -/
  | target
  /-- The same over the whole line, where a name without dot is not cut. -/
  | targetRest
  /-- A font name: refused when empty or too long for its array. -/
  | strict (cap : Nat)
  /-- A word that is recognised by its first letter. -/
  | initial
  /-- `strtoul`, converted to an unsigned type. -/
  | num (base bits : Nat)
  /-- `strtol`, converted to a signed type. -/
  | snum (bits : Nat)
  /-- `strtol`, with negative values raised to zero. -/
  | index
  /-- `strtol`, which must end at the separator. -/
  | exact
  /-- The kind of a library node, recognised by its first three letters. -/
  | libtype
  /-- The first `n` characters of what is left; refused when there are fewer. -/
  | leading (n : Nat)
  /-- Everything that is left, cut to an array or not. -/
  | rest (cap : Option Nat)
  /-- Everything that is left, as pairs of hexadecimal digits. -/
  | hex (cap : Nat)
  /-- A search pattern: as `hex`, with a missing last digit taken as zero. -/
  | pattern (cap : Nat)
  /-- No field: what is left of the line is first copied into an array. -/
  | limit (n : Nat)
  deriving DecidableEq, Repr

/-- Cut to an array, if there is one. -/
def capped (cap : Option Nat) (s : Text) : Text :=
  match cap with
  | some n => s.take n
  | none => s

/-- A name with its client part cut to 33 characters. -/
def targetName (s : Text) : Text := (s.before '.').take 33 ++ s.drop (s.before '.').length

/-- The bytes that pairs of digits denote, each read by `strtoul`. -/
def hexBytes : Text → List Nat
  | hi :: lo :: s => strtoul 16 [hi, lo] % 256 :: hexBytes s
  | _ => []

/-- The digit arithmetic of the search pattern. -/
def nibble (c : Char) : Int :=
  if 97 ≤ signed c then signed c - 97 + 10
  else if 65 ≤ signed c then signed c - 65 + 10
  else signed c - 48

/-- `(UBYTE)((hv << 4) | lv)`. -/
def patternByte (hi lo : Char) : Nat :=
  (16 * nibble hi % 256).toNat ||| (nibble lo % 256).toNat

/-- The bytes of a search pattern. -/
def patternBytes : Text → List Nat
  | hi :: lo :: s => patternByte hi lo :: patternBytes s
  | [hi] => [patternByte hi '0']
  | [] => []

namespace Cut

/-- The reading takes all that is left of the line. -/
def isLast : Cut → Bool
  | targetRest | leading _ | rest _ | hex _ | pattern _ => true
  | _ => false

/-- Read one field off the rest of the line; `none` when the handler refuses the command. -/
def read (s : Text) : Cut → Option FieldVal
  | text mid last =>
    some (.text (if '|' ∈ s then (s.before '|').take mid else capped last s))
  | target =>
    let name := s.before '|'
    some (.text (if '.' ∈ name then targetName name else name.take 33))
  | targetRest => some (.text (if '.' ∈ s then targetName s else s))
  | strict cap =>
    let name := s.before '|'
    if name = [] ∨ cap < name.length then none else some (.text name)
  | initial => some (.text ((s.before '|').take 1))
  | num base bits => some (.num (strtoul base s % 2 ^ bits : Nat))
  | snum bits => some (.num (toSigned bits (strtol s)))
  | index => some (.num (max 0 (strtol s)))
  | exact => if (strtolRest s).head? = some '|' then some (.num (strtol s)) else none
  | libtype =>
    if "dev".toList.isPrefixOf s then some (.text "dev".toList)
    else if "lib".toList.isPrefixOf s then some (.text "lib".toList)
    else none
  | leading n => if s.length < n then none else some (.text (s.take n))
  | rest cap => some (.text (capped cap s))
  | hex cap => some (.bytes ((hexBytes s).take cap))
  | pattern cap => some (.bytes ((patternBytes s).take cap))
  | limit _ => none

end Cut

/-- Read the fields of a handler off the rest of its line. -/
def readFields : List Cut → Text → Option (List FieldVal)
  | [], _ => some []
  | .limit n :: cuts, s => readFields cuts (s.take n)
  | cut :: cuts, s =>
    match cut.read s with
    | none => none
    | some v =>
      if cut.isLast then some [v]
      else match s.after? '|' with
        | none => some [v]
        | some s' => (readFields cuts s').map (v :: ·)

/-- A reading that yields a field moves on to what stands behind the separator. -/
theorem readFields_cons {cut : Cut} (h : ∀ n, cut ≠ .limit n) (cuts : List Cut) (s : Text) :
    readFields (cut :: cuts) s =
      match cut.read s with
      | none => none
      | some v =>
        if cut.isLast then some [v]
        else match s.after? '|' with
          | none => some [v]
          | some s' => (readFields cuts s').map (v :: ·) := by
  cases cut with
  | limit n => exact absurd rfl (h n)
  | _ => rfl

open Cut in
/-- The dispatch of `protocol_parse_line`: for each command the number of fields without which
its handler refuses it, and how it reads them. -/
def handlers : List (String × Nat × List Cut) :=
  [("PING", 0, []),
   ("INSPECT", 0, [num 16 32, num 10 32]),
   ("GETVAR", 0, [targetRest]),
   ("SETVAR", 2, [target, rest none]),
   ("EXEC", 2, [num 10 32, rest none]),
   ("LISTCLIENTS", 0, []),
   ("LISTTASKS", 0, []),
   ("LISTLIBS", 0, []),
   ("LISTDEVICES", 0, []),
   ("LISTDEVS", 0, []),
   ("LISTVOLUMES", 0, []),
   ("LISTDIR", 0, [text 255 none, num 10 32]),
   ("READFILE", 0, [text 255 (some 255), num 10 32, num 10 32]),
   ("WRITEFILE", 2, [text 255 (some 255), num 10 32, hex 4096]),
   ("FILEINFO", 0, [rest none]),
   ("DELETE", 0, [rest none]),
   ("DELETEFILE", 0, [rest none]),
   ("MAKEDIR", 0, [rest none]),
   ("LAUNCH", 2, [num 10 32, rest none]),
   ("DOSCOMMAND", 2, [num 10 32, rest none]),
   ("RUN", 2, [num 10 32, rest none]),
   ("BREAK", 0, [rest none]),
   ("LISTHOOKS", 0, [rest none]),
   ("CALLHOOK", 2, [num 10 32, text 33 (some 33), limit 255, text 255 none, rest none]),
   ("LISTMEMREGS", 0, [rest none]),
   ("READMEMREG", 2, [text 33 (some 33), rest none]),
   ("CLIENTINFO", 0, [rest none]),
   ("STOP", 0, [text 255 (some 255), rest none]),
   ("SCRIPT", 2, [num 10 32, rest none]),
   ("WRITEMEM", 2, [num 16 32, hex 256]),
   ("SCREENSHOT", 0, [rest none]),
   ("PALETTE", 0, []),
   ("SETPALETTE", 2, [num 10 16, leading 3]),
   ("COPPERLIST", 0, []),
   ("SPRITES", 0, []),
   ("LISTWINDOWS", 0, []),
   ("LISTRESOURCES", 0, [rest none]),
   ("GETPERF", 0, [rest none]),
   ("LASTCRASH", 0, []),
   ("CRASHINIT", 0, []),
   ("CRASHREMOVE", 0, []),
   ("MEMMAP", 0, []),
   ("STACKINFO", 0, [rest none]),
   ("CHIPREGS", 0, []),
   ("READREGS", 0, []),
   ("SEARCH", 3, [num 16 32, num 10 32, pattern 64]),
   ("LIBINFO", 0, [rest none]),
   ("DEVINFO", 0, [rest none]),
   ("LIBFUNCS", 2, [text 62 (some 62), libtype, index]),
   ("SNOOPSTART", 0, []),
   ("SNOOPSTOP", 0, []),
   ("SNOOPSTATUS", 0, []),
   ("AUDIOCHANNELS", 0, []),
   ("AUDIOSAMPLE", 2, [num 16 32, num 10 32]),
   ("LISTSCREENS", 0, []),
   ("LISTWINDOWS2", 0, [rest none]),
   ("LISTGADGETS", 0, [num 16 32]),
   ("WINACTIVATE", 0, [num 16 32]),
   ("WINTOFRONT", 0, [num 16 32]),
   ("WINTOBACK", 0, [num 16 32]),
   ("WINZIP", 0, [num 16 32]),
   ("WINMOVE", 3, [num 16 32, exact, snum 32]),
   ("WINSIZE", 3, [num 16 32, exact, snum 32]),
   ("SCRTOFRONT", 0, [num 16 32]),
   ("SCRTOBACK", 0, [num 16 32]),
   ("INPUTKEY", 0, [num 16 16, initial]),
   ("INPUTMOVE", 2, [snum 16, snum 16]),
   ("INPUTPOS", 2, [snum 16, snum 16]),
   ("INPUTCLICK", 0, [initial, initial]),
   ("CRASHTEST", 0, []),
   ("LISTFONTS", 0, []),
   ("FONTINFO", 2, [strict 126, num 10 16]),
   ("CHIPLOGSTART", 0, []),
   ("CHIPLOGSTOP", 0, []),
   ("CHIPLOGSNAPSHOT", 0, []),
   ("POOLSTART", 0, []),
   ("POOLSTOP", 0, []),
   ("POOLS", 0, []),
   ("CLIPGET", 0, []),
   ("CLIPSET", 0, [rest (some 1024)]),
   ("AREXXPORTS", 0, []),
   ("AREXXSEND", 2, [text 63 (some 63), rest none]),
   ("CAPABILITIES", 0, []),
   ("PROCLIST", 0, []),
   ("PROCSTAT", 0, [snum 32]),
   ("SIGNAL", 2, [snum 32, num 10 32]),
   ("TAIL", 0, [rest (some 255)]),
   ("STOPTAIL", 0, []),
   ("CHECKSUM", 0, [rest none]),
   ("ASSIGNS", 0, []),
   ("ASSIGN", 2, [text 108 (some 108), text 254 (some 255), rest none]),
   ("PROTECT", 0, [text 255 (some 255), num 16 32]),
   ("RENAME", 2, [text 255 (some 255), rest (some 255)]),
   ("SETCOMMENT", 2, [text 255 (some 255), rest none]),
   ("COPY", 2, [text 255 (some 255), rest (some 255)]),
   ("APPEND", 2, [text 255 (some 255), hex 4096]),
   ("VERSION", 0, []),
   ("GETENV", 0, [text 255 (some 255), initial]),
   ("SETENV", 2, [text 255 (some 255), text 511 (some 511), initial]),
   ("SETDATE", 4, [text 255 (some 255), snum 32, snum 32, snum 32]),
   ("VOLUMES", 0, []),
   ("PORTS", 0, []),
   ("SYSINFO", 0, []),
   ("UPTIME", 0, []),
   ("REBOOT", 0, []),
   ("DBGATTACH", 0, [rest none]),
   ("DBGDETACH", 0, []),
   ("BPSET", 0, [num 16 32]),
   ("BPCLEAR", 0, [rest none]),
   ("BPLIST", 0, []),
   ("DBGSTEP", 0, []),
   ("DBGNEXT", 0, []),
   ("DBGCONT", 0, []),
   ("DBGREGS", 0, []),
   ("DBGSETREG", 0, []),
   ("DBGBT", 0, []),
   ("DBGBREAK", 0, []),
   ("DBGCLEARALLBP", 0, []),
   ("DBGSTATUS", 0, []),
   ("DBGLAUNCH", 0, [rest none]),
   ("SHUTDOWN", 0, [])]

/-- What a line made the daemon do: run a handler on the fields it read, or answer with an
error. -/
inductive Outcome where
  | executed (command : String) (fields : List FieldVal)
  | refused (command : Text)
  deriving DecidableEq, Repr

/-- The row of a command. -/
def handlerOf (command : Text) : Option (String × Nat × List Cut) :=
  handlers.find? (·.1.toList = command)

/-- Run the handler of a command on its arguments. -/
def dispatch (command args : Text) : Outcome :=
  match handlerOf command with
  | none => .refused command
  | some (name, need, cuts) =>
    if args.count '|' + 1 < need then .refused command
    else match readFields cuts args with
      | some fields => .executed name fields
      | none => .refused command

/-- `protocol_parse_line`: a command name is cut to 31 characters. -/
def protocolParseLine (line : Text) : List Outcome :=
  if line = [] then []
  else match line.after? '|' with
    | some args => [dispatch ((line.before '|').take 31) args]
    | none => [dispatch (line.take 31) []]

/-- `handle_serial_byte`: the line buffer, and what a completed line did. The buffer is a C
string for the parser. -/
def handleSerialByte (buf : Text) (ch : Char) : Text × List Outcome :=
  if ch = '\n' then ([], if buf = [] then [] else protocolParseLine (cut buf))
  else if ch = '\r' then (buf, [])
  else (if buf.length < maxLine - 1 then buf ++ [ch] else buf, [])

/-- The bytes of the link, one after the other. -/
def receive (buf : Text) : Text → Text × List Outcome
  | [] => (buf, [])
  | ch :: bytes =>
    let (buf', done) := handleSerialByte buf ch
    let (buf'', later) := receive buf' bytes
    (buf'', done ++ later)

/-- Characters of a line collect in the buffer. -/
theorem receive_append {line : Text} (hline : ∀ c ∈ line, c ≠ '\n' ∧ c ≠ '\r') (bytes : Text) :
    ∀ buf : Text, (buf ++ line).length < maxLine →
      receive buf (line ++ bytes) = receive (buf ++ line) bytes := by
  induction line with
  | nil => intro buf _; rw [List.nil_append, List.append_nil]
  | cons c line ih =>
    intro buf hlen
    obtain ⟨hnewline, hreturn⟩ := hline c List.mem_cons_self
    have hroom : buf.length < maxLine - 1 := by
      simp only [List.length_append, List.length_cons] at hlen
      omega
    have hnext := ih (fun d hd => hline d (List.mem_cons_of_mem c hd)) (buf ++ [c])
      (by simpa using hlen)
    simp only [List.cons_append, receive, handleSerialByte, hnewline, hreturn, if_false, hroom,
      if_true, List.nil_append, hnext, List.append_assoc]

/-- A line that fits is executed when its newline arrives. -/
theorem receive_line {line : Text} (hline : ∀ c ∈ line, c ≠ '\n' ∧ c ≠ '\r' ∧ c ≠ nul)
    (hne : line ≠ []) (hlen : line.length < maxLine) :
    receive [] (line ++ ['\n']) = ([], protocolParseLine line) := by
  have hcut : cut line = line := cut_eq_self fun h => (hline nul h).2.2 rfl
  rw [receive_append (fun c hc => ⟨(hline c hc).1, (hline c hc).2.1⟩) ['\n'] [] hlen]
  simp only [List.nil_append, receive, handleSerialByte, if_true, hne, if_false, hcut,
    List.append_nil]

/-- The command is cut off at the first separator. -/
theorem protocolParseLine_append {name : Text} (hbar : '|' ∉ name)
    (hlen : name.length ≤ 31) (args : Text) :
    protocolParseLine (name ++ '|' :: args) = [dispatch name args] := by
  rw [protocolParseLine, if_neg (by simp), Text.after?_append hbar, Text.before_append hbar,
    List.take_of_length_le hlen]

end AmigaDevbench.Daemon
