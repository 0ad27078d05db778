import AmigaDevbench.Host.Protocol.Fields

/-!
# `parse_message`

One function for each message type, in the order of the source. Most of them build their
dictionary from fields that cannot fail; the debugger messages and the font list convert
fields with a bare `int()` and are written in `Except`. `now` is the timestamp text.
-/

namespace AmigaDevbench.Protocol

/-- What a branch of `parse_message` returns: a message, or `None` for an invalid line. -/
abbrev Parsed := Option Dict

/-- The list-valued field of a counted message, empty when the field is missing or blank. -/
def listField (parts : List Text) (i : Nat) (entries : Text → List Val) : Val :=
  .list (if field parts i [] = [] then [] else entries (field parts i []))

/-- `if len(parts) < n: return None`. -/
def require (n : Nat) (parts : List Text) (msg : Dict) : Parsed :=
  if parts.length < n then none else some msg

def parseLog (now : Text) (parts : List Text) : Parsed :=
  require 4 parts [("type", .str "LOG".toList), ("level", .str (field parts 1 [])),
    ("tick", .int (num parts 2)), ("message", .str (rest parts 3)), ("timestamp", .str now)]

def parseMem (parts : List Text) : Parsed :=
  require 4 parts [("type", .str "MEM".toList), ("address", .str (field parts 1 [])),
    ("size", .int (num parts 2)), ("hexData", .str (field parts 3 []))]

def parseVar (parts : List Text) : Parsed :=
  require 4 parts [("type", .str "VAR".toList), ("name", .str (field parts 1 [])),
    ("varType", .str (field parts 2 [])), ("value", .str (rest parts 3))]

def parseHb (now : Text) (parts : List Text) : Parsed :=
  require 4 parts [("type", .str "HB".toList), ("tick", .int (num parts 1)),
    ("freeChip", .int (num parts 2)), ("freeFast", .int (num parts 3)), ("timestamp", .str now)]

def parseCmd (parts : List Text) : Parsed :=
  require 4 parts [("type", .str "CMD".toList), ("id", .int (num parts 1)),
    ("status", .str (field parts 2 [])), ("data", .str (rest parts 3))]

def parseReady (parts : List Text) : Parsed :=
  some [("type", .str "READY".toList), ("version", .str (field parts 1 "unknown".toList))]

def parseClients (parts : List Text) : Parsed :=
  some [("type", .str "CLIENTS".toList), ("count", .int (num parts 1)),
    ("names", listField parts 2 names)]

def parseTasks (parts : List Text) : Parsed :=
  some [("type", .str "TASKS".toList), ("count", .int (num parts 1)),
    ("tasks", listField parts 2 fun _ =>
      (Text.splitStr "),".toList (rest parts 2)).filterMap taskEntry)]

def parseLibs (parts : List Text) : Parsed :=
  some [("type", .str "LIBS".toList), ("count", .int (num parts 1)),
    ("libs", listField parts 2 fun _ => (commaEntries (rest parts 2)).filterMap versionEntry)]

def parseDir (parts : List Text) : Parsed :=
  some [("type", .str "DIR".toList), ("path", .str (field parts 1 [])),
    ("count", .int (num parts 2)),
    ("entries", listField parts 3 fun _ =>
      (Text.splitStr "),".toList (rest parts 3)).filterMap dirEntry)]

def parseFile (parts : List Text) : Parsed :=
  some [("type", .str "FILE".toList), ("path", .str (field parts 1 [])),
    ("size", .int (num parts 2)), ("offset", .int (num parts 3)),
    ("hexData", .str (field parts 4 []))]

def parseFileinfo (parts : List Text) : Parsed :=
  some [("type", .str "FILEINFO".toList), ("path", .str (field parts 1 [])),
    ("size", .int (num parts 2)), ("fileType", .str (field parts 3 [])),
    ("protection", .str (field parts 4 [])), ("comment", .str (field parts 5 []))]

def parseProc (parts : List Text) : Parsed :=
  some [("type", .str "PROC".toList), ("id", .int (num parts 1)),
    ("status", .str (field parts 2 [])), ("output", .str (rest parts 3))]

def parseClog (now : Text) (parts : List Text) : Parsed :=
  require 5 parts [("type", .str "CLOG".toList), ("client", .str (field parts 1 [])),
    ("level", .str (field parts 2 [])), ("tick", .int (num parts 3)),
    ("message", .str (rest parts 4)), ("timestamp", .str now)]

def parseCvar (parts : List Text) : Parsed :=
  require 5 parts [("type", .str "CVAR".toList), ("client", .str (field parts 1 [])),
    ("name", .str (field parts 2 [])), ("varType", .str (field parts 3 [])),
    ("value", .str (rest parts 4))]

def parseVolumes (parts : List Text) : Parsed :=
  some [("type", .str "VOLUMES".toList), ("count", .int (num parts 1)),
    ("volumes", listField parts 2 fun _ => (commaEntries (rest parts 2)).filterMap volumeEntry)]

def parsePong (now : Text) (parts : List Text) : Parsed :=
  some [("type", .str "PONG".toList), ("clientCount", .int (num parts 1)),
    ("freeChip", .int (num parts 2)), ("freeFast", .int (num parts 3)), ("timestamp", .str now)]

/-- OK and ERR have the same shape. -/
def parseOutcome (type : String) (parts : List Text) : Parsed :=
  some [("type", .str type.toList), ("context", .str (field parts 1 [])),
    ("message", .str (rest parts 2))]

def parseHooks (parts : List Text) : Parsed :=
  some [("type", .str "HOOKS".toList), ("client", .str (field parts 1 [])),
    ("count", .int (num parts 2)),
    ("hooks", listField parts 3 fun s => (commaEntries s).filterMap hookEntry)]

def parseMemregs (parts : List Text) : Parsed :=
  some [("type", .str "MEMREGS".toList), ("client", .str (field parts 1 [])),
    ("count", .int (num parts 2)),
    ("memregs", listField parts 3 fun s => (commaEntries s).filterMap memregEntry)]

def parseCinfo (parts : List Text) : Parsed :=
  some ((parts.drop 4).foldl cinfoSection
    [("type", .str "CINFO".toList), ("client", .str (field parts 1 [])),
      ("id", .int (num parts 2)), ("msgCount", .int (num parts 3))])

def parseDevices (parts : List Text) : Parsed :=
  some [("type", .str "DEVICES".toList), ("count", .int (num parts 1)),
    ("devices", listField parts 2 fun _ =>
      (commaEntries (rest parts 2)).filterMap versionEntry)]

def parseScrinfo (parts : List Text) : Parsed :=
  require 5 parts [("type", .str "SCRINFO".toList), ("width", .int (num parts 1)),
    ("height", .int (num parts 2)), ("depth", .int (num parts 3)),
    ("palette", .str (field parts 4 []))]

def parseScrdata (parts : List Text) : Parsed :=
  require 4 parts [("type", .str "SCRDATA".toList), ("row", .int (num parts 1)),
    ("plane", .int (num parts 2)), ("hexData", .str (field parts 3 []))]

/-- SCRRGB and SCRRLE have the same shape. -/
def parseRow (type : String) (parts : List Text) : Parsed :=
  require 3 parts [("type", .str type.toList), ("row", .int (num parts 1)),
    ("hexData", .str (field parts 2 []))]

def parsePalette (parts : List Text) : Parsed :=
  require 3 parts [("type", .str "PALETTE".toList), ("depth", .int (num parts 1)),
    ("palette", .str (field parts 2 []))]

def parseCopper (parts : List Text) : Parsed :=
  require 4 parts [("type", .str "COPPER".toList), ("address", .str (field parts 1 [])),
    ("count", .int (num parts 2)), ("hexData", .str (field parts 3 []))]

def parseSprite (parts : List Text) : Parsed :=
  require 7 parts [("type", .str "SPRITE".toList), ("id", .int (num parts 1)),
    ("vstart", .int (num parts 2)), ("vstop", .int (num parts 3)), ("hstart", .int (num parts 4)),
    ("attached", .bool (flag parts 5)), ("hexData", .str (field parts 6 []))]

/-- A bare `int(parts[i], 16)`, zero when the field is missing. -/
def hex (parts : List Text) (i : Nat) : Except PyError Int :=
  match parts[i]? with
  | some s => Py.int 16 s
  | none => .ok 0

/-- `[int(x, 16) for x in parts[i].split(":")]`, empty when the field is missing. -/
def hexList (parts : List Text) (i : Nat) : Except PyError (List Int) :=
  match parts[i]? with
  | some s => (s.splitOn ':').mapM (Py.int 16)
  | none => .ok []

/-- A list of numbers as a value. -/
def ints (xs : List Int) : Val := .list (xs.map Val.int)

/-- The prefix of the warnings that may follow the registers of a DBGSTOP. -/
def isWarning (p : Text) : Bool := "WARN:".toList.isPrefixOf p

/-- The address registers of a DBGSTOP; a warning may stand in their place. -/
def stopAddrRegs (parts : List Text) : Except PyError (List Int) :=
  if isWarning (field parts 5 []) then .ok [] else hexList parts 5

def parseDbgstop (now : Text) (parts : List Text) : Except PyError Parsed := do
  let warnings := (parts.drop 5).filter isWarning
  let pc ← hex parts 2
  let sr ← hex parts 3
  let dataRegs ← hexList parts 4
  let addrRegs ← stopAddrRegs parts
  return some [("type", .str "DBGSTOP".toList), ("reason", .str (field parts 1 "unknown".toList)),
    ("pc", .int pc), ("sr", .int sr), ("dataRegs", ints dataRegs), ("addrRegs", ints addrRegs),
    ("warnings", texts (warnings.map (·.drop 5))), ("timestamp", .str now)]

/-- DBGRUNNING and DBGDETACHED carry no fields. -/
def parseBare (type : String) (now : Text) : Parsed :=
  some [("type", .str type.toList), ("timestamp", .str now)]

def parseBpinfo (parts : List Text) : Except PyError Parsed := do
  let address ← hex parts 2
  let original ← hex parts 4
  return some [("type", .str "BPINFO".toList), ("id", .int (num parts 1)),
    ("address", .int address), ("enabled", .bool (flag parts 3)), ("originalWord", .int original)]

/-- One `id:addr:enabled:orig` entry of BPLIST; a shorter entry is left out. -/
def bpEntry (entry : Text) : Except PyError (Option Val) :=
  let fields := entry.splitOn ':'
  if fields.length < 4 then .ok none
  else do
    let address ← Py.int 16 (field fields 1 [])
    let original ← Py.int 16 (field fields 3 [])
    return some (.dict [("id", .int (num fields 0)), ("address", .int address),
      ("enabled", .bool (flag fields 2)), ("originalWord", .int original)])

/-- The entries of a BPLIST. -/
def bpEntries (parts : List Text) : Except PyError (List (Option Val)) :=
  if field parts 2 [] = [] then .ok [] else ((field parts 2 []).splitOn ',').mapM bpEntry

def parseBplist (parts : List Text) : Except PyError Parsed := do
  let bps ← bpEntries parts
  return some [("type", .str "BPLIST".toList), ("count", .int (num parts 1)),
    ("breakpoints", .list (bps.filterMap id))]

def parseDbgregs (parts : List Text) : Except PyError Parsed := do
  let dataRegs ← hexList parts 1
  let addrRegs ← hexList parts 2
  let pc ← hex parts 3
  let sr ← hex parts 4
  return some [("type", .str "DBGREGS".toList), ("dataRegs", ints dataRegs),
    ("addrRegs", ints addrRegs), ("pc", .int pc), ("sr", .int sr)]

/-- One frame of DBGBT; here the conversion is guarded and a bad frame is left out. -/
def frameEntry (part : Text) : Option Val :=
  match Py.int 16 part with
  | .ok pc => some (.dict [("pc", .int pc)])
  | .error _ => none

def parseDbgbt (parts : List Text) : Parsed :=
  let depth := num parts 1
  some [("type", .str "DBGBT".toList), ("depth", .int depth),
    ("frames", .list (((parts.take (depth + 2).toNat).drop 2).filterMap frameEntry))]

/-- The last convertible `BASE:` field of a DBGSTATE. -/
def codeBase (parts : List Text) : Int :=
  (parts.drop 5).foldl (fun base p =>
    if "BASE:".toList.isPrefixOf p then
      match Py.int 16 (p.drop 5) with
      | .ok n => n
      | .error _ => base
    else base) 0

def parseDbgstate (parts : List Text) : Except PyError Parsed := do
  let pc ← hex parts 4
  return some [("type", .str "DBGSTATE".toList), ("attached", .bool (flag parts 1)),
    ("stopped", .bool (flag parts 2)), ("targetName", .str (field parts 3 [])), ("pc", .int pc),
    ("bpCount", .int (num parts 5)), ("codeBase", .int (codeBase parts))]

/-- A colon-separated field as a list of texts, empty when the field is missing. -/
def colonTexts (parts : List Text) (i : Nat) : Val :=
  texts ((parts[i]?).elim [] (·.splitOn ':'))

def parseCrash (now : Text) (parts : List Text) : Parsed :=
  some [("type", .str "CRASH".toList), ("alertNum", .str (field parts 1 "00000000".toList)),
    ("alertName", .str (field parts 2 "Unknown".toList)), ("dataRegs", colonTexts parts 3),
    ("addrRegs", colonTexts parts 4), ("sp", .str (field parts 5 "00000000".toList)),
    ("stackHex", .str (field parts 6 [])), ("timestamp", .str now)]

/-- The client data of RESOURCES is looked for behind a bar inside a field that was split at
bars, so the entry list is always empty. -/
def parseResources (parts : List Text) : Parsed :=
  let resParts := Text.splitMax '|' 1 (field parts 2 [])
  some [("type", .str "RESOURCES".toList), ("client", .str (field parts 1 [])),
    ("count", .int (num resParts 0)),
    ("resources", listField resParts 1 fun s => (commaEntries s).filterMap resourceEntry)]

def parsePerf (parts : List Text) : Parsed :=
  let perfParts := (field parts 2 []).splitOn '|'
  some [("type", .str "PERF".toList), ("client", .str (field parts 1 [])),
    ("frameAvg", .int (num perfParts 0)), ("frameMin", .int (num perfParts 1)),
    ("frameMax", .int (num perfParts 2)), ("frameCount", .int (num perfParts 3)),
    ("sections", listField perfParts 4 fun s => (commaEntries s).filterMap perfEntry)]

def parseWinlist (parts : List Text) : Parsed :=
  some [("type", .str "WINLIST".toList), ("windows", texts (parts.drop 1))]

/-- A debug dump is passed through as a log line. -/
def parseCdbg (now line : Text) : Parsed :=
  some [("type", .str "LOG".toList), ("level", .str ['D']), ("tick", .int 0),
    ("message", .str line), ("timestamp", .str now)]

def parseMemmap (parts : List Text) : Parsed :=
  some [("type", .str "MEMMAP".toList), ("count", .int (num parts 1)),
    ("regions", .list (((parts.drop 2).map Py.strip).filterMap memmapEntry))]

def parseStackinfo (parts : List Text) : Parsed :=
  require 8 parts [("type", .str "STACKINFO".toList), ("task", .str (field parts 1 [])),
    ("spLower", .str (field parts 2 [])), ("spUpper", .str (field parts 3 [])),
    ("spReg", .str (field parts 4 [])), ("size", .int (num parts 5)), ("used", .int (num parts 6)),
    ("free", .int (num parts 7))]

def parseChipregs (parts : List Text) : Parsed :=
  some [("type", .str "CHIPREGS".toList), ("count", .int (num parts 1)),
    ("registers", .list (((parts.drop 2).map Py.strip).filterMap chipregEntry))]

def parseRegs (parts : List Text) : Parsed :=
  some [("type", .str "REGS".toList), ("registers", .dict ((parts.drop 1).foldl regsEntry []))]

def parseSearch (parts : List Text) : Parsed :=
  some [("type", .str "SEARCH".toList), ("count", .int (num parts 1)),
    ("addresses", listField parts 2 names)]

/-- LIBINFO and DEVINFO have the same shape; the identification may contain bars. -/
def parseNodeinfo (type : String) (parts : List Text) : Parsed :=
  require 10 parts [("type", .str type.toList), ("name", .str (field parts 1 [])),
    ("version", .int (num parts 2)), ("revision", .int (num parts 3)),
    ("openCnt", .int (num parts 4)), ("flags", .int (num parts 5)), ("negSize", .int (num parts 6)),
    ("posSize", .int (num parts 7)), ("baseAddr", .str (field parts 8 [])),
    ("idString", .str (rest parts 9))]

def parseSnoop (now : Text) (parts : List Text) : Parsed :=
  some [("type", .str "SNOOP".toList), ("func", .str (field parts 1 [])),
    ("caller", .str (field parts 2 [])), ("arg1", .str (field parts 3 [])),
    ("arg2", .str (field parts 4 [])), ("result", .str (field parts 5 [])),
    ("tick", .int (num parts 6)), ("timestamp", .str now)]

def parseSnoopstate (parts : List Text) : Parsed :=
  some [("type", .str "SNOOPSTATE".toList), ("active", .bool (field parts 1 [] = "ON".toList)),
    ("eventCount", .int (num parts 2)), ("dropCount", .int (num parts 3)),
    ("buffered", .int (num parts 4))]

def parseLibfuncs (parts : List Text) : Parsed :=
  some [("type", .str "LIBFUNCS".toList), ("name", .str (field parts 1 [])),
    ("totalFuncs", .int (num parts 2)), ("startIdx", .int (num parts 3)),
    ("count", .int (num parts 4)),
    ("funcs", listField parts 5 fun s => (commaEntries s).filterMap libfuncEntry)]

def parseAudiochannels (parts : List Text) : Parsed :=
  some [("type", .str "AUDIOCHANNELS".toList), ("dmaEnabled", .str (field parts 1 ['0'])),
    ("intReq", .str (field parts 2 ['0'])), ("intEna", .str (field parts 3 ['0']))]

def parseAudiosample (parts : List Text) : Parsed :=
  some [("type", .str "AUDIOSAMPLE".toList), ("address", .str (field parts 1 ['0'])),
    ("size", .int (num parts 2)), ("hexData", .str (field parts 3 []))]

def parseScreens (parts : List Text) : Parsed :=
  some [("type", .str "SCREENS".toList), ("count", .int (num parts 1)),
    ("screens", listField parts 2 fun s => (s.splitOn ',').filterMap screenEntry)]

def parseWindows (parts : List Text) : Parsed :=
  some [("type", .str "WINDOWS".toList), ("screenAddr", .str (field parts 1 ['0'])),
    ("count", .int (num parts 2)),
    ("windows", listField parts 3 fun s => (s.splitOn ',').filterMap windowEntry)]

def parseGadgets (parts : List Text) : Parsed :=
  some [("type", .str "GADGETS".toList), ("windowAddr", .str (field parts 1 ['0'])),
    ("count", .int (num parts 2)),
    ("gadgets", listField parts 3 fun s => (s.splitOn ',').filterMap gadgetEntry)]

def parseTestBegin (parts : List Text) : Parsed :=
  some [("type", .str "TEST_BEGIN".toList), ("suite", .str (field parts 1 "unknown".toList))]

/-- TEST_PASS and TEST_FAIL have the same shape. -/
def parseTestCase (type : String) (parts : List Text) : Parsed :=
  some [("type", .str type.toList), ("testName", .str (field parts 1 ['?'])),
    ("file", .str (field parts 2 ['?'])), ("line", .int (num parts 3))]

def parseTestEnd (parts : List Text) : Parsed :=
  some [("type", .str "TEST_END".toList), ("suite", .str (field parts 1 "unknown".toList)),
    ("passed", .int (num parts 2)), ("failed", .int (num parts 3)), ("total", .int (num parts 4))]

/-- One font of FONTS. A size is converted when `isdigit` accepts it, which is a weaker test
than the conversion. -/
def fontEntry (entry : Text) : Except PyError Val :=
  match Text.after? ':' entry with
  | some sizesStr => do
    let sizes ← ((sizesStr.splitOn ',').filter Py.isdigit).mapM (Py.int 10)
    return .dict [("name", .str (Text.before ':' entry)), ("sizes", ints sizes)]
  | none => .ok (.dict [("name", .str entry), ("sizes", .list [])])

def parseFonts (parts : List Text) : Except PyError Parsed := do
  let fonts ← (parts.drop 2).mapM fontEntry
  return some [("type", .str "FONTS".toList), ("count", .int (num parts 1)),
    ("fonts", .list fonts)]

def parseFontinfo (parts : List Text) : Parsed :=
  some [("type", .str "FONTINFO".toList), ("name", .str (field parts 1 [])),
    ("size", .int (num parts 2)), ("ysize", .int (num parts 3)), ("xsize", .int (num parts 4)),
    ("style", .int (num parts 5)), ("flags", .int (num parts 6)), ("baseline", .int (num parts 7))]

def parseChiplog (parts : List Text) : Parsed :=
  some [("type", .str "CHIPLOG".toList),
    ("registers", .dict ((parts.drop 1).foldl chiplogEntry []))]

def parseChiplogchange (parts : List Text) : Parsed :=
  some [("type", .str "CHIPLOGCHANGE".toList), ("tick", .int (num parts 1)),
    ("changes", .list ((parts.drop 2).filterMap changeEntry))]

def parsePools (parts : List Text) : Parsed :=
  some [("type", .str "POOLS".toList), ("count", .int (num parts 1)),
    ("pools", .list ((parts.drop 2).filterMap poolEntry))]

/-- AREXXPORTS and PORTS have the same shape. -/
def parsePorts (type : String) (parts : List Text) : Parsed :=
  some [("type", .str type.toList), ("count", .int (num parts 1)),
    ("ports", listField parts 2 names)]

def parseArexxresult (parts : List Text) : Parsed :=
  some [("type", .str "AREXXRESULT".toList), ("rc", .int ((parts[1]?).elim (-1) int)),
    ("result", .str (rest parts 2))]

def parseClipboard (parts : List Text) : Parsed :=
  some [("type", .str "CLIPBOARD".toList), ("length", .int (num parts 1)),
    ("text", .str (field parts 2 []))]

def parseCapabilities (parts : List Text) : Parsed :=
  let nonBlank (s : Text) : Val := texts ((s.splitOn ',').filter (· ≠ []))
  let msg : Dict := [("type", .str "CAPABILITIES".toList), ("version", .str (field parts 1 [])),
    ("protocolLevel", .int (num parts 2)), ("maxLine", .int (num parts 3)),
    ("commands", texts ((parts[4]?).elim [] (·.splitOn ',')))]
  if 7 < parts.length then
    some (msg ++ [("platform", .str (field parts 5 [])), ("features", nonBlank (field parts 6 [])),
      ("profiles", nonBlank (field parts 7 []))])
  else if 2 ≤ num parts 2 then some (msg ++ [("malformed", .bool true)])
  else some msg

def parseProclist (parts : List Text) : Parsed :=
  some [("type", .str "PROCLIST".toList), ("count", .int (num parts 1)),
    ("processes", listField parts 2 fun s => (commaEntries s).filterMap procEntry)]

def parseProcstat (parts : List Text) : Parsed :=
  some [("type", .str "PROCSTAT".toList), ("id", .int (num parts 1)),
    ("command", .str (field parts 2 [])), ("status", .str (field parts 3 []))]

def parseTaildata (parts : List Text) : Parsed :=
  some [("type", .str "TAILDATA".toList), ("path", .str (field parts 1 [])),
    ("data", .str (field parts 2 []))]

def parseChecksum (parts : List Text) : Parsed :=
  some [("type", .str "CHECKSUM".toList), ("path", .str (field parts 1 [])),
    ("crc32", .str (field parts 2 "00000000".toList)), ("size", .int (num parts 3))]

def parseAssigns (parts : List Text) : Parsed :=
  some [("type", .str "ASSIGNS".toList), ("count", .int (num parts 1)),
    ("assigns", listField parts 2 fun s => (commaEntries s).filterMap assignEntry)]

def parseProtect (parts : List Text) : Parsed :=
  some [("type", .str "PROTECT".toList), ("path", .str (field parts 1 [])),
    ("bits", .str (field parts 2 "00000000".toList))]

def parseVersion (parts : List Text) : Parsed :=
  some [("type", .str "VERSION".toList), ("name", .str (field parts 1 [])),
    ("major", .int (num parts 2)), ("minor", .int (num parts 3)), ("date", .str (field parts 4 []))]

def parseEnv (parts : List Text) : Parsed :=
  some [("type", .str "ENV".toList), ("name", .str (field parts 1 [])),
    ("value", .str (rest parts 2))]

def parseSysinfo (parts : List Text) : Parsed :=
  let msg : Dict := [("type", .str "SYSINFO".toList), ("chipFree", .int (num parts 1)),
    ("fastFree", .int (num parts 2)), ("chipTotal", .int (num parts 3)),
    ("fastTotal", .int (num parts 4)), ("execVer", .int (num parts 5)),
    ("execRev", .int (num parts 6)), ("cpuType", .str (field parts 7 [])),
    ("vblankHz", .int (num parts 8))]
  if 9 < parts.length then some (msg ++ [("transport", .str (field parts 9 []))]) else some msg

def parseUptime (parts : List Text) : Parsed :=
  some [("type", .str "UPTIME".toList), ("seconds", .int (num parts 1))]

/-- A branch of `parse_message`: either it cannot fail, or it converts fields with a bare
`int()`. Both see the timestamp, the line and its parts. -/
inductive Branch where
  | guarded (f : Text → Text → List Text → Parsed)
  | converting (f : Text → Text → List Text → Except PyError Parsed)

/-- Run a branch. -/
def Branch.run (b : Branch) (now line : Text) (parts : List Text) : Except PyError Parsed :=
  match b with
  | .guarded f => .ok (f now line parts)
  | .converting f => f now line parts

/-- The message types in the order of the source, each with its branch. -/
def branches : List (String × Branch) :=
  [("LOG", .guarded fun now _ p => parseLog now p),
   ("MEM", .guarded fun _ _ p => parseMem p),
   ("VAR", .guarded fun _ _ p => parseVar p),
   ("HB", .guarded fun now _ p => parseHb now p),
   ("CMD", .guarded fun _ _ p => parseCmd p),
   ("READY", .guarded fun _ _ p => parseReady p),
   ("CLIENTS", .guarded fun _ _ p => parseClients p),
   ("TASKS", .guarded fun _ _ p => parseTasks p),
   ("LIBS", .guarded fun _ _ p => parseLibs p),
   ("DIR", .guarded fun _ _ p => parseDir p),
   ("FILE", .guarded fun _ _ p => parseFile p),
   ("FILEINFO", .guarded fun _ _ p => parseFileinfo p),
   ("PROC", .guarded fun _ _ p => parseProc p),
   ("CLOG", .guarded fun now _ p => parseClog now p),
   ("CVAR", .guarded fun _ _ p => parseCvar p),
   ("VOLUMES", .guarded fun _ _ p => parseVolumes p),
   ("PONG", .guarded fun now _ p => parsePong now p),
   ("OK", .guarded fun _ _ p => parseOutcome "OK" p),
   ("ERR", .guarded fun _ _ p => parseOutcome "ERR" p),
   ("HOOKS", .guarded fun _ _ p => parseHooks p),
   ("MEMREGS", .guarded fun _ _ p => parseMemregs p),
   ("CINFO", .guarded fun _ _ p => parseCinfo p),
   ("DEVICES", .guarded fun _ _ p => parseDevices p),
   ("SCRINFO", .guarded fun _ _ p => parseScrinfo p),
   ("SCRDATA", .guarded fun _ _ p => parseScrdata p),
   ("SCRRGB", .guarded fun _ _ p => parseRow "SCRRGB" p),
   ("SCRRLE", .guarded fun _ _ p => parseRow "SCRRLE" p),
   ("PALETTE", .guarded fun _ _ p => parsePalette p),
   ("COPPER", .guarded fun _ _ p => parseCopper p),
   ("SPRITE", .guarded fun _ _ p => parseSprite p),
   ("DBGSTOP", .converting fun now _ p => parseDbgstop now p),
   ("DBGRUNNING", .guarded fun now _ _ => parseBare "DBGRUNNING" now),
   ("DBGDETACHED", .guarded fun now _ _ => parseBare "DBGDETACHED" now),
   ("BPINFO", .converting fun _ _ p => parseBpinfo p),
   ("BPLIST", .converting fun _ _ p => parseBplist p),
   ("DBGREGS", .converting fun _ _ p => parseDbgregs p),
   ("DBGBT", .guarded fun _ _ p => parseDbgbt p),
   ("DBGSTATE", .converting fun _ _ p => parseDbgstate p),
   ("CRASH", .guarded fun now _ p => parseCrash now p),
   ("RESOURCES", .guarded fun _ _ p => parseResources p),
   ("PERF", .guarded fun _ _ p => parsePerf p),
   ("WINLIST", .guarded fun _ _ p => parseWinlist p),
   ("CDBG", .guarded fun now line _ => parseCdbg now line),
   ("MEMMAP", .guarded fun _ _ p => parseMemmap p),
   ("STACKINFO", .guarded fun _ _ p => parseStackinfo p),
   ("CHIPREGS", .guarded fun _ _ p => parseChipregs p),
   ("REGS", .guarded fun _ _ p => parseRegs p),
   ("SEARCH", .guarded fun _ _ p => parseSearch p),
   ("LIBINFO", .guarded fun _ _ p => parseNodeinfo "LIBINFO" p),
   ("DEVINFO", .guarded fun _ _ p => parseNodeinfo "DEVINFO" p),
   ("SNOOP", .guarded fun now _ p => parseSnoop now p),
   ("SNOOPSTATE", .guarded fun _ _ p => parseSnoopstate p),
   ("LIBFUNCS", .guarded fun _ _ p => parseLibfuncs p),
   ("AUDIOCHANNELS", .guarded fun _ _ p => parseAudiochannels p),
   ("AUDIOSAMPLE", .guarded fun _ _ p => parseAudiosample p),
   ("SCREENS", .guarded fun _ _ p => parseScreens p),
   ("WINDOWS", .guarded fun _ _ p => parseWindows p),
   ("GADGETS", .guarded fun _ _ p => parseGadgets p),
   ("TEST_BEGIN", .guarded fun _ _ p => parseTestBegin p),
   ("TEST_PASS", .guarded fun _ _ p => parseTestCase "TEST_PASS" p),
   ("TEST_FAIL", .guarded fun _ _ p => parseTestCase "TEST_FAIL" p),
   ("TEST_END", .guarded fun _ _ p => parseTestEnd p),
   ("FONTS", .converting fun _ _ p => parseFonts p),
   ("FONTINFO", .guarded fun _ _ p => parseFontinfo p),
   ("CHIPLOG", .guarded fun _ _ p => parseChiplog p),
   ("CHIPLOGCHANGE", .guarded fun _ _ p => parseChiplogchange p),
   ("POOLS", .guarded fun _ _ p => parsePools p),
   ("AREXXPORTS", .guarded fun _ _ p => parsePorts "AREXXPORTS" p),
   ("AREXXRESULT", .guarded fun _ _ p => parseArexxresult p),
   ("CLIPBOARD", .guarded fun _ _ p => parseClipboard p),
   ("CAPABILITIES", .guarded fun _ _ p => parseCapabilities p),
   ("PROCLIST", .guarded fun _ _ p => parseProclist p),
   ("PROCSTAT", .guarded fun _ _ p => parseProcstat p),
   ("TAILDATA", .guarded fun _ _ p => parseTaildata p),
   ("CHECKSUM", .guarded fun _ _ p => parseChecksum p),
   ("ASSIGNS", .guarded fun _ _ p => parseAssigns p),
   ("PROTECT", .guarded fun _ _ p => parseProtect p),
   ("VERSION", .guarded fun _ _ p => parseVersion p),
   ("ENV", .guarded fun _ _ p => parseEnv p),
   ("PORTS", .guarded fun _ _ p => parsePorts "PORTS" p),
   ("SYSINFO", .guarded fun _ _ p => parseSysinfo p),
   ("UPTIME", .guarded fun _ _ p => parseUptime p)]

/-- The branch that the type field of a line selects. -/
def branchOf (type : Text) : Option Branch :=
  (branches.find? (·.1.toList = type)).map (·.2)

/-- `parse_message`. A line of unknown type gives `None`. -/
def parseMessage (now line : Text) : Except PyError Parsed :=
  let parts := line.splitOn '|'
  match branchOf (parts.headD []) with
  | some b => b.run now line parts
  | none => .ok none

/-- Either the type field names a branch of the table, and the parser runs it, or it names
none, and the line is invalid. -/
theorem parseMessage_cases (now line : Text) :
    (∃ b ∈ branches, b.1.toList = (line.splitOn '|').headD [] ∧
      parseMessage now line = b.2.run now line (line.splitOn '|')) ∨
    (∀ b ∈ branches, b.1.toList ≠ (line.splitOn '|').headD []) ∧
      parseMessage now line = .ok none := by
  unfold parseMessage branchOf
  cases hb : branches.find? (·.1.toList = (line.splitOn '|').headD []) with
  | some b =>
    have hname : b.1.toList = (line.splitOn '|').headD [] := by simpa using List.find?_some hb
    exact Or.inl ⟨b, List.mem_of_find?_eq_some hb, hname, by simp only [hb, Option.map_some]⟩
  | none =>
    refine Or.inr ⟨?_, by simp only [hb, Option.map_none]⟩
    simpa only [List.find?_eq_none, decide_eq_true_eq] using hb

end AmigaDevbench.Protocol
