import AmigaDevbench.Host.Python

/-!
# Fields of a protocol line

`parse_message` reads the pieces of a split line by position, each with its own default, and
builds a dictionary from them. The entry parsers of the list-valued messages are here too:
each one turns a piece of a field into one record.
-/

namespace AmigaDevbench.Protocol

/-- The module's `_int`: a text that is no decimal literal counts as zero. -/
def int (s : Text) : Int :=
  match Py.int 10 s with
  | .ok n => n
  | .error _ => 0

/-- `parts[i] if len(parts) > i else default`. -/
def field (parts : List Text) (i : Nat) (default : Text) : Text := parts.getD i default

/-- `_int(parts[i]) if len(parts) > i else 0`. -/
def num (parts : List Text) (i : Nat) : Int := int (parts.getD i ['0'])

/-- `"|".join(parts[i:])`. -/
def rest (parts : List Text) (i : Nat) : Text := Text.joinBar (parts.drop i)

/-- `_int(parts[i]) != 0`, false when the field is missing. -/
def flag (parts : List Text) (i : Nat) : Bool := num parts i != 0

/-- The entries of a comma-separated field, stripped. -/
def commaEntries (s : Text) : List Text := (s.splitOn ',').map Py.strip

/-- The non-blank entries of a comma-separated field, stripped. -/
def names (s : Text) : List Val :=
  ((commaEntries s).filter (· ≠ [])).map Val.str

/-- A list of texts as a value. -/
def texts (xs : List Text) : Val := .list (xs.map Val.str)

/-- One `name(version)` entry of LIBS or DEVICES. -/
def versionEntry (entry : Text) : Option Val :=
  match Text.after? '(' entry with
  | some info => some (.dict [("name", .str (Text.before '(' entry)),
      ("version", .str (info.rstripBy (· == ')')))])
  | none => if entry = [] then none else
      some (.dict [("name", .str entry), ("version", .str [])])

/-- One `name(size,type` entry of DIR, its closing bracket already cut off. -/
def dirEntry (raw : Text) : Option Val :=
  let entry := (Py.strip raw).rstripBy (· == ')')
  match Text.after? '(' entry with
  | some info =>
    let infoParts := info.splitOn ','
    let etype := (infoParts[1]?).elim ['F'] Py.strip
    some (.dict [("name", .str (Text.before '(' entry)), ("size", .int (num infoParts 0)),
      ("type", .str (if etype = ['D'] then "dir".toList else "file".toList))])
  | none => if entry = [] then none else
      some (.dict [("name", .str entry), ("size", .int 0), ("type", .str "file".toList)])

/-- One `name(priority,state,type` entry of TASKS. -/
def taskEntry (raw : Text) : Option Val :=
  let entry := (Py.strip raw).rstripBy (· == ')')
  match Text.after? '(' entry with
  | some info =>
    let infoParts := info.splitOn ','
    some (.dict [("name", .str (Text.before '(' entry)), ("priority", .int (num infoParts 0)),
      ("state", .str ((infoParts[1]?).elim ['?'] Py.strip)),
      ("type", .str ((infoParts[2]?).elim "task".toList Py.strip))])
  | none => if entry = [] then none else
      some (.dict [("name", .str entry), ("priority", .int 0), ("state", .str ['?']),
        ("type", .str "task".toList)])

/-- One `name~handler~state~used~free` entry of VOLUMES. -/
def volumeEntry (entry : Text) : Option Val :=
  if entry = [] then none else
    let vp := entry.splitOn '~'
    some (.dict [("name", .str (field vp 0 [])), ("handler", .str (field vp 1 [])),
      ("state", .str (field vp 2 [])), ("usedKB", .int (num vp 3)), ("freeKB", .int (num vp 4))])

/-- One `name:description` entry of HOOKS. -/
def hookEntry (entry : Text) : Option Val :=
  match Text.after? ':' entry with
  | some hdesc => some (.dict [("name", .str (Text.before ':' entry)),
      ("description", .str hdesc)])
  | none => if entry = [] then none else
      some (.dict [("name", .str entry), ("description", .str [])])

/-- One `name:address:size:description` entry of MEMREGS. -/
def memregEntry (entry : Text) : Option Val :=
  let mparts := Text.splitMax ':' 3 entry
  if 3 ≤ mparts.length then
    some (.dict [("name", .str (field mparts 0 [])), ("address", .str (field mparts 1 [])),
      ("size", .int (num mparts 2)), ("description", .str (field mparts 3 []))])
  else if entry = [] then none
  else some (.dict [("name", .str entry), ("address", .str ['0']), ("size", .int 0),
    ("description", .str [])])

/-- The commas of a CINFO region list separate entries only outside brackets. `depth` is the
number of open brackets, `acc` the current entry reversed. -/
def memregNames : Int → Text → Text → List Text
  | _, [], acc => if acc = [] then [] else [Py.strip acc.reverse]
  | depth, ch :: cs, acc =>
    if ch = '(' then memregNames (depth + 1) cs (ch :: acc)
    else if ch = ')' then memregNames (depth - 1) cs (ch :: acc)
    else if ch = ',' ∧ depth = 0 then Py.strip acc.reverse :: memregNames depth cs []
    else memregNames depth cs (ch :: acc)

/-- One section of CINFO behind the counters. -/
def cinfoSection (info : Dict) (part : Text) : Dict :=
  if "vars:".toList.isPrefixOf part then info.set "vars" (.list (names (part.drop 5)))
  else if "hooks:".toList.isPrefixOf part then info.set "hooks" (.list (names (part.drop 6)))
  else if "memregs:".toList.isPrefixOf part then
    info.set "memregs" (texts ((memregNames 0 (part.drop 8) []).filter (· ≠ [])))
  else info

/-- One `type:tag:ptr:size:state` entry of RESOURCES. -/
def resourceEntry (entry : Text) : Option Val :=
  if entry = [] then none else
    let rp := Text.splitMax ':' 4 entry
    if 5 ≤ rp.length then
      some (.dict [("type", .str (field rp 0 [])), ("tag", .str (field rp 1 [])),
        ("ptr", .str (field rp 2 [])), ("size", .int (num rp 3)), ("state", .str (field rp 4 []))])
    else some (.dict [("type", .str ['?']), ("tag", .str entry), ("ptr", .str ['0']),
      ("size", .int 0), ("state", .str ['?'])])

/-- One `label:avg:min:max:count` entry of PERF. -/
def perfEntry (entry : Text) : Option Val :=
  let sp := Text.splitMax ':' 4 entry
  if entry ≠ [] ∧ 5 ≤ sp.length then
    some (.dict [("label", .str (field sp 0 [])), ("avg", .int (num sp 1)),
      ("min", .int (num sp 2)), ("max", .int (num sp 3)), ("count", .int (num sp 4))])
  else none

/-- One `name:attr:lower:upper:free:largest` field of MEMMAP. -/
def memmapEntry (entry : Text) : Option Val :=
  if entry = [] then none else
    let rp := Text.splitMax ':' 5 entry
    if 6 ≤ rp.length then
      some (.dict [("name", .str (field rp 0 [])), ("attr", .str (field rp 1 [])),
        ("lower", .str (field rp 2 [])), ("upper", .str (field rp 3 [])),
        ("free", .int (num rp 4)), ("largest", .int (num rp 5))])
    else some (.dict [("name", .str entry), ("attr", .str []), ("lower", .str ['0']),
      ("upper", .str ['0']), ("free", .int 0), ("largest", .int 0)])

/-- One `name:addr:value` field of CHIPREGS. -/
def chipregEntry (entry : Text) : Option Val :=
  let fields := Text.splitMax ':' 2 entry
  if fields.length = 3 then
    some (.dict [("name", .str (field fields 0 [])), ("addr", .str (field fields 1 [])),
      ("value", .str (field fields 2 []))])
  else none

/-- One `lvo:addr` entry of LIBFUNCS. -/
def libfuncEntry (entry : Text) : Option Val :=
  (Text.after? ':' entry).map fun addr =>
    .dict [("lvo", .int (int (Text.before ':' entry))), ("addr", .str addr)]

/-- One screen of SCREENS. -/
def screenEntry (entry : Text) : Option Val :=
  let fields := entry.splitOn ':'
  if 7 ≤ fields.length then
    some (.dict [("title", .str (field fields 0 [])), ("width", .int (num fields 1)),
      ("height", .int (num fields 2)), ("depth", .int (num fields 3)),
      ("viewModes", .str (field fields 4 [])), ("flags", .str (field fields 5 [])),
      ("addr", .str (field fields 6 []))])
  else none

/-- One window of WINDOWS. -/
def windowEntry (entry : Text) : Option Val :=
  let fields := entry.splitOn ':'
  if 8 ≤ fields.length then
    some (.dict [("title", .str (field fields 0 [])), ("left", .int (num fields 1)),
      ("top", .int (num fields 2)), ("width", .int (num fields 3)),
      ("height", .int (num fields 4)), ("flags", .str (field fields 5 [])),
      ("idcmp", .str (field fields 6 [])), ("addr", .str (field fields 7 []))])
  else none

/-- One gadget of GADGETS. -/
def gadgetEntry (entry : Text) : Option Val :=
  let fields := entry.splitOn ':'
  if 9 ≤ fields.length then
    some (.dict [("id", .int (num fields 0)), ("left", .int (num fields 1)),
      ("top", .int (num fields 2)), ("width", .int (num fields 3)),
      ("height", .int (num fields 4)), ("gadgetType", .int (num fields 5)),
      ("flags", .int (num fields 6)), ("text", .str (field fields 7 [])),
      ("addr", .str (field fields 8 []))])
  else none

/-- One pool of POOLS. -/
def poolEntry (entry : Text) : Option Val :=
  let fields := entry.splitOn ':'
  if 5 ≤ fields.length then
    some (.dict [("address", .str (field fields 0 [])), ("puddleSize", .int (num fields 1)),
      ("threshSize", .int (num fields 2)), ("allocCount", .int (num fields 3)),
      ("totalAlloc", .int (num fields 4))])
  else none

/-- One register change of CHIPLOGCHANGE. -/
def changeEntry (entry : Text) : Option Val :=
  let ch := entry.splitOn ':'
  if 3 ≤ ch.length then
    some (.dict [("reg", .str (field ch 0 [])), ("old", .str (field ch 1 [])),
      ("new", .str (field ch 2 []))])
  else none

/-- One `id:command:status` entry of PROCLIST. -/
def procEntry (entry : Text) : Option Val :=
  let pp := Text.splitMax ':' 2 entry
  if entry ≠ [] ∧ 3 ≤ pp.length then
    some (.dict [("id", .int (num pp 0)), ("command", .str (field pp 1 [])),
      ("status", .str (field pp 2 []))])
  else none

/-- One `name:path:type` entry of ASSIGNS. -/
def assignEntry (entry : Text) : Option Val :=
  if entry = [] then none else
    let ap := Text.splitMax ':' 2 entry
    if 3 ≤ ap.length then
      some (.dict [("name", .str (field ap 0 [])), ("path", .str (field ap 1 [])),
        ("assignType", .str (field ap 2 []))])
    else some (.dict [("name", .str (field ap 0 [])), ("path", .str []),
      ("assignType", .str ['?'])])

/-- One `name=value` field of REGS; a later one replaces an earlier one. -/
def regsEntry (regs : Dict) (part : Text) : Dict :=
  match Text.after? '=' (Py.strip part) with
  | some rval => regs.set (String.ofList (Text.before '=' (Py.strip part))) (.str rval)
  | none => regs

/-- One `name:value` field of CHIPLOG; what follows a second colon is ignored. -/
def chiplogEntry (regs : Dict) (part : Text) : Dict :=
  match part.splitOn ':' with
  | name :: val :: _ => regs.set (String.ofList name) (.str val)
  | _ => regs

end AmigaDevbench.Protocol
