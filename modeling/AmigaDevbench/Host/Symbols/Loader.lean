import Mathlib.Data.List.Infix
import AmigaDevbench.Core.Raises
import AmigaDevbench.Host.Symbols.Table

/-!
# Loading symbols

The two parsers that fill a symbol table, line by line: that of `nm`, and that of `objdump --stabs`.
Each ends by sorting what the searches need. The second converts numbers of any length, so it may
raise in the middle; the table stays as it is then, with the index of the outputs before.
-/

namespace AmigaDevbench

namespace Symbols

open Scan Keyed Raises

section Texts

variable (u : Unicode)

/-- `s.splitlines()`, with the line so far and whether the last character was a carriage return. -/
def splitlinesFrom (line : Text) (cr : Bool) : Text → List Text
  | [] => if line = [] then [] else [line]
  | c :: s =>
    if cr ∧ c = '\n' then splitlinesFrom line false s
    else if u.isLineBreak c then line :: splitlinesFrom [] (c = '\r') s
    else splitlinesFrom (line ++ [c]) false s

def splitlines (s : Text) : List Text := splitlinesFrom u [] false s

/-- `s.strip()` -/
def strip (s : Text) : Text := s.stripBy u.isSpace

/-- `s.split()` -/
def words (s : Text) : List Text := (s.splitOnP u.isSpace).filter (· ≠ [])

/-- The loops that join a line that ends with a backslash with the next one. -/
def joinFrom (line : Text) : List Text → List Text
  | [] => [line]
  | next :: rest =>
    if line.getLast? = some '\\' then joinFrom (line.dropLast ++ strip u next) rest
    else line :: joinFrom (strip u next) rest

def joinLines : List Text → List Text
  | [] => []
  | line :: rest => joinFrom u (strip u line) rest

/-- The groups of a match of the tabular format that are read. -/
structure Stab where
  type : Text
  desc : Text
  value : Text
  string : Text

/-- A match of `(\d+)\s+([\w]+)\s+(\d+)\s+(\d+)\s+([0-9a-fA-F]+)\s+(\d+)\s*(.*)`. -/
def matchLine (s : Text) : Option Stab := do
  let (_, s) ← run u.isDigit s
  let (_, s) ← run u.isSpace s
  let (type, s) ← run u.isWord s
  let (_, s) ← run u.isSpace s
  let (_, s) ← run u.isDigit s
  let (_, s) ← run u.isSpace s
  let (desc, s) ← run u.isDigit s
  let (_, s) ← run u.isSpace s
  let (value, s) ← run (Py.isDigitOf 16) s
  let (_, s) ← run u.isSpace s
  let (_, s) ← run u.isDigit s
  return ⟨type, desc, value, (s.dropWhile u.isSpace).takeWhile (· != '\n')⟩

/-- The number in `[Tt](?:\(([^)]+)\)|(\d+))` behind the first colon. -/
def matchTypeNumber (string : Text) : Option Text := do
  let s ← tagChar ((string.after? ':').getD [])
  match char '(' s with
  | some s => do
    let (number, s) ← run (· != ')') s
    let _ ← char ')' s
    return number
  | none => do
    let (number, _) ← run u.isDigit s
    return number

/-- `re.search(r'=s\d+', string)` -/
def hasStruct (string : Text) : Bool :=
  string.tails.any fun s => (do run u.isDigit (← char 's' (← char '=' s)) : Option _).isSome

end Texts

namespace SymbolTable

/-- A symbol is put into the list and both dictionaries. -/
def add (t : SymbolTable) (sym : Symbol) : SymbolTable :=
  { t with
    symbols := t.symbols ++ [sym]
    byAddress := assign t.byAddress sym.address t.symbols.length
    byName := assign t.byName sym.name t.symbols.length }

/-- `_sorted_addrs` is built from the dictionary. -/
def sortAddrs (t : SymbolTable) : SymbolTable :=
  { t with sortedAddrs := (keys t.byAddress).mergeSort fun a b => a ≤ b }

/-- The source of a function is noted in its symbol. -/
def annotate (funcSource : List (Text × Text × Nat)) (sym : Symbol) : Symbol :=
  match lookup funcSource sym.name with
  | some (file, line) => { sym with file := file, line := line }
  | none => sym

/-- The end of `_parse_stabs_output`. -/
def sortLines (t : SymbolTable) : SymbolTable :=
  let sourceLines := t.sourceLines.mergeSort fun sl sl' => sl.address ≤ sl'.address
  { t with
    sourceLines := sourceLines
    lineAddrs := sourceLines.map (·.address)
    symbols := t.symbols.map (annotate t.funcSource) }

end SymbolTable

/-! ### The output of `nm` -/

section Nm

variable (u : Unicode)

/-- A line with an address, a type and a name. -/
def nmLine (t : SymbolTable) (line : Text) : SymbolTable :=
  match words u (strip u line) with
  | addr :: symType :: name :: _ =>
    match u.int16 addr with
    | some addr => t.add ⟨dropUnderscore name, addr, symType, 0, [], 0⟩
    | none => t
  | _ => t

/-- `_parse_nm_output`. -/
def parseNmOutput (output : Text) (t : SymbolTable) : SymbolTable :=
  ((splitlines u output).foldl (nmLine u) t).sortAddrs

end Nm

/-! ### The output of `objdump` -/

/-- The table and the variables of the loop over the lines. -/
structure Scope where
  table : SymbolTable
  currentFile : Text
  typeDefs : List (Text × Text)
  currentFunc : Text

namespace Scope

variable (s : Scope) (string : Text) (desc value : Nat)

/-- `SO` -/
def unit : Scope :=
  if string ≠ [] ∧ string.getLast? ≠ some '/' then { s with currentFile := string } else s

/-- `SOL` -/
def includeFile : Scope := if string ≠ [] then { s with currentFile := string } else s

/-- `SLINE` -/
def sourceLine : Scope :=
  if s.currentFile ≠ [] ∧ 0 < value then
    { s with table.sourceLines := s.table.sourceLines ++ [⟨value, s.currentFile, desc⟩] }
  else s

/-- The source of a function that is defined in a file. -/
def noteSource (name : Text) : Scope :=
  if s.currentFile ≠ [] then
    { s with table.funcSource := assign s.table.funcSource name (s.currentFile, desc) }
  else s

/-- A function that has no symbol yet gets one. -/
def addFunction (name : Text) : Scope :=
  if name ∉ keys s.table.byName ∧ 0 < value then
    let symType := if [':', 'f'] <:+: string then ['t'] else ['T']
    { s with table := s.table.add ⟨name, value, symType, 0, s.currentFile, desc⟩ }
  else s

/-- `FUN` -/
def function : Scope :=
  if ':' ∈ string then
    let name := dropUnderscore (string.before ':')
    ({ s with currentFunc := name }.noteSource desc name).addFunction string desc value name
  else s

/-- A variable is added to those of the current function. -/
def addLocal (v : LocalVar) : Scope :=
  { s with
    table.funcLocals := assign s.table.funcLocals s.currentFunc
      ((lookup s.table.funcLocals s.currentFunc).getD [] ++ [v]) }

/-- The value as a signed number of 32 bits. -/
def frameOffset : Int := if value < 0x80000000 then value else value - 0x100000000

/-- The name of the type in a description. -/
def typeName (type : Text) : Text :=
  if type = [] then ['?'] else simplifyType s.typeDefs (type.before '=')

/-- `PSYM` -/
def param : Scope :=
  if s.currentFunc ≠ [] ∧ [':', 'p'] <:+: string then
    let type := string.drop (((Text.beforeStr? [':', 'p'] string).getD []).length + 2)
    s.addLocal ⟨dropUnderscore (string.before ':'), s.typeName type, frameOffset value, .param, 4⟩
  else s

/-- The text defines a type. -/
def definesType : Prop := [':', 'T'] <:+: string ∨ [':', 't'] <:+: string

instance decidableDefinesType : Decidable (definesType string) := by
  unfold definesType
  infer_instance

/-- The first part of `LSYM` and `GSYM`: a variable. -/
def localVar : Scope :=
  if s.currentFunc ≠ [] ∧ ':' ∈ string ∧ ¬ definesType string ∧ value ≠ 0 ∧
      string.head? ≠ some '_' then
    s.addLocal ⟨string.before ':', s.typeName ((string.after? ':').getD []), frameOffset value,
      .local, 4⟩
  else s

/-- The number of a type that is defined. -/
def noteType (u : Unicode) : Scope :=
  match matchTypeNumber u string with
  | some number =>
    { s with typeDefs := assign s.typeDefs number (dropUnderscore (string.before ':')) }
  | none => s

/-- New structures. -/
def withStructs (types : List (Text × StructType)) : Scope :=
  { s with table.structTypes := types }

end Scope

section Stabs

variable (u : Unicode)

/-- `_parse_struct_stab` on the table. -/
def structStab (string : Text) : Raises PyError Scope PUnit := do
  let s ← get
  let types ← liftExcept (parseStructStab u s.typeDefs string s.table.structTypes)
  modify (·.withStructs types)

/-- The second part of `LSYM` and `GSYM`: a type. -/
def typeStab (string : Text) : Raises PyError Scope PUnit :=
  if Scope.definesType string then do
    modify (·.noteType string u)
    if hasStruct u string then structStab u string else pure ⟨⟩
  else pure ⟨⟩

/-- The branches for the types of entries. -/
def stab (type string : Text) (desc value : Nat) : Raises PyError Scope PUnit :=
  if type = "SO".toList then modify (·.unit string)
  else if type = "SOL".toList then modify (·.includeFile string)
  else if type = "SLINE".toList then modify (·.sourceLine desc value)
  else if type = "FUN".toList then modify (·.function string desc value)
  else if type = "PSYM".toList then modify (·.param string value)
  else if type = "LSYM".toList ∨ type = "GSYM".toList then do
    modify (·.localVar string value)
    typeStab u string
  else pure ⟨⟩

/-- The loop body: what does not match, such as an empty line, is passed over. -/
def stabLine (line : Text) : Raises PyError Scope PUnit :=
  match matchLine u line with
  | some m => do
    let desc ← liftExcept (u.int m.desc)
    stab u m.type (strip u m.string) desc (Py.digitsVal 16 m.value)
  | none => pure ⟨⟩

def stabLines : List Text → Raises PyError Scope PUnit
  | [] => pure ⟨⟩
  | line :: lines => do
    stabLine u line
    stabLines lines

/-- `_parse_stabs_output`. The changes to the table stay when it raises. -/
def parseStabsOutput (output : Text) : Raises PyError SymbolTable PUnit := do
  let t ← get
  let ran := (stabLines u (joinLines u (splitlines u output))).outcome ⟨t, [], [], []⟩
  modify fun _ => ran.2.table
  liftExcept ran.1
  modify SymbolTable.sortLines

end Stabs

/-! ### Loading -/

/-- The output of one of the two tools. -/
inductive Output where
  | nm (text : Text)
  | stabs (text : Text)

section Load

variable (u : Unicode)

/-- The outputs are parsed; behind the second kind the addresses are sorted again. -/
def parse : Output → Raises PyError SymbolTable PUnit
  | .nm text => modify (parseNmOutput u text)
  | .stabs text => do
    parseStabsOutput u text
    modify SymbolTable.sortAddrs

def parseAll : List Output → Raises PyError SymbolTable PUnit
  | [] => pure ⟨⟩
  | output :: outputs => do
    parse u output
    parseAll outputs

/-- The table that is left, as exceptions are logged only. -/
def loaded (outputs : List Output) : SymbolTable := ((parseAll u outputs).outcome .empty).2

/-- `load_symbols`, with the exit codes and the outputs of the tools. -/
def loadSymbols (nm stabs : Int × Text) : SymbolTable :=
  loaded u ((if nm.1 = 0 then [.nm nm.2] else []) ++
    if stabs.1 = 0 ∧ strip u stabs.2 ≠ [] then [.stabs stabs.2] else [])

/-- The outputs that are parsed to the end: all of them, or those before the first that raises. -/
def completed (t : SymbolTable) : List Output → List Output
  | [] => []
  | output :: outputs =>
    match (parse u output).outcome t with
    | (.ok _, t) => output :: completed t outputs
    | (.error _, _) => []

end Load

end Symbols

end AmigaDevbench
