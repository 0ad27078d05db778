import AmigaDevbench.Host.Python

/-!
# Source-level stepping on the host

The web interface steps by source lines. It looks up the line of the PC, picks the address of a
function that the line calls or of a line behind it, and lets the target run to a breakpoint of its
own at that address, which it clears when the target has stopped or when it has waited long enough.
-/

namespace AmigaDevbench.SourceStep

/-- `SourceLine`. -/
structure SourceLine where
  address : Int
  file : Text
  line : Nat
  deriving DecidableEq, Repr

/-- `SymbolTable`, the part that stepping reads. The lines are sorted when a binary is loaded. -/
structure SymbolTable where
  sourceLines : List SourceLine
  sorted : sourceLines.Pairwise (·.address ≤ ·.address)
  /-- The keys of `func_source`. -/
  funcSource : List Text
  /-- The addresses in `by_name`. -/
  byName : Text → Option Int

/-- `lookup_source_line`: in the sorted list `bisect_right` finds the last line up to the
address. -/
def SymbolTable.lookupSourceLine (t : SymbolTable) (addr : Int) : Option (Text × Nat) :=
  match (t.sourceLines.takeWhile (·.address ≤ addr)).getLast? with
  | some sl => if 0x1000 < addr - sl.address then none else some (sl.file, sl.line)
  | none => none

/-- The loop over the functions: the first one that the text of the line calls. -/
def SymbolTable.callTarget (t : SymbolTable) (lineText : Text) : Option Int :=
  t.funcSource.findSome? fun name =>
    if name = "main".toList then none
    else if (Text.beforeStr? (name ++ ['(']) lineText).isSome then t.byName name
    else none

/-- The loops that find the lowest address above the PC; without one the result is the start
value. -/
def bestAddress (relPc : Int) (lines : List SourceLine) : Int :=
  lines.foldl (fun best sl => if relPc < sl.address ∧ sl.address < best then sl.address else best)
    0xFFFFFFFF

/-- What the host knows when it steps: the state of the debugger, the first loaded table, the
source files, and whether the target counts as stopped at each attempt of the loop. -/
structure Host where
  /-- The state is asked for again before it is read. -/
  refresh : Bool
  codeBase : Int
  pc : Int
  table : Option SymbolTable
  readLines : Text → Option (List Text)
  stopped : Nat → Bool

namespace Host

variable (host : Host)

/-- `start_line` and `cur_src`, with the table they come from. -/
def startLine : Option (SymbolTable × Text × Nat) :=
  if 0 < host.codeBase ∧ host.codeBase ≤ host.pc then
    host.table.bind fun t => (t.lookupSourceLine (host.pc - host.codeBase)).map (t, ·)
  else none

/-- `call_target`: zero without a call. -/
def callTarget (t : SymbolTable) (file : Text) (line : Nat) : Int :=
  match host.readLines file with
  | some lines =>
    if 0 < line then
      ((lines[line - 1]?).bind t.callTarget).elim 0 (host.codeBase + ·)
    else 0
  | none => 0

/-- `next_addr` of `api_debugger_step`: zero without symbols for it. -/
def stepAddress : Int :=
  match host.startLine with
  | some (t, file, line) =>
    if 0 < host.callTarget t file line then host.callTarget t file line
    else if bestAddress (host.pc - host.codeBase) t.sourceLines < 0xFFFFFFFF then
      host.codeBase + bestAddress (host.pc - host.codeBase) t.sourceLines
    else 0
  | none => 0

/-- `next_line_addr` of `_do_debugger_next`: zero without a next line in the file. -/
def nextLineAddress : Int :=
  match host.startLine with
  | some (t, file, _) =>
    let best := bestAddress (host.pc - host.codeBase) (t.sourceLines.filter (·.file = file))
    if best < 0xFFFFFFFF then host.codeBase + best else 0
  | none => 0

end Host

/-- The loop that waits for the stop, and the line behind it. -/
def waitForStop (clear : Text) (stopped : Nat → Bool) : List Nat → List Text
  | [] => [clear]
  | attempt :: attempts =>
    if stopped attempt then [clear]
    else (if attempt % 4 = 3 then ["DBGSTATUS".toList] else []) ++
      waitForStop clear stopped attempts

/-- Run to a helper breakpoint at an address written with `:08x`. -/
def runTo (addrHex : Text) (stopped : Nat → Bool) : List Text :=
  ("BPSET|".toList ++ addrHex) :: "DBGCONT".toList ::
    waitForStop ("BPCLEAR|".toList ++ addrHex) stopped (List.range 30)

/-- The two operations. -/
inductive Operation where
  | step
  | next
  deriving DecidableEq

/-- The address of the helper breakpoint. -/
def Operation.helper (host : Host) : Operation → Option Int
  | .step => if host.stepAddress = 0 then none else some host.stepAddress
  | .next => if 0 < host.nextLineAddress then some host.nextLineAddress else none

/-- The lines that `api_debugger_step` and `_do_debugger_next` send. -/
def Operation.lines (host : Host) (op : Operation) : List Text :=
  (if host.refresh then ["DBGSTATUS".toList] else []) ++
    match op.helper host, op with
    | some address, _ => runTo (Py.hex32 address) host.stopped
    | none, .step => []
    | none, .next => ["DBGCONT".toList]

/-- Between the two lines about the breakpoint the host only asks for the state. -/
theorem runTo_eq (addrHex : Text) (stopped : Nat → Bool) :
    ∃ between, (∀ line ∈ between, line = "DBGSTATUS".toList) ∧
      runTo addrHex stopped = ("BPSET|".toList ++ addrHex) :: "DBGCONT".toList ::
        (between ++ ["BPCLEAR|".toList ++ addrHex]) := by
  have hwait : ∀ attempts clear, ∃ between, (∀ line ∈ between, line = "DBGSTATUS".toList) ∧
      waitForStop clear stopped attempts = between ++ [clear] := by
    intro attempts clear
    induction attempts with
    | nil => exact ⟨[], nofun, rfl⟩
    | cons attempt attempts ih =>
      obtain ⟨between, hbetween, heq⟩ := ih
      rw [waitForStop]
      split_ifs with hstopped hask
      · exact ⟨[], nofun, rfl⟩
      · exact ⟨_ :: between, List.forall_mem_cons.mpr ⟨rfl, hbetween⟩, by rw [heq]; rfl⟩
      · exact ⟨between, hbetween, heq⟩
  obtain ⟨between, hbetween, heq⟩ := hwait (List.range 30) ("BPCLEAR|".toList ++ addrHex)
  exact ⟨between, hbetween, by rw [runTo, heq]⟩

end AmigaDevbench.SourceStep
