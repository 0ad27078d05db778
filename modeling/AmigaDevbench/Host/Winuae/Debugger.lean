import Mathlib.Data.Finset.Basic
import AmigaDevbench.Core.Raises
import AmigaDevbench.Host.Python

/-!
# The WinUAE session of `winuae_debug.py` and `winuae_state.py`

The session keeps a dictionary of points and asks the target for each change. The replies are an
input of every operation. `Z` and `z` take effect at the target exactly when they are answered
`OK`, and a checkpoint restore that is not refused clears all points; the model carries the points
armed in the target beside the session's own.
-/

namespace AmigaDevbench.Winuae

open Raises

/-- `DebugError` and its message. -/
structure DebugError where
  message : String
  deriving DecidableEq

/-- The key of `_points`: kind, address, size. -/
structure Key where
  kind : Nat
  address : Nat
  size : Nat
  deriving DecidableEq

/-- A breakpoint or watchpoint of the session. -/
structure Point where
  kind : Nat
  address : Nat
  size : Nat
  hits : Nat
  skip : Nat
  oneshot : Bool
  symbol : Option Text
  deriving DecidableEq

def Point.key (p : Point) : Key := ⟨p.kind, p.address, p.size⟩

/-- The key under which an execute breakpoint is kept. -/
def executeKey (pc : Nat) : Key := ⟨0, pc, 2⟩

/-- `_run_mode`. -/
inductive RunMode where
  | cont | step | over | range
  deriving DecidableEq

/-- `execution` while the connection is up. -/
inductive Execution where
  | running | stopped
  deriving DecidableEq

/-- The answer to a request: `OK`, an error code, the empty reply, or the data asked for. -/
inductive Reply where
  | ok
  | rejected
  | unsupported
  | value (n : Nat)
  deriving DecidableEq

/-- The requests of the modelled operations. -/
inductive Command where
  /-- `Z` -/
  | insert (key : Key)
  /-- `z` -/
  | remove (key : Key)
  /-- `p11` -/
  | readPc
  /-- `g` -/
  | registers
  /-- `checkpoint save` -/
  | save
  /-- `checkpoint restore` -/
  | restore
  /-- A monitor command that touches no point. -/
  | monitor
  deriving DecidableEq

/-- The session, and the points armed in the target. -/
structure Session where
  /-- `_points`, in insertion order. -/
  points : List Point
  execution : Execution
  runMode : Option RunMode
  interrupting : Bool
  /-- `_stop`. -/
  stopSet : Bool
  /-- `_stop_generation`. -/
  generation : Nat
  /-- `_processing`. -/
  processing : Nat
  lastStop : Option Text
  /-- The list `points` of a checkpoint save. -/
  lifted : List Key
  /-- The points armed in the target. -/
  armed : Finset Key

/-- Operations on the session under the connection lock. -/
abbrev Action := Raises DebugError Session

/-- What a request does to the points of the target. -/
def Command.effect : Command → Reply → Finset Key → Finset Key
  | .insert key, .ok, armed => armed ∪ {key}
  | .remove key, .ok, armed => armed.erase key
  | .restore, .ok, _ | .restore, .value _, _ => ∅
  | _, _, armed => armed

/-- `_request`. -/
def request (command : Command) (reply : Reply) : Action Reply := do
  modify fun s => { s with armed := command.effect reply s.armed }
  match reply with
  | .rejected => throw ⟨"WinUAE rejected the request"⟩
  | .unsupported => throw ⟨"Command is not supported by this WinUAE build"⟩
  | reply => pure reply

/-- `_ok`. -/
def ok (command : Command) (reply : Reply) : Action PUnit := do
  if (← request command reply) ≠ .ok then throw ⟨"WinUAE did not acknowledge the change"⟩

/-- The replies after the first. -/
def later (replies : Nat → Reply) : Nat → Reply := fun n => replies (n + 1)

/-- `_points.get(key)`. -/
def Session.point? (s : Session) (key : Key) : Option Point := s.points.find? (·.key = key)

/-- `_points[p.key] = p`: a new value for a key keeps the key's place. -/
def Session.setPoint (s : Session) (p : Point) : Session :=
  { s with
    points := if s.points.any (·.key = p.key) then
        s.points.map fun q => if q.key = p.key then p else q
      else s.points ++ [p] }

/-- `del _points[key]`. -/
def Session.delPoint (s : Session) (key : Key) : Session :=
  { s with points := s.points.filter (·.key ≠ key) }

/-- `_signal_stop`. -/
def Session.signalStop (s : Session) (reply : Text) : Session :=
  { s with
    generation := s.generation + 1
    execution := .stopped
    lastStop := some reply
    interrupting := false
    runMode := none
    stopSet := true }

/-- `_run`, without the packet. -/
def Session.run (s : Session) (mode : RunMode) : Session :=
  { s with stopSet := false, lastStop := none, execution := .running, runMode := some mode }

/-- Whether a text occurs in another. -/
def occursIn (sub s : Text) : Bool := (s.beforeStr? sub).isSome

/-- A stop that is neither a watch nor an event. -/
def isSignal (reply : Text) : Bool :=
  (reply.drop 1).take 2 = "05".toList && !occursIn "watch".toList reply &&
    !occursIn "winuae-".toList reply

/-- Whether `_stopped` leaves the stop to a task that asks for the PC. -/
def Session.asksForPc (s : Session) (reply : Text) : Bool :=
  isSignal reply && s.runMode ≠ some .step && s.points.any (·.kind = 0)

/-- `integer`. -/
def integer (value : Val) (name : String) (maximum minimum : Int) : Except DebugError Int := do
  let value ← match value with
    | .str text =>
      let text := Py.strip text
      let number := match text with
        | '$' :: digits => Py.int 16 digits
        | _ => Py.int (if "0x".toList.isPrefixOf (Py.lower text) then 16 else 10) text
      match number with
      | .ok n => pure n
      | .error _ => throw ⟨name ++ " must be an integer (hex requires 0x or $)"⟩
    | .int n => pure n
    | _ => throw ⟨name ++ " must be in " ++ toString minimum ++ ".." ++ toString maximum⟩
  if minimum ≤ value ∧ value ≤ maximum then pure value
  else throw ⟨name ++ " must be in " ++ toString minimum ++ ".." ++ toString maximum⟩

/-- `boolean`. -/
def boolean (value : Val) (name : String) : Except DebugError Bool :=
  match value with
  | .bool b => pure b
  | .int 0 | .str ['0'] => pure false
  | .int 1 | .str ['1'] => pure true
  | _ => throw ⟨name ++ " must be true or false"⟩

/-- The arguments of `breakpoint`; `none` stands for `None`. -/
structure Arguments where
  operation : Text
  address : Option Val
  kind : Text
  size : Val
  skip : Val
  oneshot : Val
  symbol : Option Text

/-- The codes of the breakpoint kinds. -/
def kindCode (kind : Text) : Option Nat :=
  if kind = "execute".toList then some 0
  else if kind = "write".toList then some 2
  else if kind = "read".toList then some 3
  else if kind = "access".toList then some 4
  else none

/-- The point that the arguments name. `symbols` looks up a function's address. -/
def Arguments.key (args : Arguments) (symbols : Text → Option Nat) : Except DebugError Key := do
  let code ← match kindCode args.kind with
    | some code => pure code
    | none => throw ⟨"Breakpoint kind must be execute, read, write or access"⟩
  let address ← match args.symbol with
    | some (c :: name) =>
      if code ≠ 0 then throw ⟨"Symbol breakpoints are execute breakpoints"⟩
      else match symbols (c :: name) with
        | some address => pure (some (.int address))
        | none => throw ⟨"No symbol '" ++ String.ofList (c :: name) ++
            "' in the loaded projects; load symbols first"⟩
    | _ => pure args.address
  let address ← integer (address.getD (.list [])) "address" 0xffffffff 0
  let length ← if code = 0 then pure 2 else integer args.size "size" 65536 1
  if address + length > 0x100000000 ∨ code = 0 ∧ address % 2 = 1 then
    throw ⟨"Invalid breakpoint range or instruction alignment"⟩
  pure ⟨code, address.toNat, length.toNat⟩

/-- The point that `add` stores. -/
def Arguments.point (args : Arguments) (key : Key) : Except DebugError Point := do
  let skip ← integer args.skip "skip" 1000000 0
  let oneshot ← boolean args.oneshot "oneshot"
  if key.kind ≠ 0 ∧ (skip ≠ 0 ∨ oneshot) then
    throw ⟨"Skip counts and one-shot apply to execute breakpoints"⟩
  pure ⟨key.kind, key.address, key.size, 0, skip.toNat, oneshot, args.symbol.filter (· ≠ [])⟩

/-- The loop of `breakpoint clear`. -/
def clearPoints : List Key → (Nat → Reply) → Action PUnit
  | [], _ => pure ⟨⟩
  | key :: keys, replies => do
    ok (.remove key) (replies 0)
    modify (·.delPoint key)
    clearPoints keys (later replies)

/-- `_breakpoint`. -/
def breakpoint (symbols : Text → Option Nat) (args : Arguments) (replies : Nat → Reply) :
    Action PUnit := do
  if args.operation = "list".toList then pure ⟨⟩
  else if args.operation = "clear".toList then
    clearPoints ((← get).points.map Point.key) replies
  else if args.operation ≠ "add".toList ∧ args.operation ≠ "remove".toList then
    throw ⟨"Breakpoint operation must be add, remove, clear or list"⟩
  else
    let key ← liftExcept (args.key symbols)
    if args.operation = "remove".toList then
      if ((← get).point? key).isNone then throw ⟨"This session does not own that breakpoint"⟩
      ok (.remove key) (replies 0)
      modify (·.delPoint key)
    else
      let point ← liftExcept (args.point key)
      if ((← get).point? key).isNone then ok (.insert key) (replies 0)
      modify (·.setPoint point)

/-- The part of `_process_stop` that looks at the breakpoint, and whether it let the target go on. -/
def examine (pc removal : Reply) : Action Bool := do
  match ← request .readPc pc with
  | .value pc =>
    match (← get).point? (executeKey pc) with
    | none => pure false
    | some point =>
      modify (·.setPoint { point with hits := point.hits + 1 })
      let s ← get
      if point.skip ≠ 0 ∧ s.runMode = some .cont ∧ s.interrupting = false then
        modify (·.setPoint { point with hits := point.hits + 1, skip := point.skip - 1 })
        pure true
      else if point.oneshot then
        ok (.remove (executeKey pc)) removal
        modify (·.delPoint (executeKey pc))
        pure false
      else pure false
  | _ => throw ⟨"invalid literal for int()"⟩

/-- `_process_stop`: whatever goes wrong, a stop that is not passed is signalled. -/
def processStop (reply : Text) (pc removal : Reply) : Action PUnit := do
  let resumed ← tryCatch (examine pc removal) fun _ => pure false
  modify fun s => { s with processing := s.processing - 1 }
  unless resumed do modify (·.signalStop reply)

/-- `rearm`: the points one by one. -/
def rearmPoints : List Point → (Nat → Reply) → Action PUnit
  | [], _ => pure ⟨⟩
  | point :: points, replies => do
    ok (.insert point.key) (replies 0)
    modify (·.setPoint point)
    rearmPoints points (later replies)

/-- The monitor commands that follow: the exception mask and the hooks of the feature modules. -/
def rearmRest : List Reply → Action PUnit
  | [] => pure ⟨⟩
  | reply :: replies => do
    discard (request .monitor reply)
    rearmRest replies

/-- `rearm`. -/
def rearm (inserts : Nat → Reply) (rest : List Reply) : Action PUnit := do
  let points := (← get).points
  modify fun s => { s with points := [] }
  rearmPoints points inserts
  rearmRest rest

/-- The first loop of a checkpoint save. -/
def liftPoints : List Key → (Nat → Reply) → Action PUnit
  | [], _ => pure ⟨⟩
  | key :: keys, replies => do
    ok (.remove key) (replies 0)
    modify fun s => { s with lifted := s.lifted ++ [key] }
    liftPoints keys (later replies)

/-- The loop in its `finally` clause. -/
def putBack : List Key → (Nat → Reply) → Action PUnit
  | [], _ => pure ⟨⟩
  | key :: keys, replies => do
    ok (.insert key) (replies 0)
    putBack keys (later replies)

/-- The end of `_checkpoint`. -/
def afterCheckpoint (registers : Reply) : Action PUnit := do
  modify fun s => { s with execution := .stopped, stopSet := true }
  discard (request .registers registers)

/-- `_checkpoint` with `save`. -/
def checkpointSave (lifts : Nat → Reply) (saved : Reply) (inserts : Nat → Reply)
    (registers : Reply) : Action PUnit := do
  modify fun s => { s with lifted := [] }
  tryFinally
    (do
      liftPoints ((← get).points.map Point.key) lifts
      discard (request .save saved))
    (do putBack (← get).lifted inserts)
  afterCheckpoint registers

/-- `_checkpoint` with `restore`. -/
def checkpointRestore (isFile : Bool) (restored : Reply) (inserts : Nat → Reply)
    (rest : List Reply) (registers : Reply) : Action PUnit := do
  if !isFile then throw ⟨"No state file"⟩
  discard (request .restore restored)
  modify fun s => { s with lastStop := none }
  rearm inserts rest
  afterCheckpoint registers

end AmigaDevbench.Winuae
