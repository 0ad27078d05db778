import Mathlib.Data.Nat.Bitwise
import AmigaDevbench.Core.Keyed
import AmigaDevbench.Host.Winuae.Points

/-!
# Watches, DMA watches and conditions of a session

`winuae_watch.py` keeps three tables of what the session has added to the emulator: the ids that
it was given, and the commands, with which everything is added again when a restored state or a
reset has cleared the emulator. Other debuggers use the same emulator.
-/

namespace AmigaDevbench.Winuae.Watches

open Raises

/-! ### Arguments -/

/-- `SOURCES` -/
def sources : List (Text × Nat) :=
  [("cpu".toList, 0x6), ("blitter".toList, 0x1f8), ("copper".toList, 0x200),
    ("disk".toList, 0x400), ("audio".toList, 0x7800), ("bitplane".toList, 0x7f8000),
    ("sprite".toList, 0x7f800000)]

/-- `CPU_FETCH` -/
def cpuFetch : Nat := 0x1

/-- `ACCESS` -/
def access : List (Text × Nat) :=
  [("read".toList, 1), ("write".toList, 2), ("access".toList, 3), ("fetch".toList, 4)]

/-- `CONDITION_REGISTERS` -/
def conditionRegisters : List Text :=
  ((List.range 8).map fun i => 'D' :: Nat.toDigits 10 i) ++
    ((List.range 8).map fun i => 'A' :: Nat.toDigits 10 i) ++
    ["PC".toList, "USP".toList, "MSP".toList, "ISP".toList, "VBR".toList, "SR".toList]

/-- `CONDITION_OPERATORS` -/
def conditionOperators : List Text :=
  ["eq".toList, "ne".toList, "le".toList, "ge".toList, "lt".toList, "gt".toList]

/-- `access_bits` -/
def accessBits (value : Val) : Except DebugError Nat :=
  let failure : DebugError :=
    ⟨"access must be read, write, access, fetch or a combination of R, W and I"⟩
  match value with
  | .str text =>
    match Keyed.lookup access text with
    | some bits => pure bits
    | none =>
      let letters := text.map Char.toUpper
      if text ≠ [] ∧ letters.all (· ∈ "RWI".toList) then
        pure ((if 'R' ∈ letters then 1 else 0) + (if 'W' ∈ letters then 2 else 0) +
          (if 'I' ∈ letters then 4 else 0))
      else throw failure
  | _ => throw failure

/-- The names of sources that a list consists of. -/
def sourceNames : List Val → Option (List Text) :=
  List.mapM fun name =>
    match name with
    | .str name => if (Keyed.lookup sources name).isSome then some name else none
    | _ => none

/-- The masks of all sources. -/
def masks (names : List Text) : Nat :=
  names.foldl (fun mask name => mask ||| (Keyed.lookup sources name).getD 0) 0

/-- `source_mask` -/
def sourceMask (value : Option Val) (bits : Nat) : Except DebugError Nat := do
  let failure : DebugError := ⟨"sources must be a non-empty list of cpu, blitter, copper, disk, " ++
    "audio, bitplane, sprite"⟩
  let names ← match value.getD (.list [.str "cpu".toList]) with
    | .list (name :: names) =>
      match sourceNames (name :: names) with
      | some names => pure names
      | none => throw failure
    | _ => throw failure
  let mask := masks names
  if bits &&& 4 ≠ 0 then
    if "cpu".toList ∉ names then
      throw ⟨"Instruction fetches are CPU accesses; include the cpu source"⟩
    else if bits &&& 3 ≠ 0 then pure (mask ||| cpuFetch)
    -- A watch of fetches only does not match data accesses.
    else pure ((mask ||| cpuFetch).ldiff 0x6)
  else pure mask

/-- Numbers as `f'{n:x}'` with blanks between them. -/
def hexWords (numbers : List Nat) : Text := [' '].intercalate (numbers.map (Nat.toDigits 16))

/-- The arguments of `watch`; `none` stands for `None`. -/
structure Arguments where
  operation : Text
  id : Option Val
  address : Option Val
  size : Val
  access : Val
  sources : Option Val
  value : Option Val
  mask : Option Val
  changeOnly : Val
  logOnly : Val
  exact : Val

/-- What `watch` with `add` asks for. -/
inductive Request where
  /-- A monitor command. -/
  | monitor (command : Text)
  /-- A standard watchpoint. -/
  | point (key : Key)

/-- An argument that may be `None`, with its default. -/
def integerOr (value : Option Val) (name : String) (maximum default : Int) :
    Except DebugError Int :=
  match value with
  | some value => integer value name maximum 0
  | none => pure default

/-- The part of `_watch` with `add` in front of the requests. -/
def Arguments.request (args : Arguments) (hasRange : Bool) : Except DebugError Request := do
  let start ← integer (args.address.getD (.list [])) "address" 0xffffffff 0
  let length ← integer args.size "size" 65536 1
  let bits ← accessBits args.access
  let source ← sourceMask args.sources bits
  let change ← boolean args.changeOnly "change_only"
  let log ← boolean args.logOnly "log_only"
  let exact ← boolean args.exact "exact"
  let compared : Bool := length = 1 ∨ length = 2 ∨ length = 4
  if change ∧ bits ≠ 2 then throw ⟨"change_only requires write access to RAM"⟩
  if args.mask.isSome ∧ args.value.isNone then throw ⟨"mask requires value"⟩
  if args.value.isSome ∧ !compared then
    throw ⟨"WinUAE compares values at the watch width; value needs size 1, 2 or 4"⟩
  let limit : Int := if length < 4 then 2 ^ (8 * length.toNat) - 1 else 0xffffffff
  let number ← integerOr args.value "value" limit 0
  let valueMask ← integerOr args.mask "mask" limit limit
  let words := hexWords [start.toNat, length.toNat, bits, source, args.value.isSome.toNat,
    number.toNat, valueMask.toNat, change.toNat, log.toNat]
  if exact then
    if !compared ∨ start % length ≠ 0 ∨ bits &&& 4 ≠ 0 then
      throw ⟨"Exact watches need an aligned 1, 2 or 4 byte read, write or access"⟩
    else pure (.monitor ("watch add ".toList ++ words))
  else if hasRange then pure (.monitor ("watch range ".toList ++ words))
  else if bits &&& 4 ≠ 0 ∨ args.value.isSome ∨ change ∨ log ∨ source ≠ 0x6 then
    throw ⟨"Fetch, value, change-only, log-only and DMA source ranges need a WinUAE build with " ++
      "watch-range"⟩
  else if start + length > 0x100000000 then throw ⟨"Memory range wraps the address space"⟩
  else
    let kind := if bits = 1 then 3 else if bits = 2 then 2 else 4
    pure (.point ⟨kind, start.toNat, length.toNat⟩)

/-- The arguments of `dma_watch`. -/
structure DmaArguments where
  operation : Text
  id : Option Val
  address : Option Val
  length : Val
  mode : Text
  sources : Option Val

/-- The groups of sources without the CPU. -/
def dmaSources : List Text := (Keyed.keys sources).filter (· ≠ "cpu".toList)

/-- The command of `dma_watch` with `add`. -/
def DmaArguments.command (args : DmaArguments) : Except DebugError Text := do
  let start ← integer (args.address.getD (.list [])) "address" 0xffffffff 0
  let size ← integer args.length "length" 65536 1
  let failure : DebugError := ⟨"sources must be DMA groups: blitter, copper, disk, audio, " ++
    "bitplane, sprite"⟩
  match Keyed.lookup access args.mode with
  | none | some 4 => throw ⟨"mode must be read, write or access"⟩
  | some bits =>
    let names ← match args.sources with
      | none | some (.list []) | some (.str []) | some (.int 0) | some (.bool false)
      | some (.dict []) => pure dmaSources
      | some (.list values) =>
        match sourceNames values with
        | some names => if "cpu".toList ∈ names then throw failure else pure names
        | none => throw failure
      | some _ => throw failure
    pure ("dma-watch add ".toList ++ hexWords [start.toNat, size.toNat, bits, masks names])

/-- The arguments of `condition`, the register as a text. -/
structure ConditionArguments where
  operation : Text
  id : Option Val
  register : Text
  operator : Text
  value : Val
  mask : Val
  signed : Val

/-- The command of `condition` with `add`. -/
def ConditionArguments.command (args : ConditionArguments) : Except DebugError Text := do
  let name := args.register.map Char.toUpper
  if name ∉ conditionRegisters ∨ name = "PC".toList then
    throw ⟨"Condition register must be D0-D7, A0-A7, USP, MSP, ISP, VBR or SR; use breakpoints " ++
      "for PC"⟩
  if args.operator ∉ conditionOperators then
    throw ⟨"operator must be one of eq, ne, le, ge, lt, gt"⟩
  let value ← integer args.value "value" 0xffffffff 0
  let mask ← integer args.mask "mask" 0xffffffff 0
  let signed ← boolean args.signed "signed"
  pure ("condition add ".toList ++ hexWords [conditionRegisters.idxOf name,
    conditionOperators.idxOf args.operator, value.toNat, mask.toNat, signed.toNat])

/-! ### The session and the emulator -/

/-- The keys of `state`. -/
inductive Table where
  | watches | dmaWatches | conditions
  deriving DecidableEq

/-- The tables in the order of `_rearm`. -/
def tables : List Table := [.watches, .dmaWatches, .conditions]

/-- An entry of the emulator: the command that added it, and whether it came from this session. -/
structure Entry where
  command : Text
  ours : Bool
  deriving DecidableEq

/-- Ids, and the commands that they were given for. -/
abbrev Owned := List (UInt8 × Text)

/-- The session, and the tables of the emulator. -/
structure Watching where
  session : Session
  /-- `state`, where a key that has never been used is not there. -/
  owned : Table → Option Owned
  remote : Table → UInt8 → Option Entry
  /-- What a reset that is under way has saved: `_points` and `state`. -/
  saved : Option (List Point × (Table → Option Owned))
  /-- What the other debuggers have in the emulator. -/
  others : Table → UInt8 → Option Text

abbrev Action := Raises DebugError Watching

namespace Watching

variable (w : Watching) (k : Table) (n : UInt8)

/-- `state.get(k, {})`. -/
def table : Owned := (w.owned k).getD []

/-- `state[k] = d`. -/
def setTable (d : Owned) : Watching := { w with owned := Function.update w.owned k (some d) }

/-- An entry of the emulator comes, changes or goes. -/
def setRemote (entry : Option Entry) : Watching :=
  { w with remote := Function.update w.remote k (Function.update (w.remote k) n entry) }

/-- What the session has in the emulator. -/
def mine : Option Text := ((w.remote k n).filter (·.ours)).map Entry.command

/-- What the other debuggers have in the emulator. -/
def theirs : Option Text := ((w.remote k n).filter (!·.ours)).map Entry.command

/-- The connection is closed, and the emulator removes what the session has added. -/
def closed : Watching :=
  { w with
    session := .start
    owned := fun _ => none
    remote := fun k n => (w.remote k n).filter (!·.ours) }

end Watching

/-- An operation on breakpoints. -/
def onSession {α : Type} (x : Winuae.Action α) : Action α := do
  let w ← get
  let (result, session) := x.outcome w.session
  modify fun w => { w with session := session }
  liftExcept result

/-- A request that changes none of the tables. -/
def ask : Reply → Action PUnit
  | .rejected => throw ⟨"WinUAE rejected the request"⟩
  | .unsupported => throw ⟨"Command is not supported by this WinUAE build"⟩
  | _ => pure ⟨⟩

/-- The emulator gives an id that is free, or refuses. -/
def add (k : Table) (command : Text) (reply : Option UInt8) : Action UInt8 := do
  match reply with
  | some n =>
    if ((← get).remote k n).isSome then throw ⟨"WinUAE rejected the request"⟩
    modify (·.setRemote k n (some ⟨command, true⟩))
    pure n
  | none => throw ⟨"WinUAE rejected the request"⟩

/-- `_add_watch`, and what the others do in its place. -/
def addWatch (k : Table) (command : Text) (reply : Option UInt8) : Action PUnit := do
  let n ← add k command reply
  modify fun w => w.setTable k (Keyed.assign (w.table k) n command)

/-- An entry leaves the emulator, then the session. -/
def dropWatch (k : Table) (n : UInt8) (reply : Reply) : Action PUnit := do
  ask reply
  modify (·.setRemote k n none)
  modify fun w => w.setTable k ((w.table k).filter (·.1 ≠ n))

/-- The operation `remove`. -/
def removeWatch (k : Table) (id : Option Val) (message : String) (reply : Reply) :
    Action PUnit := do
  let n ← liftExcept (integer (id.getD (.list [])) "id" 255 0)
  let n := UInt8.ofNat n.toNat
  modify fun w => w.setTable k (w.table k)
  if (Keyed.lookup ((← get).table k) n).isNone then throw ⟨message⟩
  dropWatch k n reply

/-- The loop of `watch clear`. -/
def clearWatches : List UInt8 → (Nat → Reply) → Action PUnit
  | [], _ => pure ⟨⟩
  | n :: ns, replies => do
    dropWatch .watches n (replies 0)
    clearWatches ns (later replies)

/-- `_watch` -/
def watch (hasRange : Bool) (args : Arguments) (replies : Nat → Reply) (added : Option UInt8) :
    Action PUnit := do
  if args.operation ∈ ["last".toList, "events".toList, "clear-events".toList, "list".toList] then
    ask (replies 0)
  else if args.operation = "remove".toList then
    removeWatch .watches args.id "This session does not own that watch" (replies 0)
  else if args.operation = "clear".toList then
    modify fun w => w.setTable .watches (w.table .watches)
    let owned := Keyed.keys ((← get).table .watches)
    clearWatches owned replies
    let keys := ((← get).session.points.map Point.key).filter (·.kind ≠ 0)
    onSession (clearPoints keys fun i => replies (owned.length + i))
  else if args.operation ≠ "add".toList then
    throw ⟨"Watch operation must be add, remove, clear, list, last, events or clear-events"⟩
  else
    match ← liftExcept (args.request hasRange) with
    | .monitor command => addWatch .watches command added
    | .point key =>
      onSession do
        ok (.insert key) (replies 0)
        modify (·.setPoint ⟨key.kind, key.address, key.size, 0, 0, false, none⟩)

/-- `_dma_watch` -/
def dmaWatch (args : DmaArguments) (replies : Nat → Reply) (added : Option UInt8) :
    Action PUnit := do
  modify fun w => w.setTable .dmaWatches (w.table .dmaWatches)
  if args.operation = "list".toList then ask (replies 0)
  else if args.operation = "remove".toList then
    removeWatch .dmaWatches args.id "This session does not own that DMA watch" (replies 0)
    ask (replies 1)
  else if args.operation ≠ "add".toList then
    throw ⟨"DMA watch operation must be add, remove or list"⟩
  else
    let command ← liftExcept args.command
    addWatch .dmaWatches command added

/-- `_condition` -/
def condition (args : ConditionArguments) (reply : Reply) (added : Option UInt8) :
    Action PUnit := do
  modify fun w => w.setTable .conditions (w.table .conditions)
  if args.operation = "list".toList then ask reply
  else if args.operation = "remove".toList then
    removeWatch .conditions args.id "This session does not own that condition" reply
  else if args.operation ≠ "add".toList then
    throw ⟨"Condition operation must be add, remove or list"⟩
  else
    let command ← liftExcept args.command
    addWatch .conditions command added

/-- The commands of a table, one after the other. -/
def rearmTable (k : Table) : List Text → (Nat → Option UInt8) → Action PUnit
  | [], _ => pure ⟨⟩
  | command :: commands, replies => do
    addWatch k command (replies 0)
    rearmTable k commands fun i => replies (i + 1)

/-- `_rearm` -/
def rearmTables : List Table → (Nat → Option UInt8) → Action PUnit
  | [], _ => pure ⟨⟩
  | k :: ks, replies => do
    let owned := (← get).table k
    modify (·.setTable k [])
    rearmTable k (owned.map (·.2)) replies
    rearmTables ks fun i => replies (i + owned.length)

/-- `_checkpoint` with `restore`, which clears the tables of the emulator. -/
def restore (isFile : Bool) (restored : Reply) (inserts : Nat → Reply) (rest : List Reply)
    (replies : Nat → Option UInt8) (registers : Reply) : Action PUnit := do
  if !isFile then throw ⟨"No state file"⟩
  onSession (discard (Winuae.request .restore restored))
  modify fun w => { w with remote := fun _ _ => none, others := fun _ _ => none }
  onSession do
    modify fun s => { s with lastStop := none }
    rearm inserts rest
  rearmTables tables replies
  onSession (afterCheckpoint registers)

/-- The end of `_reset`: `_points` and `state` are updated from what was saved. -/
def Watching.update (w : Watching) (points : List Point) (owned : Table → Option Owned) :
    Watching :=
  { w with
    session := points.foldl Session.setPoint w.session
    owned := fun k => owned k <|> w.owned k
    saved := none }

/-- What happens to the session and to the emulator. -/
inductive Label where
  /-- An operation on breakpoints. -/
  | breakpoints (op : Operation)
  | watch (hasRange : Bool) (args : Arguments) (replies : Nat → Reply) (added : Option UInt8)
  | dmaWatch (args : DmaArguments) (replies : Nat → Reply) (added : Option UInt8)
  | condition (args : ConditionArguments) (reply : Reply) (added : Option UInt8)
  | restore (isFile : Bool) (restored : Reply) (inserts : Nat → Reply) (rest : List Reply)
    (replies : Nat → Option UInt8) (registers : Reply)
  /-- The connection is lost or closed. -/
  | disconnect
  /-- `_reset` up to the loss of the connection. -/
  | reset
  /-- `_reset` behind the new connection. -/
  | reconnected (inserts : Nat → Reply) (rest : List Reply) (replies : Nat → Option UInt8)
  /-- `_reset` gives up. -/
  | resetFails
  /-- Another debugger adds an entry of its own. -/
  | otherAdds (k : Table) (n : UInt8) (command : Text)
  /-- Another debugger removes an entry. -/
  | otherRemoves (k : Table) (n : UInt8)

/-- An operation ends, by returning or by raising. Those that clear the emulator are not among the
operations on breakpoints here. -/
def Watching.step (symbols : Text → Option Nat) (w : Watching) : Label → Option Watching
  | .breakpoints op =>
    match op with
    | .restore .. | .rearm .. => none
    | op => some ((onSession (op.action symbols)).outcome w).2
  | .watch hasRange args replies added =>
    some ((Watches.watch hasRange args replies added).outcome w).2
  | .dmaWatch args replies added => some ((Watches.dmaWatch args replies added).outcome w).2
  | .condition args reply added => some ((Watches.condition args reply added).outcome w).2
  | .restore isFile restored inserts rest replies registers =>
    some ((Watches.restore isFile restored inserts rest replies registers).outcome w).2
  | .disconnect => some w.closed
  | .reset =>
    if w.saved.isNone then some { w.closed with saved := some (w.session.points, w.owned) }
    else none
  | .reconnected inserts rest replies =>
    w.saved.map fun saved =>
      ((do
        onSession (rearm inserts rest)
        rearmTables tables replies : Action PUnit).outcome (w.update saved.1 saved.2)).2
  | .resetFails => some { w with saved := none }
  | .otherAdds k n command =>
    if (w.remote k n).isNone then
      some
        { w.setRemote k n (some ⟨command, false⟩) with
          others := Function.update w.others k (Function.update (w.others k) n (some command)) }
    else none
  | .otherRemoves k n =>
    if (w.remote k n).isSome then
      some
        { w.setRemote k n none with
          others := Function.update w.others k (Function.update (w.others k) n none) }
    else none

/-- A new connection to an emulator that the other debuggers may have entries in. -/
def Watching.start (others : Table → UInt8 → Option Text) : Watching where
  session := .start
  owned := fun _ => none
  remote := fun k n => (others k n).map (⟨·, false⟩)
  saved := none
  others := others

/-! ### Tables in step -/

/-- The session's table is what the session has in the emulator. -/
def Agrees (w : Watching) (k : Table) : Prop :=
  ∀ n, Keyed.lookup (w.table k) n = w.mine k n

/-- All tables are what the session has in the emulator, and the entries of the others are as they
left them. -/
structure InStep (w : Watching) : Prop where
  agrees k : Agrees w k
  theirs k n : w.theirs k n = w.others k n
  nodup k : (Keyed.keys (w.table k)).Nodup
  nodup_saved saved (h : saved ∈ w.saved) k : (Keyed.keys ((saved.2 k).getD [])).Nodup

section Watching

variable {w : Watching} {k : Table} {n : UInt8}

theorem outcome_onSession {α : Type} (x : Winuae.Action α) (w : Watching) :
    (onSession x).outcome w =
      ((x.outcome w.session).1, { w with session := (x.outcome w.session).2 }) := by
  rw [onSession, outcome_bind, outcome_get]
  exact Raises.outcome_liftExcept _ _

/-- An operation on breakpoints changes nothing else. -/
theorem keeps_onSession {α : Type} {P : Watching → Prop}
    (hP : ∀ w s, P w → P { w with session := s }) (x : Winuae.Action α) :
    Keeps P (onSession x) := by
  intro w hw
  rw [outcome_onSession]
  have hs := hP w (x.outcome w.session).2 hw
  cases (x.outcome w.session).1 with
  | ok a => exact hs
  | error e => exact hs

theorem inStep_session {w : Watching} (s : Session) (h : InStep w) :
    InStep { w with session := s } :=
  ⟨h.agrees, h.theirs, h.nodup, h.nodup_saved⟩

@[simp] theorem table_setTable (d : Owned) (j : Table) :
    (w.setTable k d).table j = if j = k then d else w.table j := by
  simp only [Watching.table, Watching.setTable, Function.update_apply]
  split <;> rfl

@[simp] theorem table_setRemote (entry : Option Entry) (j : Table) :
    (w.setRemote k n entry).table j = w.table j := rfl

theorem remote_setRemote (entry : Option Entry) (j : Table) (m : UInt8) :
    (w.setRemote k n entry).remote j m =
      if j = k ∧ m = n then entry else w.remote j m := by
  by_cases hj : j = k
  · subst hj
    simp only [Watching.setRemote, Function.update_self, Function.update_apply, true_and]
  · simp only [Watching.setRemote, Function.update_of_ne hj, hj, false_and, if_false]

theorem mine_setRemote (entry : Option Entry) (j : Table) (m : UInt8) :
    (w.setRemote k n entry).mine j m =
      if j = k ∧ m = n then (entry.filter (·.ours)).map Entry.command else w.mine j m := by
  rw [Watching.mine, remote_setRemote]
  split <;> rfl

theorem theirs_setRemote (entry : Option Entry) (j : Table) (m : UInt8) :
    (w.setRemote k n entry).theirs j m =
      if j = k ∧ m = n then (entry.filter (!·.ours)).map Entry.command else w.theirs j m := by
  rw [Watching.theirs, remote_setRemote]
  split <;> rfl

/-- An entry is the session's or another's. -/
theorem theirs_eq_none_of_mine {command : Text} (h : w.mine k n = some command) :
    w.theirs k n = none := by
  obtain ⟨entry, hentry, _⟩ := Option.map_eq_some_iff.mp h
  obtain ⟨hremote, hours⟩ := Option.filter_eq_some_iff.mp hentry
  rw [Watching.theirs, hremote, Option.filter_some, if_neg (by simp [hours])]
  rfl

/-! #### The operations -/

theorem keeps_ask {P : Watching → Prop} (reply : Reply) : Keeps P (ask reply) := by
  cases reply with
  | rejected | unsupported => exact triple_throw fun _ => id
  | ok | value n => exact triple_pure fun _ => id

/-- A table that has never been used is empty. -/
theorem keeps_setDefault (k : Table) :
    Keeps InStep (modify fun w => w.setTable k (w.table k) : Action PUnit) := by
  refine triple_modify fun w h => ?_
  have htable (j : Table) : (w.setTable k (w.table k)).table j = w.table j := by
    rw [table_setTable]
    split
    · rename_i hj
      rw [hj]
    · rfl
  exact ⟨fun j n => (congrArg (Keyed.lookup · n) (htable j)).trans (h.agrees j n), h.theirs,
    fun j => (htable j).symm ▸ h.nodup j, h.nodup_saved⟩

/-- The emulator's answer decides whether an entry is added on both sides. -/
theorem outcome_addWatch (k : Table) (command : Text) (reply : Option UInt8) (w : Watching) :
    (∃ n, reply = some n ∧ w.remote k n = none ∧
      (addWatch k command reply).outcome w =
        (.ok ⟨⟩, (w.setRemote k n (some ⟨command, true⟩)).setTable k
          (Keyed.assign (w.table k) n command))) ∨
    (∀ n, reply = some n → w.remote k n ≠ none) ∧
      ∃ e, (addWatch k command reply).outcome w = (.error e, w) := by
  cases reply with
  | none =>
    refine .inr ⟨fun n h => ?_, ⟨"WinUAE rejected the request"⟩, rfl⟩
    cases h
  | some n =>
    by_cases hfree : w.remote k n = none
    · refine .inl ⟨n, rfl, hfree, ?_⟩
      simp only [addWatch, add, outcome_bind, outcome_get, hfree, Option.isSome_none,
        Bool.false_eq_true, if_false, outcome_pure, outcome_modify, table_setRemote]
    · refine .inr ⟨fun m hm => ?_, ⟨"WinUAE rejected the request"⟩, ?_⟩
      · cases hm
        exact hfree
      · have hsome : (w.remote k n).isSome = true := Option.isSome_iff_ne_none.mpr hfree
        simp only [addWatch, add, outcome_bind, outcome_get, hsome, if_true, outcome_throw]

/-- An id that is free is new to the session. -/
theorem keeps_addWatch (k : Table) (command : Text) (reply : Option UInt8) :
    Keeps InStep (addWatch k command reply) := by
  intro w h
  rcases outcome_addWatch k command reply w with ⟨n, -, hfree, hout⟩ | ⟨-, e, hout⟩
  · rw [hout]
    refine ⟨fun j m => ?_, fun j m => ?_, fun j => ?_, h.nodup_saved⟩
    · change _ = (w.setRemote k n (some ⟨command, true⟩)).mine j m
      rw [table_setTable, mine_setRemote]
      by_cases hj : j = k
      · subst hj
        simp only [if_true, true_and, Keyed.lookup_assign]
        split
        · rfl
        · exact h.agrees j m
      · simp only [hj, false_and, if_false]
        exact h.agrees j m
    · change (w.setRemote k n (some ⟨command, true⟩)).theirs j m = w.others j m
      rw [theirs_setRemote]
      split
      · rename_i hjm
        rw [hjm.1, hjm.2, ← h.theirs k n, Watching.theirs, hfree]
        rfl
      · exact h.theirs j m
    · rw [table_setTable]
      split
      · exact Keyed.nodup_keys_assign (h.nodup k)
      · exact h.nodup j
  · rw [hout]
    exact h

/-- An entry that the session owns is its own in the emulator. The others that it owns are still
there. -/
theorem triple_dropWatch {k : Table} {n : UInt8} {ns : List UInt8} (reply : Reply)
    (hn : n ∉ ns) :
    Triple (fun w => InStep w ∧ ∀ m ∈ n :: ns, m ∈ Keyed.keys (w.table k)) (dropWatch k n reply)
      (fun _ w => InStep w ∧ ∀ m ∈ ns, m ∈ Keyed.keys (w.table k)) InStep := by
  refine triple_bind (Q := fun _ w => InStep w ∧ ∀ m ∈ n :: ns, m ∈ Keyed.keys (w.table k))
    ((keeps_ask reply).conseq (fun _ => id) (fun _ _ => id) fun _ hw => hw.1) fun _ =>
    triple_bind (Q := fun _ w' => ∃ w, InStep w ∧ (∀ m ∈ n :: ns, m ∈ Keyed.keys (w.table k)) ∧
      w' = w.setRemote k n none) (triple_modify fun w hw => ⟨w, hw.1, hw.2, rfl⟩) fun _ =>
    triple_modify ?_
  rintro _ ⟨w, h, howned, rfl⟩
  obtain ⟨command, hcommand⟩ := Option.isSome_iff_exists.mp
    (Keyed.lookup_isSome.mpr (howned n List.mem_cons_self))
  have htheirs := theirs_eq_none_of_mine ((h.agrees k n).symm.trans hcommand)
  refine ⟨⟨fun j m => ?_, fun j m => ?_, fun j => ?_, h.nodup_saved⟩, fun m hm => ?_⟩
  · change _ = (w.setRemote k n none).mine j m
    rw [table_setTable, mine_setRemote]
    by_cases hj : j = k
    · subst hj
      simp only [if_true, true_and, table_setRemote, Keyed.lookup_filter_ne]
      split
      · rfl
      · exact h.agrees j m
    · simp only [hj, false_and, if_false]
      exact h.agrees j m
  · change (w.setRemote k n none).theirs j m = w.others j m
    rw [theirs_setRemote]
    split
    · rename_i hjm
      rw [hjm.1, hjm.2, ← h.theirs k n, htheirs]
      rfl
    · exact h.theirs j m
  · rw [table_setTable]
    split
    · exact ((List.filter_sublist).map _).nodup (h.nodup k)
    · exact h.nodup j
  · rw [table_setTable, if_pos rfl, ← Keyed.lookup_isSome, Keyed.lookup_filter_ne,
      if_neg fun heq : m = n => hn (heq ▸ hm)]
    exact Keyed.lookup_isSome.mpr (howned m (List.mem_cons_of_mem n hm))

theorem keeps_removeWatch (k : Table) (id : Option Val) (message : String) (reply : Reply) :
    Keeps InStep (removeWatch k id message reply) := by
  refine triple_bind (Q := fun _ => InStep) (triple_liftExcept (fun _ _ _ h => h) fun _ h => h)
    fun number => triple_bind (Q := fun _ => InStep) (keeps_setDefault k) fun _ => ?_
  refine triple_bind (Q := fun w' w => w' = w ∧ InStep w) (triple_get fun w h => ⟨rfl, h⟩)
    fun w' => ?_
  dsimp only
  split
  · exact triple_bind (Q := fun _ _ => False) (triple_throw fun _ h => h.2) fun _ _ h => h.elim
  · rename_i howned
    refine (triple_dropWatch reply (@List.not_mem_nil UInt8 _)).conseq ?_ (fun _ _ h => h.1)
      fun _ h => h
    rintro w ⟨rfl, h⟩
    refine ⟨h, fun m hm => ?_⟩
    rw [List.mem_singleton.mp hm, ← Keyed.lookup_isSome, Option.isSome_iff_ne_none]
    exact fun hnone => howned (by rw [hnone]; rfl)

theorem keeps_clearWatches (ns : List UInt8) (hnodup : ns.Nodup) (replies : Nat → Reply) :
    Triple (fun w => InStep w ∧ ∀ m ∈ ns, m ∈ Keyed.keys (w.table .watches))
      (clearWatches ns replies) (fun _ => InStep) InStep := by
  induction ns generalizing replies with
  | nil => exact triple_pure fun _ h => h.1
  | cons n ns ih =>
    obtain ⟨hn, hnodup⟩ := List.nodup_cons.mp hnodup
    exact triple_bind (triple_dropWatch (replies 0) hn) fun _ => ih hnodup _

/-- `watch` keeps the tables in step, whichever request is refused. -/
theorem keeps_watch (hasRange : Bool) (args : Arguments) (replies : Nat → Reply)
    (added : Option UInt8) : Keeps InStep (Watches.watch hasRange args replies added) := by
  unfold Watches.watch
  split
  · exact keeps_ask _
  split
  · exact keeps_removeWatch _ _ _ _
  split
  · refine triple_bind (Q := fun _ => InStep) (keeps_setDefault .watches) fun _ =>
      triple_bind (Q := fun w' w => w' = w ∧ InStep w) (triple_get fun w h => ⟨rfl, h⟩)
        fun w' => ?_
    refine triple_bind (Q := fun _ => InStep) ?_ fun _ =>
      triple_bind (Q := fun _ => InStep) (triple_get fun _ h => h) fun _ =>
        keeps_onSession (fun _ s => inStep_session s) _
    by_cases hnodup : (Keyed.keys (w'.table .watches)).Nodup
    · refine (keeps_clearWatches _ hnodup _).conseq ?_ (fun _ _ h => h) fun _ h => h
      rintro w ⟨rfl, h⟩
      exact ⟨h, fun m hm => hm⟩
    · rintro w ⟨rfl, h⟩
      exact absurd (h.nodup .watches) hnodup
  split
  · exact triple_throw fun _ => id
  refine triple_bind (Q := fun _ => InStep) (triple_liftExcept (fun _ _ _ h => h) fun _ h => h)
    fun request => ?_
  cases request with
  | monitor command => exact keeps_addWatch _ _ _
  | point key => exact keeps_onSession (fun _ s => inStep_session s) _

theorem keeps_dmaWatch (args : DmaArguments) (replies : Nat → Reply) (added : Option UInt8) :
    Keeps InStep (Watches.dmaWatch args replies added) := by
  refine triple_bind (Q := fun _ => InStep) (keeps_setDefault .dmaWatches) fun _ => ?_
  split
  · exact keeps_ask _
  split
  · exact triple_bind (Q := fun _ => InStep) (keeps_removeWatch _ _ _ _) fun _ => keeps_ask _
  split
  · exact triple_throw fun _ => id
  · exact triple_bind (Q := fun _ => InStep)
      (triple_liftExcept (fun _ _ _ h => h) fun _ h => h) fun _ => keeps_addWatch _ _ _

theorem keeps_condition (args : ConditionArguments) (reply : Reply) (added : Option UInt8) :
    Keeps InStep (Watches.condition args reply added) := by
  refine triple_bind (Q := fun _ => InStep) (keeps_setDefault .conditions) fun _ => ?_
  split
  · exact keeps_ask _
  split
  · exact keeps_removeWatch _ _ _ _
  split
  · exact triple_throw fun _ => id
  · exact triple_bind (Q := fun _ => InStep)
      (triple_liftExcept (fun _ _ _ h => h) fun _ h => h) fun _ => keeps_addWatch _ _ _

end Watching

/-! ### Taking everything back -/

/-- The emulator accepts all commands of a table. -/
def Accepted : (UInt8 → Option Entry) → List Text → (Nat → Option UInt8) → Prop
  | _, [], _ => True
  | remote, command :: commands, replies =>
    match replies 0 with
    | some n => remote n = none ∧
        Accepted (Function.update remote n (some ⟨command, true⟩)) commands fun i => replies (i + 1)
    | none => False

/-- The hook gets as far as a table: the emulator accepts all commands of the tables before it. -/
def Reached (remote : Table → UInt8 → Option Entry) (table : Table → Owned) :
    List Table → (Nat → Option UInt8) → Table → Prop
  | [], _, _ => False
  | k :: ks, replies, j =>
    j = k ∨ Accepted (remote k) ((table k).map (·.2)) replies ∧
      Reached remote table ks (fun i => replies (i + (table k).length)) j

/-- The points, the exception mask and what the other hooks ask for are accepted. -/
def PointsTaken (points : List Point) (inserts : Nat → Reply) (rest : List Reply) : Prop :=
  (∀ i < points.length, inserts i = .ok) ∧
    ∀ reply ∈ rest, reply ≠ .rejected ∧ reply ≠ .unsupported

/-- The entries of a table are those that were there and those that the session has. -/
structure Over (base : UInt8 → Option Entry) (k : Table) (w : Watching) : Prop where
  nodup : (Keyed.keys (w.table k)).Nodup
  split n : (∃ command, Keyed.lookup (w.table k) n = some command ∧
      w.remote k n = some ⟨command, true⟩ ∧ base n = none) ∨
    Keyed.lookup (w.table k) n = none ∧ w.remote k n = base n

/-- Only one table changes. -/
structure Frame (k : Table) (w w' : Watching) : Prop where
  session : w'.session = w.session
  saved : w'.saved = w.saved
  others : w'.others = w.others
  owned j (h : j ≠ k) : w'.owned j = w.owned j
  remote j (h : j ≠ k) : w'.remote j = w.remote j

theorem Frame.refl (k : Table) (w : Watching) : Frame k w w :=
  ⟨rfl, rfl, rfl, fun _ _ => rfl, fun _ _ => rfl⟩

theorem Frame.trans {k : Table} {w w' w'' : Watching} (h : Frame k w w') (h' : Frame k w' w'') :
    Frame k w w'' :=
  ⟨h'.session.trans h.session, h'.saved.trans h.saved, h'.others.trans h.others,
    fun j hj => (h'.owned j hj).trans (h.owned j hj),
    fun j hj => (h'.remote j hj).trans (h.remote j hj)⟩

theorem Over.added {base : UInt8 → Option Entry} {k : Table} {w : Watching} {n : UInt8}
    (h : Over base k w) (hfree : w.remote k n = none) (command : Text) :
    Over base k ((w.setRemote k n (some ⟨command, true⟩)).setTable k
      (Keyed.assign (w.table k) n command)) := by
  refine ⟨?_, fun m => ?_⟩
  · rw [table_setTable, if_pos rfl]
    exact Keyed.nodup_keys_assign h.nodup
  · change (∃ command', Keyed.lookup (Watching.table _ k) m = some command' ∧
        (w.setRemote k n (some ⟨command, true⟩)).remote k m = some ⟨command', true⟩ ∧ _) ∨
      _ ∧ (w.setRemote k n (some ⟨command, true⟩)).remote k m = base m
    rw [table_setTable, if_pos rfl, Keyed.lookup_assign, remote_setRemote]
    by_cases hm : m = n
    · subst hm
      refine .inl ⟨command, by rw [if_pos rfl], by rw [if_pos ⟨rfl, rfl⟩], ?_⟩
      rcases h.split m with ⟨old, _, hremote, _⟩ | ⟨_, hremote⟩
      · cases hfree.symm.trans hremote
      · exact hremote.symm.trans hfree
    · simp only [hm, if_false, and_false]
      exact h.split m

/-- The commands of a table are added up to the first that is refused. -/
theorem rearmTable_spec (k : Table) (commands : List Text) :
    ∀ (replies : Nat → Option UInt8) (w : Watching) (base : UInt8 → Option Entry), Over base k w →
      ∃ r w', (rearmTable k commands replies).outcome w = (r, w') ∧ Over base k w' ∧
        Frame k w w' ∧ (Returns r ↔ Accepted (w.remote k) commands replies) := by
  induction commands with
  | nil =>
    intro replies w base h
    exact ⟨_, w, rfl, h, .refl k w, iff_of_true (returns_ok _) trivial⟩
  | cons command commands ih =>
    intro replies w base h
    rw [rearmTable, outcome_bind]
    rcases outcome_addWatch k command (replies 0) w with ⟨n, hreply, hfree, hout⟩ | ⟨hno, e, hout⟩
    · obtain ⟨r, w', hrest, hover, hframe, hreturns⟩ := ih (fun i => replies (i + 1)) _ base
        (h.added hfree command)
      have hadded : Frame k w ((w.setRemote k n (some ⟨command, true⟩)).setTable k
          (Keyed.assign (w.table k) n command)) :=
        ⟨rfl, rfl, rfl, fun j hj => Function.update_of_ne hj .., fun j hj =>
          Function.update_of_ne hj ..⟩
      rw [hout]
      refine ⟨r, w', hrest, hover, hadded.trans hframe, ?_⟩
      · rw [hreturns]
        simp only [Accepted, hreply, hfree, true_and]
        exact iff_of_eq (congrArg (Accepted · commands _) (Function.update_self ..))
    · rw [hout]
      refine ⟨_, w, rfl, h, .refl k w, iff_of_false (not_returns_error e) fun haccepted => ?_⟩
      cases hreply : replies 0 with
      | none => simp only [Accepted, hreply] at haccepted
      | some n =>
        simp only [Accepted, hreply] at haccepted
        exact hno n hreply haccepted.1

/-- A table that was taken back is right if the session had nothing in the emulator. -/
theorem Over.agrees_iff {k : Table} {w w' : Watching} (h : Over (w.remote k) k w') :
    Agrees w' k ↔ ∀ n, w.mine k n = none := by
  constructor
  · intro hagrees n
    rcases h.split n with ⟨command, _, _, hbase⟩ | ⟨hlookup, hremote⟩
    · rw [Watching.mine, hbase]
      rfl
    · rw [Watching.mine, ← hremote]
      exact (hagrees n).symm.trans hlookup
  · intro hnone n
    rcases h.split n with ⟨command, hlookup, hremote, _⟩ | ⟨hlookup, hremote⟩
    · rw [hlookup, Watching.mine, hremote]
      rfl
    · rw [hlookup, Watching.mine, hremote]
      exact (hnone n).symm

theorem Over.theirs {k : Table} {w w' : Watching} (h : Over (w.remote k) k w') (n : UInt8) :
    w'.theirs k n = w.theirs k n := by
  rcases h.split n with ⟨command, _, hremote, hbase⟩ | ⟨_, hremote⟩
  · rw [Watching.theirs, Watching.theirs, hremote, hbase]
    rfl
  · rw [Watching.theirs, Watching.theirs, hremote]

theorem mem_of_reached {remote : Table → UInt8 → Option Entry} {table : Table → Owned}
    {ks : List Table} : ∀ {replies : Nat → Option UInt8} {k : Table},
      Reached remote table ks replies k → k ∈ ks := by
  induction ks with
  | nil => exact fun h => h.elim
  | cons j ks ih =>
    rintro replies k (rfl | ⟨_, h⟩)
    · exact List.mem_cons_self
    · exact List.mem_cons_of_mem j (ih h)

/-- Only the tables of the list matter. -/
theorem reached_congr {remote remote' : Table → UInt8 → Option Entry} {table table' : Table → Owned}
    {ks : List Table} (hsame : ∀ j ∈ ks, remote' j = remote j ∧ table' j = table j) (k : Table) :
    ∀ replies, Reached remote' table' ks replies k ↔ Reached remote table ks replies k := by
  induction ks with
  | nil => exact fun _ => Iff.rfl
  | cons j ks ih =>
    intro replies
    obtain ⟨hremote, htable⟩ := hsame j List.mem_cons_self
    simp only [Reached, hremote, htable, ih fun i hi => hsame i (List.mem_cons_of_mem j hi)]

/-- The hook behind the tables that it has reached. -/
structure Rearmed (w w' : Watching) (reached : Table → Prop) : Prop where
  session : w'.session = w.session
  saved : w'.saved = w.saved
  others : w'.others = w.others
  nodup k : (Keyed.keys (w'.table k)).Nodup
  theirs k n : w'.theirs k n = w.theirs k n
  agrees k (h : reached k) : Agrees w' k ↔ ∀ n, w.mine k n = none
  unreached k (h : ¬ reached k) : Agrees w' k ↔ Agrees w k

/-- The table behind the one that is taken back. -/
theorem Frame.table {k j : Table} {w w' : Watching} (h : Frame k w w') (hj : j ≠ k) :
    w'.table j = w.table j := by
  rw [Watching.table, h.owned j hj]
  rfl

theorem Frame.agrees {k j : Table} {w w' : Watching} (h : Frame k w w') (hj : j ≠ k) :
    Agrees w' j ↔ Agrees w j := by
  simp only [Agrees, h.table hj, Watching.mine, h.remote j hj]

/-- The tables are taken back one after the other, up to the first command that is refused. -/
theorem rearmTables_spec {ks : List Table} (hks : ks.Nodup) :
    ∀ (replies : Nat → Option UInt8) (w : Watching), (∀ k, (Keyed.keys (w.table k)).Nodup) →
      Rearmed w ((rearmTables ks replies).outcome w).2 (Reached w.remote w.table ks replies) := by
  induction ks with
  | nil =>
    intro replies w hnodup
    exact ⟨rfl, rfl, rfl, hnodup, fun _ _ => rfl, fun k h => h.elim, fun _ _ => Iff.rfl⟩
  | cons k ks ih =>
    intro replies w hnodup
    obtain ⟨hk, hks⟩ := List.nodup_cons.mp hks
    have hforgotten : Frame k w (w.setTable k []) :=
      ⟨rfl, rfl, rfl, fun j hj => Function.update_of_ne hj .., fun _ _ => rfl⟩
    have hstart : Over (w.remote k) k (w.setTable k []) := by
      refine ⟨?_, fun n => .inr ⟨?_, rfl⟩⟩
      · rw [table_setTable, if_pos rfl]
        exact List.nodup_nil
      · rw [table_setTable, if_pos rfl]
        rfl
    obtain ⟨r, w', hout, hover, hframe, hreturns⟩ :=
      rearmTable_spec k ((w.table k).map (·.2)) replies _ _ hstart
    replace hframe := hforgotten.trans hframe
    have hnodup' (j : Table) : (Keyed.keys (w'.table j)).Nodup := by
      by_cases hj : j = k
      · rw [hj]
        exact hover.nodup
      · rw [hframe.table hj]
        exact hnodup j
    have htheirs (j : Table) (n : UInt8) : w'.theirs j n = w.theirs j n := by
      by_cases hj : j = k
      · rw [hj]
        exact hover.theirs n
      · rw [Watching.theirs, hframe.remote j hj]
        rfl
    simp only [rearmTables, outcome_bind, outcome_get, outcome_modify, hout]
    cases r with
    | error e =>
      have hrefused : ¬ Accepted (w.remote k) ((w.table k).map (·.2)) replies :=
        fun h => not_returns_error e (hreturns.mpr h)
      refine ⟨hframe.session, hframe.saved, hframe.others, hnodup', htheirs, fun j hj => ?_,
        fun j hj => ?_⟩
      · rcases hj with rfl | ⟨haccepted, _⟩
        · exact hover.agrees_iff
        · exact absurd haccepted hrefused
      · exact hframe.agrees fun heq => hj (.inl heq)
    | ok a =>
      have haccepted := hreturns.mp (returns_ok a)
      have hrest := ih hks (fun i => replies (i + (w.table k).length)) w' hnodup'
      have hsame : ∀ j ∈ ks, w'.remote j = w.remote j ∧ w'.table j = w.table j := fun j hj =>
        ⟨hframe.remote j fun heq => hk (heq ▸ hj), hframe.table fun heq => hk (heq ▸ hj)⟩
      have hreached (j : Table) := reached_congr hsame j fun i => replies (i + (w.table k).length)
      refine ⟨hrest.session.trans hframe.session, hrest.saved.trans hframe.saved,
        hrest.others.trans hframe.others, hrest.nodup,
        fun j n => (hrest.theirs j n).trans (htheirs j n), fun j hj => ?_, fun j hj => ?_⟩
      · by_cases hjk : j = k
        · subst hjk
          have hpassed := hrest.unreached j fun h => hk (mem_of_reached h)
          exact hpassed.trans hover.agrees_iff
        · have hlater := (hreached j).mpr (hj.resolve_left hjk).2
          refine (hrest.agrees j hlater).trans (forall_congr' fun n => ?_)
          rw [Watching.mine, hframe.remote j hjk]
          rfl
      · have hjk : j ≠ k := fun heq => hj (.inl heq)
        have hlater : ¬ Reached w'.remote w'.table ks _ j :=
          fun h => hj (.inr ⟨haccepted, (hreached j).mp h⟩)
        exact (hrest.unreached j hlater).trans (hframe.agrees hjk)

/-! ### The points before the tables -/

/-- Where what follows returns or not whatever is returned, the two stages separate. -/
theorem returns_outcome_bind {α β : Type} {x : Winuae.Action α} {f : α → Winuae.Action β}
    {s : Session} {p : Prop} (hf : ∀ a s', Returns ((f a).outcome s').1 ↔ p) :
    Returns ((x >>= f).outcome s).1 ↔ Returns (x.outcome s).1 ∧ p := by
  rw [outcome_bind]
  rcases x.outcome s with ⟨r, s'⟩
  cases r with
  | ok a => exact (hf a s').trans (iff_and_self.mpr fun _ => returns_ok a)
  | error e => exact iff_of_false (not_returns_error e) fun h => not_returns_error e h.1

theorem returns_request_iff {command : Command} {reply : Reply} {s : Session} :
    Returns ((Winuae.request command reply).outcome s).1 ↔
      reply ≠ .rejected ∧ reply ≠ .unsupported := by
  cases reply with
  | rejected => exact iff_of_false (not_returns_error (α := Reply) _) fun h => h.1 rfl
  | unsupported => exact iff_of_false (not_returns_error (α := Reply) _) fun h => h.2 rfl
  | ok => exact iff_of_true (returns_ok (ε := DebugError) Reply.ok) ⟨by simp, by simp⟩
  | value n =>
    exact iff_of_true (returns_ok (ε := DebugError) (Reply.value n)) ⟨by simp, by simp⟩

theorem returns_ok_iff {command : Command} {reply : Reply} {s : Session} :
    Returns ((ok command reply).outcome s).1 ↔ reply = .ok := by
  cases reply with
  | ok => exact iff_of_true (returns_ok (ε := DebugError) PUnit.unit) rfl
  | rejected | unsupported | value n =>
    exact iff_of_false (not_returns_error (α := PUnit) _) (by simp)

theorem returns_rearmPoints_iff (points : List Point) : ∀ (inserts : Nat → Reply) (s : Session),
    Returns ((rearmPoints points inserts).outcome s).1 ↔ ∀ i < points.length, inserts i = .ok := by
  induction points with
  | nil => exact fun _ _ => iff_of_true (returns_ok _) fun i hi => absurd hi (Nat.not_lt_zero i)
  | cons point points ih =>
    intro inserts s
    have hrest (a : PUnit) (s' : Session) :
        Returns ((do
          modify (·.setPoint point)
          rearmPoints points (later inserts) : Winuae.Action PUnit).outcome s').1 ↔
          ∀ i < points.length, inserts (i + 1) = .ok := by
      rw [outcome_bind, outcome_modify]
      exact ih (later inserts) _
    rw [rearmPoints, returns_outcome_bind hrest, returns_ok_iff, List.length_cons]
    constructor
    · rintro ⟨hfirst, hlater⟩ i hi
      cases i with
      | zero => exact hfirst
      | succ i => exact hlater i (Nat.lt_of_succ_lt_succ hi)
    · exact fun h => ⟨h 0 (Nat.succ_pos _), fun i hi => h (i + 1) (Nat.succ_lt_succ hi)⟩

theorem returns_rearmRest_iff (rest : List Reply) : ∀ s : Session,
    Returns ((rearmRest rest).outcome s).1 ↔
      ∀ reply ∈ rest, reply ≠ .rejected ∧ reply ≠ .unsupported := by
  induction rest with
  | nil => exact fun _ => iff_of_true (returns_ok _) fun reply h => absurd h List.not_mem_nil
  | cons reply rest ih =>
    intro s
    have hdiscard : Returns ((discard (Winuae.request .monitor reply)).outcome s).1 ↔
        reply ≠ .rejected ∧ reply ≠ .unsupported := by
      refine (returns_outcome_bind (p := True) fun a s' => ?_).trans ?_
      · exact iff_of_true (returns_ok _) trivial
      · rw [and_true, returns_request_iff]
    rw [rearmRest, returns_outcome_bind fun _ => ih, hdiscard, List.forall_mem_cons]

/-- The points come before the tables, and the first refusal ends all. -/
theorem returns_rearm_iff (inserts : Nat → Reply) (rest : List Reply) (s : Session) :
    Returns ((rearm inserts rest).outcome s).1 ↔ PointsTaken s.points inserts rest := by
  rw [rearm, outcome_bind, outcome_get]
  change Returns ((modify _ >>= fun _ => _ : Winuae.Action PUnit).outcome s).1 ↔ _
  rw [outcome_bind, outcome_modify]
  exact (returns_outcome_bind fun _ => returns_rearmRest_iff rest).trans
    (and_congr_left' (returns_rearmPoints_iff _ _ _))

/-! ### Steps -/

/-- When an operation leaves the tables in step. What a restored state has cleared must all be
taken back, or be nothing; behind a reset, a table that is taken back must have had nothing added
since, and another must have the entries that the reset had saved; and the other debuggers leave the
session's entries alone. -/
def Permitted (w : Watching) : Label → Prop
  | .restore isFile restored inserts rest replies _ =>
    isFile = true → restored ≠ .rejected → restored ≠ .unsupported → ∀ k, w.table k ≠ [] →
      PointsTaken w.session.points inserts rest ∧
        Reached (fun _ _ => none) w.table tables replies k
  | .reconnected inserts rest replies =>
    ∀ saved ∈ w.saved, ∀ k,
      let w' := w.update saved.1 saved.2
      let reached := PointsTaken w'.session.points inserts rest ∧
        Reached w.remote w'.table tables replies k
      (reached → w.table k = []) ∧
        (¬ reached → ∀ n, Keyed.lookup (w'.table k) n = Keyed.lookup (w.table k) n)
  | .otherRemoves k n => w.mine k n = none
  | _ => True

theorem inStep_session_iff {w : Watching} {s : Session} :
    InStep { w with session := s } ↔ InStep w :=
  ⟨fun h => ⟨h.agrees, h.theirs, h.nodup, h.nodup_saved⟩, inStep_session s⟩

theorem eq_nil_iff_lookup {d : Owned} : d = [] ↔ ∀ n, Keyed.lookup d n = none := by
  constructor
  · rintro rfl n
    rfl
  · intro h
    cases d with
    | nil => rfl
    | cons e d =>
      have hmem : e.1 ∈ Keyed.keys (e :: d) := List.mem_cons_self
      exact absurd hmem (Keyed.lookup_eq_none.mp (h e.1))

/-- The state behind the points and the tables. -/
theorem inStep_rearm_iff (inserts : Nat → Reply) (rest : List Reply)
    (replies : Nat → Option UInt8) (w : Watching) (hnodup : ∀ k, (Keyed.keys (w.table k)).Nodup)
    (hsaved : ∀ saved ∈ w.saved, ∀ k, (Keyed.keys ((saved.2 k).getD [])).Nodup)
    (htheirs : ∀ k n, w.theirs k n = w.others k n) :
    InStep ((do
        onSession (rearm inserts rest)
        rearmTables tables replies : Action PUnit).outcome w).2 ↔
      ∀ k, let reached := PointsTaken w.session.points inserts rest ∧
          Reached w.remote w.table tables replies k
        (reached → ∀ n, w.mine k n = none) ∧ (¬ reached → Agrees w k) := by
  rw [outcome_bind, outcome_onSession]
  have hreturns := returns_rearm_iff inserts rest w.session
  rcases houtcome : (rearm inserts rest).outcome w.session with ⟨r, s⟩
  rw [houtcome] at hreturns
  cases r with
  | error e =>
    have hrefused : ¬ PointsTaken w.session.points inserts rest :=
      fun h => not_returns_error e (hreturns.mpr h)
    refine inStep_session_iff.trans ⟨fun h k => ⟨fun hreached => absurd hreached.1 hrefused,
      fun _ => h.agrees k⟩, fun h => ⟨fun k => (h k).2 fun hreached => hrefused hreached.1, htheirs,
      hnodup, hsaved⟩⟩
  | ok a =>
    have htaken := hreturns.mp (returns_ok a)
    have hrearmed := rearmTables_spec (show tables.Nodup by decide) replies
      { w with session := s } hnodup
    constructor
    · intro h k
      refine ⟨fun hreached => (hrearmed.agrees k hreached.2).mp (h.agrees k), fun hpassed => ?_⟩
      exact (hrearmed.unreached k fun hreached => hpassed ⟨htaken, hreached⟩).mp (h.agrees k)
    · intro h
      refine ⟨fun k => ?_, fun k n => ?_, hrearmed.nodup, fun saved hmem => ?_⟩
      · by_cases hreached : Reached w.remote w.table tables replies k
        · exact (hrearmed.agrees k hreached).mpr ((h k).1 ⟨htaken, hreached⟩)
        · exact (hrearmed.unreached k hreached).mpr ((h k).2 fun h' => hreached h'.2)
      · rw [hrearmed.theirs k n, hrearmed.others]
        exact htheirs k n
      · rw [hrearmed.saved] at hmem
        exact hsaved saved hmem

/-- What is done to the points at the end does not matter to the tables. -/
theorem inStep_bind_onSession {x : Action PUnit} {y : Winuae.Action PUnit} {w : Watching} :
    InStep ((x >>= fun _ => onSession y).outcome w).2 ↔ InStep (x.outcome w).2 := by
  rw [outcome_bind]
  rcases x.outcome w with ⟨r, w'⟩
  cases r with
  | ok a =>
    dsimp only
    rw [outcome_onSession]
    exact inStep_session_iff
  | error e => exact Iff.rfl

/-- The request to restore is refused, or the target has no points behind it. -/
theorem outcome_requestRestore (restored : Reply) (s : Session) :
    (restored = .rejected ∨ restored = .unsupported) ∧
      (∃ e, (discard (Winuae.request .restore restored)).outcome s = (.error e, s)) ∨
    (restored ≠ .rejected ∧ restored ≠ .unsupported) ∧
      (discard (Winuae.request .restore restored)).outcome s = (.ok ⟨⟩, { s with armed := ∅ }) := by
  cases restored with
  | rejected => exact .inl ⟨.inl rfl, _, rfl⟩
  | unsupported => exact .inl ⟨.inr rfl, _, rfl⟩
  | ok => exact .inr ⟨⟨by simp, by simp⟩, rfl⟩
  | value n => exact .inr ⟨⟨by simp, by simp⟩, rfl⟩

theorem mine_closed (w : Watching) (k : Table) (n : UInt8) : w.closed.mine k n = none := by
  change (((w.remote k n).filter (!·.ours)).filter (·.ours)).map Entry.command = none
  rw [Option.filter_filter]
  simp

theorem theirs_closed (w : Watching) (k : Table) (n : UInt8) :
    w.closed.theirs k n = w.theirs k n := by
  change (((w.remote k n).filter (!·.ours)).filter (!·.ours)).map Entry.command = _
  rw [Option.filter_filter]
  simp only [Bool.and_self]
  rfl

/-- A closed connection leaves nothing of the session. -/
theorem inStep_closed {w : Watching} (h : InStep w) : InStep w.closed :=
  ⟨fun k n => (mine_closed w k n).symm, fun k n => (theirs_closed w k n).trans (h.theirs k n),
    fun _ => List.nodup_nil, h.nodup_saved⟩

/-- A restored state clears the emulator, so that what is not taken back must be nothing. -/
theorem inStep_restore_iff {w : Watching} (h : InStep w) (isFile : Bool) (restored : Reply)
    (inserts : Nat → Reply) (rest : List Reply) (replies : Nat → Option UInt8)
    (registers : Reply) :
    InStep ((Watches.restore isFile restored inserts rest replies registers).outcome w).2 ↔
      Permitted w (.restore isFile restored inserts rest replies registers) := by
  cases isFile with
  | false => exact iff_of_true h fun hfile => by cases hfile
  | true =>
    change InStep ((onSession (discard (Winuae.request .restore restored)) >>= fun _ => _ :
      Action PUnit).outcome w).2 ↔ _
    rw [outcome_bind, outcome_onSession]
    rcases outcome_requestRestore restored w.session with
      ⟨hrefused, e, houtcome⟩ | ⟨⟨hrejected, hunsupported⟩, houtcome⟩
    · rw [houtcome]
      refine iff_of_true (inStep_session _ h) fun _ hrejected hunsupported => ?_
      rcases hrefused with hrefused | hrefused
      · exact absurd hrefused hrejected
      · exact absurd hrefused hunsupported
    · rw [houtcome]
      dsimp only
      rw [outcome_bind, outcome_modify]
      dsimp only
      have hsame (w' : Watching) :
          (onSession (do
            modify fun s => { s with lastStop := none }
            rearm inserts rest)).outcome w' =
          (onSession (rearm inserts rest)).outcome
            { w' with session := { w'.session with lastStop := none } } := by
        rw [outcome_onSession, outcome_onSession, outcome_bind, outcome_modify]
      rw [← bind_assoc, inStep_bind_onSession, outcome_bind, hsame, ← outcome_bind]
      -- The emulator is empty, so a table that is passed over has to be empty as well.
      refine (inStep_rearm_iff inserts rest replies _ ?_ ?_ ?_).trans ?_
      · exact h.nodup
      · exact h.nodup_saved
      · exact fun k n => rfl
      constructor
      · intro hall _ _ _ k hk
        by_contra hpassed
        exact hk (eq_nil_iff_lookup.mpr fun n => (hall k).2 hpassed n)
      · intro hpermitted k
        refine ⟨fun _ _ => rfl, fun hpassed => ?_⟩
        by_contra hagrees
        refine hpassed (hpermitted rfl hrejected hunsupported k fun hnil => hagrees ?_)
        exact eq_nil_iff_lookup.mp hnil

/-- The session before the tables are taken back after a reset. -/
theorem table_update (w : Watching) (points : List Point) (owned : Table → Option Owned)
    (k : Table) : (w.update points owned).table k = (owned k).getD (w.table k) := by
  change (owned k <|> w.owned k).getD [] = _
  cases owned k with
  | none => rfl
  | some d => rfl

theorem inStep_reconnected_iff {w w' : Watching} (h : InStep w) (inserts : Nat → Reply)
    (rest : List Reply) (replies : Nat → Option UInt8) (symbols : Text → Option Nat)
    (hstep : w.step symbols (.reconnected inserts rest replies) = some w') :
    InStep w' ↔ Permitted w (.reconnected inserts rest replies) := by
  obtain ⟨saved, hsaved, rfl⟩ := Option.map_eq_some_iff.mp hstep
  have hnodup (k : Table) : (Keyed.keys ((w.update saved.1 saved.2).table k)).Nodup := by
    rw [table_update]
    cases hk : saved.2 k with
    | none => exact h.nodup k
    | some d =>
      have hd := h.nodup_saved saved hsaved k
      rwa [hk] at hd
  refine (inStep_rearm_iff inserts rest replies _ hnodup (fun _ hmem => by cases hmem)
    h.theirs).trans ?_
  have hmine (k : Table) : (∀ n, (w.update saved.1 saved.2).mine k n = none) ↔ w.table k = [] := by
    rw [eq_nil_iff_lookup]
    exact forall_congr' fun n => by rw [h.agrees k n]; rfl
  have hagrees (k : Table) : Agrees (w.update saved.1 saved.2) k ↔
      ∀ n, Keyed.lookup ((w.update saved.1 saved.2).table k) n = Keyed.lookup (w.table k) n := by
    refine forall_congr' fun n => ?_
    rw [h.agrees k n]
    rfl
  simp only [Permitted, hsaved, Option.mem_def, Option.some.injEq, forall_eq', hmine, hagrees]
  exact Iff.rfl

theorem update_others (others : Table → UInt8 → Option Text) (k j : Table) (n m : UInt8)
    (command : Option Text) :
    Function.update others k (Function.update (others k) n command) j m =
      if j = k ∧ m = n then command else others j m := by
  by_cases hj : j = k
  · subst hj
    simp only [Function.update_self, Function.update_apply, true_and]
  · simp only [Function.update_of_ne hj, hj, false_and, if_false]

/-- Each step leaves the tables in step exactly if it is permitted. -/
theorem inStep_step_iff {symbols : Text → Option Nat} {w w' : Watching} {label : Label}
    (h : InStep w) (hstep : w.step symbols label = some w') :
    InStep w' ↔ Permitted w label := by
  have hkeeps {x : Action PUnit} (hx : Keeps InStep x) : InStep (x.outcome w).2 := by
    have hexit := hx w h
    revert hexit
    rcases x.outcome w with ⟨r, t⟩
    cases r with
    | ok a => exact id
    | error e => exact id
  cases label with
  | breakpoints op =>
    cases op with
    | restore | rearm => cases hstep
    | breakpoint | stop | save =>
      cases hstep
      exact iff_of_true (hkeeps (keeps_onSession (fun _ s => inStep_session s) _)) trivial
  | watch hasRange args replies added =>
    cases hstep
    exact iff_of_true (hkeeps (keeps_watch hasRange args replies added)) trivial
  | dmaWatch args replies added =>
    cases hstep
    exact iff_of_true (hkeeps (keeps_dmaWatch args replies added)) trivial
  | condition args reply added =>
    cases hstep
    exact iff_of_true (hkeeps (keeps_condition args reply added)) trivial
  | restore isFile restored inserts rest replies registers =>
    cases hstep
    exact inStep_restore_iff h isFile restored inserts rest replies registers
  | disconnect =>
    cases hstep
    exact iff_of_true (inStep_closed h) trivial
  | reset =>
    obtain ⟨_, hnext⟩ := Option.ite_none_right_eq_some.mp hstep
    cases hnext
    have hclosed := inStep_closed h
    refine iff_of_true ⟨hclosed.agrees, hclosed.theirs, hclosed.nodup, ?_⟩ trivial
    rintro saved hsaved k
    cases hsaved
    exact h.nodup k
  | reconnected inserts rest replies =>
    exact inStep_reconnected_iff h inserts rest replies symbols hstep
  | resetFails =>
    cases hstep
    exact iff_of_true ⟨h.agrees, h.theirs, h.nodup, fun _ hsaved => by cases hsaved⟩ trivial
  | otherAdds k n command =>
    obtain ⟨hfree, hnext⟩ := Option.ite_none_right_eq_some.mp hstep
    cases hnext
    have hfree : w.remote k n = none := Option.isNone_iff_eq_none.mp hfree
    refine iff_of_true ⟨fun j m => ?_, fun j m => ?_, h.nodup, h.nodup_saved⟩ trivial
    · change _ = (w.setRemote k n (some ⟨command, false⟩)).mine j m
      rw [mine_setRemote]
      split
      · rename_i hjm
        refine (h.agrees j m).trans ?_
        rw [hjm.1, hjm.2, Watching.mine, hfree]
        rfl
      · exact h.agrees j m
    · change (w.setRemote k n (some ⟨command, false⟩)).theirs j m = _
      refine (theirs_setRemote ..).trans (.trans ?_ (update_others w.others k j n m _).symm)
      rw [h.theirs j m]
      rfl
  | otherRemoves k n =>
    obtain ⟨_, hnext⟩ := Option.ite_none_right_eq_some.mp hstep
    cases hnext
    have hagrees : (∀ j, Agrees (w.setRemote k n none) j) ↔ w.mine k n = none := by
      constructor
      · intro hall
        have hgone := hall k n
        rw [mine_setRemote, if_pos ⟨rfl, rfl⟩] at hgone
        exact (h.agrees k n).symm.trans hgone
      · intro hnone j m
        rw [mine_setRemote]
        split
        · rename_i hjm
          rw [hjm.1, hjm.2]
          exact (h.agrees k n).trans hnone
        · exact h.agrees j m
    refine ⟨fun h' => hagrees.mp h'.agrees, fun hpermitted => ?_⟩
    refine ⟨hagrees.mpr hpermitted, fun j m => ?_, h.nodup, h.nodup_saved⟩
    change (w.setRemote k n none).theirs j m = _
    refine (theirs_setRemote ..).trans (.trans ?_ (update_others w.others k j n m _).symm)
    rw [h.theirs j m]
    rfl

theorem inStep_start (others : Table → UInt8 → Option Text) : InStep (.start others) := by
  refine ⟨fun k n => ?_, fun k n => ?_, fun _ => List.nodup_nil, fun _ h => by cases h⟩
  · change none = (((others k n).map (⟨·, false⟩)).filter (·.ours)).map Entry.command
    cases others k n with
    | none => rfl
    | some command => rfl
  · change (((others k n).map (⟨·, false⟩)).filter (!·.ours)).map Entry.command = others k n
    cases others k n with
    | none => rfl
    | some command => rfl

/-- In every run, the tables of the session are what it has in the emulator, and the entries of the
other debuggers are as they left them, in all states exactly if each restored state and each reset
is taken back as far as there is something to take back, and nobody else removes an entry of the
session. -/
theorem watches_inStep_iff (symbols : Text → Option Nat) (others : Table → UInt8 → Option Text)
    (labels : List Label) :
    Always (Watching.step symbols) InStep (.start others) labels ↔
      AllPermitted (Watching.step symbols) Permitted (.start others) labels := by
  have hdisabled (w : Watching) (label : Label) (hstep : w.step symbols label = none) :
      Permitted w label := by
    cases label with
    | restore => cases hstep
    | reconnected inserts rest replies =>
      intro saved hsaved
      have hnone := Option.map_eq_none_iff.mp hstep
      rw [hsaved] at hnone
      cases hnone
    | otherRemoves k n =>
      have hgone : ¬ (w.remote k n).isSome = true := by
        intro hsome
        cases (if_pos hsome).symm.trans hstep
      rw [Option.not_isSome_iff_eq_none] at hgone
      change w.mine k n = none
      rw [Watching.mine, hgone]
      rfl
    | breakpoints | watch | dmaWatch | condition | disconnect | reset | resetFails | otherAdds =>
      trivial
  have hinv (w : Watching) (label : Label) (w' : Watching) : True →
      w.step symbols label = some w' → True := fun _ _ => trivial
  exact always_iff_allPermitted hinv (fun _ _ _ _ h hstep => inStep_step_iff h hstep) hdisabled
    labels _ trivial (inStep_start others)

end AmigaDevbench.Winuae.Watches
