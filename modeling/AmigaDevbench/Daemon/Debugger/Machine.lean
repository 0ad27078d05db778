import AmigaDevbench.Core.CNumber
import AmigaDevbench.Core.CText
import AmigaDevbench.Core.Runs
import AmigaDevbench.Daemon.Debugger.Breakpoints
import AmigaDevbench.Daemon.Files

/-!
# The debugger of `debugger.c` and its target

The daemon's commands and the exception handlers work on the same variables, the handlers on the
target's registers too. The target is one task: it executes its own code, or it is somewhere in
`dbg_pause_stub`. A handler runs in supervisor mode, where no other task gets the processor, so
an exception is one step; in the stub the daemon can get between any two instructions. A command
is one step as well, except a detach of a stopped target, which lets the target run in a `Delay`.
-/

namespace AmigaDevbench.Debugger

open AmigaDevbench.Daemon (decimal hex8)

/-- The user registers: D0 to D7, A0 to A6, the user stack pointer, SR without its trace bit, and
PC. -/
structure Registers where
  d : Fin 8 → UInt32
  a : Fin 7 → UInt32
  usp : UInt32
  sr : UInt16
  pc : UInt32

namespace Registers

instance : DecidableEq Registers := fun r r' =>
  decidable_of_iff (r.d = r'.d ∧ r.a = r'.a ∧ r.usp = r'.usp ∧ r.sr = r'.sr ∧ r.pc = r'.pc) (by
    cases r
    cases r'
    simp only [mk.injEq])

def setD (r : Registers) (i : Fin 8) (value : UInt32) : Registers :=
  { r with d := Function.update r.d i value }

def setA (r : Registers) (i : Fin 7) (value : UInt32) : Registers :=
  { r with a := Function.update r.a i value }

/-- A `move.w` into a data register keeps the upper half. -/
def setWord (r : Registers) (i : Fin 8) (word : UInt16) : Registers :=
  r.setD i ((r.d i &&& 0xFFFF0000) ||| word.toUInt32)

/-- The condition codes behind an instruction that clears V and C. -/
def setFlags (r : Registers) (extend negative zero : Bool) : Registers :=
  { r with
    sr := (r.sr &&& 0xFF00) ||| (if extend then 0x10 else 0) ||| (if negative then 0x08 else 0) |||
      (if zero then 0x04 else 0) }

/-- The X flag. -/
def extend (r : Registers) : Bool := r.sr &&& 0x10 != 0

end Registers

/-- What a call into exec leaves in the registers that it does not preserve. -/
structure Scratch where
  d0 : UInt32
  d1 : UInt32
  a0 : UInt32
  a1 : UInt32
  extend : Bool

/-- `dbg_step_mode`. -/
inductive StepMode where
  | none
  /-- `STEP_PAST_BP`. -/
  | pastBreakpoint
  /-- `STEP_SINGLE`. -/
  | single
  deriving DecidableEq

/-- The value of the variable. -/
def StepMode.word : StepMode → UInt16
  | .none => 0
  | .pastBreakpoint => 1
  | .single => 2

/-- Where the target is. -/
inductive Place where
  /-- In its own code. -/
  | running
  /-- In `dbg_pause_stub`, up to the return of its `Wait`. -/
  | waiting
  /-- The `Wait` has returned. -/
  | woken
  /-- Before `move.l _dbg_resume_pc, -(%sp)`. -/
  | continuing
  /-- At `.Lstub_step`. -/
  | stepping
  /-- Before `trap #14`. -/
  | trapping
  /-- In the hands of a vector that is not the debugger's, or in the stub with supervisor mode. -/
  | astray
  deriving DecidableEq

/-- The machine the debugger runs on. -/
structure Platform (Data : Type*) where
  /-- One instruction of the target that is no trap of the debugger's. -/
  execute : Code → Registers → Data → Registers × Data
  /-- The target's `struct Task`. -/
  task : UInt32
  sysBase : UInt32
  /-- `TypeOfMem`. -/
  inRam : UInt32 → Bool
  /-- `trap15_handler` and `trap14_handler`. -/
  trap15Handler : UInt32
  trap14Handler : UInt32

/-- The static variables of `debugger.c`, the target, and what the daemon has sent. -/
structure Machine (Data : Type*) where
  bps : Breakpoints
  attached : Bool
  /-- `dbg_target` is the target, not `NULL`. -/
  hasTarget : Bool
  targetName : Text
  codeBase : UInt32
  /-- `dbg_saved_regs`. -/
  savedRegs : Registers
  stopped : Bool
  trapInstalled : Bool
  trapHit : Bool
  trapPc : UInt32
  resumePc : UInt32
  stepMode : StepMode
  stepRequest : Bool
  /-- The daemon is in the `Delay` of `dbg_handle_detach`. -/
  detaching : Bool
  regs : Registers
  /-- The trace bit of the target's SR. -/
  t1 : Bool
  place : Place
  /-- `SIGBREAKF_CTRL_F` is set in the target's received signals. -/
  ctrlF : Bool
  data : Data
  sent : List Text

/-- `"%04lx"`. -/
def hex4 (n : Nat) : Text :=
  List.replicate (4 - (Nat.toDigits 16 n).length) '0' ++ Nat.toDigits 16 n

/-- `"%ld"`. -/
def signedDecimal (n : Int) : Text := if n < 0 then '-' :: decimal n.natAbs else decimal n.toNat

/-- Values in hexadecimal with colons between them. -/
def hexList (values : List UInt32) : Text :=
  [':'].intercalate (values.map fun value => hex8 value.toNat)

/-- `dbg_send_stop`. -/
def stopLine (reason : String) (r : Registers) : Text :=
  "DBGSTOP|".toList ++ reason.toList ++ '|' :: (hex8 r.pc.toNat ++ '|' :: (hex4 r.sr.toNat ++
    '|' :: (hexList (List.ofFn r.d) ++ '|' :: hexList (List.ofFn r.a ++ [r.usp]))))

/-- A DBGSTATE line of an attached debugger. -/
def stateLine (stopped : Bool) (name : Text) (base : UInt32) (count : Int) : Text :=
  "DBGSTATE|1|".toList ++ decimal stopped.toNat ++ '|' :: (name ++ '|' :: (hex8 base.toNat ++
    '|' :: (signedDecimal count ++ "|BASE:".toList ++ hex8 base.toNat)))

/-- A BPINFO line. -/
def infoLine (i : Fin maxBreakpoints) (address : UInt32) (original : UInt16) : Text :=
  "BPINFO|".toList ++ decimal i ++ '|' :: (hex8 address.toNat ++ "|1|".toList ++
    hex4 original.toNat)

namespace Machine

variable {Data : Type*}

/-- The variables before the first command. -/
def initial (code : Code) (regs : Registers) (data : Data) : Machine Data where
  bps := .initial code
  attached := false
  hasTarget := false
  targetName := []
  codeBase := 0
  savedRegs := ⟨fun _ => 0, fun _ => 0, 0, 0, 0⟩
  stopped := false
  trapInstalled := false
  trapHit := false
  trapPc := 0
  resumePc := 0
  stepMode := .none
  stepRequest := false
  detaching := false
  regs := regs
  t1 := false
  place := .running
  ctrlF := false
  data := data
  sent := []

/-- `protocol_send_raw`. -/
def send (s : Machine Data) (line : Text) : Machine Data := { s with sent := s.sent ++ [line] }

/-- `Signal(dbg_target, SIGBREAKF_CTRL_F)`. -/
def signal (s : Machine Data) : Machine Data := { s with ctrlF := true }

/-! ### The handlers -/

section Target

variable (p : Platform Data)

/-- An exception of the target comes to the debugger's handler, and the handler knows the task. -/
def ours (s : Machine Data) : Bool := s.trapInstalled && s.hasTarget

/-- `trap15_handler`: A0 holds the task when the registers are saved, and no register is put
back. The frame's PC is loaded from A1, which `CacheClearU` need not preserve. -/
def trap15 (s : Machine Data) (scratch : Scratch) : Machine Data :=
  { s with
    savedRegs := s.regs.setA 0 p.task
    bps := s.bps.restore s.regs.pc
    trapPc := if s.trapHit then s.trapPc else s.regs.pc
    trapHit := true
    stepMode := .pastBreakpoint
    t1 := true
    regs :=
      { ((((s.regs.setD 0 scratch.d0).setWord 0 (s.regs.sr ||| 0x8000)).setD 1 scratch.d1).setA 0
          scratch.a0 |>.setA 1 scratch.a1).setA 6 p.sysBase with pc := scratch.a1 } }

/-- `trap14_handler`: it does not ask for the task. -/
def trap14 (s : Machine Data) : Machine Data :=
  { s with
    t1 := true
    stepMode := .single
    place := .running
    regs := { s.regs with pc := s.resumePc } }

/-- The registers that `trace_handler` works with: A0 is the task, D0 has the step mode. -/
def traced (s : Machine Data) : Registers := (s.regs.setA 0 p.task).setWord 0 s.stepMode.word

/-- `trace_handler`. -/
def trace (s : Machine Data) : Machine Data :=
  match s.stepMode with
  | .none => { s with t1 := false, regs := s.traced p }
  | .pastBreakpoint =>
    { s with
      t1 := false
      stepMode := .none
      resumePc := s.regs.pc
      savedRegs := s.traced p
      bps := s.bps.repatchAll
      regs := s.traced p
      place := .waiting }
  | .single =>
    { s with
      t1 := false
      stepMode := .none
      trapPc := s.regs.pc
      resumePc := s.regs.pc
      savedRegs := s.traced p
      trapHit := true
      bps := s.bps.repatchAll
      regs := s.traced p
      place := .waiting }

/-- The word at PC is a trap that comes to a handler of the debugger. -/
def traps (s : Machine Data) : Bool :=
  s.bps.code s.regs.pc == trap15Opcode && s.ours ||
    s.bps.code s.regs.pc == 0x4E4E && s.trapInstalled

/-- The processor is at the first instruction of a trap's handler. -/
def handlerEntry (s : Machine Data) : Machine Data :=
  { s with
    regs :=
      { s.regs with
        sr := s.regs.sr ||| 0x2000
        pc := if s.bps.code s.regs.pc = trap15Opcode then p.trap15Handler else p.trap14Handler } }

/-- A traced trap: the Trace exception comes in the trap's handler, in supervisor mode. T1 is only
set together with a step mode, so the stub is entered. -/
def tracedTrap (s : Machine Data) : Machine Data :=
  { (s.handlerEntry p).trace p with place := .astray }

/-- An instruction of the target's own. -/
def execute (s : Machine Data) : Machine Data :=
  let result := p.execute s.bps.code s.regs s.data
  { s with regs := result.1, data := result.2 }

/-- The target executes the instruction at PC. With T1 set a Trace exception follows it. -/
def run (s : Machine Data) (scratch : Scratch) : Machine Data :=
  if s.t1 then
    if s.ours then if s.traps then s.tracedTrap p else (s.execute p).trace p
    else { s.execute p with t1 := false, place := .astray }
  else if s.traps then
    if s.bps.code s.regs.pc = trap15Opcode then s.trap15 p scratch else s.trap14
  else s.execute p

/-- The target's next step, in its own code or in `dbg_pause_stub`. -/
def target (s : Machine Data) (scratch : Scratch) : Option (Machine Data) :=
  match s.place with
  | .running => some (s.run p scratch)
  | .waiting => if s.ctrlF then some { s with ctrlF := false, place := .woken } else none
  | .woken =>
    -- movem.l _dbg_saved_regs, %d0-%d7/%a0-%a6; tst.w _dbg_step_request
    some
      { s with
        regs := { s.regs with d := s.savedRegs.d, a := s.savedRegs.a }.setFlags scratch.extend false
          (!s.stepRequest)
        place := if s.stepRequest then .stepping else .continuing }
  | .continuing =>
    -- move.l _dbg_resume_pc, -(%sp); rts
    some
      { s with
        regs := { s.regs with pc := s.resumePc }.setFlags s.regs.extend
          (s.resumePc &&& 0x80000000 != 0) (s.resumePc == 0)
        place := .running }
  | .stepping =>
    -- clr.w _dbg_step_request
    some
      { s with
        stepRequest := false
        regs := s.regs.setFlags s.regs.extend false true
        place := .trapping }
  | .trapping => some (if s.trapInstalled then s.trap14 else { s with place := .astray })
  | .astray => none

end Target

/-! ### The daemon -/

/-- What `dbg_find_task` comes to. -/
inductive Found where
  | nobody
  /-- The daemon itself. -/
  | self
  /-- The target, with its name, the base of its code, and whether its own code is in a `Wait`. -/
  | target (name : Text) (codeBase : UInt32) (waits : Bool)

/-- Whether `tc_State` of the target is `TS_WAIT`. -/
def inWait (s : Machine Data) (waits : Bool) : Bool :=
  match s.place with
  | .running => waits
  | .waiting => !s.ctrlF
  | _ => false

/-- `dbg_handle_attach`. -/
def dbgHandleAttach (s : Machine Data) (args : Text) (found : Found) : Machine Data :=
  if args = [] then s.send "ERR|DBGATTACH|needs task name or hex address".toList
  else if s.attached then s.send "ERR|DBGATTACH|already attached, detach first".toList
  else
    match found with
    | .nobody => s.send ("ERR|DBGATTACH|task not found: ".toList ++ args)
    | .self => s.send "ERR|DBGATTACH|cannot debug self".toList
    | .target name codeBase waits =>
      { s with
        hasTarget := true
        targetName := CText.fit 63 name
        attached := true
        trapHit := false
        stopped := s.inWait waits
        bps := s.bps.clear
        codeBase := codeBase }.send
          (stateLine (s.inWait waits) (CText.fit 63 name) codeBase 0)

/-- The end of `dbg_handle_detach`. -/
def finishDetach (s : Machine Data) : Machine Data :=
  { s with
    trapInstalled := false
    bps := s.bps.releaseAll
    hasTarget := false
    targetName := []
    attached := false
    stopped := false
    trapHit := false
    detaching := false }.send "DBGDETACHED".toList

/-- `dbg_handle_detach`, up to the `Delay` when the target is stopped. -/
def dbgHandleDetach (s : Machine Data) : Machine Data :=
  if !s.attached then s.send "ERR|DBGDETACH|not attached".toList
  else if s.stopped && s.hasTarget then
    { s with
      trapHit := false
      stepRequest := false
      bps := s.bps.unpatchAll
      detaching := true }.signal
  else { s with bps := s.bps.unpatchAll }.finishDetach

/-- `dbg_handle_detach` behind the `Delay`. -/
def delayEnd (s : Machine Data) : Machine Data := s.signal.finishDetach

/-- `dbg_handle_break`. -/
def dbgHandleBreak (s : Machine Data) : Machine Data :=
  if !s.attached then s.send "ERR|DBGBREAK|not attached".toList
  else if s.stopped then s.send (stopLine "break" s.savedRegs)
  else if !s.hasTarget then s.send "ERR|DBGBREAK|no target".toList
  else
    { s with stopped := true }.signal.send (stateLine true s.targetName s.codeBase s.bps.count)

/-- `dbg_handle_bpset`. -/
def dbgHandleBpset (p : Platform Data) (s : Machine Data) (args : Text) : Machine Data :=
  let address := UInt32.ofNat (CNumber.strtoul 16 args)
  if !s.attached then s.send "ERR|BPSET|not attached".toList
  else if args = [] then s.send "ERR|BPSET|needs address_hex".toList
  else if !p.inRam address then
    s.send ("ERR|BPSET|address ".toList ++ hex8 address.toNat ++ " not in RAM".toList)
  else if address &&& 1 ≠ 0 then s.send "ERR|BPSET|address must be word-aligned".toList
  else
    match s.bps.findBpByAddr address with
    | some i => s.send (infoLine i (s.bps.table i).address (s.bps.table i).original)
    | none =>
      match s.bps.findFreeBp with
      | none => s.send "ERR|BPSET|breakpoint table full".toList
      | some i =>
        { s with
          bps := (s.bps.insertBp i address).patchBp i
          trapInstalled := true }.send (infoLine i address (s.bps.code address))

/-- The entry that a BPCLEAR names: its number in decimal, or its address. -/
def clearedEntry (s : Machine Data) (args : Text) : Option (Fin maxBreakpoints) :=
  let number := CNumber.strtol args
  if h : 0 ≤ number ∧ number < maxBreakpoints then
    let i : Fin maxBreakpoints := ⟨number.toNat, by omega⟩
    if (s.bps.table i).used then some i
    else s.bps.findBpByAddr (UInt32.ofNat (CNumber.strtoul 16 args))
  else s.bps.findBpByAddr (UInt32.ofNat (CNumber.strtoul 16 args))

/-- `dbg_handle_bpclear`. -/
def dbgHandleBpclear (s : Machine Data) (args : Text) : Machine Data :=
  if !s.attached then s.send "ERR|BPCLEAR|not attached".toList
  else if args = [] then s.send "ERR|BPCLEAR|needs id or address".toList
  else
    match s.clearedEntry args with
    | some i =>
      { s with bps := (s.bps.unpatchBp i).releaseBp i }.send
        ("OK|BPCLEAR|".toList ++ decimal i)
    | none => s.send "ERR|BPCLEAR|breakpoint not found".toList

/-- `dbg_handle_clearall`. -/
def dbgHandleClearall (s : Machine Data) : Machine Data :=
  if !s.attached then s.send "ERR|DBGCLEARALLBP|not attached".toList
  else
    { s with bps := s.bps.unpatchAll.releaseAll }.send "OK|DBGCLEARALLBP|cleared".toList

/-- The table as `dbg_handle_step` leaves it. -/
def unpatchAtTrapPc (s : Machine Data) : Breakpoints :=
  match s.bps.findBpByAddr s.trapPc with
  | some i => s.bps.unpatchBp i
  | none => s.bps

/-- `dbg_handle_step`. -/
def dbgHandleStep (s : Machine Data) : Machine Data :=
  if !s.attached then s.send "ERR|DBGSTEP|not attached".toList
  else if !s.stopped then s.send "ERR|DBGSTEP|target not stopped".toList
  else
    { s with
      bps := s.unpatchAtTrapPc
      resumePc := s.trapPc
      stepRequest := true
      stopped := false
      ctrlF := s.ctrlF || s.hasTarget }.send "DBGRUNNING".toList

/-- `dbg_handle_continue`. -/
def dbgHandleContinue (s : Machine Data) : Machine Data :=
  if !s.attached then s.send "ERR|DBGCONT|not attached".toList
  else if !s.stopped then s.send "ERR|DBGCONT|target not stopped".toList
  else
    { s with stopped := false, ctrlF := s.ctrlF || s.hasTarget }.send "DBGRUNNING".toList

/-- A breakpoint lies above the address. -/
def breakpointAbove (s : Machine Data) (address : UInt32) : Bool :=
  entries.any fun i =>
    (s.bps.table i).used && !(s.bps.table i).temporary && decide (address < (s.bps.table i).address)
      && decide ((s.bps.table i).address < 0xFFFFFFFF)

/-- `dbg_handle_next`. -/
def dbgHandleNext (s : Machine Data) : Machine Data :=
  if !s.attached then s.send "ERR|DBGNEXT|not attached".toList
  else if !s.stopped then s.send "ERR|DBGNEXT|target not stopped".toList
  else if s.breakpointAbove s.trapPc then s.dbgHandleContinue
  else s.dbgHandleStep

/-- `dbg_handle_setreg`. -/
def dbgHandleSetreg (s : Machine Data) : Machine Data :=
  s.send "ERR|DBGSETREG|not yet implemented".toList

/-- What `dbg_poll` reports: the saved registers with the PC of the first hit. -/
def report (s : Machine Data) : Registers := { s.savedRegs with pc := s.trapPc }

/-- `dbg_poll`. -/
def dbgPoll (s : Machine Data) : Machine Data :=
  if !s.attached || !s.trapHit then s
  else
    { s with
      trapHit := false
      stopped := true
      savedRegs := s.report
      bps := s.bps.dropTemporary }.send (stopLine "breakpoint" s.report)

/-- The steps of the daemon and of the target. -/
inductive Label where
  | attach (args : Text) (found : Found)
  | detach
  /-- The `Delay` of a detach is over. -/
  | delayEnd
  | dbgBreak
  | bpset (args : Text)
  | bpclear (args : Text)
  | clearall
  | step
  | next
  | cont
  | setreg
  | poll
  /-- The target's next step; exec calls in it leave `scratch`. -/
  | target (scratch : Scratch)
  /-- The target's own code takes CTRL_F off its signals. -/
  | takeSignal

/-- One step. The daemon does nothing else during the `Delay` of a detach. -/
def next (p : Platform Data) (s : Machine Data) : Label → Option (Machine Data)
  | .target scratch => s.target p scratch
  | .takeSignal => if s.place = .running then some { s with ctrlF := false } else none
  | .delayEnd => if s.detaching then some s.delayEnd else none
  | .attach args found => if s.detaching then none else some (s.dbgHandleAttach args found)
  | .detach => if s.detaching then none else some s.dbgHandleDetach
  | .dbgBreak => if s.detaching then none else some s.dbgHandleBreak
  | .bpset args => if s.detaching then none else some (s.dbgHandleBpset p args)
  | .bpclear args => if s.detaching then none else some (s.dbgHandleBpclear args)
  | .clearall => if s.detaching then none else some s.dbgHandleClearall
  | .step => if s.detaching then none else some s.dbgHandleStep
  | .next => if s.detaching then none else some s.dbgHandleNext
  | .cont => if s.detaching then none else some s.dbgHandleContinue
  | .setreg => if s.detaching then none else some s.dbgHandleSetreg
  | .poll => if s.detaching then none else some s.dbgPoll

/-! ### What a step does -/

/-- What only the daemon's commands change. -/
structure Kept (s s' : Machine Data) : Prop where
  attached : s'.attached = s.attached
  hasTarget : s'.hasTarget = s.hasTarget
  stopped : s'.stopped = s.stopped
  trapInstalled : s'.trapInstalled = s.trapInstalled
  detaching : s'.detaching = s.detaching

/-- The next step of the target ends in the Trace handler, which patches the used entries. -/
def Repatches (s : Machine Data) : Prop :=
  s.place = .running ∧ s.t1 = true ∧ s.ours = true ∧ s.stepMode ≠ .none

instance (s : Machine Data) : Decidable s.Repatches :=
  inferInstanceAs (Decidable (_ ∧ _ ∧ _ ∧ _))

section Effects

variable {p : Platform Data} {s s' : Machine Data} {scratch : Scratch}

theorem kept_trace : s.Kept (s.trace p) := by
  unfold trace
  split <;> exact ⟨rfl, rfl, rfl, rfl, rfl⟩

theorem bps_trace :
    (s.trace p).bps = if s.stepMode = .none then s.bps else s.bps.repatchAll := by
  unfold trace
  split <;> rename_i hmode <;> rw [hmode] <;> rfl

theorem kept_run : s.Kept (s.run p scratch) := by
  unfold run
  split_ifs
  · obtain ⟨h1, h2, h3, h4, h5⟩ := kept_trace (p := p) (s := s.handlerEntry p)
    exact ⟨h1, h2, h3, h4, h5⟩
  · obtain ⟨h1, h2, h3, h4, h5⟩ := kept_trace (p := p) (s := s.execute p)
    exact ⟨h1, h2, h3, h4, h5⟩
  all_goals exact ⟨rfl, rfl, rfl, rfl, rfl⟩

/-- The target's steps change the table in its handlers only. -/
theorem bps_run (hplace : s.place = .running) :
    (s.run p scratch).bps = s.bps ∨ (s.run p scratch).bps = s.bps.restore s.regs.pc ∨
      s.Repatches ∧ (s.run p scratch).bps = s.bps.repatchAll := by
  have htrace : ∀ s₁ : Machine Data, s₁.bps = s.bps → s₁.stepMode = s.stepMode →
      s.t1 = true → s.ours = true →
      (s₁.trace p).bps = s.bps ∨ s.Repatches ∧ (s₁.trace p).bps = s.bps.repatchAll := by
    intro s₁ hbps hmode ht1 hours
    rw [bps_trace, hbps, hmode]
    split_ifs with hnone
    · exact .inl rfl
    · exact .inr ⟨⟨hplace, ht1, hours, hnone⟩, rfl⟩
  unfold run
  split_ifs with ht1 hours htraps htraps hword
  · rcases htrace (s.handlerEntry p) rfl rfl ht1 hours with h | h
    · exact .inl h
    · exact .inr (.inr h)
  · rcases htrace (s.execute p) rfl rfl ht1 hours with h | h
    · exact .inl h
    · exact .inr (.inr h)
  · exact .inl rfl
  · exact .inr (.inl rfl)
  · exact .inl rfl
  · exact .inl rfl

/-- The target's step is an instruction, or a step of the stub that leaves the table alone. -/
theorem target_cases (h : s.target p scratch = some s') :
    s.place = .running ∧ s' = s.run p scratch ∨
      s.place ≠ .running ∧ s'.bps = s.bps ∧ s.Kept s' := by
  unfold target at h
  split at h <;> rename_i hplace
  · exact .inl ⟨hplace, (Option.some.inj h).symm⟩
  all_goals
    refine .inr ⟨by rw [hplace]; decide, ?_⟩
  · split_ifs at h
    cases h
    exact ⟨rfl, rfl, rfl, rfl, rfl, rfl⟩
  · cases h
    exact ⟨rfl, rfl, rfl, rfl, rfl, rfl⟩
  · cases h
    exact ⟨rfl, rfl, rfl, rfl, rfl, rfl⟩
  · cases h
    exact ⟨rfl, rfl, rfl, rfl, rfl, rfl⟩
  · cases h
    split_ifs <;> exact ⟨rfl, rfl, rfl, rfl, rfl, rfl⟩
  · cases h

theorem kept_target (h : s.target p scratch = some s') : s.Kept s' := by
  rcases target_cases h with ⟨-, rfl⟩ | ⟨-, -, hkept⟩
  · exact kept_run
  · exact hkept

theorem bps_target (h : s.target p scratch = some s') :
    s'.bps = s.bps ∨ s'.bps = s.bps.restore s.regs.pc ∨
      s.Repatches ∧ s'.bps = s.bps.repatchAll := by
  rcases target_cases h with ⟨hplace, rfl⟩ | ⟨-, hbps, -⟩
  · exact bps_run hplace
  · exact .inl hbps

theorem bps_of_repatches (hrepatches : s.Repatches) (h : s.target p scratch = some s') :
    s'.bps = s.bps.repatchAll := by
  obtain ⟨hplace, ht1, hours, hmode⟩ := hrepatches
  rcases target_cases h with ⟨-, rfl⟩ | ⟨hplace', -⟩
  · unfold run
    rw [if_pos ht1, if_pos hours]
    split_ifs
    · exact bps_trace.trans (if_neg hmode)
    · exact bps_trace.trans (if_neg hmode)
  · exact absurd hplace hplace'

theorem trace_waiting (hplace : s.place = .running) (h : (s.trace p).place = .waiting) :
    s.stepMode ≠ .none ∧ (s.trace p).ctrlF = s.ctrlF ∧
      ((s.trace p).trapHit = true → s.stepMode = .single ∨ s.trapHit = true) := by
  unfold trace at h ⊢
  cases hmode : s.stepMode with
  | none =>
    rw [hmode] at h
    exact nomatch hplace.symm.trans h
  | pastBreakpoint => exact ⟨nofun, rfl, .inr⟩
  | single => exact ⟨nofun, rfl, fun _ => .inl rfl⟩

/-- The target gets into the stub through the Trace handler. -/
theorem target_waiting (h : s.target p scratch = some s') (hwaiting : s'.place = .waiting) :
    s.Repatches ∧ s'.ctrlF = s.ctrlF ∧
      (s'.trapHit = true → s.stepMode = .single ∨ s.trapHit = true) := by
  unfold target at h
  split at h <;> rename_i hplace
  · cases h
    unfold run at hwaiting ⊢
    split_ifs at hwaiting ⊢ with ht1 hours htraps htraps hword
    · cases hwaiting
    · obtain ⟨hmode, hsame⟩ := trace_waiting (s := s.execute p) hplace hwaiting
      exact ⟨⟨hplace, ht1, hours, hmode⟩, hsame⟩
    · exact nomatch hplace.symm.trans hwaiting
    · exact nomatch hwaiting
    · exact nomatch hplace.symm.trans hwaiting
  · split_ifs at h
    cases h
    cases hwaiting
  · cases h
    dsimp only at hwaiting
    split_ifs at hwaiting
  · cases h
    cases hwaiting
  · cases h
    cases hwaiting
  · cases h
    split_ifs at hwaiting
    cases hwaiting
  · cases h

/-- A command that is only answered. -/
def Answered (s s' : Machine Data) : Prop := ∃ line, s' = s.send line

theorem dbgHandleAttach_cases (args : Text) (found : Found) :
    s.Answered (s.dbgHandleAttach args found) ∨
      s.attached = false ∧ ∃ name codeBase waits line, s.dbgHandleAttach args found =
        { s with
          hasTarget := true
          targetName := name
          attached := true
          trapHit := false
          stopped := s.inWait waits
          bps := s.bps.clear
          codeBase := codeBase }.send line := by
  unfold dbgHandleAttach
  split_ifs with hargs hattached
  · exact .inl ⟨_, rfl⟩
  · exact .inl ⟨_, rfl⟩
  · cases found with
    | nobody => exact .inl ⟨_, rfl⟩
    | self => exact .inl ⟨_, rfl⟩
    | target name codeBase waits =>
      exact .inr ⟨Bool.eq_false_of_not_eq_true hattached, _, _, waits, _, rfl⟩

theorem dbgHandleDetach_cases :
    s.Answered s.dbgHandleDetach ∨
      s.attached = true ∧ s.stopped = true ∧ s.dbgHandleDetach =
        { s with
          trapHit := false
          stepRequest := false
          bps := s.bps.unpatchAll
          detaching := true
          ctrlF := true } ∨
      s.attached = true ∧ s.dbgHandleDetach = { s with bps := s.bps.unpatchAll }.finishDetach := by
  unfold dbgHandleDetach
  split_ifs with hattached hstopped
  · exact .inl ⟨_, rfl⟩
  · exact .inr (.inl ⟨by simpa using hattached, (Bool.and_eq_true_iff.mp hstopped).1, rfl⟩)
  · exact .inr (.inr ⟨by simpa using hattached, rfl⟩)

theorem dbgHandleBreak_cases :
    s.Answered s.dbgHandleBreak ∨
      s.attached = true ∧ s.stopped = false ∧
        ∃ line, s.dbgHandleBreak = { s with stopped := true, ctrlF := true }.send line := by
  unfold dbgHandleBreak
  split_ifs with hattached hstopped htarget
  · exact .inl ⟨_, rfl⟩
  · exact .inl ⟨_, rfl⟩
  · exact .inl ⟨_, rfl⟩
  · exact .inr ⟨by simpa using hattached, by simpa using hstopped, _, rfl⟩

theorem dbgHandleBpset_cases (args : Text) :
    s.Answered (s.dbgHandleBpset p args) ∨
      s.attached = true ∧ ∃ i address line, p.inRam address = true ∧ address &&& 1 = 0 ∧
        s.bps.findBpByAddr address = none ∧ s.bps.findFreeBp = some i ∧
        s.dbgHandleBpset p args =
          { s with
            bps := (s.bps.insertBp i address).patchBp i
            trapInstalled := true }.send line := by
  unfold dbgHandleBpset
  dsimp only
  split_ifs with hattached hargs hram hodd
  · exact .inl ⟨_, rfl⟩
  · exact .inl ⟨_, rfl⟩
  · exact .inl ⟨_, rfl⟩
  · exact .inl ⟨_, rfl⟩
  · cases hfind : s.bps.findBpByAddr (UInt32.ofNat (CNumber.strtoul 16 args)) with
    | some i => exact .inl ⟨_, rfl⟩
    | none =>
      cases hfree : s.bps.findFreeBp with
      | none => exact .inl ⟨_, rfl⟩
      | some i =>
        exact .inr ⟨by simpa using hattached, i, _, _, by simpa using hram, not_not.mp hodd,
          hfind, rfl, rfl⟩

/-- A BPCLEAR names a used entry. -/
theorem used_of_clearedEntry {args : Text} {i : Fin maxBreakpoints}
    (h : s.clearedEntry args = some i) : (s.bps.table i).used = true := by
  have hfound : ∀ address, s.bps.findBpByAddr address = some i → (s.bps.table i).used = true :=
    fun _ hfind => (Breakpoints.used_of_findBpByAddr hfind).1
  unfold clearedEntry at h
  dsimp only at h
  split_ifs at h with hnumber hused
  · cases h
    exact hused
  · exact hfound _ h
  · exact hfound _ h

theorem dbgHandleBpclear_cases (args : Text) :
    s.Answered (s.dbgHandleBpclear args) ∨
      s.attached = true ∧ ∃ i line, (s.bps.table i).used = true ∧
        s.dbgHandleBpclear args =
          { s with bps := (s.bps.unpatchBp i).releaseBp i }.send line := by
  unfold dbgHandleBpclear
  split_ifs with hattached hargs
  · exact .inl ⟨_, rfl⟩
  · exact .inl ⟨_, rfl⟩
  · cases hentry : s.clearedEntry args with
    | none => exact .inl ⟨_, rfl⟩
    | some i =>
      exact .inr ⟨by simpa using hattached, i, _, used_of_clearedEntry hentry, rfl⟩

theorem dbgHandleClearall_cases :
    s.Answered s.dbgHandleClearall ∨
      s.attached = true ∧ ∃ line, s.dbgHandleClearall =
        { s with bps := s.bps.unpatchAll.releaseAll }.send line := by
  unfold dbgHandleClearall
  split_ifs with hattached
  · exact .inl ⟨_, rfl⟩
  · exact .inr ⟨by simpa using hattached, _, rfl⟩

theorem dbgHandleContinue_cases :
    s.Answered s.dbgHandleContinue ∨
      s.attached = true ∧ s.stopped = true ∧ ∃ line, s.dbgHandleContinue =
        { s with stopped := false, ctrlF := s.ctrlF || s.hasTarget }.send line := by
  unfold dbgHandleContinue
  split_ifs with hattached hstopped
  · exact .inl ⟨_, rfl⟩
  · exact .inl ⟨_, rfl⟩
  · exact .inr ⟨by simpa using hattached, by simpa using hstopped, _, rfl⟩

theorem dbgHandleStep_cases :
    s.Answered s.dbgHandleStep ∨
      s.attached = true ∧ s.stopped = true ∧ ∃ line, s.dbgHandleStep =
        { s with
          bps := s.unpatchAtTrapPc
          resumePc := s.trapPc
          stepRequest := true
          stopped := false
          ctrlF := s.ctrlF || s.hasTarget }.send line := by
  unfold dbgHandleStep
  split_ifs with hattached hstopped
  · exact .inl ⟨_, rfl⟩
  · exact .inl ⟨_, rfl⟩
  · exact .inr ⟨by simpa using hattached, by simpa using hstopped, _, rfl⟩

/-- A DBGNEXT is a DBGCONT or a DBGSTEP. -/
theorem dbgHandleNext_cases :
    s.Answered s.dbgHandleNext ∨ s.dbgHandleNext = s.dbgHandleContinue ∨
      s.dbgHandleNext = s.dbgHandleStep := by
  unfold dbgHandleNext
  split_ifs
  · exact .inl ⟨_, rfl⟩
  · exact .inl ⟨_, rfl⟩
  · exact .inr (.inl rfl)
  · exact .inr (.inr rfl)

theorem dbgPoll_cases :
    s.dbgPoll = s ∨
      s.attached = true ∧ s.trapHit = true ∧ s.dbgPoll =
        { s with
          trapHit := false
          stopped := true
          savedRegs := s.report
          bps := s.bps.dropTemporary }.send (stopLine "breakpoint" s.report) := by
  unfold dbgPoll
  split_ifs with h
  · exact .inl rfl
  · simp only [Bool.or_eq_true, Bool.not_eq_true', not_or, Bool.not_eq_false] at h
    exact .inr ⟨h.1, h.2, rfl⟩

/-- The command is a DBGSTEP that the daemon accepts, or a DBGNEXT that becomes one. -/
def Steps (s : Machine Data) : Label → Prop
  | .step => s.attached = true ∧ s.stopped = true
  | .next => s.attached = true ∧ s.stopped = true ∧ s.breakpointAbove s.trapPc = false
  | _ => False

/-- What a step other than the target's leaves to the target and to its handlers. -/
structure Aside (label : Label) (s s' : Machine Data) : Prop where
  place : s'.place = s.place
  regs : s'.regs = s.regs
  data : s'.data = s.data
  trapPc : s'.trapPc = s.trapPc
  /-- `dbg_poll` writes the saved PC, nothing else the daemon does writes the saved registers. -/
  saved : ∃ pc, s'.savedRegs = { s.savedRegs with pc := pc }
  resumePc : s'.resumePc = s.resumePc ∨ s.Steps label ∧ s'.resumePc = s.trapPc
  /-- A hit is forgotten, or kept with all that is reported of it. -/
  hit : s'.trapHit = false ∨ s'.trapHit = s.trapHit ∧ s'.attached = s.attached ∧
    s'.detaching = s.detaching ∧ s'.savedRegs = s.savedRegs
  target : s'.hasTarget = s.hasTarget ∧ s'.attached = s.attached ∨ s'.attached = true ∨
    s'.hasTarget = false

section Aside

variable {label : Label}

theorem Aside.of_answered (h : s.Answered s') : Aside label s s' := by
  obtain ⟨line, rfl⟩ := h
  exact ⟨rfl, rfl, rfl, rfl, ⟨_, rfl⟩, .inl rfl, .inr ⟨rfl, rfl, rfl, rfl⟩, .inl ⟨rfl, rfl⟩⟩

theorem aside_step (hsteps : s.attached = true → s.stopped = true → s.Steps label) :
    Aside label s s.dbgHandleStep := by
  rcases dbgHandleStep_cases (s := s) with hanswered | ⟨hattached, hstopped, line, heq⟩
  · exact .of_answered hanswered
  · rw [heq]
    exact ⟨rfl, rfl, rfl, rfl, ⟨_, rfl⟩, .inr ⟨hsteps hattached hstopped, rfl⟩,
      .inr ⟨rfl, rfl, rfl, rfl⟩, .inl ⟨rfl, rfl⟩⟩

theorem aside_continue : Aside label s s.dbgHandleContinue := by
  rcases dbgHandleContinue_cases (s := s) with hanswered | ⟨-, -, line, heq⟩
  · exact .of_answered hanswered
  · rw [heq]
    exact ⟨rfl, rfl, rfl, rfl, ⟨_, rfl⟩, .inl rfl, .inr ⟨rfl, rfl, rfl, rfl⟩, .inl ⟨rfl, rfl⟩⟩

theorem aside_next : Aside .next s s.dbgHandleNext := by
  unfold dbgHandleNext
  split_ifs with hattached hstopped habove
  · exact .of_answered ⟨_, rfl⟩
  · exact .of_answered ⟨_, rfl⟩
  · exact aside_continue
  · exact aside_step fun hattached hstopped =>
      ⟨hattached, hstopped, Bool.eq_false_of_not_eq_true habove⟩

theorem aside_of_next (hlabel : ∀ scratch, label ≠ .target scratch)
    (hstep : s.next p label = some s') : Aside label s s' := by
  have hdaemon : ∀ {t : Machine Data}, (if s.detaching then none else some t) = some s' →
      Aside label s t → Aside label s s' := by
    intro t ht haside
    split_ifs at ht
    cases ht
    exact haside
  -- commands that change nothing the target or the handlers read
  have hquiet : ∀ {t : Machine Data}, t.place = s.place → t.regs = s.regs → t.data = s.data →
      t.trapPc = s.trapPc → t.savedRegs = s.savedRegs → t.resumePc = s.resumePc →
      t.trapHit = s.trapHit → t.attached = s.attached → t.detaching = s.detaching →
      t.hasTarget = s.hasTarget → Aside label s t := by
    intro t hplace hregs hdata htrapPc hsaved hresume hhit hattached hdetaching htarget
    exact ⟨hplace, hregs, hdata, htrapPc, ⟨_, hsaved⟩, .inl hresume,
      .inr ⟨hhit, hattached, hdetaching, hsaved⟩, .inl ⟨htarget, hattached⟩⟩
  cases label with
  | target scratch => exact absurd rfl (hlabel scratch)
  | takeSignal =>
    simp only [next] at hstep
    split_ifs at hstep
    cases hstep
    exact hquiet rfl rfl rfl rfl rfl rfl rfl rfl rfl rfl
  | delayEnd =>
    simp only [next] at hstep
    split_ifs at hstep
    cases hstep
    exact ⟨rfl, rfl, rfl, rfl, ⟨_, rfl⟩, .inl rfl, .inl rfl, .inr (.inr rfl)⟩
  | attach args found =>
    refine hdaemon hstep ?_
    rcases dbgHandleAttach_cases (s := s) args found with
      hanswered | ⟨-, name, codeBase, waits, line, heq⟩
    · exact .of_answered hanswered
    · rw [heq]
      exact ⟨rfl, rfl, rfl, rfl, ⟨_, rfl⟩, .inl rfl, .inl rfl, .inr (.inl rfl)⟩
  | detach =>
    refine hdaemon hstep ?_
    rcases dbgHandleDetach_cases (s := s) with hanswered | ⟨hattached, -, heq⟩ | ⟨-, heq⟩
    · exact .of_answered hanswered
    · rw [heq]
      exact ⟨rfl, rfl, rfl, rfl, ⟨_, rfl⟩, .inl rfl, .inl rfl, .inr (.inl hattached)⟩
    · rw [heq]
      exact ⟨rfl, rfl, rfl, rfl, ⟨_, rfl⟩, .inl rfl, .inl rfl, .inr (.inr rfl)⟩
  | dbgBreak =>
    refine hdaemon hstep ?_
    rcases dbgHandleBreak_cases (s := s) with hanswered | ⟨-, -, line, heq⟩
    · exact .of_answered hanswered
    · rw [heq]
      exact hquiet rfl rfl rfl rfl rfl rfl rfl rfl rfl rfl
  | bpset args =>
    refine hdaemon hstep ?_
    rcases dbgHandleBpset_cases (p := p) (s := s) args with
      hanswered | ⟨-, i, address, line, -, -, -, -, heq⟩
    · exact .of_answered hanswered
    · rw [heq]
      exact hquiet rfl rfl rfl rfl rfl rfl rfl rfl rfl rfl
  | bpclear args =>
    refine hdaemon hstep ?_
    rcases dbgHandleBpclear_cases (s := s) args with hanswered | ⟨-, i, line, -, heq⟩
    · exact .of_answered hanswered
    · rw [heq]
      exact hquiet rfl rfl rfl rfl rfl rfl rfl rfl rfl rfl
  | clearall =>
    refine hdaemon hstep ?_
    rcases dbgHandleClearall_cases (s := s) with hanswered | ⟨-, line, heq⟩
    · exact .of_answered hanswered
    · rw [heq]
      exact hquiet rfl rfl rfl rfl rfl rfl rfl rfl rfl rfl
  | step => exact hdaemon hstep (aside_step fun hattached hstopped => ⟨hattached, hstopped⟩)
  | next => exact hdaemon hstep aside_next
  | cont => exact hdaemon hstep aside_continue
  | setreg => exact hdaemon hstep (.of_answered ⟨_, rfl⟩)
  | poll =>
    refine hdaemon hstep ?_
    rcases dbgPoll_cases (s := s) with heq | ⟨hattached, -, heq⟩
    · rw [heq]
      exact hquiet rfl rfl rfl rfl rfl rfl rfl rfl rfl rfl
    · rw [heq]
      exact ⟨rfl, rfl, rfl, rfl, ⟨_, rfl⟩, .inl rfl, .inl rfl, .inr (.inl hattached)⟩

end Aside

end Effects

end Machine

end AmigaDevbench.Debugger
