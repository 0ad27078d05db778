import AmigaDevbench.Host.Winuae.Acknowledged

/-!
# Runs of the target and the stops it reports

The target runs until it stops and sends a stop reply; the host classifies the reply when it
arrives and handles breakpoint stops in a task that waits for the connection lock. Requests to a
stopped target are acknowledged. A ledger beside the code counts what happens to each execute
breakpoint from the moment it is added.
-/

namespace AmigaDevbench.Winuae

/-- A stop of the target, with the run it ends and whether a resumed run reached a breakpoint. -/
structure Stop where
  reply : Text
  pc : Nat
  /-- `none` for the run of a checkpoint save. -/
  mode : Option RunMode
  arrival : Bool

/-- What the host makes of a stop. -/
inductive Fate where
  /-- `_signal_stop`, and what `execution` is then. -/
  | signalled (execution : Execution)
  /-- The target goes on silently. -/
  | passed

/-- What has happened to a breakpoint since it was added. -/
structure Ledger where
  skip : Nat
  oneshot : Bool
  /-- Stops of resumed runs at the breakpoint. -/
  arrivals : Nat
  /-- Those of `continue` runs that have been handled. -/
  continued : Nat
  /-- Those handled while no pause was pending. -/
  unpaused : Nat
  passed : Nat
  reported : Nat

/-- An operation that keeps the lock while the target runs. -/
inductive Held where
  /-- A step over, and whether the target has started it. -/
  | over (started : Bool)
  | save
  deriving DecidableEq

/-- The target's processor; a run without a mode belongs to a checkpoint save. -/
inductive Cpu where
  | halted
  | running (mode : Option RunMode)
  deriving DecidableEq

/-- Host, target and the stop replies between them. -/
structure World where
  session : Session
  /-- The `_process_stop` tasks that wait for the lock. -/
  tasks : List Stop
  held : Option Held
  cpu : Cpu
  pc : Nat
  /-- Stop replies on their way. -/
  wire : List Stop
  /-- All stops the target has made, in order. -/
  made : List Stop
  /-- The stops the host has dealt with, in order. -/
  history : List (Stop × Fate)
  /-- The execute breakpoint at each address. -/
  ledger : Nat → Option Ledger

/-- A new connection to a paused target. -/
def World.start : World where
  session := .start
  tasks := []
  held := none
  cpu := .halted
  pc := 0
  wire := []
  made := []
  history := []
  ledger := fun _ => none

/-- A ledger is opened for an added breakpoint and closed when an operation removes it. -/
def World.reopen (w : World) (s' : Session) (added : Option Point) (address : Nat) :
    Option Ledger :=
  match added with
  | some p =>
    if p.key = executeKey address then some ⟨p.skip, p.oneshot, 0, 0, 0, 0, 0⟩
    else w.ledger address
  | none =>
    if (w.session.point? (executeKey address)).isSome ∧
      (s'.point? (executeKey address)).isNone then none
    else w.ledger address

/-- A change of the ledger of one address. -/
def World.enter (w : World) (address : Nat) (f : Ledger → Ledger) : Nat → Option Ledger :=
  fun other => if other = address then (w.ledger other).map f else w.ledger other

/-- Whether a stop is the arrival of a resumed run at an armed execute breakpoint. -/
def World.arrives (w : World) (reply : Text) (pc : Nat) (mode : Option RunMode) : Bool :=
  isSignal reply && (mode.isSome && mode ≠ some .step) && decide (executeKey pc ∈ w.session.armed)

/-- The target stops. -/
def World.halt (w : World) (reply : Text) (pc : Nat) (mode : Option RunMode) : World :=
  let stop : Stop := ⟨reply, pc, mode, w.arrives reply pc mode⟩
  { w with
    cpu := .halted
    pc := pc
    wire := w.wire ++ [stop]
    made := w.made ++ [stop]
    ledger := if stop.arrival then w.enter pc fun l => { l with arrivals := l.arrivals + 1 }
      else w.ledger }

/-- `_signal_stop` for a stop. -/
def World.signal (w : World) (stop : Stop) : World :=
  { w with
    session := w.session.signalStop stop.reply
    history := w.history ++ [(stop, .signalled (w.session.signalStop stop.reply).execution)] }

/-- `_stopped`: the reader takes a stop reply. -/
def World.receive (w : World) (stop : Stop) (rest : List Stop) : World :=
  if w.session.asksForPc stop.reply then
    { w with
      session := { w.session with processing := w.session.processing + 1 }
      wire := rest
      tasks := w.tasks ++ [stop] }
  else { w.signal stop with wire := rest }

/-- What the ledger notes when an arrival has been handled. -/
def Ledger.note (l : Ledger) (continued unpaused passed : Bool) : Ledger :=
  { l with
    continued := l.continued + continued.toNat
    unpaused := l.unpaused + unpaused.toNat
    passed := l.passed + passed.toNat
    reported := l.reported + (!passed).toNat }

/-- A stop at the head of the tasks has been handled, with the session it has left. It was passed
if it was not signalled. -/
def World.handled (w : World) (stop : Stop) (rest : List Stop) (s' : Session) : World :=
  let passed : Bool := s'.generation = w.session.generation
  let continued : Bool := stop.mode = some .cont
  { w with
    session := s'
    tasks := rest
    cpu := if passed then .running (some .cont) else w.cpu
    history := w.history ++ [(stop, if passed then .passed else .signalled s'.execution)]
    ledger := if stop.arrival then
        w.enter stop.pc (·.note continued (continued && !w.session.interrupting) passed)
      else w.ledger }

/-- `_process_stop` has the lock. The target answers with its PC. -/
def World.process (w : World) (stop : Stop) (rest : List Stop) : World :=
  w.handled stop rest (w.session.after (processStop stop.reply (.value w.pc) .ok))

/-- The moves of the host's operations, of the reader and its tasks, and of the target. -/
inductive Label where
  | resume | step | rangeStep
  | pause
  | stepOver
  /-- The target starts a step over. -/
  | startOver
  /-- It answers a step over that it has started. -/
  | answerOver
  | refuseOver
  | breakpoint (args : Arguments)
  /-- The points are lifted and the target runs to the next frame. -/
  | save
  /-- The save is answered, after any stop that has cancelled it. -/
  | answerSave (pc : Nat) (accepted : Bool)
  | restore (isFile accepted : Bool) (pc : Nat) (rest : List Reply) (registers : Reply)
  /-- The target stops for whatever reason. -/
  | halt (reply : Text) (pc : Nat)
  | receive
  | process

/-- An operation that needs the lock and a paused processor; otherwise it waits or raises. -/
def World.paused (w : World) (f : World → World) : Option World :=
  if w.held.isSome then none
  else if w.session.execution = .stopped then some (f w) else some w

/-- `_run`, and the target starts. -/
def World.go (w : World) (mode : RunMode) : World :=
  { w with session := w.session.run mode, cpu := .running (some mode) }

/-- One step. -/
def World.next (symbols : Text → Option Nat) (w : World) : Label → Option World
  | .resume => w.paused (·.go .cont)
  | .step => w.paused (·.go .step)
  | .rangeStep => w.paused (·.go .range)
  | .pause =>
    if w.held.isSome then none
    else if w.session.execution = .stopped then some w
    else some { w with session := { w.session with interrupting := true } }
  | .stepOver =>
    w.paused fun w => { w with session := w.session.run .over, held := some (.over false) }
  | .startOver =>
    if w.held = some (.over false) then
      some { w with held := some (.over true), cpu := .running (some .over) }
    else none
  | .answerOver => if w.held = some (.over true) then some { w with held := none } else none
  | .refuseOver =>
    if w.held = some (.over false) then
      some { w with
        held := none
        session := { w.session with execution := .stopped, stopSet := true } }
    else none
  | .breakpoint args =>
    w.paused fun w =>
      let s' := w.session.after (Winuae.breakpoint symbols args allOk)
      { w with session := s', ledger := w.reopen s' (args.added symbols) }
  | .save =>
    w.paused fun w =>
      { w with
        session := { w.session with lifted := [] }.after
          (liftPoints (w.session.points.map Point.key) allOk)
        held := some .save
        cpu := .running none }
  | .answerSave pc accepted =>
    if w.held = some .save ∧ w.wire = [] then
      some { w with
        session := (w.session.after (putBack w.session.lifted allOk)).after
          (if accepted then afterCheckpoint .ok else pure ⟨⟩)
        held := none
        cpu := .halted
        pc := if w.cpu = .halted then w.pc else pc }
    else none
  | .restore isFile accepted pc rest registers =>
    w.paused fun w =>
      { w with
        session := w.session.after (checkpointRestore isFile (if accepted then .ok else .rejected)
          allOk rest registers)
        pc := if isFile && accepted then pc else w.pc }
  | .halt reply pc =>
    match w.cpu with
    | .running mode => some (w.halt reply pc mode)
    | .halted => none
  | .receive =>
    match w.wire with
    | stop :: rest => some (w.receive stop rest)
    | [] => none
  | .process =>
    match w.held, w.tasks with
    | none, stop :: rest => some (w.process stop rest)
    | _, _ => none

/-- What the claims are about: stops on their way to the host or waiting for the lock. -/
def World.waiting (w : World) : List Stop := w.tasks ++ w.wire

/-- Arrivals at an address among them. -/
def World.pending (w : World) (address : Nat) : Nat :=
  (w.waiting.filter fun stop => stop.arrival && stop.pc = address).length

/-- Breakpoints and stops behave as documented, where `counted` says which arrivals of continued
runs use up a skip. -/
structure Semantics (counted : Ledger → Nat) (w : World) : Prop where
  /-- Of the counted arrivals the first `skip` were passed and the others reported. -/
  skips (address : Nat) (l : Ledger) (h : w.ledger address = some l) :
    l.passed = min l.skip (counted l)
  /-- Every arrival is passed, reported or waiting. -/
  arrivals (address : Nat) (l : Ledger) (h : w.ledger address = some l) :
    l.passed + l.reported + w.pending address = l.arrivals
  /-- A breakpoint is there unless it is for one stop and has been reported. -/
  oneshot (address : Nat) (l : Ledger) (h : w.ledger address = some l) :
    (w.session.point? (executeKey address)).isSome ↔ (l.oneshot = true → l.reported = 0)
  hits (address : Nat) (l : Ledger) (p : Point) (h : w.ledger address = some l)
    (hp : w.session.point? (executeKey address) = some p) :
    p.hits + w.pending address = l.arrivals
  /-- Every stop is dealt with once, in order. -/
  once : w.history.map Prod.fst ++ w.waiting = w.made
  signalled (stop : Stop) (execution : Execution)
    (h : (stop, Fate.signalled execution) ∈ w.history) : execution = .stopped
  /-- When nothing is waiting and no operation is under way, the host knows whether it runs. -/
  execution (hwaiting : w.waiting = []) (hheld : w.held = none) :
    w.session.execution = .stopped ∧ w.session.stopSet = true ∧ w.cpu = .halted ∨
      w.session.execution = .running ∧ ∃ mode, w.cpu = .running (some mode) ∧
        w.session.runMode = some mode
  /-- Waiters are not told of a stop while the target runs. -/
  noFalseStop (hheld : w.held = none) (hstopped : w.session.execution = .stopped) :
    w.cpu = .halted ∧ w.waiting = []

/-- The run of a checkpoint save makes no plain stop. -/
def Quiet (w : World) : Label → Prop
  | .halt reply _ => w.cpu = .running none → isSignal reply = false
  | _ => True

/-- The ledger of an address agrees with the breakpoint there. -/
def Balanced (entry : Option Ledger) (point : Option Point) (pending : Nat) : Prop :=
  match entry with
  | none => point = none
  | some l =>
    l.passed = min l.skip l.unpaused ∧ l.passed + l.reported + pending = l.arrivals ∧
      match point with
      | none => l.oneshot = true ∧ 0 < l.reported
      | some p =>
        (l.oneshot = true → l.reported = 0) ∧ p.oneshot = l.oneshot ∧
          p.skip + l.passed = l.skip ∧ p.hits + pending = l.arrivals

/-- Points, ledgers and history at every moment of a run. -/
structure Books (w : World) : Prop where
  nodup : (w.session.points.map Point.key).Nodup
  mirrors (h : w.held ≠ some .save) : Mirrors w.session
  lifted (h : w.held = some .save) :
    w.session.keys = w.session.armed ∪ w.session.lifted.toFinset
  once : w.history.map Prod.fst ++ w.waiting = w.made
  signalled (stop : Stop) (execution : Execution)
    (h : (stop, Fate.signalled execution) ∈ w.history) : execution = .stopped
  balanced (address : Nat) :
    Balanced (w.ledger address) (w.session.point? (executeKey address)) (w.pending address)

/-- The host knows that the target is stopped. -/
def Session.IsStopped (s : Session) : Prop := s.execution = .stopped ∧ s.stopSet = true

/-- The host knows in which mode the target runs. -/
def Session.IsRunning (s : Session) (mode : RunMode) : Prop :=
  s.execution = .running ∧ s.runMode = some mode

/-- The lock is free, or a step over that the target has started keeps it. -/
def World.Free (w : World) (mode : RunMode) : Prop :=
  w.held = none ∨ mode = .over ∧ w.held = some (.over true)

/-- Where host and target are. -/
inductive Phase (w : World) : Prop where
  | paused (hheld : w.held = none) (hcpu : w.cpu = .halted) (htasks : w.tasks = [])
    (hwire : w.wire = []) (hstopped : w.session.IsStopped)
  | running (mode : RunMode) (hheld : w.Free mode) (hcpu : w.cpu = .running (some mode))
    (htasks : w.tasks = []) (hwire : w.wire = []) (hrunning : w.session.IsRunning mode)
  | stopping (mode : RunMode) (stop : Stop) (hheld : w.Free mode) (hcpu : w.cpu = .halted)
    (hpc : w.pc = stop.pc) (hmode : stop.mode = some mode)
    (hwaiting : w.tasks = [] ∧ w.wire = [stop] ∨
      w.tasks = [stop] ∧ w.wire = [] ∧ isSignal stop.reply = true ∧ mode ≠ .step)
    (harrival : stop.arrival = w.arrives stop.reply stop.pc stop.mode)
    (hrunning : w.session.IsRunning mode)
  | asked (hheld : w.held = some (.over false)) (hcpu : w.cpu = .halted) (htasks : w.tasks = [])
    (hwire : w.wire = []) (hrunning : w.session.IsRunning .over)
  | finished (hheld : w.held = some (.over true)) (hcpu : w.cpu = .halted) (htasks : w.tasks = [])
    (hwire : w.wire = []) (hstopped : w.session.IsStopped)
  | saving (hheld : w.held = some .save) (htasks : w.tasks = [])
    (hwire : w.cpu = .running none ∧ w.wire = [] ∨ w.cpu = .halted ∧ (w.wire = [] ∨
      ∃ stop, w.wire = [stop] ∧ stop.arrival = false ∧ isSignal stop.reply = false))
    (hstopped : w.session.IsStopped)

/-- The invariant of the permitted runs. -/
structure Inv (w : World) : Prop where
  books : Books w
  phase : Phase w

theorem inv_start : Inv .start where
  books :=
    { nodup := List.nodup_nil
      mirrors := fun _ => rfl
      lifted := fun h => nomatch h
      once := rfl
      signalled := fun _ _ h => nomatch h
      balanced := fun _ => rfl }
  phase := .paused rfl rfl rfl rfl ⟨rfl, rfl⟩

theorem balanced_passed {l : Ledger} {p : Point} (h : Balanced (some l) (some p) 1)
    (hskip : p.skip ≠ 0) : Balanced (some (l.note true true true))
      (some { p with hits := p.hits + 1, skip := p.skip - 1 }) 0 := by
  obtain ⟨hpassed, harrivals, honeshot, hflag, hleft, hhits⟩ := h
  refine ⟨?_, ?_, honeshot, hflag, ?_, ?_⟩ <;> simp only [Ledger.note, Bool.toNat_true,
    Bool.not_true, Bool.toNat_false] <;> omega

/-- A reported arrival uses up no skip, and there is none left if it would. -/
theorem ledger_reported {l : Ledger} {p : Point} (continued : Bool) {unpaused : Bool}
    (h : Balanced (some l) (some p) 1) (hskip : unpaused = true → p.skip = 0) :
    (l.note continued unpaused false).passed =
        min (l.note continued unpaused false).skip (l.note continued unpaused false).unpaused ∧
      (l.note continued unpaused false).passed + (l.note continued unpaused false).reported + 0 =
        (l.note continued unpaused false).arrivals := by
  obtain ⟨hpassed, harrivals, honeshot, hflag, hleft, hhits⟩ := h
  cases unpaused with
  | true =>
    have hzero := hskip rfl
    constructor <;> simp only [Ledger.note, Bool.toNat_true, Bool.not_false, Bool.toNat_false] <;>
      omega
  | false =>
    constructor <;> simp only [Ledger.note, Bool.toNat_true, Bool.not_false, Bool.toNat_false] <;>
      omega

theorem balanced_kept {l : Ledger} {p : Point} {continued unpaused : Bool}
    (h : Balanced (some l) (some p) 1) (hskip : unpaused = true → p.skip = 0)
    (hoften : p.oneshot = false) : Balanced (some (l.note continued unpaused false))
      (some { p with hits := p.hits + 1 }) 0 := by
  obtain ⟨hpassed, harrivals⟩ := ledger_reported continued h hskip
  obtain ⟨_, _, honeshot, hflag, hleft, hhits⟩ := h
  refine ⟨hpassed, harrivals, ?_, hflag, ?_, ?_⟩
  · intro hshot
    exact nomatch hoften.symm.trans (hflag.trans hshot)
  · simpa only [Ledger.note, Bool.toNat_false, Nat.add_zero] using hleft
  · exact hhits

theorem balanced_expired {l : Ledger} {p : Point} {continued unpaused : Bool}
    (h : Balanced (some l) (some p) 1) (hskip : unpaused = true → p.skip = 0)
    (hshot : p.oneshot = true) : Balanced (some (l.note continued unpaused false)) none 0 := by
  obtain ⟨hpassed, harrivals⟩ := ledger_reported continued h hskip
  obtain ⟨_, _, _, hflag, _, _⟩ := h
  exact ⟨hpassed, harrivals, hflag.symm.trans hshot, Nat.succ_pos _⟩

section Steps

variable {w w' : World}

/-- An operation that finds the host paused finds the target halted and nothing on its way. -/
theorem Phase.of_stopped (h : Phase w) (hheld : w.held = none)
    (hexecution : w.session.execution = .stopped) :
    w.cpu = .halted ∧ w.tasks = [] ∧ w.wire = [] ∧ w.session.IsStopped := by
  cases h with
  | paused _ hcpu htasks hwire hstopped => exact ⟨hcpu, htasks, hwire, hstopped⟩
  | running mode _ _ _ _ hrunning => exact nomatch hexecution.symm.trans hrunning.1
  | stopping mode stop _ _ _ _ _ _ hrunning => exact nomatch hexecution.symm.trans hrunning.1
  | asked hheld' => exact nomatch hheld.symm.trans hheld'
  | finished hheld' => exact nomatch hheld.symm.trans hheld'
  | saving hheld' => exact nomatch hheld.symm.trans hheld'

/-- An operation that needs a paused target has only that case to keep the invariant in. -/
theorem Inv.paused (h : Inv w) {f : World → World} (hstep : w.paused f = some w')
    (hf : w.held = none → w.cpu = .halted → w.tasks = [] → w.wire = [] → w.session.IsStopped →
      Inv (f w)) : Inv w' := by
  unfold World.paused at hstep
  split at hstep
  · cases hstep
  rename_i hlocked
  have hheld : w.held = none := by simpa using hlocked
  split at hstep
  · rename_i hexecution
    cases hstep
    obtain ⟨hcpu, htasks, hwire, hstopped⟩ := h.phase.of_stopped hheld hexecution
    exact hf hheld hcpu htasks hwire hstopped
  · cases hstep
    exact h

theorem Inv.go (h : Inv w) (mode : RunMode) (hheld : w.held = none) (htasks : w.tasks = [])
    (hwire : w.wire = []) : Inv (w.go mode) where
  books := ⟨h.books.nodup, h.books.mirrors, h.books.lifted, h.books.once, h.books.signalled,
    h.books.balanced⟩
  phase := .running mode (.inl hheld) rfl htasks hwire ⟨rfl, rfl⟩

/-- A pending pause changes no more than how the next stop is handled. -/
theorem Inv.pause (h : Inv w) :
    Inv { w with session := { w.session with interrupting := true } } where
  books := ⟨h.books.nodup, h.books.mirrors, h.books.lifted, h.books.once, h.books.signalled,
    h.books.balanced⟩
  phase := by
    cases h.phase with
    | paused hheld hcpu htasks hwire hstopped => exact .paused hheld hcpu htasks hwire hstopped
    | running mode hheld hcpu htasks hwire hrunning =>
      exact .running mode hheld hcpu htasks hwire hrunning
    | stopping mode stop hheld hcpu hpc hmode hwaiting harrival hrunning =>
      exact .stopping mode stop hheld hcpu hpc hmode hwaiting harrival hrunning
    | asked hheld hcpu htasks hwire hrunning => exact .asked hheld hcpu htasks hwire hrunning
    | finished hheld hcpu htasks hwire hstopped => exact .finished hheld hcpu htasks hwire hstopped
    | saving hheld htasks hwire hstopped => exact .saving hheld htasks hwire hstopped

/-- The books do not depend on the flags, nor on the lock while no save has it. -/
theorem Books.same (h : Books w) (hheld : w.held ≠ some .save) (hheld' : w'.held ≠ some .save)
    (hpoints : w'.session.points = w.session.points) (harmed : w'.session.armed = w.session.armed)
    (hwaiting : w'.waiting = w.waiting) (hmade : w'.made = w.made)
    (hhistory : w'.history = w.history) (hledger : w'.ledger = w.ledger) : Books w' where
  nodup := by simpa only [hpoints] using h.nodup
  mirrors _ := by simpa only [Mirrors, Session.keys, hpoints, harmed] using h.mirrors hheld
  lifted hsave := absurd hsave hheld'
  once := by simpa only [hwaiting, hmade, hhistory] using h.once
  signalled := by simpa only [hhistory] using h.signalled
  balanced address := by
    simpa only [hledger, Session.point?, hpoints, World.pending, hwaiting] using h.balanced address

theorem Inv.stepOver (h : Inv w) (hheld : w.held = none) (hcpu : w.cpu = .halted)
    (htasks : w.tasks = []) (hwire : w.wire = []) :
    Inv { w with session := w.session.run .over, held := some (.over false) } where
  books := h.books.same (by rw [hheld]; decide) (fun h => nomatch h) rfl rfl rfl rfl rfl rfl
  phase := .asked rfl hcpu htasks hwire ⟨rfl, rfl⟩

theorem Inv.startOver (h : Inv w) (hheld : w.held = some (.over false)) :
    Inv { w with held := some (.over true), cpu := .running (some .over) } where
  books := h.books.same (by rw [hheld]; decide) (fun h => nomatch h) rfl rfl rfl rfl rfl rfl
  phase := by
    cases h.phase with
    | asked _ _ htasks hwire hrunning =>
      exact .running .over (.inr ⟨rfl, rfl⟩) rfl htasks hwire hrunning
    | paused hnone => exact nomatch hheld.symm.trans hnone
    | finished hover => exact nomatch hheld.symm.trans hover
    | saving hsave => exact nomatch hheld.symm.trans hsave
    | running mode hfree | stopping mode stop hfree =>
      rcases hfree with hnone | ⟨_, hover⟩
      · exact nomatch hheld.symm.trans hnone
      · exact nomatch hheld.symm.trans hover

theorem Inv.answerOver (h : Inv w) (hheld : w.held = some (.over true)) :
    Inv { w with held := none } where
  books := h.books.same (by rw [hheld]; decide) (fun h => nomatch h) rfl rfl rfl rfl rfl rfl
  phase := by
    cases h.phase with
    | finished _ hcpu htasks hwire hstopped => exact .paused rfl hcpu htasks hwire hstopped
    | running mode _ hcpu htasks hwire hrunning =>
      exact .running mode (.inl rfl) hcpu htasks hwire hrunning
    | stopping mode stop _ hcpu hpc hmode hwaiting harrival hrunning =>
      exact .stopping mode stop (.inl rfl) hcpu hpc hmode hwaiting harrival hrunning
    | paused hnone => exact nomatch hheld.symm.trans hnone
    | asked hover => exact nomatch hheld.symm.trans hover
    | saving hsave => exact nomatch hheld.symm.trans hsave

theorem Inv.refuseOver (h : Inv w) (hheld : w.held = some (.over false)) :
    Inv { w with
      held := none
      session := { w.session with execution := .stopped, stopSet := true } } where
  books := h.books.same (by rw [hheld]; decide) (fun h => nomatch h) rfl rfl rfl rfl rfl rfl
  phase := by
    cases h.phase with
    | asked _ hcpu htasks hwire _ => exact .paused rfl hcpu htasks hwire ⟨rfl, rfl⟩
    | paused hnone => exact nomatch hheld.symm.trans hnone
    | finished hover => exact nomatch hheld.symm.trans hover
    | saving hsave => exact nomatch hheld.symm.trans hsave
    | running mode hfree | stopping mode stop hfree =>
      rcases hfree with hnone | ⟨_, hover⟩
      · exact nomatch hheld.symm.trans hnone
      · exact nomatch hheld.symm.trans hover

theorem pending_nil (h : w.waiting = []) (address : Nat) : w.pending address = 0 := by
  rw [World.pending, h]
  rfl

theorem Inv.breakpoint (h : Inv w) (symbols : Text → Option Nat) (args : Arguments)
    (hheld : w.held = none) (hcpu : w.cpu = .halted) (htasks : w.tasks = []) (hwire : w.wire = [])
    (hstopped : w.session.IsStopped) :
    Inv { w with
      session := w.session.after (Winuae.breakpoint symbols args allOk)
      ledger := w.reopen (w.session.after (Winuae.breakpoint symbols args allOk))
        (args.added symbols) } := by
  have hnosave : w.held ≠ some .save := by rw [hheld]; exact fun h => nomatch h
  have hwaiting : w.waiting = [] := by rw [World.waiting, htasks, hwire]; rfl
  have hmirrors : Mirrors (w.session.after (Winuae.breakpoint symbols args allOk)) :=
    triple_state (keeps_breakpoint symbols args allOk) (h.books.mirrors hnosave)
  have hbalanced (address : Nat) := h.books.balanced address
  simp only [pending_nil hwaiting] at hbalanced
  have hbooks (s' : Session) (hs' : w.session.after (Winuae.breakpoint symbols args allOk) = s')
      (hnodup : (s'.points.map Point.key).Nodup) (hledger : ∀ address, Balanced
        (w.reopen s' (args.added symbols) address) (s'.point? (executeKey address)) 0) :
      Books { w with
        session := w.session.after (Winuae.breakpoint symbols args allOk)
        ledger := w.reopen (w.session.after (Winuae.breakpoint symbols args allOk))
          (args.added symbols) } := by
    rw [hs'] at hmirrors ⊢
    refine ⟨hnodup, fun _ => hmirrors, fun h => absurd h hnosave, h.books.once,
      h.books.signalled, fun address => ?_⟩
    change Balanced _ _ (w.pending address)
    rw [pending_nil hwaiting]
    exact hledger address
  rcases breakpoint_cases w.session symbols args with ⟨p, hadded, hs'⟩ | ⟨hadded, gone, hs'⟩
  · have hpoint (address : Nat) : (if p.key ∈ w.session.keys then w.session.setPoint p
        else w.session.with p).point? (executeKey address) =
        if p.key = executeKey address then some p else w.session.point? (executeKey address) := by
      split
      · exact point?_setPoint ..
      · exact point?_setPoint ..
    constructor
    · refine hbooks _ hs' ?_ fun address => ?_
      · split
        · exact nodup_setPoint _ _ h.books.nodup
        · exact nodup_setPoint _ _ h.books.nodup
      · rw [hpoint]
        simp only [World.reopen, hadded]
        split
        · have hhits := hits_added hadded
          exact ⟨(Nat.min_zero _).symm, rfl, fun _ => rfl, rfl, rfl, hhits⟩
        · exact hbalanced address
    · have hflags : (w.session.after (Winuae.breakpoint symbols args allOk)).IsStopped := by
        rw [hs']
        split
        · exact hstopped
        · exact hstopped
      exact .paused hheld hcpu htasks hwire hflags
  · constructor
    · refine hbooks _ hs' (nodup_without h.books.nodup gone) fun address => ?_
      have hold := hbalanced address
      rw [point?_without]
      simp only [World.reopen, hadded, point?_without]
      by_cases hgone : executeKey address ∈ gone
      · simp only [if_pos hgone, Option.isNone_none, and_true]
        split
        · rfl
        · rename_i hnone
          rwa [Option.not_isSome_iff_eq_none.mp hnone] at hold
      · simp only [if_neg hgone]
        split
        · rename_i hboth
          rw [Option.isNone_iff_eq_none] at hboth
          rw [hboth.2] at hboth
          exact nomatch hboth.1
        · exact hold
    · have hflags : (w.session.after (Winuae.breakpoint symbols args allOk)).IsStopped := by
        rw [hs']
        exact hstopped
      exact .paused hheld hcpu htasks hwire hflags

/-- All points are lifted before the target runs on. -/
theorem Inv.save (h : Inv w) (hheld : w.held = none) (htasks : w.tasks = []) (hwire : w.wire = [])
    (hstopped : w.session.IsStopped) :
    Inv { w with
      session := { w.session with lifted := [] }.after
        (liftPoints (w.session.points.map Point.key) allOk)
      held := some .save
      cpu := .running none } := by
  have hmirrors : Mirrors w.session := h.books.mirrors (by rw [hheld]; exact fun h => nomatch h)
  rw [Session.after, outcome_liftPoints]
  constructor
  · refine ⟨h.books.nodup, fun h => absurd rfl h, fun _ => ?_, h.books.once, h.books.signalled,
      h.books.balanced⟩
    change w.session.keys = w.session.armed \ w.session.keys ∪ w.session.keys
    rw [hmirrors, Finset.sdiff_union_self_eq_union, Finset.union_self]
  · exact .saving rfl htasks (.inl ⟨rfl, hwire⟩) hstopped

/-- The lifted points are put back when the save is answered. -/
theorem Inv.answerSave (h : Inv w) (pc : Nat) (accepted : Bool) (hheld : w.held = some .save)
    (hwire : w.wire = []) :
    Inv { w with
      session := (w.session.after (putBack w.session.lifted allOk)).after
        (if accepted then afterCheckpoint .ok else pure ⟨⟩)
      held := none
      cpu := .halted
      pc := if w.cpu = .halted then w.pc else pc } := by
  obtain ⟨htasks, hstopped⟩ : w.tasks = [] ∧ w.session.IsStopped := by
    cases h.phase with
    | saving _ htasks _ hstopped => exact ⟨htasks, hstopped⟩
    | paused hnone => exact nomatch hheld.symm.trans hnone
    | asked hover | finished hover => exact nomatch hheld.symm.trans hover
    | running mode hfree | stopping mode stop hfree =>
      rcases hfree with hnone | ⟨_, hover⟩
      · exact nomatch hheld.symm.trans hnone
      · exact nomatch hheld.symm.trans hover
  have hlifted := h.books.lifted hheld
  have hafter : (w.session.after (putBack w.session.lifted allOk)).after
      (if accepted then afterCheckpoint .ok else pure ⟨⟩) =
      { w.session with armed := w.session.armed ∪ w.session.lifted.toFinset } := by
    simp only [Session.after, outcome_putBack]
    cases accepted with
    | false => rfl
    | true =>
      simp only [if_true, outcome_afterCheckpoint]
      rw [← hstopped.1, ← hstopped.2]
  rw [hafter]
  constructor
  · exact ⟨h.books.nodup, fun _ => hlifted, fun h => (nomatch h), h.books.once,
      h.books.signalled, h.books.balanced⟩
  · exact .paused rfl rfl htasks hwire hstopped

theorem Inv.restore (h : Inv w) (isFile accepted : Bool) (pc : Nat) (rest : List Reply)
    (registers : Reply) (hheld : w.held = none) (hcpu : w.cpu = .halted) (htasks : w.tasks = [])
    (hwire : w.wire = []) (hstopped : w.session.IsStopped) :
    Inv { w with
      session := w.session.after (checkpointRestore isFile (if accepted then .ok else .rejected)
        allOk rest registers)
      pc := if isFile && accepted then pc else w.pc } := by
  have hnosave : w.held ≠ some .save := by rw [hheld]; exact fun h => nomatch h
  obtain ⟨lastStop, hafter⟩ := restore_after w.session (h.books.mirrors hnosave) h.books.nodup
    hstopped.1 hstopped.2 isFile accepted rest registers
  rw [hafter]
  exact ⟨h.books.same hnosave hnosave rfl rfl rfl rfl rfl rfl,
    .paused hheld hcpu htasks hwire hstopped⟩

theorem pending_one {stop : Stop} (h : w.waiting = [stop]) (address : Nat) :
    w.pending address = if stop.arrival = true ∧ stop.pc = address then 1 else 0 := by
  rw [World.pending, h]
  by_cases harrival : stop.arrival = true <;> by_cases hpc : stop.pc = address <;>
    simp [harrival, hpc]

/-- An arrival that waits is one arrival more in the ledger. -/
theorem Balanced.arrived {entry : Option Ledger} {point : Option Point}
    (h : Balanced entry point 0) :
    Balanced (entry.map fun l => { l with arrivals := l.arrivals + 1 }) point 1 := by
  cases entry with
  | none => exact h
  | some l =>
    obtain ⟨hpassed, harrivals, hpoint⟩ := h
    refine ⟨hpassed, congrArg (· + 1) harrivals, ?_⟩
    cases point with
    | none => exact hpoint
    | some p =>
      obtain ⟨honeshot, hflag, hleft, hhits⟩ := hpoint
      exact ⟨honeshot, hflag, hleft, congrArg (· + 1) hhits⟩

theorem Books.halt (h : Books w) (reply : Text) (pc : Nat) (mode : Option RunMode)
    (htasks : w.tasks = []) (hwire : w.wire = []) : Books (w.halt reply pc mode) where
  nodup := h.nodup
  mirrors := h.mirrors
  lifted := h.lifted
  once := by
    change w.history.map Prod.fst ++ (w.tasks ++ (w.wire ++ _)) = w.made ++ _
    rw [← h.once, World.waiting, List.append_assoc, List.append_assoc]
  signalled := h.signalled
  balanced address := by
    have hbefore := h.balanced address
    rw [pending_nil (by rw [World.waiting, htasks, hwire]; rfl)] at hbefore
    have hwaiting : (w.halt reply pc mode).waiting = [⟨reply, pc, mode, w.arrives reply pc mode⟩] := by
      rw [World.waiting, World.halt, htasks, hwire]
      rfl
    rw [pending_one hwaiting]
    change Balanced ((if w.arrives reply pc mode = true then _ else w.ledger) address)
      (w.session.point? (executeKey address)) _
    by_cases harrival : w.arrives reply pc mode = true
    · simp only [harrival, if_true, true_and]
      by_cases hpc : pc = address
      · rw [if_pos hpc, World.enter, if_pos hpc.symm]
        exact hbefore.arrived
      · rw [if_neg hpc, World.enter, if_neg (Ne.symm hpc)]
        exact hbefore
    · simp only [harrival, Bool.false_eq_true, false_and, if_false]
      exact hbefore

theorem Inv.halt (h : Inv w) (reply : Text) (pc : Nat) (mode : Option RunMode)
    (hcpu : w.cpu = .running mode) (hquiet : w.cpu = .running none → isSignal reply = false) :
    Inv (w.halt reply pc mode) := by
  cases h.phase with
  | running mode' hheld hcpu' htasks hwire hrunning =>
    obtain rfl : mode = some mode' := Cpu.running.inj (hcpu.symm.trans hcpu')
    refine ⟨h.books.halt reply pc _ htasks hwire, .stopping mode'
      ⟨reply, pc, some mode', w.arrives reply pc (some mode')⟩ hheld rfl rfl rfl
      (.inl ⟨htasks, ?_⟩) rfl hrunning⟩
    rw [World.halt, hwire]
    rfl
  | saving hheld htasks hwire hstopped =>
    obtain ⟨hcpu', hwire⟩ : w.cpu = .running none ∧ w.wire = [] := by
      rcases hwire with hrun | ⟨hhalted, _⟩
      · exact hrun
      · exact nomatch hcpu.symm.trans hhalted
    obtain rfl : mode = none := Cpu.running.inj (hcpu.symm.trans hcpu')
    have harrival : w.arrives reply pc none = false := by simp [World.arrives]
    refine ⟨h.books.halt reply pc _ htasks hwire, .saving hheld htasks
      (.inr ⟨rfl, .inr ⟨⟨reply, pc, none, w.arrives reply pc none⟩, ?_, harrival,
        hquiet hcpu'⟩⟩) hstopped⟩
    rw [World.halt, hwire]
    rfl
  | paused _ hcpu' | asked _ hcpu' | finished _ hcpu' | stopping _ _ _ hcpu' =>
    exact nomatch hcpu.symm.trans hcpu'

/-- Signalling the stop that waits, where it is no arrival, settles the books. -/
theorem Books.signal (h : Books w) {stop : Stop} (hwaiting : w.waiting = [stop])
    (harrival : stop.arrival = false) {w' : World} (hheld : w'.held = w.held)
    (hpoints : w'.session.points = w.session.points) (harmed : w'.session.armed = w.session.armed)
    (hlifted : w'.session.lifted = w.session.lifted) (hnone : w'.waiting = [])
    (hmade : w'.made = w.made)
    (hhistory : w'.history = w.history ++ [(stop, .signalled .stopped)])
    (hledger : w'.ledger = w.ledger) : Books w' where
  nodup := by simpa only [hpoints] using h.nodup
  mirrors hsave := by
    have hmirrors := h.mirrors (hheld ▸ hsave)
    simpa only [Mirrors, Session.keys, hpoints, harmed] using hmirrors
  lifted hsave := by
    have hkeys := h.lifted (hheld ▸ hsave)
    simpa only [Session.keys, hpoints, harmed, hlifted] using hkeys
  once := by
    rw [hnone, hmade, hhistory, ← h.once, hwaiting]
    simp
  signalled other execution hmem := by
    rw [hhistory] at hmem
    rcases List.mem_append.mp hmem with hold | hnew
    · exact h.signalled other execution hold
    · exact (Fate.signalled.inj (Prod.mk.inj (List.mem_singleton.mp hnew)).2)
  balanced address := by
    have hbefore := h.balanced address
    rw [pending_one hwaiting, if_neg (by simp [harrival])] at hbefore
    rw [pending_nil hnone, hledger]
    simpa only [Session.point?, hpoints] using hbefore

/-- An arrival is left to a task. -/
theorem asksForPc_of_arrives {stop : Stop} {mode : RunMode} (hmirrors : Mirrors w.session)
    (harrives : w.arrives stop.reply stop.pc (some mode) = true)
    (hmode : w.session.runMode = some mode) : w.session.asksForPc stop.reply = true := by
  simp only [World.arrives, Bool.and_eq_true, decide_eq_true_eq] at harrives
  obtain ⟨⟨hsignal, _, hstep⟩, harmed⟩ := harrives
  rw [← hmirrors] at harmed
  obtain ⟨p, hp, hkey⟩ := mem_keys.mp harmed
  have hkind : p.kind = 0 := congrArg Key.kind hkey
  have hany : w.session.points.any (·.kind = 0) = true :=
    List.any_eq_true.mpr ⟨p, hp, decide_eq_true hkind⟩
  simp only [Session.asksForPc, hsignal, hmode, hany, Bool.and_eq_true, decide_eq_true_eq,
    and_true, true_and]
  exact hstep

theorem Inv.receive (h : Inv w) {stop : Stop} {rest : List Stop} (hwire : w.wire = stop :: rest) :
    Inv (w.receive stop rest) := by
  cases h.phase with
  | stopping mode stop' hheld hcpu hpc hmode hwaiting harrival hrunning =>
    have hnosave : w.held ≠ some .save := by
      rcases hheld with hnone | ⟨_, hover⟩
      · rw [hnone]; exact fun h => nomatch h
      · rw [hover]; exact fun h => nomatch h
    obtain ⟨htasks, hone⟩ : w.tasks = [] ∧ w.wire = [stop'] := by
      rcases hwaiting with hwait | ⟨_, hnone, _⟩
      · exact hwait
      · exact nomatch hwire.symm.trans hnone
    obtain ⟨rfl, rfl⟩ := List.cons.inj (hwire.symm.trans hone)
    have hwait : w.waiting = [stop] := by rw [World.waiting, htasks, hone]; rfl
    unfold World.receive
    split
    · rename_i hasks
      have hparts := hasks
      simp only [Session.asksForPc, Bool.and_eq_true, decide_eq_true_eq, hrunning.2] at hparts
      constructor
      · refine h.books.same hnosave hnosave rfl rfl ?_ rfl rfl rfl
        rw [hwait]
        simp only [World.waiting, htasks]
        rfl
      · refine .stopping mode stop hheld hcpu hpc hmode (.inr ⟨?_, rfl, hparts.1.1, ?_⟩) harrival
          hrunning
        · simp only [htasks]
          rfl
        · exact fun heq => hparts.1.2 (congrArg some heq)
    · rename_i hasks
      have hno : stop.arrival = false := by
        by_contra hyes
        rw [harrival, hmode] at hyes
        exact hasks (asksForPc_of_arrives (h.books.mirrors hnosave)
          (Bool.eq_true_of_not_eq_false hyes) hrunning.2)
      constructor
      · refine h.books.signal hwait hno rfl rfl rfl rfl ?_ rfl rfl rfl
        simp only [World.waiting, World.signal, htasks]
        rfl
      · rcases hheld with hnone | ⟨_, hover⟩
        · exact .paused hnone hcpu htasks rfl ⟨rfl, rfl⟩
        · exact .finished hover hcpu htasks rfl ⟨rfl, rfl⟩
  | saving hheld htasks hwaiting hstopped =>
    obtain ⟨hcpu, stop', hone, hno, hsignal⟩ : w.cpu = .halted ∧ ∃ stop, w.wire = [stop] ∧
        stop.arrival = false ∧ isSignal stop.reply = false := by
      rcases hwaiting with ⟨_, hnone⟩ | ⟨hcpu, hnone | hone⟩
      · exact nomatch hwire.symm.trans hnone
      · exact nomatch hwire.symm.trans hnone
      · exact ⟨hcpu, hone⟩
    obtain ⟨rfl, rfl⟩ := List.cons.inj (hwire.symm.trans hone)
    have hwait : w.waiting = [stop] := by rw [World.waiting, htasks, hone]; rfl
    have hasks : w.session.asksForPc stop.reply = false := by
      simp only [Session.asksForPc, hsignal, Bool.false_and]
    simp only [World.receive, hasks, Bool.false_eq_true, if_false]
    constructor
    · refine h.books.signal hwait hno rfl rfl rfl rfl ?_ rfl rfl rfl
      simp only [World.waiting, World.signal, htasks]
      rfl
    · exact .saving hheld htasks (.inr ⟨hcpu, .inl rfl⟩) ⟨rfl, rfl⟩
  | paused _ _ _ hnone | running _ _ _ _ hnone | asked _ _ _ hnone | finished _ _ _ hnone =>
    exact nomatch hwire.symm.trans hnone

/-- Handling the arrival that waits settles the books if it does so at its address. -/
theorem Books.handle (h : Books w) {stop : Stop} (fate : Fate) (hheld : w.held = none)
    (hwaiting : w.waiting = [stop]) (harrival : stop.arrival = true) {w' : World}
    (hheld' : w'.held = w.held) (hnodup : (w'.session.points.map Point.key).Nodup)
    (hmirrors : Mirrors w'.session) (hnone : w'.waiting = []) (hmade : w'.made = w.made)
    (hhistory : w'.history = w.history ++ [(stop, fate)])
    (hfate : ∀ execution, fate = .signalled execution → execution = .stopped)
    (hledger : ∀ address, address ≠ stop.pc → w'.ledger address = w.ledger address)
    (hpoint : ∀ address, address ≠ stop.pc →
      w'.session.point? (executeKey address) = w.session.point? (executeKey address))
    (hhere : Balanced (w.ledger stop.pc) (w.session.point? (executeKey stop.pc)) 1 →
      Balanced (w'.ledger stop.pc) (w'.session.point? (executeKey stop.pc)) 0) : Books w' where
  nodup := hnodup
  mirrors _ := hmirrors
  lifted hsave := by
    rw [hheld', hheld] at hsave
    exact nomatch hsave
  once := by
    rw [hnone, hmade, hhistory, ← h.once, hwaiting]
    simp
  signalled other execution hmem := by
    rw [hhistory] at hmem
    rcases List.mem_append.mp hmem with hold | hnew
    · exact h.signalled other execution hold
    · exact hfate execution (Prod.mk.inj (List.mem_singleton.mp hnew)).2.symm
  balanced address := by
    have hbefore := h.balanced address
    rw [pending_one hwaiting] at hbefore
    rw [pending_nil hnone]
    by_cases hpc : address = stop.pc
    · rw [if_pos ⟨harrival, hpc.symm⟩, hpc] at hbefore
      rw [hpc]
      exact hhere hbefore
    · rw [if_neg fun hboth => hpc hboth.2.symm] at hbefore
      rw [hledger address hpc, hpoint address hpc]
      exact hbefore

theorem executeKey_ne {a b : Nat} (h : a ≠ b) : executeKey b ≠ executeKey a :=
  fun heq => h (congrArg Key.address heq).symm

/-- The host has signalled a stop and the target stays halted. -/
theorem Phase.handled {stop : Stop} {s' : Session} (hheld : w.held = none)
    (hcpu : w.cpu = .halted) (hwire : w.wire = [])
    (hgeneration : s'.generation = w.session.generation + 1) (hstopped : s'.IsStopped) :
    Phase (w.handled stop [] s') := by
  refine .paused hheld ?_ rfl hwire hstopped
  simp only [World.handled]
  rw [decide_eq_false (by omega), if_neg Bool.false_ne_true, hcpu]

theorem history_handled (stop : Stop) {s' : Session}
    (hgeneration : s'.generation = w.session.generation + 1) (hstopped : s'.IsStopped) :
    (w.handled stop [] s').history = w.history ++ [(stop, .signalled .stopped)] := by
  simp only [World.handled]
  rw [decide_eq_false (by omega), if_neg Bool.false_ne_true, hstopped.1]

/-- The ledger of an arrival's address notes how it was handled. -/
theorem ledger_handled {stop : Stop} {s' : Session} (harrival : stop.arrival = true)
    (address : Nat) : (w.handled stop [] s').ledger address =
      if address = stop.pc then (w.ledger address).map
        (·.note (stop.mode = some .cont) (decide (stop.mode = some .cont) && !w.session.interrupting)
          (s'.generation = w.session.generation))
      else w.ledger address := by
  simp only [World.handled, harrival, if_true]
  rfl

theorem Inv.process (h : Inv w) {stop : Stop} {rest : List Stop} (hheld : w.held = none)
    (htasks : w.tasks = stop :: rest) : Inv (w.process stop rest) := by
  obtain ⟨mode, rfl, hwire, hcpu, hpc, hmode, hsignal, hstep, harrival, hrunning⟩ :
      ∃ mode, rest = [] ∧ w.wire = [] ∧ w.cpu = .halted ∧ w.pc = stop.pc ∧
        stop.mode = some mode ∧ isSignal stop.reply = true ∧ mode ≠ .step ∧
        stop.arrival = w.arrives stop.reply stop.pc stop.mode ∧ w.session.IsRunning mode := by
    cases h.phase with
    | stopping mode stop' _ hcpu hpc hmode hwaiting harrival hrunning =>
      rcases hwaiting with ⟨hnone, _⟩ | ⟨hone, hwire, hsignal, hstep⟩
      · exact nomatch htasks.symm.trans hnone
      · obtain ⟨rfl, rfl⟩ := List.cons.inj (htasks.symm.trans hone)
        exact ⟨mode, rfl, hwire, hcpu, hpc, hmode, hsignal, hstep, harrival, hrunning⟩
    | paused _ _ hnone | running _ _ _ hnone | asked _ _ hnone | finished _ _ hnone
    | saving _ hnone => exact nomatch htasks.symm.trans hnone
  have hnosave : w.held ≠ some .save := by rw [hheld]; exact fun h => nomatch h
  have hmirrors := h.books.mirrors hnosave
  have hwaiting : w.waiting = [stop] := by rw [World.waiting, htasks, hwire]; rfl
  have hmirrors' : Mirrors (w.session.after (processStop stop.reply (.value w.pc) .ok)) :=
    triple_state (keeps_processStop stop.reply (.value w.pc) .ok) hmirrors
  have harrives : stop.arrival = decide (executeKey stop.pc ∈ w.session.armed) := by
    rw [harrival, hmode, World.arrives, hsignal]
    simp [hstep]
  have hafter := processStop_after w.session stop.reply w.pc
  unfold World.process
  unfold Session.examined at hafter
  generalize w.session.after (processStop stop.reply (.value w.pc) .ok) = s' at hafter hmirrors' ⊢
  have hnone : (w.handled stop [] s').waiting = [] := hwire
  rw [hpc] at hafter
  cases hpoint : w.session.point? (executeKey stop.pc) with
  | none =>
    have hno : stop.arrival = false := by
      rw [harrives, decide_eq_false_iff_not, ← hmirrors, ← point?_isNone, hpoint]
      rfl
    simp only [hpoint, Bool.false_eq_true, if_false] at hafter
    have hgeneration : s'.generation = w.session.generation + 1 := by rw [hafter]; rfl
    have hstopped : s'.IsStopped := by rw [hafter]; exact ⟨rfl, rfl⟩
    constructor
    · have hledger : (w.handled stop [] s').ledger = w.ledger := by
        simp only [World.handled, hno, Bool.false_eq_true, if_false]
      have hhistory := history_handled stop hgeneration hstopped
      rw [hafter] at hhistory hledger hnone ⊢
      exact h.books.signal hwaiting hno rfl rfl rfl rfl hnone rfl hhistory hledger
    · exact .handled hheld hcpu hwire hgeneration hstopped
  | some p =>
    have hyes : stop.arrival = true := by
      rw [harrives, decide_eq_true_iff, ← hmirrors, ← point?_isSome, hpoint]
      rfl
    have hkey : p.key = executeKey stop.pc := (mem_keys_of_point? hpoint).1
    have hother (address : Nat) (hne : address ≠ stop.pc) (q : Point)
        (hq : q.key = executeKey stop.pc) : (w.session.setPoint q).point? (executeKey address) =
        w.session.point? (executeKey address) := by
      rw [point?_setPoint, if_neg (by rw [hq]; exact executeKey_ne hne)]
    have hhere (q : Point) (hq : q.key = executeKey stop.pc) :
        (w.session.setPoint q).point? (executeKey stop.pc) = some q := by
      rw [point?_setPoint, if_pos hq]
    simp only [hpoint] at hafter
    by_cases hskip : p.skip ≠ 0 ∧ w.session.runMode = some .cont ∧ w.session.interrupting = false
    · rw [if_pos hskip, if_pos rfl] at hafter
      have hcont : stop.mode = some .cont := by rw [hmode, ← hrunning.2, hskip.2.1]
      have hgeneration : s'.generation = w.session.generation := by rw [hafter]; rfl
      have hpassed : Balanced (w.ledger stop.pc) (w.session.point? (executeKey stop.pc)) 1 →
          Balanced ((w.handled stop [] s').ledger stop.pc) (s'.point? (executeKey stop.pc)) 0 := by
        intro hbefore
        have hnow : s'.point? (executeKey stop.pc) =
            some { p with hits := p.hits + 1, skip := p.skip - 1 } := by
          rw [hafter]
          exact hhere _ hkey
        rw [ledger_handled hyes, if_pos rfl, hnow]
        rw [hpoint] at hbefore
        cases hentry : w.ledger stop.pc with
        | none =>
          rw [hentry] at hbefore
          exact nomatch hbefore
        | some l =>
          rw [hentry] at hbefore
          simp only [Option.map_some, hcont, hskip.2.2, hgeneration, decide_true, Bool.not_false,
            Bool.and_true]
          exact balanced_passed hbefore hskip.1
      constructor
      · refine h.books.handle .passed hheld hwaiting hyes rfl ?_ hmirrors' hnone rfl ?_
          (fun _ h => nomatch h) (fun address hne => ?_) (fun address hne => ?_) hpassed
        · change (s'.points.map Point.key).Nodup
          rw [hafter]
          exact nodup_setPoint _ _ h.books.nodup
        · simp only [World.handled, hgeneration, decide_true, if_true]
        · rw [ledger_handled hyes, if_neg hne]
        · change s'.point? _ = _
          rw [hafter]
          exact hother address hne _ hkey
      · refine .running .cont (.inl hheld) ?_ rfl hwire ?_
        · simp only [World.handled, hgeneration, decide_true, if_true]
        · change s'.IsRunning .cont
          rw [hafter]
          exact ⟨hrunning.1, hskip.2.1⟩
    · rw [if_neg hskip] at hafter
      have hgeneration : s'.generation = w.session.generation + 1 := by
        rw [hafter]
        split <;> rfl
      have hstopped : s'.IsStopped := by
        rw [hafter]
        split <;> exact ⟨rfl, rfl⟩
      -- A stop that would use up a skip finds none left.
      have hnoSkip : (decide (stop.mode = some .cont) && !w.session.interrupting) = true →
          p.skip = 0 := by
        intro hboth
        simp only [Bool.and_eq_true, decide_eq_true_eq, Bool.not_eq_true'] at hboth
        rw [hmode, ← hrunning.2] at hboth
        by_contra hleft
        exact hskip ⟨hleft, hboth⟩
      have hreported : Balanced (w.ledger stop.pc) (w.session.point? (executeKey stop.pc)) 1 →
          Balanced ((w.handled stop [] s').ledger stop.pc) (s'.point? (executeKey stop.pc)) 0 := by
        intro hbefore
        rw [ledger_handled hyes, if_pos rfl]
        rw [hpoint] at hbefore
        have hsignal : decide (s'.generation = w.session.generation) = false :=
          decide_eq_false (by omega)
        cases hentry : w.ledger stop.pc with
        | none =>
          rw [hentry] at hbefore
          exact nomatch hbefore
        | some l =>
          rw [hentry] at hbefore
          simp only [Option.map_some, hsignal]
          by_cases hshot : p.oneshot = true
          · have hgone : s'.point? (executeKey stop.pc) = none := by
              rw [hafter, if_pos hshot]
              exact (point?_without _ _ _).trans (if_pos (List.mem_singleton_self _))
            rw [hgone]
            exact balanced_expired hbefore hnoSkip hshot
          · have hnow : s'.point? (executeKey stop.pc) = some { p with hits := p.hits + 1 } := by
              rw [hafter, if_neg hshot]
              exact hhere _ hkey
            rw [hnow]
            exact balanced_kept hbefore hnoSkip (Bool.eq_false_of_not_eq_true hshot)
      constructor
      · refine h.books.handle (.signalled .stopped) hheld hwaiting hyes rfl ?_ hmirrors'
          hnone rfl (history_handled stop hgeneration hstopped) (fun _ h => (Fate.signalled.inj h).symm)
          (fun address hne => ?_) (fun address hne => ?_) hreported
        · change (s'.points.map Point.key).Nodup
          rw [hafter]
          split
          · exact nodup_without (nodup_setPoint _ _ h.books.nodup) _
          · exact nodup_setPoint _ _ h.books.nodup
        · rw [ledger_handled hyes, if_neg hne]
        · change s'.point? _ = _
          rw [hafter]
          split
          · refine (point?_without _ _ _).trans ((if_neg ?_).trans (hother address hne _ hkey))
            rw [List.mem_singleton]
            exact (executeKey_ne hne).symm
          · exact hother address hne _ hkey
      · exact .handled hheld hcpu hwire hgeneration hstopped

/-- Every permitted step keeps the invariant. -/
theorem inv_next {symbols : Text → Option Nat} {label : Label} (h : Inv w) (hquiet : Quiet w label)
    (hstep : w.next symbols label = some w') : Inv w' := by
  cases label with
  | resume =>
    simp only [World.next] at hstep
    exact h.paused hstep fun hheld _ htasks hwire _ => h.go .cont hheld htasks hwire
  | step =>
    simp only [World.next] at hstep
    exact h.paused hstep fun hheld _ htasks hwire _ => h.go .step hheld htasks hwire
  | rangeStep =>
    simp only [World.next] at hstep
    exact h.paused hstep fun hheld _ htasks hwire _ => h.go .range hheld htasks hwire
  | pause =>
    simp only [World.next] at hstep
    split at hstep
    · cases hstep
    split at hstep
    · cases hstep
      exact h
    · cases hstep
      exact h.pause
  | stepOver =>
    simp only [World.next] at hstep
    exact h.paused hstep fun hheld hcpu htasks hwire _ => h.stepOver hheld hcpu htasks hwire
  | startOver =>
    obtain ⟨hheld, hnext⟩ := Option.ite_none_right_eq_some.mp hstep
    cases hnext
    exact h.startOver hheld
  | answerOver =>
    obtain ⟨hheld, hnext⟩ := Option.ite_none_right_eq_some.mp hstep
    cases hnext
    exact h.answerOver hheld
  | refuseOver =>
    obtain ⟨hheld, hnext⟩ := Option.ite_none_right_eq_some.mp hstep
    cases hnext
    exact h.refuseOver hheld
  | breakpoint args =>
    simp only [World.next] at hstep
    exact h.paused hstep (h.breakpoint symbols args)
  | save =>
    simp only [World.next] at hstep
    exact h.paused hstep fun hheld _ htasks hwire => h.save hheld htasks hwire
  | answerSave pc accepted =>
    obtain ⟨⟨hheld, hwire⟩, hnext⟩ := Option.ite_none_right_eq_some.mp hstep
    cases hnext
    exact h.answerSave pc accepted hheld hwire
  | restore isFile accepted pc rest registers =>
    simp only [World.next] at hstep
    exact h.paused hstep (h.restore isFile accepted pc rest registers)
  | halt reply pc =>
    simp only [World.next] at hstep
    split at hstep
    · rename_i mode hcpu
      cases hstep
      exact h.halt reply pc mode hcpu hquiet
    · cases hstep
  | receive =>
    simp only [World.next] at hstep
    split at hstep
    · rename_i stop rest hwire
      cases hstep
      exact h.receive hwire
    · cases hstep
  | process =>
    simp only [World.next] at hstep
    split at hstep
    · rename_i stop rest hheld htasks
      cases hstep
      exact h.process hheld htasks
    · cases hstep

/-- The ledger of a breakpoint and the breakpoint, where there is one. -/
theorem Inv.entry (h : Inv w) {address : Nat} {l : Ledger} (hentry : w.ledger address = some l) :
    Balanced (some l) (w.session.point? (executeKey address)) (w.pending address) :=
  hentry ▸ h.books.balanced address

theorem Inv.semantics (h : Inv w) : Semantics Ledger.unpaused w where
  skips _ _ hentry := (h.entry hentry).1
  arrivals _ _ hentry := (h.entry hentry).2.1
  oneshot address l hentry := by
    have hpoint := (h.entry hentry).2.2
    cases heq : w.session.point? (executeKey address) with
    | none =>
      rw [heq] at hpoint
      simp only [Option.isSome_none, Bool.false_eq_true, false_iff]
      exact fun hnever => absurd (hnever hpoint.1) (Nat.pos_iff_ne_zero.mp hpoint.2)
    | some p =>
      rw [heq] at hpoint
      simp only [Option.isSome_some, true_iff]
      exact hpoint.1
  hits address l p hentry hp := by
    have hpoint := (h.entry hentry).2.2
    rw [hp] at hpoint
    exact hpoint.2.2.2
  once := h.books.once
  signalled := h.books.signalled
  execution hwaiting hheld := by
    cases h.phase with
    | paused _ hcpu _ _ hstopped => exact .inl ⟨hstopped.1, hstopped.2, hcpu⟩
    | running mode _ hcpu _ _ hrunning => exact .inr ⟨hrunning.1, mode, hcpu, hrunning.2⟩
    | stopping mode stop _ _ _ _ hone =>
      rcases hone with ⟨htasks, hwire⟩ | ⟨htasks, hwire, _⟩
      · rw [World.waiting, htasks, hwire] at hwaiting
        exact nomatch hwaiting
      · rw [World.waiting, htasks, hwire] at hwaiting
        exact nomatch hwaiting
    | asked hover | finished hover => exact nomatch hheld.symm.trans hover
    | saving hsave => exact nomatch hheld.symm.trans hsave
  noFalseStop hheld hstopped := by
    obtain ⟨hcpu, htasks, hwire, _⟩ := h.phase.of_stopped hheld hstopped
    exact ⟨hcpu, by rw [World.waiting, htasks, hwire]; rfl⟩

end Steps

/-- In every run, skips count the arrivals of continued runs with no pause pending; one-shot
breakpoints, hits and stops are as documented for every arrival. -/
theorem breakpoints_and_stops {symbols : Text → Option Nat} {w : World}
    (hrun : Reaches (World.next symbols) Quiet .start w) : Semantics Ledger.unpaused w :=
  (hrun.invariant Inv inv_start fun _ _ _ h hquiet hstep => inv_next h hquiet hstep).semantics

instance (w : World) : (label : Label) → Decidable (Quiet w label)
  | .halt _ _ => inferInstanceAs (Decidable (_ → _))
  | .resume | .step | .rangeStep | .pause | .stepOver | .startOver | .answerOver | .refuseOver
  | .breakpoint _ | .save | .answerSave _ _ | .restore _ _ _ _ _ | .receive | .process => isTrue trivial

/-- Add an execute breakpoint that is passed `skip` times. -/
def addSkipping (address skip : Nat) : Label :=
  .breakpoint ⟨"add".toList, some (.int address), "execute".toList, .int 1, .int skip, .bool false,
    none⟩

/-- The target stops at a breakpoint and the host handles the stop. -/
def arrive (pc : Nat) : List Label := [.halt "S05".toList pc, .receive, .process]

/-- A breakpoint with one skip is passed once and reported the second time, around a save. -/
theorem breakpoints_and_stops_skip :
    ∃ w l, Reaches (World.next fun _ => none) Quiet .start w ∧ w.ledger 4096 = some l ∧
      l.arrivals = 2 ∧ l.passed = 1 ∧ Semantics Ledger.unpaused w := by
  have hend : (runLabels (World.next fun _ => none) .start
      (addSkipping 4096 1 :: .save :: .answerSave 256 true :: .resume :: arrive 4096 ++
        arrive 4096)).bind (fun w => (w.ledger 4096).map fun l => (l.arrivals, l.passed)) =
      some (2, 1) := by decide
  have hquiet : AllPermitted (World.next fun _ => none) Quiet .start
      (addSkipping 4096 1 :: .save :: .answerSave 256 true :: .resume :: arrive 4096 ++
        arrive 4096) := by decide
  obtain ⟨w, hrun, hentry⟩ := Option.bind_eq_some_iff.mp hend
  obtain ⟨l, hledger, hcounts⟩ := Option.map_eq_some_iff.mp hentry
  have hreaches := Reaches.refl.of_labels hrun hquiet
  exact ⟨w, l, hreaches, hledger, (Prod.mk.inj hcounts).1, (Prod.mk.inj hcounts).2,
    breakpoints_and_stops hreaches⟩

/-- A breakpoint that is to be passed once is reported the first time if a pause is pending. -/
theorem breakpoints_and_stops_pause :
    ¬ ∀ w, Reaches (World.next fun _ => none) (fun _ _ => True) .start w →
      Semantics Ledger.continued w := by
  intro hall
  have hend : (runLabels (World.next fun _ => none) .start
      (addSkipping 4096 1 :: .resume :: .pause :: arrive 4096)).bind
        (fun w => (w.ledger 4096).map fun l => (l.skip, l.continued, l.passed)) =
      some (1, 1, 0) := by decide
  obtain ⟨w, hrun, hentry⟩ := Option.bind_eq_some_iff.mp hend
  obtain ⟨l, hledger, hcounts⟩ := Option.map_eq_some_iff.mp hentry
  have hskips := (hall w (Reaches.refl.of_labels hrun (allPermitted_true ..))).skips 4096 l hledger
  obtain ⟨hskip, hrest⟩ := Prod.mk.inj hcounts
  obtain ⟨hcontinued, hpassed⟩ := Prod.mk.inj hrest
  rw [hskip, hcontinued, hpassed] at hskips
  exact absurd hskips (by decide)

end AmigaDevbench.Winuae
