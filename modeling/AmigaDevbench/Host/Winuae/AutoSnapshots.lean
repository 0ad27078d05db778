import AmigaDevbench.Host.Winuae.Runs

/-!
# The automatic snapshots of `winuae_state.py`

The loop samples whether the guest runs, pauses it, saves a checkpoint and resumes it, in steps
between which the users' operations and the target's stops take place. Beside the code the model
carries how the guest would run without the loop.
-/

namespace AmigaDevbench.Winuae

/-- Where `AutoSnapshots._loop` is, with the value of `running` from where it matters. -/
inductive Attempt where
  /-- `asyncio.sleep`. -/
  | asleep
  /-- Before the lock of `pause`. -/
  | pausing
  /-- `wait_stopped`, and the stop generation it began in. -/
  | waiting (generation : Nat)
  /-- Before the lock of `checkpoint`. -/
  | checkpoint (running : Bool)
  | saving (running : Bool)
  /-- The `finally` block. -/
  | resuming (running : Bool)
  deriving DecidableEq

/-- The loop has paused a running guest and is to resume it. -/
def Attempt.owes : Attempt → Bool
  | .asleep | .pausing => false
  | .waiting _ => true
  | .checkpoint running | .saving running | .resuming running => running

/-- Host and target with the loop. -/
structure AutoSnapshots where
  world : World
  /-- An interrupt on its way to the running target. -/
  interrupt : Bool
  attempt : Attempt
  /-- How the guest would run without the loop. -/
  alone : Option RunMode

def AutoSnapshots.start : AutoSnapshots := ⟨.start, false, .asleep, none⟩

/-- How the guest runs on; an interrupted one does not. -/
def AutoSnapshots.guest (s : AutoSnapshots) : Option RunMode :=
  match s.world.cpu with
  | .running (some mode) => if s.interrupt then none else some mode
  | .running none | .halted => none

/-- The moves of the users' operations, of the target and of the loop. -/
inductive AutoLabel where
  /-- A user's `pause`. -/
  | pause
  /-- Any other operation, the reader or one of its tasks. -/
  | other (label : Label)
  /-- The target stops, of itself or because of an interrupt. -/
  | halt (reply : Text) (pc : Nat) (interrupted : Bool)
  /-- The loop samples `execution`. -/
  | wake
  /-- Its `pause` has the lock. -/
  | interrupt
  /-- The wait for the stop is over. -/
  | stopped
  /-- The wait times out, or the loop is switched off while it waits for a stop or a lock. -/
  | abandon
  /-- Its `checkpoint` has the lock. -/
  | checkpoint
  /-- The checkpoint raises before it lifts a point. -/
  | fail
  /-- The save is answered; the guest may have passed a lifted breakpoint in its run. -/
  | saved (pc : Nat) (accepted passed : Bool)
  /-- The `finally` block, and the loop sleeps again. -/
  | resume

/-- The labels of `other`. -/
def Label.isOther : Label → Bool
  | .pause | .save | .answerSave _ _ | .halt _ _ => false
  | .resume | .step | .rangeStep | .stepOver | .startOver | .answerOver | .refuseOver
  | .breakpoint _ | .restore _ _ _ _ _ | .receive | .process => true

/-- The mode of a run that has begun between two moments. -/
def begun (before after : Cpu) : Option RunMode :=
  match before, after with
  | .halted, .running mode => mode
  | _, _ => none

/-- `_pause` up to its wait: an interrupt that finds the target halted has no effect. -/
def AutoSnapshots.askPause (symbols : Text → Option Nat) (s : AutoSnapshots) :
    Option AutoSnapshots :=
  (s.world.next symbols .pause).map fun w =>
    { s with
      world := w
      interrupt := s.interrupt ||
        (s.world.session.execution ≠ .stopped && s.world.cpu ≠ .halted) }

/-- One step. -/
def AutoSnapshots.next (symbols : Text → Option Nat) (s : AutoSnapshots) :
    AutoLabel → Option AutoSnapshots
  | .pause => (s.askPause symbols).map fun s' => { s' with alone := none }
  | .other label =>
    if label.isOther then
      (s.world.next symbols label).map fun w =>
        { s with world := w, alone := s.alone.or (begun s.world.cpu w.cpu) }
    else none
  | .halt reply pc interrupted =>
    match s.world.cpu with
    | .running mode =>
      if interrupted && !s.interrupt then none
      else some { s with
        world := s.world.halt reply pc mode
        interrupt := false
        -- A run that is not the guest's own stops without effect on it.
        alone := if interrupted ∨ (mode.isSome ∧ mode ≠ s.alone) then s.alone else none }
    | .halted => none
  | .wake =>
    if s.attempt = .asleep then
      some { s with
        attempt := if s.world.session.execution = .stopped then .checkpoint false else .pausing }
    else none
  | .interrupt =>
    if s.attempt = .pausing then
      (s.askPause symbols).map fun s' =>
        { s' with
          attempt := if s.world.session.execution = .stopped then .checkpoint true
            else .waiting s.world.session.generation }
    else none
  | .stopped =>
    match s.attempt with
    | .waiting generation =>
      if s.world.session.stopSet = true ∨ generation < s.world.session.generation then
        some { s with attempt := .checkpoint true }
      else none
    | _ => none
  | .abandon =>
    match s.attempt with
    | .pausing | .waiting _ | .resuming _ => some { s with attempt := .asleep }
    | .asleep | .checkpoint _ | .saving _ => none
  | .checkpoint =>
    match s.attempt with
    | .checkpoint running =>
      (s.world.next symbols .save).map fun w =>
        { s with
          world := w
          attempt := if s.world.session.execution = .stopped then .saving running
            else .resuming running }
    | _ => none
  | .fail =>
    match s.attempt with
    | .checkpoint running => some { s with attempt := .resuming running }
    | _ => none
  | .saved pc accepted passed =>
    match s.attempt with
    | .saving running =>
      (s.world.next symbols (.answerSave pc accepted)).map fun w =>
        { s with
          world := w
          attempt := .resuming running
          alone := if passed then none else s.alone }
    | _ => none
  | .resume =>
    match s.attempt with
    | .resuming true =>
      (s.world.next symbols .resume).map fun w => { s with world := w, attempt := .asleep }
    | .resuming false => some { s with attempt := .asleep }
    | _ => none

/-- Between two attempts the guest runs exactly if it would run without the loop. -/
def Transparent (s : AutoSnapshots) : Prop :=
  s.attempt = .asleep → (s.guest.isSome ↔ s.alone.isSome)

/-- Where the loop interrupts the guest, it runs on from a `continue`, and nothing else stops it
until the loop has resumed it. -/
def Unhindered (s : AutoSnapshots) : AutoLabel → Prop
  | .interrupt => s.guest = some .cont
  | .pause => s.attempt.owes = false
  | .halt reply _ interrupted =>
    (s.world.cpu = .running none → isSignal reply = false) ∧
      (s.attempt.owes = true → interrupted = false →
        s.world.cpu ≠ .running none ∧ s.world.cpu ≠ .running (some .cont))
  | .abandon => s.attempt.owes = true → s.guest = some .cont
  | .saved _ _ passed => s.attempt.owes = true → passed = false
  | .resume => s.attempt.owes = true →
      s.world.session.execution = .stopped ∨ s.guest = some .cont
  | .other _ | .wake | .stopped | .checkpoint | .fail => True

/-- The invariant of the runs that meet the condition. -/
structure InPace (s : AutoSnapshots) : Prop where
  inv : Inv s.world
  interrupt : s.interrupt = true → ∃ mode, s.world.cpu = .running (some mode)
  /-- A loop that owes nothing has not changed how the guest runs. -/
  same : s.attempt.owes = false → s.guest = s.alone
  owed : s.attempt.owes = true → s.alone = some .cont

theorem inPace_start : InPace .start where
  inv := inv_start
  interrupt h := nomatch h
  same _ := rfl
  owed h := nomatch h

/-! ### The target during the moves of `other` -/

section Steps

variable {w w' : World} {symbols : Text → Option Nat}

/-- An operation that needs a paused target takes place there or not at all. -/
theorem paused_cases {f : World → World} (hstep : w.paused f = some w') :
    w' = w ∨ w.held = none ∧ w.session.execution = .stopped ∧ w' = f w := by
  unfold World.paused at hstep
  split at hstep
  · cases hstep
  rename_i hlocked
  have hheld : w.held = none := by simpa using hlocked
  split at hstep
  · rename_i hexecution
    cases hstep
    exact .inr ⟨hheld, hexecution, rfl⟩
  · cases hstep
    exact .inl rfl

/-- The target keeps its state, or a run begins. -/
def Begins (w w' : World) : Prop :=
  w'.cpu = w.cpu ∨ w.cpu = .halted ∧ ∃ mode, w'.cpu = .running (some mode)

theorem Inv.begins_go (h : Inv w) (mode : RunMode) (hstep : w.paused (·.go mode) = some w') :
    Begins w w' := by
  rcases paused_cases hstep with rfl | ⟨hheld, hexecution, rfl⟩
  · exact .inl rfl
  · exact .inr ⟨(h.phase.of_stopped hheld hexecution).1, mode, rfl⟩

theorem begins_keep {f : World → World} (hstep : w.paused f = some w')
    (hcpu : (f w).cpu = w.cpu) : Begins w w' := by
  rcases paused_cases hstep with rfl | ⟨_, _, rfl⟩
  · exact .inl rfl
  · exact .inl hcpu

theorem Phase.halted_of_asked (h : Phase w) (hheld : w.held = some (.over false)) :
    w.cpu = .halted := by
  cases h with
  | asked _ hcpu => exact hcpu
  | paused hnone => exact nomatch hheld.symm.trans hnone
  | finished hover => exact nomatch hheld.symm.trans hover
  | saving hsave => exact nomatch hheld.symm.trans hsave
  | running mode hfree | stopping mode stop hfree =>
    rcases hfree with hnone | ⟨_, hover⟩
    · exact nomatch hheld.symm.trans hnone
    · exact nomatch hheld.symm.trans hover

theorem Phase.halted_of_task (h : Phase w) {stop : Stop} {rest : List Stop}
    (htasks : w.tasks = stop :: rest) : w.cpu = .halted := by
  cases h with
  | stopping _ _ _ hcpu => exact hcpu
  | paused _ _ hnone | running _ _ _ hnone | asked _ _ hnone | finished _ _ hnone
  | saving _ hnone => exact nomatch htasks.symm.trans hnone

/-- Only a save runs the target without a mode. -/
theorem Phase.cpu_of_free (h : Phase w) (hheld : w.held = none) :
    w.cpu = .halted ∨ ∃ mode, w.cpu = .running (some mode) := by
  cases h with
  | running mode _ hcpu => exact .inr ⟨mode, hcpu⟩
  | saving hsave => exact nomatch hheld.symm.trans hsave
  | paused _ hcpu | asked _ hcpu | finished _ hcpu | stopping _ _ _ hcpu => exact .inl hcpu

/-- While a save keeps the lock no mode is under way. -/
theorem Phase.not_running_of_save (h : Phase w) (hheld : w.held = some .save) (mode : RunMode) :
    w.cpu ≠ .running (some mode) := by
  cases h with
  | saving _ _ hwire =>
    rcases hwire with ⟨hcpu, _⟩ | ⟨hcpu, _⟩
    · rw [hcpu]; exact fun h => nomatch h
    · rw [hcpu]; exact fun h => nomatch h
  | paused hnone => exact nomatch hheld.symm.trans hnone
  | asked hover | finished hover => exact nomatch hheld.symm.trans hover
  | running _ hfree | stopping _ _ hfree =>
    rcases hfree with hnone | ⟨_, hover⟩
    · exact nomatch hheld.symm.trans hnone
    · exact nomatch hheld.symm.trans hover

theorem Inv.begins_other (h : Inv w) {label : Label} (hother : label.isOther = true)
    (hstep : w.next symbols label = some w') : Begins w w' := by
  cases label with
  | pause | save | answerSave | halt => exact nomatch hother
  | resume | step | rangeStep => exact h.begins_go _ hstep
  | stepOver | breakpoint _ | restore _ _ _ _ _ =>
    simp only [World.next] at hstep
    exact begins_keep hstep rfl
  | startOver =>
    obtain ⟨hheld, hnext⟩ := Option.ite_none_right_eq_some.mp hstep
    cases hnext
    exact .inr ⟨h.phase.halted_of_asked hheld, .over, rfl⟩
  | answerOver | refuseOver =>
    obtain ⟨_, hnext⟩ := Option.ite_none_right_eq_some.mp hstep
    cases hnext
    exact .inl rfl
  | receive =>
    simp only [World.next] at hstep
    split at hstep
    · cases hstep
      unfold World.receive
      split
      · exact .inl rfl
      · exact .inl rfl
    · cases hstep
  | process =>
    simp only [World.next] at hstep
    split at hstep
    · rename_i stop rest _ htasks
      cases hstep
      simp only [Begins, World.process, World.handled]
      split
      · exact .inr ⟨h.phase.halted_of_task htasks, .cont, rfl⟩
      · exact .inl rfl
    · cases hstep

end Steps

/-! ### What an attempt keeps -/

section Attempts

variable {s s' : AutoSnapshots} {symbols : Text → Option Nat}

theorem guest_halted (h : s.world.cpu = .halted) : s.guest = none := by
  rw [AutoSnapshots.guest, h]

theorem guest_running {mode : RunMode} (h : s.world.cpu = .running (some mode))
    (hinterrupt : s.interrupt = false) : s.guest = some mode := by
  simp only [AutoSnapshots.guest, h, hinterrupt, Bool.false_eq_true, if_false]

/-- A halted target takes no interrupt. -/
theorem InPace.interrupt_halted (h : InPace s) (hcpu : s.world.cpu = .halted) :
    s.interrupt = false := by
  refine Bool.eq_false_of_not_eq_true fun htrue => ?_
  obtain ⟨mode, hrunning⟩ := h.interrupt htrue
  exact nomatch hcpu.symm.trans hrunning

/-- A pause, whoever asks for it, leaves a guest that does not run on. -/
theorem InPace.askPause (h : InPace s) (hask : s.askPause symbols = some s') :
    Inv s'.world ∧ s'.attempt = s.attempt ∧ s'.alone = s.alone ∧ s'.guest = none ∧
      (s'.interrupt = true → ∃ mode, s'.world.cpu = .running (some mode)) := by
  obtain ⟨w, hnext, rfl⟩ := Option.map_eq_some_iff.mp hask
  have hquiet : Quiet s.world .pause := trivial
  have hinv : Inv w := inv_next h.inv hquiet hnext
  simp only [World.next] at hnext
  split at hnext
  · cases hnext
  rename_i hlocked
  have hheld : s.world.held = none := by simpa using hlocked
  split at hnext
  · rename_i hexecution
    cases hnext
    have hcpu := (h.inv.phase.of_stopped hheld hexecution).1
    refine ⟨hinv, rfl, rfl, guest_halted hcpu, fun hinterrupt => ?_⟩
    simp only [hexecution, ne_eq, not_true_eq_false, decide_false, Bool.false_and,
      Bool.or_false] at hinterrupt
    exact h.interrupt hinterrupt
  · rename_i hexecution
    cases hnext
    rcases h.inv.phase.cpu_of_free hheld with hcpu | ⟨mode, hcpu⟩
    · refine ⟨hinv, rfl, rfl, guest_halted hcpu, fun hinterrupt => ?_⟩
      simp only [hcpu, ne_eq, not_true_eq_false, decide_false, Bool.and_false,
        Bool.or_false] at hinterrupt
      cases hinterrupt.symm.trans (h.interrupt_halted hcpu)
    · refine ⟨hinv, rfl, rfl, ?_, fun _ => ⟨mode, hcpu⟩⟩
      simp [AutoSnapshots.guest, hcpu, hexecution]

theorem InPace.pause (h : InPace s) (hnot : s.attempt.owes = false)
    (hstep : s.next symbols .pause = some s') : InPace s' := by
  obtain ⟨t, hask, rfl⟩ := Option.map_eq_some_iff.mp hstep
  obtain ⟨hinv, hattempt, _, hguest, hinterrupt⟩ := h.askPause hask
  refine ⟨hinv, hinterrupt, fun _ => hguest, fun howes => ?_⟩
  change t.attempt.owes = true at howes
  rw [hattempt, hnot] at howes
  exact nomatch howes

/-- A run that begins is the guest's own, unless the guest would be running anyway. -/
theorem InPace.other (h : InPace s) {label : Label}
    (hstep : s.next symbols (.other label) = some s') : InPace s' := by
  obtain ⟨hother, hmap⟩ := Option.ite_none_right_eq_some.mp hstep
  obtain ⟨w, hnext, rfl⟩ := Option.map_eq_some_iff.mp hmap
  have hquiet : Quiet s.world label := by
    cases label with
    | halt => exact nomatch hother
    | _ => trivial
  have hinv : Inv w := inv_next h.inv hquiet hnext
  rcases h.inv.begins_other hother hnext with hcpu | ⟨hhalted, mode, hcpu⟩
  · have hbegun : begun s.world.cpu w.cpu = none := by
      rw [hcpu]
      cases s.world.cpu <;> rfl
    simp only [hbegun, Option.or_none]
    exact ⟨hinv, by simpa only [hcpu] using h.interrupt,
      by simpa only [AutoSnapshots.guest, hcpu] using h.same, h.owed⟩
  · have hbegun : begun s.world.cpu w.cpu = some mode := by rw [hhalted, hcpu]; rfl
    simp only [hbegun]
    refine ⟨hinv, fun _ => ⟨mode, hcpu⟩, fun hnot => ?_, fun howes => ?_⟩
    · have hnone : s.alone = none := (h.same hnot).symm.trans (guest_halted hhalted)
      rw [hnone]
      exact guest_running hcpu (h.interrupt_halted hhalted)
    · rw [h.owed howes]
      rfl

theorem InPace.halt (h : InPace s) {reply : Text} {pc : Nat} {interrupted : Bool}
    (hpermit : Unhindered s (.halt reply pc interrupted))
    (hstep : s.next symbols (.halt reply pc interrupted) = some s') : InPace s' := by
  simp only [AutoSnapshots.next] at hstep
  split at hstep
  · rename_i mode hcpu
    split at hstep
    · cases hstep
    rename_i htaken
    cases hstep
    obtain ⟨hquiet, hown⟩ := hpermit
    refine ⟨h.inv.halt reply pc mode hcpu hquiet, (fun h => by cases h), fun hnot => ?_,
      fun howes => ?_⟩
    · have hsame := h.same hnot
      change none = _
      split
      · rename_i hkept
        rw [← hsame, eq_comm]
        simp only [AutoSnapshots.guest, hcpu]
        cases interrupted with
        | true =>
          have hpending : s.interrupt = true := by simpa using htaken
          cases mode <;> simp [hpending]
        | false =>
          obtain ⟨hmode, hother⟩ := hkept.resolve_left Bool.false_ne_true
          obtain ⟨m, rfl⟩ := Option.isSome_iff_exists.mp hmode
          by_cases hpending : s.interrupt = true
          · simp [hpending]
          · rw [← hsame, guest_running hcpu (Bool.eq_false_of_not_eq_true hpending)] at hother
            exact absurd rfl hother
      · rfl
    · have halone := h.owed howes
      cases interrupted with
      | true =>
        rw [if_pos (.inl rfl)]
        exact halone
      | false =>
        obtain ⟨hsave, hcont⟩ := hown howes rfl
        rw [hcpu] at hsave hcont
        have hkept : mode.isSome = true ∧ mode ≠ s.alone := by
          rw [halone]
          cases mode with
          | none => exact absurd rfl hsave
          | some m => exact ⟨rfl, fun heq => hcont (congrArg Cpu.running heq)⟩
        rw [if_pos (.inr hkept)]
        exact halone
  · cases hstep

/-- The loop goes on to another part of an attempt and owes what it owed. -/
theorem InPace.move (h : InPace s) {attempt : Attempt} (howes : attempt.owes = s.attempt.owes) :
    InPace { s with attempt := attempt } where
  inv := h.inv
  interrupt := h.interrupt
  same hnot := h.same (howes.symm.trans hnot)
  owed howed := h.owed (howes.symm.trans howed)

/-- Up to its interrupt the loop changes nothing. -/
theorem InPace.wake (h : InPace s) (hstep : s.next symbols .wake = some s') : InPace s' := by
  obtain ⟨hasleep, hnext⟩ := Option.ite_none_right_eq_some.mp hstep
  cases hnext
  have howes : s.attempt.owes = false := by rw [hasleep]; rfl
  refine h.move ?_
  rw [howes]
  split <;> rfl

/-- The loop interrupts a guest that runs on as it would alone. -/
theorem InPace.askLoop (h : InPace s) (hpermit : Unhindered s .interrupt)
    (hstep : s.next symbols .interrupt = some s') : InPace s' := by
  obtain ⟨hpausing, hmap⟩ := Option.ite_none_right_eq_some.mp hstep
  obtain ⟨t, hask, rfl⟩ := Option.map_eq_some_iff.mp hmap
  obtain ⟨hinv, _, halone, _, hinterrupt⟩ := h.askPause hask
  have howed : t.alone = some .cont :=
    halone.trans ((h.same (by rw [hpausing]; rfl)).symm.trans hpermit)
  refine ⟨hinv, hinterrupt, fun hnot => ?_, fun _ => howed⟩
  split at hnot <;> exact nomatch hnot

/-- An attempt may end where the guest runs as it would alone. -/
theorem InPace.sleep (h : InPace s) (hguest : s.attempt.owes = true → s.guest = some .cont) :
    InPace { s with attempt := .asleep } where
  inv := h.inv
  interrupt := h.interrupt
  same _ := by
    cases howes : s.attempt.owes with
    | false => exact h.same howes
    | true => exact (hguest howes).trans (h.owed howes).symm
  owed h := nomatch h

theorem InPace.stopped (h : InPace s) (hstep : s.next symbols .stopped = some s') :
    InPace s' := by
  simp only [AutoSnapshots.next] at hstep
  split at hstep
  · rename_i generation hwaiting
    split at hstep
    · cases hstep
      exact h.move (by rw [hwaiting]; rfl)
    · cases hstep
  · cases hstep

theorem InPace.abandon (h : InPace s) (hpermit : Unhindered s .abandon)
    (hstep : s.next symbols .abandon = some s') : InPace s' := by
  simp only [AutoSnapshots.next] at hstep
  split at hstep
  · cases hstep
    exact h.sleep hpermit
  · cases hstep
    exact h.sleep hpermit
  · cases hstep
    exact h.sleep hpermit
  · cases hstep
  · cases hstep
  · cases hstep

theorem InPace.checkpoint (h : InPace s) (hstep : s.next symbols .checkpoint = some s') :
    InPace s' := by
  simp only [AutoSnapshots.next] at hstep
  split at hstep
  · rename_i running hattempt
    obtain ⟨w, hnext, rfl⟩ := Option.map_eq_some_iff.mp hstep
    have hquiet : Quiet s.world .save := trivial
    have hinv : Inv w := inv_next h.inv hquiet hnext
    simp only [World.next, World.paused] at hnext
    split at hnext
    · cases hnext
    rename_i hlocked
    have hheld : s.world.held = none := by simpa using hlocked
    have howes : s.attempt.owes = running := by rw [hattempt]; rfl
    split at hnext
    · rename_i hexecution
      cases hnext
      have hcpu := (h.inv.phase.of_stopped hheld hexecution).1
      have hnever := h.interrupt_halted hcpu
      simp only [if_pos hexecution]
      refine ⟨hinv, (fun htrue => by cases hnever.symm.trans htrue), fun hnot => ?_,
        fun howed => ?_⟩
      · exact (guest_halted hcpu).symm.trans (h.same (howes.trans hnot))
      · exact h.owed (howes.trans howed)
    · rename_i hexecution
      cases hnext
      simp only [if_neg hexecution]
      exact h.move howes.symm
  · cases hstep

theorem InPace.fail (h : InPace s) (hstep : s.next symbols .fail = some s') : InPace s' := by
  simp only [AutoSnapshots.next] at hstep
  split at hstep
  · rename_i running hattempt
    cases hstep
    exact h.move (by rw [hattempt]; rfl)
  · cases hstep

theorem InPace.saved (h : InPace s) {pc : Nat} {accepted passed : Bool}
    (hpermit : Unhindered s (.saved pc accepted passed))
    (hstep : s.next symbols (.saved pc accepted passed) = some s') : InPace s' := by
  simp only [AutoSnapshots.next] at hstep
  split at hstep
  · rename_i running hattempt
    obtain ⟨w, hnext, rfl⟩ := Option.map_eq_some_iff.mp hstep
    have hquiet : Quiet s.world (.answerSave pc accepted) := trivial
    have hinv : Inv w := inv_next h.inv hquiet hnext
    obtain ⟨⟨hheld, _⟩, hafter⟩ := Option.ite_none_right_eq_some.mp hnext
    cases hafter
    have hnever : s.interrupt = false := by
      refine Bool.eq_false_of_not_eq_true fun htrue => ?_
      obtain ⟨mode, hrunning⟩ := h.interrupt htrue
      exact h.inv.phase.not_running_of_save hheld mode hrunning
    have howes : s.attempt.owes = running := by rw [hattempt]; rfl
    have hguest : s.guest = none := by
      unfold AutoSnapshots.guest
      split
      · rename_i mode hcpu
        exact absurd hcpu (h.inv.phase.not_running_of_save hheld mode)
      · rfl
      · rfl
    refine ⟨hinv, (fun htrue => by cases hnever.symm.trans htrue), fun hnot => ?_,
      fun howed => ?_⟩
    · have hnone : s.alone = none := (h.same (howes.trans hnot)).symm.trans hguest
      rw [hnone, ite_self]
      exact guest_halted rfl
    · rw [hpermit (howes.trans howed), if_neg Bool.false_ne_true]
      exact h.owed (howes.trans howed)
  · cases hstep

/-- The loop resumes a guest that would be running. -/
theorem InPace.resume (h : InPace s) (hpermit : Unhindered s .resume)
    (hstep : s.next symbols .resume = some s') : InPace s' := by
  simp only [AutoSnapshots.next] at hstep
  split at hstep
  · rename_i hattempt
    obtain ⟨w, hnext, rfl⟩ := Option.map_eq_some_iff.mp hstep
    have hquiet : Quiet s.world .resume := trivial
    have hinv : Inv w := inv_next h.inv hquiet hnext
    have howes : s.attempt.owes = true := by rw [hattempt]; rfl
    simp only [World.next, World.paused] at hnext
    split at hnext
    · cases hnext
    rename_i hlocked
    have hheld : s.world.held = none := by simpa using hlocked
    split at hnext
    · rename_i hexecution
      cases hnext
      have hcpu := (h.inv.phase.of_stopped hheld hexecution).1
      refine ⟨hinv, fun _ => ⟨.cont, rfl⟩, fun _ => ?_, fun h => by cases h⟩
      have hnever := h.interrupt_halted hcpu
      rw [h.owed howes]
      simp only [AutoSnapshots.guest, World.go, hnever, Bool.false_eq_true, if_false]
    · rename_i hexecution
      cases hnext
      exact h.sleep fun _ => (hpermit howes).resolve_left hexecution
  · rename_i hattempt
    cases hstep
    exact h.sleep fun howes => by rw [hattempt] at howes; cases howes
  · cases hstep

/-- Every step that meets the condition keeps the invariant. -/
theorem inPace_next {label : AutoLabel} (h : InPace s) (hpermit : Unhindered s label)
    (hstep : s.next symbols label = some s') : InPace s' := by
  cases label with
  | pause => exact h.pause hpermit hstep
  | other label => exact h.other hstep
  | halt reply pc interrupted => exact h.halt hpermit hstep
  | wake => exact h.wake hstep
  | interrupt => exact h.askLoop hpermit hstep
  | stopped => exact h.stopped hstep
  | abandon => exact h.abandon hpermit hstep
  | checkpoint => exact h.checkpoint hstep
  | fail => exact h.fail hstep
  | saved pc accepted passed => exact h.saved hpermit hstep
  | resume => exact h.resume hpermit hstep

theorem InPace.transparent (h : InPace s) : Transparent s := by
  intro hasleep
  rw [h.same (by rw [hasleep]; rfl)]

end Attempts

/-- Snapshots leave the guest running exactly if it would run without them, in every run in which
nothing else stops a guest that the loop has paused. -/
theorem snapshots_transparent {symbols : Text → Option Nat} {s : AutoSnapshots}
    (hrun : Reaches (AutoSnapshots.next symbols) Unhindered .start s) : Transparent s :=
  (hrun.invariant InPace inPace_start fun _ _ _ h hpermit hstep =>
    inPace_next h hpermit hstep).transparent

instance (s : AutoSnapshots) : (label : AutoLabel) → Decidable (Unhindered s label)
  | .abandon | .saved _ _ _ | .resume => inferInstanceAs (Decidable (_ → _))
  | .halt _ _ _ => inferInstanceAs (Decidable ((_ → _) ∧ (_ → _ → _ ∧ _)))
  | .pause | .interrupt => inferInstanceAs (Decidable (_ = _))
  | .other _ | .wake | .stopped | .checkpoint | .fail => isTrue trivial

/-- The loop pauses a running guest up to the stop. -/
def loopPauses (pc : Nat) : List AutoLabel :=
  [.wake, .interrupt, .halt "S02".toList pc true, .other .receive, .stopped]

/-- A guest that runs alone is paused, saved and resumed. -/
theorem snapshots_transparent_once :
    ∃ s, Reaches (AutoSnapshots.next fun _ => none) Unhindered .start s ∧ s.attempt = .asleep ∧
      s.guest = some .cont ∧ Transparent s := by
  have hend : (runLabels (AutoSnapshots.next fun _ => none) .start
      (.other .resume :: loopPauses 4096 ++ [.checkpoint, .saved 4100 true false, .resume])).map
        (fun s => (s.attempt, s.guest)) = some (.asleep, some .cont) := by decide
  have hpermitted : AllPermitted (AutoSnapshots.next fun _ => none) Unhindered .start
      (.other .resume :: loopPauses 4096 ++ [.checkpoint, .saved 4100 true false, .resume]) := by
    decide
  obtain ⟨s, hrun, hlast⟩ := Option.map_eq_some_iff.mp hend
  obtain ⟨hasleep, hguest⟩ := Prod.mk.inj hlast
  have hreaches := Reaches.refl.of_labels hrun hpermitted
  exact ⟨s, hreaches, hasleep, hguest, snapshots_transparent hreaches⟩

/-- A user who pauses the guest during an attempt finds it resumed. -/
theorem snapshots_not_transparent :
    ¬ ∀ s, Reaches (AutoSnapshots.next fun _ => none) (fun _ _ => True) .start s →
      Transparent s := by
  intro hall
  have hend : (runLabels (AutoSnapshots.next fun _ => none) .start
      (.other .resume :: loopPauses 4096 ++
        [.pause, .checkpoint, .saved 4100 true false, .resume])).map
        (fun s => (s.attempt, s.guest, s.alone)) = some (.asleep, some .cont, none) := by
    decide
  obtain ⟨s, hrun, hlast⟩ := Option.map_eq_some_iff.mp hend
  obtain ⟨hasleep, hrest⟩ := Prod.mk.inj hlast
  obtain ⟨hguest, halone⟩ := Prod.mk.inj hrest
  have htransparent := hall s (Reaches.refl.of_labels hrun (allPermitted_true ..)) hasleep
  rw [hguest, halone] at htransparent
  exact absurd (htransparent.mp rfl) Bool.false_ne_true

end AmigaDevbench.Winuae
