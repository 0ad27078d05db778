import AmigaDevbench.Daemon.Debugger.InStep

/-!
# Reported stops

A stop that `dbg_poll` has reported is a stop: the target waits in `dbg_pause_stub`, with no
CTRL_F among its signals, until the daemon accepts a command that resumes it. This holds in the
runs in which no CTRL_F meets a hit that has not been reported yet.
-/

namespace AmigaDevbench.Debugger.Machine

variable {Data : Type*} {p : Platform Data} {s s' : Machine Data}

/-- The target is in the `Wait` of the stub, and nothing that has been sent releases it. -/
def Blocked (s : Machine Data) : Prop := s.place = .waiting ∧ s.ctrlF = false

theorem Blocked.target_eq_none (h : s.Blocked) (scratch : Scratch) :
    s.next p (.target scratch) = none := by
  simp only [Machine.next, target, h.1, h.2]
  rfl

/-- A record of the last DBGSTOP of `dbg_poll`: whether the target has not been resumed since by a
command that the daemon accepted. -/
def noteStop (s : Machine Data) (label : Label) (reported : Bool) : Bool :=
  match label with
  | .poll => reported || (s.attached && s.trapHit)
  | .step | .next | .cont => reported && !(s.attached && s.stopped)
  | .detach => reported && !s.attached
  | _ => reported

/-- While the debugger counts the target as stopped after a report, the target is blocked. -/
def StopIsReal (x : Machine Data × Bool) : Prop :=
  x.1.stopped = true → x.2 = true → x.1.Blocked

/-- A hit that `dbg_poll` has not reported, with the target already in the stub's `Wait`. -/
def HitWaits (s : Machine Data) : Prop := s.trapHit = true ∧ s.place = .waiting

/-- No CTRL_F meets an unreported hit: none is pending when the target enters the stub with one,
none is sent while it waits there with one, and no hit is reported before the target waits. -/
def HitUndisturbed (s : Machine Data) : Label → Prop
  | .target _ => s.Repatches ∧ s.detaching = false ∧ (s.stepMode = .single ∨ s.trapHit = true) →
      s.ctrlF = false
  | .dbgBreak => s.attached = true ∧ s.stopped = false → ¬ s.HitWaits
  | .step | .next | .cont => s.attached = true ∧ s.stopped = true → ¬ s.HitWaits
  | .poll => s.attached = true ∧ s.trapHit = true → s.place = .waiting
  | _ => True

instance (s : Machine Data) : (label : Label) → Decidable (s.HitUndisturbed label)
  | .target _ => inferInstanceAs (Decidable (_ ∧ _ ∧ _ → _))
  | .dbgBreak => inferInstanceAs (Decidable (_ ∧ _ → ¬ (_ ∧ _)))
  | .step => inferInstanceAs (Decidable (_ ∧ _ → ¬ (_ ∧ _)))
  | .next => inferInstanceAs (Decidable (_ ∧ _ → ¬ (_ ∧ _)))
  | .cont => inferInstanceAs (Decidable (_ ∧ _ → ¬ (_ ∧ _)))
  | .poll => inferInstanceAs (Decidable (_ ∧ _ → _))
  | .attach .. | .detach | .delayEnd | .bpset _ | .bpclear _ | .clearall | .setreg
  | .takeSignal => isTrue trivial

/-- The target stands at a stop that has been reported. -/
structure AtStop (s : Machine Data) : Prop where
  attached : s.attached = true
  stopped : s.stopped = true
  trapHit : s.trapHit = false
  detaching : s.detaching = false
  blocked : s.Blocked

/-- The invariant of the permitted runs. -/
structure StopInv (x : Machine Data × Bool) : Prop where
  /-- A hit that waits to be reported can be reported as a stop. -/
  hit (htrapHit : x.1.trapHit = true) (hdetaching : x.1.detaching = false)
    (hplace : x.1.place = .waiting) : x.1.ctrlF = false
  stop (h : x.2 = true) : x.1.AtStop

namespace StopInv

variable {reported : Bool}

/-- Commands that have nothing to do with the target's signals. -/
theorem of_eq (h : StopInv (s, reported)) (htrapHit : s'.trapHit = s.trapHit)
    (hdetaching : s'.detaching = s.detaching) (hplace : s'.place = s.place)
    (hctrlF : s'.ctrlF = s.ctrlF) (hattached : s'.attached = s.attached)
    (hstopped : s'.stopped = s.stopped) : StopInv (s', reported) where
  hit hhit hdetach hwaiting :=
    hctrlF.trans (h.hit (htrapHit ▸ hhit) (hdetaching ▸ hdetach) (hplace ▸ hwaiting))
  stop hreported :=
    have hstop := h.stop hreported
    ⟨hattached.trans hstop.attached, hstopped.trans hstop.stopped, htrapHit.trans hstop.trapHit,
      hdetaching.trans hstop.detaching, hplace.trans hstop.blocked.1, hctrlF.trans hstop.blocked.2⟩

theorem answered (h : StopInv (s, reported)) (hanswered : s.Answered s') :
    StopInv (s', reported) := by
  obtain ⟨line, rfl⟩ := hanswered
  exact h.of_eq rfl rfl rfl rfl rfl rfl

/-- Fewer reports may count. -/
theorem weaken (h : StopInv (s, reported)) (other : Bool) : StopInv (s, reported && other) where
  hit := h.hit
  stop hboth := h.stop (Bool.and_eq_true_iff.mp hboth).1

/-- Without a report that counts, only a waiting hit matters. -/
theorem of_unreported (hhit : s.trapHit = true → s.detaching = false → s.place = .waiting →
    s.ctrlF = false) : StopInv (s, false) where
  hit := hhit
  stop := nofun

theorem reported_eq_false (h : StopInv (s, reported)) (hnot : ¬ s.AtStop) : reported = false := by
  cases reported with
  | false => rfl
  | true => exact absurd (h.stop rfl) hnot

theorem target (h : StopInv (s, reported)) {scratch : Scratch}
    (hpermit : s.HitUndisturbed (.target scratch)) (hstep : s.target p scratch = some s') :
    StopInv (s', reported) := by
  have hnot : ¬ s.AtStop := fun hstop =>
    nomatch hstep.symm.trans (hstop.blocked.target_eq_none scratch)
  rw [h.reported_eq_false hnot]
  refine of_unreported fun htrapHit hdetaching hplace => ?_
  obtain ⟨hrepatches, hctrlF, hcause⟩ := target_waiting hstep hplace
  rw [(kept_target hstep).detaching] at hdetaching
  exact hctrlF.trans (hpermit ⟨hrepatches, hdetaching, hcause htrapHit⟩)

theorem attach (h : StopInv (s, reported)) (args : Text) (found : Found) :
    StopInv (s.dbgHandleAttach args found, reported) := by
  rcases dbgHandleAttach_cases (s := s) args found with
    hanswered | ⟨hattached, name, codeBase, waits, line, heq⟩
  · exact h.answered hanswered
  · have hnot : ¬ s.AtStop := fun hstop => nomatch hattached.symm.trans hstop.attached
    rw [heq, h.reported_eq_false hnot]
    exact of_unreported nofun

theorem detach (h : StopInv (s, reported)) :
    StopInv (s.dbgHandleDetach, reported && !s.attached) := by
  rcases dbgHandleDetach_cases (s := s) with
    hanswered | ⟨hattached, -, heq⟩ | ⟨hattached, heq⟩
  · exact (h.weaken _).answered hanswered
  · rw [heq, hattached, Bool.not_true, Bool.and_false]
    exact of_unreported nofun
  · rw [heq, hattached, Bool.not_true, Bool.and_false]
    exact of_unreported nofun

theorem dbgBreak (h : StopInv (s, reported)) (hpermit : s.HitUndisturbed .dbgBreak) :
    StopInv (s.dbgHandleBreak, reported) := by
  rcases dbgHandleBreak_cases (s := s) with hanswered | ⟨hattached, hstopped, line, heq⟩
  · exact h.answered hanswered
  · have hnot : ¬ s.AtStop := fun hstop => nomatch hstopped.symm.trans hstop.stopped
    rw [heq, h.reported_eq_false hnot]
    exact of_unreported fun htrapHit _ hplace =>
      absurd ⟨htrapHit, hplace⟩ (hpermit ⟨hattached, hstopped⟩)

/-- A resume that the daemon accepts ends the stop, and no other hit is released by it. -/
theorem resumed (hpermit : s.attached = true ∧ s.stopped = true → ¬ s.HitWaits)
    (hattached : s.attached = true) (hstopped : s.stopped = true)
    (htrapHit : s'.trapHit = s.trapHit) (hplace : s'.place = s.place) (reported : Bool) :
    StopInv (s', reported && !(s.attached && s.stopped)) := by
  rw [hattached, hstopped, Bool.and_self, Bool.not_true, Bool.and_false]
  exact of_unreported fun hhit _ hwaiting =>
    absurd ⟨htrapHit ▸ hhit, hplace ▸ hwaiting⟩ (hpermit ⟨hattached, hstopped⟩)

theorem cont (h : StopInv (s, reported))
    (hpermit : s.attached = true ∧ s.stopped = true → ¬ s.HitWaits) :
    StopInv (s.dbgHandleContinue, reported && !(s.attached && s.stopped)) := by
  rcases dbgHandleContinue_cases (s := s) with hanswered | ⟨hattached, hstopped, line, heq⟩
  · exact (h.weaken _).answered hanswered
  · rw [heq]
    refine resumed hpermit hattached hstopped ?_ ?_ reported
    · rfl
    · rfl

theorem step (h : StopInv (s, reported))
    (hpermit : s.attached = true ∧ s.stopped = true → ¬ s.HitWaits) :
    StopInv (s.dbgHandleStep, reported && !(s.attached && s.stopped)) := by
  rcases dbgHandleStep_cases (s := s) with hanswered | ⟨hattached, hstopped, line, heq⟩
  · exact (h.weaken _).answered hanswered
  · rw [heq]
    refine resumed hpermit hattached hstopped ?_ ?_ reported
    · rfl
    · rfl

theorem poll (h : StopInv (s, reported)) (hpermit : s.HitUndisturbed .poll)
    (hdetaching : s.detaching = false) :
    StopInv (s.dbgPoll, reported || (s.attached && s.trapHit)) := by
  unfold dbgPoll
  split_ifs with hnothing
  · have hnone : (s.attached && s.trapHit) = false := by
      cases hattached : s.attached <;> cases hhit : s.trapHit <;> rw [hattached, hhit] at hnothing
      all_goals first | rfl | cases hnothing
    rw [hnone, Bool.or_false]
    exact h
  · simp only [Bool.or_eq_true, Bool.not_eq_true', not_or, Bool.not_eq_false] at hnothing
    have hplace := hpermit hnothing
    have hctrlF := h.hit hnothing.2 hdetaching hplace
    exact
      { hit := nofun
        stop := fun _ => ⟨hnothing.1, rfl, rfl, hdetaching, hplace, hctrlF⟩ }

/-- One step. -/
theorem next (h : StopInv (s, reported)) {label : Label} (hpermit : s.HitUndisturbed label)
    (hstep : s.next p label = some s') : StopInv (s', s.noteStop label reported) := by
  have hdaemon : ∀ {t : Machine Data} {r : Bool},
      (if s.detaching then none else some t) = some s' →
      (s.detaching = false → StopInv (t, r)) → StopInv (s', r) := by
    intro t r ht hkeeps
    split_ifs at ht with hdetaching
    cases ht
    exact hkeeps (Bool.eq_false_of_not_eq_true hdetaching)
  cases label with
  | target scratch => exact h.target hpermit hstep
  | takeSignal =>
    simp only [Machine.next] at hstep
    split_ifs at hstep with hrunning
    cases hstep
    have hnot : ¬ s.AtStop := fun hstop => by cases hrunning.symm.trans hstop.blocked.1
    change StopInv (_, reported)
    rw [h.reported_eq_false hnot]
    exact of_unreported fun _ _ _ => rfl
  | delayEnd =>
    simp only [Machine.next] at hstep
    split_ifs at hstep with hdetaching
    cases hstep
    have hnot : ¬ s.AtStop := fun hstop => by cases hdetaching.symm.trans hstop.detaching
    change StopInv (_, reported)
    rw [h.reported_eq_false hnot]
    exact of_unreported fun hattached => by cases hattached
  | attach args found => exact hdaemon hstep fun _ => h.attach args found
  | detach => exact hdaemon hstep fun _ => h.detach
  | dbgBreak => exact hdaemon hstep fun _ => h.dbgBreak hpermit
  | bpset args =>
    refine hdaemon hstep fun _ => ?_
    rcases dbgHandleBpset_cases (p := p) (s := s) args with
      hanswered | ⟨-, i, address, line, -, -, -, -, heq⟩
    · exact h.answered hanswered
    · rw [heq]
      exact h.of_eq rfl rfl rfl rfl rfl rfl
  | bpclear args =>
    refine hdaemon hstep fun _ => ?_
    rcases dbgHandleBpclear_cases (s := s) args with hanswered | ⟨-, i, line, -, heq⟩
    · exact h.answered hanswered
    · rw [heq]
      exact h.of_eq rfl rfl rfl rfl rfl rfl
  | clearall =>
    refine hdaemon hstep fun _ => ?_
    rcases dbgHandleClearall_cases (s := s) with hanswered | ⟨-, line, heq⟩
    · exact h.answered hanswered
    · rw [heq]
      exact h.of_eq rfl rfl rfl rfl rfl rfl
  | step => exact hdaemon hstep fun _ => h.step hpermit
  | next =>
    refine hdaemon hstep fun _ => ?_
    rcases dbgHandleNext_cases (s := s) with hanswered | heq | heq
    · exact (h.weaken _).answered hanswered
    · exact heq ▸ h.cont hpermit
    · exact heq ▸ h.step hpermit
  | cont => exact hdaemon hstep fun _ => h.cont hpermit
  | setreg => exact hdaemon hstep fun _ => h.answered ⟨_, rfl⟩
  | poll => exact hdaemon hstep fun hdetaching => h.poll hpermit hdetaching

end StopInv

/-- In every run in which no CTRL_F meets an unreported hit, a reported stop is a real stop until
the daemon accepts a command that resumes the target. -/
theorem reported_stops_are_real (p : Platform Data) (code : Code) (regs : Registers) (data : Data)
    {x : Machine Data × Bool}
    (hrun : Reaches (watch (next p) noteStop) (fun x label => x.1.HitUndisturbed label)
      (initial code regs data, false) x) : StopIsReal x := by
  have hinv : StopInv x := hrun.invariant StopInv (StopInv.of_unreported nofun)
    fun y label y' h hpermit hstep => by
      obtain ⟨hnext, hnote⟩ := watch_eq_some.mp hstep
      have h' := h.next hpermit hnext
      rw [← hnote] at h'
      exact h'
  exact fun _ hreported => (hinv.stop hreported).blocked

/-- A breakpoint is hit, the target goes into the stub and the hit is reported. -/
def hitAndReport : List Label :=
  [attachRunning, .bpset "1000".toList, .target (quietCall 0x1000), .target (quietCall 0), .poll]

theorem reported_stops_are_real_hit :
    ∃ x, Reaches (watch (next plainPlatform) noteStop) (fun x label => x.1.HitUndisturbed label)
      (initial nops (startAt 0x1000) (), false) x ∧ x.1.stopped = true ∧ x.2 = true ∧
      StopIsReal x := by
  have hend : (runLabels (watch (next plainPlatform) noteStop)
      (initial nops (startAt 0x1000) (), false) hitAndReport).map
        (fun x => (x.1.stopped, x.2)) = some (true, true) := by decide +kernel
  have hpermitted : AllPermitted (watch (next plainPlatform) noteStop)
      (fun x label => x.1.HitUndisturbed label) (initial nops (startAt 0x1000) (), false)
      hitAndReport := by decide +kernel
  obtain ⟨x, hrun, hresult⟩ := Option.map_eq_some_iff.mp hend
  have hreaches := Reaches.refl.of_labels hrun hpermitted
  exact ⟨x, hreaches, (Prod.mk.inj hresult).1, (Prod.mk.inj hresult).2,
    reported_stops_are_real plainPlatform nops (startAt 0x1000) () hreaches⟩

/-- A DBGBREAK of a running target leaves its CTRL_F pending; the next hit is reported as a stop
and the stub's `Wait` returns at once. -/
theorem reported_stops_not_real :
    ¬ ∀ x, Reaches (watch (next plainPlatform) noteStop) (fun _ _ => True)
      (initial nops (startAt 0x1000) (), false) x → StopIsReal x := by
  intro hall
  have hend : (runLabels (watch (next plainPlatform) noteStop)
      (initial nops (startAt 0x1000) (), false)
      [attachRunning, .bpset "1000".toList, .dbgBreak, .target (quietCall 0x1000),
        .target (quietCall 0), .target (quietCall 0), .poll]).map
        (fun x => (x.1.stopped, x.2, x.1.place)) = some (true, true, .woken) := by decide +kernel
  obtain ⟨x, hrun, hresult⟩ := Option.map_eq_some_iff.mp hend
  obtain ⟨hstopped, hrest⟩ := Prod.mk.inj hresult
  obtain ⟨hreported, hplace⟩ := Prod.mk.inj hrest
  have hreaches := Reaches.refl.of_labels hrun (allPermitted_true ..)
  have hblocked := hall x hreaches hstopped hreported
  exact nomatch hplace.symm.trans hblocked.1

end AmigaDevbench.Debugger.Machine
