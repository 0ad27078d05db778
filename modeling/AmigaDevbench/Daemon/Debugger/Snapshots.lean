import AmigaDevbench.Daemon.Debugger.InStep

/-!
# The registers of a stop report

`dbg_poll` reports `dbg_saved_regs` with the PC of the first hit. The handlers save registers that
they already work with, and after a breakpoint the Trace handler saves them once more, behind the
instruction. The report is the target's register file at the reported PC exactly when these
changes leave it as it is.
-/

namespace AmigaDevbench.Debugger

/-- A word written into the lower half changes nothing if it is there already. -/
theorem lowWord_eq_self_iff (value : UInt32) (word : UInt16) :
    (value &&& 0xFFFF0000) ||| word.toUInt32 = value ↔ value.toUInt16 = word := by
  constructor
  · intro h
    rw [← h]
    apply UInt16.eq_of_toBitVec_eq
    apply BitVec.eq_of_getLsbD_eq
    intro i hi
    simp
  · rintro rfl
    apply UInt32.eq_of_toBitVec_eq
    apply BitVec.eq_of_getLsbD_eq
    intro i hi
    have hmask : ∀ i < 32, (0xFFFF0000#32).getLsbD i = decide (16 ≤ i) := by decide
    simp only [UInt32.toBitVec_or, UInt32.toBitVec_and, BitVec.getLsbD_or, BitVec.getLsbD_and,
      UInt16.toBitVec_toUInt32, UInt32.toBitVec_toUInt16, UInt32.toBitVec_ofNat,
      BitVec.getLsbD_setWidth, hmask i hi, hi, decide_true, Bool.true_and]
    by_cases h : i < 16
    · simp only [h, Nat.not_le.mpr h, decide_false, decide_true, Bool.and_false, Bool.false_or,
        Bool.true_and]
    · simp only [h, Nat.le_of_not_lt h, decide_false, decide_true, Bool.and_true, Bool.false_and,
        Bool.or_false]

namespace Registers

theorem setA_eq_self_iff (r : Registers) (i : Fin 7) (value : UInt32) :
    r.setA i value = r ↔ r.a i = value := by
  obtain ⟨d, a, usp, sr, pc⟩ := r
  simp only [setA, mk.injEq, true_and, and_true]
  exact Function.update_eq_self_iff.trans eq_comm

theorem setA_setWord_eq_self_iff (r : Registers) (i : Fin 7) (value : UInt32) (j : Fin 8)
    (word : UInt16) :
    (r.setA i value).setWord j word = r ↔ r.a i = value ∧ (r.d j).toUInt16 = word := by
  obtain ⟨d, a, usp, sr, pc⟩ := r
  simp only [setA, setWord, setD, mk.injEq, and_true]
  have ha : Function.update a i value = a ↔ a i = value :=
    Function.update_eq_self_iff.trans eq_comm
  have hd : Function.update d j ((d j &&& 0xFFFF0000) ||| word.toUInt32) = d ↔
      (d j).toUInt16 = word :=
    Function.update_eq_self_iff.trans (lowWord_eq_self_iff (d j) word)
  rw [ha, hd, and_comm]

end Registers

namespace Machine

variable {Data : Type*} (p : Platform Data)

/-- The target when the Trace exception of a traced instruction comes. -/
def atTrace (s : Machine Data) : Machine Data := if s.traps then s.handlerEntry p else s.execute p

/-- The target's next step is an instruction whose Trace exception the debugger handles. -/
def Traces (s : Machine Data) : Prop := s.place = .running ∧ s.t1 = true ∧ s.ours = true

/-- The target's next step is a breakpoint, or a `TRAP #15` of its own. -/
def Hits (s : Machine Data) : Prop :=
  s.place = .running ∧ s.t1 = false ∧ s.traps = true ∧ s.bps.code s.regs.pc = trap15Opcode

instance (s : Machine Data) : Decidable s.Traces := inferInstanceAs (Decidable (_ ∧ _ ∧ _))

instance (s : Machine Data) : Decidable s.Hits := inferInstanceAs (Decidable (_ ∧ _ ∧ _ ∧ _))

/-- The registers that `dbg_poll` would report now, if any. -/
def stopReport (s : Machine Data) : Option Registers :=
  if s.detaching = false ∧ s.attached = true ∧ s.trapHit = true then some s.report else none

/-- What `dbg_poll` sends. -/
theorem sent_poll {s s' : Machine Data} (h : s.next p .poll = some s') :
    s'.sent = s.sent ++ (s.stopReport.map (stopLine "breakpoint")).toList := by
  simp only [Machine.next] at h
  split_ifs at h with hdetaching
  cases h
  have hdetaching' := Bool.eq_false_of_not_eq_true hdetaching
  unfold dbgPoll stopReport
  cases hattached : s.attached with
  | false => simp
  | true =>
    cases hhit : s.trapHit with
    | false => simp
    | true => simp [hdetaching', send]

/-- A record of the register file at the last stop: at the first unreported hit of a breakpoint,
or behind a single step. -/
def noteMoment (s : Machine Data) (label : Label) (moment : Registers) : Registers :=
  match label with
  | .target _ =>
    if s.Traces then if s.stepMode = .single then (s.atTrace p).regs else moment
    else if s.Hits ∧ s.trapHit = false then s.regs
    else moment
  | _ => moment

/-- A report is the register file of the moment at which the target was about to execute the
instruction at the reported PC. -/
def StopIsFaithful (x : Machine Data × Registers) : Prop :=
  ∀ report, x.1.stopReport = some report → report = x.2

/-- The registers that the step saves are those of the moment that is to be reported. -/
def SnapshotKept (x : Machine Data × Registers) : Label → Prop
  | .target _ =>
    x.1.detaching = false →
      if x.1.Traces then
        match x.1.stepMode with
        | .none => True
        -- behind the instruction at the breakpoint, with the hit still to be reported
        | .pastBreakpoint =>
          x.1.trapHit = true → { (x.1.atTrace p).traced p with pc := x.1.trapPc } = x.2
        -- A0 is the task and the step mode is in D0
        | .single => (x.1.atTrace p).regs.a 0 = p.task ∧ ((x.1.atTrace p).regs.d 0).toUInt16 = 2
      else if x.1.Hits then
        if x.1.trapHit = true then { x.1.regs.setA 0 p.task with pc := x.1.trapPc } = x.2
        else x.1.regs.a 0 = p.task
      else True
  | _ => True

section Steps

variable {p} {s s' : Machine Data} {scratch : Scratch} {moment : Registers}

theorem stopReport_of_detaching (h : s.detaching = true) : s.stopReport = none := by
  simp [stopReport, h]

theorem stopReport_of_not_hit (h : s.trapHit = false) : s.stopReport = none := by
  simp [stopReport, h]

theorem stopReport_of_hit (hdetaching : s.detaching = false) (hattached : s.attached = true)
    (hhit : s.trapHit = true) : s.stopReport = some s.report :=
  if_pos ⟨hdetaching, hattached, hhit⟩

theorem stopIsFaithful_of_none (h : s.stopReport = none) : StopIsFaithful (s, moment) :=
  fun _ hreport => nomatch h.symm.trans hreport

theorem stopIsFaithful_iff (h : s.stopReport = some s.report) :
    StopIsFaithful (s, moment) ↔ s.report = moment := by
  unfold StopIsFaithful
  rw [h]
  simp

/-- What the report depends on. -/
theorem stopReport_congr (hdetaching : s'.detaching = s.detaching)
    (hattached : s'.attached = s.attached) (htrapHit : s'.trapHit = s.trapHit)
    (hreport : s'.report = s.report) : s'.stopReport = s.stopReport := by
  unfold stopReport
  rw [hdetaching, hattached, htrapHit, hreport]

/-- A step that leaves the report and the record alone. -/
theorem stopIsFaithful_congr (h : StopIsFaithful (s, moment))
    (hsame : s'.stopReport = s.stopReport) : StopIsFaithful (s', moment) := by
  intro report hreport
  exact h report (hsame ▸ hreport)

/-- A traced instruction ends as the Trace handler leaves it, but for the place of the target. -/
theorem run_of_traces (h : s.Traces) (scratch : Scratch) :
    ∃ place, s.run p scratch = { (s.atTrace p).trace p with place := place } := by
  unfold run atTrace
  rw [if_pos h.2.1, if_pos h.2.2]
  split_ifs
  · exact ⟨.astray, rfl⟩
  · exact ⟨_, rfl⟩

theorem stepMode_atTrace : (s.atTrace p).stepMode = s.stepMode := by
  unfold atTrace
  split_ifs <;> rfl

theorem trapHit_atTrace : (s.atTrace p).trapHit = s.trapHit := by
  unfold atTrace
  split_ifs <;> rfl

theorem trapPc_atTrace : (s.atTrace p).trapPc = s.trapPc := by
  unfold atTrace
  split_ifs <;> rfl

theorem savedRegs_atTrace : (s.atTrace p).savedRegs = s.savedRegs := by
  unfold atTrace
  split_ifs <;> rfl

/-- The report behind the Trace handler. -/
theorem report_trace : (s.trace p).report =
    match s.stepMode with
    | .none => s.report
    | .pastBreakpoint => { s.traced p with pc := s.trapPc }
    | .single => s.traced p := by
  unfold trace report
  cases s.stepMode <;> rfl

theorem trapHit_trace : (s.trace p).trapHit =
    match s.stepMode with
    | .none | .pastBreakpoint => s.trapHit
    | .single => true := by
  unfold trace
  cases s.stepMode <;> rfl

/-- A trace exception: the report behind it is faithful if the handler saves what is reported. -/
theorem faithful_run_of_traces (htraces : s.Traces) (hdetaching : s.detaching = false)
    (hattached : s.attached = true) (h : StopIsFaithful (s, moment)) :
    StopIsFaithful (s.run p scratch, noteMoment p s (.target scratch) moment) ↔
      SnapshotKept p (s, moment) (.target scratch) := by
  obtain ⟨place, hrun⟩ := run_of_traces (p := p) htraces scratch
  have hkept : s.Kept (s.run p scratch) := kept_run
  have hreport : (s.run p scratch).report = ((s.atTrace p).trace p).report := by
    rw [hrun]
    rfl
  have hhit : (s.run p scratch).trapHit = ((s.atTrace p).trace p).trapHit := by
    rw [hrun]
  rw [report_trace, stepMode_atTrace, trapPc_atTrace] at hreport
  rw [trapHit_trace, stepMode_atTrace, trapHit_atTrace] at hhit
  unfold noteMoment SnapshotKept
  dsimp only
  rw [if_pos htraces, if_pos htraces]
  cases hmode : s.stepMode with
  | none =>
    rw [hmode] at hreport hhit
    have hsame : (s.run p scratch).stopReport = s.stopReport := by
      refine stopReport_congr hkept.detaching hkept.attached hhit (hreport.trans ?_)
      unfold report
      rw [savedRegs_atTrace, trapPc_atTrace]
    exact iff_of_true (stopIsFaithful_congr h hsame) fun _ => trivial
  | pastBreakpoint =>
    rw [hmode] at hreport hhit
    cases hpending : s.trapHit with
    | false =>
      exact iff_of_true (stopIsFaithful_of_none (stopReport_of_not_hit (hhit.trans hpending)))
        fun _ hcontra => nomatch hcontra
    | true =>
      have hsends := stopReport_of_hit (hkept.detaching.trans hdetaching)
        (hkept.attached.trans hattached) (hhit.trans hpending)
      refine (stopIsFaithful_iff hsends).trans ?_
      rw [hreport]
      exact ⟨fun hsame _ _ => hsame, fun hsame => hsame hdetaching rfl⟩
  | single =>
    rw [hmode] at hreport hhit
    have hsends := stopReport_of_hit (hkept.detaching.trans hdetaching)
      (hkept.attached.trans hattached) hhit
    have htraced : (s.atTrace p).traced p = (s.atTrace p).regs ↔
        (s.atTrace p).regs.a 0 = p.task ∧ ((s.atTrace p).regs.d 0).toUInt16 = 2 := by
      unfold traced
      rw [stepMode_atTrace, hmode]
      exact Registers.setA_setWord_eq_self_iff ..
    refine (stopIsFaithful_iff hsends).trans ?_
    rw [hreport, if_pos rfl, htraced]
    exact ⟨fun hsame _ => hsame, fun hsame => hsame hdetaching⟩

/-- The word at PC is `TRAP #15`, so the trap is handled only if the task is known. -/
theorem hasTarget_of_hits (h : s.Hits) : s.hasTarget = true := by
  have htraps := h.2.2.1
  unfold traps at htraps
  rw [h.2.2.2] at htraps
  have hours : s.ours = true := by simpa [trap15Opcode] using htraps
  exact (Bool.and_eq_true_iff.mp hours).2

/-- A hit: the report behind it is faithful if the handler saves what is reported. -/
theorem faithful_run_of_hits (hhits : s.Hits) (hdetaching : s.detaching = false)
    (hattached : s.attached = true) :
    StopIsFaithful (s.run p scratch, noteMoment p s (.target scratch) moment) ↔
      SnapshotKept p (s, moment) (.target scratch) := by
  have hnot : ¬ s.Traces := fun htraces => nomatch hhits.2.1.symm.trans htraces.2.1
  have hrun : s.run p scratch = s.trap15 p scratch := by
    unfold run
    rw [hhits.2.1, if_neg nofun, if_pos hhits.2.2.1, if_pos hhits.2.2.2]
  have hsends := stopReport_of_hit (s := s.trap15 p scratch) hdetaching hattached rfl
  unfold noteMoment SnapshotKept
  dsimp only
  rw [hrun, if_neg hnot, if_neg hnot, if_pos hhits]
  refine (stopIsFaithful_iff hsends).trans ?_
  cases hpending : s.trapHit with
  | false =>
    have hreport : (s.trap15 p scratch).report = s.regs.setA 0 p.task := by
      unfold trap15 report
      rw [hpending]
      rfl
    rw [if_pos ⟨hhits, rfl⟩, hreport, Registers.setA_eq_self_iff]
    exact ⟨fun hsame _ => hsame, fun hsame => hsame hdetaching⟩
  | true =>
    have hreport : (s.trap15 p scratch).report =
        { s.regs.setA 0 p.task with pc := s.trapPc } := by
      unfold trap15 report
      rw [hpending]
      rfl
    have hsecond : ¬ (s.Hits ∧ true = false) := fun h => nomatch h.2
    rw [if_neg hsecond, hreport, if_pos rfl]
    exact ⟨fun hsame _ => hsame, fun hsame => hsame hdetaching⟩

/-- Any other step of the target leaves report and record alone. -/
theorem faithful_target_of_other (htraces : ¬ s.Traces) (hhits : ¬ s.Hits)
    (hstep : s.target p scratch = some s') : s'.stopReport = s.stopReport := by
  unfold target at hstep
  split at hstep <;> rename_i hplace
  · cases hstep
    unfold run
    split_ifs with ht1 hours htraps htraps hword
    · exact absurd ⟨hplace, ht1, hours⟩ htraces
    · exact absurd ⟨hplace, ht1, hours⟩ htraces
    · rfl
    · exact absurd ⟨hplace, Bool.eq_false_of_not_eq_true ht1, htraps, hword⟩ hhits
    · rfl
    · rfl
  · split_ifs at hstep
    cases hstep
    rfl
  · cases hstep
    rfl
  · cases hstep
    rfl
  · cases hstep
    rfl
  · cases hstep
    split_ifs <;> rfl
  · cases hstep

/-- A step of the daemon leaves the report as it is, or there is none. -/
theorem Aside.report {label : Label} (h : Aside label s s') :
    s'.stopReport = s.stopReport ∨ s'.stopReport = none := by
  rcases h.hit with hnone | ⟨hhit, hattached, hdetaching, hsaved⟩
  · exact .inr (stopReport_of_not_hit hnone)
  · refine .inl (stopReport_congr hdetaching hattached hhit ?_)
    unfold Machine.report
    rw [hsaved, h.trapPc]

end Steps

/-- `dbg_target` is set only while the debugger is attached. -/
def TargetKnown (x : Machine Data × Registers) : Prop :=
  x.1.hasTarget = true → x.1.attached = true

variable {p}

theorem targetKnown_next {x y : Machine Data × Registers} {label : Label} (h : TargetKnown x)
    (hstep : watch (next p) (noteMoment p) x label = some y) : TargetKnown y := by
  obtain ⟨hnext, -⟩ := watch_eq_some.mp hstep
  by_cases hlabel : ∃ scratch, label = .target scratch
  · obtain ⟨scratch, rfl⟩ := hlabel
    have hkept := kept_target hnext
    intro htarget
    rw [hkept.attached]
    exact h (hkept.hasTarget ▸ htarget)
  · have haside := aside_of_next (fun scratch heq => hlabel ⟨scratch, heq⟩) hnext
    intro htarget
    rcases haside.target with ⟨htarget', hattached⟩ | hattached | hnone
    · rw [hattached]
      exact h (htarget' ▸ htarget)
    · exact hattached
    · exact nomatch hnone.symm.trans htarget

/-- A step keeps the reports faithful exactly if it saves what is to be reported. -/
theorem faithful_next_iff {x y : Machine Data × Registers} {label : Label} (hknown : TargetKnown x)
    (h : StopIsFaithful x) (hstep : watch (next p) (noteMoment p) x label = some y) :
    StopIsFaithful y ↔ SnapshotKept p x label := by
  obtain ⟨s, moment⟩ := x
  obtain ⟨s', moment'⟩ := y
  obtain ⟨hnext, hnote⟩ := watch_eq_some.mp hstep
  dsimp only at hnext hnote
  by_cases hlabel : ∃ scratch, label = .target scratch
  · obtain ⟨scratch, rfl⟩ := hlabel
    have hkept := kept_target hnext
    rw [hnote]
    cases hdetaching : s.detaching with
    | true =>
      have hnone := stopReport_of_detaching (hkept.detaching.trans hdetaching)
      exact iff_of_true (stopIsFaithful_of_none hnone)
        fun hcontra => nomatch hdetaching.symm.trans hcontra
    | false =>
      have hrun : s.place = .running → s' = s.run p scratch := by
        intro hplace
        rcases target_cases hnext with ⟨-, heq⟩ | ⟨hplace', -⟩
        · exact heq
        · exact absurd hplace hplace'
      by_cases htraces : s.Traces
      · have hours := htraces.2.2
        rw [hrun htraces.1]
        exact faithful_run_of_traces htraces hdetaching
          (hknown (Bool.and_eq_true_iff.mp hours).2) h
      · by_cases hhits : s.Hits
        · rw [hrun hhits.1]
          exact faithful_run_of_hits hhits hdetaching (hknown (hasTarget_of_hits hhits))
        · have hsame := faithful_target_of_other htraces hhits hnext
          have hrecord : noteMoment p s (.target scratch) moment = moment := by
            unfold noteMoment
            rw [if_neg htraces, if_neg fun hfirst => hhits hfirst.1]
          rw [hrecord]
          refine iff_of_true (stopIsFaithful_congr h hsame) fun _ => ?_
          rw [if_neg htraces, if_neg hhits]
          trivial
  · have haside := aside_of_next (fun scratch heq => hlabel ⟨scratch, heq⟩) hnext
    have hrecord : noteMoment p s label moment = moment := by
      cases label with
      | target scratch => exact absurd ⟨scratch, rfl⟩ hlabel
      | _ => rfl
    have hkept : SnapshotKept p (s, moment) label := by
      cases label with
      | target scratch => exact absurd ⟨scratch, rfl⟩ hlabel
      | _ => trivial
    rw [hnote, hrecord]
    refine iff_of_true ?_ hkept
    rcases haside.report with hsame | hnone
    · exact stopIsFaithful_congr h hsame
    · exact stopIsFaithful_of_none hnone

end Machine

end AmigaDevbench.Debugger
