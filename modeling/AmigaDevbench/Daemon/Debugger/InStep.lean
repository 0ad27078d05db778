import AmigaDevbench.Daemon.Debugger.Machine

/-!
# Breakpoint table and code memory over whole runs

Every operation keeps the table in step with the code, provided that no Trace exception comes
during the `Delay` of a detach: its handler patches all used entries again, and the detach then
forgets them.
-/

namespace AmigaDevbench.Debugger.Machine

variable {Data : Type*} {p : Platform Data} {program : Code} {s s' : Machine Data}

/-- Table, count and code agree; a detached debugger leaves the code as the program is. -/
structure Consistent (program : Code) (s : Machine Data) : Prop where
  unique (i j : Fin maxBreakpoints) (hi : (s.bps.table i).used = true)
    (hj : (s.bps.table j).used = true)
    (haddress : (s.bps.table i).address = (s.bps.table j).address) : i = j
  count : s.bps.count = s.bps.usedCount
  trap (a : UInt32) : s.bps.code a = trap15Opcode ↔
    ∃ i, (s.bps.table i).used = true ∧ (s.bps.table i).enabled = true ∧ (s.bps.table i).address = a
  other (a : UInt32) (h : s.bps.code a ≠ trap15Opcode) : s.bps.code a = program a
  detached (h : s.attached = false) : s.bps.code = program

/-- No Trace exception of the target comes during the `Delay` of a detach while a breakpoint is
set. -/
def NoTraceInDetach (s : Machine Data) : Label → Prop
  | .target _ => ¬ (s.detaching = true ∧ s.Repatches ∧ ∃ i, (s.bps.table i).used = true)
  | _ => True

instance (s : Machine Data) : (label : Label) → Decidable (s.NoTraceInDetach label)
  | .target _ => inferInstanceAs (Decidable (¬ (_ ∧ _ ∧ _)))
  | .attach .. | .detach | .delayEnd | .dbgBreak | .bpset _ | .bpclear _ | .clearall | .step
  | .next | .cont | .setreg | .poll | .takeSignal => isTrue trivial

/-- The invariant of the permitted runs. -/
structure TableInv (program : Code) (s : Machine Data) : Prop where
  bps : s.bps.InStep program
  unattached (h : s.attached = false) (i : Fin maxBreakpoints) : (s.bps.table i).used = false
  detaching (h : s.detaching = true) (i : Fin maxBreakpoints)
    (hused : (s.bps.table i).used = true) : (s.bps.table i).enabled = false

namespace TableInv

theorem initial (regs : Registers) (data : Data) : TableInv program (.initial program regs data) where
  bps := .of_unused (fun _ => rfl) rfl rfl
  unattached _ _ := rfl
  detaching h := nomatch h

/-- Steps that leave the table and what the invariant asks of the flags. -/
theorem of_bps_eq (h : TableInv program s) (hbps : s'.bps = s.bps)
    (hattached : s'.attached = s.attached) (hdetaching : s'.detaching = s.detaching) :
    TableInv program s' where
  bps := hbps ▸ h.bps
  unattached hdetached i := by
    rw [hbps]
    exact h.unattached (hattached ▸ hdetached) i
  detaching hdetach i := by
    rw [hbps]
    exact h.detaching (hdetaching ▸ hdetach) i

theorem answered (h : TableInv program s) (hanswered : s.Answered s') : TableInv program s' := by
  obtain ⟨line, rfl⟩ := hanswered
  exact h.of_bps_eq rfl rfl rfl

/-- A command that works on the table while the debugger is attached and no detach is under way. -/
theorem of_attached {b : Breakpoints} (hb : b.InStep program) (hbps : s'.bps = b)
    (hattached : s'.attached = true) (hdetaching : s'.detaching = false) : TableInv program s' where
  bps := hbps ▸ hb
  unattached h := nomatch hattached.symm.trans h
  detaching h := nomatch hdetaching.symm.trans h

theorem target (h : TableInv program s) {scratch : Scratch}
    (hpermit : s.NoTraceInDetach (.target scratch)) (hstep : s.target p scratch = some s') :
    TableInv program s' := by
  have hkept := kept_target hstep
  rcases bps_target hstep with hbps | hbps | ⟨hrepatches, hbps⟩
  · exact h.of_bps_eq hbps hkept.attached hkept.detaching
  · constructor
    · rw [hbps]
      exact h.bps.restore _
    · intro hattached i
      rw [hbps, Breakpoints.used_restore]
      exact h.unattached (hkept.attached ▸ hattached) i
    · intro hdetaching i hused
      rw [hbps] at hused ⊢
      rw [Breakpoints.used_restore] at hused
      exact Breakpoints.disabled_restore _ _ _ (h.detaching (hkept.detaching ▸ hdetaching) i hused)
  · constructor
    · rw [hbps]
      exact h.bps.repatchAll
    · intro hattached i
      rw [hbps, Breakpoints.used_repatchAll]
      exact h.unattached (hkept.attached ▸ hattached) i
    · intro hdetaching i hused
      rw [hbps, Breakpoints.used_repatchAll] at hused
      exact absurd ⟨hkept.detaching ▸ hdetaching, hrepatches, i, hused⟩ hpermit

/-- The last lines of a detach forget the entries, none of which is patched in. -/
theorem finishDetach (hb : s.bps.InStep program)
    (hdisabled : ∀ i, (s.bps.table i).used = true → (s.bps.table i).enabled = false) :
    TableInv program s.finishDetach where
  bps := hb.releaseAll hdisabled
  unattached _ _ := rfl
  detaching h := nomatch h

theorem attach (h : TableInv program s) (hdetaching : s.detaching = false) (args : Text)
    (found : Found) : TableInv program (s.dbgHandleAttach args found) := by
  rcases dbgHandleAttach_cases (s := s) args found with
    hanswered | ⟨hattached, name, codeBase, waits, line, heq⟩
  · exact h.answered hanswered
  · have hcode : s.bps.code = program := h.bps.code_of_disabled fun i hi => by
      rw [h.unattached hattached i] at hi
      cases hi
    have hclear : s.bps.clear.InStep program := .of_unused (fun _ => rfl) rfl hcode
    rw [heq]
    exact .of_attached hclear rfl rfl hdetaching

theorem detach (h : TableInv program s) : TableInv program s.dbgHandleDetach := by
  rcases dbgHandleDetach_cases (s := s) with
    hanswered | ⟨hattached, -, heq⟩ | ⟨-, heq⟩
  · exact h.answered hanswered
  · rw [heq]
    exact
      { bps := h.bps.unpatchAll
        unattached := fun hdetached => nomatch hattached.symm.trans hdetached
        detaching := fun _ i hused => Breakpoints.disabled_unpatchAll _ _ hused }
  · rw [heq]
    exact finishDetach h.bps.unpatchAll fun i hused => Breakpoints.disabled_unpatchAll _ _ hused

theorem bpset (h : TableInv program s) (hdetaching : s.detaching = false) (args : Text) :
    TableInv program (s.dbgHandleBpset p args) := by
  rcases dbgHandleBpset_cases (p := p) (s := s) args with
    hanswered | ⟨hattached, i, address, line, -, -, hfind, hfree, heq⟩
  · exact h.answered hanswered
  · have hinsert := h.bps.insertBp (Breakpoints.unused_of_findFreeBp hfree)
      (Breakpoints.findBpByAddr_eq_none hfind)
    rw [heq]
    exact .of_attached (hinsert.patchBp i) rfl hattached hdetaching

theorem bpclear (h : TableInv program s) (hdetaching : s.detaching = false) (args : Text) :
    TableInv program (s.dbgHandleBpclear args) := by
  rcases dbgHandleBpclear_cases (s := s) args with hanswered | ⟨hattached, i, line, hused, heq⟩
  · exact h.answered hanswered
  · rw [heq]
    exact .of_attached (h.bps.clearBp hused) rfl hattached hdetaching

theorem clearall (h : TableInv program s) (hdetaching : s.detaching = false) :
    TableInv program s.dbgHandleClearall := by
  rcases dbgHandleClearall_cases (s := s) with hanswered | ⟨hattached, line, heq⟩
  · exact h.answered hanswered
  · have hall := h.bps.unpatchAll.releaseAll fun i hused =>
      Breakpoints.disabled_unpatchAll _ _ hused
    rw [heq]
    exact .of_attached hall rfl hattached hdetaching

theorem cont (h : TableInv program s) : TableInv program s.dbgHandleContinue := by
  rcases dbgHandleContinue_cases (s := s) with hanswered | ⟨-, -, line, heq⟩
  · exact h.answered hanswered
  · rw [heq]
    exact h.of_bps_eq rfl rfl rfl

theorem step (h : TableInv program s) (hdetaching : s.detaching = false) :
    TableInv program s.dbgHandleStep := by
  rcases dbgHandleStep_cases (s := s) with hanswered | ⟨hattached, -, line, heq⟩
  · exact h.answered hanswered
  · have hunpatched : s.unpatchAtTrapPc.InStep program := by
      unfold unpatchAtTrapPc
      split
      · exact h.bps.unpatchBp _
      · exact h.bps
    rw [heq]
    exact .of_attached hunpatched rfl hattached hdetaching

theorem poll (h : TableInv program s) : TableInv program s.dbgPoll := by
  rcases dbgPoll_cases (s := s) with heq | ⟨-, -, heq⟩
  · rwa [heq]
  · rw [heq]
    exact h.of_bps_eq h.bps.dropTemporary_eq_self rfl rfl

/-- One step. -/
theorem next (h : TableInv program s) {label : Label} (hpermit : s.NoTraceInDetach label)
    (hstep : s.next p label = some s') : TableInv program s' := by
  have hdaemon : ∀ {t : Machine Data}, (if s.detaching then none else some t) = some s' →
      (s.detaching = false → TableInv program t) → TableInv program s' := by
    intro t ht hkeeps
    split_ifs at ht with hdetaching
    cases ht
    exact hkeeps (Bool.eq_false_of_not_eq_true hdetaching)
  cases label with
  | target scratch => exact h.target hpermit hstep
  | takeSignal =>
    simp only [Machine.next] at hstep
    split_ifs at hstep
    cases hstep
    exact h.of_bps_eq rfl rfl rfl
  | delayEnd =>
    simp only [Machine.next] at hstep
    split_ifs at hstep with hdetaching
    cases hstep
    exact finishDetach h.bps (h.detaching hdetaching)
  | attach args found => exact hdaemon hstep fun hd => h.attach hd args found
  | detach => exact hdaemon hstep fun _ => h.detach
  | dbgBreak =>
    refine hdaemon hstep fun _ => ?_
    rcases dbgHandleBreak_cases (s := s) with hanswered | ⟨-, -, line, heq⟩
    · exact h.answered hanswered
    · rw [heq]
      exact h.of_bps_eq rfl rfl rfl
  | bpset args => exact hdaemon hstep fun hd => h.bpset hd args
  | bpclear args => exact hdaemon hstep fun hd => h.bpclear hd args
  | clearall => exact hdaemon hstep fun hd => h.clearall hd
  | step => exact hdaemon hstep fun hd => h.step hd
  | next =>
    refine hdaemon hstep fun hd => ?_
    rcases dbgHandleNext_cases (s := s) with hanswered | heq | heq
    · exact h.answered hanswered
    · exact heq ▸ h.cont
    · exact heq ▸ h.step hd
  | cont => exact hdaemon hstep fun _ => h.cont
  | setreg => exact hdaemon hstep fun _ => h.answered ⟨_, rfl⟩
  | poll => exact hdaemon hstep fun _ => h.poll

theorem consistent (h : TableInv program s) (hprogram : ∀ a, program a ≠ trap15Opcode) :
    Consistent program s where
  unique := h.bps.unique
  count := h.bps.count
  trap a := by
    rw [h.bps.code]
    exact overlay_eq_mark_iff hprogram a
  other a ha := by
    rw [h.bps.code] at ha ⊢
    exact overlay_of_notMem fun hmem => ha (overlay_of_mem hmem)
  detached hattached := h.bps.code_of_disabled fun i hi => by
    rw [h.unattached hattached i] at hi
    cases hi

/-- A clear-all leaves the program's words. -/
theorem code_clearall (h : TableInv program s) (hattached : s.attached = true)
    (hstep : s.next p .clearall = some s') : s'.bps.code = program := by
  simp only [Machine.next] at hstep
  split_ifs at hstep
  cases hstep
  have hcode : s.bps.unpatchAll.code = program :=
    h.bps.unpatchAll.code_of_disabled fun i hused => Breakpoints.disabled_unpatchAll _ _ hused
  unfold dbgHandleClearall
  rw [hattached]
  exact hcode

/-- The condition is no wider than the defect: a Trace exception during the `Delay` patches every
used entry, and if the detach ends now the trap stays. -/
theorem trap_left_by_detach (h : TableInv program s) (hprogram : ∀ a, program a ≠ trap15Opcode)
    (hdetaching : s.detaching = true) (hrepatches : s.Repatches) {i : Fin maxBreakpoints}
    (hused : (s.bps.table i).used = true) {scratch : Scratch}
    (hstep : s.next p (.target scratch) = some s') :
    ∃ s'', s'.next p .delayEnd = some s'' ∧ ¬ Consistent program s'' := by
  have hbps := bps_of_repatches hrepatches hstep
  have hkept := kept_target hstep
  refine ⟨s'.delayEnd, if_pos (hkept.detaching.trans hdetaching), fun hconsistent => ?_⟩
  have hcode : s'.bps.code = program := hconsistent.detached rfl
  have htrap : s'.bps.code (s.bps.table i).address = trap15Opcode := by
    rw [hbps, h.bps.repatchAll.code]
    exact overlay_of_mem (h.bps.armed_repatchAll hused)
  exact hprogram _ (by rw [← hcode, htrap])

end TableInv

/-- In every run without a Trace exception during the `Delay` of a detach, table and code memory
stay in step, and a clear-all restores every word. -/
theorem breakpoints_in_step (p : Platform Data) {program : Code}
    (hprogram : ∀ a, program a ≠ trap15Opcode) (regs : Registers) (data : Data) {s : Machine Data}
    (hrun : Reaches (next p) NoTraceInDetach (initial program regs data) s) :
    Consistent program s ∧ ∀ s', s.attached = true → s.next p .clearall = some s' →
      s'.bps.code = program := by
  have hinv : TableInv program s := hrun.invariant (TableInv program) (.initial regs data)
    fun _ _ _ h hpermit hstep => h.next hpermit hstep
  exact ⟨hinv.consistent hprogram, fun s' hattached hstep => hinv.code_clearall hattached hstep⟩

/-- A machine on which every instruction goes on to the next word. -/
def plainPlatform : Platform Unit where
  execute _ regs data := ({ regs with pc := regs.pc + 2 }, data)
  task := 0x2000
  sysBase := 0x676
  inRam _ := true
  trap15Handler := 0x3000
  trap14Handler := 0x3100

/-- A program of `NOP`s. -/
def nops : Code := fun _ => 0x4E71

theorem nops_ne_trap (a : UInt32) : nops a ≠ trap15Opcode := by
  change (0x4E71 : UInt16) ≠ 0x4E4F
  decide

/-- The registers of a target about to execute at an address. -/
def startAt (pc : UInt32) : Registers := ⟨fun _ => 0, fun _ => 0, 0x8000, 0, pc⟩

/-- What exec calls leave when they preserve A1. -/
def quietCall (a1 : UInt32) : Scratch := ⟨0, 0, 0, a1, false⟩

/-- Attach to a running target. -/
def attachRunning : Label := .attach "demo".toList (.target "demo".toList 0x1000 false)

/-- A breakpoint is set and hit, and the hit is reported before the traced instruction. -/
def hitAndPoll : List Label :=
  [attachRunning, .bpset "1000".toList, .target (quietCall 0x1000), .poll]

/-- The traced instruction, then a continue: the target stops at the breakpoint and goes on, the
breakpoint stays armed. -/
theorem breakpoints_in_step_hit :
    ∃ s, Reaches (next plainPlatform) NoTraceInDetach (initial nops (startAt 0x1000) ()) s ∧
      s.bps.code 0x1000 = trap15Opcode ∧
      (Consistent nops s ∧ ∀ s', s.attached = true → s.next plainPlatform .clearall = some s' →
        s'.bps.code = nops) := by
  have hend : (runLabels (next plainPlatform) (initial nops (startAt 0x1000) ())
      (hitAndPoll ++ [.target (quietCall 0), .cont])).map (fun s => s.bps.code 0x1000) =
      some trap15Opcode := by decide +kernel
  have hpermitted : AllPermitted (next plainPlatform) NoTraceInDetach
      (initial nops (startAt 0x1000) ()) (hitAndPoll ++ [.target (quietCall 0), .cont]) := by
    decide +kernel
  obtain ⟨s, hrun, hcode⟩ := Option.map_eq_some_iff.mp hend
  have hreaches := Reaches.refl.of_labels hrun hpermitted
  exact ⟨s, hreaches, hcode,
    breakpoints_in_step plainPlatform nops_ne_trap (startAt 0x1000) () hreaches⟩

/-- The Trace exception comes during the `Delay` of a detach: the trap stays in the code. -/
theorem breakpoints_not_in_step :
    ¬ ∀ s, Reaches (next plainPlatform) (fun _ _ => True) (initial nops (startAt 0x1000) ()) s →
      Consistent nops s := by
  intro hall
  have hend : (runLabels (next plainPlatform) (initial nops (startAt 0x1000) ())
      (hitAndPoll ++ [.detach, .target (quietCall 0), .delayEnd])).map
        (fun s => (s.attached, s.bps.code 0x1000)) = some (false, trap15Opcode) := by
    decide +kernel
  obtain ⟨s, hrun, hresult⟩ := Option.map_eq_some_iff.mp hend
  have hreaches := Reaches.refl.of_labels hrun (allPermitted_true ..)
  have hcode := congrFun ((hall s hreaches).detached (Prod.mk.inj hresult).1) 0x1000
  exact absurd ((Prod.mk.inj hresult).2.symm.trans hcode) (by decide)

end AmigaDevbench.Debugger.Machine
