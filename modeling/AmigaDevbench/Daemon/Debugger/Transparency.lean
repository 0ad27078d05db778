import AmigaDevbench.Daemon.Debugger.InStep

/-!
# Transparency of the debugger

Without a debugger the target executes one instruction after the other from its own registers and
data. The debugged target is compared with that run through the registers with which it goes on in
its own code, wherever it is now: a step of the debugger leaves them alone exactly where the
handlers and the stub happen to leave every register as they found it.
-/

namespace AmigaDevbench.Debugger.Machine

variable {Data : Type*} {p : Platform Data} {program : Code} {s s' : Machine Data}

/-- One instruction of the program as it is without a debugger. -/
def plainStep (p : Platform Data) (program : Code) (x : Registers × Data) : Registers × Data :=
  p.execute program x.1 x.2

/-- The registers with which the target goes on in its own code. -/
def resumes (s : Machine Data) : Registers :=
  match s.place with
  | .running | .astray => s.regs
  | .waiting | .woken =>
    ⟨s.savedRegs.d, s.savedRegs.a, s.regs.usp, s.savedRegs.sr, s.resumePc⟩
  | .continuing | .stepping | .trapping =>
    ⟨s.regs.d, s.regs.a, s.regs.usp, s.savedRegs.sr, s.resumePc⟩

/-- The registers in front of the instruction of its own that the target executes in a step; a
breakpoint is no such instruction. -/
def executed (s : Machine Data) : Label → Option Registers
  | .target _ =>
    if s.place = .running ∧
        (s.t1 = true ∧ (s.ours && s.traps) = false ∨
          s.t1 = false ∧ (s.traps && s.bps.code s.regs.pc == trap15Opcode) = false)
    then some s.regs else none
  | _ => none

/-- The instruction at PC reads the program's words, none of them under a breakpoint. -/
def ReadsProgram (p : Platform Data) (program : Code) (s : Machine Data) : Prop :=
  p.execute s.bps.code s.regs s.data = p.execute program s.regs s.data

/-- The flags behind `move.l _dbg_resume_pc, -(%sp)`. -/
def continued (s : Machine Data) : Registers :=
  { s.regs with pc := s.resumePc }.setFlags s.regs.extend (s.resumePc &&& 0x80000000 != 0)
    (s.resumePc == 0)

/-- The instruction at PC, with the exceptions it takes, leaves the registers alone or is one
instruction of the program. -/
def RunLeavesRegisters (p : Platform Data) (program : Code) (s : Machine Data)
    (scratch : Scratch) : Prop :=
  if s.t1 then
    -- the Trace exception comes to the debugger, whose work registers are as it leaves them
    s.ours = true ∧ s.traps = false ∧ s.ReadsProgram p program ∧
      (s.execute p).traced p = (s.execute p).regs
  else if s.traps then
    if s.bps.code s.regs.pc = trap15Opcode then (s.trap15 p scratch).regs = s.regs
    else p.execute program s.regs s.data = ({ s.regs with pc := s.resumePc }, s.data)
  else s.ReadsProgram p program

/-- The step leaves the registers with which the target goes on as they are, or executes one
instruction of the program. -/
def LeavesRegisters (p : Platform Data) (program : Code) (s : Machine Data) : Label → Prop
  | .target scratch =>
    match s.place with
    | .running => s.RunLeavesRegisters p program scratch
    | .continuing => s.continued.sr = s.savedRegs.sr
    | .trapping => s.trapInstalled = true ∧ s.regs.sr = s.savedRegs.sr
    | _ => True
  -- a target in the stub goes on where it would have without the command
  | label => s.Steps label → s.place ≠ .running → s.trapPc = s.resumePc

/-- The target has executed a beginning of the plain run, and the debugger has not lost it. -/
def Transparent (p : Platform Data) (program : Code) (regs : Registers) (data : Data)
    (x : Machine Data × List Registers) : Prop :=
  x.1.place ≠ .astray ∧ x.2 = (List.range x.2.length).map fun k =>
    ((plainStep p program)^[k] (regs, data)).1

/-- What the comparison looks at. -/
def abstract (s : Machine Data) : Registers × Data := (s.resumes, s.data)

/-- What a step does in the comparison: nothing, or one instruction of the program. -/
def Simulates (p : Platform Data) (program : Code) (s : Machine Data) (label : Label)
    (s' : Machine Data) : Prop :=
  (s.executed label = none ∧ s'.abstract = s.abstract ∨
    s.executed label = some s.abstract.1 ∧ s'.abstract = plainStep p program s.abstract) ∧
    (s.place ≠ .astray → s'.place ≠ .astray)

/-- The daemon's steps are nothing in the comparison if a DBGSTEP has the target go on where it
would have. -/
theorem Aside.simulates {label : Label} (h : Aside label s s')
    (hlabel : ∀ scratch, label ≠ .target scratch)
    (hsteps : s.Steps label → s.place ≠ .running → s.trapPc = s.resumePc) :
    Simulates p program s label s' := by
  have hexecuted : s.executed label = none := by
    cases label with
    | target scratch => exact absurd rfl (hlabel scratch)
    | _ => rfl
  refine ⟨.inl ⟨hexecuted, ?_⟩, fun halive => h.place ▸ halive⟩
  obtain ⟨pc, hsaved⟩ := h.saved
  have hresume : s.place = .running ∨ s'.resumePc = s.resumePc := by
    by_cases hplace : s.place = .running
    · exact .inl hplace
    · rcases h.resumePc with hsame | ⟨hstep, hpc⟩
      · exact .inr hsame
      · exact .inr (hpc.trans (hsteps hstep hplace))
  unfold abstract resumes
  rw [h.place, h.regs, h.data, hsaved]
  rcases hresume with hrunning | hsame
  · rw [hrunning]
  · rw [hsame]

/-- The Trace handler keeps the registers with which the target goes on if its work registers are
as it leaves them. -/
theorem resumes_trace (hplace : s.place = .running) (hregs : s.traced p = s.regs) :
    (s.trace p).resumes = s.regs ∧ (s.trace p).place ≠ .astray := by
  unfold trace
  cases s.stepMode with
  | none =>
    refine ⟨?_, fun h => nomatch hplace.symm.trans h⟩
    unfold resumes
    dsimp only
    rw [hplace, hregs]
  | pastBreakpoint =>
    refine ⟨?_, nofun⟩
    unfold resumes
    dsimp only
    rw [hregs]
  | single =>
    refine ⟨?_, nofun⟩
    unfold resumes
    dsimp only
    rw [hregs]

theorem data_trace : (s.trace p).data = s.data := by
  unfold trace
  cases s.stepMode <;> rfl

/-- An instruction that reads the program's words is one of the plain run. -/
theorem execute_eq (h : s.ReadsProgram p program) :
    ((s.execute p).regs, (s.execute p).data) = plainStep p program (s.regs, s.data) := h

theorem simulates_run {scratch : Scratch} (hplace : s.place = .running)
    (hpermit : s.LeavesRegisters p program (.target scratch)) :
    Simulates p program s (.target scratch) (s.run p scratch) := by
  have habstract : s.abstract = (s.regs, s.data) := by
    unfold abstract resumes
    rw [hplace]
  unfold LeavesRegisters at hpermit
  simp only [hplace] at hpermit
  unfold RunLeavesRegisters at hpermit
  unfold Simulates
  rw [habstract]
  cases ht1 : s.t1 with
  | true =>
    rw [ht1, if_pos rfl] at hpermit
    obtain ⟨hours, htraps, hreads, hregs⟩ := hpermit
    obtain ⟨hresumes, halive⟩ := resumes_trace (s := s.execute p) hplace hregs
    have hrun : s.run p scratch = (s.execute p).trace p := by
      unfold run
      rw [ht1, hours, htraps]
      rfl
    refine ⟨.inr ⟨?_, ?_⟩, fun _ => by rw [hrun]; exact halive⟩
    · exact if_pos ⟨hplace, .inl ⟨ht1, by rw [htraps, Bool.and_false]⟩⟩
    · rw [hrun, ← execute_eq hreads]
      exact Prod.ext hresumes data_trace
  | false =>
    rw [ht1, if_neg Bool.false_ne_true] at hpermit
    cases htraps : s.traps with
    | false =>
      rw [htraps, if_neg Bool.false_ne_true] at hpermit
      have hrun : s.run p scratch = s.execute p := by
        unfold run
        rw [ht1, htraps]
        rfl
      refine ⟨.inr ⟨?_, ?_⟩, fun _ => by rw [hrun]; exact fun h => nomatch hplace.symm.trans h⟩
      · exact if_pos ⟨hplace, .inr ⟨ht1, by rw [htraps, Bool.false_and]⟩⟩
      · rw [hrun, ← execute_eq hpermit]
        have hresumes : (s.execute p).resumes = (s.execute p).regs := by
          unfold resumes
          have hsame : (s.execute p).place = .running := hplace
          rw [hsame]
        exact Prod.ext hresumes rfl
    | true =>
      rw [htraps, if_pos rfl] at hpermit
      by_cases hword : s.bps.code s.regs.pc = trap15Opcode
      · rw [if_pos hword] at hpermit
        have hrun : s.run p scratch = s.trap15 p scratch := by
          unfold run
          rw [ht1, htraps, if_neg Bool.false_ne_true, if_pos rfl, if_pos hword]
        refine ⟨.inl ⟨?_, ?_⟩, fun _ => by rw [hrun]; exact fun h => nomatch hplace.symm.trans h⟩
        · refine if_neg fun hcond => ?_
          rcases hcond.2 with h | h
          · exact nomatch ht1.symm.trans h.1
          · rw [htraps, hword] at h
            exact nomatch h.2
        · rw [hrun]
          have hresumes : (s.trap15 p scratch).resumes = s.regs := by
            unfold resumes
            have hsame : (s.trap15 p scratch).place = .running := hplace
            rw [hsame]
            exact hpermit
          exact Prod.ext hresumes rfl
      · rw [if_neg hword] at hpermit
        have hrun : s.run p scratch = s.trap14 := by
          unfold run
          rw [ht1, htraps, if_neg Bool.false_ne_true, if_pos rfl, if_neg hword]
        refine ⟨.inr ⟨?_, ?_⟩, fun _ => by rw [hrun]; exact nofun⟩
        · refine if_pos ⟨hplace, .inr ⟨ht1, ?_⟩⟩
          rw [beq_false_of_ne hword, Bool.and_false]
        · rw [hrun]
          exact hpermit.symm

/-- The stub leads back to where the target goes on. -/
theorem simulates_stub {scratch : Scratch} (hplace : s.place ≠ .running)
    (hpermit : s.LeavesRegisters p program (.target scratch))
    (hstep : s.target p scratch = some s') : Simulates p program s (.target scratch) s' := by
  have hexecuted : s.executed (.target scratch) = none := if_neg fun h => hplace h.1
  unfold LeavesRegisters at hpermit
  unfold target at hstep
  unfold Simulates abstract
  split at hstep <;> rename_i hat
  · exact absurd hat hplace
  · split_ifs at hstep
    cases hstep
    refine ⟨.inl ⟨hexecuted, ?_⟩, nofun⟩
    unfold resumes
    rw [hat]
  · cases hstep
    cases hrequest : s.stepRequest with
    | true =>
      refine ⟨.inl ⟨hexecuted, ?_⟩, nofun⟩
      unfold resumes
      rw [hat]
      rfl
    | false =>
      refine ⟨.inl ⟨hexecuted, ?_⟩, nofun⟩
      unfold resumes
      rw [hat]
      rfl
  · cases hstep
    simp only [hat] at hpermit
    refine ⟨.inl ⟨hexecuted, ?_⟩, nofun⟩
    unfold resumes
    rw [hat, ← hpermit]
    rfl
  · cases hstep
    refine ⟨.inl ⟨hexecuted, ?_⟩, nofun⟩
    unfold resumes
    rw [hat]
    rfl
  · cases hstep
    simp only [hat] at hpermit
    rw [if_pos hpermit.1]
    refine ⟨.inl ⟨hexecuted, ?_⟩, nofun⟩
    unfold resumes
    rw [hat, ← hpermit.2]
    rfl
  · cases hstep

/-- Every step that leaves the registers alone is nothing or one instruction in the comparison. -/
theorem simulates_next {label : Label} (hpermit : s.LeavesRegisters p program label)
    (hstep : s.next p label = some s') : Simulates p program s label s' := by
  by_cases hlabel : ∃ scratch, label = .target scratch
  · obtain ⟨scratch, rfl⟩ := hlabel
    by_cases hplace : s.place = .running
    · rcases target_cases hstep with ⟨-, rfl⟩ | ⟨hnot, -⟩
      · exact simulates_run hplace hpermit
      · exact absurd hplace hnot
    · exact simulates_stub hplace hpermit hstep
  · have hother : ∀ scratch, label ≠ .target scratch := fun scratch heq => hlabel ⟨scratch, heq⟩
    have hsteps : s.Steps label → s.place ≠ .running → s.trapPc = s.resumePc := by
      cases label with
      | target scratch => exact absurd rfl (hother scratch)
      | _ => exact hpermit
    exact (aside_of_next hother hstep).simulates hother hsteps

instance [DecidableEq Data] (p : Platform Data) (program : Code) (s : Machine Data) :
    Decidable (s.ReadsProgram p program) :=
  inferInstanceAs (Decidable (_ = _))

instance (s : Machine Data) : (label : Label) → Decidable (s.Steps label)
  | .step => inferInstanceAs (Decidable (_ ∧ _))
  | .next => inferInstanceAs (Decidable (_ ∧ _ ∧ _))
  | .attach .. | .detach | .delayEnd | .dbgBreak | .bpset _ | .bpclear _ | .clearall | .cont
  | .setreg | .poll | .target _ | .takeSignal => isFalse id

instance [DecidableEq Data] (p : Platform Data) (program : Code) (s : Machine Data)
    (scratch : Scratch) : Decidable (s.RunLeavesRegisters p program scratch) :=
  inferInstanceAs (Decidable (if s.t1 then
      s.ours = true ∧ s.traps = false ∧ s.ReadsProgram p program ∧
        (s.execute p).traced p = (s.execute p).regs
    else if s.traps then
      if s.bps.code s.regs.pc = trap15Opcode then (s.trap15 p scratch).regs = s.regs
      else p.execute program s.regs s.data = ({ s.regs with pc := s.resumePc }, s.data)
    else s.ReadsProgram p program))

instance [DecidableEq Data] (p : Platform Data) (program : Code) (s : Machine Data) :
    (label : Label) → Decidable (s.LeavesRegisters p program label)
  | .target scratch =>
    match h : s.place with
    | .running =>
      decidable_of_iff (s.RunLeavesRegisters p program scratch) (by simp only [LeavesRegisters, h])
    | .continuing =>
      decidable_of_iff (s.continued.sr = s.savedRegs.sr) (by simp only [LeavesRegisters, h])
    | .trapping =>
      decidable_of_iff (s.trapInstalled = true ∧ s.regs.sr = s.savedRegs.sr)
        (by simp only [LeavesRegisters, h])
    | .waiting | .woken | .stepping | .astray => isTrue (by simp only [LeavesRegisters, h])
  | .step | .next | .attach .. | .detach | .delayEnd | .dbgBreak | .bpset _ | .bpclear _
  | .clearall | .cont | .setreg | .poll | .takeSignal => inferInstanceAs (Decidable (_ → _ → _))

/-- A program of `moveq #1, %d0`. -/
def moveqs : Code := fun _ => 0x7001

def moveqPlatform : Platform Unit :=
  { plainPlatform with execute := fun _ regs data => ({ regs.setD 0 1 with pc := regs.pc + 2 }, data) }

/-- Registers that hold what the handlers leave in them. -/
def luckyRegisters : Registers :=
  (((startAt 0x1000).setD 0 0x8000).setA 0 0x2000 |>.setA 1 0x1000).setA 6 0x676

/-- The breakpoint is hit, reported and continued from; then the next instruction is executed. -/
def hitAndContinue : List Label :=
  [attachRunning, .bpset "1000".toList, .target ⟨0, 0, 0x2000, 0x1000, false⟩] ++
    [.target (quietCall 0), .poll, .cont] ++ List.replicate 4 (.target (quietCall 0))

end AmigaDevbench.Debugger.Machine
