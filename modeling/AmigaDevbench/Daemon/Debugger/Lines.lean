import AmigaDevbench.Daemon.Debugger.Machine

/-!
# Lines of the host and the breakpoint table

The daemon takes the lines of the host one at a time, and the target and `dbg_poll` go on between
them. None of this moves or drops a breakpoint, apart from a BPCLEAR. A breakpoint is out of the
code only while the target executes the instruction under it.
-/

namespace AmigaDevbench.Debugger

open AmigaDevbench.Daemon (decimal hex8)

namespace Breakpoints

/-- The same entries are used, at the same addresses. -/
def SameUse (b b' : Breakpoints) : Prop :=
  ∀ i, (b'.table i).used = (b.table i).used ∧ (b'.table i).address = (b.table i).address

variable {b b' b'' : Breakpoints}

theorem SameUse.refl (b : Breakpoints) : SameUse b b := fun _ => ⟨rfl, rfl⟩

theorem SameUse.trans (h : SameUse b b') (h' : SameUse b' b'') : SameUse b b'' := fun i =>
  ⟨(h' i).1.trans (h i).1, (h' i).2.trans (h i).2⟩

theorem sameUse_restore (address : UInt32) : SameUse b (b.restore address) := by
  unfold restore
  split
  · exact fun _ => ⟨used_write, address_write⟩
  · exact .refl b

theorem sameUse_repatchAll : SameUse b b.repatchAll := by
  rw [repatchAll]
  refine List.foldlRecOn _ _ (.refl b) fun b' hb' i _ => hb'.trans ?_
  unfold repatchBp
  split
  · exact fun _ => ⟨used_write, address_write⟩
  · exact .refl b'

/-- No address in the table is an entry's except those of the other table. -/
theorem SameUse.findBpByAddr_eq_none (h : SameUse b b') {address : UInt32}
    (hnone : b.findBpByAddr address = none) : b'.findBpByAddr address = none := by
  cases hfind : b'.findBpByAddr address with
  | none => rfl
  | some i =>
    obtain ⟨hused, haddress⟩ := used_of_findBpByAddr hfind
    rw [(h i).1] at hused
    rw [(h i).2] at haddress
    exact absurd haddress (Breakpoints.findBpByAddr_eq_none hnone i hused)

end Breakpoints

namespace Machine

variable {Data : Type*}

/-- `dbg_handle_status`. -/
def dbgHandleStatus (s : Machine Data) : Machine Data :=
  s.send ("DBGSTATE|".toList ++ decimal s.attached.toNat ++ '|' :: (decimal s.stopped.toNat ++
    '|' :: ((if s.attached then s.targetName else []) ++
    '|' :: (hex8 (if s.stopped then s.savedRegs.pc.toNat else 0) ++
    '|' :: (signedDecimal s.bps.count ++ "|BASE:".toList ++ hex8 s.codeBase.toNat)))))

/-- `protocol_parse_line` for the debugger's commands that the stepping sends: nothing else is
modelled here, and no line is taken during the `Delay` of a detach. -/
def handleLine (p : Platform Data) (s : Machine Data) (line : Text) : Option (Machine Data) :=
  let cmd := (line.before '|').take 31
  let args := (line.after? '|').getD []
  if s.detaching then none
  else if cmd = "BPSET".toList then some (s.dbgHandleBpset p args)
  else if cmd = "BPCLEAR".toList then some (s.dbgHandleBpclear args)
  else if cmd = "DBGCONT".toList then some s.dbgHandleContinue
  else if cmd = "DBGSTATUS".toList then some s.dbgHandleStatus
  else none

/-- What happens between two lines: a step of the target, or `dbg_poll`. -/
def Background : Label → Prop
  | .target _ | .takeSignal | .poll => True
  | _ => False

/-- The daemon handles the lines in their order. -/
inductive Handles (p : Platform Data) : List Text → Machine Data → Machine Data → Prop where
  | done (s : Machine Data) : Handles p [] s s
  | background {lines : List Text} {s t s' : Machine Data} {label : Label}
      (hlabel : Background label) (hstep : s.next p label = some t) (hrest : Handles p lines t s') :
      Handles p lines s s'
  | line {line : Text} {lines : List Text} {s t s' : Machine Data}
      (hline : s.handleLine p line = some t) (hrest : Handles p lines t s') :
      Handles p (line :: lines) s s'

variable {p : Platform Data} {program : Code} {s s' t : Machine Data} {lines lines' : List Text}

theorem Handles.split : Handles p (lines ++ lines') s s' →
    ∃ t, Handles p lines s t ∧ Handles p lines' t s' := by
  generalize hall : lines ++ lines' = all
  intro h
  induction h generalizing lines with
  | done s =>
    obtain ⟨rfl, rfl⟩ := List.append_eq_nil_iff.mp hall
    exact ⟨s, .done s, .done s⟩
  | background hlabel hstep _ ih =>
    obtain ⟨t, hfirst, hsecond⟩ := ih hall
    exact ⟨t, .background hlabel hstep hfirst, hsecond⟩
  | @line line rest s t s' hline hrest ih =>
    cases lines with
    | nil =>
      rw [List.nil_append] at hall
      exact ⟨s, .done s, hall ▸ .line hline hrest⟩
    | cons first lines =>
      rw [List.cons_append, List.cons.injEq] at hall
      obtain ⟨rfl, hall⟩ := hall
      obtain ⟨t, hfirst, hsecond⟩ := ih hall
      exact ⟨t, .line hline hfirst, hsecond⟩

/-! ### What stays -/

/-- A breakpoint is in the code, unless the target is about to put it back. -/
def Settled (s : Machine Data) : Prop :=
  ∀ i, (s.bps.table i).used = true → (s.bps.table i).enabled = true ∨ s.Repatches

/-- Table and code are in step and settled. -/
structure Sound (program : Code) (s : Machine Data) : Prop where
  bps : s.bps.InStep program
  settled : s.Settled

/-- The breakpoints stay where they are. -/
structure Undisturbed (s s' : Machine Data) : Prop where
  use : s.bps.SameUse s'.bps
  attached : s'.attached = s.attached

theorem Undisturbed.trans (h : Undisturbed s t) (h' : Undisturbed t s') : Undisturbed s s' :=
  ⟨h.use.trans h'.use, h'.attached.trans h.attached⟩

/-- A step that leaves the table, and the target where it is. -/
theorem Sound.of_bps_eq (h : Sound program s) (hbps : s'.bps = s.bps)
    (hattached : s'.attached = s.attached) (hrepatches : s.Repatches → s'.Repatches) :
    Sound program s' ∧ Undisturbed s s' := by
  refine ⟨⟨hbps ▸ h.bps, fun i hused => ?_⟩, ⟨hbps ▸ .refl _, hattached⟩⟩
  rw [hbps] at hused ⊢
  exact (h.settled i hused).imp_right hrepatches

theorem Sound.answered (h : Sound program s) (hanswered : s.Answered s') :
    Sound program s' ∧ Undisturbed s s' := by
  obtain ⟨line, rfl⟩ := hanswered
  exact h.of_bps_eq rfl rfl id

/-- The trap handler takes a breakpoint out and has the next instruction traced. -/
theorem target_restores {scratch : Scratch} (h : s.target p scratch = some s') :
    s'.bps = s.bps ∨ s.Repatches ∧ s'.bps = s.bps.repatchAll ∨
      s'.Repatches ∧ s'.bps = s.bps.restore s.regs.pc := by
  rcases target_cases h with ⟨hplace, rfl⟩ | ⟨-, hbps, -⟩
  · have htraced : ∀ s₁ : Machine Data, s₁.bps = s.bps → s₁.stepMode = s.stepMode →
        s.t1 = true → s.ours = true →
        (s₁.trace p).bps = s.bps ∨ s.Repatches ∧ (s₁.trace p).bps = s.bps.repatchAll := by
      intro s₁ hbps hmode ht1 hours
      rw [bps_trace, hbps, hmode]
      split_ifs with hnone
      · exact .inl rfl
      · exact .inr ⟨⟨hplace, ht1, hours, hnone⟩, rfl⟩
    unfold run
    split_ifs with ht1 hours htraps htraps hword
    · exact (htraced (s.handlerEntry p) rfl rfl ht1 hours).imp_right .inl
    · exact (htraced (s.execute p) rfl rfl ht1 hours).imp_right .inl
    · exact .inl rfl
    · have hours : s.ours = true := by
        have hother : (trap15Opcode == 0x4E4E) = false := by decide
        rw [traps, hword, hother, Bool.false_and, Bool.or_false] at htraps
        exact (Bool.and_eq_true_iff.mp htraps).2
      exact .inr (.inr ⟨⟨hplace, rfl, hours, nofun⟩, rfl⟩)
    · exact .inl rfl
    · exact .inl rfl
  · exact .inl hbps

/-- The target's steps disturb no breakpoint. -/
theorem Sound.target {scratch : Scratch} (h : Sound program s)
    (hstep : s.target p scratch = some s') : Sound program s' ∧ Undisturbed s s' := by
  have hattached := (kept_target hstep).attached
  by_cases hrepatches : s.Repatches
  · have hbps := bps_of_repatches hrepatches hstep
    refine ⟨⟨hbps ▸ h.bps.repatchAll, fun i hused => .inl ?_⟩,
      ⟨hbps ▸ Breakpoints.sameUse_repatchAll, hattached⟩⟩
    rw [hbps] at hused ⊢
    rw [Breakpoints.used_repatchAll] at hused
    exact (Breakpoints.enabled_foldl_repatchBp s.bps i entries hused (h.bps.permanent i hused)
      (.inl (mem_entries i))).1
  · have henabled : ∀ i, (s.bps.table i).used = true → (s.bps.table i).enabled = true :=
      fun i hused => (h.settled i hused).resolve_right hrepatches
    rcases target_restores hstep with hbps | ⟨hnow, -⟩ | ⟨hnext, hbps⟩
    · refine ⟨⟨hbps ▸ h.bps, fun i hused => .inl ?_⟩, ⟨hbps ▸ .refl _, hattached⟩⟩
      rw [hbps] at hused ⊢
      exact henabled i hused
    · exact absurd hnow hrepatches
    · exact ⟨⟨hbps ▸ h.bps.restore _, fun i _ => .inr hnext⟩,
        ⟨hbps ▸ Breakpoints.sameUse_restore _, hattached⟩⟩

theorem Sound.background {label : Label} (h : Sound program s) (hlabel : Background label)
    (hstep : s.next p label = some s') : Sound program s' ∧ Undisturbed s s' := by
  cases label with
  | target scratch => exact h.target hstep
  | takeSignal =>
    simp only [next] at hstep
    split_ifs at hstep
    cases hstep
    exact h.of_bps_eq rfl rfl id
  | poll =>
    simp only [next] at hstep
    split_ifs at hstep
    cases hstep
    rcases dbgPoll_cases (s := s) with heq | ⟨-, -, heq⟩
    · rw [heq]
      exact h.of_bps_eq rfl rfl id
    · rw [heq]
      exact h.of_bps_eq h.bps.dropTemporary_eq_self rfl id
  | _ => exact hlabel.elim

/-! ### The lines -/

theorem handleLine_status : s.handleLine p "DBGSTATUS".toList =
    if s.detaching then none else some s.dbgHandleStatus := rfl

theorem handleLine_cont : s.handleLine p "DBGCONT".toList =
    if s.detaching then none else some s.dbgHandleContinue := rfl

theorem handleLine_bpset (args : Text) : s.handleLine p ("BPSET|".toList ++ args) =
    if s.detaching then none else some (s.dbgHandleBpset p args) := rfl

theorem handleLine_bpclear (args : Text) : s.handleLine p ("BPCLEAR|".toList ++ args) =
    if s.detaching then none else some (s.dbgHandleBpclear args) := rfl

/-- A line that is no command about a breakpoint. -/
def Quiet (line : Text) : Prop := line = "DBGSTATUS".toList ∨ line = "DBGCONT".toList

theorem Sound.quiet_line {line : Text} (h : Sound program s) (hquiet : Quiet line)
    (hline : s.handleLine p line = some s') : Sound program s' ∧ Undisturbed s s' := by
  rcases hquiet with rfl | rfl
  · rw [handleLine_status] at hline
    split_ifs at hline
    cases hline
    exact h.answered ⟨_, rfl⟩
  · rw [handleLine_cont] at hline
    split_ifs at hline
    cases hline
    rcases dbgHandleContinue_cases (s := s) with hanswered | ⟨-, -, line, heq⟩
    · exact h.answered hanswered
    · rw [heq]
      exact h.of_bps_eq rfl rfl id

/-- Lines that are no commands about breakpoints disturb none. -/
theorem Sound.quiet (h : Sound program s) (hquiet : ∀ line ∈ lines, Quiet line)
    (hhandles : Handles p lines s s') : Sound program s' ∧ Undisturbed s s' := by
  induction hhandles with
  | done s => exact ⟨h, .refl _, rfl⟩
  | background hlabel hstep _ ih =>
    obtain ⟨hsound, hsame⟩ := h.background hlabel hstep
    obtain ⟨hsound', hsame'⟩ := ih hsound hquiet
    exact ⟨hsound', hsame.trans hsame'⟩
  | line hline _ ih =>
    obtain ⟨hsound, hsame⟩ := h.quiet_line (hquiet _ List.mem_cons_self) hline
    obtain ⟨hsound', hsame'⟩ := ih hsound fun line hmem => hquiet line (List.mem_cons_of_mem _ hmem)
    exact ⟨hsound', hsame.trans hsame'⟩

/-- One line with what happens around it. -/
theorem Sound.single {line : Text} (h : Sound program s) (hhandles : Handles p [line] s s') :
    ∃ t t', Sound program t ∧ Undisturbed s t ∧ t.handleLine p line = some t' ∧
      Handles p [] t' s' := by
  generalize hlines : [line] = lines at hhandles
  induction hhandles with
  | done => cases hlines
  | background hlabel hstep _ ih =>
    obtain ⟨hsound, hsame⟩ := h.background hlabel hstep
    obtain ⟨t, t', ht, hbefore, hline, hafter⟩ := ih hsound hlines
    exact ⟨t, t', ht, hsame.trans hbefore, hline, hafter⟩
  | line hline hrest =>
    rw [List.cons.injEq] at hlines
    obtain ⟨rfl, rfl⟩ := hlines
    exact ⟨_, _, h, ⟨.refl _, rfl⟩, hline, hrest⟩

/-! ### A helper breakpoint -/

/-- The address that the handlers read. -/
def addressOf (args : Text) : UInt32 := UInt32.ofNat (CNumber.strtoul 16 args)

/-- A used entry is added at an address that had none. -/
structure Adds (i : Fin maxBreakpoints) (address : UInt32) (b b' : Breakpoints) : Prop where
  fresh : b.findBpByAddr address = none
  free : (b.table i).used = false
  used : (b'.table i).used = true
  address : (b'.table i).address = address
  other (j : Fin maxBreakpoints) (h : j ≠ i) :
    (b'.table j).used = (b.table j).used ∧ (b'.table j).address = (b.table j).address

/-- The added entry is still there when the table has changed no more. -/
theorem Adds.congr {i : Fin maxBreakpoints} {address : UInt32} {b b' b'' : Breakpoints}
    (h : Adds i address b b') (hsame : b'.SameUse b'') : Adds i address b b'' :=
  ⟨h.fresh, h.free, (hsame i).1.trans h.used, (hsame i).2.trans h.address, fun j hj =>
    ⟨(hsame j).1.trans (h.other j hj).1, (hsame j).2.trans (h.other j hj).2⟩⟩

/-- A BPSET leaves the table, or adds an entry that is patched in. -/
theorem Sound.bpset (h : Sound program s) (args : Text) :
    Sound program (s.dbgHandleBpset p args) ∧
      (s.dbgHandleBpset p args).attached = s.attached ∧
      (s.bps.SameUse (s.dbgHandleBpset p args).bps ∨
        ∃ i, Adds i (addressOf args) s.bps (s.dbgHandleBpset p args).bps) := by
  have hanswered : ∀ line, Sound program (s.send line) ∧ (s.send line).attached = s.attached ∧
      (s.bps.SameUse (s.send line).bps ∨ ∃ i, Adds i (addressOf args) s.bps (s.send line).bps) :=
    fun line => ⟨(h.answered ⟨line, rfl⟩).1, rfl, .inl (.refl _)⟩
  unfold dbgHandleBpset
  dsimp only
  split_ifs
  · exact hanswered _
  · exact hanswered _
  · exact hanswered _
  · exact hanswered _
  · cases hfind : s.bps.findBpByAddr (addressOf args) with
    | some i =>
      rw [addressOf] at hfind
      rw [hfind]
      exact hanswered _
    | none =>
      have hfind' := hfind
      rw [addressOf] at hfind'
      rw [hfind']
      cases hfree : s.bps.findFreeBp with
      | none => exact hanswered _
      | some i =>
        have hunused := Breakpoints.unused_of_findFreeBp hfree
        have hinsert := h.bps.insertBp hunused (Breakpoints.findBpByAddr_eq_none hfind)
        have hself : (s.bps.insertBp i (addressOf args)).table i =
            ⟨addressOf args, s.bps.code (addressOf args), false, false, true⟩ :=
          Function.update_self ..
        have hpatch : (s.bps.insertBp i (addressOf args)).patchBp i =
            (s.bps.insertBp i (addressOf args)).write i trap15Opcode true := by
          rw [Breakpoints.patchBp, hself]
          rfl
        have hother : ∀ j, j ≠ i →
            ((s.bps.insertBp i (addressOf args)).patchBp i).table j = s.bps.table j := by
          intro j hj
          rw [hpatch, Breakpoints.table_write_of_ne hj]
          exact Function.update_of_ne hj ..
        have hentry : ((s.bps.insertBp i (addressOf args)).patchBp i).table i =
            ⟨addressOf args, s.bps.code (addressOf args), true, false, true⟩ := by
          rw [hpatch, Breakpoints.table_write_self, hself]
        refine ⟨⟨hinsert.patchBp i, fun j hused => ?_⟩, rfl, .inr ⟨i, hfind, hunused, ?_, ?_, ?_⟩⟩
        · by_cases hj : j = i
          · left
            rw [hj]
            exact congrArg Breakpoint.enabled hentry
          · have hused' : (s.bps.table j).used = true := by
              rw [← hother j hj]
              exact hused
            refine (h.settled j hused').imp (fun henabled => ?_) fun hrepatches => ?_
            · rw [← hother j hj] at henabled
              exact henabled
            · obtain ⟨hplace, ht1, hours, hmode⟩ := hrepatches
              exact ⟨hplace, ht1, (Bool.and_eq_true_iff.mp hours).2, hmode⟩
        · exact congrArg Breakpoint.used hentry
        · exact congrArg Breakpoint.address hentry
        · intro j hj
          exact ⟨congrArg Breakpoint.used (hother j hj), congrArg Breakpoint.address (hother j hj)⟩

/-- The table behind a BPCLEAR of an entry. -/
theorem table_clearBp (b : Breakpoints) (i j : Fin maxBreakpoints) :
    (j = i → (((b.unpatchBp i).releaseBp i).table j).used = false) ∧
      (j ≠ i → ((b.unpatchBp i).releaseBp i).table j = b.table j) := by
  constructor
  · rintro rfl
    have hself : ((b.unpatchBp j).releaseBp j).table j =
        { (b.unpatchBp j).table j with used := false } := Function.update_self ..
    rw [hself]
  · intro hj
    have hrelease : ((b.unpatchBp i).releaseBp i).table j = (b.unpatchBp i).table j :=
      Function.update_of_ne hj ..
    rw [hrelease]
    unfold Breakpoints.unpatchBp
    split
    · rfl
    · exact Breakpoints.table_write_of_ne hj

/-- A BPCLEAR gives up the entry that it names, and no other. -/
theorem Sound.bpclear (h : Sound program s) {args : Text} (hargs : args ≠ [])
    (hattached : s.attached = true) : Sound program (s.dbgHandleBpclear args) ∧
      ∀ j, (s.clearedEntry args = some j → ((s.dbgHandleBpclear args).bps.table j).used = false) ∧
        (s.clearedEntry args ≠ some j →
          ((s.dbgHandleBpclear args).bps.table j).used = (s.bps.table j).used ∧
          ((s.dbgHandleBpclear args).bps.table j).address = (s.bps.table j).address) := by
  rw [dbgHandleBpclear, if_neg (by simp [hattached]), if_neg hargs]
  cases hentry : s.clearedEntry args with
  | none =>
    exact ⟨(h.answered ⟨_, rfl⟩).1, fun j => ⟨nofun, fun _ => ⟨rfl, rfl⟩⟩⟩
  | some i =>
    have hused := used_of_clearedEntry hentry
    refine ⟨⟨h.bps.clearBp hused, fun j hj => ?_⟩, fun j => ⟨fun hij => ?_, fun hij => ?_⟩⟩
    · by_cases hji : j = i
      · exact nomatch hj.symm.trans ((table_clearBp s.bps i j).1 hji)
      · have hother := (table_clearBp s.bps i j).2 hji
        have hj' : (s.bps.table j).used = true := by
          rw [← hother]
          exact hj
        refine (h.settled j hj').imp_left fun henabled => ?_
        rw [← hother] at henabled
        exact henabled
    · exact (table_clearBp s.bps i j).1 (Option.some.inj hij).symm
    · have hother := (table_clearBp s.bps i j).2 fun hji => hij (by rw [hji])
      exact ⟨congrArg Breakpoint.used hother, congrArg Breakpoint.address hother⟩

/-- No breakpoint has the number or the address that the daemon reads. -/
def Apart (s : Machine Data) (args : Text) : Prop :=
  ∀ i, (s.bps.table i).used = true →
    CNumber.strtol args ≠ (i.val : Int) ∧ (s.bps.table i).address ≠ addressOf args

instance (s : Machine Data) (args : Text) : Decidable (s.Apart args) :=
  inferInstanceAs (Decidable (∀ i, (s.bps.table i).used = true → _ ∧ _))

/-- A number that is an entry's names this entry. -/
theorem clearedEntry_number {args : Text} {i : Fin maxBreakpoints}
    (hused : (s.bps.table i).used = true) (hnumber : CNumber.strtol args = (i.val : Int)) :
    s.clearedEntry args = some i := by
  have hrange : 0 ≤ CNumber.strtol args ∧ CNumber.strtol args < (maxBreakpoints : Int) := by
    have hlt := i.isLt
    omega
  have hi : (⟨(CNumber.strtol args).toNat, by omega⟩ : Fin maxBreakpoints) = i :=
    Fin.ext (by simp only [hnumber, Int.toNat_natCast])
  unfold clearedEntry
  dsimp only
  rw [dif_pos hrange, hi, if_pos hused]

/-- Otherwise the address counts. -/
theorem clearedEntry_address {args : Text}
    (hnumber : ∀ i : Fin maxBreakpoints, (s.bps.table i).used = true →
      CNumber.strtol args ≠ (i.val : Int)) :
    s.clearedEntry args = s.bps.findBpByAddr (addressOf args) := by
  unfold clearedEntry
  dsimp only
  split_ifs with hrange hused
  · refine absurd ?_ (hnumber _ hused)
    dsimp only
    omega
  · rfl
  · rfl

/-- A BPCLEAR finds nothing exactly if every breakpoint is apart from its argument. -/
theorem clearedEntry_eq_none {args : Text} : s.clearedEntry args = none ↔ s.Apart args := by
  constructor
  · intro hnone i hused
    have hnumber : ∀ j : Fin maxBreakpoints, (s.bps.table j).used = true →
        CNumber.strtol args ≠ (j.val : Int) := fun j hj heq =>
      nomatch hnone.symm.trans (clearedEntry_number hj heq)
    rw [clearedEntry_address hnumber] at hnone
    exact ⟨hnumber i hused, Breakpoints.findBpByAddr_eq_none hnone i hused⟩
  · intro hapart
    rw [clearedEntry_address fun i hused => (hapart i hused).1]
    cases hfind : s.bps.findBpByAddr (addressOf args) with
    | none => rfl
    | some i =>
      obtain ⟨hused, haddress⟩ := Breakpoints.used_of_findBpByAddr hfind
      exact absurd haddress (hapart i hused).2

/-- The same breakpoints are apart from an argument. -/
theorem Apart.congr {args : Text} (hsame : s.bps.SameUse s'.bps) :
    s'.Apart args ↔ s.Apart args := by
  unfold Apart
  simp only [(hsame _).1, (hsame _).2]

/-- Behind a BPSET of the same argument, a BPCLEAR takes an old breakpoint exactly if one is not
apart from it. -/
theorem clearedEntry_adds {args : Text} {i : Fin maxBreakpoints}
    (hadds : Adds i (addressOf args) s.bps s'.bps) :
    s.Apart args ∧ s'.clearedEntry args = some i ∨
      ¬ s.Apart args ∧ ∃ j, (s.bps.table j).used = true ∧ s'.clearedEntry args = some j := by
  have hsplit : ∀ j, (s'.bps.table j).used = true → j = i ∨ (s.bps.table j).used = true := by
    intro j hj
    by_cases hji : j = i
    · exact .inl hji
    · exact .inr ((hadds.other j hji).1 ▸ hj)
  by_cases hapart : s.Apart args
  · refine .inl ⟨hapart, ?_⟩
    by_cases hnumber : CNumber.strtol args = (i.val : Int)
    · exact clearedEntry_number hadds.used hnumber
    · rw [clearedEntry_address fun j hj heq => ?_]
      · cases hfind : s'.bps.findBpByAddr (addressOf args) with
        | none =>
          exact absurd hadds.address (Breakpoints.findBpByAddr_eq_none hfind i hadds.used)
        | some j =>
          obtain ⟨hused, haddress⟩ := Breakpoints.used_of_findBpByAddr hfind
          rcases hsplit j hused with rfl | hj
          · rfl
          · have hji : j ≠ i := fun hji => nomatch (hji ▸ hj).symm.trans hadds.free
            exact absurd ((hadds.other j hji).2 ▸ haddress) (hapart j hj).2
      · rcases hsplit j hj with rfl | hj
        · exact hnumber heq
        · exact (hapart j hj).1 heq
  · refine .inr ⟨hapart, ?_⟩
    unfold Apart at hapart
    push Not at hapart
    obtain ⟨j, hj, hnamed⟩ := hapart
    have haddress := Breakpoints.findBpByAddr_eq_none hadds.fresh j hj
    have hnumber : CNumber.strtol args = (j.val : Int) := by
      by_contra hne
      exact haddress (hnamed hne)
    have hji : j ≠ i := fun hji => nomatch (hji ▸ hj).symm.trans hadds.free
    exact ⟨j, hj, clearedEntry_number ((hadds.other j hji).1.trans hj) hnumber⟩

end Machine

end AmigaDevbench.Debugger
