import AmigaDevbench.Daemon.Debugger.Lines
import AmigaDevbench.Host.SourceStep

/-!
# Source-level stepping and the user's breakpoints

A step or a next sets a helper breakpoint and clears it with the same commands as the user. The
daemon answers a BPSET at a breakpoint of the user as if it had set it, and it reads the digits in
front of a BPCLEAR's address as the number of an entry. In both cases the BPCLEAR takes a breakpoint
of the user's.
-/

namespace AmigaDevbench.SourceStep

open Debugger Machine

variable {Data : Type*} {p : Platform Data} {program : Code} {s s' : Machine Data}

/-- The table has the breakpoints it had before, each patched into the code. -/
structure KeepsBreakpoints (s s' : Machine Data) : Prop where
  kept (i : Fin maxBreakpoints) : (s'.bps.table i).used = (s.bps.table i).used ∧
    ((s.bps.table i).used = true → (s'.bps.table i).address = (s.bps.table i).address)
  patched (i : Fin maxBreakpoints) (hused : (s'.bps.table i).used = true) :
    (s'.bps.table i).enabled = true ∧ s'.bps.code (s'.bps.table i).address = trap15Opcode

/-- In a settled state with no trace under way every breakpoint is in the code. -/
theorem patched_of_sound (h : Sound program s) (hend : ¬ s.Repatches) (i : Fin maxBreakpoints)
    (hused : (s.bps.table i).used = true) :
    (s.bps.table i).enabled = true ∧ s.bps.code (s.bps.table i).address = trap15Opcode := by
  have henabled := (h.settled i hused).resolve_right hend
  refine ⟨henabled, ?_⟩
  rw [h.bps.code]
  exact overlay_of_mem ⟨i, hused, henabled, rfl⟩

theorem keeps_of_sameUse (h : Sound program s') (hsame : s.bps.SameUse s'.bps)
    (hend : ¬ s'.Repatches) : KeepsBreakpoints s s' :=
  ⟨fun i => ⟨(hsame i).1, fun _ => (hsame i).2⟩, patched_of_sound h hend⟩

/-- A run to a helper breakpoint keeps the user's breakpoints exactly if they are apart from it. -/
theorem runTo_keeps_iff {addrHex : Text} {stopped : Nat → Bool} (h : Sound program s)
    (hhex : addrHex ≠ []) (hhandles : Handles p (runTo addrHex stopped) s s')
    (hend : ¬ s'.Repatches) :
    KeepsBreakpoints s s' ↔ (s.attached = true → s.Apart addrHex) := by
  obtain ⟨between, hbetween, heq⟩ := runTo_eq addrHex stopped
  have hlines : runTo addrHex stopped = ["BPSET|".toList ++ addrHex] ++
      (("DBGCONT".toList :: between) ++ ["BPCLEAR|".toList ++ addrHex]) := heq
  have hquiet : ∀ line ∈ "DBGCONT".toList :: between, Quiet line :=
    List.forall_mem_cons.mpr ⟨.inr rfl, fun line hline => .inl (hbetween line hline)⟩
  rw [hlines] at hhandles
  obtain ⟨s₃, hset, hrest⟩ := hhandles.split
  obtain ⟨s₅, hcont, hclear⟩ := hrest.split
  -- the BPSET and what goes on around it
  obtain ⟨s₁, s₂, hs₁, hsame₁, hline, hafter⟩ := h.single hset
  rw [handleLine_bpset] at hline
  split_ifs at hline
  cases hline
  obtain ⟨hs₂, hattached₂, huse⟩ := hs₁.bpset (p := p) addrHex
  obtain ⟨hs₃, hsame₃⟩ := hs₂.quiet (List.forall_mem_nil _) hafter
  obtain ⟨hs₅, hsame₅⟩ := hs₃.quiet hquiet hcont
  -- the BPCLEAR
  obtain ⟨s₆, s₇, hs₆, hsame₆, hline, hafter⟩ := hs₅.single hclear
  rw [handleLine_bpclear] at hline
  split_ifs at hline
  cases hline
  have hsame : Undisturbed (s₁.dbgHandleBpset p addrHex) s₆ :=
    hsame₃.trans (hsame₅.trans hsame₆)
  have hattached : s₆.attached = s.attached :=
    hsame.attached.trans (hattached₂.trans hsame₁.attached)
  cases hon : s.attached with
  | false =>
    have hoff₁ : s₁.attached = false := hsame₁.attached.trans hon
    have hoff₆ : s₆.attached = false := hattached.trans hon
    have hsend₁ : s₁.dbgHandleBpset p addrHex = s₁.send "ERR|BPSET|not attached".toList := by
      rw [dbgHandleBpset, if_pos (by rw [hoff₁]; rfl)]
    have hsend₆ : s₆.dbgHandleBpclear addrHex = s₆.send "ERR|BPCLEAR|not attached".toList := by
      rw [dbgHandleBpclear, if_pos (by rw [hoff₆]; rfl)]
    rw [hsend₁] at hsame
    rw [hsend₆] at hafter
    obtain ⟨hs', hsame'⟩ := (hs₆.answered ⟨_, rfl⟩).1.quiet (List.forall_mem_nil _) hafter
    exact iff_of_true (keeps_of_sameUse hs' (hsame₁.use.trans (hsame.use.trans hsame'.use)) hend)
      fun hyes => by cases hyes
  | true =>
    obtain ⟨hs₇, hcleared⟩ := hs₆.bpclear hhex (hattached.trans hon)
    obtain ⟨hs', hsame'⟩ := hs₇.quiet (List.forall_mem_nil _) hafter
    simp only [true_implies]
    rcases huse with huse | ⟨i, hadds⟩
    · -- the helper breakpoint was not set, or it was there
      have hall : s.bps.SameUse s₆.bps := hsame₁.use.trans (huse.trans hsame.use)
      constructor
      · intro hkeeps
        rw [← Apart.congr hall, ← clearedEntry_eq_none]
        cases hentry : s₆.clearedEntry addrHex with
        | none => rfl
        | some j =>
          have hused := used_of_clearedEntry hentry
          rw [(hall j).1, ← (hkeeps.kept j).1, (hsame'.use j).1, (hcleared j).1 hentry] at hused
          cases hused
      · intro hapart
        have hnone := clearedEntry_eq_none.mpr ((Apart.congr hall).mpr hapart)
        have hstays : s₆.bps.SameUse (s₆.dbgHandleBpclear addrHex).bps := fun j =>
          (hcleared j).2 (by rw [hnone]; exact Option.some_ne_none j |>.symm)
        exact keeps_of_sameUse hs' (hall.trans (hstays.trans hsame'.use)) hend
    · rw [← Apart.congr hsame₁.use]
      rcases clearedEntry_adds (hadds.congr hsame.use) with ⟨hapart, hentry⟩ |
        ⟨hapart, j, hused, hentry⟩
      · -- the BPCLEAR takes the helper breakpoint
        refine iff_of_true ⟨fun j => ?_, patched_of_sound hs' hend⟩ hapart
        by_cases hj : j = i
        · rw [hj, (hsame'.use i).1, (hcleared i).1 hentry, ← (hsame₁.use i).1, hadds.free]
          exact ⟨rfl, fun hyes => by cases hyes⟩
        · have hother := (hcleared j).2 (by rw [hentry]; exact fun h => hj (Option.some.inj h).symm)
          have hstays := (hadds.congr hsame.use).other j hj
          exact ⟨(hsame'.use j).1.trans (hother.1.trans (hstays.1.trans (hsame₁.use j).1)),
            fun _ => (hsame'.use j).2.trans (hother.2.trans (hstays.2.trans (hsame₁.use j).2))⟩
      · refine iff_of_false (fun hkeeps => ?_) hapart
        rw [(hsame₁.use j).1, ← (hkeeps.kept j).1, (hsame'.use j).1, (hcleared j).1 hentry] at hused
        cases hused

/-- `f"{n:08x}"` is never empty. -/
theorem hex32_ne_nil (n : Int) : Py.hex32 n ≠ [] := by
  intro h
  have hdigits : Nat.toDigits 16 n.natAbs = [] := (List.append_eq_nil_iff.mp h).2
  exact absurd hdigits (by simp)

/-- For every table of lines, every place of the target and every set of breakpoints, in every
order of the target's steps: the breakpoints are kept if and only if the helper breakpoint, if
there is one, is apart from them. -/
theorem stepping_keeps_breakpoints_iff (host : Host) (op : Operation) (h : Sound program s)
    (hhandles : Handles p (op.lines host) s s') (hend : ¬ s'.Repatches) :
    KeepsBreakpoints s s' ↔
      ∀ address ∈ op.helper host, s.attached = true → s.Apart (Py.hex32 address) := by
  obtain ⟨s₁, hrefresh, hrest⟩ := hhandles.split
  have hquiet : ∀ line ∈ if host.refresh then ["DBGSTATUS".toList] else [], Quiet line := by
    intro line hline
    split_ifs at hline
    · exact .inl (List.mem_singleton.mp hline)
    · cases hline
  obtain ⟨hs₁, hsame₁⟩ := h.quiet hquiet hrefresh
  -- asking for the state keeps the breakpoints, so it does not matter when they are looked at
  have hbefore : KeepsBreakpoints s s' ↔ KeepsBreakpoints s₁ s' := by
    constructor
    · rintro ⟨hkept, hpatched⟩
      refine ⟨fun i => ?_, hpatched⟩
      rw [(hsame₁.use i).1, (hsame₁.use i).2]
      exact hkept i
    · rintro ⟨hkept, hpatched⟩
      refine ⟨fun i => ?_, hpatched⟩
      rw [← (hsame₁.use i).1, ← (hsame₁.use i).2]
      exact hkept i
  cases hhelper : op.helper host with
  | some address =>
    rw [hhelper] at hrest
    rw [hbefore, runTo_keeps_iff hs₁ (hex32_ne_nil address) hrest hend, hsame₁.attached,
      Apart.congr hsame₁.use]
    simp only [Option.mem_def, Option.some.injEq, forall_eq']
  | none =>
    rw [hhelper] at hrest
    have hquiet : Sound program s' ∧ s₁.bps.SameUse s'.bps := by
      cases op with
      | step =>
        obtain ⟨hs', hsame'⟩ := hs₁.quiet (List.forall_mem_nil _) hrest
        exact ⟨hs', hsame'.use⟩
      | next =>
        obtain ⟨hs', hsame'⟩ :=
          hs₁.quiet (fun line hline => .inr (List.mem_singleton.mp hline)) hrest
        exact ⟨hs', hsame'.use⟩
    refine iff_of_true ?_ nofun
    exact keeps_of_sameUse hquiet.1 (hsame₁.use.trans hquiet.2) hend

/-! ### A program with two lines -/

section Example

/-- A platform whose target stays where it is. -/
def idle : Platform Unit := ⟨fun _ regs data => (regs, data), 0, 0, fun _ => true, 0, 0⟩

/-- An attached debugger with a stopped target. -/
def attached : Machine Unit :=
  { Machine.initial (fun _ => 0) ⟨fun _ => 0, fun _ => 0, 0, 0, 0⟩ () with
    attached := true
    hasTarget := true
    stopped := true }

/-- A user's breakpoint, the first in the table. -/
def userBreakpoint : Machine Unit := attached.dbgHandleBpset idle "0000b000".toList

/-- The host at the first of two lines of a program at the address. -/
def atFirstLine (codeBase : Int) : Host where
  refresh := false
  codeBase := codeBase
  pc := codeBase
  table := some
    { sourceLines := [⟨0, "main.c".toList, 1⟩, ⟨4, "main.c".toList, 2⟩]
      sorted := by decide
      funcSource := []
      byName := fun _ => none }
  readLines := fun _ => none
  stopped := fun _ => true

theorem sound_userBreakpoint : Sound (fun _ => 0) userBreakpoint := by
  have hstart : Sound (fun _ => 0) attached :=
    ⟨.of_unused (fun _ => rfl) rfl rfl, fun i hused => nomatch hused⟩
  exact (hstart.bpset (p := idle) _).1

/-- The state behind a run to a helper breakpoint during which the target does nothing. -/
def afterRun (addrHex : Text) : Machine Unit :=
  ((userBreakpoint.dbgHandleBpset idle addrHex).dbgHandleContinue).dbgHandleBpclear addrHex

theorem handles_afterRun (addrHex : Text) :
    Handles idle (runTo addrHex fun _ => true) userBreakpoint (afterRun addrHex) := by
  have hlines : runTo addrHex (fun _ => true) = ["BPSET|".toList ++ addrHex, "DBGCONT".toList,
      "BPCLEAR|".toList ++ addrHex] := rfl
  have hbpset : ∀ (s : Machine Unit) (args : Text),
      (s.dbgHandleBpset idle args).detaching = s.detaching := by
    intro s args
    rcases dbgHandleBpset_cases (p := idle) (s := s) args with
      ⟨line, heq⟩ | ⟨-, i, address, line, -, -, -, -, heq⟩ <;> rw [heq] <;> rfl
  have hcont : ∀ s : Machine Unit, s.dbgHandleContinue.detaching = s.detaching := by
    intro s
    rcases dbgHandleContinue_cases (s := s) with ⟨line, heq⟩ | ⟨-, -, line, heq⟩ <;> rw [heq] <;> rfl
  have hstart : userBreakpoint.detaching = false := hbpset attached _
  let set := userBreakpoint.dbgHandleBpset idle addrHex
  have hlineSet : userBreakpoint.handleLine idle ("BPSET|".toList ++ addrHex) = some set := by
    rw [handleLine_bpset, hstart]
    rfl
  have hlineCont : set.handleLine idle "DBGCONT".toList = some set.dbgHandleContinue := by
    rw [handleLine_cont, hbpset, hstart]
    rfl
  have hlineClear : set.dbgHandleContinue.handleLine idle ("BPCLEAR|".toList ++ addrHex) =
      some (afterRun addrHex) := by
    rw [handleLine_bpclear, hcont, hbpset, hstart]
    rfl
  rw [hlines]
  exact .line hlineSet (.line hlineCont (.line hlineClear (.done _)))

/-- A program at 0x20000: the helper's address starts with no number of a breakpoint. -/
theorem next_keeps_breakpoint :
    KeepsBreakpoints userBreakpoint (afterRun "00020004".toList) := by
  have hlines : Operation.next.lines (atFirstLine 0x20000) =
      runTo "00020004".toList fun _ => true := by decide
  refine (stepping_keeps_breakpoints_iff (atFirstLine 0x20000) .next sound_userBreakpoint
    (hlines ▸ handles_afterRun _) (by decide +kernel)).mpr ?_
  decide +kernel

/-- A program at 0xA000: the daemon reads the number 0 off the helper's address 0000a004. -/
theorem next_takes_breakpoint : ¬ ∀ (s s' : Machine Unit) (host : Host) (op : Operation),
    Sound (fun _ => 0) s → Handles idle (op.lines host) s s' → ¬ s'.Repatches →
      KeepsBreakpoints s s' := by
  intro hall
  have hlines : Operation.next.lines (atFirstLine 0xA000) =
      runTo "0000a004".toList fun _ => true := by decide
  have hkeeps := hall userBreakpoint _ (atFirstLine 0xA000) .next sound_userBreakpoint
    (hlines ▸ handles_afterRun _) (by decide +kernel)
  have hlost : ((afterRun "0000a004".toList).bps.table 0).used = false := by decide +kernel
  have hset : (userBreakpoint.bps.table 0).used = true := by decide +kernel
  rw [(hkeeps.kept 0).1, hset] at hlost
  cases hlost

end Example

end AmigaDevbench.SourceStep
