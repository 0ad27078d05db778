import AmigaDevbench.Core.Runs
import AmigaDevbench.Host.Winuae.Dwarf.Unwind

/-!
# DWARF backtraces

A failure ends the backtrace with its message if it is a `ValueError` or a `KeyError`. Too few
operands raise `IndexError`, which nothing catches: the backtrace returns exactly when the
unwinding reaches no frame whose CFA expression has such an operation.
-/

namespace AmigaDevbench.Winuae

namespace Dwarf

open Raises

variable (a : Analysis)

/-- A frame of the reply; a source that is not known has the message of its error. -/
structure Frame where
  index : Nat
  pc : Int
  sp : Option Int
  source : Except String Source
  cfa : Option Int

/-- The reply of `backtrace`. -/
structure Backtrace where
  frames : List Frame
  stopReason : String
  truncated : Bool

/-- A saved return address denotes the instruction after the call. -/
def lookupAt (index : Nat) (pc : Int) : Int := if index = 0 then pc else pc - 1

/-- The first `try`. -/
def Analysis.frameSource (lookup : Int) : Helper (Except String Source) :=
  match a.source lookup with
  | .ok source => return .ok source
  | .error e => if e.error = .valueError then return .error e.message else throw e

/-- The second `try`. -/
def Analysis.tryCaller (lookup : Int) (regs : Registers) :
    Helper (Except String (Int × Registers × Int)) :=
  tryCatch (do return .ok (← a.callerOf lookup regs)) fun e =>
    if e.Caught then return .error e.message else throw e

/-- The loop of `backtrace`, with the number of rounds left. -/
def Analysis.unwind :
    Nat → Nat → Int → Registers → List (Int × Option Int) → Helper (List Frame × String)
  | 0, _, _, _, _ => return ([], "frame limit")
  | n + 1, index, pc, regs, seen =>
    if pc = 0 then return ([], "null return address")
    else if (pc, regs 15) ∈ seen then return ([], "cyclic frame")
    else do
      let source ← a.frameSource (lookupAt index pc)
      match ← a.tryCaller (lookupAt index pc) regs with
      | .error reason => return ([⟨index, pc, regs 15, source, none⟩], reason)
      | .ok (returnAddress, caller, cfa) => do
        let (frames, reason) ← unwind n (index + 1) returnAddress caller ((pc, regs 15) :: seen)
        return (⟨index, pc, regs 15, source, some cfa⟩ :: frames, reason)

/-- `backtrace`. -/
def Analysis.backtrace (limit : Nat) : Helper Backtrace := do
  let _ ← liftExcept (checked limit 64)
  let (frames, reason) ← a.unwind limit 0 a.pc a.regs []
  return ⟨frames, reason, reason == "frame limit"⟩

/-! ### The whole backtrace -/

section Backtraces

variable {a : Analysis}

/-- Frames and a stop reason that fit the CFI: each frame is that of its program counter and
registers, the next one is its caller, and the reason is the one for which there is no other. -/
inductive Analysis.Explains (a : Analysis) :
    Nat → Nat → Int → Registers → List Frame → String → Prop
  | limit (index : Nat) (pc : Int) (regs : Registers) :
      Explains a 0 index pc regs [] "frame limit"
  | null (n index : Nat) (regs : Registers) :
      Explains a (n + 1) index 0 regs [] "null return address"
  | stuck (n : Nat) {index : Nat} {pc : Int} {regs : Registers} {f : Frame} {reason : String}
      (hpc : pc ≠ 0) (hframe : f.index = index ∧ f.pc = pc ∧ f.sp = regs 15 ∧ f.cfa = none)
      (hreason : ∃ s e s', (a.callerOf (lookupAt index pc) regs).outcome s = (.error e, s') ∧
        e.message = reason) : Explains a (n + 1) index pc regs [f] reason
  | caller {n index : Nat} {pc : Int} {regs : Registers} {f : Frame} {frames : List Frame}
      {reason : String} {pc' cfa : Int} {regs' : Registers} (entry : Entry) (row : Row)
      (hpc : pc ≠ 0) (hframe : f.index = index ∧ f.pc = pc ∧ f.sp = regs 15 ∧ f.cfa = some cfa)
      (hcaller : a.IsCaller (lookupAt index pc) regs pc' regs' cfa entry row)
      (hrest : Explains a n (index + 1) pc' regs' frames reason) :
      Explains a (n + 1) index pc regs (f :: frames) reason

/-- The CFAs of the frames that were unwound. -/
def cfas (frames : List Frame) : List Int := frames.filterMap (·.cfa)

theorem Analysis.Explains.length_le {n index : Nat} {pc : Int} {regs : Registers}
    {frames : List Frame} {reason : String} (h : a.Explains n index pc regs frames reason) :
    frames.length ≤ n := by
  induction h with
  | limit | null => exact Nat.zero_le _
  | stuck => exact Nat.succ_le_succ (Nat.zero_le _)
  | caller _ _ _ _ _ _ ih => exact Nat.succ_le_succ ih

/-- The CFAs lie above the stack pointer, each above the one before. -/
theorem Analysis.Explains.increasing {n index : Nat} {pc : Int} {regs : Registers}
    {frames : List Frame} {reason : String} (h : a.Explains n index pc regs frames reason) :
    (∀ cfa ∈ cfas frames, ∀ sp, regs 15 = some sp → sp < cfa) ∧
      (cfas frames).Pairwise (· < ·) := by
  induction h with
  | limit | null => exact ⟨fun cfa hcfa => absurd hcfa List.not_mem_nil, List.Pairwise.nil⟩
  | stuck n hpc hframe hreason =>
    rw [cfas, List.filterMap_cons_none hframe.2.2.2]
    exact ⟨fun cfa hcfa => absurd hcfa List.not_mem_nil, List.Pairwise.nil⟩
  | caller entry row hpc hframe hcaller hrest ih =>
    rw [cfas, List.filterMap_cons_some hframe.2.2.2]
    have hcfa := hcaller.registers 15
    rw [if_pos rfl] at hcfa
    refine ⟨fun c hc sp hsp => ?_, List.pairwise_cons.mpr ⟨fun c hc => ih.1 c hc _ hcfa, ih.2⟩⟩
    obtain ⟨sp', hsp', hlt⟩ := hcaller.sp_lt
    rw [hsp] at hsp'
    cases hsp'
    rcases List.mem_cons.mp hc with rfl | hc
    · exact hlt
    · exact hlt.trans (ih.1 c hc _ hcfa)

/-- All frames seen lie below the current stack pointer. -/
def Below (seen : List (Int × Option Int)) (regs : Registers) : Prop :=
  ∀ x ∈ seen, ∃ low sp, x.2 = some low ∧ regs 15 = some sp ∧ low < sp

/-- So none of them is met again. -/
theorem Below.not_mem {seen : List (Int × Option Int)} {regs : Registers} (h : Below seen regs)
    (pc : Int) : (pc, regs 15) ∉ seen := by
  intro hmem
  obtain ⟨low, sp, hlow, hsp, hlt⟩ := h _ hmem
  simp only [hsp, Option.some.injEq] at hlow
  omega

theorem Below.next {seen : List (Int × Option Int)} {regs caller : Registers} (h : Below seen regs)
    (pc : Int) {lookup pc' cfa : Int} {entry : Entry} {row : Row}
    (hcaller : a.IsCaller lookup regs pc' caller cfa entry row) :
    Below ((pc, regs 15) :: seen) caller := by
  have hcfa := hcaller.registers 15
  rw [if_pos rfl] at hcfa
  obtain ⟨sp, hsp, hlt⟩ := hcaller.sp_lt
  intro x hx
  rcases List.mem_cons.mp hx with rfl | hx
  · exact ⟨sp, cfa, hsp, hcfa, hlt⟩
  · obtain ⟨low, sp', hlow, hsp', hlt'⟩ := h x hx
    rw [hsp] at hsp'
    cases hsp'
    exact ⟨low, cfa, hlow, hcfa, hlt'.trans hlt⟩

theorem source_error {lookup : Int} {e : Raised} (h : a.source lookup = .error e) :
    e.error = .valueError := by
  rw [Analysis.source] at h
  cases hpc : translate a.maps lookup true with
  | error e' =>
    rw [hpc] at h
    cases h
    exact translate_error hpc
  | ok pc =>
    simp only [hpc, bind, Except.bind] at h
    cases hlines : a.lines pc with
    | error message =>
      rw [hlines] at h
      cases h
      rfl
    | ok found =>
      rw [hlines] at h
      cases h

/-- Errors of the debug data are recorded in the frame. -/
theorem outcome_frameSource (lookup : Int) (s : Budget) :
    ∃ source, (a.frameSource lookup).outcome s = (.ok source, s) := by
  rw [Analysis.frameSource]
  cases h : a.source lookup with
  | ok source => exact ⟨_, rfl⟩
  | error e =>
    simp only [if_pos (source_error h)]
    exact ⟨_, rfl⟩

theorem yields_frameSource {F : Raised → Prop} (lookup : Int) :
    Yields (fun _ => True) F (a.frameSource lookup) := by
  intro s
  obtain ⟨source, h⟩ := outcome_frameSource (a := a) lookup s
  rw [h]
  trivial

/-- The handler turns a failure that it catches into a reason. -/
theorem outcome_tryCaller (lookup : Int) (regs : Registers) (s : Budget) :
    (a.tryCaller lookup regs).outcome s = match (a.callerOf lookup regs).outcome s with
      | (.ok caller, s') => (.ok (.ok caller), s')
      | (.error e, s') =>
        if e.Caught then (.ok (.error e.message), s') else (.error e, s') := by
  rw [Analysis.tryCaller, outcome_tryCatch, outcome_bind]
  rcases (a.callerOf lookup regs).outcome s with ⟨r, s'⟩
  cases r with
  | ok caller => rfl
  | error e =>
    simp only
    split
    · rfl
    · rfl

theorem yields_tryCaller (lookup : Int) (regs : Registers) :
    Yields (fun r => match r with
        | .ok c => ∃ entry row, a.IsCaller lookup regs c.1 c.2.1 c.2.2 entry row
        | .error reason => ∃ s e s', (a.callerOf lookup regs).outcome s = (.error e, s') ∧
            e.message = reason)
      (fun e => ¬ e.Caught) (a.tryCaller lookup regs) := by
  intro s
  rw [outcome_tryCaller]
  rcases h : (a.callerOf lookup regs).outcome s with ⟨r, s'⟩
  cases r with
  | ok c => exact yields_callerOf.of_ok h
  | error e =>
    by_cases hcaught : e.Caught
    · simp only [if_pos hcaught]
      exact ⟨s, e, s', h, rfl⟩
    · simp only [if_neg hcaught]
      exact hcaught

/-- The frames and the reason that are returned fit the CFI. -/
theorem yields_unwind (n : Nat) :
    ∀ (index : Nat) (pc : Int) (regs : Registers) (seen : List (Int × Option Int)),
      Below seen regs →
        Yields (fun r => a.Explains n index pc regs r.1 r.2) (fun e => ¬ e.Caught)
          (a.unwind n index pc regs seen) := by
  induction n with
  | zero => exact fun index pc regs seen _ => yields_pure (.limit index pc regs)
  | succ n ih =>
    intro index pc regs seen hseen
    rw [Analysis.unwind]
    split
    · next hpc =>
      subst hpc
      exact yields_pure (.null n index regs)
    · next hpc =>
      rw [if_neg (hseen.not_mem pc)]
      refine yields_bind (yields_frameSource _) fun source _ =>
        yields_bind (yields_tryCaller _ regs) fun caller hcaller => ?_
      cases caller with
      | error reason => exact yields_pure (.stuck n hpc ⟨rfl, rfl, rfl, rfl⟩ hcaller)
      | ok found =>
        obtain ⟨returnAddress, caller, cfa⟩ := found
        obtain ⟨entry, row, hcaller⟩ := hcaller
        refine yields_bind (ih (index + 1) returnAddress caller _ (hseen.next pc hcaller)) ?_
        rintro ⟨frames, reason⟩ hrest
        exact yields_pure (.caller entry row hpc ⟨rfl, rfl, rfl, rfl⟩ hcaller hrest)

/-- A round of the loop. -/
structure Point where
  index : Nat
  pc : Int
  regs : Registers
  budget : Budget

def Point.lookup (p : Point) : Int := lookupAt p.index p.pc

/-- From a frame to its caller. -/
def Analysis.next (a : Analysis) (p : Point) (_ : Unit) : Option Point :=
  if p.pc = 0 then none
  else match (a.callerOf p.lookup p.regs).outcome p.budget with
    | (.ok (pc, regs, _), budget) => some ⟨p.index + 1, pc, regs, budget⟩
    | (.error _, _) => none

/-- The frames that unwinding reaches. -/
def Analysis.ReachesFrom (a : Analysis) (p q : Point) : Prop :=
  AmigaDevbench.Reaches a.next (fun _ _ => True) p q

/-- In the round before the limit an expression finds too few operands. -/
def Analysis.FailsWithin (a : Analysis) (bound : Nat) (start : Point) : Prop :=
  ∃ p, a.ReachesFrom start p ∧ p.index < bound ∧ p.pc ≠ 0 ∧
    a.CfaUnderflows p.lookup p.regs p.budget

theorem index_le_of_reachesFrom {p q : Point} (h : a.ReachesFrom p q) : p.index ≤ q.index := by
  refine Reaches.invariant (fun q => p.index ≤ q.index) h (Nat.le_refl _) ?_
  intro q _ r hq _ hnext
  rw [Analysis.next] at hnext
  split at hnext
  · cases hnext
  · split at hnext
    · cases hnext
      exact Nat.le_succ_of_le hq
    · cases hnext

/-- The first failure is that of the frame itself or that of one behind its caller. -/
theorem failsWithin_iff {bound : Nat} {p : Point} :
    a.FailsWithin bound p ↔
      (p.index < bound ∧ p.pc ≠ 0 ∧ a.CfaUnderflows p.lookup p.regs p.budget) ∨
        ∃ q, a.next p () = some q ∧ a.FailsWithin bound q := by
  constructor
  · rintro ⟨r, hr, hfail⟩
    rcases hr.eq_or_head with rfl | ⟨_, q, _, hq, hrest⟩
    · exact .inl hfail
    · exact .inr ⟨q, hq, r, hrest, hfail⟩
  · rintro (hfail | ⟨q, hq, r, hr, hfail⟩)
    · exact ⟨p, .refl, hfail⟩
    · exact ⟨r, hr.head trivial hq, hfail⟩

/-- What escapes from the loop is the failure of a frame that is reached. -/
theorem escapes_unwind_iff (n : Nat) :
    ∀ (p : Point) (seen : List (Int × Option Int)), Below seen p.regs →
      (Escapes Raised.Caught (a.unwind n p.index p.pc p.regs seen) p.budget ↔
        a.FailsWithin (p.index + n) p) := by
  induction n with
  | zero =>
    intro p seen _
    refine iff_of_false escapes_pure ?_
    rintro ⟨q, hq, hindex, _⟩
    have hle := index_le_of_reachesFrom hq
    omega
  | succ n ih =>
    intro p seen hseen
    rw [Analysis.unwind, failsWithin_iff, Analysis.next]
    by_cases hpc : p.pc = 0
    · rw [if_pos hpc, if_pos hpc]
      refine iff_of_false escapes_pure ?_
      rintro (⟨_, hne, _⟩ | ⟨q, hq, _⟩)
      · exact hne hpc
      · cases hq
    · obtain ⟨source, hsource⟩ := outcome_frameSource (a := a) (lookupAt p.index p.pc) p.budget
      rw [if_neg hpc, if_neg (hseen.not_mem p.pc), if_neg hpc, escapes_bind_of_ok hsource,
        ← escapes_callerOf_iff, Point.lookup]
      have htry := outcome_tryCaller (a := a) (lookupAt p.index p.pc) p.regs p.budget
      rcases hcaller : (a.callerOf (lookupAt p.index p.pc) p.regs).outcome p.budget with ⟨r, s⟩
      rw [hcaller] at htry
      cases r with
      | error e =>
        rw [escapes_of_error hcaller]
        by_cases hcaught : e.Caught
        · simp only [if_pos hcaught] at htry
          rw [escapes_bind_of_ok htry]
          refine iff_of_false escapes_pure ?_
          rintro (⟨_, _, hnot⟩ | ⟨q, hq, _⟩)
          · exact hnot hcaught
          · cases hq
        · simp only [if_neg hcaught] at htry
          rw [escapes_bind_of_error htry]
          exact iff_of_true hcaught (.inl ⟨by omega, hpc, hcaught⟩)
      | ok found =>
        obtain ⟨returnAddress, caller, cfa⟩ := found
        obtain ⟨entry, row, hfound⟩ := yields_callerOf.of_ok hcaller
        have hnext := ih ⟨p.index + 1, returnAddress, caller, s⟩ _ (hseen.next p.pc hfound)
        rw [escapes_bind_of_ok htry]
        simp only
        rw [escapes_bind_iff fun _ _ => escapes_pure, hnext]
        have hbound : p.index + 1 + n = p.index + (n + 1) := by omega
        simp only [hbound]
        constructor
        · exact fun h => .inr ⟨_, rfl, h⟩
        · rintro (⟨_, _, hescape⟩ | ⟨q, hq, h⟩)
          · exact absurd hescape (not_escapes_of_ok hcaller)
          · cases hq
            exact h

/-- The first round, with nothing read. -/
def Analysis.start (a : Analysis) : Point := ⟨0, a.pc, a.regs, ⟨0, 0⟩⟩

/-- The backtrace returns: at most `limit` frames with increasing CFAs, each the caller of the one
before by the CFI, and the reason why there are no more. -/
def Analysis.Contained (a : Analysis) (limit : Nat) : Prop :=
  ∃ trace s, (a.backtrace limit).outcome ⟨0, 0⟩ = (.ok trace, s) ∧
    trace.frames.length ≤ limit ∧ (cfas trace.frames).Pairwise (· < ·) ∧
    a.Explains limit 0 a.pc a.regs trace.frames trace.stopReason

/-- A backtrace of up to 64 frames is contained exactly when no frame that it reaches before the
limit has a CFA expression one of whose operations finds too few operands. -/
theorem backtrace_contained_iff (a : Analysis) (limit : Fin 65) :
    a.Contained limit ↔ ¬ a.FailsWithin limit a.start := by
  have hbelow : Below [] a.regs := fun x hx => absurd hx List.not_mem_nil
  have hyields := yields_unwind (a := a) limit 0 a.pc a.regs [] hbelow
  have hescapes := escapes_unwind_iff (a := a) limit a.start [] hbelow
  have hlimit : checked (limit : Nat) 64 = .ok (limit : Nat) :=
    if_pos ⟨by omega, by have := limit.isLt; omega⟩
  have hrun : (a.backtrace limit).outcome ⟨0, 0⟩ =
      match (a.unwind limit 0 a.pc a.regs []).outcome ⟨0, 0⟩ with
      | (.ok (frames, reason), s) => (.ok ⟨frames, reason, reason == "frame limit"⟩, s)
      | (.error e, s) => (.error e, s) := by
    rw [Analysis.backtrace, outcome_bind, outcome_liftExcept, hlimit]
    simp only
    rw [outcome_bind]
    rcases (a.unwind limit 0 a.pc a.regs []).outcome ⟨0, 0⟩ with ⟨r, s⟩
    cases r with
    | ok found => rfl
    | error e => rfl
  have hfails : a.FailsWithin limit a.start ↔
      Escapes Raised.Caught (a.unwind limit 0 a.pc a.regs []) ⟨0, 0⟩ := by
    have hzero : a.start.index + limit = limit := Nat.zero_add _
    rw [hzero] at hescapes
    exact hescapes.symm
  rw [hfails, Analysis.Contained, hrun]
  rcases hout : (a.unwind limit 0 a.pc a.regs []).outcome ⟨0, 0⟩ with ⟨r, s⟩
  cases r with
  | ok found =>
    obtain ⟨frames, reason⟩ := found
    have hexplains : a.Explains limit 0 a.pc a.regs frames reason := hyields.of_ok hout
    exact iff_of_true
      ⟨_, s, rfl, hexplains.length_le, hexplains.increasing.2, hexplains⟩
      (not_escapes_of_ok hout)
  | error e =>
    refine iff_of_false ?_ (not_not_intro ((escapes_of_error hout).mpr (hyields.of_error hout)))
    rintro ⟨trace, s', h, _⟩
    cases h

/-- One CFI entry over the whole program, with this CFA expression. -/
def expressionAnalysis (ops : List Operation) : Analysis where
  maps := [⟨0, 0, 0x1000⟩]
  guest := ⟨fun _ => 0, fun _ => none⟩
  cfi := [⟨0, 0x1000, .ok [⟨0, .expression (.ok ops), [], List.nodup_nil⟩], 24⟩]
  pc := 0x100
  regs := fun reg => if reg < 16 then some 0 else none
  lines := fun _ => .ok ([], [])

/-- A CFA expression `DW_OP_plus` fails the backtrace as a whole. -/
theorem backtrace_not_contained : ¬ ∀ (a : Analysis) (limit : Fin 65), a.Contained limit := by
  intro h
  obtain ⟨trace, s, hrun, _⟩ := h (expressionAnalysis [.plus]) 1
  have hfails : ((expressionAnalysis [.plus]).backtrace (1 : Fin 65)).outcome ⟨0, 0⟩ =
      (.error (indexError "pop from empty list"), ⟨0, 0⟩) := rfl
  rw [hfails] at hrun
  cases hrun

end Backtraces

end Dwarf

end AmigaDevbench.Winuae
