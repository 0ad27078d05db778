import AmigaDevbench.Daemon.Debugger.Lines
import AmigaDevbench.Link.GdbMemory

/-!
# Clearing a breakpoint by its address

The GDB server and the tools name a breakpoint by its address in eight hexadecimal digits. The
daemon first reads the argument as the number of an entry, in decimal.
-/

namespace AmigaDevbench.ClearBreakpoint

open Debugger Machine CNumber DebuggerState Gdb

variable {Data : Type*} {p : Platform Data} {s s' : Machine Data}

/-- The entry is given up and its word put back; nothing else changes. -/
structure Cleared (i : Fin maxBreakpoints) (b b' : Breakpoints) : Prop where
  gone : (b'.table i).used = false
  others (j : Fin maxBreakpoints) (h : j ≠ i) : b'.table j = b.table j
  word (h : (b.table i).enabled = true) :
    b'.code (b.table i).address = (b.table i).original
  code (a : UInt32) (h : a ≠ (b.table i).address) : b'.code a = b.code a

/-- The argument of the host's BPCLEAR. -/
def addressText (address : UInt32) : Text := Py.hex32 address.toNat

theorem inWord_address (address : UInt32) : InWord address.toNat := by
  have hlt := address.toNat_lt
  constructor <;> omega

theorem addressText_ne_nil (address : UInt32) : addressText address ≠ [] := by
  have hlen := length_hex32 (inWord_address address)
  intro hnil
  rw [addressText] at hnil
  rw [hnil] at hlen
  cases hlen

/-- As an address the argument is read back. -/
theorem addressOf_addressText (address : UInt32) : addressOf (addressText address) = address := by
  rw [addressOf, addressText, GdbMemory.strtoul_hex32 (inWord_address address), Int.toNat_natCast,
    UInt32.ofNat_toNat]

/-- The code behind a BPCLEAR of an entry. -/
theorem code_clearBp (b : Breakpoints) {i : Fin maxBreakpoints} (hused : (b.table i).used = true) :
    ((b.unpatchBp i).releaseBp i).code = if (b.table i).enabled = true then
      Function.update b.code (b.table i).address (b.table i).original else b.code := by
  change (b.unpatchBp i).code = _
  rw [Breakpoints.unpatchBp, hused]
  cases (b.table i).enabled with
  | true => rfl
  | false => rfl

theorem cleared_clearBp (b : Breakpoints) {i : Fin maxBreakpoints}
    (hused : (b.table i).used = true) : Cleared i b ((b.unpatchBp i).releaseBp i) where
  gone := (table_clearBp b i i).1 rfl
  others j hj := (table_clearBp b i j).2 hj
  word henabled := by
    rw [code_clearBp b hused, if_pos henabled]
    exact Function.update_self ..
  code a ha := by
    rw [code_clearBp b hused]
    split
    · exact Function.update_of_ne ha ..
    · rfl

/-- For every table and every address with a breakpoint, a BPCLEAR of the address clears this
breakpoint and changes nothing else, exactly if the decimal digits in front of the address are not
the number of another breakpoint. -/
theorem bpclear_clears_iff {address : UInt32} {i : Fin maxBreakpoints}
    (hset : s.bps.findBpByAddr address = some i)
    (hline : s.handleLine p ("BPCLEAR|".toList ++ addressText address) = some s') :
    Cleared i s.bps s'.bps ↔ s.attached = true ∧ ∀ j, (s.bps.table j).used = true →
      strtol (addressText address) = (j.val : Int) → j = i := by
  obtain ⟨hused, -⟩ := Breakpoints.used_of_findBpByAddr hset
  rw [handleLine_bpclear] at hline
  split_ifs at hline
  cases hline
  have hargs := addressText_ne_nil address
  cases hattached : s.attached with
  | false =>
    rw [dbgHandleBpclear, if_pos (by rw [hattached]; rfl)]
    refine iff_of_false (fun hcleared => ?_) fun hboth => by cases hboth.1
    cases hused.symm.trans hcleared.gone
  | true =>
    have hentry : ∃ k, s.clearedEntry (addressText address) = some k ∧ (k = i ↔
        ∀ j, (s.bps.table j).used = true → strtol (addressText address) = (j.val : Int) →
          j = i) := by
      by_cases hnumber : ∃ j, (s.bps.table j).used = true ∧
          strtol (addressText address) = (j.val : Int)
      · obtain ⟨j, hj, heq⟩ := hnumber
        refine ⟨j, clearedEntry_number hj heq, fun hji k _ hk => ?_, fun hall => hall j hj heq⟩
        rw [← hji]
        exact Fin.ext (by omega)
      · push Not at hnumber
        refine ⟨i, ?_, fun _ j hj heq => absurd heq (hnumber j hj), fun _ => rfl⟩
        rw [clearedEntry_address hnumber, addressOf_addressText]
        exact hset
    obtain ⟨k, hentry, hk⟩ := hentry
    have hkused := used_of_clearedEntry hentry
    have hbps : (s.dbgHandleBpclear (addressText address)).bps =
        (s.bps.unpatchBp k).releaseBp k := by
      rw [dbgHandleBpclear, if_neg (by simp [hattached]), if_neg hargs, hentry]
      rfl
    have hcleared := cleared_clearBp s.bps hkused
    rw [hbps, ← hk, eq_self_iff_true, true_and]
    constructor
    · intro hi
      by_contra hne
      have hstays := hcleared.others i (Ne.symm hne)
      have hgone := hi.gone
      rw [hstays, hused] at hgone
      cases hgone
    · rintro rfl
      exact hcleared

/-! ### Two breakpoints -/

section Example

/-- A platform whose target stays where it is. -/
def idle : Platform Unit := ⟨fun _ regs data => (regs, data), 0, 0, fun _ => true, 0, 0⟩

/-- An attached debugger. -/
def attached : Machine Unit :=
  { Machine.initial (fun _ => 0) ⟨fun _ => 0, fun _ => 0, 0, 0, 0⟩ () with
    attached := true
    hasTarget := true }

/-- The debugger behind two BPSETs of the host. -/
def twoBreakpoints (first second : UInt32) : Machine Unit :=
  (attached.dbgHandleBpset idle (addressText first)).dbgHandleBpset idle (addressText second)

/-- An address that starts with no number of a breakpoint. -/
theorem bpclear_clears_second : ∃ s',
    (twoBreakpoints 0x20000 0x21000).handleLine idle
      ("BPCLEAR|".toList ++ addressText 0x21000) = some s' ∧
    Cleared 1 (twoBreakpoints 0x20000 0x21000).bps s'.bps := by
  have hset : (twoBreakpoints 0x20000 0x21000).bps.findBpByAddr 0x21000 = some 1 := by
    decide +kernel
  have hdetaching : (twoBreakpoints 0x20000 0x21000).detaching = false := by decide +kernel
  have hline := handleLine_bpclear (s := twoBreakpoints 0x20000 0x21000) (p := idle)
    (addressText 0x21000)
  rw [hdetaching, if_neg Bool.false_ne_true] at hline
  exact ⟨_, hline, (bpclear_clears_iff hset hline).mpr (by decide +kernel)⟩

/-- With a breakpoint at 0x1f000 and a second one, a BPCLEAR of 0001f000 clears the second. -/
theorem bpclear_clears_another : ¬ ∀ (s s' : Machine Unit) (address : UInt32) (i : Fin 32),
    s.attached = true → s.bps.findBpByAddr address = some i →
      s.handleLine idle ("BPCLEAR|".toList ++ addressText address) = some s' →
        Cleared i s.bps s'.bps := by
  intro hall
  have hline := handleLine_bpclear (s := twoBreakpoints 0x1f000 0x20000) (p := idle)
    (addressText 0x1f000)
  have hdetaching : (twoBreakpoints 0x1f000 0x20000).detaching = false := by decide +kernel
  rw [hdetaching, if_neg Bool.false_ne_true] at hline
  have hcleared := hall _ _ 0x1f000 0 (by decide +kernel) (by decide +kernel) hline
  have hstays : ((((twoBreakpoints 0x1f000 0x20000).dbgHandleBpclear
      (addressText 0x1f000)).bps.table 0).used) = true := by decide +kernel
  cases hstays.symm.trans hcleared.gone

end Example

end AmigaDevbench.ClearBreakpoint
