import AmigaDevbench.Host.Python
import Mathlib.Data.Fintype.Pi

/-!
# The host's view of the debugger

The register cache holds D0 to D7, A0 to A7, PC and SR. It is written from DBGSTOP and DBGSTATE
messages and by the commands of a remote debugger; nothing in it bounds the numbers.
-/

namespace AmigaDevbench

/-- `DebuggerState`, the part that a remote debugger sees. -/
structure DebuggerState where
  attached : Bool
  stopped : Bool
  pc : Int
  sr : Int
  /-- D0 to D7, A0 to A7, PC, SR. -/
  regs : Fin 18 → Int
  deriving DecidableEq

namespace DebuggerState

/-- A fresh state, and the effect of `reset`. -/
def reset : DebuggerState := ⟨false, false, 0, 0, fun _ => 0⟩

/-- The registers from `base` on, taken from the first eight numbers of a list. -/
def loadRegs (regs : Fin 18 → Int) (base : Nat) (values : List Int) : Fin 18 → Int :=
  fun r => if base ≤ r.val ∧ r.val < base + 8 then (values[r.val - base]?).getD (regs r) else regs r

/-- `update_from_stop`. -/
def updateFromStop (dbg : DebuggerState) (msg : Dict) : DebuggerState :=
  let pc := msg.getInt "pc" 0
  let sr := msg.getInt "sr" 0
  let regs := loadRegs (loadRegs dbg.regs 0 (msg.getInts "dataRegs")) 8 (msg.getInts "addrRegs")
  { dbg with
    stopped := true
    pc := pc
    sr := sr
    regs := Function.update (Function.update regs 16 pc) 17 sr }

/-- `update_from_state`: the registers stay. -/
def updateFromState (dbg : DebuggerState) (msg : Dict) : DebuggerState :=
  { dbg with
    attached := msg.getBool "attached"
    stopped := msg.getBool "stopped"
    pc := msg.getInt "pc" 0 }

/-- A register value that eight hexadecimal digits can hold. -/
def InWord (n : Int) : Prop := 0 ≤ n ∧ n < 2 ^ 32

instance (n : Int) : Decidable (InWord n) := inferInstanceAs (Decidable (_ ∧ _))

/-- Every cached register holds a 32-bit value. -/
def InRange (dbg : DebuggerState) : Prop := ∀ r, InWord (dbg.regs r)

instance (dbg : DebuggerState) : Decidable dbg.InRange :=
  inferInstanceAs (Decidable (∀ r, InWord (dbg.regs r)))

/-- The registers that a stop message carries are 32-bit values. -/
def StopInRange (msg : Dict) : Prop :=
  InWord (msg.getInt "pc" 0) ∧ InWord (msg.getInt "sr" 0) ∧
    (∀ n ∈ (msg.getInts "dataRegs").take 8, InWord n) ∧
    ∀ n ∈ (msg.getInts "addrRegs").take 8, InWord n

instance (msg : Dict) : Decidable (StopInRange msg) := inferInstanceAs (Decidable (_ ∧ _))

theorem inRange_reset : reset.InRange := by
  intro r
  change InWord 0
  decide

/-- Storing a 32-bit value keeps the cache in range. -/
theorem InRange.update {dbg : DebuggerState} (h : dbg.InRange) (r : Fin 18) {n : Int}
    (hn : InWord n) : InRange { dbg with regs := Function.update dbg.regs r n } := by
  intro q
  change InWord (Function.update dbg.regs r n q)
  by_cases hq : q = r
  · subst hq
    rwa [Function.update_self]
  · rw [Function.update_of_ne hq]
    exact h q

theorem inWord_loadRegs {regs : Fin 18 → Int} {b : Nat} {values : List Int}
    (hregs : ∀ r, InWord (regs r)) (hvalues : ∀ n ∈ values.take 8, InWord n) :
    ∀ r, InWord (loadRegs regs b values r) := by
  intro r
  unfold loadRegs
  split
  · next hr =>
    cases hget : values[r.val - b]? with
    | none => exact hregs r
    | some n =>
      apply hvalues
      apply List.mem_of_getElem? (i := r.val - b)
      rw [List.getElem?_take_of_lt (by omega), hget, Option.getD_some]
  · exact hregs r

/-- A stop in range leaves the cache in range. -/
theorem InRange.updateFromStop {dbg : DebuggerState} (h : dbg.InRange) {msg : Dict}
    (hmsg : StopInRange msg) : (dbg.updateFromStop msg).InRange := by
  obtain ⟨hpc, hsr, hdata, haddr⟩ := hmsg
  have hregs := inWord_loadRegs (b := 8) (inWord_loadRegs (b := 0) h hdata) haddr
  have h16 := InRange.update (show InRange { dbg with regs := _ } from hregs) 16 hpc
  exact InRange.update h16 17 hsr

end DebuggerState

end AmigaDevbench
