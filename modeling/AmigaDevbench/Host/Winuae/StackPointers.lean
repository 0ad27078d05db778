import Mathlib.Logic.Function.Basic
import AmigaDevbench.Core.Raises
import AmigaDevbench.Core.Returns
import AmigaDevbench.Host.Winuae.Rsp

/-!
# The banked stack pointers

A7 is one of the stack pointers of the CPU, chosen by the S and M bits of SR. The debugger reads
the others by writing SR, and puts SR back in a `finally` clause.
-/

namespace AmigaDevbench.Winuae

namespace StackPointers

open Raises

/-- The names of `STACK_POINTERS`. -/
inductive Bank where
  | usp | isp | msp
  deriving DecidableEq

def Bank.text : Bank → String
  | .usp => "USP"
  | .isp => "ISP"
  | .msp => "MSP"

/-- The models with a master stack pointer. -/
def HasMsp (model : Nat) : Prop := model ∈ [68020, 68030, 68040]

instance (model : Nat) : Decidable (HasMsp model) := List.instDecidableMemOfLawfulBEq _ _

/-- A CPU model and the bits that its SR has. -/
structure Model where
  number : Nat
  implemented : BitVec 16
  supervisor : implemented.getLsbD 13 = true
  master : HasMsp number → implemented.getLsbD 12 = true

/-- The registers, with every stack pointer in its own place. -/
structure Cpu (model : Model) where
  sr : BitVec 16
  d : Fin 8 → BitVec 32
  a : Fin 7 → BitVec 32
  pc : BitVec 32
  bank : Bank → BitVec 32
  implemented : sr &&& model.implemented = sr

variable {model : Model}

namespace Cpu

/-- The stack pointer that is A7. -/
def active (cpu : Cpu model) : Bank :=
  if cpu.sr.getLsbD 13 = false then .usp
  else if HasMsp model.number ∧ cpu.sr.getLsbD 12 = true then .msp
  else .isp

def a7 (cpu : Cpu model) : BitVec 32 := cpu.bank cpu.active

theorem and_and_self (v m : BitVec 16) : v &&& m &&& m = v &&& m := by
  rw [BitVec.and_assoc, BitVec.and_self]

/-- A write to SR leaves the stack pointers in their places. -/
def setSr (cpu : Cpu model) (value : BitVec 16) : Cpu model :=
  { cpu with sr := value &&& model.implemented, implemented := and_and_self _ _ }

def setBank (cpu : Cpu model) (name : Bank) (value : BitVec 32) : Cpu model :=
  { cpu with bank := Function.update cpu.bank name value }

end Cpu

/-- What becomes of a request. One that fails may have been performed. -/
inductive Fate where
  | answered
  | failed (performed : Bool) (e : Raised)
  | lost (performed : Bool) (e : Raised)

/-- The target: what it says about its CPU, and the fates of the requests in turn and of the write
that restores SR. -/
structure Target (model : Model) where
  cpuModel : Option Nat
  fate : Nat → Fate
  restoring : Fate
  cpuModel_eq : cpuModel.getD 68000 = model.number

/-- The CPU, the connection, and the variable `switched`. -/
structure Guest (model : Model) where
  cpu : Cpu model
  connected : Bool
  requests : Nat
  switched : Bool

abbrev Access (model : Model) := Raises Raised (Guest model)

/-- `_request`, of a request with this fate and effect; the reply is computed from the CPU. -/
def request {α : Type} (fate : Fate) (effect : Cpu model → Cpu model) (reply : Cpu model → α) :
    Access model α := do
  let s ← get
  if !s.connected then throw (.debugError ⟨"Connect to the WinUAE debugger first"⟩)
  else match fate with
    | .answered => do
      modify fun s => { s with cpu := effect s.cpu }
      return reply s.cpu
    | .failed performed e => do
      modify fun s => { s with cpu := if performed then effect s.cpu else s.cpu }
      throw e
    | .lost performed e => do
      modify fun s =>
        { s with cpu := if performed then effect s.cpu else s.cpu, connected := false }
      throw e

/-- The next request. -/
def send {α : Type} (target : Target model) (effect : Cpu model → Cpu model)
    (reply : Cpu model → α) : Access model α := do
  let s ← get
  modify fun s => { s with requests := s.requests + 1 }
  request (target.fate s.requests) effect reply

/-- The registers that `registers` returns and `stack_pointers` uses. -/
structure Registers where
  sr : BitVec 16
  a7 : BitVec 32

def Cpu.registers (cpu : Cpu model) : Registers := ⟨cpu.sr, cpu.a7⟩

/-- `registers`. -/
def registers (target : Target model) : Access model Registers :=
  send target id Cpu.registers

/-- `set_register('SR', value)`. -/
def setSr (target : Target model) (value : BitVec 16) : Access model PUnit :=
  send target (·.setSr value) fun _ => ⟨⟩

/-- `set_register('A7', value)`. -/
def setA7 (target : Target model) (value : BitVec 32) : Access model PUnit :=
  send target (fun cpu => cpu.setBank cpu.active value) fun _ => ⟨⟩

/-- `p0f`. -/
def readA7 (target : Target model) : Access model (BitVec 32) := send target id Cpu.a7

/-- The last `set_register('SR', sr)`. -/
def restoreSr (target : Target model) (value : BitVec 16) : Access model PUnit :=
  request target.restoring (·.setSr value) fun _ => ⟨⟩

/-- `_stack_modes`, in insertion order. -/
def stackModes (target : Target model) : List (Bank × BitVec 16) :=
  [(.usp, 0), (.isp, 0x2000)] ++ if HasMsp (target.cpuModel.getD 68000) then [(.msp, 0x3000)] else []

/-- `(sr & ~0x3000) | bits`. -/
def withMode (sr bits : BitVec 16) : BitVec 16 := (sr &&& ~~~0x3000) ||| bits

/-- `current` in `stack_pointers`. -/
def currentBank (modes : List (Bank × BitVec 16)) (sr : BitVec 16) : Bank :=
  if sr &&& 0x2000 = 0 then .usp
  else if sr &&& 0x1000 ≠ 0 ∧ .msp ∈ modes.map Prod.fst then .msp
  else .isp

/-- The loop of `stack_pointers`. -/
def readOthers (target : Target model) (sr : BitVec 16) (current : Bank) :
    List (Bank × BitVec 16) → List (Bank × BitVec 32) → Access model (List (Bank × BitVec 32))
  | [], result => return result
  | (name, bits) :: modes, result =>
    if name ≠ current then do
      modify fun s => { s with switched := true }
      setSr target (withMode sr bits)
      let value ← readA7 target
      readOthers target sr current modes (result ++ [(name, value)])
    else readOthers target sr current modes result

/-- `result[name]`. -/
def lookup (result : List (Bank × BitVec 32)) (name : Bank) : Except Raised (Bank × BitVec 32) :=
  match result.find? (·.1 = name) with
  | some entry => .ok entry
  | none => .error (.python .keyError)

/-- The `finally` clause of `stack_pointers`. -/
def restoreIfSwitched (target : Target model) (sr : BitVec 16) : Access model PUnit := do
  let s ← get
  if s.switched then restoreSr target sr else return ⟨⟩

/-- `stack_pointers`. -/
def stackPointers (target : Target model) (regs : Registers) :
    Access model (List (Bank × BitVec 32)) := do
  let modes := stackModes target
  let current := currentBank modes regs.sr
  modify fun s => { s with switched := false }
  let result ← tryFinally (readOthers target regs.sr current modes [(current, regs.a7)])
    (restoreIfSwitched target regs.sr)
  liftExcept (modes.mapM fun mode => lookup result mode.1)

/-- `set_stack_pointer`. -/
def setStackPointer (target : Target model) (name : Bank) (value : BitVec 32) :
    Access model PUnit := do
  match (stackModes target).find? (·.1 = name) with
  | none => throw (.debugError ⟨name.text ++ " does not exist on this CPU"⟩)
  | some (_, bits) => do
    let regs ← registers target
    tryFinally (do
      setSr target (withMode regs.sr bits)
      setA7 target value) (restoreSr target regs.sr)

/-! ### SR and the banks -/

variable {cpu : Cpu model} {target : Target model}

theorem setSr_self (cpu : Cpu model) : cpu.setSr cpu.sr = cpu := by
  cases cpu with
  | mk sr d a pc bank implemented => simp only [Cpu.setSr, implemented]

@[simp] theorem setSr_setSr (cpu : Cpu model) (v w : BitVec 16) :
    (cpu.setSr v).setSr w = cpu.setSr w := rfl

@[simp] theorem bank_setSr (cpu : Cpu model) (v : BitVec 16) : (cpu.setSr v).bank = cpu.bank := rfl

theorem setBank_setSr (cpu : Cpu model) (v : BitVec 16) (name : Bank) (value : BitVec 32) :
    (cpu.setSr v).setBank name value = (cpu.setBank name value).setSr v := rfl

/-- `v & bit == 0`. -/
theorem and_twoPow_eq_zero_iff (v : BitVec 16) {i : Nat} (hi : i < 16) :
    v &&& BitVec.twoPow 16 i = 0 ↔ v.getLsbD i = false := by
  rw [BitVec.and_twoPow]
  cases v.getLsbD i with
  | false => simp
  | true =>
    have hne : BitVec.twoPow 16 i ≠ 0 := by
      intro h
      have hbit := congrArg (BitVec.getLsbD · i) h
      simp [hi] at hbit
    exact iff_of_false hne (by decide)

/-- The session and the CPU agree on the stack pointer that is A7. -/
theorem currentBank_eq (target : Target model) (cpu : Cpu model) :
    currentBank (stackModes target) cpu.sr = cpu.active := by
  have hs : cpu.sr &&& 0x2000 = 0 ↔ cpu.sr.getLsbD 13 = false :=
    and_twoPow_eq_zero_iff cpu.sr (i := 13) (by decide)
  have hm : cpu.sr &&& 0x1000 = 0 ↔ cpu.sr.getLsbD 12 = false :=
    and_twoPow_eq_zero_iff cpu.sr (i := 12) (by decide)
  have hmodes : Bank.msp ∈ (stackModes target).map Prod.fst ↔ HasMsp model.number := by
    rw [stackModes, target.cpuModel_eq]
    split <;> simp [*]
  have hmaster : cpu.sr &&& 0x1000 ≠ 0 ∧ Bank.msp ∈ (stackModes target).map Prod.fst ↔
      HasMsp model.number ∧ cpu.sr.getLsbD 12 = true := by
    rw [hmodes, ne_eq, hm, Bool.not_eq_false, and_comm]
  unfold currentBank Cpu.active
  simp only [hs, hmaster]

theorem getLsbD_withMode (sr bits : BitVec 16) {i : Nat} (hi : i = 12 ∨ i = 13) :
    (withMode sr bits).getLsbD i = bits.getLsbD i := by
  rcases hi with rfl | rfl <;> simp [withMode]

/-- The mode bits of a stack pointer make it A7. -/
theorem active_setSr {name : Bank} {bits : BitVec 16} (h : (name, bits) ∈ stackModes target)
    (cpu : Cpu model) (sr : BitVec 16) : (cpu.setSr (withMode sr bits)).active = name := by
  have hs : (cpu.setSr (withMode sr bits)).sr.getLsbD 13 = bits.getLsbD 13 := by
    rw [Cpu.setSr, BitVec.getLsbD_and, model.supervisor, Bool.and_true,
      getLsbD_withMode sr bits (.inr rfl)]
  have hm : HasMsp model.number →
      (cpu.setSr (withMode sr bits)).sr.getLsbD 12 = bits.getLsbD 12 := by
    intro hmsp
    rw [Cpu.setSr, BitVec.getLsbD_and, model.master hmsp, Bool.and_true,
      getLsbD_withMode sr bits (.inl rfl)]
  rw [stackModes, target.cpuModel_eq] at h
  rw [Cpu.active, hs]
  rcases List.mem_append.mp h with h | h
  · simp only [List.mem_cons, Prod.mk.injEq, List.not_mem_nil, or_false] at h
    rcases h with ⟨rfl, rfl⟩ | ⟨rfl, rfl⟩
    · rw [if_pos (by decide)]
    · rw [if_neg (by decide), if_neg]
      rintro ⟨hmsp, hbit⟩
      rw [hm hmsp] at hbit
      exact absurd hbit (by decide)
  · split at h
    · next hmsp =>
      simp only [List.mem_cons, Prod.mk.injEq, List.not_mem_nil, or_false] at h
      obtain ⟨rfl, rfl⟩ := h
      rw [if_neg (by decide), if_pos ⟨hmsp, by rw [hm hmsp]; decide⟩]
    · exact (List.not_mem_nil h).elim

/-! ### Requests -/

section Requests

variable {α : Type} {P E : Guest model → Prop} {Q : α → Guest model → Prop}
  {effect : Cpu model → Cpu model} {reply : Cpu model → α}

/-- The connection survives the request. -/
def Fate.Survived : Fate → Prop
  | .answered | .failed _ _ => True
  | .lost _ _ => False

/-- A request on a connection that survives it. -/
theorem triple_request {fate : Fate} (hfate : fate.Survived) (hconnected : ∀ s, P s → s.connected = true)
    (hanswered : ∀ s, P s → fate = .answered → Q (reply s.cpu) { s with cpu := effect s.cpu })
    (hfailed : ∀ s (performed : Bool), P s → fate ≠ .answered →
      E { s with cpu := if performed then effect s.cpu else s.cpu }) :
    Triple P (request fate effect reply) Q E := by
  intro s hs
  rw [request, outcome_bind, outcome_get]
  simp only [hconnected s hs, Bool.not_true, Bool.false_eq_true, if_false]
  cases fate with
  | answered => exact hanswered s hs rfl
  | failed performed e => exact hfailed s performed hs (by simp)
  | lost performed e => exact hfate.elim

theorem triple_send (hfates : ∀ n, (target.fate n).Survived)
    (hconnected : ∀ s, P s → s.connected = true)
    (hanswered : ∀ s, P s → Q (reply s.cpu)
      { s with cpu := effect s.cpu, requests := s.requests + 1 })
    (hfailed : ∀ s (performed : Bool), P s →
      E { s with cpu := if performed then effect s.cpu else s.cpu, requests := s.requests + 1 }) :
    Triple P (send target effect reply) Q E := by
  intro s hs
  rw [send, outcome_bind, outcome_get]
  simp only
  rw [outcome_bind, outcome_modify]
  simp only
  refine triple_request (P := fun t => t = { s with requests := s.requests + 1 })
    (hfates s.requests) ?_ ?_ ?_ _ rfl
  · rintro t rfl
    exact hconnected s hs
  · rintro t rfl _
    exact hanswered s hs
  · rintro t performed rfl _
    exact hfailed s performed hs

end Requests

/-! ### Reading -/

/-- The connection is up, the CPU differs from `cpu` in SR at most, and in nothing as long as
`switched` is not set. -/
structure Held (cpu : Cpu model) (s : Guest model) : Prop where
  connected : s.connected = true
  same : ∃ v, s.cpu = cpu.setSr v
  unswitched : s.switched = false → s.cpu = cpu

/-- The entries are those of the CPU. -/
def Accurate (cpu : Cpu model) (result : List (Bank × BitVec 32)) : Prop :=
  ∀ entry ∈ result, entry.2 = cpu.bank entry.1

/-- Reading another bank: whatever fails, SR is all that has changed. -/
theorem triple_readOthers (hfates : ∀ n, (target.fate n).Survived) (sr : BitVec 16)
    (current : Bank) (modes : List (Bank × BitVec 16)) (hmodes : ∀ m ∈ modes, m ∈ stackModes target) :
    ∀ result, Accurate cpu result →
      Triple (Held cpu) (readOthers target sr current modes result)
        (fun result s => Accurate cpu result ∧ Held cpu s) (Held cpu) := by
  induction modes with
  | nil =>
    intro result hresult
    exact triple_pure fun s hs => ⟨hresult, hs⟩
  | cons mode modes ih =>
    obtain ⟨name, bits⟩ := mode
    obtain ⟨hmode, hrest⟩ := List.forall_mem_cons.mp hmodes
    intro result hresult
    rw [readOthers]
    split
    · refine triple_bind (Q := fun _ s => Held cpu s ∧ s.switched = true) (triple_modify ?_) ?_
      · rintro s ⟨hconnected, hsame, -⟩
        exact ⟨⟨hconnected, hsame, fun h => (Bool.noConfusion h)⟩, rfl⟩
      rintro ⟨⟩
      refine triple_bind (Q := fun _ s => Held cpu s ∧ s.cpu.active = name) ?_ ?_
      · refine triple_send hfates (fun s hs => hs.1.connected) ?_ ?_
        · rintro s ⟨⟨hconnected, ⟨v, hv⟩, -⟩, hswitched⟩
          refine ⟨⟨hconnected, ⟨withMode sr bits, ?_⟩, fun h => ?_⟩, active_setSr hmode s.cpu sr⟩
          · change s.cpu.setSr _ = _
            rw [hv, setSr_setSr]
          · exact absurd (hswitched.symm.trans h) (by decide)
        · rintro s performed ⟨⟨hconnected, ⟨v, hv⟩, -⟩, hswitched⟩
          refine ⟨hconnected, ?_, fun h => absurd (hswitched.symm.trans h) (by decide)⟩
          cases performed with
          | false => exact ⟨v, hv⟩
          | true => exact ⟨withMode sr bits, by
              change s.cpu.setSr _ = _
              rw [hv, setSr_setSr]⟩
      rintro ⟨⟩
      refine triple_bind (Q := fun value s => Held cpu s ∧ value = cpu.bank name) ?_ ?_
      · refine triple_send hfates (fun s hs => hs.1.connected) ?_ ?_
        · rintro s ⟨⟨hconnected, ⟨v, hv⟩, hun⟩, hactive⟩
          refine ⟨⟨hconnected, ⟨v, hv⟩, hun⟩, ?_⟩
          rw [Cpu.a7, hactive, hv, bank_setSr]
        · rintro s performed ⟨⟨hconnected, hsame, hun⟩, -⟩
          cases performed <;> exact ⟨hconnected, hsame, hun⟩
      intro value s hs
      refine ih hrest _ ?_ s hs.1
      intro entry hentry
      rcases List.mem_append.mp hentry with hentry | hentry
      · exact hresult entry hentry
      · rw [List.mem_singleton.mp hentry]
        exact hs.2
    · exact ih hrest result hresult

/-- The `finally` clause puts the CPU back. -/
theorem triple_restore (hrestoring : target.restoring = .answered) :
    Triple (Held cpu) (restoreIfSwitched target cpu.sr) (fun _ s => s.cpu = cpu)
      (fun s => s.cpu = cpu) := by
  rw [restoreIfSwitched]
  refine triple_bind (Q := fun t s => t = s ∧ Held cpu s) (triple_get fun s hs => ⟨rfl, hs⟩) ?_
  intro t
  by_cases hswitched : t.switched = true
  · rw [if_pos hswitched]
    refine triple_request (hrestoring ▸ trivial) (fun s hs => hs.2.connected) ?_ ?_
    · rintro s ⟨-, -, ⟨v, hv⟩, -⟩ -
      change s.cpu.setSr cpu.sr = cpu
      rw [hv, setSr_setSr, setSr_self]
    · exact fun s performed _ hne => absurd hrestoring hne
  · rw [if_neg hswitched]
    refine triple_pure ?_
    rintro s ⟨rfl, hs⟩
    exact hs.unswitched (Bool.eq_false_iff.mpr hswitched)

theorem lookup_eq_ok {result : List (Bank × BitVec 32)} {name : Bank} {entry : Bank × BitVec 32}
    (h : lookup result name = .ok entry) : entry ∈ result ∧ entry.1 = name := by
  rw [lookup] at h
  split at h
  · next found hfound =>
    cases h
    have hname := List.find?_some hfound
    exact ⟨List.mem_of_find?_eq_some hfound, of_decide_eq_true hname⟩
  · cases h

/-- The dictionary returned has every stack pointer of the CPU. -/
theorem eq_of_lookups {result out : List (Bank × BitVec 32)} (h : Accurate cpu result)
    {modes : List (Bank × BitVec 16)}
    (hout : modes.mapM (fun mode => lookup result mode.1) = .ok out) :
    out = modes.map fun mode => (mode.1, cpu.bank mode.1) := by
  have hall := forall₂_of_mapM hout
  clear hout
  induction hall with
  | nil => rfl
  | cons hlookup _ ih =>
    obtain ⟨hmem, hname⟩ := lookup_eq_ok hlookup
    rw [List.map_cons, ← ih, ← hname, ← h _ hmem]

/-- The connection is up, and SR is all in which the CPU differs from `cpu`. -/
def Writing (cpu : Cpu model) (t : Guest model) : Prop :=
  t.connected = true ∧ ∃ v, t.cpu = cpu.setSr v

theorem triple_putBack (hrestoring : target.restoring = .answered) (cpu : Cpu model)
    {sr : BitVec 16} (hsr : cpu.sr = sr) :
    Triple (Writing cpu) (restoreSr target sr) (fun _ t => t.cpu = cpu) (fun t => t.cpu = cpu) := by
  refine triple_request (hrestoring ▸ trivial) (fun t ht => ht.1) ?_ ?_
  · rintro t ⟨-, v, hv⟩ -
    change t.cpu.setSr sr = cpu
    rw [hv, setSr_setSr, ← hsr, setSr_self]
  · exact fun t performed _ hne => absurd hrestoring hne

section Frame

variable (s : Guest model) (hconnected : s.connected = true)
  (hfates : ∀ n, (target.fate n).Survived) (hrestoring : target.restoring = .answered)

include hconnected hfates hrestoring

theorem triple_stackPointers : Triple (· = s) (stackPointers target s.cpu.registers)
    (fun out t => t.cpu = s.cpu ∧
      out = (stackModes target).map fun mode => (mode.1, s.cpu.bank mode.1))
    (fun t => t.cpu = s.cpu) := by
  rw [stackPointers]
  refine triple_bind (Q := fun _ => Held s.cpu) (triple_modify ?_) ?_
  · rintro t rfl
    exact ⟨hconnected, ⟨t.cpu.sr, (setSr_self _).symm⟩, fun _ => rfl⟩
  rintro ⟨⟩
  refine triple_bind (Q := fun result t => Accurate s.cpu result ∧ t.cpu = s.cpu) ?_ ?_
  · have haccurate : Accurate s.cpu
        [(currentBank (stackModes target) s.cpu.registers.sr, s.cpu.registers.a7)] := by
      intro entry hentry
      rw [List.mem_singleton.mp hentry]
      change s.cpu.a7 = s.cpu.bank (currentBank (stackModes target) s.cpu.sr)
      rw [currentBank_eq, Cpu.a7]
    refine triple_tryFinally (triple_readOthers hfates _ _ _ (fun _ h => h) _ haccurate) ?_
      (triple_restore hrestoring)
    intro result
    exact triple_of_and fun hresult => (triple_restore hrestoring).conseq (fun _ h => h)
      (fun _ t h => ⟨hresult, h⟩) fun _ h => h
  · intro result
    exact triple_liftExcept (fun out t hout ht => ⟨ht.2, eq_of_lookups ht.1 hout⟩) fun t ht => ht.2

theorem triple_setStackPointer (name : Bank) (value : BitVec 32) :
    Triple (· = s) (setStackPointer target name value)
      (fun _ t => t.cpu = s.cpu.setBank name value)
      (fun t => t.cpu = s.cpu ∨ t.cpu = s.cpu.setBank name value) := by
  rw [setStackPointer]
  split
  · refine triple_throw ?_
    rintro t rfl
    exact .inl rfl
  · next bits hfound =>
    have hmode : (name, bits) ∈ stackModes target := by
      have hname := List.find?_some hfound
      have hmem := List.mem_of_find?_eq_some hfound
      simp only [decide_eq_true_eq] at hname
      exact hname ▸ hmem
    refine triple_bind (Q := fun regs t => regs = s.cpu.registers ∧ t.connected = true ∧
      t.cpu = s.cpu) ?_ ?_
    · refine triple_send hfates ?_ ?_ ?_
      · rintro t rfl
        exact hconnected
      · rintro t rfl
        exact ⟨rfl, hconnected, rfl⟩
      · rintro t performed rfl
        cases performed <;> exact .inl rfl
    intro regs
    refine triple_of_and fun hregs => ?_
    subst hregs
    refine triple_tryFinally (Q := fun _ => Writing (s.cpu.setBank name value))
      (E := fun t => Writing s.cpu t ∨ Writing (s.cpu.setBank name value) t) ?_ ?_ ?_
    · refine triple_bind (Q := fun _ t => Writing s.cpu t ∧ t.cpu.active = name) ?_ ?_
      · refine triple_send hfates (fun t ht => ht.1) ?_ ?_
        · rintro t ⟨hup, hcpu⟩
          refine ⟨⟨hup, withMode s.cpu.sr bits, ?_⟩, active_setSr hmode t.cpu s.cpu.sr⟩
          change t.cpu.setSr _ = _
          rw [hcpu]
          rfl
        · rintro t performed ⟨hup, hcpu⟩
          refine .inl ⟨hup, ?_⟩
          cases performed with
          | false => exact ⟨s.cpu.sr, hcpu.trans (setSr_self _).symm⟩
          | true =>
            refine ⟨withMode s.cpu.sr bits, ?_⟩
            change t.cpu.setSr _ = _
            rw [hcpu]
            rfl
      · rintro ⟨⟩
        have hwritten : ∀ t : Guest model, Writing s.cpu t ∧ t.cpu.active = name →
            ∃ v, t.cpu.setBank t.cpu.active value = (s.cpu.setBank name value).setSr v := by
          rintro t ⟨⟨-, v, hv⟩, hactive⟩
          exact ⟨v, by rw [hactive, hv, setBank_setSr]⟩
        refine triple_send hfates (fun t ht => ht.1.1) ?_ ?_
        · exact fun t ht => ⟨ht.1.1, hwritten t ht⟩
        · intro t performed ht
          cases performed with
          | false => exact .inl ht.1
          | true => exact .inr ⟨ht.1.1, hwritten t ht⟩
    · intro _
      exact (triple_putBack hrestoring (s.cpu.setBank name value) rfl).conseq (fun _ h => h)
        (fun _ _ h => h) fun _ h => .inr h
    · intro t ht
      rcases ht with ht | ht
      · exact (triple_putBack hrestoring s.cpu rfl).conseq (fun _ h => h) (fun _ _ h => .inl h)
          (fun _ h => .inl h) t ht
      · exact (triple_putBack hrestoring (s.cpu.setBank name value) rfl).conseq (fun _ h => h)
          (fun _ _ h => .inr h) (fun _ h => .inr h) t ht

end Frame

/-- Whichever requests fail, as long as the connection survives and the SR write in the `finally`
clause is answered: reading the stack pointers leaves the CPU as it was, and what is returned are
its stack pointers; setting one changes that one at most. -/
theorem stack_pointers_frame (target : Target model) (s : Guest model) (name : Bank)
    (value : BitVec 32) (hconnected : s.connected = true)
    (hfates : ∀ n, (target.fate n).Survived) (hrestoring : target.restoring = .answered) :
    (((stackPointers target s.cpu.registers).outcome s).2.cpu = s.cpu ∧
      ∀ out, ((stackPointers target s.cpu.registers).outcome s).1 = .ok out →
        out = (stackModes target).map fun mode => (mode.1, s.cpu.bank mode.1)) ∧
    (((setStackPointer target name value).outcome s).2.cpu = s.cpu ∨
      ((setStackPointer target name value).outcome s).2.cpu = s.cpu.setBank name value) ∧
    ∀ u, ((setStackPointer target name value).outcome s).1 = .ok u →
      ((setStackPointer target name value).outcome s).2.cpu = s.cpu.setBank name value := by
  have hread := triple_stackPointers s hconnected hfates hrestoring s rfl
  have hset := triple_setStackPointer s hconnected hfates hrestoring name value s rfl
  revert hread hset
  rcases (stackPointers target s.cpu.registers).outcome s with ⟨r, t⟩
  rcases (setStackPointer target name value).outcome s with ⟨r', t'⟩
  intro hread hset
  refine ⟨?_, ?_⟩
  · cases r with
    | ok out =>
      refine ⟨hread.1, fun out' h => ?_⟩
      cases h
      exact hread.2
    | error e => exact ⟨hread, fun out h => by cases h⟩
  · cases r' with
    | ok u => exact ⟨.inr hset, fun _ _ => hset⟩
    | error e => exact ⟨hset, fun u h => by cases h⟩

/-- A 68020 and the bits of its SR. -/
def m68020 : Model := ⟨68020, 0xf71f, by decide, fun _ => by decide⟩

/-- It runs on the interrupt stack. -/
def interrupted : Guest m68020 :=
  ⟨⟨0x2700, fun _ => 0, fun _ => 0, 0, fun name => if name = .isp then 0x2000 else 0x1000,
    by decide⟩, true, 0, false⟩

def thirdFails (n : Nat) : Fate :=
  if n = 2 then .failed true (.debugError ⟨"WinUAE rejected the request (E01)"⟩) else .answered

theorem survived_thirdFails (n : Nat) : (thirdFails n).Survived := by
  unfold thirdFails
  split <;> exact trivial

/-- The switch to the master stack fails after it has been performed. -/
theorem stack_pointers_frame_interrupted :
    ((stackPointers ⟨some 68020, thirdFails, .answered, rfl⟩ interrupted.cpu.registers).outcome
      interrupted).2.cpu = interrupted.cpu :=
  (stack_pointers_frame ⟨some 68020, thirdFails, .answered, rfl⟩ interrupted .usp 0 rfl
    survived_thirdFails rfl).1.1

end StackPointers

end AmigaDevbench.Winuae
