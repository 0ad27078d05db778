import Mathlib.Data.Finset.Card
import Mathlib.Data.Fintype.Basic
import AmigaDevbench.Core.Overlay
import AmigaDevbench.Core.Sizes

/-!
# The breakpoint table of `debugger.c`

A breakpoint replaces a word of the target's code by `TRAP #15` and keeps the word in its entry.
The table, its count and the code are one record here, since every operation on a breakpoint
touches two of them. The daemon's own variables are apart from the code.
-/

namespace AmigaDevbench.Debugger

/-- `MAX_BREAKPOINTS`. -/
abbrev maxBreakpoints : Nat := 32

/-- `TRAP15_OPCODE`. -/
def trap15Opcode : UInt16 := 0x4E4F

/-- The entries in the order of the loops. -/
@[irreducible] def entries : List (Fin maxBreakpoints) := List.finRange maxBreakpoints

theorem mem_entries (i : Fin maxBreakpoints) : i ∈ entries := by
  unfold entries
  exact List.mem_finRange i

/-- The words of the code, by their even addresses. -/
abbrev Code := UInt32 → UInt16

/-- `struct Breakpoint`. -/
structure Breakpoint where
  address : UInt32
  original : UInt16
  /-- Patched into the code at present. -/
  enabled : Bool
  temporary : Bool
  used : Bool
  deriving DecidableEq

/-- A cleared entry. -/
def Breakpoint.free : Breakpoint := ⟨0, 0, false, false, false⟩

/-- `bp_table`, `dbg_bp_count` and the code. -/
structure Breakpoints where
  table : Fin maxBreakpoints → Breakpoint
  count : Int
  code : Code

namespace Breakpoints

/-- No entry is used. -/
def initial (code : Code) : Breakpoints := ⟨fun _ => .free, 0, code⟩

/-- `dbg_find_bp_by_addr`. -/
def findBpByAddr (b : Breakpoints) (address : UInt32) : Option (Fin maxBreakpoints) :=
  entries.find? fun i =>
    (b.table i).used && (b.table i).address == address

theorem used_of_findBpByAddr {b : Breakpoints} {address : UInt32} {i : Fin maxBreakpoints}
    (h : b.findBpByAddr address = some i) :
    (b.table i).used = true ∧ (b.table i).address = address := by
  rw [findBpByAddr] at h
  have hfound := List.find?_some h
  simpa using hfound

theorem findBpByAddr_eq_none {b : Breakpoints} {address : UInt32}
    (h : b.findBpByAddr address = none) (i : Fin maxBreakpoints) (hused : (b.table i).used = true) :
    (b.table i).address ≠ address := by
  rw [findBpByAddr, List.find?_eq_none] at h
  have hother := h i (mem_entries i)
  rw [hused, Bool.true_and, beq_iff_eq] at hother
  exact hother

/-- `dbg_find_free_bp`. -/
def findFreeBp (b : Breakpoints) : Option (Fin maxBreakpoints) :=
  entries.find? fun i => !(b.table i).used

theorem unused_of_findFreeBp {b : Breakpoints} {i : Fin maxBreakpoints}
    (h : b.findFreeBp = some i) : (b.table i).used = false := by
  rw [findFreeBp] at h
  have hfound := List.find?_some h
  simpa using hfound

/-- Write a word of code and note in the entry whether it is the trap. -/
def write (b : Breakpoints) (i : Fin maxBreakpoints) (word : UInt16) (enabled : Bool) :
    Breakpoints :=
  { b with
    code := Function.update b.code (b.table i).address word
    table := Function.update b.table i { b.table i with enabled } }

/-- `dbg_patch_bp`. -/
def patchBp (b : Breakpoints) (i : Fin maxBreakpoints) : Breakpoints :=
  if !(b.table i).used || (b.table i).enabled then b else b.write i trap15Opcode true

/-- `dbg_unpatch_bp`. -/
def unpatchBp (b : Breakpoints) (i : Fin maxBreakpoints) : Breakpoints :=
  if !(b.table i).used || !(b.table i).enabled then b
  else b.write i (b.table i).original false

/-- `dbg_unpatch_all`: what `dbg_unpatch_bp` does, for every entry. -/
def unpatchAll (b : Breakpoints) : Breakpoints :=
  entries.foldl unpatchBp b

/-- The body of the loop of `dbg_repatch_all_from_trace`. -/
def repatchBp (b : Breakpoints) (i : Fin maxBreakpoints) : Breakpoints :=
  if (b.table i).used && !(b.table i).temporary then b.write i trap15Opcode true else b

/-- `dbg_repatch_all_from_trace`. -/
def repatchAll (b : Breakpoints) : Breakpoints :=
  entries.foldl repatchBp b

/-- What the TRAP handler does to the table: the first entry of the address gives its word back. -/
def restore (b : Breakpoints) (address : UInt32) : Breakpoints :=
  match b.findBpByAddr address with
  | some i => b.write i (b.table i).original false
  | none => b

/-- Fill a free entry, as `dbg_handle_bpset` does in front of the patch. -/
def insertBp (b : Breakpoints) (i : Fin maxBreakpoints) (address : UInt32) : Breakpoints :=
  { b with
    table := Function.update b.table i ⟨address, b.code address, false, false, true⟩
    count := b.count + 1 }

/-- Free an entry. -/
def releaseBp (b : Breakpoints) (i : Fin maxBreakpoints) : Breakpoints :=
  { b with
    table := Function.update b.table i { b.table i with used := false }
    count := b.count - 1 }

/-- The loops that mark every entry unused, with the count set to zero behind them. -/
def releaseAll (b : Breakpoints) : Breakpoints :=
  { b with table := fun i => { b.table i with used := false }, count := 0 }

/-- The body of the loop of `dbg_poll` over the temporary entries. -/
def dropTemporaryBp (b : Breakpoints) (i : Fin maxBreakpoints) : Breakpoints :=
  if (b.table i).used && (b.table i).temporary then b.releaseBp i else b

/-- The loop of `dbg_poll` over the temporary entries. -/
def dropTemporary (b : Breakpoints) : Breakpoints :=
  entries.foldl dropTemporaryBp b

/-- `memset` of the table at an attach. -/
def clear (b : Breakpoints) : Breakpoints := { b with table := fun _ => .free, count := 0 }

/-- The number of used entries. -/
def usedCount (b : Breakpoints) : Nat := (Finset.univ.filter fun i => (b.table i).used).card

/-- The addresses of the breakpoints that are patched into the code. -/
def armed (b : Breakpoints) : Set UInt32 :=
  {a | ∃ i, (b.table i).used = true ∧ (b.table i).enabled = true ∧ (b.table i).address = a}

/-- Table and code are in step with the program without breakpoints. -/
structure InStep (program : Code) (b : Breakpoints) : Prop where
  unique (i j : Fin maxBreakpoints) (hi : (b.table i).used = true) (hj : (b.table j).used = true)
    (haddress : (b.table i).address = (b.table j).address) : i = j
  count : b.count = b.usedCount
  code : b.code = overlay program b.armed trap15Opcode
  /-- Each entry keeps the program's word. -/
  original (i : Fin maxBreakpoints) (h : (b.table i).used = true) :
    (b.table i).original = program (b.table i).address
  /-- No command makes a temporary entry. -/
  permanent (i : Fin maxBreakpoints) (h : (b.table i).used = true) :
    (b.table i).temporary = false

section Writes

variable {b : Breakpoints} {i j : Fin maxBreakpoints} {word : UInt16} {enabled : Bool}

theorem table_write_self : (b.write i word enabled).table i = { b.table i with enabled } :=
  Function.update_self ..

theorem table_write_of_ne (h : j ≠ i) : (b.write i word enabled).table j = b.table j :=
  Function.update_of_ne h ..

@[simp] theorem used_write : ((b.write i word enabled).table j).used = (b.table j).used := by
  by_cases h : j = i
  · rw [h, table_write_self]
  · rw [table_write_of_ne h]

@[simp] theorem address_write :
    ((b.write i word enabled).table j).address = (b.table j).address := by
  by_cases h : j = i
  · rw [h, table_write_self]
  · rw [table_write_of_ne h]

@[simp] theorem original_write :
    ((b.write i word enabled).table j).original = (b.table j).original := by
  by_cases h : j = i
  · rw [h, table_write_self]
  · rw [table_write_of_ne h]

@[simp] theorem temporary_write :
    ((b.write i word enabled).table j).temporary = (b.table j).temporary := by
  by_cases h : j = i
  · rw [h, table_write_self]
  · rw [table_write_of_ne h]

theorem usedCount_write : (b.write i word enabled).usedCount = b.usedCount := by
  unfold usedCount
  simp only [used_write]

theorem armed_write_true (hused : (b.table i).used = true) :
    (b.write i word true).armed = insert (b.table i).address b.armed := by
  ext a
  rw [Set.mem_insert_iff]
  constructor
  · rintro ⟨j, hj, henabled, haddress⟩
    by_cases h : j = i
    · left
      rw [← haddress, address_write, h]
    · right
      rw [table_write_of_ne h] at hj henabled haddress
      exact ⟨j, hj, henabled, haddress⟩
  · rintro (rfl | ⟨j, hj, henabled, haddress⟩)
    · exact ⟨i, used_write.trans hused, by rw [table_write_self], address_write⟩
    · refine ⟨j, used_write.trans hj, ?_, address_write.trans haddress⟩
      by_cases h : j = i
      · rw [h, table_write_self]
      · rw [table_write_of_ne h, henabled]

theorem armed_write_false (hused : (b.table i).used = true)
    (hunique : ∀ j, (b.table j).used = true → (b.table j).address = (b.table i).address → j = i) :
    (b.write i word false).armed = b.armed \ {(b.table i).address} := by
  ext a
  constructor
  · rintro ⟨j, hj, henabled, haddress⟩
    by_cases h : j = i
    · rw [h, table_write_self] at henabled
      cases henabled
    · rw [table_write_of_ne h] at hj henabled haddress
      refine ⟨⟨j, hj, henabled, haddress⟩, fun hsame => h (hunique j hj ?_)⟩
      rw [haddress, Set.mem_singleton_iff.mp hsame]
  · rintro ⟨⟨j, hj, henabled, haddress⟩, hne⟩
    have h : j ≠ i := by
      rintro rfl
      exact hne haddress.symm
    exact ⟨j, used_write.trans hj, by rw [table_write_of_ne h, henabled],
      address_write.trans haddress⟩

/-- Without patched entries nothing is armed. -/
theorem armed_of_disabled
    (hdisabled : ∀ i, (b.table i).used = true → (b.table i).enabled = false) : b.armed = ∅ := by
  ext a
  constructor
  · rintro ⟨i, hi, henabled, -⟩
    rw [hdisabled i hi] at henabled
    cases henabled
  · exact fun h => h.elim

end Writes

section Unpatch

variable (b : Breakpoints) (i j : Fin maxBreakpoints)

@[simp] theorem used_unpatchBp : ((b.unpatchBp i).table j).used = (b.table j).used := by
  unfold unpatchBp
  split
  · rfl
  · exact used_write

/-- The entry is disabled afterwards, and no other entry is enabled. -/
theorem enabled_unpatchBp (hused : (b.table j).used = true)
    (h : ((b.unpatchBp i).table j).enabled = true) : (b.table j).enabled = true ∧ j ≠ i := by
  unfold unpatchBp at h
  by_cases hji : j = i
  · rw [hji] at h hused
    split at h
    · rename_i hcond
      rw [hused, h] at hcond
      cases hcond
    · rw [table_write_self] at h
      cases h
  · refine ⟨?_, hji⟩
    split at h
    · exact h
    · rwa [table_write_of_ne hji] at h

theorem used_foldl_unpatchBp (loop : List (Fin maxBreakpoints)) :
    ((loop.foldl unpatchBp b).table j).used = (b.table j).used := by
  induction loop generalizing b with
  | nil => rfl
  | cons i loop ih => rw [List.foldl_cons, ih, used_unpatchBp]

@[simp] theorem used_unpatchAll : (b.unpatchAll.table j).used = (b.table j).used := by
  rw [unpatchAll, used_foldl_unpatchBp]

theorem enabled_foldl_unpatchBp (loop : List (Fin maxBreakpoints))
    (hused : (b.table j).used = true)
    (h : ((loop.foldl unpatchBp b).table j).enabled = true) :
    (b.table j).enabled = true ∧ j ∉ loop := by
  induction loop generalizing b with
  | nil => exact ⟨h, List.not_mem_nil⟩
  | cons i loop ih =>
    obtain ⟨henabled, hnot⟩ := ih (b.unpatchBp i) ((used_unpatchBp b i j).trans hused) h
    obtain ⟨hbefore, hji⟩ := enabled_unpatchBp b i j hused henabled
    exact ⟨hbefore, List.not_mem_cons_of_ne_of_not_mem hji hnot⟩

/-- No used entry is patched in after `dbg_unpatch_all`. -/
theorem disabled_unpatchAll (hused : (b.unpatchAll.table j).used = true) :
    (b.unpatchAll.table j).enabled = false := by
  rw [used_unpatchAll] at hused
  cases h : (b.unpatchAll.table j).enabled with
  | false => rfl
  | true =>
    rw [unpatchAll] at h
    exact absurd (mem_entries j) (enabled_foldl_unpatchBp b j _ hused h).2

@[simp] theorem used_restore (address : UInt32) :
    ((b.restore address).table j).used = (b.table j).used := by
  unfold restore
  split
  · exact used_write
  · rfl

/-- The TRAP handler enables nothing. -/
theorem disabled_restore (address : UInt32) (h : (b.table j).enabled = false) :
    ((b.restore address).table j).enabled = false := by
  unfold restore
  split
  · rename_i i _
    by_cases hji : j = i
    · rw [hji, table_write_self]
    · rw [table_write_of_ne hji, h]
  · exact h

theorem used_foldl_repatchBp (loop : List (Fin maxBreakpoints)) :
    ((loop.foldl repatchBp b).table j).used = (b.table j).used := by
  induction loop generalizing b with
  | nil => rfl
  | cons i loop ih =>
    rw [List.foldl_cons, ih, repatchBp]
    split
    · exact used_write
    · rfl

@[simp] theorem used_repatchAll : (b.repatchAll.table j).used = (b.table j).used := by
  rw [repatchAll, used_foldl_repatchBp]

/-- The loop over the entries patches every used entry that is not temporary. -/
theorem enabled_foldl_repatchBp (loop : List (Fin maxBreakpoints))
    (hused : (b.table j).used = true) (hpermanent : (b.table j).temporary = false)
    (h : j ∈ loop ∨ (b.table j).enabled = true) :
    ((loop.foldl repatchBp b).table j).enabled = true ∧
      ((loop.foldl repatchBp b).table j).address = (b.table j).address := by
  induction loop generalizing b with
  | nil => exact ⟨h.resolve_left List.not_mem_nil, rfl⟩
  | cons i loop ih =>
    by_cases hji : j = i
    · have hwrite : b.repatchBp i = b.write i trap15Opcode true := by
        rw [repatchBp, ← hji, hused, hpermanent]
        rfl
      have hrest := ih (b.repatchBp i) (by rw [hwrite, used_write, hused])
        (by rw [hwrite, temporary_write, hpermanent])
        (.inr (by rw [hwrite, hji, table_write_self]))
      exact ⟨hrest.1, hrest.2.trans (by rw [hwrite, address_write])⟩
    · have hsame : (b.repatchBp i).table j = b.table j := by
        unfold repatchBp
        split
        · exact table_write_of_ne hji
        · rfl
      have hrest := ih (b.repatchBp i) (by rw [hsame, hused]) (by rw [hsame, hpermanent])
        (h.imp (fun hmem => (List.mem_cons.mp hmem).resolve_left hji) (by rw [hsame]; exact id))
      exact ⟨hrest.1, hrest.2.trans (by rw [hsame])⟩

end Unpatch

namespace InStep

variable {program : Code} {b : Breakpoints}

/-- The trap is written over the word of a used entry. -/
theorem write_trap (h : b.InStep program) {i : Fin maxBreakpoints}
    (hused : (b.table i).used = true) : (b.write i trap15Opcode true).InStep program where
  unique j k hj hk haddress := by
    simp only [used_write, address_write] at hj hk haddress
    exact h.unique j k hj hk haddress
  count := h.count.trans (by rw [usedCount_write])
  code := by
    rw [armed_write_true hused, ← update_overlay_mark, ← h.code]
    rfl
  original j hj := by
    rw [used_write] at hj
    rw [original_write, address_write, h.original j hj]
  permanent j hj := by
    rw [used_write] at hj
    rw [temporary_write, h.permanent j hj]

/-- The word of a used entry is put back. -/
theorem write_original (h : b.InStep program) {i : Fin maxBreakpoints}
    (hused : (b.table i).used = true) :
    (b.write i (b.table i).original false).InStep program where
  unique j k hj hk haddress := by
    simp only [used_write, address_write] at hj hk haddress
    exact h.unique j k hj hk haddress
  count := h.count.trans (by rw [usedCount_write])
  code := by
    rw [armed_write_false hused fun j hj => h.unique j i hj hused, ← update_overlay_base,
      ← h.code, ← h.original i hused]
    rfl
  original j hj := by
    rw [used_write] at hj
    rw [original_write, address_write, h.original j hj]
  permanent j hj := by
    rw [used_write] at hj
    rw [temporary_write, h.permanent j hj]

theorem patchBp (h : b.InStep program) (i : Fin maxBreakpoints) :
    (b.patchBp i).InStep program := by
  unfold Breakpoints.patchBp
  split
  · exact h
  · rename_i hcond
    simp only [Bool.or_eq_true, Bool.not_eq_true', not_or, Bool.not_eq_false] at hcond
    exact h.write_trap hcond.1

theorem unpatchBp (h : b.InStep program) (i : Fin maxBreakpoints) :
    (b.unpatchBp i).InStep program := by
  unfold Breakpoints.unpatchBp
  split
  · exact h
  · rename_i hcond
    simp only [Bool.or_eq_true, Bool.not_eq_true', not_or, Bool.not_eq_false] at hcond
    exact h.write_original hcond.1

theorem repatchBp (h : b.InStep program) (i : Fin maxBreakpoints) :
    (b.repatchBp i).InStep program := by
  unfold Breakpoints.repatchBp
  split
  · rename_i hcond
    exact h.write_trap (Bool.and_eq_true_iff.mp hcond).1
  · exact h

theorem unpatchAll (h : b.InStep program) : b.unpatchAll.InStep program := by
  rw [Breakpoints.unpatchAll]
  exact List.foldlRecOn _ _ h fun _ hb i _ => hb.unpatchBp i

theorem repatchAll (h : b.InStep program) : b.repatchAll.InStep program := by
  rw [Breakpoints.repatchAll]
  exact List.foldlRecOn _ _ h fun _ hb i _ => hb.repatchBp i

/-- Every used entry is patched in after `dbg_repatch_all_from_trace`. -/
theorem armed_repatchAll (h : b.InStep program) {i : Fin maxBreakpoints}
    (hused : (b.table i).used = true) : (b.table i).address ∈ b.repatchAll.armed := by
  have hpatched := enabled_foldl_repatchBp b i entries hused (h.permanent i hused)
    (.inl (mem_entries i))
  exact ⟨i, (used_repatchAll b i).trans hused, hpatched⟩

theorem restore (h : b.InStep program) (address : UInt32) :
    (b.restore address).InStep program := by
  unfold Breakpoints.restore
  cases hfind : b.findBpByAddr address with
  | none => exact h
  | some i =>
    exact h.write_original (used_of_findBpByAddr hfind).1

/-- An entry that is not patched in says nothing about the code. -/
theorem armed_eq_of_table {b' : Breakpoints} {i : Fin maxBreakpoints}
    (hother : ∀ j, j ≠ i → b'.table j = b.table j)
    (hold : ¬ ((b.table i).used = true ∧ (b.table i).enabled = true))
    (hnew : ¬ ((b'.table i).used = true ∧ (b'.table i).enabled = true)) : b'.armed = b.armed := by
  ext a
  constructor
  · rintro ⟨j, hj, henabled, haddress⟩
    have h : j ≠ i := by
      rintro rfl
      exact hnew ⟨hj, henabled⟩
    rw [hother j h] at hj henabled haddress
    exact ⟨j, hj, henabled, haddress⟩
  · rintro ⟨j, hj, henabled, haddress⟩
    have h : j ≠ i := by
      rintro rfl
      exact hold ⟨hj, henabled⟩
    rw [← hother j h] at hj henabled haddress
    exact ⟨j, hj, henabled, haddress⟩

/-- A free entry takes an address that no entry has. -/
theorem insertBp (h : b.InStep program) {i : Fin maxBreakpoints} {address : UInt32}
    (hfree : (b.table i).used = false)
    (hfresh : ∀ j, (b.table j).used = true → (b.table j).address ≠ address) :
    (b.insertBp i address).InStep program := by
  have hself : (b.insertBp i address).table i = ⟨address, b.code address, false, false, true⟩ :=
    Function.update_self ..
  have hother : ∀ j, j ≠ i → (b.insertBp i address).table j = b.table j := fun j hj =>
    Function.update_of_ne hj ..
  have hword : b.code address = program address := by
    rw [h.code]
    refine overlay_of_notMem ?_
    rintro ⟨j, hj, -, haddress⟩
    exact hfresh j hj haddress
  constructor
  · intro j k hj hk haddress
    by_cases hji : j = i <;> by_cases hki : k = i
    · rw [hji, hki]
    · rw [hji, hself, hother k hki] at haddress
      rw [hother k hki] at hk
      exact absurd haddress.symm (hfresh k hk)
    · rw [hki, hself, hother j hji] at haddress
      rw [hother j hji] at hj
      exact absurd haddress (hfresh j hj)
    · rw [hother j hji] at hj haddress
      rw [hother k hki] at hk haddress
      exact h.unique j k hj hk haddress
  · have hset : (Finset.univ.filter fun j => ((b.insertBp i address).table j).used = true) =
        insert i (Finset.univ.filter fun j => (b.table j).used = true) := by
      ext j
      by_cases hj : j = i
      · simp [hj, hself]
      · simp [hj, hother j hj]
    change b.count + 1 = _
    rw [usedCount, hset, Finset.card_insert_of_notMem (by simp [hfree]), h.count, usedCount]
    rfl
  · rw [armed_eq_of_table hother (by simp [hfree]) (by simp [hself]), ← h.code]
    rfl
  · intro j hj
    by_cases hji : j = i
    · rw [hji, hself]
      exact hword
    · rw [hother j hji] at hj ⊢
      exact h.original j hj
  · intro j hj
    by_cases hji : j = i
    · rw [hji, hself]
    · rw [hother j hji] at hj ⊢
      exact h.permanent j hj

/-- A used entry that is not patched in is given up. -/
theorem releaseBp (h : b.InStep program) {i : Fin maxBreakpoints}
    (hused : (b.table i).used = true) (hdisabled : (b.table i).enabled = false) :
    (b.releaseBp i).InStep program := by
  have hself : (b.releaseBp i).table i = { b.table i with used := false } :=
    Function.update_self ..
  have hother : ∀ j, j ≠ i → (b.releaseBp i).table j = b.table j := fun j hj =>
    Function.update_of_ne hj ..
  have hkept : ∀ j, ((b.releaseBp i).table j).used = true →
      (b.releaseBp i).table j = b.table j ∧ (b.table j).used = true := by
    intro j hj
    by_cases hji : j = i
    · rw [hji, hself] at hj
      cases hj
    · rw [hother j hji] at hj
      exact ⟨hother j hji, hj⟩
  constructor
  · intro j k hj hk haddress
    rw [(hkept j hj).1, (hkept k hk).1] at haddress
    exact h.unique j k (hkept j hj).2 (hkept k hk).2 haddress
  · have hset : (Finset.univ.filter fun j => ((b.releaseBp i).table j).used = true) =
        (Finset.univ.filter fun j => (b.table j).used = true).erase i := by
      ext j
      by_cases hj : j = i
      · simp [hj, hself]
      · simp [hj, hother j hj]
    have hmem : i ∈ Finset.univ.filter fun j => (b.table j).used = true := by simp [hused]
    have hpos := Finset.card_pos.mpr ⟨i, hmem⟩
    change b.count - 1 = _
    rw [usedCount, hset, Finset.card_erase_of_mem hmem, h.count, usedCount]
    omega
  · rw [armed_eq_of_table hother (by simp [hdisabled]) (by simp [hself]), ← h.code]
    rfl
  · intro j hj
    rw [(hkept j hj).1]
    exact h.original j (hkept j hj).2
  · intro j hj
    rw [(hkept j hj).1]
    exact h.permanent j (hkept j hj).2

/-- A used entry is taken out of the code and given up. -/
theorem clearBp (h : b.InStep program) {i : Fin maxBreakpoints}
    (hused : (b.table i).used = true) : ((b.unpatchBp i).releaseBp i).InStep program := by
  refine (h.unpatchBp i).releaseBp ((used_unpatchBp b i i).trans hused) ?_
  cases henabled : ((b.unpatchBp i).table i).enabled with
  | false => rfl
  | true => exact absurd rfl (enabled_unpatchBp b i i hused henabled).2

/-- With no entry patched in the code is the program. -/
theorem code_of_disabled (h : b.InStep program)
    (hdisabled : ∀ i, (b.table i).used = true → (b.table i).enabled = false) :
    b.code = program := by
  rw [h.code, armed_of_disabled hdisabled, overlay_empty]

/-- No entry is temporary, so `dbg_poll` removes none. -/
theorem dropTemporary_eq_self (h : b.InStep program) : b.dropTemporary = b := by
  rw [dropTemporary]
  refine List.foldlRecOn (motive := fun b' => b' = b) _ _ rfl ?_
  rintro b' rfl i -
  unfold dropTemporaryBp
  rw [if_neg]
  intro hcond
  obtain ⟨hused, htemporary⟩ := Bool.and_eq_true_iff.mp hcond
  rw [h.permanent i hused] at htemporary
  cases htemporary

/-- A table without used entries over the plain program. -/
theorem of_unused (hunused : ∀ i, (b.table i).used = false) (hcount : b.count = 0)
    (hcode : b.code = program) : b.InStep program where
  unique i _ hi := by
    rw [hunused i] at hi
    cases hi
  count := by
    have hset : (Finset.univ.filter fun i => (b.table i).used = true) = ∅ := by
      ext i
      simp [hunused i]
    rw [hcount, usedCount, hset]
    rfl
  code := by
    have hdisabled : ∀ i, (b.table i).used = true → (b.table i).enabled = false := by
      intro i hi
      rw [hunused i] at hi
      cases hi
    rw [armed_of_disabled hdisabled, overlay_empty, hcode]
  original i hi := by
    rw [hunused i] at hi
    cases hi
  permanent i hi := by
    rw [hunused i] at hi
    cases hi

/-- The entries are given up when none is patched in: the code is the program. -/
theorem releaseAll (h : b.InStep program)
    (hdisabled : ∀ i, (b.table i).used = true → (b.table i).enabled = false) :
    b.releaseAll.InStep program :=
  of_unused (fun _ => rfl) rfl (h.code_of_disabled hdisabled)

end InStep

end Breakpoints

end AmigaDevbench.Debugger
