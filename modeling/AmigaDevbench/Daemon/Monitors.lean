import AmigaDevbench.Core.Runs
import AmigaDevbench.Core.Slots
import AmigaDevbench.Daemon.Debugger.Machine

/-!
# The monitors of the daemon

`chipwrite_logger.c` compares the custom registers with a snapshot and reports the ones that have
changed. `pool_tracker.c` counts the allocations of memory pools in a table that its patch routines
write. Both fill their lines with entries behind bars.
-/

namespace AmigaDevbench.Daemon.Monitors

open AmigaDevbench.Debugger (hex4)

/-! ### Lines of entries -/

/-- The loops that write entries, each behind a bar, up to the first that does not fit. -/
def appendFields (margin : Nat) : Text → List Text → Text
  | line, [] => line
  | line, entry :: entries =>
    if maxLine - margin ≤ line.length then line
    else if maxLine - 2 ≤ line.length + 1 + entry.length then line
    else appendFields margin (line ++ '|' :: entry) entries

/-- Entries that are short enough are all written. -/
theorem appendFields_eq {margin k : Nat} (hmargin : 2 ≤ margin) (entries : List Text) :
    ∀ line, (∀ entry ∈ entries, entry.length < k) →
      line.length + k * entries.length < maxLine - margin →
      appendFields margin line entries = line ++ entries.flatMap ('|' :: ·) := by
  induction entries with
  | nil => exact fun line _ _ => (List.append_nil line).symm
  | cons entry entries ih =>
    intro line hentries hroom
    have hentry := hentries entry List.mem_cons_self
    have hmax : maxLine = 8192 := rfl
    rw [List.length_cons, Nat.mul_succ] at hroom
    rw [appendFields, if_neg (by omega), if_neg (by omega),
      ih _ (fun e he => hentries e (List.mem_cons_of_mem _ he))
        (by rw [List.length_append, List.length_cons]; omega), List.flatMap_cons, List.append_assoc]

/-! ### Chip registers -/

/-- `g_regs`: offsets from `$DFF000` and names. -/
def chipRegs : List (Nat × String) :=
  [(0x002, "DMACONR"), (0x004, "VPOSR"), (0x006, "VHPOSR"), (0x00A, "JOY0DAT"), (0x00C, "JOY1DAT"),
    (0x00E, "CLXDAT"), (0x010, "ADKCONR"), (0x012, "POT0DAT"), (0x014, "POT1DAT"),
    (0x016, "POTGOR"), (0x018, "SERDATR"), (0x01C, "INTENAR"), (0x01E, "INTREQR")]

/-- `NUM_REGS` -/
abbrev numRegs : Nat := 13

/-- The name of a register. -/
def regName (i : Fin numRegs) : Text := ((chipRegs.map (·.2)).getD i "").toList

/-- An array of register values. -/
abbrev Values := Fin numRegs → UInt16

/-- `read_all_regs`, where the registers have these contents at the time of each read. -/
def readAllRegs (custom : Fin numRegs → Nat → UInt16) : Values :=
  fun i => custom i ((chipRegs.map (·.1)).getD i 0)

/-- The static variables of `chipwrite_logger.c`. -/
structure ChipLog where
  active : Bool
  prev : Values
  tick : UInt32

/-- `chiplog_init` -/
def ChipLog.initial : ChipLog := ⟨false, fun _ => 0, 0⟩

/-- `chiplog_handle_start` -/
def ChipLog.handleStart (custom : Fin numRegs → Nat → UInt16) : ChipLog × Text :=
  (⟨true, readAllRegs custom, 0⟩, "OK|CHIPLOG|started".toList)

/-- `chiplog_handle_stop` -/
def ChipLog.handleStop (s : ChipLog) : ChipLog × Text :=
  ({ s with active := false }, "OK|CHIPLOG|stopped".toList)

/-- An entry of the snapshot. -/
def valueEntry (i : Fin numRegs) (value : UInt16) : Text :=
  regName i ++ ':' :: hex4 value.toNat

/-- `chiplog_handle_snapshot` -/
def handleSnapshot (custom : Fin numRegs → Nat → UInt16) : Text :=
  appendFields 30 "CHIPLOG".toList
    ((List.finRange numRegs).map fun i => valueEntry i (readAllRegs custom i))

/-- An entry of the change report. -/
def changeEntry (i : Fin numRegs) (old new : UInt16) : Text :=
  regName i ++ ':' :: (hex4 old.toNat ++ ':' :: hex4 new.toNat)

/-- The registers that have changed. -/
def changed (old new : Values) : List (Fin numRegs) :=
  (List.finRange numRegs).filter fun i => new i != old i

/-- The line of the changes. -/
def changeLine (tick : UInt32) (old new : Values) : Text :=
  appendFields 40 ("CHIPLOGCHANGE|".toList ++ decimal tick.toNat)
    ((changed old new).map fun i => changeEntry i (old i) (new i))

/-- `chiplog_poll` -/
def ChipLog.poll (s : ChipLog) (custom : Fin numRegs → Nat → UInt16) : ChipLog × Option Text :=
  if s.active then
    let current := readAllRegs custom
    let tick := s.tick + 1
    if (changed s.prev current).isEmpty then ({ s with tick }, none)
    else ({ s with tick, prev := current }, some (changeLine tick s.prev current))
  else (s, none)

/-- The commands, and the polls of the main loop, with what the registers contain. -/
inductive ChipLabel where
  | start (custom : Fin numRegs → Nat → UInt16)
  | stop
  | snapshot (custom : Fin numRegs → Nat → UInt16)
  | poll (custom : Fin numRegs → Nat → UInt16)

/-- What happens, and the lines that are sent. -/
def ChipLog.step (s : ChipLog) : ChipLabel → ChipLog × List Text
  | .start custom => ((handleStart custom).1, [(handleStart custom).2])
  | .stop => (s.handleStop.1, [s.handleStop.2])
  | .snapshot custom => (s, [handleSnapshot custom])
  | .poll custom => ((s.poll custom).1, (s.poll custom).2.toList)

/-- The logger behind a run, and all lines of the run. -/
def ChipLog.run (s : ChipLog) : List ChipLabel → ChipLog × List Text
  | [] => (s, [])
  | label :: labels =>
    let next := s.step label
    let last := ChipLog.run next.1 labels
    (last.1, next.2 ++ last.2)

/-- The readings of the logger: the first since it was started, and the last while it ran. -/
structure Readings where
  active : Bool
  first : Values
  latest : Values

/-- Before the logger has been started, it has its zeros. -/
def Readings.initial : Readings := ⟨false, fun _ => 0, fun _ => 0⟩

def Readings.after (seen : Readings) : ChipLabel → Readings
  | .start custom => ⟨true, readAllRegs custom, readAllRegs custom⟩
  | .stop => { seen with active := false }
  | .snapshot _ => seen
  | .poll custom => if seen.active then { seen with latest := readAllRegs custom } else seen

theorem changed_isEmpty {old new : Values} : (changed old new).isEmpty = true ↔ new = old := by
  simp only [changed, List.isEmpty_iff, List.filter_eq_nil_iff, List.mem_finRange, forall_const,
    bne_iff_ne, ne_eq, not_not, funext_iff]

/-! ### Pools -/

/-- `struct PoolEntry` of an active entry. -/
structure PoolEntry where
  pool : UInt32
  puddleSize : UInt32
  threshSize : UInt32
  allocCount : UInt32
  totalAlloc : UInt32
  deriving DecidableEq

/-- The entry of a pool behind an allocation. -/
def PoolEntry.afterAlloc (size : UInt32) (pe : PoolEntry) : PoolEntry :=
  { pe with allocCount := pe.allocCount + 1, totalAlloc := pe.totalAlloc + size }

/-- The entry of a pool behind the release of an allocation. -/
def PoolEntry.afterFree (size : UInt32) (pe : PoolEntry) : PoolEntry :=
  { pe with
    allocCount := if pe.allocCount > 0 then pe.allocCount - 1 else pe.allocCount
    totalAlloc := if pe.totalAlloc ≥ size then pe.totalAlloc - size else 0 }

/-- `MAX_POOLS` -/
abbrev maxPools : Nat := 32

/-- `g_pools` -/
abbrev PoolTable := Slots maxPools PoolEntry

namespace PoolTable

/-- `find_pool` -/
def findPool (t : PoolTable) (pool : UInt32) : Option (Fin maxPools) := Slots.find t (·.pool = pool)

/-- The record of `patch_CreatePool`. -/
def recordCreate (t : PoolTable) (pool puddle thresh : UInt32) : PoolTable :=
  match Slots.findFree t with
  | some i => Slots.put t i ⟨pool, puddle, thresh, 0, 0⟩
  | none => t

/-- The record of `patch_DeletePool`. -/
def recordDelete (t : PoolTable) (pool : UInt32) : PoolTable :=
  match t.findPool pool with
  | some i => Slots.clear t i
  | none => t

/-- The record of `patch_AllocPooled`. -/
def recordAlloc (t : PoolTable) (pool size : UInt32) : PoolTable :=
  match t.findPool pool with
  | some i => Slots.modify t i (PoolEntry.afterAlloc size)
  | none => t

/-- The record of `patch_FreePooled`. -/
def recordFree (t : PoolTable) (pool size : UInt32) : PoolTable :=
  match t.findPool pool with
  | some i => Slots.modify t i (PoolEntry.afterFree size)
  | none => t

end PoolTable

/-- An entry of `POOLS`. -/
def PoolEntry.entry (pe : PoolEntry) : Text :=
  hex8 pe.pool.toNat ++ ':' :: (decimal pe.puddleSize.toNat ++ ':' ::
    (decimal pe.threshSize.toNat ++ ':' :: (decimal pe.allocCount.toNat ++ ':' ::
      decimal pe.totalAlloc.toNat)))

/-- `pool_handle_list` -/
def poolHandleList (t : PoolTable) : Text :=
  appendFields 60 ("POOLS|".toList ++ decimal (Slots.entries t).length)
    ((Slots.entries t).map PoolEntry.entry)

/-! ### The pools of the system -/

/-- The tracker, and the pools that there are with the sizes of their allocations. -/
structure Tracker where
  active : Bool
  pools : PoolTable
  /-- The allocations of each pool. -/
  live : UInt32 → Option (List UInt32)
  /-- The pools that were created under the tracker's eyes since it was started. -/
  created : List UInt32
  /-- One of them found the table full. -/
  overflowed : Bool

/-- `pool_init`, whatever pools there are. -/
def Tracker.initial (live : UInt32 → Option (List UInt32)) : Tracker :=
  ⟨false, Slots.empty, live, [], false⟩

/-- The calls of all programs, each by way of the patch routine or past it, and the commands. -/
inductive PoolLabel where
  | create (pool puddle thresh : UInt32) (patched : Bool)
  | delete (pool : UInt32) (patched : Bool)
  | alloc (pool size : UInt32) (patched : Bool)
  | free (pool size : UInt32) (patched : Bool)
  | start
  | stop

/-- The sizes add up to what an address space holds. -/
def Fits (sizes : List UInt32) : Prop :=
  sizes.length < 2 ^ 32 ∧ (sizes.map UInt32.toNat).sum < 2 ^ 32

instance (sizes : List UInt32) : Decidable (Fits sizes) := inferInstanceAs (Decidable (_ ∧ _))

/-- The record of a call by way of the patch routine. -/
def Tracker.record (s : Tracker) (patched : Bool) (f : PoolTable → PoolTable) : PoolTable :=
  if patched then f s.pools else s.pools

/-- `CreatePool` returns a pool that is new, the others get one that there is, and memory is freed
with the size that it was allocated with. -/
def Tracker.step (s : Tracker) : PoolLabel → Option Tracker
  | .create pool puddle thresh patched =>
    if s.live pool = none then
      some
        { s with
          live := Function.update s.live pool (some [])
          pools := s.record patched (·.recordCreate pool puddle thresh)
          created := if patched then pool :: s.created else s.created
          overflowed := s.overflowed || patched && (Slots.findFree s.pools).isNone }
    else none
  | .delete pool patched =>
    if (s.live pool).isSome then
      some
        { s with
          live := Function.update s.live pool none
          pools := s.record patched (·.recordDelete pool)
          created := s.created.filter (· ≠ pool) }
    else none
  | .alloc pool size patched =>
    match s.live pool with
    | some sizes =>
      if Fits (size :: sizes) then
        some
          { s with
            live := Function.update s.live pool (some (size :: sizes))
            pools := s.record patched (·.recordAlloc pool size) }
      else none
    | none => none
  | .free pool size patched =>
    match s.live pool with
    | some sizes =>
      if size ∈ sizes then
        some
          { s with
            live := Function.update s.live pool (some (sizes.erase size))
            pools := s.record patched (·.recordFree pool size) }
      else none
    | none => none
  | .start =>
    some (if s.active then s
      else { s with active := true, pools := Slots.empty, created := [], overflowed := false })
  | .stop => some { s with active := false }

/-- An entry counts the allocations of its pool. -/
structure Counts (sizes : List UInt32) (pe : PoolEntry) : Prop where
  fits : Fits sizes
  allocCount : pe.allocCount.toNat = sizes.length
  totalAlloc : pe.totalAlloc.toNat = (sizes.map UInt32.toNat).sum

/-- The table is right about the pools. -/
structure Exact (s : Tracker) : Prop where
  /-- Each entry is about a pool that there is. -/
  counts (i : Fin maxPools) (pe : PoolEntry) (h : s.pools i = some pe) :
    ∃ sizes, s.live pe.pool = some sizes ∧ Counts sizes pe
  /-- No pool has two entries. -/
  unique (i j : Fin maxPools) (pe pe' : PoolEntry) (h : s.pools i = some pe)
    (h' : s.pools j = some pe') (heq : pe.pool = pe'.pool) : i = j
  /-- The entries are about the pools that were created. -/
  known (i : Fin maxPools) (pe : PoolEntry) (h : s.pools i = some pe) : pe.pool ∈ s.created
  /-- No pool is missing, unless one found the table full. -/
  complete (h : s.overflowed = false) (pool : UInt32) (hmem : pool ∈ s.created) :
    (s.pools.findPool pool).isSome

/-- A call that goes through, on a pool of the table, takes the patch routine while the tracker
runs. -/
def Patched (s : Tracker) (label : PoolLabel) : Prop :=
  (s.step label).isSome → s.active = true →
    match label with
    | .delete pool patched | .alloc pool _ patched | .free pool _ patched =>
      (s.pools.findPool pool).isSome → patched = true
    | .create .. | .start | .stop => True

section Exactness

variable {s s' : Tracker} {i : Fin maxPools} {pe : PoolEntry} {pool size : UInt32}
  {sizes : List UInt32}

theorem findPool_isSome {t : PoolTable} :
    (t.findPool pool).isSome ↔ ∃ i pe, t i = some pe ∧ pe.pool = pool := by
  simp only [PoolTable.findPool, Slots.find_isSome, decide_eq_true_eq]

/-- The entry of a pool is found. -/
theorem Exact.findPool (h : Exact s) (hi : s.pools i = some pe) :
    s.pools.findPool pe.pool = some i :=
  Slots.find_of_unique hi (decide_eq_true rfl) fun j pe' hj hpool =>
    h.unique j i pe' pe hj hi (of_decide_eq_true hpool)

theorem exact_empty (active : Bool) (live : UInt32 → Option (List UInt32)) :
    Exact ⟨active, Slots.empty, live, [], false⟩ where
  counts _ _ h := by cases h
  unique _ _ _ _ h := by cases h
  known _ _ h := by cases h
  complete _ _ h := by cases h

/-- A pool that is new has no entry. -/
theorem Exact.ne_of_new (h : Exact s) (hnew : s.live pool = none) (hi : s.pools i = some pe) :
    pe.pool ≠ pool := by
  obtain ⟨sizes, hlive, _⟩ := h.counts i pe hi
  rintro rfl
  cases hnew.symm.trans hlive

/-- What becomes of another pool does not matter to an entry. -/
theorem Exact.counts_update (h : Exact s) (hi : s.pools i = some pe) (hne : pe.pool ≠ pool)
    (allocations : Option (List UInt32)) :
    ∃ sizes, Function.update s.live pool allocations pe.pool = some sizes ∧ Counts sizes pe := by
  rw [Function.update_of_ne hne]
  exact h.counts i pe hi

/-! #### New pools -/

/-- A new pool goes past the tracker. -/
theorem Exact.create_unpatched (h : Exact s) (hnew : s.live pool = none) :
    Exact { s with live := Function.update s.live pool (some []) } where
  counts _ _ hi := h.counts_update hi (h.ne_of_new hnew hi) _
  unique := h.unique
  known := h.known
  complete := h.complete

/-- A new pool gets the first free entry. -/
theorem Exact.create_patched (h : Exact s) (hnew : s.live pool = none) (puddle thresh : UInt32) :
    Exact
      { s with
        live := Function.update s.live pool (some [])
        pools := s.pools.recordCreate pool puddle thresh
        created := pool :: s.created
        overflowed := s.overflowed || (Slots.findFree s.pools).isNone } := by
  cases hfree : Slots.findFree s.pools with
  | none =>
    have htable : s.pools.recordCreate pool puddle thresh = s.pools := by
      rw [PoolTable.recordCreate, hfree]
    rw [htable]
    refine ⟨fun _ _ hi => h.counts_update hi (h.ne_of_new hnew hi) _, h.unique,
      fun i pe hi => List.mem_cons_of_mem _ (h.known i pe hi), fun hcomplete => ?_⟩
    simp at hcomplete
  | some k =>
    have hk := Slots.findFree_eq_some hfree
    have htable : s.pools.recordCreate pool puddle thresh =
        Slots.put s.pools k ⟨pool, puddle, thresh, 0, 0⟩ := by
      rw [PoolTable.recordCreate, hfree]
    rw [htable]
    have hcases (i : Fin maxPools) (pe : PoolEntry)
        (hi : Slots.put s.pools k ⟨pool, puddle, thresh, 0, 0⟩ i = some pe) :
        i = k ∧ pe = ⟨pool, puddle, thresh, 0, 0⟩ ∨ i ≠ k ∧ s.pools i = some pe := by
      by_cases hik : i = k
      · subst hik
        rw [Slots.put_self] at hi
        exact .inl ⟨rfl, (Option.some.inj hi).symm⟩
      · rw [Slots.put_of_ne hik] at hi
        exact .inr ⟨hik, hi⟩
    refine ⟨?_, ?_, ?_, ?_⟩
    · intro i pe hi
      rcases hcases i pe hi with ⟨rfl, rfl⟩ | ⟨_, hi⟩
      · exact ⟨[], Function.update_self .., ⟨by decide, by decide⟩, rfl, rfl⟩
      · exact h.counts_update hi (h.ne_of_new hnew hi) _
    · intro i j pe pe' hi hj heq
      rcases hcases i pe hi with ⟨rfl, rfl⟩ | ⟨_, hfirst⟩
      · rcases hcases j pe' hj with ⟨rfl, _⟩ | ⟨_, hold⟩
        · rfl
        · exact absurd heq.symm (h.ne_of_new hnew hold)
      · rcases hcases j pe' hj with ⟨rfl, rfl⟩ | ⟨_, hold⟩
        · exact absurd heq (h.ne_of_new hnew hfirst)
        · exact h.unique i j pe pe' hfirst hold heq
    · intro i pe hi
      rcases hcases i pe hi with ⟨rfl, rfl⟩ | ⟨_, hi⟩
      · exact List.mem_cons_self
      · exact List.mem_cons_of_mem _ (h.known i pe hi)
    · intro hcomplete other hmem
      rw [findPool_isSome]
      rcases List.mem_cons.mp hmem with rfl | hold
      · exact ⟨k, _, Slots.put_self, rfl⟩
      · obtain ⟨i, pe, hi, hpool⟩ := findPool_isSome.mp
          (h.complete (Bool.or_eq_false_iff.mp hcomplete).1 other hold)
        have hik : i ≠ k := by
          rintro rfl
          cases hk.symm.trans hi
        exact ⟨i, pe, (Slots.put_of_ne hik).trans hi, hpool⟩

/-! #### Pools that go -/

/-- The table without a pool. -/
theorem Exact.delete (h : Exact s) {t : PoolTable}
    (ht : ∀ j pe, t j = some pe ↔ s.pools j = some pe ∧ pe.pool ≠ pool) :
    Exact
      { s with
        live := Function.update s.live pool none
        pools := t
        created := s.created.filter (· ≠ pool) } where
  counts i pe hi := by
    obtain ⟨hold, hne⟩ := (ht i pe).mp hi
    exact h.counts_update hold hne _
  unique i j pe pe' hi hj := h.unique i j pe pe' ((ht i pe).mp hi).1 ((ht j pe').mp hj).1
  known i pe hi := by
    obtain ⟨hold, hne⟩ := (ht i pe).mp hi
    exact List.mem_filter.mpr ⟨h.known i pe hold, decide_eq_true hne⟩
  complete hcomplete other hmem := by
    obtain ⟨hold, hne⟩ := List.mem_filter.mp hmem
    obtain ⟨i, pe, hi, rfl⟩ := findPool_isSome.mp (h.complete hcomplete other hold)
    exact findPool_isSome.mpr ⟨i, pe, (ht i pe).mpr ⟨hi, of_decide_eq_true hne⟩, rfl⟩

theorem Exact.recordDelete_iff (h : Exact s) (j : Fin maxPools) (pe : PoolEntry) :
    s.pools.recordDelete pool j = some pe ↔ s.pools j = some pe ∧ pe.pool ≠ pool := by
  unfold PoolTable.recordDelete
  cases hfind : s.pools.findPool pool with
  | none =>
    refine ⟨fun hj => ⟨hj, fun heq => ?_⟩, fun hj => hj.1⟩
    have hsome := findPool_isSome.mpr ⟨j, pe, hj, heq⟩
    rw [hfind] at hsome
    cases hsome
  | some i =>
    obtain ⟨found, hi, hpool⟩ := Slots.find_eq_some hfind
    have hpool : found.pool = pool := of_decide_eq_true hpool
    by_cases hji : j = i
    · subst hji
      refine iff_of_false (by simp) fun hj => hj.2 ?_
      rw [← hpool, Option.some.inj (hj.1.symm.trans hi)]
    · simp only [Slots.clear_of_ne hji]
      exact ⟨fun hj => ⟨hj, fun heq => hji (h.unique j i pe found hj hi (heq.trans hpool.symm))⟩,
        fun hj => hj.1⟩

/-! #### Allocations -/

/-- The entries of a pool change. -/
def tally (pool : UInt32) (f : PoolEntry → PoolEntry) (pe : PoolEntry) : PoolEntry :=
  if pe.pool = pool then f pe else pe

theorem Exact.tally (h : Exact s) {f : PoolEntry → PoolEntry} {t : PoolTable}
    {sizes' : List UInt32} (hpool : ∀ pe, (f pe).pool = pe.pool)
    (ht : ∀ j, t j = (s.pools j).map (tally pool f)) (hlive : s.live pool = some sizes)
    (hcounts : ∀ pe, Counts sizes pe → Counts sizes' (f pe)) :
    Exact { s with live := Function.update s.live pool (some sizes'), pools := t } := by
  have hkeeps (pe : PoolEntry) : (Monitors.tally pool f pe).pool = pe.pool := by
    unfold Monitors.tally
    split
    · exact hpool pe
    · rfl
  refine ⟨?_, ?_, ?_, ?_⟩
  · intro i pe' hi
    obtain ⟨pe, hold, rfl⟩ := Option.map_eq_some_iff.mp ((ht i).symm.trans hi)
    by_cases heq : pe.pool = pool
    · obtain ⟨old, hbefore, hcount⟩ := h.counts i pe hold
      have hsizes : old = sizes := by
        rw [heq, hlive] at hbefore
        exact (Option.some.inj hbefore).symm
      refine ⟨sizes', by rw [hkeeps, heq]; exact Function.update_self .., ?_⟩
      rw [Monitors.tally, if_pos heq]
      exact hcounts pe (hsizes ▸ hcount)
    · rw [Monitors.tally, if_neg heq]
      exact h.counts_update hold heq _
  · intro i j pe pe' hi hj heq
    obtain ⟨old, hold, rfl⟩ := Option.map_eq_some_iff.mp ((ht i).symm.trans hi)
    obtain ⟨old', hold', rfl⟩ := Option.map_eq_some_iff.mp ((ht j).symm.trans hj)
    rw [hkeeps, hkeeps] at heq
    exact h.unique i j old old' hold hold' heq
  · intro i pe hi
    obtain ⟨old, hold, rfl⟩ := Option.map_eq_some_iff.mp ((ht i).symm.trans hi)
    rw [hkeeps]
    exact h.known i old hold
  · intro hcomplete other hmem
    obtain ⟨i, pe, hi, rfl⟩ := findPool_isSome.mp (h.complete hcomplete other hmem)
    exact findPool_isSome.mpr ⟨i, _, (ht i).trans (congrArg (Option.map _) hi), hkeeps pe⟩

/-- The record of a call on a pool. -/
theorem Exact.modify_found (h : Exact s) (f : PoolEntry → PoolEntry) (j : Fin maxPools) :
    (match s.pools.findPool pool with
      | some i => Slots.modify s.pools i f
      | none => s.pools) j = (s.pools j).map (Monitors.tally pool f) := by
  have hother (hne : ∀ pe, s.pools j = some pe → pe.pool ≠ pool) :
      s.pools j = (s.pools j).map (Monitors.tally pool f) := by
    cases hj : s.pools j with
    | none => rfl
    | some pe => rw [Option.map_some, Monitors.tally, if_neg (hne pe hj)]
  cases hfind : s.pools.findPool pool with
  | none =>
    refine hother fun pe hj heq => ?_
    have hsome := findPool_isSome.mpr ⟨j, pe, hj, heq⟩
    rw [hfind] at hsome
    cases hsome
  | some i =>
    obtain ⟨found, hi, hpool⟩ := Slots.find_eq_some hfind
    have hpool : found.pool = pool := of_decide_eq_true hpool
    by_cases hji : j = i
    · subst hji
      simp only [Slots.modify_self, hi, Option.map_some, Monitors.tally, if_pos hpool]
    · simp only [Slots.modify_of_ne hji]
      exact hother fun pe hj heq => hji (h.unique j i pe found hj hi (heq.trans hpool.symm))

/-- A call past the tracker on a pool that it does not know. -/
theorem map_tally_of_unknown (hunknown : ¬ (s.pools.findPool pool).isSome)
    (f : PoolEntry → PoolEntry) (j : Fin maxPools) :
    s.pools j = (s.pools j).map (Monitors.tally pool f) := by
  cases hj : s.pools j with
  | none => rfl
  | some pe =>
    have hne : pe.pool ≠ pool := fun heq => hunknown (findPool_isSome.mpr ⟨j, pe, hj, heq⟩)
    rw [Option.map_some, Monitors.tally, if_neg hne]

theorem counts_alloc (hfits : Fits (size :: sizes)) (pe : PoolEntry) (h : Counts sizes pe) :
    Counts (size :: sizes) (pe.afterAlloc size) := by
  obtain ⟨hlength, hsum⟩ := hfits
  rw [List.length_cons] at hlength
  rw [List.map_cons, List.sum_cons] at hsum
  refine ⟨⟨hlength, hsum⟩, ?_, ?_⟩
  · rw [PoolEntry.afterAlloc, UInt32.toNat_add, h.allocCount, List.length_cons]
    exact Nat.mod_eq_of_lt hlength
  · rw [PoolEntry.afterAlloc, UInt32.toNat_add, h.totalAlloc, List.map_cons, List.sum_cons,
      Nat.add_comm]
    exact Nat.mod_eq_of_lt hsum

theorem counts_free (hmem : size ∈ sizes) (pe : PoolEntry) (h : Counts sizes pe) :
    Counts (sizes.erase size) (pe.afterFree size) := by
  have hlength := List.length_erase_of_mem hmem
  have hpos := List.length_pos_of_mem hmem
  have hsum : size.toNat + ((sizes.erase size).map UInt32.toNat).sum =
      (sizes.map UInt32.toNat).sum := by
    have hperm := (List.perm_cons_erase hmem).map UInt32.toNat
    rw [hperm.sum_nat, List.map_cons, List.sum_cons]
  have hcount : pe.allocCount > 0 := by
    rw [gt_iff_lt, UInt32.lt_iff_toNat_lt, h.allocCount]
    exact hpos
  have htotal : pe.totalAlloc ≥ size := by
    rw [ge_iff_le, UInt32.le_iff_toNat_le, h.totalAlloc]
    omega
  obtain ⟨hlen, hbound⟩ := h.fits
  refine ⟨⟨by omega, by omega⟩, ?_, ?_⟩
  · rw [PoolEntry.afterFree, if_pos hcount, UInt32.toNat_sub_of_le _ _ (by
      rw [UInt32.le_iff_toNat_le, h.allocCount]; exact hpos), h.allocCount, hlength]
    rfl
  · rw [PoolEntry.afterFree, if_pos htotal, UInt32.toNat_sub_of_le _ _ htotal, h.totalAlloc]
    omega

/-! #### Steps -/

/-- The record of a call that takes the patch routine, or that the table has no entry for. -/
theorem Exact.tally_record (h : Exact s) {f : PoolEntry → PoolEntry} {g : PoolTable → PoolTable}
    (hg : ∀ t, g t = match t.findPool pool with
      | some i => Slots.modify t i f
      | none => t) {patched : Bool}
    (hpatched : (s.pools.findPool pool).isSome → patched = true) (j : Fin maxPools) :
    s.record patched g j = (s.pools j).map (Monitors.tally pool f) := by
  unfold Tracker.record
  split
  · rw [hg]
    exact h.modify_found f j
  · rename_i hbypass
    exact map_tally_of_unknown (fun hknown => hbypass (hpatched hknown)) f j

theorem exact_step {label : PoolLabel} (h : s.active = true → Exact s)
    (hpermitted : Patched s label) (hstep : s.step label = some s')
    (hactive : s'.active = true) : Exact s' := by
  have hgo : (s.step label).isSome := by rw [hstep]; rfl
  cases label with
  | create pool puddle thresh patched =>
    obtain ⟨hnew, hnext⟩ := Option.ite_none_right_eq_some.mp hstep
    cases hnext
    have hexact := h hactive
    cases patched with
    | false =>
      simp only [Tracker.record, Bool.false_and, Bool.or_false, Bool.false_eq_true, if_false]
      exact hexact.create_unpatched hnew
    | true => exact hexact.create_patched hnew puddle thresh
  | delete pool patched =>
    obtain ⟨_, hnext⟩ := Option.ite_none_right_eq_some.mp hstep
    cases hnext
    have hexact := h hactive
    have hpatched := hpermitted hgo hactive
    refine hexact.delete fun j pe => ?_
    unfold Tracker.record
    split
    · exact hexact.recordDelete_iff j pe
    · rename_i hbypass
      refine ⟨fun hj => ⟨hj, fun heq => hbypass (hpatched ?_)⟩, fun hj => hj.1⟩
      exact findPool_isSome.mpr ⟨j, pe, hj, heq⟩
  | alloc pool size patched =>
    simp only [Tracker.step] at hstep
    split at hstep
    · rename_i sizes hlive
      obtain ⟨hfits, hnext⟩ := Option.ite_none_right_eq_some.mp hstep
      cases hnext
      have hexact := h hactive
      have htable := hexact.tally_record (f := .afterAlloc size) (g := (·.recordAlloc pool size))
        (fun _ => rfl) (hpermitted hgo hactive)
      exact hexact.tally (f := .afterAlloc size) (fun _ => rfl) htable hlive (counts_alloc hfits)
    · cases hstep
  | free pool size patched =>
    simp only [Tracker.step] at hstep
    split at hstep
    · rename_i sizes hlive
      obtain ⟨hmem, hnext⟩ := Option.ite_none_right_eq_some.mp hstep
      cases hnext
      have hexact := h hactive
      have htable := hexact.tally_record (f := .afterFree size) (g := (·.recordFree pool size))
        (fun _ => rfl) (hpermitted hgo hactive)
      exact hexact.tally (f := .afterFree size) (fun _ => rfl) htable hlive (counts_free hmem)
    · cases hstep
  | start =>
    cases hstep
    split
    · rename_i hbefore
      exact h hbefore
    · exact exact_empty true s.live
  | stop =>
    cases hstep
    cases hactive

/-- A call past the tracker on a pool of the table makes its entry wrong. -/
theorem patched_of_exact {label : PoolLabel} (h : s.active = true → Exact s)
    (hstep : s.step label = some s') (h' : s'.active = true → Exact s') : Patched s label := by
  intro _ hactive
  have hwrong {i : Fin maxPools} {pe : PoolEntry} {sizes sizes' : List UInt32}
      (hi : s.pools i = some pe) (hlive : s.live pe.pool = some sizes)
      (hexact' : Exact { s with live := Function.update s.live pe.pool (some sizes') }) :
      sizes'.length = sizes.length := by
    obtain ⟨old, hold, hcounts⟩ := (h hactive).counts i pe hi
    obtain ⟨new, hnew, hcounts'⟩ := hexact'.counts i pe hi
    cases hold.symm.trans hlive
    cases hnew.symm.trans (Function.update_self ..)
    exact hcounts'.allocCount.symm.trans hcounts.allocCount
  cases label with
  | create | start | stop => trivial
  | delete pool patched =>
    intro hknown
    obtain ⟨i, pe, hi, rfl⟩ := findPool_isSome.mp hknown
    obtain ⟨_, hnext⟩ := Option.ite_none_right_eq_some.mp hstep
    cases hnext
    by_contra hbypass
    rw [Bool.not_eq_true] at hbypass
    subst hbypass
    obtain ⟨sizes, hlive, _⟩ := (h' hactive).counts i pe hi
    cases hlive.symm.trans (Function.update_self ..)
  | alloc pool size patched =>
    intro hknown
    obtain ⟨i, pe, hi, rfl⟩ := findPool_isSome.mp hknown
    simp only [Tracker.step] at hstep
    split at hstep
    · rename_i sizes hlive
      obtain ⟨_, hnext⟩ := Option.ite_none_right_eq_some.mp hstep
      cases hnext
      by_contra hbypass
      rw [Bool.not_eq_true] at hbypass
      subst hbypass
      have hlength := hwrong hi hlive (h' hactive)
      rw [List.length_cons] at hlength
      omega
    · cases hstep
  | free pool size patched =>
    intro hknown
    obtain ⟨i, pe, hi, rfl⟩ := findPool_isSome.mp hknown
    simp only [Tracker.step] at hstep
    split at hstep
    · rename_i sizes hlive
      obtain ⟨hmem, hnext⟩ := Option.ite_none_right_eq_some.mp hstep
      cases hnext
      by_contra hbypass
      rw [Bool.not_eq_true] at hbypass
      subst hbypass
      have hlength := hwrong hi hlive (h' hactive)
      rw [List.length_erase_of_mem hmem] at hlength
      have hpos := List.length_pos_of_mem hmem
      omega
    · cases hstep

end Exactness

/-- While the tracker runs, its table is right about the pools in exactly the runs in which no call
on a pool of the table goes past the patch routines. -/
theorem pools_exact_iff (live : UInt32 → Option (List UInt32)) (labels : List PoolLabel) :
    Always Tracker.step (fun s => s.active = true → Exact s) (.initial live) labels ↔
      AllPermitted Tracker.step Patched (.initial live) labels := by
  have hexact (s : Tracker) (a : PoolLabel) (s' : Tracker) (_ : True)
      (h : s.active = true → Exact s) (hstep : s.step a = some s') :
      (s'.active = true → Exact s') ↔ Patched s a :=
    ⟨patched_of_exact h hstep, fun hpermitted hactive => exact_step h hpermitted hstep hactive⟩
  have hdisabled (s : Tracker) (a : PoolLabel) (hstep : s.step a = none) : Patched s a := by
    intro hgo
    rw [hstep] at hgo
    cases hgo
  exact always_iff_allPermitted (fun _ _ _ _ _ => trivial) hexact hdisabled labels _ trivial
    fun hactive => by cases hactive

end AmigaDevbench.Daemon.Monitors
