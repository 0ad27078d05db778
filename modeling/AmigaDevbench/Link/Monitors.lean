import AmigaDevbench.Daemon.Monitors
import AmigaDevbench.Link.Records

/-!
# The monitors from the daemon to the host

The lines of the chip register logger and of the pool tracker are never cut off, and the host reads
them as they were meant. A host that follows the reported changes knows the daemon's snapshot.
-/

namespace AmigaDevbench.Monitors

open Daemon Daemon.Monitors Protocol Records Replies SerialConn
open AmigaDevbench.Debugger (hex4)

/-! ### Lines of fields -/

/-- Entries behind bars are split off again. -/
theorem splitOn_fields {name : Text} (entries : List Text) (hname : '|' ∉ name)
    (hentries : ∀ entry ∈ entries, '|' ∉ entry) :
    (name ++ entries.flatMap ('|' :: ·)).splitOn '|' = name :: entries := by
  induction entries generalizing name with
  | nil =>
    rw [List.flatMap_nil, List.append_nil]
    exact List.splitOn_eq_singleton hname
  | cons entry entries ih =>
    have htail := ih (hentries entry List.mem_cons_self)
      fun e he => hentries e (List.mem_cons_of_mem _ he)
    rw [List.flatMap_cons, List.cons_append, Text.splitOn_field hname, htail]

/-- A line of a number and entries. -/
theorem splitOn_counted {name number : Text} (entries : List Text) (hname : '|' ∉ name)
    (hnumber : '|' ∉ number) (hentries : ∀ entry ∈ entries, '|' ∉ entry) :
    (name ++ '|' :: number ++ entries.flatMap ('|' :: ·)).splitOn '|' =
      name :: number :: entries := by
  rw [List.append_assoc, List.cons_append, Text.splitOn_field hname,
    splitOn_fields entries hnumber hentries]

theorem notMem_hex4 {c : Char} (hc : Py.isDigitOf 16 c = false) (n : Nat) : c ∉ hex4 n := by
  intro hmem
  rcases List.mem_append.mp hmem with hzero | hdigit
  · rw [List.eq_of_mem_replicate hzero] at hc
    cases hc
  · have hhex := Py.isDigitOf_of_mem_toDigits (by decide) (by decide) hdigit
    rw [hc] at hhex
    cases hhex

theorem length_hex4_le (v : UInt16) : (hex4 v.toNat).length ≤ 4 := by
  have hdigits : (Nat.toDigits 16 v.toNat).length ≤ 4 := by
    rw [Nat.length_toDigits_le_iff (by decide) (by decide)]
    exact v.toNat_lt
  rw [hex4, List.length_append, List.length_replicate]
  omega

/-! ### Pools -/

/-- A pool on the host. -/
def poolVal (pe : PoolEntry) : Val :=
  .dict [("address", .str (hex8 pe.pool.toNat)), ("puddleSize", .int pe.puddleSize.toNat),
    ("threshSize", .int pe.threshSize.toNat), ("allocCount", .int pe.allocCount.toNat),
    ("totalAlloc", .int pe.totalAlloc.toNat)]

/-- The message of a POOLS reply. -/
def poolsMsg (pools : List PoolEntry) : Dict :=
  [("type", .str "POOLS".toList), ("count", .int pools.length),
    ("pools", .list (pools.map poolVal))]

theorem colon_notMem_hex8 (n : Nat) : ':' ∉ hex8 n :=
  fun h => free_hex8 n ':' h List.mem_cons_self

theorem bar_notMem_entry (pe : PoolEntry) : '|' ∉ pe.entry := by
  simp only [PoolEntry.entry, List.mem_append, List.mem_cons, not_or]
  exact ⟨bar_notMem_hex8 _, by decide, bar_notMem_decimal _, by decide, bar_notMem_decimal _,
    by decide, bar_notMem_decimal _, by decide, bar_notMem_decimal _⟩

theorem length_entry_lt (pe : PoolEntry) : pe.entry.length < 53 := by
  have hpool := length_hex8_le pe.pool.toNat_lt
  have hpuddle := length_decimal_le pe.puddleSize.toNat_lt
  have hthresh := length_decimal_le pe.threshSize.toNat_lt
  have hcount := length_decimal_le pe.allocCount.toNat_lt
  have htotal := length_decimal_le pe.totalAlloc.toNat_lt
  simp only [PoolEntry.entry, List.length_append, List.length_cons]
  omega

theorem poolEntry_entry (pe : PoolEntry) : Protocol.poolEntry pe.entry = some (poolVal pe) := by
  have hparts : pe.entry.splitOn ':' = [hex8 pe.pool.toNat, decimal pe.puddleSize.toNat,
      decimal pe.threshSize.toNat, decimal pe.allocCount.toNat, decimal pe.totalAlloc.toNat] := by
    rw [PoolEntry.entry, Text.splitOn_field (colon_notMem_hex8 _),
      Text.splitOn_field (colon_notMem_decimal _), Text.splitOn_field (colon_notMem_decimal _),
      Text.splitOn_field (colon_notMem_decimal _),
      List.splitOn_eq_singleton (colon_notMem_decimal _)]
  have hint (v : UInt32) : int (decimal v.toNat) = v.toNat := int_decimal v.toNat_lt
  simp only [Protocol.poolEntry, hparts, num, field, List.getD_cons_zero, List.getD_cons_succ,
    hint, poolVal]
  exact if_pos (Nat.le_refl 5)

/-- All pools of the table fit on the line. -/
theorem poolHandleList_eq (t : PoolTable) :
    poolHandleList t = "POOLS".toList ++ '|' :: decimal (Slots.entries t).length ++
      ((Slots.entries t).map PoolEntry.entry).flatMap ('|' :: ·) := by
  have hcount : (Slots.entries t).length ≤ 32 := Slots.length_entries_le
  have hdigits : (decimal (Slots.entries t).length).length ≤ 10 := length_decimal_le (by omega)
  have hmax : maxLine = 8192 := rfl
  have hhead : "POOLS|".toList ++ decimal (Slots.entries t).length =
      "POOLS".toList ++ '|' :: decimal (Slots.entries t).length := rfl
  have hname : "POOLS".toList.length = 5 := rfl
  rw [poolHandleList, hhead]
  refine appendFields_eq (k := 53) (by decide) _ _ (fun entry hentry => ?_) ?_
  · obtain ⟨pe, _, rfl⟩ := List.mem_map.mp hentry
    exact length_entry_lt pe
  · rw [List.length_append, List.length_cons, List.length_map, hname]
    omega

/-- The host reads the table as it is. -/
theorem published_poolHandleList (hasDbg : Bool) (now : Text) (t : PoolTable) :
    published hasDbg now (poolHandleList t) = [⟨"pools", poolsMsg (Slots.entries t)⟩] := by
  have hbranch : branchOf "POOLS".toList = some (.guarded fun _ _ p => parsePools p) := rfl
  have hcount : (Slots.entries t).length ≤ 32 := Slots.length_entries_le
  have hparts := splitOn_counted ((Slots.entries t).map PoolEntry.entry)
    (show '|' ∉ "POOLS".toList by decide) (bar_notMem_decimal (Slots.entries t).length)
    fun entry hentry => by
      obtain ⟨pe, _, rfl⟩ := List.mem_map.mp hentry
      exact bar_notMem_entry pe
  have hpools : ((Slots.entries t).map PoolEntry.entry).filterMap Protocol.poolEntry =
      (Slots.entries t).map poolVal := by
    rw [List.filterMap_map, ← List.filterMap_eq_map]
    exact List.filterMap_congr fun pe _ => poolEntry_entry pe
  refine published_of_parse ?_ rfl
  rw [parseMessage, poolHandleList_eq, hparts]
  simp only [List.headD_cons, hbranch, Branch.run, parsePools, num, List.getD_cons_succ,
    List.getD_cons_zero, int_decimal (show (Slots.entries t).length < 2 ^ 32 by omega),
    List.drop_succ_cons, List.drop_zero, hpools, poolsMsg]

/-! ### Chip registers -/

/-- A change on the host. -/
def changeVal (i : Fin numRegs) (old new : UInt16) : Val :=
  .dict [("reg", .str (regName i)), ("old", .str (hex4 old.toNat)), ("new", .str (hex4 new.toNat))]

/-- The message of a CHIPLOGCHANGE line. -/
def changeMsg (tick : UInt32) (old new : Values) : Dict :=
  [("type", .str "CHIPLOGCHANGE".toList), ("tick", .int tick.toNat),
    ("changes", .list ((changed old new).map fun i => changeVal i (old i) (new i)))]

theorem regName_plain (i : Fin numRegs) :
    ':' ∉ regName i ∧ '|' ∉ regName i ∧ (regName i).length ≤ 7 := by
  revert i
  decide

theorem regName_injective : Function.Injective regName := by
  decide

theorem changeEntry_changeEntry (i : Fin numRegs) (old new : UInt16) :
    Protocol.changeEntry (Daemon.Monitors.changeEntry i old new) = some (changeVal i old new) := by
  have hcolon (n : Nat) : ':' ∉ hex4 n := notMem_hex4 (by decide) n
  have hparts : (Daemon.Monitors.changeEntry i old new).splitOn ':' =
      [regName i, hex4 old.toNat, hex4 new.toNat] := by
    rw [Daemon.Monitors.changeEntry, Text.splitOn_field (regName_plain i).1,
      Text.splitOn_field (hcolon _), List.splitOn_eq_singleton (hcolon _)]
  simp only [Protocol.changeEntry, hparts, field, List.getD_cons_zero, List.getD_cons_succ,
    changeVal]
  exact if_pos (Nat.le_refl 3)

theorem bar_notMem_changeEntry (i : Fin numRegs) (old new : UInt16) :
    '|' ∉ Daemon.Monitors.changeEntry i old new := by
  have hbar (n : Nat) : '|' ∉ hex4 n := notMem_hex4 (by decide) n
  simp only [Daemon.Monitors.changeEntry, List.mem_append, List.mem_cons, not_or]
  exact ⟨(regName_plain i).2.1, by decide, hbar _, by decide, hbar _⟩

theorem length_changeEntry_lt (i : Fin numRegs) (old new : UInt16) :
    (Daemon.Monitors.changeEntry i old new).length < 18 := by
  have hname := (regName_plain i).2.2
  have hold := length_hex4_le old
  have hnew := length_hex4_le new
  simp only [Daemon.Monitors.changeEntry, List.length_append, List.length_cons]
  omega

/-- All changes fit on the line. -/
theorem changeLine_eq (tick : UInt32) (old new : Values) :
    changeLine tick old new = "CHIPLOGCHANGE".toList ++ '|' :: decimal tick.toNat ++
      ((changed old new).map fun i =>
        Daemon.Monitors.changeEntry i (old i) (new i)).flatMap ('|' :: ·) := by
  have hcount : (changed old new).length ≤ 13 := by
    have hfilter := List.length_filter_le (fun i => new i != old i) (List.finRange numRegs)
    rwa [List.length_finRange] at hfilter
  have hdigits := length_decimal_le tick.toNat_lt
  have hmax : maxLine = 8192 := rfl
  have hhead : "CHIPLOGCHANGE|".toList ++ decimal tick.toNat =
      "CHIPLOGCHANGE".toList ++ '|' :: decimal tick.toNat := rfl
  have hname : "CHIPLOGCHANGE".toList.length = 13 := rfl
  rw [changeLine, hhead]
  refine appendFields_eq (k := 18) (by decide) _ _ (fun entry hentry => ?_) ?_
  · obtain ⟨i, _, rfl⟩ := List.mem_map.mp hentry
    exact length_changeEntry_lt i _ _
  · rw [List.length_append, List.length_cons, List.length_map, hname]
    omega

/-- The host reads the changes as they are. -/
theorem published_changeLine (hasDbg : Bool) (now : Text) (tick : UInt32) (old new : Values) :
    published hasDbg now (changeLine tick old new) =
      [⟨"chiplogchange", changeMsg tick old new⟩] := by
  have hbranch : branchOf "CHIPLOGCHANGE".toList =
      some (.guarded fun _ _ p => parseChiplogchange p) := rfl
  have hparts := splitOn_counted
    ((changed old new).map fun i => Daemon.Monitors.changeEntry i (old i) (new i))
    (show '|' ∉ "CHIPLOGCHANGE".toList by decide) (bar_notMem_decimal tick.toNat)
    fun entry hentry => by
      obtain ⟨i, _, rfl⟩ := List.mem_map.mp hentry
      exact bar_notMem_changeEntry i _ _
  have hchanges : ((changed old new).map fun i =>
      Daemon.Monitors.changeEntry i (old i) (new i)).filterMap Protocol.changeEntry =
        (changed old new).map fun i => changeVal i (old i) (new i) := by
    rw [List.filterMap_map, ← List.filterMap_eq_map]
    exact List.filterMap_congr fun i _ => changeEntry_changeEntry i _ _
  refine published_of_parse ?_ rfl
  rw [parseMessage, changeLine_eq, hparts]
  simp only [List.headD_cons, hbranch, Branch.run, parseChiplogchange, num, List.getD_cons_succ,
    List.getD_cons_zero, int_decimal tick.toNat_lt, List.drop_succ_cons, List.drop_zero, hchanges,
    changeMsg]

/-! ### Outcomes and snapshots -/

/-- The events of `OK|CHIPLOG|…`. -/
theorem published_chiplogOk (hasDbg : Bool) (now : Text) {message : Text}
    (hmessage : '|' ∉ message) :
    published hasDbg now ("OK|CHIPLOG|".toList ++ message) =
      [⟨"ok", [("type", .str "OK".toList), ("context", .str "CHIPLOG".toList),
        ("message", .str message)]⟩] := by
  have hline : "OK|CHIPLOG|".toList ++ message =
      "OK".toList ++ '|' :: ("CHIPLOG".toList ++ '|' :: message) := rfl
  have hbranch : branchOf "OK".toList = some (.guarded fun _ _ p => parseOutcome "OK" p) := rfl
  have hrest : rest ["OK".toList, "CHIPLOG".toList, message] 2 = message := by
    simp only [rest, List.drop_succ_cons, List.drop_zero, Text.joinBar]
    exact List.intercalate_singleton
  refine published_of_parse ?_ rfl
  rw [hline, parseMessage, Text.splitOn_field (by decide), Text.splitOn_field (by decide),
    List.splitOn_eq_singleton hmessage]
  simp only [List.headD_cons, hbranch, Branch.run]
  simp only [parseOutcome, hrest, field, List.getD_cons_succ, List.getD_cons_zero]

theorem bar_notMem_valueEntry (i : Fin numRegs) (value : UInt16) : '|' ∉ valueEntry i value := by
  have hbar : '|' ∉ hex4 value.toNat := notMem_hex4 (by decide) _
  simp only [valueEntry, List.mem_append, List.mem_cons, not_or]
  exact ⟨(regName_plain i).2.1, by decide, hbar⟩

theorem length_valueEntry_lt (i : Fin numRegs) (value : UInt16) :
    (valueEntry i value).length < 13 := by
  have hname := (regName_plain i).2.2
  have hvalue := length_hex4_le value
  simp only [valueEntry, List.length_append, List.length_cons]
  omega

/-- The host reads a snapshot as registers, and nothing else. -/
theorem published_handleSnapshot (hasDbg : Bool) (now : Text)
    (custom : Fin numRegs → Nat → UInt16) :
    published hasDbg now (handleSnapshot custom) =
      [⟨"chiplog", [("type", .str "CHIPLOG".toList), ("registers",
        .dict (((List.finRange numRegs).map fun i =>
          valueEntry i (readAllRegs custom i)).foldl chiplogEntry []))]⟩] := by
  have hbranch : branchOf "CHIPLOG".toList = some (.guarded fun _ _ p => parseChiplog p) := rfl
  have hmax : maxLine = 8192 := rfl
  have hname : "CHIPLOG".toList.length = 7 := rfl
  have hline : handleSnapshot custom = "CHIPLOG".toList ++ ((List.finRange numRegs).map fun i =>
      valueEntry i (readAllRegs custom i)).flatMap ('|' :: ·) := by
    refine appendFields_eq (k := 13) (by decide) _ _ (fun entry hentry => ?_) ?_
    · obtain ⟨i, _, rfl⟩ := List.mem_map.mp hentry
      exact length_valueEntry_lt i _
    · rw [List.length_map, List.length_finRange, hname]
      decide
  refine published_of_parse ?_ rfl
  rw [parseMessage, hline, splitOn_fields _ (by decide) fun entry hentry => by
    obtain ⟨i, _, rfl⟩ := List.mem_map.mp hentry
    exact bar_notMem_valueEntry i _]
  simp only [List.headD_cons, hbranch, Branch.run, parseChiplog, List.drop_succ_cons,
    List.drop_zero]

/-! ### A host that follows the changes -/

/-- The values that the host knows. -/
abbrev Known := Text → Option Text

/-- A change is one from the value that the host knows, if it knows one, to another. -/
def Known.change (known : Known) : Val → Option Known
  | .dict kvs =>
    let reg := Dict.getText kvs "reg" []
    let old := Dict.getText kvs "old" []
    let new := Dict.getText kvs "new" []
    if (known reg).all (· = old) ∧ old ≠ new then some (Function.update known reg (some new))
    else none
  | _ => none

/-- The host forgets all values when the logger is started, and follows its changes from then on. -/
def Known.follow (known : Known) (e : Event) : Option Known :=
  if e.name = "ok" ∧ e.data.getText "context" [] = "CHIPLOG".toList ∧
      e.data.getText "message" [] = "started".toList then some fun _ => none
  else if e.name = "chiplogchange" then
    match e.data.get? "changes" with
    | some (.list changes) => changes.foldlM Known.change known
    | _ => none
  else some known

/-- What the host knows are the latest values, and what it does not know is still as it was at
first. -/
def Known.Agrees (known : Known) (seen : Readings) : Prop :=
  ∀ i, (known (regName i)).getD (hex4 (seen.first i).toNat) = hex4 (seen.latest i).toNat

theorem hex4_injective : Function.Injective fun v : UInt16 => hex4 v.toNat := by
  intro v w h
  have hread (n : Nat) : Py.int 16 (hex4 n) = .ok n :=
    Py.int_toDigits (by decide) (by decide) _ fun h => absurd h (by decide)
  have hint : (v.toNat : Int) = w.toNat := by
    have hv := hread v.toNat
    rw [show hex4 v.toNat = hex4 w.toNat from h, hread] at hv
    exact (Except.ok.inj hv).symm
  exact UInt16.toNat_inj.mp (Int.ofNat.inj hint)

theorem change_changeVal {known : Known} {i : Fin numRegs} {old new : UInt16} (hne : new ≠ old)
    (hold : ∀ value ∈ known (regName i), value = hex4 old.toNat) :
    known.change (changeVal i old new) =
      some (Function.update known (regName i) (some (hex4 new.toNat))) := by
  have hall : (known (regName i)).all (· = hex4 old.toNat) = true := by
    cases hknown : known (regName i) with
    | none => rfl
    | some value =>
      rw [Option.all_some, decide_eq_true_eq]
      exact hold value hknown
  exact if_pos ⟨hall, fun h => hne (hex4_injective h).symm⟩

/-- The changes of one report, of which each register has one. -/
theorem foldlM_changeVal {old new : Values} {regs : List (Fin numRegs)} (hnodup : regs.Nodup)
    (hne : ∀ i ∈ regs, new i ≠ old i) :
    ∀ known : Known, (∀ i ∈ regs, ∀ value ∈ known (regName i), value = hex4 (old i).toNat) →
      ∃ known', (regs.map fun i => changeVal i (old i) (new i)).foldlM Known.change known =
          some known' ∧
        ∀ i, known' (regName i) =
          if i ∈ regs then some (hex4 (new i).toNat) else known (regName i) := by
  induction regs with
  | nil => exact fun known _ => ⟨known, rfl, fun i => rfl⟩
  | cons j regs ih =>
    intro known hold
    obtain ⟨hj, hnodup⟩ := List.nodup_cons.mp hnodup
    have hother (i : Fin numRegs) (hij : i ≠ j) (value : Option Text) :
        Function.update known (regName j) value (regName i) = known (regName i) :=
      Function.update_of_ne (fun h => hij (regName_injective h)) ..
    obtain ⟨known', hfold, hvalues⟩ := ih hnodup (fun i hi => hne i (List.mem_cons_of_mem _ hi))
      (Function.update known (regName j) (some (hex4 (new j).toNat))) fun i hi => by
        rw [hother i fun h => hj (h ▸ hi)]
        exact hold i (List.mem_cons_of_mem _ hi)
    refine ⟨known', ?_, fun i => ?_⟩
    · rw [List.map_cons, List.foldlM_cons,
        change_changeVal (hne j List.mem_cons_self) (hold j List.mem_cons_self)]
      exact hfold
    · rw [hvalues]
      by_cases hij : i = j
      · subst hij
        rw [if_neg hj, if_pos List.mem_cons_self, Function.update_self]
      · simp only [hother i hij, List.mem_cons, hij, false_or]

/-- Each label keeps what the host knows in agreement. -/
theorem follow_step (hasDbg : Bool) (now : Text) {s : ChipLog} {seen : Readings} {known : Known}
    (label : ChipLabel) (hactive : s.active = seen.active) (hprev : s.prev = seen.latest)
    (hagrees : known.Agrees seen) :
    ∃ known', ((s.step label).2.flatMap (published hasDbg now)).foldlM Known.follow known =
        some known' ∧ (s.step label).1.active = (seen.after label).active ∧
      (s.step label).1.prev = (seen.after label).latest ∧ known'.Agrees (seen.after label) := by
  cases label with
  | start custom =>
    have hevents := published_chiplogOk hasDbg now (show '|' ∉ "started".toList by decide)
    refine ⟨fun _ => none, ?_, rfl, rfl, fun i => rfl⟩
    rw [ChipLog.step, List.flatMap_singleton]
    exact (congrArg (List.foldlM Known.follow known) hevents).trans rfl
  | stop =>
    have hevents := published_chiplogOk hasDbg now (show '|' ∉ "stopped".toList by decide)
    refine ⟨known, ?_, rfl, hprev, hagrees⟩
    rw [ChipLog.step, List.flatMap_singleton]
    exact (congrArg (List.foldlM Known.follow known) hevents).trans rfl
  | snapshot custom =>
    refine ⟨known, ?_, hactive, hprev, hagrees⟩
    rw [ChipLog.step, List.flatMap_singleton, published_handleSnapshot]
    rfl
  | poll custom =>
    rw [ChipLog.step, ChipLog.poll, Readings.after, ← hactive]
    cases hrunning : s.active with
    | false =>
      simp only [Bool.false_eq_true, if_false]
      exact ⟨known, rfl, hactive, hprev, hagrees⟩
    | true =>
      simp only [if_true]
      by_cases hsame : (changed s.prev (readAllRegs custom)).isEmpty = true
      · have hcurrent : readAllRegs custom = s.prev := changed_isEmpty.mp hsame
        rw [if_pos hsame]
        refine ⟨known, rfl, rfl, hcurrent.symm, ?_⟩
        rw [hcurrent, hprev]
        exact hagrees
      · rw [if_neg hsame]
        have hnodup : (changed s.prev (readAllRegs custom)).Nodup :=
          (List.nodup_finRange numRegs).filter _
        have hmem (i : Fin numRegs) :
            i ∈ changed s.prev (readAllRegs custom) ↔ readAllRegs custom i ≠ s.prev i := by
          simp only [changed, List.mem_filter, List.mem_finRange, true_and, bne_iff_ne]
        obtain ⟨known', hfold, hvalues⟩ := foldlM_changeVal hnodup (fun i hi => (hmem i).mp hi)
          known fun i _ value hvalue => by
            have hi := hagrees i
            rw [hvalue, Option.getD_some] at hi
            rw [hi, hprev]
        refine ⟨known', ?_, rfl, rfl, fun i => ?_⟩
        · rw [Option.toList_some, List.flatMap_singleton, published_changeLine,
            List.foldlM_cons]
          refine (congrArg (· >>= _) ?_).trans (bind_pure _)
          exact hfold
        · rw [hvalues]
          split
          · rfl
          · rename_i hi
            have hcurrent : readAllRegs custom i = seen.latest i := by
              rw [← hprev]
              exact not_not.mp fun hne => hi ((hmem i).mpr hne)
            have hknown := hagrees i
            rw [← hcurrent] at hknown
            exact hknown

/-- Whatever the commands are and whatever the registers contain, a host that follows the reported
changes never finds one that does not fit, and knows the latest values that the logger has read. -/
theorem follow_run (hasDbg : Bool) (now : Text) (labels : List ChipLabel) :
    ∃ known, ((ChipLog.initial.run labels).2.flatMap (published hasDbg now)).foldlM Known.follow
        (fun _ => none) = some known ∧
      known.Agrees (labels.foldl Readings.after .initial) := by
  suffices hrun : ∀ (s : ChipLog) (seen : Readings) (known : Known), s.active = seen.active →
      s.prev = seen.latest → known.Agrees seen →
      ∃ known', ((s.run labels).2.flatMap (published hasDbg now)).foldlM Known.follow known =
        some known' ∧ known'.Agrees (labels.foldl Readings.after seen) from
    hrun _ .initial _ rfl rfl fun i => rfl
  induction labels with
  | nil => exact fun s seen known _ _ hagrees => ⟨known, rfl, hagrees⟩
  | cons label labels ih =>
    intro s seen known hactive hprev hagrees
    obtain ⟨between, hfollow, hactive, hprev, hagrees⟩ :=
      follow_step hasDbg now label hactive hprev hagrees
    obtain ⟨known', hrest, hagrees⟩ := ih _ _ between hactive hprev hagrees
    refine ⟨known', ?_, hagrees⟩
    rw [ChipLog.run, List.flatMap_append, List.foldlM_append, hfollow]
    exact hrest

end AmigaDevbench.Monitors
