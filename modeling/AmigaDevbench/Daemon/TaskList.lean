import AmigaDevbench.Daemon.Inventory

/-!
# The list of tasks on the daemon

The current task is written first, then the ready tasks and then the waiting ones. The loop over the
ready tasks ends where one does not fit, which may leave its comma, and the loop over the waiting
tasks goes on from there.
-/

namespace AmigaDevbench.Daemon

open CText CNumber

/-! ### The tasks that are shown -/

def listedAs (state : TaskState) (ts : List TaskNode) : List ListedTask := ts.map (.mk state)

/-- What is formatted of tasks. -/
def taskEntries (ts : List ListedTask) : List Text := ts.map ListedTask.entry

section Tasks

variable (current : Option TaskNode) (ready wait : List TaskNode)

/-- The number of ready tasks that fit behind the current one. -/
def readyShown : Nat :=
  fitting (maxLine - 1) (spread 10 (taskEntries (listedAs .run current.toList)))
    (taskEntries (listedAs .ready ready))

/-- The current task and the ready ones that fit. -/
def frontTasks : List ListedTask :=
  listedAs .run current.toList ++ (listedAs .ready ready).take (readyShown current ready)

/-- The ready tasks that do not fit. -/
def leftTasks : List ListedTask := (listedAs .ready ready).drop (readyShown current ready)

/-- The characters in front of the waiting tasks: a ready one that did not fit leaves its comma. -/
def usedFront : Nat :=
  spread 10 (taskEntries (frontTasks current ready)) +
    (dangling (maxLine - 1) (spread 10 (taskEntries (frontTasks current ready)))
      (taskEntries (leftTasks current ready))).length

/-- The number of waiting tasks that fit. -/
def waitShown : Nat :=
  fitting (maxLine - 1) (usedFront current ready) (taskEntries (listedAs .wait wait))

/-- The waiting tasks that fit. -/
def backTasks : List ListedTask := (listedAs .wait wait).take (waitShown current ready wait)

/-- The tasks that are shown. -/
def shownTasks : List ListedTask := frontTasks current ready ++ backTasks current ready wait

/-- The tasks that are formatted have entries that are shorter than the array for them. -/
structure TasksInArray : Prop where
  ofCurrent : InArray 120 (taskEntries (listedAs .run current.toList))
  ofReady : InArray 120
    ((taskEntries (listedAs .ready ready)).take (readyShown current ready + 1))
  ofWait : InArray 120
    ((taskEntries (listedAs .wait wait)).take (waitShown current ready wait + 1))

/-- Where a ready task does not fit, no comma is put behind its comma. -/
def NoGap : Prop :=
  leftTasks current ready = [] ∨ wait = [] ∨
    maxLine - 1 ≤ spread 10 (taskEntries (frontTasks current ready)) + 2

/-- The start of the line, with room for the number. -/
def taskStart : Text := "TASKS|".toList ++ List.replicate 5 ' '

variable {current ready wait}

theorem taskStart_ne_nil : taskStart ≠ [] :=
  List.append_ne_nil_of_right_ne_nil _ (List.cons_ne_nil _ _)

theorem length_taskStart : taskStart.length = 11 := rfl

/-- The current task fits. -/
theorem appendCurrent_eq (h : InArray 120 (taskEntries (listedAs .run current.toList))) :
    appendCurrent (maxLine - 1) 120 taskStart (current.map fun t => ListedTask.entry ⟨.run, t⟩) =
      some (taskStart ++ [','].intercalate (taskEntries (listedAs .run current.toList)),
        (taskEntries (listedAs .run current.toList)).length) := by
  cases current with
  | none => rfl
  | some t =>
    have hshort : (ListedTask.entry ⟨.run, t⟩).length < 120 := h _ List.mem_cons_self
    have hline : maxLine = 8192 := rfl
    have hstart := length_taskStart
    have hone : taskEntries (listedAs .run (some t).toList) = [ListedTask.entry ⟨.run, t⟩] := rfl
    rw [Option.map_some, appendCurrent, if_neg (by omega), if_neg (by omega), hone,
      List.intercalate_singleton]
    rfl

theorem appendCurrent_eq_none (h : ¬ InArray 120 (taskEntries (listedAs .run current.toList))) :
    appendCurrent (maxLine - 1) 120 taskStart (current.map fun t => ListedTask.entry ⟨.run, t⟩) =
      none := by
  cases current with
  | none => exact absurd (inArray_nil 120) h
  | some t =>
    have hlong : 120 ≤ (ListedTask.entry ⟨.run, t⟩).length := by
      by_contra hshort
      refine h fun entry hmem => ?_
      rw [List.mem_singleton.mp hmem]
      omega
    rw [Option.map_some, appendCurrent, if_pos hlong]

theorem taskEntries_frontTasks : taskEntries (frontTasks current ready) =
    taskEntries (listedAs .run current.toList) ++
      (taskEntries (listedAs .ready ready)).take (readyShown current ready) := by
  simp only [taskEntries, frontTasks, List.map_append, List.map_take]

theorem taskEntries_leftTasks : taskEntries (leftTasks current ready) =
    (taskEntries (listedAs .ready ready)).drop (readyShown current ready) := by
  simp only [taskEntries, leftTasks, List.map_drop]

theorem taskEntries_eq_nil {ts : List ListedTask} : taskEntries ts = [] ↔ ts = [] :=
  List.map_eq_nil_iff

/-- If a ready task does not fit, there is one in front of it. -/
theorem frontTasks_ne_nil
    (h : InArray 120 ((taskEntries (listedAs .ready ready)).take (readyShown current ready + 1)))
    (hleft : leftTasks current ready ≠ []) : frontTasks current ready ≠ [] := by
  intro hnil
  obtain ⟨hcurrent, hready⟩ := List.append_eq_nil_iff.mp hnil
  have hline : maxLine = 8192 := rfl
  cases ready with
  | nil => exact hleft (List.drop_nil)
  | cons t ready =>
    have hfits : 10 + 1 + (ListedTask.entry ⟨.ready, t⟩).length < maxLine - 1 := by
      have hshort := h (ListedTask.entry ⟨.ready, t⟩) List.mem_cons_self
      omega
    have hpos : 0 < readyShown current (t :: ready) := by
      rw [readyShown, hcurrent]
      exact fitting_cons_of_fits hfits ▸ Nat.succ_pos _
    obtain ⟨n, hn⟩ := Nat.exists_eq_succ_of_ne_zero (Nat.ne_of_gt hpos)
    rw [hn] at hready
    cases hready

/-- What the ready tasks leave. -/
theorem appendReady_eq :
    appendNodes (maxLine - 1) 120 (taskEntries (listedAs .run current.toList)).length
        (taskStart ++ [','].intercalate (taskEntries (listedAs .run current.toList)))
        (taskEntries (listedAs .ready ready)) =
      if InArray 120 ((taskEntries (listedAs .ready ready)).take
          (readyShown current ready + 1)) then
        some (behind (maxLine - 1) taskStart (taskEntries (frontTasks current ready))
          (taskEntries (leftTasks current ready)),
          (taskEntries (frontTasks current ready)).length)
      else none := by
  have hused : spread 10 (taskEntries (listedAs .run current.toList)) + 1 =
      (taskStart ++ [','].intercalate (taskEntries (listedAs .run current.toList))).length +
        if 0 < (taskEntries (listedAs .run current.toList)).length then 1 else 0 := by
    cases current with
    | none => rfl
    | some t =>
      have hone : taskEntries (listedAs .run (some t).toList) ≠ [] := List.cons_ne_nil _ _
      rw [length_joined taskStart_ne_nil hone]
      rfl
  rw [appendNodes_eq hused, appendEntries_behind taskStart_ne_nil _ rfl, taskEntries_frontTasks,
    taskEntries_leftTasks]
  rfl

/-- What the waiting tasks are put behind. -/
theorem used_behind
    (h : InArray 120 ((taskEntries (listedAs .ready ready)).take (readyShown current ready + 1))) :
    usedFront current ready + 1 =
      (behind (maxLine - 1) taskStart (taskEntries (frontTasks current ready))
        (taskEntries (leftTasks current ready))).length +
        if 0 < (taskEntries (frontTasks current ready)).length then 1 else 0 := by
  rw [usedFront, behind]
  by_cases hfront : frontTasks current ready = []
  · have hleft : leftTasks current ready = [] := by
      by_contra hleft
      exact frontTasks_ne_nil h hleft hfront
    rw [hfront, hleft]
    rfl
  · have hne : taskEntries (frontTasks current ready) ≠ [] := mt taskEntries_eq_nil.mp hfront
    rw [if_neg hne, if_pos (List.length_pos_iff.mpr hne), List.length_append,
      length_joined taskStart_ne_nil hne]
    rfl

theorem taskEntries_listedAs (state : TaskState) (ts : List TaskNode) :
    taskEntries (listedAs state ts) = ts.map fun t => ListedTask.entry ⟨state, t⟩ :=
  List.map_map

theorem appendWait_eq
    (h : InArray 120 ((taskEntries (listedAs .ready ready)).take (readyShown current ready + 1))) :
    appendNodes (maxLine - 1) 120 (taskEntries (frontTasks current ready)).length
        (behind (maxLine - 1) taskStart (taskEntries (frontTasks current ready))
          (taskEntries (leftTasks current ready)))
        (taskEntries (listedAs .wait wait)) =
      if InArray 120 ((taskEntries (listedAs .wait wait)).take
          (waitShown current ready wait + 1)) then
        some (appendEntries (maxLine - 1) (taskEntries (frontTasks current ready)).length
          (behind (maxLine - 1) taskStart (taskEntries (frontTasks current ready))
            (taskEntries (leftTasks current ready)))
          (taskEntries (listedAs .wait wait)))
      else none :=
  appendNodes_eq (used_behind h)

/-- The list of tasks if every task that is formatted fits into the array. -/
theorem sysListTasks_of_inArray (h : TasksInArray current ready wait) :
    sysListTasks current ready wait = some (patched "TASKS|".toList
      (appendEntries (maxLine - 1) (taskEntries (frontTasks current ready)).length
        (behind (maxLine - 1) taskStart (taskEntries (frontTasks current ready))
          (taskEntries (leftTasks current ready)))
        (taskEntries (listedAs .wait wait)))) := by
  have hcurrent := appendCurrent_eq h.ofCurrent
  have hready := (@appendReady_eq current ready).trans (if_pos h.ofReady)
  have hwait := (@appendWait_eq current ready wait h.ofReady).trans (if_pos h.ofWait)
  unfold sysListTasks
  rw [taskEntries_listedAs .ready] at hready
  rw [taskEntries_listedAs .wait] at hwait
  change (appendCurrent (maxLine - 1) 120 taskStart _).bind _ = _
  rw [hcurrent, Option.bind_some]
  simp only
  rw [hready, Option.bind_some]
  simp only
  rw [hwait, taskEntries_listedAs .wait]
  rfl

theorem inArray_of_sysListTasks {line : Text} (h : sysListTasks current ready wait = some line) :
    TasksInArray current ready wait := by
  unfold sysListTasks at h
  change (appendCurrent (maxLine - 1) 120 taskStart _).bind _ = _ at h
  by_cases hcurrent : InArray 120 (taskEntries (listedAs .run current.toList))
  · have hready := @appendReady_eq current ready
    rw [appendCurrent_eq hcurrent, Option.bind_some] at h
    simp only [← taskEntries_listedAs] at h
    by_cases hin : InArray 120 ((taskEntries (listedAs .ready ready)).take
        (readyShown current ready + 1))
    · rw [hready, if_pos hin, Option.bind_some] at h
      simp only at h
      by_cases hout : InArray 120 ((taskEntries (listedAs .wait wait)).take
          (waitShown current ready wait + 1))
      · exact ⟨hcurrent, hin, hout⟩
      · rw [appendWait_eq hin, if_neg hout] at h
        cases h
    · rw [hready, if_neg hin] at h
      cases h
  · rw [appendCurrent_eq_none hcurrent] at h
    cases h

theorem spread_frontTasks (h : InArray 120 (taskEntries (listedAs .run current.toList))) :
    spread 10 (taskEntries (frontTasks current ready)) < maxLine - 1 := by
  have hline : maxLine = 8192 := rfl
  have hcurrent : spread 10 (taskEntries (listedAs .run current.toList)) < maxLine - 1 := by
    cases current with
    | none => decide
    | some t =>
      have hone : taskEntries (listedAs .run (some t).toList) = [ListedTask.entry ⟨.run, t⟩] := rfl
      have hshort : (ListedTask.entry ⟨.run, t⟩).length < 120 := h _ List.mem_cons_self
      rw [hone, spread_cons, spread_nil]
      omega
  rw [taskEntries_frontTasks, spread_append]
  exact spread_take_fitting hcurrent

theorem taskEntries_shownTasks : taskEntries (shownTasks current ready wait) =
    taskEntries (frontTasks current ready) ++
      (taskEntries (listedAs .wait wait)).take (waitShown current ready wait) := by
  simp only [taskEntries, shownTasks, backTasks, List.map_append, List.map_take]

/-- What the line is made of without a gap. -/
theorem appendWait_of_noGap (h : TasksInArray current ready wait)
    (hgap : NoGap current ready wait) : ∃ left,
    appendEntries (maxLine - 1) (taskEntries (frontTasks current ready)).length
        (behind (maxLine - 1) taskStart (taskEntries (frontTasks current ready))
          (taskEntries (leftTasks current ready)))
        (taskEntries (listedAs .wait wait)) =
      (behind (maxLine - 1) taskStart (taskEntries (shownTasks current ready wait)) left,
        (taskEntries (shownTasks current ready wait)).length) ∧
    spread 10 (taskEntries (shownTasks current ready wait)) < maxLine - 1 := by
  have hspread := @spread_frontTasks current ready h.ofCurrent
  by_cases hleft : leftTasks current ready = []
  · have hused : usedFront current ready = spread 10 (taskEntries (frontTasks current ready)) := by
      rw [usedFront, hleft]
      rfl
    have hbuf : behind (maxLine - 1) taskStart (taskEntries (frontTasks current ready))
        (taskEntries (leftTasks current ready)) =
        taskStart ++ [','].intercalate (taskEntries (frontTasks current ready)) := by
      rw [behind, hleft]
      split
      · exact List.append_nil _
      · exact List.append_nil _
    have hn : waitShown current ready wait = fitting (maxLine - 1)
        (spread (taskStart.length - 1) (taskEntries (frontTasks current ready)))
        (taskEntries (listedAs .wait wait)) := by
      rw [waitShown, hused]
      rfl
    rw [hbuf, appendEntries_behind taskStart_ne_nil _ hn, taskEntries_shownTasks]
    refine ⟨_, rfl, ?_⟩
    rw [spread_append, waitShown, hused]
    exact spread_take_fitting hspread
  · have hfront : taskEntries (frontTasks current ready) ≠ [] :=
      mt taskEntries_eq_nil.mp (frontTasks_ne_nil h.ofReady hleft)
    have hpos := List.length_pos_iff.mpr hfront
    have hused := used_behind h.ofReady
    rw [if_pos hpos] at hused
    obtain ⟨hnone, hbuf⟩ : waitShown current ready wait = 0 ∧
        appendEntries (maxLine - 1) (taskEntries (frontTasks current ready)).length
          (behind (maxLine - 1) taskStart (taskEntries (frontTasks current ready))
            (taskEntries (leftTasks current ready))) (taskEntries (listedAs .wait wait)) =
          (behind (maxLine - 1) taskStart (taskEntries (frontTasks current ready))
            (taskEntries (leftTasks current ready)),
            (taskEntries (frontTasks current ready)).length) := by
      rcases hgap with hnil | rfl | hfull
      · exact absurd hnil hleft
      · exact ⟨rfl, rfl⟩
      · have hover : maxLine - 1 ≤ usedFront current ready + 1 := by
          have hleftEntries := mt taskEntries_eq_nil.mp hleft
          rw [usedFront, dangling]
          split
          · rw [List.length_singleton]
            omega
          · next hno =>
            by_contra hroom
            exact hno ⟨hleftEntries, by omega⟩
        exact ⟨fitting_full hover _, appendEntries_full hpos (by omega) _⟩
    rw [hbuf, taskEntries_shownTasks, hnone, List.take_zero, List.append_nil]
    exact ⟨_, rfl, hspread⟩

/-- Without a gap the line has the entries of the tasks that are shown. -/
theorem lineOf_sysListTasks (h : TasksInArray current ready wait)
    (hgap : NoGap current ready wait) : ∃ line, sysListTasks current ready wait = some line ∧
      LineOf "TASKS|".toList (taskEntries (shownTasks current ready wait)) line := by
  obtain ⟨left, hbuf, hspread⟩ := appendWait_of_noGap h hgap
  rw [sysListTasks_of_inArray h, hbuf]
  exact ⟨_, rfl, lineOf_patched (by decide) _ _ hspread⟩

/-- Behind a comma that was left, the first comma of what follows stands alone. -/
theorem exists_tail {limit used : Nat} {entries : List Text} (hne : entries ≠ [])
    (hroom : used + 1 < limit) (n : Nat) : ∃ tail : Text,
      (tail = [] ∨ tail = [',']) ∧ (entries.take n = [] → tail = []) ∧
      ((entries.take n).map (',' :: ·)).flatten ++
          dangling limit (spread used (entries.take n)) (entries.drop n) =
        ',' :: ([','].intercalate (entries.take n) ++ tail) := by
  cases n with
  | zero =>
    refine ⟨[], .inl rfl, fun _ => rfl, ?_⟩
    rw [List.take_zero, List.drop_zero, spread_nil, dangling, if_pos ⟨hne, hroom⟩,
      List.intercalate_nil]
    rfl
  | succ n =>
    obtain ⟨entry, entries, rfl⟩ := List.exists_cons_of_ne_nil hne
    refine ⟨dangling limit (spread used ((entry :: entries).take (n + 1)))
      ((entry :: entries).drop (n + 1)), dangling_cases _ _ _,
      fun h => absurd h (List.cons_ne_nil _ _), ?_⟩
    rw [List.take_succ_cons, Text.intercalate_cons_eq, List.map_cons, List.flatten_cons]
    rfl

/-- With a gap there are two commas behind the tasks at the front. -/
theorem sysListTasks_of_gap (h : TasksInArray current ready wait)
    (hgap : ¬ NoGap current ready wait) : ∃ tail,
      (tail = [] ∨ tail = [',']) ∧ (backTasks current ready wait = [] → tail = []) ∧
      frontTasks current ready ≠ [] ∧ (shownTasks current ready wait).length < 10 ^ 4 ∧
      sysListTasks current ready wait = some ("TASKS|".toList ++
        (decimal (shownTasks current ready wait).length ++ '|' ::
          ([','].intercalate (taskEntries (frontTasks current ready)) ++ ',' :: ',' ::
            ([','].intercalate (taskEntries (backTasks current ready wait)) ++ tail)))) := by
  rw [NoGap, not_or, not_or] at hgap
  obtain ⟨hleft, hwait, hroom⟩ := hgap
  have hfront := frontTasks_ne_nil h.ofReady hleft
  have hentries : taskEntries (frontTasks current ready) ≠ [] := mt taskEntries_eq_nil.mp hfront
  have hpos := List.length_pos_iff.mpr hentries
  have hcomma : dangling (maxLine - 1) (spread 10 (taskEntries (frontTasks current ready)))
      (taskEntries (leftTasks current ready)) = [','] := by
    rw [dangling, if_pos ⟨mt taskEntries_eq_nil.mp hleft, by omega⟩]
  have hused : usedFront current ready =
      spread 10 (taskEntries (frontTasks current ready)) + 1 := by
    rw [usedFront, hcomma]
    rfl
  have hbuf := used_behind h.ofReady
  rw [if_pos hpos, Nat.add_right_cancel_iff] at hbuf
  have hwaitEntries : taskEntries (listedAs .wait wait) ≠ [] := by
    rw [taskEntries_listedAs]
    exact fun hnil => hwait (List.map_eq_nil_iff.mp hnil)
  obtain ⟨tail, htail, hzero, htext⟩ := @exists_tail (maxLine - 1) (usedFront current ready) _
    hwaitEntries (by omega) (waitShown current ready wait)
  have hbehind : behind (maxLine - 1) taskStart (taskEntries (frontTasks current ready))
      (taskEntries (leftTasks current ready)) =
      taskStart ++ ([','].intercalate (taskEntries (frontTasks current ready)) ++ [',']) := by
    rw [behind, if_neg hentries, List.append_assoc]
    exact congrArg (fun s => taskStart ++
      ([','].intercalate (taskEntries (frontTasks current ready)) ++ s)) hcomma
  have hback : (taskEntries (listedAs .wait wait)).take (waitShown current ready wait) =
      taskEntries (backTasks current ready wait) := List.map_take.symm
  have hlength : (shownTasks current ready wait).length =
      (taskEntries (frontTasks current ready)).length + waitShown current ready wait := by
    have hshown : waitShown current ready wait ≤ (taskEntries (listedAs .wait wait)).length :=
      fitting_le_length _ _ _
    rw [taskEntries, List.length_map] at hshown
    rw [shownTasks, backTasks, List.length_append, List.length_take, Nat.min_eq_left hshown,
      taskEntries, List.length_map]
  have hcount : (shownTasks current ready wait).length < 10 ^ 4 := by
    have hline : maxLine = 8192 := rfl
    have hfrontCount := le_spread 10 (taskEntries (frontTasks current ready))
    have hbackCount := le_spread (usedFront current ready)
      (taskEntries (backTasks current ready wait))
    have hroom : spread (usedFront current ready)
        (taskEntries (backTasks current ready wait)) < maxLine - 1 :=
      hback ▸ spread_take_fitting (by omega)
    rw [taskEntries, List.length_map] at hfrontCount hbackCount
    rw [shownTasks, List.length_append]
    rw [taskEntries] at hroom hused
    omega
  have hfitting : fitting (maxLine - 1) (usedFront current ready)
      (taskEntries (listedAs .wait wait)) = waitShown current ready wait := rfl
  refine ⟨tail, htail, fun hnil => hzero (hback.trans (taskEntries_eq_nil.mpr hnil)), hfront,
    hcount, ?_⟩
  rw [sysListTasks_of_inArray h, appendEntries_fitting hpos, ← hbuf, hfitting, ← hlength]
  refine congrArg some (patched_eq hcount ?_)
  rw [hbehind, List.append_assoc, htext, hback]
  simp only [taskStart, List.append_assoc, List.cons_append, List.nil_append]

end Tasks

end AmigaDevbench.Daemon
