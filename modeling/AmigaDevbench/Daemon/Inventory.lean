import AmigaDevbench.Daemon.Listings

/-!
# Tasks, libraries, devices, volumes and ports on the daemon

The lists of the system are written like the processes and assigns, entry by entry as long as they
fit. The entries of tasks, libraries and devices are formatted in an array of their own first, with
nothing that keeps a long name inside of it.
-/

namespace AmigaDevbench.Daemon

open CText CNumber

/-! ### Nodes -/

/-- The name of a node, which is missing where the pointer to it is rejected. -/
def nodeName (name : Option CString) : Text := name.elim ['?'] (·.val)

/-- A task in a list of exec. -/
structure TaskNode where
  name : Option CString
  pri : Int8
  isProcess : Bool

/-- Where a task was found. -/
inductive TaskState where
  | run
  | ready
  | wait
  deriving DecidableEq

def TaskState.text : TaskState → Text
  | run => "run".toList
  | ready => "ready".toList
  | wait => "wait".toList

structure ListedTask where
  state : TaskState
  task : TaskNode

namespace ListedTask

def type (t : ListedTask) : Text := if t.task.isProcess then "proc".toList else "task".toList

/-- What stands between the brackets. -/
def info (t : ListedTask) : Text :=
  Client.longText t.task.pri.toInt ++ ',' :: (t.state.text ++ ',' :: t.type)

/-- What `format_task_entry` writes: `"%s(%ld,%s,%s)"`. -/
def entry (t : ListedTask) : Text := nodeName t.task.name ++ '(' :: t.info ++ [')']

end ListedTask

/-- A node of the list of libraries or of devices. -/
structure LibNode where
  name : Option CString
  version : UInt16
  revision : UInt16

/-- `"v%ld.%ld"`. -/
def LibNode.versionText (lib : LibNode) : Text :=
  'v' :: (decimal lib.version.toNat ++ '.' :: decimal lib.revision.toNat)

/-- `"%s(v%ld.%ld)"`. -/
def LibNode.entry (lib : LibNode) : Text := nodeName lib.name ++ '(' :: lib.versionText ++ [')']

/-- The fields of an `InfoData` that are read. -/
structure DiskInfo where
  bytesPerBlock : UInt32
  numBlocks : UInt32
  numBlocksUsed : UInt32

/-- A number of blocks in units of 1024 bytes. -/
def DiskInfo.kilobytes (id : DiskInfo) (blocks : UInt32) : UInt32 :=
  blocks / 1024 * id.bytesPerBlock + blocks % 1024 * id.bytesPerBlock / 1024

/-- A volume in the list of devices of dos, with what `Info` finds for it. -/
structure VolumeNode where
  name : Option Text
  mounted : Bool
  info : Option DiskInfo

namespace VolumeNode

/-- `namebuf`, and `volnames[vi]`: the name is copied by its length and read as a string. -/
def namebuf (v : VolumeNode) : Text :=
  v.name.elim ['?', ':'] fun bstr => cut (bstr.take 107 ++ [':'])

def handler (v : VolumeNode) : Text := if v.mounted then "dos".toList else "unknown".toList

def state (v : VolumeNode) : Text :=
  if v.mounted then "validated".toList else "unvalidated".toList

/-- What is found of the disk, nothing if the volume is not mounted. -/
def disk (v : VolumeNode) : Option DiskInfo := if v.mounted then v.info else none

def usedK (v : VolumeNode) : UInt32 := v.disk.elim 0 fun id => id.kilobytes id.numBlocksUsed

def freeK (v : VolumeNode) : UInt32 :=
  v.disk.elim 0 fun id => id.kilobytes (id.numBlocks - id.numBlocksUsed)

/-- `"%s~%s~%s~%lu~%lu"`. -/
def entry (v : VolumeNode) : Text :=
  v.namebuf ++ '~' :: (v.handler ++ '~' :: (v.state ++ '~' ::
    (decimal v.usedK.toNat ++ '~' :: decimal v.freeK.toNat)))

end VolumeNode

/-- The name, with its colon, stays inside of `namebuf`. -/
theorem length_namebuf_le (v : VolumeNode) : v.namebuf.length ≤ 108 := by
  rw [VolumeNode.namebuf]
  cases v.name with
  | none => decide
  | some bstr =>
    have hcut : (cut (bstr.take 107 ++ [':'])).length ≤ (bstr.take 107 ++ [':']).length :=
      (List.takeWhile_prefix _).length_le
    have htake : (bstr.take 107).length ≤ 107 := List.length_take_le 107 bstr
    rw [List.length_append, List.length_singleton] at hcut
    exact hcut.trans (by omega)

/-- The entry of a volume stays inside of `entry`. -/
theorem length_volumeEntry_lt (v : VolumeNode) : v.entry.length < 160 := by
  have hdecimal (n : UInt32) : (decimal n.toNat).length ≤ 10 := by
    have hn := n.toNat_lt
    rw [decimal, Nat.length_toDigits_le_iff (by omega) (by omega)]
    omega
  have hhandler : v.handler.length ≤ 7 := by
    rw [VolumeNode.handler]
    split <;> decide
  have hstate : v.state.length ≤ 11 := by
    rw [VolumeNode.state]
    split <;> decide
  have hname := length_namebuf_le v
  have hused := hdecimal v.usedK
  have hfree := hdecimal v.freeK
  simp only [VolumeNode.entry, List.length_append, List.length_cons]
  omega

/-! ### Lists -/

/-- The end of a listing: its number is put in front of its entries. -/
def patched (header : Text) (listing : Text × Nat) : Text :=
  header ++ patchCount 5 (decimal listing.2 ++ ['|']) (listing.1.drop (header.length + 5))

/-- The loop over the nodes of a list. An entry that is longer than its array of `size` characters
is written past the end of it, and nothing is known of what follows. -/
def appendNodes (limit size : Nat) : Nat → Text → List Text → Option (Text × Nat)
  | count, buf, [] => some (buf, count)
  | count, buf, entry :: entries =>
    if size ≤ entry.length then none
    else if 0 < count ∧ limit ≤ buf.length + 1 then some (buf, count)
    else
      let buf := if 0 < count then buf ++ [','] else buf
      if limit ≤ buf.length + entry.length then some (buf, count)
      else appendNodes limit size (count + 1) (buf ++ entry) entries

/-- The current task, which is passed over if it does not fit. -/
def appendCurrent (limit size : Nat) (buf : Text) : Option Text → Option (Text × Nat)
  | none => some (buf, 0)
  | some entry =>
    if size ≤ entry.length then none
    else if limit ≤ buf.length + entry.length then some (buf, 0)
    else some (buf ++ entry, 1)

/-- A listing with an array of `size` characters for its entries. -/
def arrayLine (size : Nat) (header : Text) (entries : List Text) : Option Text :=
  (appendNodes (maxLine - 1) size 0 (header ++ List.replicate 5 ' ') entries).map (patched header)

/-- `sys_list_tasks`. -/
def sysListTasks (current : Option TaskNode) (ready wait : List TaskNode) : Option Text :=
  let header := "TASKS|".toList
  let formatTaskEntry (state : TaskState) (t : TaskNode) := ListedTask.entry ⟨state, t⟩
  (appendCurrent (maxLine - 1) 120 (header ++ List.replicate 5 ' ')
      (current.map (formatTaskEntry .run))).bind fun (buf, count) =>
    (appendNodes (maxLine - 1) 120 count buf
        (ready.map (formatTaskEntry .ready))).bind fun (buf, count) =>
      (appendNodes (maxLine - 1) 120 count buf
        (wait.map (formatTaskEntry .wait))).map (patched header)

/-- `sys_list_libs`. -/
def sysListLibs (libList : List LibNode) : Option Text :=
  arrayLine 80 "LIBS|".toList (libList.map LibNode.entry)

/-- `sys_list_devices`. -/
def sysListDevices (deviceList : List LibNode) : Option Text :=
  arrayLine 80 "DEVICES|".toList (deviceList.map LibNode.entry)

/-- `sys_list_volumes`, the answer to `LISTVOLUMES`. -/
def sysListVolumes (volumes : List VolumeNode) : Text :=
  countedLine "VOLUMES|".toList (volumes.map VolumeNode.namebuf)

/-- `sys_handle_volumes_ext`, the answer to `VOLUMES`: at most 32 volumes are looked at. -/
def sysHandleVolumesExt (volumes : List VolumeNode) : Text :=
  countedLine "VOLUMES|".toList ((volumes.take 32).map VolumeNode.entry)

/-- `sys_handle_ports`. -/
def sysHandlePorts (portList : List (Option CString)) : Text :=
  countedLine "PORTS|".toList (portList.map nodeName)

/-! ### What fits -/

/-- The number of entries that fit below the limit behind `used` characters, each with a comma. -/
def fitting (limit : Nat) : Nat → List Text → Nat
  | _, [] => 0
  | used, entry :: entries =>
    if used + 1 + entry.length < limit then fitting limit (used + 1 + entry.length) entries + 1
    else 0

/-- The characters there are with entries behind `used` characters, each with a comma. -/
def spread (used : Nat) (entries : List Text) : Nat :=
  used + (entries.map (',' :: ·)).flatten.length

/-- The comma in front of an entry that does not fit. -/
def dangling (limit used : Nat) (left : List Text) : Text :=
  if left ≠ [] ∧ used + 1 < limit then [','] else []

/-- Entries that are shorter than the array they are formatted in. -/
def InArray (size : Nat) (entries : List Text) : Prop := ∀ entry ∈ entries, entry.length < size

instance (size : Nat) (entries : List Text) : Decidable (InArray size entries) :=
  inferInstanceAs (Decidable (∀ entry ∈ entries, entry.length < size))

section Fitting

variable {limit size used count : Nat} {buf entry : Text} {entries : List Text}

theorem spread_nil (used : Nat) : spread used [] = used := rfl

theorem spread_cons (used : Nat) (entry : Text) (entries : List Text) :
    spread used (entry :: entries) = spread (used + 1 + entry.length) entries := by
  rw [spread, spread, List.map_cons, List.flatten_cons, List.length_append, List.length_cons]
  omega

theorem spread_append (used : Nat) (front back : List Text) :
    spread used (front ++ back) = spread (spread used front) back := by
  rw [spread, spread, spread, List.map_append, List.flatten_append, List.length_append]
  omega

theorem le_spread (used : Nat) (entries : List Text) :
    used + entries.length ≤ spread used entries := by
  induction entries generalizing used with
  | nil => exact Nat.le_refl _
  | cons entry entries ih =>
    have hrest := ih (used + 1 + entry.length)
    rw [spread_cons, List.length_cons]
    omega

theorem fitting_cons_of_fits (h : used + 1 + entry.length < limit) :
    fitting limit used (entry :: entries) =
      fitting limit (used + 1 + entry.length) entries + 1 := by
  rw [fitting, if_pos h]

theorem fitting_cons_of_not (h : ¬ used + 1 + entry.length < limit) :
    fitting limit used (entry :: entries) = 0 := by
  rw [fitting, if_neg h]

theorem fitting_le_length (limit used : Nat) (entries : List Text) :
    fitting limit used entries ≤ entries.length := by
  induction entries generalizing used with
  | nil => exact Nat.le_refl _
  | cons entry entries ih =>
    rw [fitting]
    split
    · exact Nat.succ_le_succ (ih _)
    · exact Nat.zero_le _

/-- The entries that fit stay below the limit. -/
theorem spread_take_fitting (h : used < limit) :
    spread used (entries.take (fitting limit used entries)) < limit := by
  induction entries generalizing used with
  | nil => exact h
  | cons entry entries ih =>
    by_cases hfits : used + 1 + entry.length < limit
    · rw [fitting_cons_of_fits hfits, List.take_succ_cons, spread_cons]
      exact ih hfits
    · rw [fitting_cons_of_not hfits]
      exact h

theorem dangling_cases (limit used : Nat) (left : List Text) :
    dangling limit used left = [] ∨ dangling limit used left = [','] := by
  rw [dangling]
  split
  · exact .inr rfl
  · exact .inl rfl

theorem used_add_length_dangling (limit : Nat) {used : Nat} (left : List Text) (h : used < limit) :
    used + (dangling limit used left).length < limit := by
  rw [dangling]
  split
  · next hroom => exact hroom.2
  · exact h

/-- Behind other entries, those that fit are appended. -/
theorem appendEntries_fitting (hcount : 0 < count) :
    appendEntries limit count buf entries =
      (buf ++ ((entries.take (fitting limit buf.length entries)).map (',' :: ·)).flatten ++
        dangling limit (spread buf.length (entries.take (fitting limit buf.length entries)))
          (entries.drop (fitting limit buf.length entries)),
        count + fitting limit buf.length entries) := by
  induction entries generalizing count buf with
  | nil => simp [appendEntries, fitting, dangling]
  | cons entry entries ih =>
    by_cases hfits : buf.length + 1 + entry.length < limit
    · have hlen : (buf ++ [','] ++ entry).length = buf.length + 1 + entry.length := by
        rw [List.length_append, List.length_append, List.length_singleton]
      rw [appendEntries, if_neg (by omega), if_pos hcount]
      simp only
      rw [if_neg (by rw [List.length_append, List.length_singleton]; omega),
        ih (Nat.succ_pos count), hlen, fitting_cons_of_fits hfits, List.take_succ_cons,
        List.drop_succ_cons, spread_cons, List.map_cons, List.flatten_cons]
      simp only [List.append_assoc, List.cons_append, List.nil_append, Prod.mk.injEq, true_and]
      omega
    · rw [fitting_cons_of_not hfits, appendEntries, if_pos hcount]
      simp only [List.take_zero, List.map_nil, List.flatten_nil, List.append_nil, List.drop_zero,
        Nat.add_zero, spread, List.length_nil, dangling, ne_eq, reduceCtorEq, not_false_eq_true,
        true_and]
      by_cases hroom : buf.length + 1 < limit
      · rw [if_neg (by omega), if_pos (by rw [List.length_append, List.length_singleton]; omega),
          if_pos hroom]
      · rw [if_pos ⟨hcount, by omega⟩, if_neg hroom, List.append_nil]

theorem inArray_nil (size : Nat) : InArray size [] := fun _ hmem => absurd hmem List.not_mem_nil

theorem inArray_cons (size : Nat) (entry : Text) (entries : List Text) :
    InArray size (entry :: entries) ↔ entry.length < size ∧ InArray size entries :=
  List.forall_mem_cons

/-- The loop with an array is the one without as long as the entries that it formats are shorter
than the array: the ones that fit and the one behind them. -/
theorem appendNodes_eq (hused : used + 1 = buf.length + if 0 < count then 1 else 0) :
    appendNodes limit size count buf entries =
      if InArray size (entries.take (fitting limit used entries + 1)) then
        some (appendEntries limit count buf entries)
      else none := by
  induction entries generalizing count buf used with
  | nil => rw [List.take_nil, if_pos (inArray_nil size), appendNodes, appendEntries]
  | cons entry entries ih =>
    rw [appendNodes, List.take_succ_cons]
    by_cases hshort : entry.length < size
    · rw [if_neg (by omega), appendEntries,
        if_congr ((inArray_cons size entry _).trans (and_iff_right hshort)) rfl rfl]
      have hcomma : (if 0 < count then buf ++ [','] else buf).length = used + 1 := by
        rw [hused]
        split
        · rw [List.length_append, List.length_singleton]
        · exact (Nat.add_zero _).symm
      by_cases hroom : 0 < count ∧ limit ≤ buf.length + 1
      · have hnot : ¬ used + 1 + entry.length < limit := by
          rw [if_pos hroom.1] at hused
          omega
        rw [if_pos hroom, if_pos hroom, fitting_cons_of_not hnot, List.take_zero,
          if_pos (inArray_nil size)]
      · rw [if_neg hroom, if_neg hroom]
        simp only
        generalize (if 0 < count then buf ++ [','] else buf) = joined at hcomma ⊢
        rw [hcomma]
        by_cases hfits : used + 1 + entry.length < limit
        · rw [if_neg (Nat.not_le_of_lt hfits), if_neg (Nat.not_le_of_lt hfits),
            fitting_cons_of_fits hfits]
          exact ih (by rw [List.length_append, hcomma, if_pos (Nat.succ_pos count)])
        · rw [if_pos (Nat.le_of_not_lt hfits), if_pos (Nat.le_of_not_lt hfits),
            fitting_cons_of_not hfits, List.take_zero, if_pos (inArray_nil size)]
    · rw [if_pos (by omega), if_neg fun h => hshort ((inArray_cons size entry _).mp h).1]

theorem fitting_full (h : limit ≤ used + 1) (entries : List Text) :
    fitting limit used entries = 0 := by
  cases entries with
  | nil => rfl
  | cons entry entries => exact fitting_cons_of_not (by omega)

/-- Where not even a comma fits, nothing is appended. -/
theorem appendEntries_full (hcount : 0 < count) (h : limit ≤ buf.length + 1)
    (entries : List Text) : appendEntries limit count buf entries = (buf, count) := by
  cases entries with
  | nil => rfl
  | cons entry entries => rw [appendEntries, if_pos ⟨hcount, h⟩]

/-! ### Listings from their start -/

variable {start : Text}

theorem intercalate_append {done : List Text} (hdone : done ≠ []) (entries : List Text) :
    [','].intercalate (done ++ entries) =
      [','].intercalate done ++ (entries.map (',' :: ·)).flatten := by
  obtain ⟨first, rest, rfl⟩ := List.exists_cons_of_ne_nil hdone
  rw [List.cons_append, Text.intercalate_cons_eq, Text.intercalate_cons_eq, List.map_append,
    List.flatten_append, List.append_assoc]

/-- The first entry has no comma in front of it; the start has one character that counts for it. -/
theorem length_joined (hstart : start ≠ []) {done : List Text} (hdone : done ≠ []) :
    (start ++ [','].intercalate done).length = spread (start.length - 1) done := by
  obtain ⟨first, rest, rfl⟩ := List.exists_cons_of_ne_nil hdone
  have hpos := List.length_pos_iff.mpr hstart
  rw [Text.intercalate_cons_eq, spread_cons, spread, List.length_append, List.length_append]
  omega

/-- What a listing has in its buffer behind the entries at its start. -/
def behind (limit : Nat) (start : Text) (front left : List Text) : Text :=
  start ++ [','].intercalate front ++
    if front = [] then [] else dangling limit (spread (start.length - 1) front) left

theorem appendEntries_nonempty (hstart : start ≠ []) {done : List Text} (hdone : done ≠ [])
    {n : Nat} (hn : n = fitting limit (spread (start.length - 1) done) entries) :
    appendEntries limit done.length (start ++ [','].intercalate done) entries =
      (behind limit start (done ++ entries.take n) (entries.drop n),
        (done ++ entries.take n).length) := by
  have hfit := fitting_le_length limit (spread (start.length - 1) done) entries
  rw [appendEntries_fitting (List.length_pos_iff.mpr hdone), length_joined hstart hdone, ← hn,
    behind, if_neg (List.append_ne_nil_of_left_ne_nil hdone _), intercalate_append hdone,
    spread_append, List.length_append, List.length_take, Nat.min_eq_left (hn ▸ hfit),
    List.append_assoc start]

/-- From entries that all fitted, a listing goes on to the first that does not. -/
theorem appendEntries_behind (hstart : start ≠ []) (done : List Text) {n : Nat}
    (hn : n = fitting limit (spread (start.length - 1) done) entries) :
    appendEntries limit done.length (start ++ [','].intercalate done) entries =
      (behind limit start (done ++ entries.take n) (entries.drop n),
        (done ++ entries.take n).length) := by
  cases done with
  | cons first rest => exact appendEntries_nonempty hstart (List.cons_ne_nil first rest) hn
  | nil =>
    cases entries with
    | nil =>
      rw [List.take_nil, List.append_nil, behind, if_pos rfl, List.append_nil]
      rfl
    | cons entry entries =>
      have hpos := List.length_pos_iff.mpr hstart
      rw [List.intercalate_nil, List.append_nil, List.nil_append, List.length_nil,
        appendEntries_cons]
      rw [spread_nil] at hn
      by_cases hfits : start.length - 1 + 1 + entry.length < limit
      · have hrest := @appendEntries_nonempty limit entries start hstart [entry]
          (List.cons_ne_nil entry []) _ rfl
        rw [List.intercalate_singleton, List.length_singleton] at hrest
        rw [fitting_cons_of_fits hfits] at hn
        rw [if_neg (by omega), hrest, spread_cons, spread_nil, hn, List.take_succ_cons,
          List.drop_succ_cons]
        rfl
      · rw [fitting_cons_of_not hfits] at hn
        rw [if_pos (by omega), hn, List.take_zero, behind, if_pos rfl, List.intercalate_nil,
          List.append_nil, List.append_nil]
        rfl

theorem length_behind_lt (hstart : start ≠ []) {front : List Text} (left : List Text)
    (hroom : start.length < limit) (hfront : spread (start.length - 1) front < limit) :
    (behind limit start front left).length < limit := by
  rw [behind]
  split
  · next hnil => rwa [hnil, List.intercalate_nil, List.append_nil, List.append_nil]
  · next hne =>
    rw [List.length_append, length_joined hstart hne]
    exact used_add_length_dangling limit left hfront

end Fitting

/-! ### Lines -/

section Lines

variable {header : Text}

theorem patched_eq {buf text : Text} {count : Nat} (hcount : count < 10 ^ 4)
    (hbuf : buf = header ++ List.replicate 5 ' ' ++ text) :
    patched header (buf, count) = header ++ (decimal count ++ '|' :: text) := by
  have hdigits : (decimal count).length ≤ 4 := by
    rw [decimal, Nat.length_toDigits_le_iff (by omega) (by omega)]
    exact hcount
  rw [patched, hbuf, ← length_reserved header, List.drop_left, patchCount,
    if_pos (by simp only [List.length_append, List.length_singleton]; omega), List.append_assoc]
  rfl

/-- Neither the number nor what is shifted behind it needs more than was there before. -/
theorem length_patched_le {count : Nat} (hcount : count < 10 ^ 4) (text : Text) :
    (header ++ (decimal count ++ '|' :: text)).length ≤
      (header ++ List.replicate 5 ' ' ++ text).length := by
  have hdigits : (decimal count).length ≤ 4 := by
    rw [decimal, Nat.length_toDigits_le_iff (by omega) (by omega)]
    exact hcount
  simp only [List.length_append, List.length_cons, List.length_replicate]
  omega

/-- The number of nodes that a list shows: those that fit behind the header and the room for their
number. -/
def shown (header : Text) (entries : List Text) : Nat :=
  fitting (maxLine - 1) (header.length + 4) entries

/-- A line with these entries. -/
structure LineOf (header : Text) (front : List Text) (line : Text) : Prop where
  text : ∃ tail, (tail = [] ∨ tail = [',']) ∧ (front = [] → tail = []) ∧
    line = header ++ (decimal front.length ++ '|' :: ([','].intercalate front ++ tail))
  length_lt : line.length < maxLine
  count_lt : front.length < 10 ^ 4

theorem lineOf_patched (hheader : header.length ≤ 1024) (front left : List Text)
    (hfront : spread (header.length + 4) front < maxLine - 1) :
    LineOf header front (patched header
      (behind (maxLine - 1) (header ++ List.replicate 5 ' ') front left, front.length)) := by
  have hstart : header ++ List.replicate 5 ' ' ≠ [] :=
    List.append_ne_nil_of_right_ne_nil _ (List.cons_ne_nil _ _)
  have hlen := length_reserved header
  have hused : (header ++ List.replicate 5 ' ').length - 1 = header.length + 4 := by omega
  have hline : maxLine = 8192 := rfl
  have hcount := le_spread (header.length + 4) front
  have hbuf := @length_behind_lt (maxLine - 1) _ hstart front left (by omega)
    (hused.symm ▸ hfront)
  rw [behind, List.append_assoc] at hbuf ⊢
  rw [patched_eq (by omega) rfl]
  refine ⟨⟨_, ?_, fun hnil => if_pos hnil, rfl⟩, ?_, by omega⟩
  · split
    · exact .inl rfl
    · exact dangling_cases _ _ _
  · have hle := @length_patched_le header front.length (by omega) ([','].intercalate front ++
      if front = [] then [] else dangling (maxLine - 1)
        (spread ((header ++ List.replicate 5 ' ').length - 1) front) left)
    omega

theorem appendEntries_shown (entries : List Text) :
    appendEntries (maxLine - 1) 0 (header ++ List.replicate 5 ' ') entries =
      (behind (maxLine - 1) (header ++ List.replicate 5 ' ')
        (entries.take (shown header entries)) (entries.drop (shown header entries)),
        (entries.take (shown header entries)).length) := by
  have hstart : header ++ List.replicate 5 ' ' ≠ [] :=
    List.append_ne_nil_of_right_ne_nil _ (List.cons_ne_nil _ _)
  have hn : shown header entries = fitting (maxLine - 1)
      (spread ((header ++ List.replicate 5 ' ').length - 1) []) entries := by
    rw [shown, spread_nil, length_reserved, Nat.add_sub_assoc (by decide)]
  have hall := appendEntries_behind hstart [] hn
  rwa [List.intercalate_nil, List.append_nil, List.length_nil] at hall

theorem spread_take_shown (hheader : header.length ≤ 1024) (entries : List Text) :
    spread (header.length + 4) (entries.take (shown header entries)) < maxLine - 1 :=
  spread_take_fitting (by rw [maxLine]; omega)

/-- A listing shows the first entries, as many as fit. -/
theorem lineOf_countedLine (hheader : header.length ≤ 1024) (entries : List Text) :
    LineOf header (entries.take (shown header entries)) (countedLine header entries) := by
  have hline : countedLine header entries = patched header
      (appendEntries (maxLine - 1) 0 (header ++ List.replicate 5 ' ') entries) := rfl
  rw [hline, appendEntries_shown]
  exact lineOf_patched hheader _ _ (spread_take_shown hheader entries)

/-- With an array there is a line if the entries that are formatted are shorter than it. -/
theorem arrayLine_eq (size : Nat) (header : Text) (entries : List Text) :
    arrayLine size header entries =
      if InArray size (entries.take (shown header entries + 1)) then
        some (countedLine header entries)
      else none := by
  have hused : header.length + 4 + 1 =
      (header ++ List.replicate 5 ' ').length + if 0 < 0 then 1 else 0 :=
    (length_reserved header).symm
  rw [arrayLine, appendNodes_eq hused, shown]
  split
  · rfl
  · rfl

end Lines

end AmigaDevbench.Daemon
