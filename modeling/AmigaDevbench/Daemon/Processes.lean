import AmigaDevbench.Core.Runs
import AmigaDevbench.Daemon.Directory
import AmigaDevbench.Daemon.Listings

/-!
# Launched processes

A launch is checked for an executable and started asynchronously, and gets an entry of the table
under the next id. Nothing tells the daemon that a process has exited, and no command removes an
entry: the table lists every process that has got one.
-/

namespace AmigaDevbench.Daemon

open CText CNumber

/-! ### Launching -/

/-- A blank that separates the words of a command. -/
def isBlank (c : Char) : Bool := c = ' ' ∨ c = '\t'

/-- `extract_exe_path`, into a buffer of `bufSize` characters. -/
def extractExePath (command : Text) (bufSize : Nat) : Text :=
  match command.dropWhile isBlank with
  | '"' :: path => (path.takeWhile (· ≠ '"')).take (bufSize - 1)
  | path => (path.takeWhile fun c => !isBlank c).take (bufSize - 1)

namespace ProcTable

/-- What `proc_track` returns. -/
def trackId (t : ProcTable) : Int :=
  match t.procs.findFree with
  | some _ => toSigned 32 t.nextProcId
  | none => -1

/-- The answer to a launch. -/
def startedText (trackId : Int) (command : Text) : Text :=
  ((if 0 < trackId then "Started (proc ".toList ++ (Client.longText trackId ++ "): ".toList)
    else "Started: ".toList) ++ command).take 255

/-- `proc_run_async`, which is given whether paths exist and whether `SystemTags` has started
the process. -/
def procRunAsync (pathExists : Text → Bool) (started : Bool) (t : ProcTable) (command : CString) :
    ProcTable × Except Text Text :=
  let exePath := extractExePath command.val 256
  if exePath = [] then (t, .error "Empty command".toList)
  else if (':' ∈ exePath ∨ '/' ∈ exePath) ∧ !pathExists exePath then
    (t, .error ("Not found: ".toList ++ exePath.take 200))
  else if !started then (t, .error "Failed to start process".toList)
  else (t.procTrack command.val, .ok (startedText t.trackId command.val))

end ProcTable

/-! ### The listing -/

theorem TrackedProc.entry_ne_nil (p : TrackedProc) : p.entry ≠ [] :=
  List.append_ne_nil_of_right_ne_nil _ (List.cons_ne_nil _ _)

theorem TrackedProc.length_entry_le (p : TrackedProc) : p.entry.length ≤ 147 := by
  have hid := length_longText_le p.id_ge p.id_lt
  have hcommand := p.command_le
  have hrunning : "running".toList.length = 7 := rfl
  rw [TrackedProc.entry, List.length_append, List.length_cons, List.length_append,
    List.length_cons, hrunning]
  omega

/-- The table always fits into the line. -/
theorem procList_eq (t : ProcTable) :
    procList t = "PROCLIST|".toList ++ (decimal t.procs.entries.length ++
      '|' :: [','].intercalate (t.procs.entries.map TrackedProc.entry)) := by
  have hne : ∀ entry ∈ t.procs.entries.map TrackedProc.entry, entry ≠ [] := by
    intro entry hmem
    obtain ⟨p, -, rfl⟩ := List.mem_map.mp hmem
    exact p.entry_ne_nil
  have hlen : ∀ entry ∈ t.procs.entries.map TrackedProc.entry, entry.length ≤ 147 := by
    intro entry hmem
    obtain ⟨p, -, rfl⟩ := List.mem_map.mp hmem
    exact p.length_entry_le
  have hfits : AllFit "PROCLIST|".toList (t.procs.entries.map TrackedProc.entry) := by
    have hcount : t.procs.entries.length ≤ 16 := Slots.length_entries_le
    have htotal := Text.length_intercalate_le (c := ',') hlen
    have hheader : "PROCLIST|".toList.length = 9 := rfl
    rw [List.length_map] at htotal
    rw [AllFit, maxLine, hheader]
    omega
  rw [procList, countedLine_of_fits hne hfits, List.length_map]

/-! ### Histories -/

/-- A launched process, with what `proc_track` returned for it. -/
structure Launched where
  id : Int
  command : Text

/-- The entry of a listing for a process. -/
def Launched.entry (p : Launched) : Text :=
  Client.longText p.id ++ ':' :: (p.command ++ ':' :: "running".toList)

/-- The table and the processes that have not exited. -/
structure ProcState where
  table : ProcTable
  running : List Launched

/-- A launch, with what it finds, or the exit of a running process. -/
inductive ProcEvent
  | launch (command : CString) (pathExists : Text → Bool) (started : Bool)
  | exit (k : Nat)

/-- A process is launched while fewer than the table size are running. The daemon takes no notice
of an exit. -/
def procStep (s : ProcState) : ProcEvent → Option ProcState
  | .launch command pathExists started =>
    if s.running.length < maxTrackedProcs then
      match s.table.procRunAsync pathExists started command with
      | (table, .ok _) => some ⟨table, s.running ++ [⟨s.table.trackId, fit 127 command.val⟩]⟩
      | (table, .error _) => some ⟨table, s.running⟩
    else none
  | .exit k =>
    if k < s.running.length then some { s with running := s.running.eraseIdx k } else none

/-- The daemon as `proc_init` leaves it. -/
def procInit : ProcState := ⟨.initial, []⟩

/-- What the table reports as running. -/
def ProcTable.reported (t : ProcTable) : List Launched :=
  t.procs.entries.map fun p => ⟨p.id, p.command.val⟩

/-- The listing carries the running processes and no others, and while there are fewer than the
table size, a launch gets an entry under an id that no running process has. -/
structure Recycled (s : ProcState) : Prop where
  listing : procList s.table = "PROCLIST|".toList ++ (decimal s.table.reported.length ++
    '|' :: [','].intercalate (s.table.reported.map Launched.entry))
  exact : s.table.reported.Perm s.running
  entry : s.running.length < maxTrackedProcs → ∀ command,
    ∃ p ∈ (s.table.procTrack command).reported, p = ⟨s.table.trackId, fit 127 command⟩ ∧
      0 < p.id ∧ ∀ q ∈ s.running, q.id ≠ p.id

/-- The ids have been given out one after another, and none is given back. -/
structure IdsInOrder (t : ProcTable) : Prop where
  next : t.nextProcId = t.procs.entries.length + 1
  below : ∀ p ∈ t.procs.entries, p.id < t.nextProcId

section Table

variable {t : ProcTable} {command : Text}

/-- With a free slot, `proc_track` puts the next id there. -/
theorem procTrack_of_free {i : Fin maxTrackedProcs} (hfree : t.procs.findFree = some i) :
    ∃ p : TrackedProc, p.id = toSigned 32 t.nextProcId ∧ p.command.val = fit 127 command ∧
      t.trackId = p.id ∧ (t.procTrack command).procs = t.procs.put i p ∧
      (t.procTrack command).nextProcId = toSigned 32 (t.nextProcId + 1) := by
  rw [ProcTable.procTrack, ProcTable.trackId, hfree]
  exact ⟨_, rfl, rfl, rfl, rfl, rfl⟩

theorem procTrack_of_full (hfull : t.procs.findFree = none) : t.procTrack command = t := by
  rw [ProcTable.procTrack, hfull]

theorem nextProcId_le (h : IdsInOrder t) : t.nextProcId ≤ 17 := by
  have hcount : t.procs.entries.length ≤ 16 := Slots.length_entries_le
  rw [h.next]
  omega

/-- The next id is given out as it is, and is not in use. -/
theorem trackId_of_free (h : IdsInOrder t) {i : Fin maxTrackedProcs}
    (hfree : t.procs.findFree = some i) :
    t.trackId = t.nextProcId ∧ 0 < t.trackId ∧ ∀ p ∈ t.procs.entries, p.id ≠ t.trackId := by
  have hnext := nextProcId_le h
  have hpos : 0 < t.nextProcId := by
    rw [h.next]
    omega
  have hid : t.trackId = t.nextProcId := by
    rw [ProcTable.trackId, hfree]
    exact toSigned_eq_self (by decide) (by omega) (by omega)
  exact ⟨hid, hid ▸ hpos, fun p hp => hid ▸ (h.below p hp).ne⟩

/-- A launch that gets an entry adds it to the reported ones. -/
theorem reported_procTrack {i : Fin maxTrackedProcs} (hfree : t.procs.findFree = some i) :
    (t.procTrack command).reported.Perm (⟨t.trackId, fit 127 command⟩ :: t.reported) := by
  obtain ⟨p, -, hcommand, hid, hprocs, -⟩ := @procTrack_of_free _ command _ hfree
  have hperm := Slots.perm_put_free (a := p) (Slots.findFree_eq_some hfree)
  have hreported := hperm.map fun p : TrackedProc => (⟨p.id, p.command.val⟩ : Launched)
  rw [List.map_cons, hcommand, ← hid] at hreported
  rw [ProcTable.reported, hprocs]
  exact hreported

theorem idsInOrder_initial : IdsInOrder .initial :=
  have hnone : ProcTable.initial.procs.entries = [] := Slots.entries_empty
  ⟨by rw [hnone]; rfl, fun p hp => absurd (hnone ▸ hp) List.not_mem_nil⟩

/-- A launch keeps the ids in order. -/
theorem idsInOrder_procTrack (h : IdsInOrder t) (command : Text) : IdsInOrder (t.procTrack command) := by
  cases hfree : t.procs.findFree with
  | none =>
    rw [procTrack_of_full hfree]
    exact h
  | some i =>
    obtain ⟨p, hp, -, htrack, hprocs, hnext⟩ := @procTrack_of_free _ command _ hfree
    have hle := nextProcId_le h
    have hfirst := h.next
    have hid : p.id = t.nextProcId := htrack.symm.trans (trackId_of_free h hfree).1
    have hsucc : toSigned 32 (t.nextProcId + 1) = t.nextProcId + 1 :=
      toSigned_eq_self (by decide) (by omega) (by omega)
    have hperm := Slots.perm_put_free (a := p) (Slots.findFree_eq_some hfree)
    refine ⟨?_, fun q hq => ?_⟩
    · rw [hnext, hsucc, hprocs, hperm.length_eq, List.length_cons, hfirst]
      omega
    · rw [hnext, hsucc]
      rw [hprocs] at hq
      rcases List.mem_cons.mp (hperm.mem_iff.mp hq) with rfl | hq
      · omega
      · have hbelow := h.below q hq
        omega

end Table

/-- A launch is refused, and the table stays as it is, or the process is tracked. -/
theorem procRunAsync_cases (pathExists : Text → Bool) (started : Bool) (t : ProcTable)
    (command : CString) :
    (∃ message, t.procRunAsync pathExists started command = (t, .error message)) ∨
      ∃ text, t.procRunAsync pathExists started command = (t.procTrack command.val, .ok text) := by
  rw [ProcTable.procRunAsync]
  split
  · exact .inl ⟨_, rfl⟩
  · split
    · exact .inl ⟨_, rfl⟩
    · split
      · exact .inl ⟨_, rfl⟩
      · exact .inr ⟨_, rfl⟩

/-! ### Runs -/

section Runs

variable {s s' : ProcState} {e : ProcEvent}

/-- A process is tracked and runs, a launch is refused, or a process exits. -/
theorem procStep_cases (h : procStep s e = some s') :
    (∃ command : Text, (∀ k, e ≠ .exit k) ∧ s.running.length < maxTrackedProcs ∧
      s' = ⟨s.table.procTrack command, s.running ++ [⟨s.table.trackId, fit 127 command⟩]⟩) ∨
    ((∀ k, e ≠ .exit k) ∧ s' = s) ∨
    ∃ k, e = .exit k ∧ k < s.running.length ∧
      s' = ⟨s.table, s.running.eraseIdx k⟩ := by
  cases e with
  | launch command pathExists started =>
    have hlaunch : ∀ k, ProcEvent.launch command pathExists started ≠ .exit k := by
      intro k hk
      cases hk
    rw [procStep] at h
    split at h
    · next hroom =>
      rcases procRunAsync_cases pathExists started s.table command with ⟨message, hrun⟩ |
        ⟨text, hrun⟩
      · rw [hrun] at h
        exact .inr (.inl ⟨hlaunch, (Option.some.inj h).symm⟩)
      · rw [hrun] at h
        exact .inl ⟨command.val, hlaunch, hroom, (Option.some.inj h).symm⟩
    · cases h
  | exit k =>
    rw [procStep] at h
    split at h
    · next hlt => exact .inr (.inr ⟨k, rfl, hlt, (Option.some.inj h).symm⟩)
    · cases h

/-- In every state the ids have been given out in order. -/
theorem idsInOrder_step (h : IdsInOrder s.table) (hstep : procStep s e = some s') :
    IdsInOrder s'.table := by
  rcases procStep_cases hstep with ⟨command, -, -, rfl⟩ | ⟨-, rfl⟩ | ⟨k, -, -, rfl⟩
  · exact idsInOrder_procTrack h command
  · exact h
  · exact h

/-- While the table reports the running processes, a slot is free for the next one. -/
theorem exists_free (h : s.table.reported.Perm s.running)
    (hroom : s.running.length < maxTrackedProcs) : ∃ i, s.table.procs.findFree = some i := by
  refine Option.ne_none_iff_exists'.mp fun hfull => ?_
  have hlen := h.length_eq
  rw [ProcTable.reported, List.length_map, Slots.length_entries_of_full hfull] at hlen
  omega

/-- The table is all that has to agree with the running processes. -/
theorem recycled_iff (h : IdsInOrder s.table) :
    Recycled s ↔ s.table.reported.Perm s.running := by
  refine ⟨Recycled.exact, fun hexact => ⟨?_, hexact, fun hroom command => ?_⟩⟩
  · rw [procList_eq, ProcTable.reported, List.length_map, List.map_map]
    rfl
  · obtain ⟨i, hfree⟩ := exists_free hexact hroom
    obtain ⟨-, hpos, hnew⟩ := trackId_of_free h hfree
    refine ⟨_, (reported_procTrack hfree).mem_iff.mpr List.mem_cons_self, rfl, hpos,
      fun q hq heq => ?_⟩
    obtain ⟨p, hp, rfl⟩ := List.mem_map.mp (hexact.mem_iff.mpr hq)
    exact hnew p hp heq

/-- From a state in which everything agrees, a step keeps it so unless a process exits. -/
theorem recycled_step_iff (h : IdsInOrder s.table) (hs : Recycled s)
    (hstep : procStep s e = some s') :
    Recycled s' ↔ ∀ k, e = .exit k → s.running.length ≤ k := by
  have hexact := (recycled_iff h).mp hs
  rw [recycled_iff (idsInOrder_step h hstep)]
  rcases procStep_cases hstep with ⟨command, he, hroom, rfl⟩ | ⟨he, rfl⟩ | ⟨k, rfl, hk, rfl⟩
  · refine iff_of_true ?_ fun k hk => absurd hk (he k)
    obtain ⟨i, hfree⟩ := exists_free hexact hroom
    exact (reported_procTrack hfree).trans
      ((hexact.cons _).trans (List.perm_append_singleton _ _).symm)
  · exact iff_of_true hexact fun k hk => absurd hk (he k)
  · refine iff_of_false (fun hperm => ?_) fun hall => absurd (hall k rfl) (Nat.not_le.mpr hk)
    have hlen := hperm.length_eq.symm.trans hexact.length_eq
    rw [List.length_eraseIdx_of_lt hk] at hlen
    omega

end Runs

theorem recycled_init : Recycled procInit := by
  refine (recycled_iff idsInOrder_initial).mpr ?_
  rw [procInit, ProcTable.reported, ProcTable.initial, Slots.entries_empty]
  exact .refl _

/-- Launches and exits are followed throughout a history exactly if no process exits in it. -/
theorem recycled_iff_no_exit (events : List ProcEvent) :
    Always procStep Recycled procInit events ↔
      AllPermitted procStep (fun s e => ∀ k, e = .exit k → s.running.length ≤ k) procInit events :=
  always_iff_allPermitted (fun _ _ _ h hstep => idsInOrder_step h hstep)
    (fun _ _ _ h hs hstep => recycled_step_iff h hs hstep)
    (fun s e hnone k he => by
      rw [he, procStep] at hnone
      split at hnone
      · cases hnone
      · next hlt => exact Nat.not_lt.mp hlt) events procInit idsInOrder_initial recycled_init

/-- A command without a path. -/
def listCommand : CString := ⟨"list".toList, by decide⟩

/-- A process that has exited is listed as running. -/
theorem not_recycled :
    ¬ ∀ events, Always procStep Recycled procInit events := by
  intro hall
  have hrun := hall [.launch listCommand (fun _ => true) true, .exit 0]
  have hlast : ∀ s, runLabels procStep procInit
      [.launch listCommand (fun _ => true) true, .exit 0] = some s → Recycled s :=
    fun s hs => hrun.last hs
  have hlen := (hlast _ rfl).exact.length_eq
  exact absurd hlen (by decide)

end AmigaDevbench.Daemon
