import AmigaDevbench.Daemon.Processes

/-!
# Signals to launched processes

`SIGNAL` looks for a task under a name that it takes from the stored command: what follows the
last slash, or else the last colon, up to the first space. The launcher has read the executable
from the same text with regard to quotes and leading blanks.
-/

namespace AmigaDevbench.Daemon

open CText CNumber

/-! ### The name of a file -/

/-- `strrchr`: what follows the last `c`. -/
def afterLast? (c : Char) : Text → Option Text
  | [] => none
  | d :: s => (afterLast? c s).or (if d = c then some s else none)

/-- The file name part of a path, behind its last slash or colon. -/
def filePart : Text → Text
  | [] => []
  | c :: s =>
    if '/' ∈ s ∨ ':' ∈ s then filePart s
    else if c = '/' ∨ c = ':' then s
    else c :: s

/-- `proc_signal` takes the part behind the last slash, or else behind the last colon. -/
def lastPart (s : Text) : Text := ((afterLast? '/' s).or (afterLast? ':' s)).getD s

/-- The name that `proc_signal` makes of a stored command. -/
def signalName (command : Text) : Text := (lastPart command).before ' '

namespace ProcTable

/-- The name that `proc_signal` looks up for an entry. -/
def lookupName (t : ProcTable) (procId : Int) : Option Text :=
  ((t.procs.find fun p => p.id = procId).bind t.procs).map fun p => signalName p.command.val

/-- `proc_signal`: the task that is signalled, and the signal. -/
def procSignal (isTask : Text → Bool) (t : ProcTable) (procId : Int) (sigType : Nat) :
    Option (Text × Nat) :=
  if 3 < sigType then none
  else do
    let exeName ← t.lookupName procId
    if isTask exeName then some (exeName, [0x1000, 0x2000, 0x4000, 0x8000].getD sigType 0)
    else none

/-- Only a task with the name of the entry is signalled. -/
theorem lookupName_of_procSignal {isTask : Text → Bool} {t : ProcTable} {procId : Int}
    {sigType mask : Nat} {name : Text}
    (h : t.procSignal isTask procId sigType = some (name, mask)) :
    t.lookupName procId = some name := by
  rw [procSignal] at h
  split at h
  · cases h
  · obtain ⟨exeName, hname, h⟩ := Option.bind_eq_some_iff.mp h
    split at h
    · cases h
      exact hname
    · cases h

/-- The name is looked up for the entry, and a signal goes to no task of another name. -/
def SignalsOnly (t : ProcTable) (procId : Int) (name : Text) : Prop :=
  t.lookupName procId = some name ∧ ∀ isTask sigType target mask,
    t.procSignal isTask procId sigType = some (target, mask) → target = name

theorem signalsOnly_iff {t : ProcTable} {procId : Int} {name : Text} :
    t.SignalsOnly procId name ↔ t.lookupName procId = some name :=
  ⟨And.left, fun h => ⟨h, fun _ _ _ _ hsignal =>
    Option.some.inj ((lookupName_of_procSignal hsignal).symm.trans h)⟩⟩

end ProcTable

section Names

variable {c : Char} {s t f : Text}

theorem afterLast?_eq_none : afterLast? c s = none ↔ c ∉ s := by
  induction s with
  | nil => exact iff_of_true rfl List.not_mem_nil
  | cons d s ih =>
    rw [afterLast?, Option.or_eq_none_iff, ih, List.mem_cons, not_or, and_comm, eq_comm (a := c)]
    refine and_congr_left fun _ => ?_
    split
    · next hd => exact iff_of_false (by simp) (not_not_intro hd)
    · next hd => exact iff_of_true rfl hd

/-- What follows the last separator has no other one. -/
theorem afterLast?_eq_some :
    afterLast? c s = some t ↔ c ∉ t ∧ ∃ front, s = front ++ c :: t := by
  induction s with
  | nil =>
    refine iff_of_false (fun h => by cases h) ?_
    rintro ⟨-, front, h⟩
    exact absurd h.symm (List.append_ne_nil_of_right_ne_nil _ (List.cons_ne_nil _ _))
  | cons d s ih =>
    rw [afterLast?, Option.or_eq_some_iff, ih, afterLast?_eq_none]
    constructor
    · rintro (⟨hnone, front, rfl⟩ | ⟨hnone, h⟩)
      · exact ⟨hnone, d :: front, rfl⟩
      · split at h
        · next hd =>
          cases h
          exact ⟨hnone, [], by rw [hd]; rfl⟩
        · cases h
    · rintro ⟨hnone, front, h⟩
      cases front with
      | nil =>
        obtain ⟨rfl, rfl⟩ := List.cons.inj h
        exact .inr ⟨hnone, if_pos rfl⟩
      | cons e front => exact .inl ⟨hnone, front, (List.cons.inj h).2⟩

/-- The text in front ends with the separator that counts: a slash, or else a colon. -/
def EndsAtSeparator (front s : Text) : Prop :=
  front.getLast? = some '/' ∨ '/' ∉ front ∧ ':' ∉ s ∧ ∀ d ∈ front.getLast?, d = ':'

theorem lastPart_eq_iff :
    lastPart s = t ↔ ∃ front, s = front ++ t ∧ '/' ∉ t ∧ EndsAtSeparator front t := by
  rw [lastPart]
  constructor
  · intro h
    cases hslash : afterLast? '/' s with
    | some u =>
      rw [hslash] at h
      obtain rfl : u = t := h
      obtain ⟨hnone, front, rfl⟩ := afterLast?_eq_some.mp hslash
      exact ⟨front ++ ['/'], by simp, hnone, .inl List.getLast?_concat⟩
    | none =>
      rw [hslash, Option.none_or] at h
      have hs := afterLast?_eq_none.mp hslash
      cases hcolon : afterLast? ':' s with
      | some u =>
        rw [hcolon] at h
        obtain rfl : u = t := h
        obtain ⟨hnone, front, rfl⟩ := afterLast?_eq_some.mp hcolon
        simp only [List.mem_append, List.mem_cons, not_or] at hs
        refine ⟨front ++ [':'], by simp, hs.2.2, .inr ⟨?_, hnone, ?_⟩⟩
        · simpa using hs.1
        · rw [List.getLast?_concat]
          exact fun d hd => (Option.some.inj hd).symm
      | none =>
        rw [hcolon] at h
        obtain rfl : s = t := h
        refine ⟨[], rfl, hs, .inr ⟨List.not_mem_nil, afterLast?_eq_none.mp hcolon, ?_⟩⟩
        exact fun d hd => by cases hd
  · rintro ⟨front, rfl, hslash, hend | ⟨hfront, hcolon, hend⟩⟩
    · obtain ⟨u, rfl⟩ := List.getLast?_eq_some_iff.mp hend
      have hlast : afterLast? '/' (u ++ ['/'] ++ t) = some t :=
        afterLast?_eq_some.mpr ⟨hslash, u, by simp⟩
      rw [hlast]
      rfl
    · have hnone : afterLast? '/' (front ++ t) = none :=
        afterLast?_eq_none.mpr (by simp [hfront, hslash])
      rw [hnone, Option.none_or]
      cases hlast : front.getLast? with
      | none =>
        obtain rfl := List.getLast?_eq_none_iff.mp hlast
        rw [List.nil_append, afterLast?_eq_none.mpr hcolon]
        rfl
      | some d =>
        obtain rfl := hend d hlast
        obtain ⟨u, rfl⟩ := List.getLast?_eq_some_iff.mp hlast
        have hsome : afterLast? ':' (u ++ [':'] ++ t) = some t :=
          afterLast?_eq_some.mpr ⟨hcolon, u, by simp⟩
        rw [hsome]
        rfl

/-- A text up to its first separator. -/
theorem before_eq_iff :
    s.before c = f ↔ ∃ back, s = f ++ back ∧ c ∉ f ∧ ∀ d ∈ back.head?, d = c := by
  constructor
  · rintro rfl
    refine ⟨s.dropWhile (· != c), List.takeWhile_append_dropWhile.symm, Text.notMem_before c s,
      fun d hd => ?_⟩
    have hhead := List.head?_dropWhile_not (fun d => d != c) s
    rw [hd] at hhead
    simpa using hhead
  · rintro ⟨back, rfl, hf, hback⟩
    cases back with
    | nil => rw [List.append_nil, Text.before_eq_self hf]
    | cons d back =>
      obtain rfl := hback d rfl
      exact Text.before_append hf back

/-- The name stands in the text behind the separator that counts and before a space or the end. -/
def StandsLast (name s : Text) : Prop :=
  ∃ front back, s = front ++ (name ++ back) ∧ ' ' ∉ name ∧ (∀ d ∈ back.head?, d = ' ') ∧
    '/' ∉ name ++ back ∧ EndsAtSeparator front (name ++ back)

theorem signalName_eq_iff : signalName s = f ↔ StandsLast f s := by
  rw [signalName, before_eq_iff]
  constructor
  · rintro ⟨back, hpart, hf, hback⟩
    obtain ⟨front, hs, hslash, hend⟩ := lastPart_eq_iff.mp hpart
    exact ⟨front, back, hs, hf, hback, hslash, hend⟩
  · rintro ⟨front, back, hs, hf, hback, hslash, hend⟩
    exact ⟨back, lastPart_eq_iff.mpr ⟨front, hs, hslash, hend⟩, hf, hback⟩

/-- What follows a separator and has none itself is the file name. -/
theorem filePart_append {front : Text} (hs : '/' ∉ s ∧ ':' ∉ s)
    (hfront : ∀ d ∈ front.getLast?, d = '/' ∨ d = ':') : filePart (front ++ s) = s := by
  induction front with
  | nil =>
    cases s with
    | nil => rfl
    | cons c s =>
      simp only [List.mem_cons, not_or] at hs
      rw [List.nil_append, filePart, if_neg (not_or_intro hs.1.2 hs.2.2),
        if_neg (not_or_intro (Ne.symm hs.1.1) (Ne.symm hs.2.1))]
  | cons c front ih =>
    rw [List.cons_append, filePart]
    cases front with
    | nil =>
      rw [List.nil_append, if_neg (not_or_intro hs.1 hs.2), if_pos (hfront c rfl)]
    | cons d front =>
      have hlast := ih hfront
      obtain ⟨e, he⟩ := Option.ne_none_iff_exists'.mp
        (mt List.getLast?_eq_none_iff.mp (List.cons_ne_nil d front))
      have hmem : e ∈ d :: front ++ s := List.mem_append_left s (List.mem_of_getLast? he)
      have hsep : '/' ∈ d :: front ++ s ∨ ':' ∈ d :: front ++ s := by
        rcases hfront e he with rfl | rfl
        · exact .inl hmem
        · exact .inr hmem
      rw [if_pos hsep, hlast]

end Names

/-! ### Commands by their form -/

section Forms

variable {dir name args : Text}

/-- The executable of a command without quotes. -/
theorem extractExePath_plain {exe : Text} (hexe : ∀ c ∈ exe, isBlank c = false)
    (hargs : ∀ d ∈ args.head?, isBlank d = true) (hquote : exe.head? ≠ some '"') (hne : exe ≠ [])
    {bufSize : Nat} (hlen : exe.length < bufSize) :
    extractExePath (exe ++ args) bufSize = exe := by
  cases exe with
  | nil => exact absurd rfl hne
  | cons c exe =>
    have hstart : (c :: exe ++ args).dropWhile isBlank = c :: (exe ++ args) :=
      List.dropWhile_cons_of_neg (by rw [hexe c List.mem_cons_self]; exact Bool.false_ne_true)
    have hc : c ≠ '"' := fun h => hquote (congrArg some h)
    have hword : (c :: (exe ++ args)).takeWhile (fun c => !isBlank c) = c :: exe := by
      have hall : ∀ d ∈ c :: exe, (!isBlank d) = true := fun d hd => by rw [hexe d hd]; rfl
      cases args with
      | nil =>
        rw [List.append_nil]
        exact List.takeWhile_eq_self_iff.mpr hall
      | cons b args =>
        have hb : (!isBlank b) = false := by rw [hargs b rfl]; rfl
        have hstop := Text.takeWhile_append_stop (p := fun c => !isBlank c) hb (c :: exe) args
        rw [List.takeWhile_eq_self_iff.mpr hall] at hstop
        exact hstop
    rw [extractExePath, hstart]
    split
    · next heq => exact absurd (List.cons.inj heq).1 hc
    · rw [hword]
      exact List.take_of_length_le (Nat.le_sub_one_of_lt hlen)

/-- An executable without quotes that stands at the beginning, before a space, is signalled by its
name if no separator follows it. -/
theorem signalName_plain (hdir : ∀ c ∈ dir, isBlank c = false)
    (hname : ∀ c ∈ name, isBlank c = false ∧ c ≠ '/' ∧ c ≠ ':')
    (hargs : ∀ d ∈ args.head?, d = ' ') (hslash : '/' ∉ args)
    (hend : EndsAtSeparator dir (name ++ args)) (hquote : (dir ++ name).head? ≠ some '"')
    (hne : dir ++ name ≠ []) (hlen : (dir ++ name).length ≤ 127) :
    signalName ((dir ++ (name ++ args)).take 127) =
      filePart (extractExePath (dir ++ (name ++ args)) 256) := by
  have hblank : ∀ c ∈ dir ++ name, isBlank c = false := fun c hc =>
    (List.mem_append.mp hc).elim (hdir c) fun hc => (hname c hc).1
  have hsep : '/' ∉ name ∧ ':' ∉ name :=
    ⟨fun h => (hname _ h).2.1 rfl, fun h => (hname _ h).2.2 rfl⟩
  have hlast : ∀ d ∈ dir.getLast?, d = '/' ∨ d = ':' := by
    intro d hd
    rcases hend with hend | ⟨-, -, hend⟩
    · rw [hend] at hd
      exact .inl (Option.some.inj hd).symm
    · exact .inr (hend d hd)
  have hexe : extractExePath (dir ++ (name ++ args)) 256 = dir ++ name := by
    rw [← List.append_assoc]
    exact extractExePath_plain hblank (fun d hd => by rw [hargs d hd]; rfl) hquote hne (by omega)
  rw [hexe, filePart_append hsep hlast, signalName_eq_iff]
  have hstored : (dir ++ (name ++ args)).take 127 =
      dir ++ (name ++ args.take (127 - (dir ++ name).length)) := by
    rw [← List.append_assoc, List.take_append, List.take_of_length_le hlen, List.append_assoc]
  have hsub : ∀ c, c ∉ args → c ∉ args.take (127 - (dir ++ name).length) :=
    fun c hc h => hc (List.mem_of_mem_take h)
  have hspace : ' ' ∉ name := fun h => absurd (hname _ h).1 (by decide)
  refine ⟨dir, args.take (127 - (dir ++ name).length), hstored, hspace, ?_, ?_, ?_⟩
  · intro d hd
    rw [List.head?_take] at hd
    split at hd
    · cases hd
    · exact hargs d hd
  · rw [List.mem_append, not_or]
    exact ⟨hsep.1, hsub '/' hslash⟩
  · rcases hend with hend | ⟨hdirs, hcolon, hend⟩
    · exact .inl hend
    · rw [List.mem_append, not_or] at hcolon
      refine .inr ⟨hdirs, ?_, hend⟩
      rw [List.mem_append, not_or]
      exact ⟨hcolon.1, hsub ':' hcolon.2⟩

/-- The executable between quotes. -/
theorem extractExePath_quoted {exe : Text} (hquote : '"' ∉ exe) {bufSize : Nat}
    (hlen : exe.length < bufSize) : extractExePath ('"' :: (exe ++ '"' :: args)) bufSize = exe := by
  have hstart : ('"' :: (exe ++ '"' :: args)).dropWhile isBlank = '"' :: (exe ++ '"' :: args) :=
    List.dropWhile_cons_of_neg (by decide)
  have hstop := Text.takeWhile_append_stop (c := '"') (p := fun c => decide (c ≠ '"'))
    (by decide) exe args
  rw [extractExePath, hstart]
  simp only
  rw [hstop, List.takeWhile_eq_self_iff.mpr, List.take_of_length_le (Nat.le_sub_one_of_lt hlen)]
  intro c hc
  exact decide_eq_true fun h => hquote (h ▸ hc)

/-- No executable between quotes is signalled by its name if no separator follows it: the closing
quote is taken for a part of the name. -/
theorem signalName_quoted (hquote : '"' ∉ dir ++ name) (hname : '/' ∉ name ∧ ':' ∉ name)
    (hslash : '/' ∉ args) (hcolon : '/' ∈ dir ∨ ':' ∉ args)
    (hend : EndsAtSeparator dir name) (hne : dir ++ name ≠ [])
    (hlen : (dir ++ name).length ≤ 125) :
    signalName (('"' :: (dir ++ name ++ '"' :: args)).take 127) ≠
      filePart (extractExePath ('"' :: (dir ++ name ++ '"' :: args)) 256) := by
  have hlast : ∀ d ∈ dir.getLast?, d = '/' ∨ d = ':' := by
    intro d hd
    rcases hend with hend | ⟨-, -, hend⟩
    · rw [hend] at hd
      exact .inl (Option.some.inj hd).symm
    · exact .inr (hend d hd)
  rw [extractExePath_quoted hquote (by omega), filePart_append hname hlast]
  have hstored : ('"' :: (dir ++ name ++ '"' :: args)).take 127 =
      '"' :: (dir ++ (name ++ '"' :: args.take (125 - (dir ++ name).length))) := by
    rw [List.take_succ_cons, List.take_append, List.take_of_length_le (by omega),
      List.append_assoc]
    congr 3
    rw [← List.take_succ_cons]
    congr 1
    omega
  rw [hstored]
  have hsub : ∀ c, c ∉ args → c ∉ args.take (125 - (dir ++ name).length) :=
    fun c hc h => hc (List.mem_of_mem_take h)
  generalize args.take (125 - (dir ++ name).length) = rest at hsub
  intro hsame
  obtain ⟨back, hback, -, hspace⟩ := before_eq_iff.mp hsame
  cases dir with
  | nil =>
    have hnone := hcolon.resolve_left List.not_mem_nil
    have hwhole : lastPart ('"' :: ([] ++ (name ++ '"' :: rest))) =
        '"' :: ([] ++ (name ++ '"' :: rest)) := by
      refine lastPart_eq_iff.mpr ⟨[], rfl, ?_, .inr ⟨List.not_mem_nil, ?_, fun d hd => by cases hd⟩⟩
      · simp [hname.1, hsub '/' hslash]
      · simp [hname.2, hsub ':' hnone]
    rw [hwhole] at hback
    cases name with
    | nil => exact hne rfl
    | cons c name => exact hquote ((List.cons.inj hback).1 ▸ List.mem_cons_self)
  | cons d dir =>
    have hpart : lastPart ('"' :: (d :: dir ++ (name ++ '"' :: rest))) = name ++ '"' :: rest := by
      refine lastPart_eq_iff.mpr ⟨'"' :: d :: dir, rfl, ?_, ?_⟩
      · simp [hname.1, hsub '/' hslash]
      · rcases hend with hend | ⟨hdir, -, hend⟩
        · exact .inl hend
        · refine .inr ⟨by simpa using hdir, ?_, hend⟩
          simp [hname.2, hsub ':' (hcolon.resolve_left hdir)]
    rw [hpart] at hback
    rw [← List.append_cancel_left hback] at hspace
    exact absurd (hspace '"' rfl) (by decide)

end Forms

/-! ### The entry of a launch -/

section Launch

variable {s : ProcState} {pathExists : Text → Bool} {started : Bool} {command : CString}
  {table : ProcTable} {text : Text}

/-- In every run the ids have been given out in order. -/
theorem idsInOrder_of_reaches (hs : Reaches procStep (fun _ _ => True) procInit s) :
    IdsInOrder s.table :=
  hs.invariant (fun s => IdsInOrder s.table) idsInOrder_initial
    fun _ _ _ h _ hstep => idsInOrder_step h hstep

/-- The name is taken from the command of the launch that got the id. -/
theorem lookupName_of_launch (h : IdsInOrder s.table)
    (hrun : s.table.procRunAsync pathExists started command = (table, .ok text))
    (hid : 0 < s.table.trackId) :
    table.lookupName s.table.trackId = some (signalName (command.val.take 127)) := by
  have htable : table = s.table.procTrack command.val := by
    rcases procRunAsync_cases pathExists started s.table command with ⟨message, hfail⟩ | ⟨t, hok⟩
    · rw [hrun] at hfail
      cases (Prod.mk.inj hfail).2
    · rw [hrun] at hok
      exact (Prod.mk.inj hok).1
  cases hfree : s.table.procs.findFree with
  | none =>
    rw [ProcTable.trackId, hfree] at hid
    exact absurd hid (Int.not_lt.mpr (by decide : (-1 : Int) ≤ 0))
  | some i =>
    obtain ⟨p, -, hcommand, hp, hprocs, -⟩ := @procTrack_of_free _ command.val _ hfree
    obtain ⟨-, -, hnew⟩ := trackId_of_free h hfree
    have hfind : (s.table.procs.put i p).find (fun q => q.id = s.table.trackId) = some i := by
      refine Slots.find_of_unique Slots.put_self (decide_eq_true hp.symm) fun j q hj hq => ?_
      by_contra hne
      rw [Slots.put_of_ne hne] at hj
      exact hnew q (Slots.mem_entries.mpr ⟨j, hj⟩) (of_decide_eq_true hq)
    rw [htable, ProcTable.lookupName, hprocs, hfind, Option.bind_some, Slots.put_self,
      Option.map_some, hcommand, fit, cut_eq_self command.2]

/-- The name that is looked up for a launched process is the file name of its executable exactly
if that name stands last in the stored command, behind the separator that counts. -/
theorem signal_reaches_launched_iff (hs : Reaches procStep (fun _ _ => True) procInit s)
    (hrun : s.table.procRunAsync pathExists started command = (table, .ok text))
    (hid : 0 < s.table.trackId) :
    table.SignalsOnly s.table.trackId (filePart (extractExePath command.val 256)) ↔
      StandsLast (filePart (extractExePath command.val 256)) (command.val.take 127) := by
  rw [ProcTable.signalsOnly_iff, lookupName_of_launch (idsInOrder_of_reaches hs) hrun hid,
    Option.some.injEq, signalName_eq_iff]

end Launch

/-- A command with an argument. -/
def copyCommand : CString := ⟨"C:Copy FROM T".toList, by decide⟩

/-- It is signalled by the name of its executable. -/
theorem signal_reaches_copy :
    ∃ table text, ProcTable.initial.procRunAsync (fun _ => true) true copyCommand =
        (table, .ok text) ∧
      (table.SignalsOnly 1 (filePart (extractExePath copyCommand.val 256)) ↔
        StandsLast (filePart (extractExePath copyCommand.val 256)) (copyCommand.val.take 127)) := by
  obtain ⟨table, text, hrun⟩ : ∃ table text,
      ProcTable.initial.procRunAsync (fun _ => true) true copyCommand = (table, .ok text) :=
    ⟨_, _, rfl⟩
  exact ⟨table, text, hrun, signal_reaches_launched_iff (s := procInit) .refl hrun (by decide)⟩

/-- A command in quotes. -/
def quotedCommand : CString := ⟨"\"C:Copy\"".toList, by decide⟩

/-- Its closing quote is looked up with the name. -/
theorem signal_misses_quoted :
    ∃ table text, ProcTable.initial.procRunAsync (fun _ => true) true quotedCommand =
        (table, .ok text) ∧
      ¬ table.SignalsOnly 1 (filePart (extractExePath quotedCommand.val 256)) :=
  ⟨_, _, rfl, fun h => absurd h.1 (by decide)⟩

end AmigaDevbench.Daemon
