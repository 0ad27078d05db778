import Mathlib.Data.List.Infix
import AmigaDevbench.Core.Separated
import AmigaDevbench.Daemon.TaskList
import AmigaDevbench.Link.Replies

/-!
# The lists of the system from the daemon to the host

Names of tasks, libraries, devices, volumes and ports are written between the separators of their
lists as they are. A list comes back if no name has the separators of its kind in it and the
buffers behind the line are long enough.
-/

namespace AmigaDevbench.Inventory

open CText Daemon Protocol Replies

/-! ### Names -/

theorem nul_notMem_nodeName (name : Option CString) : nul ∉ nodeName name := by
  cases name with
  | none => decide
  | some s => exact s.2

/-- A name that begins with no blank. -/
def Starts (name : Text) : Prop := ∀ c ∈ name.head?, Py.isSpace c = false

instance (name : Text) : Decidable (Starts name) :=
  inferInstanceAs (Decidable (∀ c ∈ name.head?, Py.isSpace c = false))

/-- What is put behind a name keeps its start. -/
theorem Starts.append {name : Text} (h : Starts name) {c : Char} (hc : Py.isSpace c = false)
    (tail : Text) : Starts (name ++ c :: tail) := by
  intro d hd
  cases name with
  | nil => exact Option.some.inj hd ▸ hc
  | cons e name => exact h d hd

theorem Starts.of_append {name tail : Text} (h : Starts (name ++ tail)) : Starts name := by
  intro c hc
  cases name with
  | nil => cases hc
  | cons e name => exact h c hc

theorem starts_before (c : Char) {s : Text} (h : Starts s) : Starts (s.before c) := by
  rw [← Text.before_append_drop c s] at h
  exact h.of_append

theorem last_concat {s : Text} {c : Char} (hc : Py.isSpace c = false) :
    ∀ d ∈ (s ++ [c]).getLast?, Py.isSpace d = false := by
  intro d hd
  rw [List.getLast?_concat] at hd
  exact Option.some.inj hd ▸ hc

/-! ### Libraries and devices -/

/-- A name in a list of versions. -/
structure LibName (name : Text) : Prop where
  free : name.Free ['(', ',']
  starts : Starts name

instance (name : Text) : Decidable (LibName name) :=
  decidable_of_iff (name.Free ['(', ','] ∧ Starts name) ⟨fun h => ⟨h.1, h.2⟩, fun h => ⟨h.1, h.2⟩⟩

/-- What the host makes of a library or a device. -/
def libValue (lib : LibNode) : Val :=
  .dict [("name", .str (nodeName lib.name)), ("version", .str lib.versionText)]

section Libs

variable {lib : LibNode} {c : Char}

theorem notMem_versionText (hdigit : c.isDigit = false) (hv : c ≠ 'v') (hdot : c ≠ '.') :
    c ∉ lib.versionText := by
  have hdecimal (n : Nat) : c ∉ decimal n := fun hmem =>
    absurd (CNumber.isDigit_of_mem_toDigits hmem) (by rw [hdigit]; exact Bool.false_ne_true)
  intro hmem
  rcases List.mem_cons.mp hmem with hc | hmem
  · exact hv hc
  rcases List.mem_append.mp hmem with hmem | hmem
  · exact hdecimal _ hmem
  rcases List.mem_cons.mp hmem with hc | hmem
  · exact hdot hc
  · exact hdecimal _ hmem

/-- Closing brackets are cut off at the end only. -/
theorem rstripBy_bracket {s : Text} (h : ')' ∉ s) : (s ++ [')']).rstripBy (· == ')') = s := by
  have hall : ∀ c ∈ s.reverse, ¬ (c == ')') = true := fun c hc heq =>
    h (List.mem_reverse.mp (eq_of_beq heq ▸ hc))
  rw [Text.rstripBy, List.reverse_append, List.reverse_singleton, List.singleton_append,
    List.dropWhile_cons_of_pos (by decide)]
  cases hrev : s.reverse with
  | nil => rw [List.dropWhile_nil, ← hrev, List.reverse_reverse]
  | cons d rest =>
    rw [@List.dropWhile_cons_of_neg _ (· == ')') _ _ (hall d (hrev ▸ List.mem_cons_self)), ← hrev,
      List.reverse_reverse]

theorem cell_libEntry (h : LibName (nodeName lib.name)) : Text.Cell Py.isSpace lib.entry := by
  refine ⟨fun hmem => ?_, ?_, last_concat (by decide)⟩
  · rw [LibNode.entry, List.mem_append, List.mem_append, List.mem_cons] at hmem
    rcases hmem with (hname | habs | hversion) | hlast
    · exact absurd (h.free ',' hname) (by decide)
    · exact absurd habs (by decide)
    · exact notMem_versionText (by decide) (by decide) (by decide) hversion
    · exact absurd hlast (by decide)
  · rw [LibNode.entry, List.append_assoc]
    exact h.starts.append (by decide) _

theorem versionEntry_libEntry (h : LibName (nodeName lib.name)) :
    versionEntry lib.entry = some (libValue lib) := by
  have hopen : '(' ∉ nodeName lib.name := fun hmem => absurd (h.free '(' hmem) (by decide)
  have hclose : ')' ∉ lib.versionText := notMem_versionText (by decide) (by decide) (by decide)
  rw [versionEntry, LibNode.entry, List.append_assoc, List.cons_append, Text.after?_append hopen,
    Text.before_append hopen]
  simp only [rstripBy_bracket hclose, libValue]

theorem libName_of_versionEntry {s : Text} (hs : Text.Cell Py.isSpace s)
    (h : versionEntry s = some (libValue lib)) : LibName (nodeName lib.name) := by
  have hbefore : LibName (s.before '(') := by
    refine ⟨fun c hc hsep => ?_, starts_before '(' hs.head⟩
    rcases List.mem_pair.mp hsep with rfl | rfl
    · exact Text.notMem_before '(' s hc
    · exact hs.comma ((List.takeWhile_sublist _).subset hc)
  rw [versionEntry] at h
  split at h
  · simp only [libValue, Option.some.injEq, Val.dict.injEq, List.cons.injEq, Prod.mk.injEq,
      true_and, Val.str.injEq] at h
    exact h.1 ▸ hbefore
  · next hnone =>
    split at h
    · cases h
    · simp only [libValue, Option.some.injEq, Val.dict.injEq, List.cons.injEq, Prod.mk.injEq,
        true_and, Val.str.injEq] at h
      have hself : s.before '(' = s := Text.before_eq_self (Text.notMem_of_after? hnone)
      exact h.1 ▸ hself ▸ hbefore

/-- How the lists of libraries and devices are written and read. -/
def libFormat : ListFormat LibNode Val :=
  ListFormat.ofCells LibNode.entry libValue (fun lib => LibName (nodeName lib.name)) rfl
    (fun _ _ => List.append_ne_nil_of_right_ne_nil _ (List.cons_ne_nil _ _))
    (fun _ h => cell_libEntry h) (fun _ h => versionEntry_libEntry h)
    (fun _ _ hs h => libName_of_versionEntry hs h)

end Libs

/-! ### Tasks -/

/-- A name in the list of tasks. -/
structure TaskName (name : Text) : Prop where
  starts : Starts name
  bracket : '(' ∉ name
  pair : ¬ [')', ','] <:+: name

instance (name : Text) : Decidable (TaskName name) :=
  decidable_of_iff (Starts name ∧ '(' ∉ name ∧ ¬ [')', ','] <:+: name)
    ⟨fun h => ⟨h.1, h.2.1, h.2.2⟩, fun h => ⟨h.1, h.2, h.3⟩⟩

/-- What the host makes of a task. -/
def taskValue (t : ListedTask) : Val :=
  .dict [("name", .str (nodeName t.task.name)), ("priority", .int t.task.pri.toInt),
    ("state", .str t.state.text), ("type", .str t.type)]

section Tasks

variable {t : ListedTask}

/-- An entry without its closing bracket. -/
def taskBody (t : ListedTask) : Text := nodeName t.task.name ++ '(' :: t.info

theorem entry_eq_body (t : ListedTask) : t.entry = taskBody t ++ [')'] := rfl

theorem type_cases (t : ListedTask) : t.type = "proc".toList ∨ t.type = "task".toList := by
  rw [ListedTask.type]
  split
  · exact .inl rfl
  · exact .inr rfl

theorem comma_notMem_state (state : TaskState) : ',' ∉ state.text := by cases state <;> decide

theorem comma_notMem_type (t : ListedTask) : ',' ∉ t.type := by
  rcases type_cases t with h | h <;> rw [h] <;> decide

theorem splitOn_info (t : ListedTask) : t.info.splitOn ',' =
    [Client.longText t.task.pri.toInt, t.state.text, t.type] := by
  rw [ListedTask.info, Text.splitOn_field (notMem_longText (by decide) (by decide)),
    Text.splitOn_field (comma_notMem_state _), List.splitOn_eq_singleton (comma_notMem_type t)]

/-- The type stands at the end. -/
theorem body_last (t : ListedTask) : ∃ front last, taskBody t = front ++ [last] ∧
    Py.isSpace last = false ∧ last ≠ ')' := by
  obtain ⟨front, hbody⟩ : ∃ front, taskBody t = front ++ t.type := by
    refine ⟨nodeName t.task.name ++ '(' ::
      (Client.longText t.task.pri.toInt ++ ',' :: (t.state.text ++ [','])), ?_⟩
    simp only [taskBody, ListedTask.info, List.append_assoc, List.cons_append, List.nil_append]
  rcases type_cases t with h | h
  · refine ⟨front ++ "pro".toList, 'c', ?_, by decide, by decide⟩
    rw [hbody, h, List.append_assoc]
    rfl
  · refine ⟨front ++ "tas".toList, 'k', ?_, by decide, by decide⟩
    rw [hbody, h, List.append_assoc]
    rfl

theorem strip_state (state : TaskState) : Py.strip state.text = state.text := by
  cases state <;> decide

theorem strip_type (t : ListedTask) : Py.strip t.type = t.type := by
  rcases type_cases t with h | h <;> rw [h] <;> decide

/-- An entry with or without its closing bracket is read back. -/
theorem taskEntry_body (h : TaskName (nodeName t.task.name)) {tail : Text}
    (htail : tail = [] ∨ tail = [')']) : taskEntry (taskBody t ++ tail) = some (taskValue t) := by
  obtain ⟨front, last, hbody, hspace, hlast⟩ := body_last t
  have hstarts : Starts (taskBody t ++ tail) := by
    rw [taskBody, List.append_assoc]
    exact h.starts.append (by decide) _
  have hends : ∀ c ∈ (taskBody t ++ tail).getLast?, Py.isSpace c = false := by
    rcases htail with rfl | rfl
    · rw [List.append_nil, hbody]
      exact last_concat hspace
    · exact last_concat (by decide)
  have hstrip : Py.strip (taskBody t ++ tail) = taskBody t ++ tail :=
    Text.stripBy_of_ends hstarts hends
  have hbracket : (taskBody t ++ tail).rstripBy (· == ')') = taskBody t := by
    have hstay : (last == ')') = false := beq_eq_false_iff_ne.mpr hlast
    rw [hbody, List.append_assoc, List.singleton_append,
      Text.rstripBy_append_cons (p := (· == ')')) hstay]
    rcases htail with rfl | rfl
    · rfl
    · rfl
  rw [taskEntry, hstrip, hbracket, taskBody, Text.after?_append h.bracket,
    Text.before_append h.bracket]
  simp only [splitOn_info, num, List.getD_cons_zero, List.getElem?_cons_succ,
    List.getElem?_cons_zero, Option.elim_some, strip_state, strip_type, taskValue,
    int_longText (n := t.task.pri.toInt) (by have := t.task.pri.le_toInt; omega)
      (by have := t.task.pri.toInt_lt; omega)]

theorem bracket_notMem_info (t : ListedTask) : ')' ∉ t.info := by
  have hstate : ∀ state : TaskState, ')' ∉ state.text := fun state => by cases state <;> decide
  have htype : ')' ∉ t.type := by rcases type_cases t with h | h <;> rw [h] <;> decide
  intro hmem
  rcases List.mem_append.mp hmem with hmem | hmem
  · exact notMem_longText (by decide) (by decide) hmem
  rcases List.mem_cons.mp hmem with habs | hmem
  · exact absurd habs (by decide)
  rcases List.mem_append.mp hmem with hmem | hmem
  · exact hstate _ hmem
  rcases List.mem_cons.mp hmem with habs | hmem
  · exact absurd habs (by decide)
  · exact htype hmem

theorem not_pair_body (h : TaskName (nodeName t.task.name)) :
    ¬ [')', ','] <:+: taskBody t := by
  intro hin
  rcases Text.infix_pair_append hin with hname | hinfo | ⟨-, hhead⟩
  · exact h.pair hname
  · rcases List.mem_cons.mp (hinfo.subset List.mem_cons_self) with habs | hmem
    · exact absurd habs (by decide)
    · exact bracket_notMem_info t hmem
  · cases hhead

/-- What the host makes of a text of tasks. -/
def readTasks (text : Text) : List Val := (Text.splitStr [')', ','] text).filterMap taskEntry

/-- An entry in front of a comma is read by itself. -/
theorem readTasks_cons (h : TaskName (nodeName t.task.name)) (text : Text) :
    readTasks (t.entry ++ ',' :: text) = taskValue t :: readTasks text := by
  have hbody := taskEntry_body h (.inl rfl)
  rw [List.append_nil] at hbody
  rw [readTasks, entry_eq_body, List.append_assoc, List.singleton_append,
    Text.splitStr_pair (by decide) text (not_pair_body h), List.filterMap_cons, hbody]
  rfl

theorem readTasks_entry (h : TaskName (nodeName t.task.name)) :
    readTasks t.entry = [taskValue t] := by
  have hno : ¬ [')', ','] <:+: t.entry := by
    intro hin
    rcases Text.infix_pair_append hin with hbody | hlast | ⟨-, hhead⟩
    · exact not_pair_body h hbody
    · exact absurd hlast.length_le (by decide)
    · cases hhead
  have hbody := taskEntry_body h (.inr rfl)
  rw [readTasks, Text.splitStr_eq_singleton hno, entry_eq_body, List.filterMap_cons, hbody]
  rfl

variable {ts : List ListedTask}

/-- Entries in front of a comma are read by themselves. -/
theorem readTasks_append (hne : ts ≠ []) (h : ∀ t ∈ ts, TaskName (nodeName t.task.name))
    (text : Text) : readTasks ([','].intercalate (ts.map ListedTask.entry) ++ ',' :: text) =
      ts.map taskValue ++ readTasks text := by
  induction ts with
  | nil => exact absurd rfl hne
  | cons t ts ih =>
    have ht := h t List.mem_cons_self
    cases ts with
    | nil =>
      rw [List.map_singleton, List.intercalate_singleton, readTasks_cons ht]
      rfl
    | cons next ts =>
      have hrest := ih (List.cons_ne_nil next ts) fun t hmem => h t (List.mem_cons_of_mem _ hmem)
      rw [List.map_cons, List.map_cons, List.intercalate_cons_cons, List.append_assoc,
        List.append_assoc, List.singleton_append, readTasks_cons ht, ← List.map_cons, hrest]
      rfl

theorem readTasks_intercalate (hne : ts ≠ []) (h : ∀ t ∈ ts, TaskName (nodeName t.task.name)) :
    readTasks ([','].intercalate (ts.map ListedTask.entry)) = ts.map taskValue := by
  induction ts with
  | nil => exact absurd rfl hne
  | cons t ts ih =>
    have ht := h t List.mem_cons_self
    cases ts with
    | nil =>
      rw [List.map_singleton, List.intercalate_singleton, readTasks_entry ht]
      rfl
    | cons next ts =>
      have hrest := ih (List.cons_ne_nil next ts) fun t hmem => h t (List.mem_cons_of_mem _ hmem)
      rw [List.map_cons, List.map_cons, List.intercalate_cons_cons, List.append_assoc,
        List.singleton_append, readTasks_cons ht, ← List.map_cons, hrest]
      rfl

theorem readTasks_tail (hne : ts ≠ []) (h : ∀ t ∈ ts, TaskName (nodeName t.task.name))
    {tail : Text} (htail : tail = [] ∨ tail = [',']) :
    readTasks ([','].intercalate (ts.map ListedTask.entry) ++ tail) = ts.map taskValue := by
  rcases htail with rfl | rfl
  · rw [List.append_nil, readTasks_intercalate hne h]
  · rw [readTasks_append hne h]
    exact List.append_nil _

/-- A task that is read has a name that is read back. -/
theorem taskName_of_mem {text : Text} (hmem : taskValue t ∈ readTasks text) :
    TaskName (nodeName t.task.name) := by
  obtain ⟨raw, hraw, hread⟩ := List.mem_filterMap.mp hmem
  have hpair := Text.not_pair_of_mem_splitStr (by decide) text hraw
  have hstrip : Starts (Py.strip raw) := fun c hc => Text.head_stripBy hc
  have hcut := Text.rstripBy_isPrefix (· == ')') (Py.strip raw)
  have hbefore : TaskName (((Py.strip raw).rstripBy (· == ')')).before '(') := by
    refine ⟨starts_before '(' ?_, Text.notMem_before '(' _, fun hin => hpair ?_⟩
    · obtain ⟨rest, hrest⟩ := hcut
      exact Starts.of_append (hrest.symm ▸ hstrip)
    · exact (hin.trans (List.takeWhile_prefix _).isInfix).trans
        (hcut.isInfix.trans (Text.stripBy_isInfix _ raw))
  rw [taskEntry] at hread
  simp only at hread
  split at hread
  · simp only [taskValue, Option.some.injEq, Val.dict.injEq, List.cons.injEq, Prod.mk.injEq,
      true_and, Val.str.injEq] at hread
    exact hread.1 ▸ hbefore
  · next hnone =>
    split at hread
    · cases hread
    · simp only [taskValue, Option.some.injEq, Val.dict.injEq, List.cons.injEq, Prod.mk.injEq,
        true_and, Val.str.injEq] at hread
      rw [Text.before_eq_self (Text.notMem_of_after? hnone)] at hbefore
      exact hread.1 ▸ hbefore

theorem taskName_of_readTasks {text : Text} (h : readTasks text = ts.map taskValue) :
    ∀ t ∈ ts, TaskName (nodeName t.task.name) :=
  fun _ ht => taskName_of_mem (h ▸ List.mem_map_of_mem ht)

/-- How the list of tasks is written and read. -/
def taskFormat : ListFormat ListedTask Val where
  write := ListedTask.entry
  read := readTasks
  value := taskValue
  Readable := fun t => TaskName (nodeName t.task.name)
  write_ne_nil := fun _ _ => List.append_ne_nil_of_right_ne_nil _ (List.cons_ne_nil _ _)
  read_writeAll := fun _ hne h _ htail => readTasks_tail hne h htail
  readable_of_read := fun _ _ _ h => taskName_of_readTasks h

end Tasks

/-! ### Volumes -/

/-- A name in the list of volumes with their disks. -/
structure VolumeName (name : Text) : Prop where
  free : name.Free ['~', ',']
  starts : Starts name

instance (name : Text) : Decidable (VolumeName name) :=
  decidable_of_iff (name.Free ['~', ','] ∧ Starts name) ⟨fun h => ⟨h.1, h.2⟩, fun h => ⟨h.1, h.2⟩⟩

/-- What the host makes of a volume with its disk. -/
def volumeValue (v : VolumeNode) : Val :=
  .dict [("name", .str v.namebuf), ("handler", .str v.handler), ("state", .str v.state),
    ("usedKB", .int v.usedK.toNat), ("freeKB", .int v.freeK.toNat)]

section Volumes

variable {v : VolumeNode} {c : Char}

theorem notMem_decimal (hdigit : c.isDigit = false) (n : Nat) : c ∉ decimal n := fun hmem =>
  absurd (CNumber.isDigit_of_mem_toDigits hmem) (by rw [hdigit]; exact Bool.false_ne_true)

theorem handler_free (v : VolumeNode) : v.handler.Free ['~', ','] := by
  rw [VolumeNode.handler]
  split <;> decide

theorem state_free (v : VolumeNode) : v.state.Free ['~', ','] := by
  rw [VolumeNode.state]
  split <;> decide

theorem last_decimal (n : Nat) : ∀ d ∈ (decimal n).getLast?, Py.isSpace d = false := fun _ hd =>
  Py.isSpace_of_isDigit (CNumber.isDigit_of_mem_toDigits (List.mem_of_mem_getLast? hd))

theorem decimal_ne_nil (n : Nat) : decimal n ≠ [] := Nat.toDigits_ne_nil

theorem cell_volumeEntry (h : VolumeName v.namebuf) : Text.Cell Py.isSpace v.entry := by
  refine ⟨fun hmem => ?_, h.starts.append (by decide) _, fun d hd => ?_⟩
  · have hcomma (n : Nat) : ',' ∉ decimal n := notMem_decimal (by decide) n
    simp only [VolumeNode.entry, List.mem_append, List.mem_cons, hcomma, or_false,
      Char.reduceEq, false_or] at hmem
    rcases hmem with hname | hhandler | hstate
    · exact absurd (h.free ',' hname) (by decide)
    · exact absurd (handler_free v ',' hhandler) (by decide)
    · exact absurd (state_free v ',' hstate) (by decide)
  · obtain ⟨front, hfront⟩ : ∃ front, v.entry = front ++ decimal v.freeK.toNat := by
      refine ⟨v.namebuf ++ '~' :: (v.handler ++ '~' :: (v.state ++ '~' ::
        (decimal v.usedK.toNat ++ ['~']))), ?_⟩
      simp only [VolumeNode.entry, List.append_assoc, List.cons_append, List.nil_append]
    rw [hfront, List.getLast?_append_of_ne_nil _ (decimal_ne_nil _)] at hd
    exact last_decimal _ d hd

theorem volumeEntry_entry (h : VolumeName v.namebuf) :
    volumeEntry v.entry = some (volumeValue v) := by
  have htilde (s : Text) (hs : s.Free ['~', ',']) : '~' ∉ s := fun hmem =>
    absurd (hs '~' hmem) (by decide)
  have hdecimal (n : Nat) : '~' ∉ decimal n := notMem_decimal (by decide) n
  have hsplit : v.entry.splitOn '~' = [v.namebuf, v.handler, v.state, decimal v.usedK.toNat,
      decimal v.freeK.toNat] := by
    rw [VolumeNode.entry, Text.splitOn_field (htilde _ h.free),
      Text.splitOn_field (htilde _ (handler_free v)), Text.splitOn_field (htilde _ (state_free v)),
      Text.splitOn_field (hdecimal _), List.splitOn_eq_singleton (hdecimal _)]
  have hne : v.entry ≠ [] := List.append_ne_nil_of_right_ne_nil _ (List.cons_ne_nil _ _)
  rw [volumeEntry, if_neg hne]
  simp only [hsplit, field, num, List.getD_cons_zero, List.getD_cons_succ,
    int_decimal v.usedK.toNat_lt, int_decimal v.freeK.toNat_lt, volumeValue]

/-- The name of what is read stands before the first tilde. -/
theorem name_of_volumeEntry {s name handler state : Text} {used free : Int}
    (h : volumeEntry s = some (.dict [("name", .str name), ("handler", .str handler),
      ("state", .str state), ("usedKB", .int used), ("freeKB", .int free)])) :
    s ≠ [] ∧ name = s.before '~' := by
  rw [volumeEntry] at h
  split at h
  · cases h
  · next hne =>
    simp only [Option.some.injEq, Val.dict.injEq, List.cons.injEq, Prod.mk.injEq, true_and,
      Val.str.injEq] at h
    exact ⟨hne, h.1 ▸ Text.getD_splitOn_zero '~' s⟩

theorem volumeName_of_volumeEntry {s : Text} (hs : Text.Cell Py.isSpace s)
    (h : volumeEntry s = some (volumeValue v)) : VolumeName v.namebuf := by
  rw [(name_of_volumeEntry h).2]
  refine ⟨fun c hc hsep => ?_, starts_before '~' hs.head⟩
  rcases List.mem_pair.mp hsep with rfl | rfl
  · exact Text.notMem_before '~' s hc
  · exact hs.comma ((List.takeWhile_sublist _).subset hc)

/-- How the list of volumes with their disks is written and read. -/
def volumeFormat : ListFormat VolumeNode Val :=
  ListFormat.ofCells VolumeNode.entry volumeValue (fun v => VolumeName v.namebuf) rfl
    (fun _ _ => List.append_ne_nil_of_right_ne_nil _ (List.cons_ne_nil _ _))
    (fun _ h => cell_volumeEntry h) (fun _ h => volumeEntry_entry h)
    (fun _ _ hs h => volumeName_of_volumeEntry hs h)

/-- A name in the list of volumes without their disks. -/
structure PlainVolumeName (name : Text) : Prop where
  ne_nil : name ≠ []
  cell : Text.Cell Py.isSpace name
  tilde : '~' ∉ name

/-- What the host makes of a volume of which there is only a name. -/
def plainVolumeValue (v : VolumeNode) : Val :=
  .dict [("name", .str v.namebuf), ("handler", .str []), ("state", .str []), ("usedKB", .int 0),
    ("freeKB", .int 0)]

theorem volumeEntry_namebuf (h : PlainVolumeName v.namebuf) :
    volumeEntry v.namebuf = some (plainVolumeValue v) := by
  rw [volumeEntry, if_neg h.ne_nil]
  simp only [List.splitOn_eq_singleton h.tilde]
  rfl

/-- Where no name has a tilde, every text that is read is a name. -/
theorem plainVolumeName_of_read {vs : List VolumeNode} {tail : Text}
    (htail : tail = [] ∨ tail = [','])
    (h : Text.readEntries Py.isSpace volumeEntry
      ([','].intercalate (vs.map VolumeNode.namebuf) ++ tail) = vs.map plainVolumeValue) :
    ∀ v ∈ vs, PlainVolumeName v.namebuf := by
  have hread : ∀ v ∈ vs, ∃ s, Text.Cell Py.isSpace s ∧
      (∀ c ∈ s, c ∈ [','].intercalate (vs.map VolumeNode.namebuf) ++ tail) ∧ s ≠ [] ∧
        v.namebuf = s.before '~' := by
    intro v hv
    obtain ⟨s, hcell, hsub, hvalue⟩ := Text.cell_of_mem_readEntries
      (h ▸ List.mem_map_of_mem hv : plainVolumeValue v ∈ Text.readEntries _ _ _)
    exact ⟨s, hcell, hsub, name_of_volumeEntry hvalue⟩
  have htilde : '~' ∉ [','].intercalate (vs.map VolumeNode.namebuf) ++ tail := by
    intro hmem
    rcases List.mem_append.mp hmem with hmem | hmem
    · rcases Text.mem_intercalate hmem with habs | ⟨name, hname, hmem⟩
      · exact absurd habs (by decide)
      · obtain ⟨v, hv, rfl⟩ := List.mem_map.mp hname
        obtain ⟨s, -, -, -, hbefore⟩ := hread v hv
        exact Text.notMem_before '~' s (hbefore ▸ hmem)
    · rcases htail with rfl | rfl
      · exact absurd hmem List.not_mem_nil
      · exact absurd hmem (by decide)
  intro v hv
  obtain ⟨s, hcell, hsub, hne, hbefore⟩ := hread v hv
  have hs : '~' ∉ s := fun hmem => htilde (hsub _ hmem)
  rw [hbefore, Text.before_eq_self hs]
  exact ⟨hne, hcell, hs⟩

/-- How the list of volumes without their disks is written and read. -/
def plainVolumeFormat : ListFormat VolumeNode Val where
  write := VolumeNode.namebuf
  read := Text.readEntries Py.isSpace volumeEntry
  value := plainVolumeValue
  Readable := fun v => PlainVolumeName v.namebuf
  write_ne_nil := fun _ h => h.ne_nil
  read_writeAll := fun _ hne h _ htail => Text.readEntries_intercalate hne
    (fun v hv => (h v hv).cell) (fun v hv => volumeEntry_namebuf (h v hv)) rfl htail
  readable_of_read := fun _ _ htail h => plainVolumeName_of_read htail h

end Volumes

/-! ### Ports -/

/-- A name in the list of ports. -/
structure PortName (name : Text) : Prop where
  ne_nil : name ≠ []
  cell : Text.Cell Py.isSpace name
  bar : '|' ∉ name

/-- What the host makes of a port. -/
def portValue (name : Option CString) : Val := .str (nodeName name)

/-- One entry of the list of ports. -/
def portEntry (s : Text) : Option Val := if s = [] then none else some (.str s)

section Ports

variable {name : Option CString}

theorem names_eq (s : Text) : names s = Text.readEntries Py.isSpace portEntry s := by
  rw [names, commaEntries, Text.readEntries]
  change (((s.splitOn ',').map Py.strip).filter (· ≠ [])).map Val.str =
    ((s.splitOn ',').map Py.strip).filterMap portEntry
  generalize (s.splitOn ',').map Py.strip = entries
  induction entries with
  | nil => rfl
  | cons entry entries ih =>
    by_cases hentry : entry = []
    · rw [List.filter_cons_of_neg (by simp [hentry]), List.filterMap_cons, portEntry, if_pos hentry,
        ih]
    · rw [List.filter_cons_of_pos (by simp [hentry]), List.filterMap_cons, portEntry,
        if_neg hentry, List.map_cons, ih]

/-- What the host makes of a text of ports: it looks at the first field only. -/
def readPorts (text : Text) : List Val :=
  Text.readEntries Py.isSpace portEntry ((text.splitOn '|').getD 0 [])

theorem readPorts_tail {ports : List (Option CString)} (hne : ports ≠ [])
    (h : ∀ name ∈ ports, PortName (nodeName name)) {tail : Text}
    (htail : tail = [] ∨ tail = [',']) :
    readPorts ([','].intercalate (ports.map nodeName) ++ tail) = ports.map portValue := by
  have hbar : '|' ∉ [','].intercalate (ports.map nodeName) ++ tail := by
    intro hmem
    rcases List.mem_append.mp hmem with hmem | hmem
    · rcases Text.mem_intercalate hmem with habs | ⟨text, htext, hmem⟩
      · exact absurd habs (by decide)
      · obtain ⟨name, hname, rfl⟩ := List.mem_map.mp htext
        exact (h name hname).bar hmem
    · rcases htail with rfl | rfl
      · exact absurd hmem List.not_mem_nil
      · exact absurd hmem (by decide)
  rw [readPorts, List.splitOn_eq_singleton hbar, List.getD_cons_zero]
  exact Text.readEntries_intercalate hne (fun name hname => (h name hname).cell)
    (fun name hname => if_neg (h name hname).ne_nil) rfl htail

theorem portName_of_readPorts {ports : List (Option CString)} {text : Text}
    (h : readPorts text = ports.map portValue) : ∀ name ∈ ports, PortName (nodeName name) := by
  intro name hname
  obtain ⟨s, hcell, hsub, hvalue⟩ := Text.cell_of_mem_readEntries
    (h ▸ List.mem_map_of_mem hname : portValue name ∈ readPorts text)
  rw [portEntry] at hvalue
  split at hvalue
  · cases hvalue
  · next hne =>
    have heq : s = nodeName name := Val.str.inj (Option.some.inj hvalue)
    rw [← heq]
    exact ⟨hne, hcell, fun hmem => Text.notMem_getD_splitOn '|' text (hsub _ hmem)⟩

/-- How the list of ports is written and read. -/
def portFormat : ListFormat (Option CString) Val where
  write := nodeName
  read := readPorts
  value := portValue
  Readable := fun name => PortName (nodeName name)
  write_ne_nil := fun _ h => h.ne_nil
  read_writeAll := fun _ hne h _ htail => readPorts_tail hne h htail
  readable_of_read := fun _ _ _ h => portName_of_readPorts h

end Ports

/-! ### Lines -/

/-- The message of a list. -/
def listMsg (type key : String) (count : Nat) (entries : List Val) : Dict :=
  [("type", .str type.toList), ("count", .int count), (key, .list entries)]

section Parse

variable {n : Nat}

theorem parse_list (now : Text) {type : Text} {parse : List Text → Parsed} (htype : '|' ∉ type)
    (hbranch : branchOf type = some (.guarded fun _ _ p => parse p)) (text : Text) :
    parseMessage now (type ++ '|' :: (decimal n ++ '|' :: text)) =
      .ok (parse (type :: decimal n :: text.splitOn '|')) := by
  rw [parseMessage, Text.splitOn_field htype, Text.splitOn_field (bar_notMem_decimal n)]
  simp only [List.headD_cons, hbranch, Branch.run]

theorem parse_tasks (hn : n < 2 ^ 32) (now text : Text) :
    parseMessage now ("TASKS|".toList ++ (decimal n ++ '|' :: text)) =
      .ok (some (listMsg "TASKS" "tasks" n (taskFormat.readField text))) := by
  have hbranch : branchOf "TASKS".toList = some (.guarded fun _ _ p => parseTasks p) := rfl
  refine (parse_list now (by decide) hbranch text).trans ?_
  simp only [parseTasks, num, field, List.getD_cons_succ, List.getD_cons_zero, int_decimal hn,
    listField, rest, List.drop_succ_cons, List.drop_zero, Text.joinBar_splitOn]
  rfl

theorem parse_libs (hn : n < 2 ^ 32) (now text : Text) :
    parseMessage now ("LIBS|".toList ++ (decimal n ++ '|' :: text)) =
      .ok (some (listMsg "LIBS" "libs" n (libFormat.readField text))) := by
  have hbranch : branchOf "LIBS".toList = some (.guarded fun _ _ p => parseLibs p) := rfl
  refine (parse_list now (by decide) hbranch text).trans ?_
  simp only [parseLibs, num, field, List.getD_cons_succ, List.getD_cons_zero, int_decimal hn,
    listField, rest, List.drop_succ_cons, List.drop_zero, Text.joinBar_splitOn]
  rfl

theorem parse_devices (hn : n < 2 ^ 32) (now text : Text) :
    parseMessage now ("DEVICES|".toList ++ (decimal n ++ '|' :: text)) =
      .ok (some (listMsg "DEVICES" "devices" n (libFormat.readField text))) := by
  have hbranch : branchOf "DEVICES".toList = some (.guarded fun _ _ p => parseDevices p) := rfl
  refine (parse_list now (by decide) hbranch text).trans ?_
  simp only [parseDevices, num, field, List.getD_cons_succ, List.getD_cons_zero, int_decimal hn,
    listField, rest, List.drop_succ_cons, List.drop_zero, Text.joinBar_splitOn]
  rfl

theorem parse_volumes (hn : n < 2 ^ 32) (now text : Text) :
    parseMessage now ("VOLUMES|".toList ++ (decimal n ++ '|' :: text)) =
      .ok (some (listMsg "VOLUMES" "volumes" n (volumeFormat.readField text))) := by
  have hbranch : branchOf "VOLUMES".toList = some (.guarded fun _ _ p => parseVolumes p) := rfl
  refine (parse_list now (by decide) hbranch text).trans ?_
  simp only [parseVolumes, num, field, List.getD_cons_succ, List.getD_cons_zero, int_decimal hn,
    listField, rest, List.drop_succ_cons, List.drop_zero, Text.joinBar_splitOn]
  rfl

theorem parse_ports (hn : n < 2 ^ 32) (now text : Text) :
    parseMessage now ("PORTS|".toList ++ (decimal n ++ '|' :: text)) =
      .ok (some (listMsg "PORTS" "ports" n (portFormat.readField text))) := by
  have hbranch : branchOf "PORTS".toList = some (.guarded fun _ _ p => parsePorts "PORTS" p) := rfl
  refine (parse_list now (by decide) hbranch text).trans ?_
  simp only [parsePorts, num, field, List.getD_cons_succ, List.getD_cons_zero, int_decimal hn,
    listField, names_eq]
  rfl

end Parse

/-! ### Consistency -/

/-- There is a line that stays inside of its buffer. Behind its header it has the number of the
entries that are shown and a text of these entries and of commas, and the host makes of it the
entries that are shown and no others. -/
def Consistent {α : Type} (header : Text) (type key : String) (entry : α → Text) (value : α → Val)
    (entries : List α) (made : Option Text) : Prop :=
  ∃ line text, made = some line ∧ line.length < maxLine ∧
    line = header ++ (decimal entries.length ++ '|' :: text) ∧
    Text.Written (entries.map entry) text ∧
    ∀ now, parseMessage now line =
      .ok (some (listMsg type key entries.length (entries.map value)))

/-- The nodes of a list that fit. -/
def shownNodes {α : Type} (header : Text) (entry : α → Text) (nodes : List α) : List α :=
  nodes.take (shown header (nodes.map entry))

theorem listMsg_inj {type key : String} {count count' : Nat} {entries entries' : List Val}
    (h : listMsg type key count entries = listMsg type key count' entries') :
    entries = entries' := by
  simp only [listMsg, List.cons.injEq, Prod.mk.injEq, Val.list.injEq, true_and, and_true] at h
  exact h.2

section Consistent

variable {α : Type} (f : ListFormat α Val) {header : Text} {type key : String} {entries : List α}
  {line : Text}

/-- What the host makes of a consistent line is what it reads of its field. -/
theorem readField_of_consistent
    (hparse : ∀ n now text, n < 2 ^ 32 → parseMessage now (header ++ (decimal n ++ '|' :: text)) =
      .ok (some (listMsg type key n (f.readField text)))) {text : Text} {n : Nat}
    (hn : n < 2 ^ 32) (hline : line = header ++ (decimal n ++ '|' :: text))
    (h : Consistent header type key f.write f.value entries (some line)) :
    f.readField text = entries.map f.value := by
  obtain ⟨_, _, hmade, -, -, -, hread⟩ := h
  rw [← Option.some.inj hmade, hline] at hread
  exact listMsg_inj (Option.some.inj (Except.ok.inj ((hparse n [] text hn).symm.trans (hread []))))

/-- A line with the entries of a list is consistent exactly if they come back from its field. -/
theorem consistent_iff
    (hparse : ∀ n now text, n < 2 ^ 32 → parseMessage now (header ++ (decimal n ++ '|' :: text)) =
      .ok (some (listMsg type key n (f.readField text))))
    (hline : LineOf header (entries.map f.write) line) :
    Consistent header type key f.write f.value entries (some line) ↔ f.ReadBack entries := by
  obtain ⟨⟨tail, htail, hempty, heq⟩, hlength, hcount⟩ := hline
  rw [List.length_map] at heq hcount
  have hempty : entries = [] → tail = [] := fun hnil => hempty (List.map_eq_nil_iff.mpr hnil)
  have hn : entries.length < 2 ^ 32 := by omega
  constructor
  · intro h
    exact (f.readField_writeAll_iff htail hempty).mp (readField_of_consistent f hparse hn heq h)
  · intro h
    refine ⟨line, _, rfl, hlength, heq, (Text.Written.intercalate _).append_tail htail,
      fun now => ?_⟩
    rw [heq, hparse _ now _ hn, (f.readField_writeAll_iff htail hempty).mpr h]

/-- The list of nodes without an array for their entries. -/
theorem consistent_countedLine_iff (hheader : header.length ≤ 1024)
    (hparse : ∀ n now text, n < 2 ^ 32 → parseMessage now (header ++ (decimal n ++ '|' :: text)) =
      .ok (some (listMsg type key n (f.readField text)))) (nodes : List α) :
    Consistent header type key f.write f.value (shownNodes header f.write nodes)
        (some (countedLine header (nodes.map f.write))) ↔
      f.ReadBack (shownNodes header f.write nodes) := by
  refine consistent_iff f hparse ?_
  rw [shownNodes, List.map_take]
  exact lineOf_countedLine hheader _

/-- The list of nodes with an array for their entries. -/
theorem consistent_arrayLine_iff (hheader : header.length ≤ 1024)
    (hparse : ∀ n now text, n < 2 ^ 32 → parseMessage now (header ++ (decimal n ++ '|' :: text)) =
      .ok (some (listMsg type key n (f.readField text)))) (size : Nat) (nodes : List α) :
    Consistent header type key f.write f.value (shownNodes header f.write nodes)
        (arrayLine size header (nodes.map f.write)) ↔
      InArray size ((nodes.map f.write).take (shown header (nodes.map f.write) + 1)) ∧
        f.ReadBack (shownNodes header f.write nodes) := by
  rw [arrayLine_eq]
  split
  · next hin =>
    rw [consistent_countedLine_iff f hheader hparse]
    exact (and_iff_right hin).symm
  · next hout =>
    constructor
    · rintro ⟨_, _, hmade, -⟩
      cases hmade
    · exact fun h => absurd h.1 hout

end Consistent

/-! ### The list of tasks -/

section Tasks

variable {current : Option TaskNode} {ready wait : List TaskNode}

theorem nul_notMem_comma (name : Option CString) : nul ∉ ',' :: nodeName name := by
  rw [List.mem_cons, not_or]
  exact ⟨by decide, nul_notMem_nodeName name⟩

/-- A task with a comma in front of its name. -/
def commaTask (t : ListedTask) : ListedTask :=
  ⟨t.state, { t.task with name := some ⟨_, nul_notMem_comma t.task.name⟩ }⟩

theorem taskName_commaTask {t : ListedTask} (h : TaskName (nodeName t.task.name)) :
    TaskName (nodeName (commaTask t).task.name) := by
  refine ⟨fun c hc => ?_, fun hmem => ?_, fun hin => ?_⟩
  · obtain rfl : ',' = c := Option.some.inj hc
    decide
  · rcases List.mem_cons.mp hmem with habs | hmem
    · exact absurd habs (by decide)
    · exact h.bracket hmem
  · rcases List.infix_cons_iff.mp hin with hpre | hin
    · exact absurd (List.cons_prefix_cons.mp hpre).1 (by decide)
    · exact h.pair hin

/-- Behind two commas the tasks do not come back. -/
theorem readTasks_comma_ne {ts : List ListedTask}
    (h : ∀ t ∈ ts, TaskName (nodeName t.task.name)) {tail : Text} (htail : tail = [] ∨ tail = [','])
    (hempty : ts = [] → tail = []) :
    readTasks (',' :: ([','].intercalate (ts.map ListedTask.entry) ++ tail)) ≠
      ts.map taskValue := by
  intro heq
  cases ts with
  | nil =>
    -- the second comma is read as a task of its own
    rw [hempty rfl] at heq
    have hone : (readTasks [',']).length = 1 := by decide
    have hnone : readTasks [','] = [] := heq
    rw [hnone] at hone
    exact absurd hone (by decide)
  | cons t ts =>
    have ht := h t List.mem_cons_self
    have htext : ',' :: ([','].intercalate ((t :: ts).map ListedTask.entry) ++ tail) =
        [','].intercalate ((commaTask t :: ts).map ListedTask.entry) ++ tail := by
      rw [List.map_cons, List.map_cons, Text.intercalate_cons_eq, Text.intercalate_cons_eq]
      rfl
    have hread := readTasks_tail (List.cons_ne_nil (commaTask t) ts)
      (List.forall_mem_cons.mpr ⟨taskName_commaTask ht, fun t hmem =>
        h t (List.mem_cons_of_mem _ hmem)⟩) htail
    rw [htext, hread, List.map_cons, List.map_cons, List.cons.injEq] at heq
    have hvalue := heq.1
    simp only [taskValue, Val.dict.injEq, List.cons.injEq, Prod.mk.injEq, true_and,
      Val.str.injEq] at hvalue
    exact List.cons_ne_self ',' _ hvalue.1

theorem not_consistent_of_gap (h : TasksInArray current ready wait)
    (hgap : ¬ NoGap current ready wait) :
    ¬ Consistent "TASKS|".toList "TASKS" "tasks" ListedTask.entry taskValue
      (shownTasks current ready wait) (sysListTasks current ready wait) := by
  obtain ⟨tail, htail, hempty, hfront, hcount, hmade⟩ := sysListTasks_of_gap h hgap
  rw [hmade]
  intro hconsistent
  have hfield := readField_of_consistent taskFormat (fun n now text hn => parse_tasks hn now text)
    (by omega) rfl hconsistent
  have hread : readTasks ([','].intercalate (taskEntries (frontTasks current ready)) ++
      ',' :: ',' :: ([','].intercalate (taskEntries (backTasks current ready wait)) ++ tail)) =
      (shownTasks current ready wait).map taskValue := by
    rw [ListFormat.readField] at hfield
    split at hfield
    · have hnil := List.map_eq_nil_iff.mp hfield.symm
      exact absurd (List.append_eq_nil_iff.mp hnil).1 hfront
    · exact hfield
  have hnames := taskName_of_readTasks hread
  rw [shownTasks, List.forall_mem_append] at hnames
  rw [taskEntries, readTasks_append hfront hnames.1, shownTasks, List.map_append] at hread
  exact readTasks_comma_ne hnames.2 htail hempty (List.append_cancel_left hread)

theorem consistent_sysListTasks_iff :
    Consistent "TASKS|".toList "TASKS" "tasks" ListedTask.entry taskValue
        (shownTasks current ready wait) (sysListTasks current ready wait) ↔
      TasksInArray current ready wait ∧ NoGap current ready wait ∧
        taskFormat.ReadBack (shownTasks current ready wait) := by
  constructor
  · intro h
    obtain ⟨line, -, hmade, -⟩ := id h
    have hin := inArray_of_sysListTasks hmade
    by_cases hgap : NoGap current ready wait
    · obtain ⟨line', hmade', hline⟩ := lineOf_sysListTasks hin hgap
      rw [hmade'] at h
      exact ⟨hin, hgap, (consistent_iff taskFormat
        (fun n now text hn => parse_tasks hn now text) hline).mp h⟩
    · exact absurd h (not_consistent_of_gap hin hgap)
  · rintro ⟨hin, hgap, hback⟩
    obtain ⟨line, hmade, hline⟩ := lineOf_sysListTasks hin hgap
    rw [hmade]
    exact (consistent_iff taskFormat (fun n now text hn => parse_tasks hn now text) hline).mpr hback

end Tasks

/-! ### All lists -/

/-- The entries that are formatted are shorter than their array, and the ones that are shown come
back. -/
def LibsReadBack (header : Text) (nodes : List LibNode) : Prop :=
  InArray 80 ((nodes.map LibNode.entry).take (shown header (nodes.map LibNode.entry) + 1)) ∧
    libFormat.ReadBack (shownNodes header LibNode.entry nodes)

/-- A list of the system is consistent exactly if its entries fit into the arrays they are formatted
in, no task is put behind two commas, and the names that are shown are free of what separates the
entries. -/
theorem lists_consistent_iff (current : Option TaskNode) (ready wait : List TaskNode)
    (libList deviceList : List LibNode) (volumes : List VolumeNode)
    (portList : List (Option CString)) :
    (Consistent "TASKS|".toList "TASKS" "tasks" ListedTask.entry taskValue
          (shownTasks current ready wait) (sysListTasks current ready wait) ↔
        TasksInArray current ready wait ∧ NoGap current ready wait ∧
          taskFormat.ReadBack (shownTasks current ready wait)) ∧
    (Consistent "LIBS|".toList "LIBS" "libs" LibNode.entry libValue
          (shownNodes "LIBS|".toList LibNode.entry libList) (sysListLibs libList) ↔
        LibsReadBack "LIBS|".toList libList) ∧
    (Consistent "DEVICES|".toList "DEVICES" "devices" LibNode.entry libValue
          (shownNodes "DEVICES|".toList LibNode.entry deviceList) (sysListDevices deviceList) ↔
        LibsReadBack "DEVICES|".toList deviceList) ∧
    (Consistent "VOLUMES|".toList "VOLUMES" "volumes" VolumeNode.namebuf plainVolumeValue
          (shownNodes "VOLUMES|".toList VolumeNode.namebuf volumes)
          (some (sysListVolumes volumes)) ↔
        plainVolumeFormat.ReadBack (shownNodes "VOLUMES|".toList VolumeNode.namebuf volumes)) ∧
    (Consistent "VOLUMES|".toList "VOLUMES" "volumes" VolumeNode.entry volumeValue
          (shownNodes "VOLUMES|".toList VolumeNode.entry (volumes.take 32))
          (some (sysHandleVolumesExt volumes)) ↔
        volumeFormat.ReadBack
          (shownNodes "VOLUMES|".toList VolumeNode.entry (volumes.take 32))) ∧
    (Consistent "PORTS|".toList "PORTS" "ports" nodeName portValue
          (shownNodes "PORTS|".toList nodeName portList) (some (sysHandlePorts portList)) ↔
        portFormat.ReadBack (shownNodes "PORTS|".toList nodeName portList)) := by
  refine ⟨consistent_sysListTasks_iff, ?_, ?_, ?_, ?_, ?_⟩
  · exact consistent_arrayLine_iff libFormat (by decide)
      (fun n now text hn => parse_libs hn now text) 80 libList
  · exact consistent_arrayLine_iff libFormat (by decide)
      (fun n now text hn => parse_devices hn now text) 80 deviceList
  · exact consistent_countedLine_iff plainVolumeFormat (by decide)
      (fun n now text hn => parse_volumes hn now text) volumes
  · exact consistent_countedLine_iff volumeFormat (by decide)
      (fun n now text hn => parse_volumes hn now text) (volumes.take 32)
  · exact consistent_countedLine_iff portFormat (by decide)
      (fun n now text hn => parse_ports hn now text) portList

/-- A library with a comma in its name. -/
def commaLib : LibNode := ⟨some ⟨"a,b.library".toList, by decide⟩, 40, 1⟩

/-- A library with a name of a hundred characters. -/
def longLib : LibNode := ⟨some ⟨List.replicate 100 'x', by decide⟩, 40, 1⟩

/-- The host makes two libraries of one with a comma in its name, and the entry of a long name is
written past its array. -/
theorem libs_not_consistent :
    ¬ Consistent "LIBS|".toList "LIBS" "libs" LibNode.entry libValue
      (shownNodes "LIBS|".toList LibNode.entry [commaLib]) (sysListLibs [commaLib]) ∧
    sysListLibs [longLib] = none := by
  constructor
  · intro h
    have hback := ((consistent_arrayLine_iff libFormat (by decide)
      (fun n now text hn => parse_libs hn now text) 80 [commaLib]).mp h).2
    have hshown : shown "LIBS|".toList ([commaLib].map libFormat.write) = 1 := by decide
    rw [shownNodes, hshown] at hback
    exact absurd (hback.1 commaLib List.mem_cons_self).free (by decide)
  · decide

end AmigaDevbench.Inventory
