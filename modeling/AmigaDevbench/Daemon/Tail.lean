import AmigaDevbench.Core.Runs
import AmigaDevbench.Daemon.Files

/-!
# Tailing a file

`TAIL` remembers how long the file is. Each pass of the main loop opens the file and sends at most
256 of the bytes that lie behind the remembered place. A file that is now shorter than that has
been truncated, and is sent from its beginning.
-/

namespace AmigaDevbench.Daemon

/-- A file on the disk. `Seek` returns its length as a `LONG`. -/
abbrev StoredFile := {bytes : Bytes // bytes.length < 2 ^ 31}

/-- The files by the names they are opened with. -/
abbrev Disk := Text → Option StoredFile

/-- `g_tail_active`, `g_tail_path` and `g_tail_pos`. -/
structure Tail where
  active : Bool
  path : Text
  pos : Nat

/-- `handle_tail`. -/
def handleTail (disk : Disk) (tail : Tail) (args : Text) : Tail × Text :=
  if args = [] then (tail, "ERR|TAIL|needs file path".toList)
  else if tail.active then
    (tail, "ERR|TAIL|already tailing a file - send STOPTAIL first".toList)
  else match disk args with
    | none => (tail, "ERR|TAIL|cannot open file".toList)
    | some file => (⟨true, args.take 255, file.1.length⟩, "OK|TAIL|".toList ++ args)

/-- `"TAILDATA|%s|%s"`. -/
def taildataLine (path data : Text) : Text :=
  "TAILDATA".toList ++ '|' :: (path ++ '|' :: data)

/-- What a poll reads: `Read` is asked for at most 256 bytes and returns at most `granted`. -/
def tailRead (file : Bytes) (pos granted : Nat) : Bytes :=
  if pos < file.length then (file.drop pos).take (min granted (min 256 (file.length - pos))) else []

/-- `tail_poll` on a file as `Open` finds it: the lines that are sent. -/
def tailPoll (tail : Tail) (opened : Option StoredFile) (granted : Nat) : Tail × List Text :=
  if !tail.active then (tail, [])
  else match opened with
    | none => ({ tail with active := false }, [])
    | some file =>
      let (pos, marker) :=
        if file.1.length < tail.pos then (0, [taildataLine tail.path "TRUNCATED".toList])
        else (tail.pos, [])
      let data := tailRead file.1 pos granted
      ({ tail with pos := (pos + data.length) % 2 ^ 32 },
        marker ++ if data = [] then [] else [taildataLine tail.path data.hex])

/-- What happens while a file is tailed: other programs append to files and truncate them, and
the daemon polls. `Open` may fail on a file that another program has locked. -/
inductive TailEvent
  | append (path : Text) (bytes : Bytes)
  | truncate (path : Text) (length : Nat)
  | poll (opens : Bool) (granted : Nat)

/-- The disk, the daemon's tail and the lines it has sent. -/
structure TailSystem where
  disk : Disk
  tail : Tail
  sent : List Text

/-- Another content of a file. -/
def TailSystem.store (s : TailSystem) (path : Text) (file : StoredFile) : TailSystem :=
  { s with disk := Function.update s.disk path (some file) }

/-- A file must be there to be appended to, and stays within the length that `Seek` can return. A
truncation shortens it. -/
def tailStep (s : TailSystem) : TailEvent → Option TailSystem
  | .append path bytes => do
    let file ← s.disk path
    if h : (file.1 ++ bytes).length < 2 ^ 31 then
      some (s.store path ⟨file.1 ++ bytes, h⟩)
    else none
  | .truncate path length => do
    let file ← s.disk path
    if length < file.1.length then
      some (s.store path
        ⟨file.1.take length, (List.length_take_le' length file.1).trans_lt file.2⟩)
    else none
  | .poll opens granted =>
    let (tail, lines) := tailPoll s.tail (if opens then s.disk s.tail.path else none) granted
    some { s with tail := tail, sent := s.sent ++ lines }

section Reading

variable {file : Bytes} {pos granted : Nat}

/-- A poll reads the bytes that come next. -/
theorem take_append_tailRead :
    file.take pos ++ tailRead file pos granted =
      file.take (pos + (tailRead file pos granted).length) := by
  rw [tailRead]
  split
  · rw [List.length_take, List.length_drop, List.take_add]
    congr 1
    rw [List.take_eq_take_iff, List.length_drop]
    omega
  · rw [List.append_nil, List.length_nil, Nat.add_zero]

theorem pos_add_tailRead_le (hpos : pos ≤ file.length) :
    pos + (tailRead file pos granted).length ≤ file.length := by
  rw [tailRead]
  split
  · rw [List.length_take, List.length_drop]
    omega
  · exact hpos

/-- While there is more to read, a `Read` that returns something makes progress. -/
theorem length_tailRead_pos (hgranted : 0 < granted) (hpos : pos < file.length) :
    0 < (tailRead file pos granted).length := by
  rw [tailRead, if_pos hpos, List.length_take, List.length_drop]
  omega

end Reading

/-- The place from which a poll goes on: the remembered one, or the beginning of a file that has
become shorter. -/
def resume (tail : Tail) (file : Bytes) : Nat := if file.length < tail.pos then 0 else tail.pos

theorem resume_le (tail : Tail) (file : Bytes) : resume tail file ≤ file.length := by
  rw [resume]
  split <;> omega

/-- The lines of a poll behind the mark of a truncation. -/
def dataLines (path : Text) (data : Bytes) : List Text :=
  if data = [] then [] else [taildataLine path data.hex]

/-- A poll that can open the file goes on where it must. -/
theorem tailPoll_opened {tail : Tail} (hactive : tail.active = true) (file : StoredFile)
    (granted : Nat) :
    ∃ marker, (marker = [] ∨ marker = [taildataLine tail.path "TRUNCATED".toList]) ∧
      tailPoll tail (some file) granted =
        (⟨tail.active, tail.path,
            resume tail file.1 + (tailRead file.1 (resume tail file.1) granted).length⟩,
          marker ++ dataLines tail.path (tailRead file.1 (resume tail file.1) granted)) := by
  have hbound (pos : Nat) (hpos : pos ≤ file.1.length) :
      (pos + (tailRead file.1 pos granted).length) % 2 ^ 32 =
        pos + (tailRead file.1 pos granted).length := by
    have hle := @pos_add_tailRead_le _ _ granted hpos
    have hfile := file.2
    exact Nat.mod_eq_of_lt (by omega)
  rw [tailPoll, hactive]
  by_cases hshort : file.1.length < tail.pos
  · refine ⟨_, .inr rfl, ?_⟩
    simp only [Bool.not_true, Bool.false_eq_true, if_false, if_pos hshort, resume, dataLines,
      hbound 0 (Nat.zero_le _)]
  · refine ⟨_, .inl rfl, ?_⟩
    simp only [Bool.not_true, Bool.false_eq_true, if_false, if_neg hshort, resume, dataLines,
      hbound tail.pos (Nat.not_lt.mp hshort)]

end AmigaDevbench.Daemon
