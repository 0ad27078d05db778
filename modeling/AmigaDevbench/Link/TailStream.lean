import AmigaDevbench.Daemon.Tail
import AmigaDevbench.Link.Replies

/-!
# The stream of a tailed file

The host decodes the TAILDATA lines one after another. What they carry is what was appended to the
file since the tail began, or the beginning of the file since it was truncated last, as long as
every poll finds the file and sees that it has become shorter.
-/

namespace AmigaDevbench.TailStream

open Daemon Protocol SerialConn Replies

/-- The message of a TAILDATA line. -/
def taildataMsg (path data : Text) : Dict :=
  [("type", .str "TAILDATA".toList), ("path", .str path), ("data", .str data)]

/-- The bytes of an event: none for the mark of a truncation. -/
def decoded (e : Event) : Bytes :=
  if e.name = "taildata" ∧ e.data.getText "data" [] ≠ "TRUNCATED".toList then
    match Py.fromhex (e.data.getText "data" []) with
    | .ok bytes => bytes
    | .error _ => []
  else []

/-- The bytes that the host decodes from the lines. -/
def payloads (hasDbg : Bool) (now : Text) (lines : List Text) : Bytes :=
  lines.flatMap fun line => (published hasDbg now line).flatMap decoded

section Decoding

variable {hasDbg : Bool} {now path data : Text}

/-- A TAILDATA line is published with its path and its data. -/
theorem published_taildata (hpath : '|' ∉ path) (hdata : '|' ∉ data) :
    published hasDbg now (taildataLine path data) = [⟨"taildata", taildataMsg path data⟩] := by
  have hbranch : branchOf "TAILDATA".toList = some (.guarded fun _ _ p => parseTaildata p) := rfl
  have hparse : parseMessage now (taildataLine path data) =
      .ok (some (taildataMsg path data)) := by
    unfold taildataLine
    rw [parseMessage, Text.splitOn_field (by decide), Text.splitOn_field hpath,
      List.splitOn_eq_singleton hdata]
    simp only [List.headD_cons, hbranch, Branch.run, parseTaildata, field,
      List.getD_cons_succ, List.getD_cons_zero, taildataMsg]
  exact published_of_parse hparse rfl

theorem payloads_append (lines more : List Text) :
    payloads hasDbg now (lines ++ more) =
      payloads hasDbg now lines ++ payloads hasDbg now more :=
  List.flatMap_append

/-- The mark of a truncation carries no bytes. -/
theorem payloads_marker (hpath : '|' ∉ path) :
    payloads hasDbg now [taildataLine path "TRUNCATED".toList] = [] := by
  rw [payloads, List.flatMap_singleton, published_taildata hpath (by decide)]
  rfl

/-- The data of a poll are decoded to the bytes that it has read. -/
theorem payloads_dataLines (hpath : '|' ∉ path) (bytes : Bytes) :
    payloads hasDbg now (dataLines path bytes) = bytes := by
  rw [dataLines]
  split
  · next hnil => exact hnil.symm
  · have hmark : bytes.hex ≠ "TRUNCATED".toList := by
      intro heq
      have hlen := congrArg List.length heq
      rw [Bytes.length_hex] at hlen
      change 2 * bytes.length = 9 at hlen
      omega
    have htext : (taildataMsg path bytes.hex).getText "data" [] = bytes.hex := rfl
    rw [payloads, List.flatMap_singleton, published_taildata hpath (bar_notMem_hex bytes),
      List.flatMap_singleton, decoded, htext, if_pos ⟨rfl, hmark⟩, Py.fromhex_hex]

end Decoding

/-! ### Runs -/

/-- What is watched of a run: how much of the file lies before the bytes that the stream shall
carry, how many lines had been sent then, and whether the file has been truncated since the last
poll. -/
structure Watched where
  mark : Nat
  since : Nat
  cut : Bool

/-- A truncation of the tailed file begins a new content. -/
def note (path : Text) (s : TailSystem) (e : TailEvent) (w : Watched) : Watched :=
  match e with
  | .append _ _ => w
  | .truncate p _ => if p = path then ⟨0, s.sent.length, true⟩ else w
  | .poll _ _ => { w with cut := false }

/-- A poll opens the file, and finds a truncated one shorter than what it has sent of it. -/
def Noticed (path : Text) (x : TailSystem × Watched) : TailEvent → Prop
  | .poll opens _ => opens = true ∧ (x.2.cut = true → x.1.tail.pos = 0 ∨
      ∀ file ∈ x.1.disk path, file.1.length < x.1.tail.pos)
  | _ => True

/-- The state in which TAIL has been answered with OK. -/
def tailing (disk : Disk) (tail : Tail) (path : Text) (file : StoredFile) :
    TailSystem × Watched :=
  (⟨disk, (handleTail disk tail path).1, []⟩, ⟨file.1.length, 0, false⟩)

/-- The bytes decoded since the stream began or the file was truncated last. -/
def streamed (hasDbg : Bool) (now : Text) (x : TailSystem × Watched) : Bytes :=
  payloads hasDbg now (x.1.sent.drop x.2.since)

/-- The bytes that the stream shall carry. -/
def appended (path : Text) (x : TailSystem × Watched) : Bytes :=
  (x.1.disk path).elim [] fun file => file.1.drop x.2.mark

/-! ### One step -/

/-- What holds in every state of a run in which each truncation is noticed: the stream is the
piece of the file between the mark and the remembered place, or a new content has not been
looked at yet. -/
structure Following (hasDbg : Bool) (now path : Text) (x : TailSystem × Watched) : Prop where
  active : x.1.tail.active = true
  name : x.1.tail.path = path
  since : x.2.since ≤ x.1.sent.length
  found : ∃ file, x.1.disk path = some file ∧
    if x.2.cut then x.2.mark = 0 ∧ x.2.since = x.1.sent.length
    else x.2.mark ≤ x.1.tail.pos ∧ x.1.tail.pos ≤ file.1.length ∧
      streamed hasDbg now x = (file.1.take x.1.tail.pos).drop x.2.mark

section Steps

variable {hasDbg : Bool} {now path : Text} {x y : TailSystem × Watched}

/-- Lines that are sent on are decoded behind the ones before. -/
theorem streamed_send (hsince : x.2.since ≤ x.1.sent.length) (lines : List Text) (tail : Tail)
    (cut : Bool) :
    streamed hasDbg now
        ({ x.1 with tail := tail, sent := x.1.sent ++ lines }, { x.2 with cut := cut }) =
      streamed hasDbg now x ++ payloads hasDbg now lines := by
  rw [streamed, streamed, List.drop_append_of_le_length hsince, payloads_append]

/-- What a poll sends is what it has read. -/
theorem payloads_poll (hpath : '|' ∉ path) {marker : List Text}
    (hmarker : marker = [] ∨ marker = [taildataLine path "TRUNCATED".toList]) (data : Bytes) :
    payloads hasDbg now (marker ++ dataLines path data) = data := by
  rw [payloads_append, payloads_dataLines hpath]
  rcases hmarker with rfl | rfl
  · rfl
  · rw [payloads_marker hpath, List.nil_append]

/-- The streamed piece grows by what is read behind it. -/
theorem drop_take_append_tailRead {file : Bytes} {mark pos granted : Nat} (hmark : mark ≤ pos)
    (hpos : pos ≤ file.length) :
    (file.take pos).drop mark ++ tailRead file pos granted =
      (file.take (pos + (tailRead file pos granted).length)).drop mark := by
  have hle : mark ≤ (file.take pos).length := by
    rw [List.length_take]
    omega
  rw [← take_append_tailRead, List.drop_append_of_le_length hle]

/-- Where a noticed poll goes on. -/
theorem resume_of_noticed (h : Following hasDbg now path x) {opens : Bool} {granted : Nat}
    (hnoticed : Noticed path x (.poll opens granted)) {file : StoredFile}
    (hfile : x.1.disk path = some file) :
    x.2.mark ≤ resume x.1.tail file.1 ∧
      streamed hasDbg now x = (file.1.take (resume x.1.tail file.1)).drop x.2.mark := by
  obtain ⟨file', hfile', hcut⟩ := h.found
  obtain rfl : file = file' := Option.some.inj (hfile.symm.trans hfile')
  cases hw : x.2.cut with
  | true =>
    rw [hw, if_pos rfl] at hcut
    have hzero : resume x.1.tail file.1 = 0 := by
      rw [resume]
      rcases hnoticed.2 hw with hpos | hshort
      · rw [hpos, ite_self]
      · exact if_pos (hshort file hfile)
    rw [hzero, streamed, hcut.2, List.drop_length, hcut.1]
    exact ⟨Nat.le_refl 0, rfl⟩
  | false =>
    rw [hw, if_neg (by decide)] at hcut
    rw [resume, if_neg (Nat.not_lt.mpr hcut.2.1)]
    exact ⟨hcut.1, hcut.2.2⟩

/-- A poll that finds the file sends what comes next of it. -/
theorem poll_step (hpath : '|' ∉ path) (h : Following hasDbg now path x) {granted : Nat}
    (hnoticed : Noticed path x (.poll true granted))
    (hstep : watch tailStep (note path) x (.poll true granted) = some y) {file : StoredFile}
    (hfile : x.1.disk path = some file) :
    Following hasDbg now path y ∧ y.1.disk path = some file ∧ y.2.cut = false ∧
      y.1.tail.pos = resume x.1.tail file.1 +
        (tailRead file.1 (resume x.1.tail file.1) granted).length := by
  obtain ⟨hnext, hnote⟩ := watch_eq_some.mp hstep
  obtain ⟨marker, hmarker, hpoll⟩ := tailPoll_opened h.active file granted
  rw [h.name] at hmarker
  rw [tailStep, h.name, if_pos rfl, hfile, hpoll] at hnext
  obtain ⟨s', w'⟩ := y
  obtain ⟨hmark, hstream⟩ := resume_of_noticed h hnoticed hfile
  have hle := resume_le x.1.tail file.1
  have hs := Option.some.inj hnext
  simp only at hs hnote
  subst hs hnote
  refine ⟨⟨h.active, h.name, ?_, file, hfile, ?_⟩, hfile, rfl, rfl⟩
  · simp only [note, List.length_append]
    exact h.since.trans (Nat.le_add_right _ _)
  · simp only [note, Bool.false_eq_true, if_false]
    refine ⟨hmark.trans (Nat.le_add_right _ _), pos_add_tailRead_le hle, ?_⟩
    rw [streamed_send h.since, h.name, payloads_poll hpath hmarker, hstream,
      drop_take_append_tailRead hmark hle]

/-- Another content of the tailed file changes none of the lines. -/
theorem store_following (h : Following hasDbg now path x) {p : Text} {file : StoredFile}
    {w : Watched} (hother : p ≠ path → w = x.2)
    (hsame : p = path → if w.cut then w.mark = 0 ∧ w.since = x.1.sent.length
      else w = x.2 ∧ x.2.mark ≤ x.1.tail.pos ∧ x.1.tail.pos ≤ file.1.length ∧
        streamed hasDbg now x = (file.1.take x.1.tail.pos).drop x.2.mark) :
    Following hasDbg now path (x.1.store p file, w) := by
  by_cases hp : p = path
  · subst hp
    have hcut := hsame rfl
    refine ⟨h.active, h.name, ?_, file, Function.update_self .., ?_⟩
    · split at hcut
      · exact hcut.2.le
      · exact hcut.1 ▸ h.since
    · split at hcut
      · next hw =>
        rw [if_pos hw]
        exact hcut
      · next hw =>
        obtain ⟨rfl, hrest⟩ := hcut
        rw [if_neg hw]
        exact hrest
  · obtain rfl := hother hp
    obtain ⟨file', hfile', hcut⟩ := h.found
    have hkept : (x.1.store p file).disk path = some file' :=
      (Function.update_of_ne (Ne.symm hp) ..).trans hfile'
    exact ⟨h.active, h.name, h.since, file', hkept, hcut⟩

/-- Every step in which a truncation is noticed keeps the stream with the file. -/
theorem following_step (hpath : '|' ∉ path) {e : TailEvent} (h : Following hasDbg now path x)
    (hnoticed : Noticed path x e) (hstep : watch tailStep (note path) x e = some y) :
    Following hasDbg now path y := by
  obtain ⟨file, hfile, hcut⟩ := h.found
  obtain ⟨hnext, hnote⟩ := watch_eq_some.mp hstep
  obtain ⟨s', w'⟩ := y
  cases e with
  | append p bytes =>
    obtain ⟨old, hold, hnext⟩ := Option.bind_eq_some_iff.mp hnext
    split at hnext
    · cases hnext
      obtain rfl : w' = x.2 := hnote
      refine store_following h (fun _ => rfl) fun hp => ?_
      obtain rfl : file = old := Option.some.inj (hfile.symm.trans (hp ▸ hold))
      split at hcut
      · next hw => simpa only [hw, if_true] using hcut
      · next hw =>
        obtain ⟨hmark, hpos, hstream⟩ := hcut
        rw [if_neg hw, List.length_append, List.take_append_of_le_length hpos]
        exact ⟨rfl, hmark, by omega, hstream⟩
    · cases hnext
  | truncate p length =>
    obtain ⟨old, hold, hnext⟩ := Option.bind_eq_some_iff.mp hnext
    split at hnext
    · cases hnext
      refine store_following h (fun hp => ?_) fun hp => ?_
      · exact hnote.trans (if_neg hp)
      · obtain rfl : w' = ⟨0, x.1.sent.length, true⟩ := hnote.trans (if_pos hp)
        exact ⟨rfl, rfl⟩
    · cases hnext
  | poll opens granted =>
    obtain rfl : opens = true := hnoticed.1
    exact (poll_step hpath h hnoticed hstep hfile).1

/-- The streamed bytes are the first of those that shall be carried. -/
theorem Following.beginning (h : Following hasDbg now path x) :
    streamed hasDbg now x <+: appended path x := by
  obtain ⟨file, hfile, hcut⟩ := h.found
  rw [appended, hfile, Option.elim_some]
  split at hcut
  · rw [streamed, hcut.2, List.drop_length]
    exact List.nil_prefix
  · rw [hcut.2.2, List.drop_take]
    exact List.take_prefix _ _

/-- A poll brings the stream further, unless it carries everything. -/
theorem poll_progress (hpath : '|' ∉ path) (h : Following hasDbg now path x) {granted : Nat}
    (hgranted : 0 < granted) (hnoticed : Noticed path x (.poll true granted))
    (hstep : watch tailStep (note path) x (.poll true granted) = some y) :
    appended path y = appended path x ∧
      ((streamed hasDbg now x).length < (appended path x).length →
        (streamed hasDbg now x).length < (streamed hasDbg now y).length) ∧
      (streamed hasDbg now x).length ≤ (streamed hasDbg now y).length := by
  obtain ⟨file, hfile, -⟩ := h.found
  obtain ⟨hmark, hstream⟩ := resume_of_noticed h hnoticed hfile
  obtain ⟨hy, hfile', hcut, hpos⟩ := poll_step hpath h hnoticed hstep hfile
  obtain ⟨file', hfound, hstream'⟩ := hy.found
  obtain rfl : file = file' := Option.some.inj (hfile'.symm.trans hfound)
  rw [hcut, if_neg (by decide), hpos] at hstream'
  have hkeep : y.2.mark = x.2.mark := by
    rw [(watch_eq_some.mp hstep).2]
    rfl
  have hle := resume_le x.1.tail file.1
  have hread := @pos_add_tailRead_le _ _ granted hle
  have hmore : resume x.1.tail file.1 < file.1.length →
      0 < (tailRead file.1 (resume x.1.tail file.1) granted).length :=
    length_tailRead_pos hgranted
  rw [appended, appended, hfile, hfile', Option.elim_some, Option.elim_some, hkeep, hstream,
    hstream'.2.2, hkeep]
  rw [List.length_drop, List.length_drop, List.length_drop, List.length_take_of_le hle,
    List.length_take_of_le hread]
  refine ⟨rfl, fun hless => ?_, by omega⟩
  have hgrow := hmore (by omega)
  omega

/-- As many polls as there are bytes to carry, each of which reads something, carry them all. -/
theorem catch_up (hpath : '|' ∉ path) {reads : List Nat} (hreads : ∀ r ∈ reads, 0 < r) :
    ∀ {x y : TailSystem × Watched}, Following hasDbg now path x →
      AllPermitted (watch tailStep (note path)) (Noticed path) x (reads.map (.poll true)) →
      runLabels (watch tailStep (note path)) x (reads.map (.poll true)) = some y →
      (appended path x).length ≤ (streamed hasDbg now x).length + reads.length →
      streamed hasDbg now y = appended path x := by
  induction reads with
  | nil =>
    intro x y h _ hrun hlen
    cases hrun
    exact h.beginning.eq_of_length_le hlen
  | cons r reads ih =>
    intro x y h hpermitted hrun hlen
    obtain ⟨t, hstep, hrest⟩ := Option.bind_eq_some_iff.mp hrun
    obtain ⟨hsame, hmore, hkeep⟩ :=
      poll_progress hpath h (hreads r List.mem_cons_self) hpermitted.1 hstep
    have ht := following_step hpath h hpermitted.1 hstep
    rw [← hsame]
    refine ih (fun r' hr' => hreads r' (List.mem_cons_of_mem r hr')) ht
      (hpermitted.2 t hstep) hrest ?_
    rw [hsame]
    rw [List.length_cons] at hlen
    rcases Nat.lt_or_ge (streamed hasDbg now x).length (appended path x).length with hlt | hge
    · have hgrow := hmore hlt
      omega
    · omega

end Steps

/-- The stream has carried a beginning of what it shall carry, and carries all of it with as many
further polls as there are bytes, if each of them reads something. -/
def Lossless (hasDbg : Bool) (now path : Text) (x : TailSystem × Watched) : Prop :=
  streamed hasDbg now x <+: appended path x ∧
    ∀ reads : List Nat, (∀ r ∈ reads, 0 < r) → (appended path x).length ≤ reads.length →
      AllPermitted (watch tailStep (note path)) (Noticed path) x (reads.map (.poll true)) →
      ∀ y, runLabels (watch tailStep (note path)) x (reads.map (.poll true)) = some y →
        streamed hasDbg now y = appended path x

section Stream

variable {hasDbg : Bool} {now path : Text} {disk : Disk} {tail : Tail} {file : StoredFile}

/-- A tail that has just begun has nothing to carry. -/
theorem following_tailing (hne : path ≠ []) (hlen : path.length ≤ 255)
    (hidle : tail.active = false) (hfile : disk path = some file) :
    Following hasDbg now path (tailing disk tail path file) := by
  have htail : (handleTail disk tail path).1 = ⟨true, path, file.1.length⟩ := by
    rw [handleTail, if_neg hne, hidle, hfile, List.take_of_length_le hlen]
    rfl
  refine ⟨?_, ?_, Nat.le_refl 0, file, hfile, ?_⟩
  · rw [tailing, htail]
  · rw [tailing, htail]
  · rw [tailing, htail, if_neg Bool.false_ne_true]
    refine ⟨Nat.le_refl _, Nat.le_refl _, ?_⟩
    rw [List.take_length, List.drop_length]
    rfl

/-- Where each poll finds the file and notices a truncation, the stream is lossless. -/
theorem tail_lossless (hbar : '|' ∉ path) (hne : path ≠ []) (hlen : path.length ≤ 255)
    (hidle : tail.active = false) (hfile : disk path = some file) {x : TailSystem × Watched}
    (h : Reaches (watch tailStep (note path)) (Noticed path) (tailing disk tail path file) x) :
    Lossless hasDbg now path x := by
  have hx : Following hasDbg now path x :=
    h.invariant (Following hasDbg now path) (following_tailing hne hlen hidle hfile)
      fun s e s' hs hnoticed hstep => following_step hbar hs hnoticed hstep
  refine ⟨hx.beginning, fun reads hreads hcount hpermitted y hrun => ?_⟩
  exact catch_up hbar hreads hx hpermitted hrun (hcount.trans (Nat.le_add_left _ _))

end Stream

/-- A log of one byte. -/
def logFile : StoredFile := ⟨[65], by decide⟩

def logPath : Text := "T:log".toList

/-- A disk with the log alone. -/
def logDisk : Disk := Function.update (fun _ => none) logPath (some logFile)

/-- The log is truncated and polled, a byte is appended and polled. -/
theorem tail_lossless_truncated :
    ∃ x, runLabels (watch tailStep (note logPath)) (tailing logDisk ⟨false, [], 0⟩ logPath logFile)
        [.truncate logPath 0, .poll true 256, .append logPath [66], .poll true 256] = some x ∧
      streamed false [] x = [66] ∧ Lossless false [] logPath x := by
  obtain ⟨x, hrun, hstream⟩ : ∃ x, runLabels (watch tailStep (note logPath))
      (tailing logDisk ⟨false, [], 0⟩ logPath logFile)
      [.truncate logPath 0, .poll true 256, .append logPath [66], .poll true 256] = some x ∧
      streamed false [] x = [66] := ⟨_, rfl, by decide⟩
  refine ⟨x, hrun, hstream, ?_⟩
  refine tail_lossless (by decide) (by decide) (by decide) rfl rfl (Reaches.refl.of_labels hrun ?_)
  refine ⟨trivial, ?_⟩
  rintro s ⟨⟩
  refine ⟨⟨rfl, fun _ => .inr ?_⟩, ?_⟩
  · rintro file ⟨⟩
    decide
  · rintro s ⟨⟩
    refine ⟨trivial, ?_⟩
    rintro s ⟨⟩
    exact ⟨⟨rfl, fun h => by cases h⟩, fun s _ => trivial⟩

/-- The log is truncated and grows past its old length before the next poll. -/
theorem tail_not_lossless :
    ¬ ∀ x, Reaches (watch tailStep (note logPath)) (fun _ _ => True)
      (tailing logDisk ⟨false, [], 0⟩ logPath logFile) x → Lossless false [] logPath x := by
  intro hall
  obtain ⟨x, hrun, hskipped⟩ : ∃ x, runLabels (watch tailStep (note logPath))
      (tailing logDisk ⟨false, [], 0⟩ logPath logFile)
      [.truncate logPath 0, .append logPath [66, 67], .poll true 256] = some x ∧
      ¬ streamed false [] x <+: appended logPath x := ⟨_, rfl, by decide⟩
  exact hskipped (hall x (Reaches.refl.of_labels hrun (allPermitted_true _ _))).1

end AmigaDevbench.TailStream
