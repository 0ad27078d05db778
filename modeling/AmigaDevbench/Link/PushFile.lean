import AmigaDevbench.Core.Channel
import AmigaDevbench.Core.Runs
import AmigaDevbench.Host.FileTransfer
import AmigaDevbench.Link.Replies

/-!
# Pushing a file

An OK reports how many bytes a WRITEFILE wrote, but not which one, and a WRITEFILE at offset zero
truncates the file. So a push can go wrong in two ways: an OK that is left over from another
chunk of the same length is taken for the current one, and a late copy of the first WRITEFILE
is executed behind a later one. Without such steps a push that ends well has written the file.
-/

namespace AmigaDevbench.PushFile

open Daemon FileTransfer Replies

/-- A reply in flight. `answers` is the offset of the WRITEFILE that was carried out, if the reply
reports one of this push. -/
structure Reply where
  line : Text
  answers : Option Nat
  deriving DecidableEq, Repr

/-- A WRITEFILE that the daemon executed. -/
structure Write where
  offset : Nat
  data : Bytes
  done : Bool
  deriving DecidableEq, Repr

/-- The host, the daemon's file, and what is in flight between them. `writes` are the executed
WRITEFILEs, the last one first; `acks` pairs every chunk that was taken as acknowledged with the
chunk that the reply answers. -/
structure State where
  host : Phase
  commands : Channel Command
  replies : Channel Reply
  file : Option Bytes
  writes : List Write
  acks : List (Nat × Option Nat)

/-- What can happen next. -/
inductive Label where
  | execute (i : Nat)
  | deliver (i : Nat) (hasDbg : Bool) (now : Text)
  | command (fault : Channel.Fault)
  | reply (fault : Channel.Fault)
  | timeout
  | reconnect (connected : Bool)

variable (t : Transfer)

/-- The bytes that the daemon decodes. -/
def decoded (hex : Text) : Bytes := ((hexBytes hex).take 4096).map UInt8.ofNat

/-- The daemon executes a command. -/
def execute (s : State) : Command → State
  | .write offset hex =>
    let done := (fsWriteFile s.file offset (decoded hex)).isSome
    let result := handleWritefile t.path offset hex s.file
    { s with
      file := result.1
      replies := ⟨result.2, if done then some offset else none⟩ :: s.replies
      writes := ⟨offset, decoded hex, done⟩ :: s.writes }
  | .checksum => { s with replies := ⟨handleChecksum t.path s.file, none⟩ :: s.replies }

/-- The event is an OK for as many bytes as the chunk has. -/
def confirms (offset : Nat) (e : Event) : Bool :=
  isWriteOk e && wrote e.data = (t.chunk offset).length

/-- The host reacts to an input; `answers` is known of the reply that brought it. -/
def react (s : State) (answers : Option Nat) (input : FileTransfer.Input) : State :=
  let acks := match s.host, input with
    | .writing offset _ _, .event e =>
      if confirms t offset e then (offset, answers) :: s.acks else s.acks
    | _, _ => s.acks
  let result := t.react s.host input
  { s with host := result.1, commands := result.2 ++ s.commands, acks := acks }

/-- One step of host, daemon or link. -/
def step (s : State) : Label → Option State
  | .execute i => (s.commands.receive i).map fun (command, rest) =>
    execute t { s with commands := rest } command
  | .deliver i hasDbg now => (s.replies.receive i).map fun (reply, rest) =>
    (published hasDbg now reply.line).foldl (fun s e => react t s reply.answers (.event e))
      { s with replies := rest }
  | .command fault => (s.commands.disturb fault).map fun rest => { s with commands := rest }
  | .reply fault => (s.replies.disturb fault).map fun rest => { s with replies := rest }
  | .timeout => some (react t s none .timeout)
  | .reconnect connected => some (react t s none (.reconnect connected))

/-- A push begins with any file on the Amiga, and with replies of earlier requests in flight. -/
def start (file : Option Bytes) (stale : List Text) : State :=
  ⟨t.start.1, t.start.2, stale.map fun line => ⟨line, none⟩, file, [], []⟩

/-- Neither of the two mistakes can happen: while the host waits for a chunk, every OK in flight
that it would take answers that chunk, and a WRITEFILE at offset zero is not executed behind one
of a later offset. -/
def Permit (s : State) : Label → Prop
  | .deliver _ hasDbg now => ∀ offset resumes tries, s.host = .writing offset resumes tries →
    ∀ r ∈ s.replies, ∀ e ∈ published hasDbg now r.line, confirms t offset e = true →
      r.answers = some offset
  | .execute i => ∀ hex rest, s.commands.receive i = some (.write 0 hex, rest) →
    ∀ w ∈ s.writes, w.offset = 0
  | _ => True

/-- The condition as a check of the state. -/
def permitted (s : State) : Label → Bool
  | .deliver _ hasDbg now =>
    match s.host with
    | .writing offset _ _ => s.replies.all fun r =>
      (published hasDbg now r.line).all fun e => !confirms t offset e || r.answers = some offset
    | _ => true
  | .execute i =>
    match s.commands.receive i with
    | some (.write 0 _, _) => s.writes.all (·.offset = 0)
    | _ => true
  | _ => true

theorem permitted_iff (s : State) (a : Label) : permitted t s a = true ↔ Permit t s a := by
  cases a with
  | deliver i hasDbg now =>
    simp only [permitted, Permit]
    cases hhost : s.host with
    | writing offset resumes tries =>
      simp only [List.all_eq_true, Bool.or_eq_true, Bool.not_eq_true', decide_eq_true_eq,
        Phase.writing.injEq]
      constructor
      · rintro h _ _ _ ⟨rfl, _⟩ r hr e he hconfirms
        rcases h r hr e he with hno | hanswers
        · rw [hconfirms] at hno
          cases hno
        · exact hanswers
      · intro h r hr e he
        cases hconfirms : confirms t offset e with
        | false => exact Or.inl rfl
        | true => exact Or.inr (h offset resumes tries ⟨rfl, rfl, rfl⟩ r hr e he hconfirms)
    | _ => simp
  | execute i =>
    simp only [permitted, Permit]
    split
    · next hex rest hreceive => simp [hreceive]
    · next hno =>
      simp only [true_iff]
      intro hex rest hreceive
      exact absurd hreceive (hno hex rest)
  | _ => simp [permitted, Permit]

instance (s : State) (a : Label) : Decidable (Permit t s a) :=
  decidable_of_iff _ (permitted_iff t s a)

/-- The offset of a chunk. -/
def IsChunk (offset : Nat) : Prop := t.chunkSize ∣ offset ∧ offset < t.data.length

/-- What is claimed of a state: no reply was taken for another chunk's, and a push that has
succeeded has its data in the file, each chunk by the last WRITEFILE at its offset. -/
structure Safe (s : State) : Prop where
  acks : ∀ a ∈ s.acks, a.2 = some a.1
  file : ∀ m, s.host = .finished (.done m) → s.file = some t.data
  crc : ∀ m, s.host = .finished (.done m) →
    s.file.map (fun file => (fsChecksum file).1) = some (Crc32.crc32 t.data)
  writes : ∀ m, s.host = .finished (.done m) → ∀ offset, IsChunk t offset →
    s.writes.find? (·.offset = offset) = some ⟨offset, t.chunk offset, true⟩

/-- Where the host stands when it has reached an offset. A push that has failed may stand
anywhere. -/
def At (pos : Nat) : Phase → Prop
  | .writing offset _ _ => offset = pos ∧ pos < t.data.length
  | .dropped offset _ => offset = pos ∧ pos < t.data.length
  | .checking => pos = t.data.length ∧ 0 < pos
  | .finished (.done _) => pos = t.data.length ∧ 0 < pos
  | .finished _ => True

/-- The commands that are sent at an offset. -/
def SentAt (pos : Nat) (c : Command) : Prop :=
  c = .checksum ∨ (c = .write pos (t.chunk pos).hex ∧ pos < t.data.length)

section Host

variable {t}

theorem sendChunk_at {pos : Nat} (h : pos < t.data.length) (resumes tries : Nat) :
    At t pos (t.sendChunk pos resumes tries).1 ∧
      ∀ c ∈ (t.sendChunk pos resumes tries).2, SentAt t pos c := by
  refine ⟨⟨rfl, h⟩, ?_⟩
  intro c hc
  exact Or.inr ⟨List.mem_singleton.mp hc, h⟩

theorem nextChunk_at {pos : Nat} (h : pos ≤ t.data.length) (hne : 0 < t.data.length)
    (resumes : Nat) :
    At t pos (t.nextChunk pos resumes).1 ∧
      ∀ c ∈ (t.nextChunk pos resumes).2, SentAt t pos c := by
  unfold Transfer.nextChunk
  split
  · next hlt => exact sendChunk_at hlt resumes _
  · refine ⟨⟨Nat.le_antisymm h (by omega), by omega⟩, ?_⟩
    intro c hc
    exact Or.inl (List.mem_singleton.mp hc)

theorem retry_at {pos : Nat} (h : pos < t.data.length) (resumes tries : Nat) :
    At t pos (t.retry pos resumes tries).1 ∧
      ∀ c ∈ (t.retry pos resumes tries).2, SentAt t pos c := by
  cases tries with
  | zero =>
    refine ⟨⟨rfl, h⟩, ?_⟩
    intro c hc
    cases hc
  | succ tries => exact sendChunk_at h resumes tries

theorem start_at : At t 0 t.start.1 ∧ ∀ c ∈ t.start.2, SentAt t 0 c := by
  unfold Transfer.start
  split
  · refine ⟨trivial, ?_⟩
    intro c hc
    cases hc
  · next hne => exact nextChunk_at (Nat.zero_le _) (by omega) 0

/-- An input that confirms nothing leaves the host at its offset. -/
theorem react_at {pos : Nat} {phase : Phase} (hat : At t pos phase) (input : FileTransfer.Input)
    (hno : ∀ e offset resumes tries, input = .event e → phase = .writing offset resumes tries →
      confirms t offset e = false) :
    At t pos (t.react phase input).1 ∧
      ∀ c ∈ (t.react phase input).2, SentAt t pos c := by
  have hstay : ∀ phase, At t pos phase → At t pos phase ∧
      ∀ c ∈ ([] : List Command), SentAt t pos c := by
    intro phase h
    exact ⟨h, fun c hc => absurd hc List.not_mem_nil⟩
  have hfinish : ∀ m, pos = t.data.length ∧ 0 < pos → At t pos (Transfer.finish m) := by
    intro m hpos
    unfold Transfer.finish
    split
    · trivial
    · exact hpos
  cases phase with
  | writing offset resumes tries =>
    obtain ⟨rfl, hlt⟩ := hat
    cases input with
    | event e =>
      have hconfirms := hno e offset resumes tries rfl rfl
      simp only [Transfer.react]
      by_cases hok : isWriteOk e = true
      · have hcount : ¬ wrote e.data = (t.chunk offset).length := by
          simpa [confirms, hok] using hconfirms
        rw [if_pos hok, if_neg hcount]
        exact retry_at hlt resumes tries
      · rw [if_neg hok]
        exact hstay _ ⟨rfl, hlt⟩
    | timeout => exact retry_at hlt resumes tries
    | reconnect connected => exact hstay _ ⟨rfl, hlt⟩
  | dropped offset resumes =>
    obtain ⟨rfl, hlt⟩ := hat
    cases input with
    | event e => exact hstay _ ⟨rfl, hlt⟩
    | timeout => exact hstay _ ⟨rfl, hlt⟩
    | reconnect connected =>
      simp only [Transfer.react]
      split
      · exact hstay _ trivial
      · split
        · exact nextChunk_at hlt.le (by omega) _
        · exact hstay _ trivial
  | checking =>
    cases input with
    | event e =>
      simp only [Transfer.react]
      split
      · exact hstay _ (hfinish _ hat)
      · exact hstay _ hat
    | timeout => exact hstay _ (hfinish none hat)
    | reconnect connected => exact hstay _ hat
  | finished result => cases input <;> exact hstay _ hat

end Host

/-- What holds in every state of a permitted run: the host has reached the offset `pos`, only
WRITEFILEs of chunks up to there are around, every executed one is carried out, and the file is
a beginning of the data that reaches `pos`. -/
structure Inv (pos : Nat) (s : State) : Prop where
  host : At t pos s.host
  place : t.chunkSize ∣ pos ∨ (pos = t.data.length ∧ 0 < t.chunkSize)
  bound : pos ≤ t.data.length
  commands : ∀ offset hex, .write offset hex ∈ s.commands →
    IsChunk t offset ∧ offset ≤ pos ∧ hex = (t.chunk offset).hex
  writes : ∀ w ∈ s.writes,
    IsChunk t w.offset ∧ w.data = (t.chunk w.offset).take 4096 ∧ w.done = true
  file : (s.writes = [] ∧ pos = 0) ∨ ∃ size, pos ≤ size ∧ s.file = some (t.data.take size) ∧
    ∀ w ∈ s.writes, w.offset + w.data.length ≤ size
  replies : ∀ r ∈ s.replies, ∀ offset, r.answers = some offset →
    (∃ w ∈ s.writes, w.offset = offset) ∧
      r.line = "OK|WRITEFILE|".toList ++ decimal ((t.chunk offset).take 4096).length
  covered : ∀ offset, IsChunk t offset → offset < pos →
    (∃ w ∈ s.writes, w.offset = offset) ∧ (t.chunk offset).length ≤ 4096
  acks : ∀ a ∈ s.acks, a.2 = some a.1

section Steps

variable {t} {pos : Nat} {s : State}

theorem length_chunk (offset : Nat) :
    (t.chunk offset).length = min t.chunkSize (t.data.length - offset) := by
  rw [Transfer.chunk, List.length_take, List.length_drop]

theorem decoded_chunk (offset : Nat) :
    decoded (t.chunk offset).hex = (t.chunk offset).take 4096 := by
  rw [decoded, hexBytes_hex, ← List.map_take, List.map_map]
  have hid : UInt8.ofNat ∘ UInt8.toNat = id := by
    funext b
    exact UInt8.ofNat_toNat
  rw [hid, List.map_id]

/-- What is written of a chunk continues the beginning of the data. -/
theorem take_append_chunk (offset : Nat) :
    t.data.take offset ++ (t.chunk offset).take 4096 =
      t.data.take (offset + ((t.chunk offset).take 4096).length) := by
  have hfront : (t.chunk offset).take 4096 <+: t.data.drop offset :=
    (List.take_prefix _ _).trans (List.take_prefix _ _)
  rw [List.take_add, ← List.prefix_iff_eq_take.mp hfront]

/-- A WRITEFILE of a chunk into a file that reaches it leaves a beginning of the data. -/
theorem fsWriteFile_chunk {offset size : Nat} (hpos : 0 < offset) (hle : offset ≤ size)
    (hlt : offset ≤ t.data.length) :
    fsWriteFile (some (t.data.take size)) offset ((t.chunk offset).take 4096) =
      some (t.data.take (max size (offset + ((t.chunk offset).take 4096).length))) := by
  let written := (t.chunk offset).take 4096
  have hreach : ¬ (t.data.take size).length < offset := by
    rw [List.length_take]
    omega
  have hhead : (t.data.take size).take offset ++ written =
      t.data.take (offset + written.length) := by
    rw [List.take_take, Nat.min_eq_left hle]
    exact take_append_chunk offset
  simp only [fsWriteFile]
  rw [if_neg (by omega), if_neg hreach]
  change some ((t.data.take size).take offset ++ written ++
    (t.data.take size).drop (offset + written.length)) = some (t.data.take (max size _))
  rw [hhead]
  rcases Nat.le_total (offset + written.length) size with h | h
  · have htake : t.data.take (offset + written.length) =
        (t.data.take size).take (offset + written.length) := by
      rw [List.take_take, Nat.min_eq_left h]
    rw [htake, List.take_append_drop, Nat.max_eq_left h]
  · have hdrop : (t.data.take size).drop (offset + written.length) = [] := by
      rw [List.drop_eq_nil_iff, List.length_take]
      omega
    rw [hdrop, List.append_nil, Nat.max_eq_right h]

/-- As long as nothing but the first chunk has been written, no more has been reached. -/
theorem le_firstChunk (hinv : Inv t pos s) (hchunk : IsChunk t 0)
    (hzero : ∀ w ∈ s.writes, w.offset = 0) : pos ≤ ((t.chunk 0).take 4096).length := by
  rcases Nat.eq_zero_or_pos pos with hpos | hpos
  · omega
  · have hsize : 0 < t.chunkSize := by
      rcases hinv.place with hdvd | ⟨_, h⟩
      · exact Nat.pos_of_dvd_of_pos hdvd hpos
      · exact h
    have hfirst := (hinv.covered 0 hchunk hpos).2
    rw [List.take_of_length_le hfirst, length_chunk, Nat.sub_zero]
    by_contra hlt
    have hbound := hinv.bound
    have hsecond : IsChunk t t.chunkSize := ⟨Nat.dvd_refl _, by omega⟩
    obtain ⟨⟨w, hw, hoffset⟩, _⟩ := hinv.covered t.chunkSize hsecond (by omega)
    have h0 := hzero w hw
    omega

/-- Every executed WRITEFILE is carried out, and leaves a beginning of the data. -/
theorem fsWriteFile_of_inv (hinv : Inv t pos s) {offset : Nat} (hchunk : IsChunk t offset)
    (hle : offset ≤ pos) (hzero : offset = 0 → ∀ w ∈ s.writes, w.offset = 0) :
    ∃ size, pos ≤ size ∧
      fsWriteFile s.file offset ((t.chunk offset).take 4096) = some (t.data.take size) ∧
      (∀ w ∈ s.writes, w.offset + w.data.length ≤ size) ∧
      offset + ((t.chunk offset).take 4096).length ≤ size := by
  rcases Nat.eq_zero_or_pos offset with rfl | hpos
  · -- The file is truncated, but nothing behind the first chunk has been written yet.
    have hsame : ∀ w ∈ s.writes, w.data = (t.chunk 0).take 4096 := by
      intro w hw
      obtain ⟨_, hdata, _⟩ := hinv.writes w hw
      rw [hdata, hzero rfl w hw]
    have hpos : pos ≤ ((t.chunk 0).take 4096).length := le_firstChunk hinv hchunk (hzero rfl)
    refine ⟨((t.chunk 0).take 4096).length, hpos, ?_, ?_, by omega⟩
    · have hhead := take_append_chunk (t := t) 0
      rw [List.take_zero, List.nil_append, Nat.zero_add] at hhead
      simp only [fsWriteFile, if_true]
      rw [← hhead]
    · intro w hw
      rw [hzero rfl w hw, hsame w hw]
      omega
  · rcases hinv.file with ⟨_, hzero'⟩ | ⟨size, hsize, hfile, hwrites⟩
    · omega
    · refine ⟨max size (offset + ((t.chunk offset).take 4096).length), by omega, ?_, ?_, by omega⟩
      · rw [hfile]
        exact fsWriteFile_chunk hpos (hle.trans hsize) hchunk.2.le
      · intro w hw
        have hw' := hwrites w hw
        omega

theorem inv_execute (hinv : Inv t pos s) {i : Nat} {c : Command} {rest : Channel Command}
    (hreceive : s.commands.receive i = some (c, rest))
    (hzero : ∀ hex, c = .write 0 hex → ∀ w ∈ s.writes, w.offset = 0) :
    Inv t pos (execute t { s with commands := rest } c) := by
  obtain ⟨hmem, hrest⟩ := Channel.mem_of_receive hreceive
  cases c with
  | checksum =>
    exact { hinv with
      commands := fun offset hex h => hinv.commands offset hex (hrest _ h)
      replies := by
        intro r hr offset hanswers
        rcases List.mem_cons.mp hr with rfl | hr
        · cases hanswers
        · exact hinv.replies r hr offset hanswers }
  | write offset hex =>
    obtain ⟨hchunk, hle, rfl⟩ := hinv.commands offset hex hmem
    obtain ⟨size, hsize, hwrite, hold, hnew⟩ := fsWriteFile_of_inv hinv hchunk hle
      fun h => hzero _ (by rw [h])
    have hresult : handleWritefile t.path offset (t.chunk offset).hex s.file =
        (some (t.data.take size), "OK|WRITEFILE|".toList ++
          decimal ((t.chunk offset).take 4096).length) := by
      have hdata := decoded_chunk (t := t) offset
      unfold decoded at hdata
      simp only [handleWritefile, hdata, hwrite]
    let w : Write := ⟨offset, (t.chunk offset).take 4096, true⟩
    have hstate : execute t { s with commands := rest } (.write offset (t.chunk offset).hex) =
        { s with
          commands := rest
          file := some (t.data.take size)
          replies := ⟨"OK|WRITEFILE|".toList ++
            decimal ((t.chunk offset).take 4096).length, some offset⟩ :: s.replies
          writes := w :: s.writes } := by
      simp only [execute, hresult, decoded_chunk, hwrite, Option.isSome_some, if_true, w]
    rw [hstate]
    exact { hinv with
      commands := fun offset hex h => hinv.commands offset hex (hrest _ h)
      writes := by
        intro w' hw'
        rcases List.mem_cons.mp hw' with rfl | hw'
        · exact ⟨hchunk, rfl, rfl⟩
        · exact hinv.writes w' hw'
      file := by
        refine Or.inr ⟨size, hsize, rfl, ?_⟩
        intro w' hw'
        rcases List.mem_cons.mp hw' with rfl | hw'
        · exact hnew
        · exact hold w' hw'
      replies := by
        intro r hr o hanswers
        rcases List.mem_cons.mp hr with rfl | hr
        · cases hanswers
          exact ⟨⟨w, List.mem_cons_self, rfl⟩, rfl⟩
        · obtain ⟨⟨w', hw', ho⟩, hline⟩ := hinv.replies r hr o hanswers
          exact ⟨⟨w', List.mem_cons_of_mem w hw', ho⟩, hline⟩
      covered := by
        intro o ho hlt
        obtain ⟨⟨w', hw', heq⟩, hlen⟩ := hinv.covered o ho hlt
        exact ⟨⟨w', List.mem_cons_of_mem w hw', heq⟩, hlen⟩ }

/-- An input that confirms nothing keeps what has been reached. -/
theorem inv_react (hinv : Inv t pos s) (answers : Option Nat) (input : FileTransfer.Input)
    (hno : ∀ e offset resumes tries, input = .event e → s.host = .writing offset resumes tries →
      confirms t offset e = false) : Inv t pos (react t s answers input) := by
  obtain ⟨hat, hsent⟩ := react_at hinv.host input hno
  have hacks : (react t s answers input).acks = s.acks := by
    unfold react
    simp only
    split
    · next offset resumes tries e hhost =>
      rw [hno e offset resumes tries rfl hhost]
      rfl
    · rfl
  have hcommands : ∀ offset hex, .write offset hex ∈ (t.react s.host input).2 ++ s.commands →
      IsChunk t offset ∧ offset ≤ pos ∧ hex = (t.chunk offset).hex := by
    intro offset hex h
    rcases List.mem_append.mp h with h | h
    · rcases hsent _ h with hc | ⟨hc, hlt⟩
      · cases hc
      · cases hc
        rcases hinv.place with hdvd | ⟨hend, _⟩
        · exact ⟨⟨hdvd, hlt⟩, le_refl _, rfl⟩
        · omega
    · exact hinv.commands offset hex h
  exact ⟨hat, hinv.place, hinv.bound, hcommands, hinv.writes, hinv.file, hinv.replies,
    hinv.covered, by rw [hacks]; exact hinv.acks⟩

/-- The OK to the current chunk is taken for it, and the next chunk is reached. -/
theorem inv_confirm (hinv : Inv t pos s) {resumes tries : Nat}
    (hhost : s.host = .writing pos resumes tries) {e : Event} (he : confirms t pos e = true)
    (hw : ∃ w ∈ s.writes, w.offset = pos) (hlen : (t.chunk pos).length ≤ 4096) :
    Inv t (pos + (t.chunk pos).length) (react t s (some pos) (.event e)) := by
  have hlt : pos < t.data.length := by
    have hat := hinv.host
    rw [hhost] at hat
    exact hat.2
  have hchunk := length_chunk (t := t) pos
  obtain ⟨w, hw, hoffset⟩ := hw
  have hdvd : t.chunkSize ∣ pos := by
    obtain ⟨hischunk, _⟩ := hinv.writes w hw
    exact hoffset ▸ hischunk.1
  have hnext : t.react s.host (.event e) = t.nextChunk (pos + (t.chunk pos).length) resumes := by
    obtain ⟨hok, hcount⟩ := Bool.and_eq_true_iff.mp he
    rw [hhost]
    simp only [Transfer.react, hok, if_true]
    rw [if_pos (of_decide_eq_true hcount)]
  have hstate : react t s (some pos) (.event e) =
      { s with
        host := (t.nextChunk (pos + (t.chunk pos).length) resumes).1
        commands := (t.nextChunk (pos + (t.chunk pos).length) resumes).2 ++ s.commands
        acks := (pos, some pos) :: s.acks } := by
    unfold react
    rw [hnext, hhost]
    simp only [he, if_true]
  have hbound : pos + (t.chunk pos).length ≤ t.data.length := by omega
  obtain ⟨hat, hsent⟩ := nextChunk_at hbound (by omega) resumes
  have hplace : t.chunkSize ∣ pos + (t.chunk pos).length ∨
      (pos + (t.chunk pos).length = t.data.length ∧ 0 < t.chunkSize) := by
    rcases Nat.lt_or_ge t.chunkSize (t.data.length - pos) with h | h
    · rw [hchunk, Nat.min_eq_left h.le]
      exact Or.inl (Nat.dvd_add hdvd (Nat.dvd_refl _))
    · exact Or.inr ⟨by omega, by omega⟩
  rw [hstate]
  refine ⟨hat, hplace, hbound, ?_, hinv.writes, ?_, hinv.replies, ?_, ?_⟩
  · intro offset hex h
    rcases List.mem_append.mp h with h | h
    · rcases hsent _ h with hc | ⟨hc, hlt'⟩
      · cases hc
      · cases hc
        rcases hplace with hdvd' | ⟨hend, _⟩
        · exact ⟨⟨hdvd', hlt'⟩, le_refl _, rfl⟩
        · omega
    · obtain ⟨hc, hle, hhex⟩ := hinv.commands offset hex h
      exact ⟨hc, by omega, hhex⟩
  · rcases hinv.file with ⟨hnone, _⟩ | ⟨size, hsize, hfile, hwrites⟩
    · rw [hnone] at hw
      exact absurd hw List.not_mem_nil
    · have hreach := hwrites w hw
      rw [(hinv.writes w hw).2.1, hoffset, List.take_of_length_le hlen] at hreach
      exact Or.inr ⟨size, hreach, hfile, hwrites⟩
  · intro offset hoff hbelow
    rcases Nat.lt_or_ge offset pos with h | h
    · exact hinv.covered offset hoff h
    · have heq : offset = pos := by
        obtain ⟨k, hk⟩ := hoff.1
        obtain ⟨j, hj⟩ := hdvd
        have hsize : offset < pos + t.chunkSize := by omega
        rw [hk, hj] at hsize h
        have hkj : k < j + 1 := by
          by_contra hge
          have hmul : t.chunkSize * (j + 1) ≤ t.chunkSize * k :=
            Nat.mul_le_mul_left _ (by omega)
          rw [Nat.mul_add, Nat.mul_one] at hmul
          omega
        have hkj' : t.chunkSize * k ≤ t.chunkSize * j := Nat.mul_le_mul_left _ (by omega)
        omega
      rw [heq]
      exact ⟨⟨w, hw, hoffset⟩, hlen⟩
  · intro a ha
    rcases List.mem_cons.mp ha with rfl | ha
    · rfl
    · exact hinv.acks a ha

/-- A reply that confirms nothing keeps what has been reached. -/
theorem inv_events (answers : Option Nat) (events : List Event) :
    ∀ {s : State}, Inv t pos s → (∀ e ∈ events, isWriteOk e = false) →
      Inv t pos (events.foldl (fun s e => react t s answers (.event e)) s) := by
  induction events with
  | nil => exact fun hinv _ => hinv
  | cons e events ih =>
    intro s hinv hno
    rw [List.foldl_cons]
    refine ih (inv_react hinv answers (.event e) ?_) fun e' he' =>
      hno e' (List.mem_cons_of_mem e he')
    intro e' offset resumes tries he' _
    cases he'
    simp [confirms, hno e List.mem_cons_self]

/-- An OK that confirms a chunk reports all of its bytes, so the chunk was not cut. -/
theorem length_chunk_of_confirms {offset : Nat} {hasDbg : Bool} {now : Text} {e : Event}
    (he : e ∈ published hasDbg now ("OK|WRITEFILE|".toList ++
      decimal ((t.chunk offset).take 4096).length)) (hconfirms : confirms t offset e = true) :
    (t.chunk offset).length ≤ 4096 := by
  have hle : ((t.chunk offset).take 4096).length ≤ 4096 := List.length_take_le _ _
  generalize hn : ((t.chunk offset).take 4096).length = n at he hle
  rw [published_writeOk, List.mem_singleton] at he
  have hmessage : e.data.getText "message" [] = decimal n := by rw [he]; rfl
  have hwrote : wrote e.data = n := by
    have hint := Py.int_toDigits (b := 10) (n := n) (by decide) (by decide) 0 fun _ => by
      have hlen : (Nat.toDigits 10 n).length ≤ 4 := by
        rw [Nat.length_toDigits_le_iff (by decide) (by decide)]
        omega
      simpa using hlen.trans (by decide)
    rw [List.replicate_zero, List.nil_append] at hint
    rw [wrote, hmessage, List.splitOn_eq_singleton (bar_notMem_decimal n), List.headD_cons,
      decimal, hint]
  have hcount := of_decide_eq_true (Bool.and_eq_true_iff.mp hconfirms).2
  rw [hwrote] at hcount
  omega

theorem inv_deliver (hinv : Inv t pos s) {i : Nat} {hasDbg : Bool} {now : Text} {r : Reply}
    {rest : Channel Reply} (hreceive : s.replies.receive i = some (r, rest))
    (hpermit : Permit t s (.deliver i hasDbg now)) :
    ∃ pos, Inv t pos ((published hasDbg now r.line).foldl
      (fun s e => react t s r.answers (.event e)) { s with replies := rest }) := by
  obtain ⟨hmem, hrest⟩ := Channel.mem_of_receive hreceive
  have hinv' : Inv t pos { s with replies := rest } :=
    { hinv with replies := fun r' hr' => hinv.replies r' (hrest r' hr') }
  by_cases hok : ∃ e ∈ published hasDbg now r.line, isWriteOk e = true
  · obtain ⟨e, he, hok⟩ := hok
    have hname : e.name = "ok" := of_decide_eq_true (Bool.and_eq_true_iff.mp hok).1
    have hone : published hasDbg now r.line = [e] :=
      published_eq_singleton he (by rw [hname]; decide)
    rw [hone, List.foldl_cons, List.foldl_nil]
    by_cases hconfirms : ∃ offset resumes tries, s.host = .writing offset resumes tries ∧
        confirms t offset e = true
    · obtain ⟨offset, resumes, tries, hhost, hconf⟩ := hconfirms
      have hat := hinv.host
      rw [hhost] at hat
      obtain ⟨rfl, _⟩ := hat
      have hanswers := hpermit offset resumes tries hhost r hmem e he hconf
      obtain ⟨hw, hline⟩ := hinv.replies r hmem offset hanswers
      have hlen : (t.chunk offset).length ≤ 4096 := by
        rw [hline] at he
        exact length_chunk_of_confirms he hconf
      rw [hanswers]
      exact ⟨_, inv_confirm hinv' hhost hconf hw hlen⟩
    · refine ⟨pos, inv_react hinv' r.answers (.event e) ?_⟩
      intro e' offset resumes tries he' hhost
      cases he'
      by_contra htrue
      exact hconfirms ⟨offset, resumes, tries, hhost, by simpa using htrue⟩
  · refine ⟨pos, inv_events r.answers _ hinv' ?_⟩
    intro e he
    by_contra htrue
    exact hok ⟨e, he, by simpa using htrue⟩

theorem inv_start (file : Option Bytes) (stale : List Text) : Inv t 0 (start t file stale) := by
  obtain ⟨hat, hsent⟩ := start_at (t := t)
  refine ⟨hat, Or.inl (Nat.dvd_zero _), Nat.zero_le _, ?_, by simp [start],
    Or.inl ⟨rfl, rfl⟩, ?_, fun _ _ h => absurd h (Nat.not_lt_zero _), by simp [start]⟩
  · intro offset hex h
    rcases hsent _ h with hc | ⟨hc, hlt⟩
    · cases hc
    · cases hc
      exact ⟨⟨Nat.dvd_zero _, hlt⟩, le_refl _, rfl⟩
  · intro r hr offset hanswers
    obtain ⟨line, _, rfl⟩ := List.mem_map.mp hr
    cases hanswers

/-- Every permitted step keeps the invariant, at some offset. -/
theorem inv_step {a : Label} {s' : State} (hinv : Inv t pos s) (hpermit : Permit t s a)
    (hstep : step t s a = some s') : ∃ pos, Inv t pos s' := by
  cases a with
  | execute i =>
    obtain ⟨⟨c, rest⟩, hreceive, rfl⟩ := Option.map_eq_some_iff.mp hstep
    refine ⟨pos, inv_execute hinv hreceive ?_⟩
    rintro hex rfl
    exact hpermit hex rest hreceive
  | deliver i hasDbg now =>
    obtain ⟨⟨r, rest⟩, hreceive, rfl⟩ := Option.map_eq_some_iff.mp hstep
    exact inv_deliver hinv hreceive hpermit
  | command fault =>
    obtain ⟨rest, hfault, rfl⟩ := Option.map_eq_some_iff.mp hstep
    have hrest := Channel.mem_of_disturb hfault
    exact ⟨pos, { hinv with
      commands := fun offset hex h => hinv.commands offset hex (hrest _ h) }⟩
  | reply fault =>
    obtain ⟨rest, hfault, rfl⟩ := Option.map_eq_some_iff.mp hstep
    have hrest := Channel.mem_of_disturb hfault
    exact ⟨pos, { hinv with replies := fun r hr => hinv.replies r (hrest r hr) }⟩
  | timeout =>
    cases hstep
    exact ⟨pos, inv_react hinv none .timeout fun e _ _ _ he _ => by cases he⟩
  | reconnect connected =>
    cases hstep
    exact ⟨pos, inv_react hinv none (.reconnect connected) fun e _ _ _ he _ => by cases he⟩

/-- Where the invariant holds, a push that has succeeded has written its data. -/
theorem safe_of_inv (hinv : Inv t pos s) : Safe t s := by
  have hend : ∀ m, s.host = .finished (.done m) → pos = t.data.length ∧ 0 < pos := by
    intro m hhost
    have hat := hinv.host
    rwa [hhost] at hat
  have hfile : ∀ m, s.host = .finished (.done m) → s.file = some t.data := by
    intro m hhost
    obtain ⟨hpos, hne⟩ := hend m hhost
    rcases hinv.file with ⟨_, hzero⟩ | ⟨size, hsize, hfile, _⟩
    · omega
    · rw [hfile, List.take_of_length_le (by omega)]
  refine ⟨hinv.acks, hfile, ?_, ?_⟩
  · intro m hhost
    rw [hfile m hhost, Option.map_some, fsChecksum_eq]
  · intro m hhost offset hoff
    obtain ⟨⟨w, hw, hoffset⟩, hlen⟩ :=
      hinv.covered offset hoff (by rw [(hend m hhost).1]; exact hoff.2)
    have hsome : (s.writes.find? (·.offset = offset)).isSome = true :=
      List.find?_isSome.mpr ⟨w, hw, by simpa using hoffset⟩
    obtain ⟨w', hw'⟩ := Option.isSome_iff_exists.mp hsome
    have hoffset' : w'.offset = offset := by simpa using List.find?_some hw'
    obtain ⟨_, hdata, hdone⟩ := hinv.writes w' (List.mem_of_find?_eq_some hw')
    rw [hw', ← hoffset', ← hdone]
    rw [hoffset', List.take_of_length_le hlen] at hdata
    rw [hoffset', ← hdata, ← hoffset']

end Steps

/-- In every run without the two mistakes, whatever is lost, delayed or duplicated, no OK is taken
for another chunk's, and a push that succeeds has written its data. -/
theorem push_file (t : Transfer) (file : Option Bytes) (stale : List Text) (s : State)
    (hrun : Reaches (step t) (Permit t) (start t file stale) s) : Safe t s := by
  have hinv : ∃ pos, Inv t pos s := by
    refine hrun.invariant (fun s => ∃ pos, Inv t pos s) ⟨0, inv_start file stale⟩ ?_
    rintro s a s' ⟨pos, hinv⟩ hpermit hstep
    exact inv_step hinv hpermit hstep
  obtain ⟨pos, hinv⟩ := hinv
  exact safe_of_inv hinv

/-- Two chunks of two bytes. -/
def twoChunks : Transfer := ⟨"RAM:f".toList, [1, 2, 3, 4], 2⟩

/-- Each command is executed and each reply delivered in turn. -/
def inTurn : List Label :=
  [.execute 0, .deliver 0 false [], .execute 0, .deliver 0 false [], .execute 0,
    .deliver 0 false []]

/-- The push ends well, and its data are in the file. -/
theorem push_file_inTurn : ∃ s,
    runLabels (step twoChunks) (start twoChunks none []) inTurn = some s ∧
    s.host = .finished (.done (some true)) ∧ s.file = some [1, 2, 3, 4] := by
  have hend : (runLabels (step twoChunks) (start twoChunks none []) inTurn).map (·.host) =
      some (.finished (.done (some true))) := by decide +kernel
  have hpermitted : AllPermitted (step twoChunks) (Permit twoChunks) (start twoChunks none [])
      inTurn := by decide
  obtain ⟨s, hrun, hhost⟩ := Option.map_eq_some_iff.mp hend
  have hsafe := push_file twoChunks none [] s (Reaches.refl.of_labels hrun hpermitted)
  exact ⟨s, hrun, hhost, hsafe.file _ hhost⟩

/-- The first chunk is sent twice and the second one lost; the second OK to the first chunk is
taken for the second one, and the checksum does not arrive. -/
def staleOk : List Label :=
  [.timeout, .execute 0, .execute 0, .deliver 0 false [], .command (.lose 0),
    .deliver 0 false [], .timeout]

/-- A copy of the first WRITEFILE is executed when the push has ended well. -/
def lateCopy : List Label :=
  [.command (.duplicate 0), .execute 0, .deliver 0 false [], .execute 0, .deliver 0 false [],
    .execute 0, .deliver 0 false [], .execute 0]

/-- Without the condition a push can succeed although a chunk was never written, and although the
file is truncated afterwards. -/
theorem push_file_unsafe :
    (∃ s, Reaches (step twoChunks) (fun _ _ => True) (start twoChunks none []) s ∧
      s.host = .finished (.done none) ∧ s.acks = [(2, some 0), (0, some 0)] ∧
      s.file = some [1, 2] ∧ ¬ Safe twoChunks s) ∧
    ∃ s, Reaches (step twoChunks) (fun _ _ => True) (start twoChunks none []) s ∧
      s.host = .finished (.done (some true)) ∧ s.file = some [1, 2] ∧ ¬ Safe twoChunks s := by
  constructor
  · have hend : (runLabels (step twoChunks) (start twoChunks none []) staleOk).map
        (fun s => (s.host, s.acks, s.file)) =
        some (.finished (.done none), [(2, some 0), (0, some 0)], some [1, 2]) := by decide
    obtain ⟨s, hrun, hs⟩ := Option.map_eq_some_iff.mp hend
    obtain ⟨hhost, hacks, hfile⟩ : s.host = .finished (.done none) ∧
        s.acks = [(2, some 0), (0, some 0)] ∧ s.file = some [1, 2] := by
      simpa only [Prod.mk.injEq] using hs
    refine ⟨s, Reaches.refl.of_labels hrun (allPermitted_true _ _), hhost, hacks, hfile, ?_⟩
    intro hsafe
    exact absurd (hfile.symm.trans (hsafe.file _ hhost)) (by decide)
  · have hend : (runLabels (step twoChunks) (start twoChunks none []) lateCopy).map
        (fun s => (s.host, s.file)) =
        some (.finished (.done (some true)), some [1, 2]) := by decide +kernel
    obtain ⟨s, hrun, hs⟩ := Option.map_eq_some_iff.mp hend
    obtain ⟨hhost, hfile⟩ : s.host = .finished (.done (some true)) ∧ s.file = some [1, 2] := by
      simpa only [Prod.mk.injEq] using hs
    refine ⟨s, Reaches.refl.of_labels hrun (allPermitted_true _ _), hhost, hfile, ?_⟩
    intro hsafe
    exact absurd (hfile.symm.trans (hsafe.file _ hhost)) (by decide)

end AmigaDevbench.PushFile
