import AmigaDevbench.Core.Returns
import AmigaDevbench.Core.Runs
import AmigaDevbench.Host.Gdb

/-!
# The register cache of the GDB server

A packet is safe when its handler does not raise and stores only 32-bit values. `safe` decides
this on the text of the packet; along a run of safe packets and of stops in range the cache stays
in range, so the registers are always read as eighteen words, and writing these words back
changes nothing.
-/

namespace AmigaDevbench.Gdb

open DebuggerState Protocol

/-- The text can be sent over the link. -/
def Latin (s : Text) : Prop := ∀ c ∈ s, c.toNat < 256

instance (s : Text) : Decidable (Latin s) := inferInstanceAs (Decidable (∀ c ∈ s, _))

@[simp] theorem latin_append {s t : Text} : Latin (s ++ t) ↔ Latin s ∧ Latin t := by
  simp only [Latin, List.mem_append, or_imp, forall_and]

@[simp] theorem latin_cons {c : Char} {s : Text} : Latin (c :: s) ↔ c.toNat < 256 ∧ Latin s :=
  List.forall_mem_cons

theorem latin_toDigits {b : Nat} (hone : 1 < b) (hbase : b ≤ 16) (n : Nat) :
    Latin (Nat.toDigits b n) := by
  intro c hc
  have hof := Py.isDigitOf_of_mem_toDigits hone hbase hc
  have hval : (Py.digitVal c).isSome = true := by
    cases hv : Py.digitVal c with
    | none => simp [Py.isDigitOf, hv] at hof
    | some d => rfl
  have hascii : ∀ u : Char, u.toNat < 256 → c ≤ u → c.toNat < 256 := fun u hu hcu =>
    Nat.lt_of_le_of_lt (show c.toNat ≤ u.toNat from hcu) hu
  unfold Py.digitVal at hval
  split at hval
  · next h => exact hascii '9' (by decide) h.2
  · split at hval
    · next h => exact hascii 'f' (by decide) h.2
    · split at hval
      · next h => exact hascii 'F' (by decide) h.2
      · cases hval

theorem latin_hex32 (n : Int) : Latin (Py.hex32 n) := by
  have hdigits := latin_toDigits (b := 16) (by decide) (by decide) n.natAbs
  have hzeros : ∀ k, Latin (List.replicate k '0') := by
    intro k c hc
    rw [List.eq_of_mem_replicate hc]
    decide
  refine latin_append.mpr ⟨latin_append.mpr ⟨?_, hzeros _⟩, hdigits⟩
  split <;> decide

theorem latin_str (n : Int) : Latin (Py.str n) := by
  rw [Py.str_eq]
  split
  · exact latin_toDigits (by decide) (by decide) _
  · exact latin_cons.mpr ⟨by decide, latin_toDigits (by decide) (by decide) _⟩

/-- The line that a register is written with can always be sent. -/
theorem latin_setRegLine {name : Text} (hname : Latin name) (value : Int) :
    Latin (setRegLine name value) := by
  have hliteral : Latin "DBGSETREG|".toList := by decide
  have hvalue : Latin ('|' :: Py.hex32 value) := latin_cons.mpr ⟨by decide, latin_hex32 value⟩
  exact latin_append.mpr ⟨latin_append.mpr ⟨hliteral, hname⟩, hvalue⟩

theorem latin_regName (r : Fin 18) : Latin (regName r) := by
  have hstr := latin_str
  unfold regName
  split
  · exact latin_cons.mpr ⟨by decide, hstr _⟩
  · split
    · exact latin_cons.mpr ⟨by decide, hstr _⟩
    · split <;> decide

/-- The server behind a line that was sent. -/
def logged (g : Gdb) (line : Text) : Gdb := { g with sent := g.sent ++ [line ++ ['\n']] }

theorem encode_eq {line : Text} :
    encode line = if Latin line then .ok (line ++ ['\n']) else .error .unicodeEncodeError := by
  unfold encode
  by_cases hline : Latin line
  · rw [if_pos hline, if_pos (by simpa [Latin] using hline)]
  · rw [if_neg hline, if_neg (by simpa [Latin] using hline)]

/-- A line leaves the handler through the link, or as an exception. -/
theorem andThen_sendRaw {g : Gdb} {line : Text} (hline : Latin line) (next : Gdb → Result) :
    g.andThen (g.sendRaw line) next =
      if g.connected then next (g.logged line) else (g, .error .runtimeError) := by
  unfold sendRaw
  by_cases hconn : g.connected = true
  · rw [if_pos hconn, if_pos hconn, encode_eq, if_pos hline]
    rfl
  · rw [if_neg hconn, if_neg hconn]
    rfl

/-- A command goes the same way, when it can be formatted. -/
theorem andThen_send {g : Gdb} {cmd : Command} {line : Text} (hformat : formatCommand cmd = .ok line)
    (next : Gdb → Result) :
    g.andThen (g.send cmd) next =
      if g.connected then if Latin line then next (g.logged line)
        else (g, .error .unicodeEncodeError)
      else (g, .error .runtimeError) := by
  unfold send Protocol.send
  by_cases hconn : g.connected = true
  · rw [if_pos hconn, if_pos hconn, hformat]
    change g.andThen (encode line >>= _) next = _
    rw [encode_eq]
    by_cases hline : Latin line
    · rw [if_pos hline, if_pos hline]
      rfl
    · rw [if_neg hline, if_neg hline]
      rfl
  · rw [if_neg hconn, if_neg hconn]
    rfl

theorem formatCommand_inspect (address : Text) (size : Int) :
    formatCommand [("type", .str "INSPECT".toList), ("address", .str address),
      ("size", .int size)] = .ok ("INSPECT|".toList ++ address ++ '|' :: Py.str size) := by
  have hline : formatCommand [("type", .str "INSPECT".toList), ("address", .str address),
      ("size", .int size)] = .ok (commandLine "INSPECT" [.str address, .int size]) := rfl
  have hbar : "INSPECT|".toList = "INSPECT".toList ++ ['|'] := rfl
  rw [hline, hbar]
  simp [commandLine, Text.joinBar, Arg.format, List.intercalate]

theorem formatCommand_writemem (address hexData : Text) :
    formatCommand [("type", .str "WRITEMEM".toList), ("address", .str address),
      ("hexData", .str hexData)] = .ok ("WRITEMEM|".toList ++ address ++ '|' :: hexData) := by
  have hline : formatCommand [("type", .str "WRITEMEM".toList), ("address", .str address),
      ("hexData", .str hexData)] = .ok (commandLine "WRITEMEM" [.str address, .str hexData]) := rfl
  have hbar : "WRITEMEM|".toList = "WRITEMEM".toList ++ ['|'] := rfl
  rw [hline, hbar]
  simp [commandLine, Text.joinBar, Arg.format, List.intercalate]

/-- The handler does not raise, and the cache is in range behind it. -/
def Sound (r : Result) : Prop := (∃ outcome, r.2 = .ok outcome) ∧ r.1.dbg.InRange

theorem sound_ok {g : Gdb} (outcome : Outcome) : Sound (g, .ok outcome) ↔ g.dbg.InRange :=
  ⟨fun h => h.2, fun h => ⟨⟨outcome, rfl⟩, h⟩⟩

theorem not_sound_error (g : Gdb) (e : PyError) : ¬ Sound (g, .error e) := by
  rintro ⟨⟨_, h⟩, _⟩
  cases h

/-- Sending a line needs the link. -/
theorem sound_sendRaw {g : Gdb} {line : Text} (hline : Latin line) (next : Gdb → Result) :
    Sound (g.andThen (g.sendRaw line) next) ↔
      g.connected = true ∧ Sound (next (g.logged line)) := by
  rw [andThen_sendRaw hline]
  by_cases hconn : g.connected = true
  · rw [if_pos hconn, and_iff_right hconn]
  · rw [if_neg hconn]
    exact iff_of_false (not_sound_error g _) fun h => hconn h.1

/-- Sending a command needs the link and a line in Latin-1. -/
theorem sound_send {g : Gdb} {cmd : Command} {line : Text} (hformat : formatCommand cmd = .ok line)
    (next : Gdb → Result) :
    Sound (g.andThen (g.send cmd) next) ↔
      g.connected = true ∧ Latin line ∧ Sound (next (g.logged line)) := by
  rw [andThen_send hformat]
  by_cases hconn : g.connected = true
  · rw [if_pos hconn, and_iff_right hconn]
    by_cases hline : Latin line
    · rw [if_pos hline, and_iff_right hline]
    · rw [if_neg hline]
      exact iff_of_false (not_sound_error g _) fun h => hline h.1
  · rw [if_neg hconn]
    exact iff_of_false (not_sound_error g _) fun h => hconn h.1

/-- A line and then a suspension or a response needs the link. -/
theorem sound_sendRaw_ok {g : Gdb} (h : g.dbg.InRange) {line : Text} (hline : Latin line)
    (outcome : Outcome) :
    Sound (g.andThen (g.sendRaw line) fun g' => (g', .ok outcome)) ↔ g.connected = true := by
  rw [sound_sendRaw hline, sound_ok]
  exact and_iff_left h

/-- A list of eighteen values is indexed from -18 on. -/
theorem index_ok_iff (i : Int) : (∃ r, Py.index 18 i = .ok r) ↔ -18 ≤ i ∧ i < 18 := by
  unfold Py.index
  split
  · exact iff_of_true ⟨_, rfl⟩ (by omega)
  · split
    · exact iff_of_true ⟨_, rfl⟩ (by omega)
    · refine iff_of_false ?_ (by omega)
      rintro ⟨r, hr⟩
      cases hr

theorem index_error {i : Int} (hi : ¬ (-18 ≤ i ∧ i < 18)) : Py.index 18 i = .error .indexError := by
  unfold Py.index
  rw [dif_neg (by omega), dif_neg (by omega)]

/-- The first fields of a G packet are 32-bit values. -/
def fieldsInWord : Nat → Text → Bool
  | 0, _ => true
  | n + 1, hexData =>
    match Py.int 16 (hexData.take 8) with
    | .ok val => decide (InWord val) && fieldsInWord n (hexData.drop 8)
    | .error _ => false

/-- The numbers of an m packet. -/
def readArgs (data : Text) : Option (Int × Int) :=
  match data.splitOn ',' with
  | [a, l] =>
    match Py.int 16 a, Py.int 16 l with
    | .ok addr, .ok length => some (addr, length)
    | _, _ => none
  | _ => none

/-- The address and the data of an M packet. -/
def writeArgs (data : Text) : Option (Int × Text) :=
  match Text.after? ':' data with
  | none => none
  | some hexData =>
    match (Text.before ':' data).splitOn ',' with
    | [a, _] =>
      match Py.int 16 a with
      | .ok addr => some (addr, hexData)
      | .error _ => none
    | _ => none

/-- The address of a Z0 or z0 packet. -/
def breakpointArg (data : Text) : Option Int :=
  match data.splitOn ',' with
  | kind :: a :: _ =>
    if kind ≠ ['0'] then none
    else match Py.int 16 a with
      | .ok addr => some addr
      | .error _ => none
  | _ => none

/-- The register number and the value of a P packet. -/
def writeRegArgs (data : Text) : Option (Int × Int) :=
  match data.splitOn '=' with
  | [num, val] =>
    match Py.int 16 num, Py.int 16 val with
    | .ok regnum, .ok value => some (regnum, value)
    | _, _ => none
  | _ => none

theorem latin_inspect (addr length : Int) :
    Latin ("INSPECT|".toList ++ Py.hex32 addr ++ '|' :: Py.str (min length 4096)) := by
  refine latin_append.mpr ⟨latin_append.mpr ⟨by decide, latin_hex32 addr⟩, ?_⟩
  exact latin_cons.mpr ⟨by decide, latin_str _⟩

theorem readMemory_eq (g : Gdb) (data : Text) :
    g.readMemory data =
      match readArgs data with
      | some (addr, length) =>
        if g.connected ∧ ¬ Py.writable (min length 4096) then (g, .error .valueError)
        else g.andThen (g.send [("type", .str "INSPECT".toList), ("address", .str (Py.hex32 addr)),
          ("size", .int (min length 4096))]) (·.await (.memory (min length 4096)))
      | none => g.e01 := by
  unfold readMemory readArgs
  rcases data.splitOn ',' with _ | ⟨a, _ | ⟨l, _ | _⟩⟩ <;> try rfl
  simp only
  cases Py.int 16 a with
  | error e => rfl
  | ok addr => cases Py.int 16 l <;> rfl

theorem writeMemory_eq (g : Gdb) (data : Text) :
    g.writeMemory data =
      match writeArgs data with
      | some (addr, hexData) =>
        g.andThen (g.send [("type", .str "WRITEMEM".toList), ("address", .str (Py.hex32 addr)),
          ("hexData", .str hexData)]) (·.await (.ok "WRITEMEM".toList))
      | none => g.e01 := by
  unfold writeMemory writeArgs
  cases Text.after? ':' data with
  | none => rfl
  | some hexData =>
    simp only
    rcases (Text.before ':' data).splitOn ',' with _ | ⟨a, _ | ⟨l, _ | _⟩⟩ <;> try rfl
    simp only
    cases Py.int 16 a <;> rfl

theorem writeReg_eq (g : Gdb) (data : Text) :
    g.writeReg data =
      match writeRegArgs data with
      | some (regnum, value) =>
        if regnum < 8 ∧ ¬ Py.writable regnum then (g, .error .valueError)
        else match regTarget regnum with
          | none => g.e01
          | some (name, idx) =>
            g.andThen (g.sendRaw (setRegLine name value)) fun g' =>
              match Py.index 18 idx with
              | .ok r => (g'.setReg r value).answer "OK".toList
              | .error e => (g', .error e)
      | none => g.e01 := by
  unfold writeReg writeRegArgs
  rcases data.splitOn '=' with _ | ⟨a, _ | ⟨l, _ | _⟩⟩ <;> try rfl
  simp only
  cases Py.int 16 a with
  | error e => rfl
  | ok regnum => cases Py.int 16 l <;> rfl

/-- A breakpoint packet is answered at once, or its line is sent and it waits. -/
theorem breakpointPacket_cases (command : String) (w : Wait) (g : Gdb) (data : Text) :
    (breakpointArg data = none ∧ ∃ response, breakpointPacket command w g data = g.answer response) ∨
      ∃ addr, breakpointArg data = some addr ∧ breakpointPacket command w g data =
        g.andThen (g.sendRaw (command.toList ++ '|' :: Py.hex32 addr)) (·.await w) := by
  unfold breakpointArg breakpointPacket
  rcases data.splitOn ',' with _ | ⟨kind, _ | ⟨a, _⟩⟩
  · exact Or.inl ⟨rfl, _, rfl⟩
  · exact Or.inl ⟨rfl, _, rfl⟩
  · by_cases hkind : kind ≠ ['0']
    · simp only [if_pos hkind]
      exact Or.inl ⟨trivial, _, rfl⟩
    · simp only [if_neg hkind]
      cases Py.int 16 a with
      | error e => exact Or.inl ⟨rfl, _, rfl⟩
      | ok addr => exact Or.inr ⟨addr, rfl, rfl⟩

/-- A monitor command that is forwarded to the daemon. -/
def forwards (data : Text) : Bool :=
  "qRcmd,".toList.isPrefixOf data && (monitorText (data.drop 6)).any fun cmd =>
    Py.strip cmd = "status".toList || Py.strip cmd = "bt".toList

/-- The packets whose handlers neither raise nor store anything but 32-bit values: what needs
the link has it, register numbers do not lie before the list, register values fit into 32 bits,
the data of M can be sent, and the length of m can be written. -/
def safe (g : Gdb) : Text → Bool
  | [] | '?' :: _ => true
  | 'g' :: _ => g.dbg.stopped || g.connected
  | 'G' :: data => data.length < 18 * 4 * 2 || g.connected && fieldsInWord 18 data
  | 'm' :: data =>
    match readArgs data with
    | some (_, length) => g.connected && Py.writable (min length 4096)
    | none => true
  | 'M' :: data =>
    match writeArgs data with
    | some (_, hexData) => g.connected && decide (Latin hexData)
    | none => true
  | 's' :: _ | 'c' :: _ | 'k' :: _ | 'D' :: _ => g.connected
  | 'Z' :: data | 'z' :: data =>
    match breakpointArg data with
    | some _ => g.connected
    | none => true
  | 'p' :: data =>
    match Py.int 16 data with
    | .ok regnum => decide (-18 ≤ regnum)
    | .error _ => true
  | 'P' :: data =>
    match writeRegArgs data with
    | some (regnum, value) =>
      decide (18 ≤ regnum) || g.connected && decide (-18 ≤ regnum) && decide (InWord value)
    | none => true
  | data => !forwards data || g.connected

/-- Writing a register that is not written again leaves its value for good. -/
theorem writeRegs_frame {rs : List (Fin 18)} : ∀ {g : Gdb} {hexData : Text} {r : Fin 18}, r ∉ rs →
    (g.writeRegs rs hexData).1.dbg.regs r = g.dbg.regs r := by
  induction rs with
  | nil => intro g hexData r _; rfl
  | cons q rs ih =>
    intro g hexData r hr
    obtain ⟨hne, hrs⟩ := not_or.mp (mt List.mem_cons.mpr hr)
    rw [writeRegs]
    cases hval : Py.int 16 (hexData.take 8) with
    | error e => rfl
    | ok val =>
      simp only
      rw [andThen_sendRaw (latin_setRegLine (latin_regName q) val)]
      split
      · rw [ih hrs]
        exact Function.update_of_ne hne _ _
      · rfl

/-- With the link up, the registers are written soundly exactly when every field is a word. -/
theorem sound_writeRegs {rs : List (Fin 18)} (hnodup : rs.Nodup) : ∀ {g : Gdb} {hexData : Text},
    g.dbg.InRange → g.connected = true →
      (Sound (g.writeRegs rs hexData) ↔ fieldsInWord rs.length hexData = true) := by
  induction rs with
  | nil =>
    intro g hexData h _
    exact iff_of_true ((sound_ok _).mpr h) rfl
  | cons r rs ih =>
    intro g hexData h hconn
    obtain ⟨hr, hrest⟩ := List.nodup_cons.mp hnodup
    rw [writeRegs, List.length_cons, fieldsInWord]
    cases hval : Py.int 16 (hexData.take 8) with
    | error e => exact iff_of_false (not_sound_error g e) Bool.false_ne_true
    | ok val =>
      simp only [Bool.and_eq_true, decide_eq_true_eq]
      rw [andThen_sendRaw (latin_setRegLine (latin_regName r) val), if_pos hconn]
      constructor
      · intro hsound
        have hword : InWord val := by
          have hfinal := hsound.2 r
          rw [writeRegs_frame hr] at hfinal
          have hself : ((g.logged (setRegLine (regName r) val)).setReg r val).dbg.regs r = val :=
            Function.update_self _ _ _
          rwa [hself] at hfinal
        have hnext : ((g.logged (setRegLine (regName r) val)).setReg r val).dbg.InRange :=
          InRange.update (show (g.logged (setRegLine (regName r) val)).dbg.InRange from h) r hword
        exact ⟨hword, (ih hrest hnext hconn).mp hsound⟩
      · rintro ⟨hword, hfields⟩
        have hnext : ((g.logged (setRegLine (regName r) val)).setReg r val).dbg.InRange :=
          InRange.update (show (g.logged (setRegLine (regName r) val)).dbg.InRange from h) r hword
        exact (ih hrest hnext hconn).mpr hfields

/-- Numbers hold no newline. -/
theorem newline_notMem_hex32 (n : Int) : '\n' ∉ Py.hex32 n := by
  intro h
  rcases List.mem_append.mp h with h | h
  · rcases List.mem_append.mp h with h | h
    · split at h
      · exact absurd (List.mem_singleton.mp h) (by decide)
      · exact List.not_mem_nil h
    · exact absurd (List.eq_of_mem_replicate h) (by decide)
  · exact absurd (Py.isDigitOf_of_mem_toDigits (by decide) (by decide) h) (by decide)

theorem newline_notMem_str (n : Int) : '\n' ∉ Py.str n := by
  intro h
  rw [Py.str_eq] at h
  split at h
  · exact absurd (Py.isDigitOf_of_mem_toDigits (by decide) (by decide) h) (by decide)
  · rcases List.mem_cons.mp h with h | h
    · exact absurd h (by decide)
    · exact absurd (Py.isDigitOf_of_mem_toDigits (by decide) (by decide) h) (by decide)

theorem regTarget_none {regnum : Int} (hhigh : 18 ≤ regnum) : regTarget regnum = none := by
  unfold regTarget
  rw [if_neg (by omega), if_neg (by omega), if_neg (by omega), if_neg (by omega)]

/-- The target of a register number below 18: it lies in the list unless the number is too far
below zero. -/
theorem regTarget_some {regnum : Int} (hlow : regnum < 18) :
    ∃ name idx, regTarget regnum = some (name, idx) ∧ Latin name ∧ '\n' ∉ name ∧ idx < 18 ∧
      (-18 ≤ idx ↔ -18 ≤ regnum) := by
  have hstr : ∀ (c : Char) (n : Int), c.toNat < 256 → Latin (c :: Py.str n) := fun c n hc =>
    latin_cons.mpr ⟨hc, latin_str n⟩
  have hnewline : ∀ (c : Char) (n : Int), c ≠ '\n' → '\n' ∉ c :: Py.str n := fun c n hc h =>
    (List.mem_cons.mp h).elim (fun hn => hc hn.symm) (newline_notMem_str n)
  unfold regTarget
  by_cases hdata : regnum < 8
  · rw [if_pos hdata]
    exact ⟨_, _, rfl, hstr _ _ (by decide), hnewline _ _ (by decide), by omega, Iff.rfl⟩
  · rw [if_neg hdata]
    by_cases haddr : regnum < 16
    · rw [if_pos haddr]
      exact ⟨_, _, rfl, hstr _ _ (by decide), hnewline _ _ (by decide), by omega, Iff.rfl⟩
    · rw [if_neg haddr]
      by_cases hsr : regnum = 16
      · rw [if_pos hsr]
        exact ⟨_, _, rfl, by decide, by decide, by decide, by omega⟩
      · rw [if_neg hsr, if_pos (by omega)]
        exact ⟨_, _, rfl, by decide, by decide, by decide, by omega⟩

/-- A number that indexes the registers can be written. -/
theorem writable_of_small {n : Int} (hlow : -18 ≤ n) (hhigh : n < 8) : Py.writable n = true := by
  have hlen : (Nat.toDigits 10 n.natAbs).length ≤ 2 := by
    rw [Nat.length_toDigits_le_iff (by decide) (by decide)]
    omega
  exact decide_eq_true (hlen.trans (by decide))

/-- A monitor packet is answered by its command. -/
theorem query_monitor {g : Gdb} {data : Text} (h : "qRcmd,".toList.isPrefixOf data = true) :
    g.query data =
      match monitorText (data.drop 6) with
      | some cmd => g.monitorCommand cmd
      | none => g.e01 := by
  obtain ⟨rest, rfl⟩ := List.isPrefixOf_iff_prefix.mp h
  rfl

/-- Every other query is answered at once. -/
theorem query_answer (g : Gdb) {data : Text} (h : ¬ "qRcmd,".toList.isPrefixOf data = true) :
    ∃ response, g.query data = g.answer response := by
  unfold query
  rw [if_neg h]
  repeat' split
  all_goals exact ⟨_, rfl⟩

section Packets

variable {g : Gdb} (h : g.dbg.InRange) (data : Text)

include h

theorem sound_readAllRegs :
    Sound g.readAllRegs ↔ (g.dbg.stopped || g.connected) = true := by
  unfold readAllRegs
  rw [Bool.or_eq_true]
  by_cases hstopped : g.dbg.stopped = true
  · rw [if_pos hstopped]
    exact iff_of_true ((sound_ok _).mpr h) (Or.inl hstopped)
  · rw [if_neg hstopped, or_iff_right hstopped]
    exact sound_sendRaw_ok h (by decide) _

theorem sound_writeAllRegs :
    Sound (g.writeAllRegs data) ↔
      (data.length < 18 * 4 * 2 || g.connected && fieldsInWord 18 data) = true := by
  unfold writeAllRegs
  rw [Bool.or_eq_true, Bool.and_eq_true, decide_eq_true_eq]
  by_cases hlen : data.length < 18 * 4 * 2
  · rw [if_pos hlen]
    exact iff_of_true ((sound_ok _).mpr h) (Or.inl hlen)
  · rw [if_neg hlen, or_iff_right hlen]
    by_cases hconn : g.connected = true
    · rw [and_iff_right hconn]
      exact sound_writeRegs (by decide) h hconn
    · refine iff_of_false ?_ fun hand => hconn hand.1
      rw [gdbOrder, writeRegs]
      cases Py.int 16 (data.take 8) with
      | error e => exact not_sound_error g e
      | ok val =>
        intro hsound
        exact hconn ((sound_sendRaw (latin_setRegLine (latin_regName 0) val) _).mp hsound).1

theorem sound_readMemory :
    Sound (g.readMemory data) ↔
      (match readArgs data with
        | some (_, length) => g.connected && Py.writable (min length 4096)
        | none => true) = true := by
  rw [readMemory_eq]
  cases readArgs data with
  | none => exact iff_of_true ((sound_ok _).mpr h) rfl
  | some args =>
    obtain ⟨addr, length⟩ := args
    simp only [Bool.and_eq_true]
    have hline := latin_inspect addr length
    by_cases hwritable : Py.writable (min length 4096) = true
    · rw [if_neg (fun hand => hand.2 hwritable), and_iff_left hwritable,
        sound_send (formatCommand_inspect _ _), and_iff_right hline]
      exact and_iff_left ((sound_ok _).mpr h)
    · refine iff_of_false ?_ fun hand => hwritable hand.2
      by_cases hconn : g.connected = true
      · rw [if_pos ⟨hconn, hwritable⟩]
        exact not_sound_error g _
      · rw [if_neg (fun hand => hconn hand.1), sound_send (formatCommand_inspect _ _)]
        exact fun hsound => hconn hsound.1

theorem sound_writeMemory :
    Sound (g.writeMemory data) ↔
      (match writeArgs data with
        | some (_, hexData) => g.connected && decide (Latin hexData)
        | none => true) = true := by
  rw [writeMemory_eq]
  cases writeArgs data with
  | none => exact iff_of_true ((sound_ok _).mpr h) rfl
  | some args =>
    obtain ⟨addr, hexData⟩ := args
    simp only [Bool.and_eq_true, decide_eq_true_eq]
    rw [sound_send (formatCommand_writemem _ _)]
    have hline : Latin ("WRITEMEM|".toList ++ Py.hex32 addr ++ '|' :: hexData) ↔
        Latin hexData := by
      rw [latin_append, latin_append, latin_cons]
      exact ⟨fun hand => hand.2.2,
        fun hhex => ⟨⟨by decide, latin_hex32 addr⟩, by decide, hhex⟩⟩
    rw [hline]
    exact and_congr_right fun _ => and_iff_left ((sound_ok _).mpr h)

/-- The optional address needs nothing that the packet does not need anyway. -/
theorem sound_sendPc {next : Gdb → Result}
    (hnext : ∀ g' : Gdb, g'.dbg.InRange → (Sound (next g') ↔ g'.connected = true)) :
    Sound (g.sendPc data next) ↔ g.connected = true := by
  unfold sendPc
  split
  · exact hnext g h
  · cases Py.int 16 data with
    | error e => exact hnext g h
    | ok addr =>
      simp only
      rw [sound_sendRaw (latin_setRegLine (by decide) addr)]
      exact and_iff_left_of_imp fun hconn => (hnext (g.logged _) h).mpr hconn

theorem sound_breakpointPacket {command : String} (hcommand : Latin command.toList) (w : Wait) :
    Sound (breakpointPacket command w g data) ↔
      (match breakpointArg data with
        | some _ => g.connected
        | none => true) = true := by
  rcases breakpointPacket_cases command w g data with ⟨hnone, response, heq⟩ | ⟨addr, hsome, heq⟩
  · rw [hnone, heq]
    exact iff_of_true ((sound_ok _).mpr h) rfl
  · rw [hsome, heq]
    have hline : Latin (command.toList ++ '|' :: Py.hex32 addr) :=
      latin_append.mpr ⟨hcommand, latin_cons.mpr ⟨by decide, latin_hex32 addr⟩⟩
    exact sound_sendRaw_ok h hline _

theorem sound_readReg :
    Sound (g.readReg data) ↔
      (match Py.int 16 data with
        | .ok regnum => decide (-18 ≤ regnum)
        | .error _ => true) = true := by
  have hok : ∀ response, Sound (g.answer response) := fun _ => (sound_ok _).mpr h
  unfold readReg
  cases Py.int 16 data with
  | error e => exact iff_of_true (hok _) rfl
  | ok regnum =>
    simp only [decide_eq_true_eq]
    by_cases hlow : -18 ≤ regnum
    · refine iff_of_true ?_ hlow
      by_cases hnum : regnum < 16
      · obtain ⟨r, hr⟩ := (index_ok_iff regnum).mpr ⟨hlow, by omega⟩
        rw [if_pos hnum, hr]
        exact hok _
      · rw [if_neg hnum]
        repeat' split
        all_goals exact hok _
    · refine iff_of_false ?_ hlow
      rw [if_pos (by omega), index_error (by omega)]
      exact not_sound_error g _

/-- A stored register is sound exactly when its value is a word. -/
theorem sound_setReg (r : Fin 18) (value : Int) :
    Sound ((g.setReg r value).answer "OK".toList) ↔ InWord value := by
  refine (sound_ok _).trans ⟨fun hrange => ?_, fun hword => InRange.update h r hword⟩
  have hself : (g.setReg r value).dbg.regs r = value := Function.update_self _ _ _
  rw [← hself]
  exact hrange r

theorem sound_writeReg :
    Sound (g.writeReg data) ↔
      (match writeRegArgs data with
        | some (regnum, value) => decide (18 ≤ regnum) ||
            g.connected && decide (-18 ≤ regnum) && decide (InWord value)
        | none => true) = true := by
  rw [writeReg_eq]
  cases writeRegArgs data with
  | none => exact iff_of_true ((sound_ok _).mpr h) rfl
  | some args =>
    obtain ⟨regnum, value⟩ := args
    simp only [Bool.or_eq_true, Bool.and_eq_true, decide_eq_true_eq]
    by_cases hhigh : 18 ≤ regnum
    · rw [if_neg (by omega), regTarget_none hhigh]
      exact iff_of_true ((sound_ok _).mpr h) (Or.inl hhigh)
    · rw [or_iff_right hhigh]
      obtain ⟨name, idx, htarget, hname, _, hidx, hlow⟩ := regTarget_some (not_le.mp hhigh)
      by_cases hwritable : regnum < 8 ∧ ¬ Py.writable regnum
      · rw [if_pos hwritable]
        refine iff_of_false (not_sound_error g _) fun hand => hwritable.2 ?_
        exact writable_of_small hand.1.2 hwritable.1
      · rw [if_neg hwritable, htarget]
        simp only
        rw [sound_sendRaw (latin_setRegLine hname value), and_assoc]
        refine and_congr_right fun hconn => ?_
        by_cases hneg : -18 ≤ regnum
        · obtain ⟨r, hr⟩ := (index_ok_iff idx).mpr ⟨hlow.mpr hneg, hidx⟩
          rw [and_iff_right hneg, hr]
          exact sound_setReg (g := g.logged _) h r value
        · rw [index_error fun hand => hneg (hlow.mp hand.1)]
          exact iff_of_false (not_sound_error _ _) fun hand => hneg hand.1

theorem sound_query :
    Sound (g.query data) ↔ (!forwards data || g.connected) = true := by
  have hok : ∀ response, Sound (g.answer response) := fun _ => (sound_ok _).mpr h
  by_cases hmonitor : "qRcmd,".toList.isPrefixOf data = true
  · rw [query_monitor hmonitor]
    unfold forwards
    rw [hmonitor, Bool.true_and]
    cases monitorText (data.drop 6) with
    | none => exact iff_of_true (hok _) rfl
    | some cmd =>
      simp only [Option.any_some]
      unfold monitorCommand
      by_cases hstatus : Py.strip cmd = "status".toList
      · rw [if_pos hstatus, decide_eq_true hstatus]
        exact sound_sendRaw_ok h (by decide) _
      · rw [if_neg hstatus, decide_eq_false hstatus]
        by_cases hbt : Py.strip cmd = "bt".toList
        · rw [if_pos hbt, decide_eq_true hbt]
          exact sound_sendRaw_ok h (by decide) _
        · rw [if_neg hbt, decide_eq_false hbt]
          exact iff_of_true (hok _) rfl
  · have hforwards : forwards data = false := by
      unfold forwards
      rw [Bool.not_eq_true _ |>.mp hmonitor, Bool.false_and]
    rw [hforwards]
    obtain ⟨response, hquery⟩ := query_answer g hmonitor
    rw [hquery]
    exact iff_of_true (hok _) rfl

/-- A packet is handled soundly exactly when it is safe. -/
theorem sound_processPacket_iff : Sound (g.processPacket data) ↔ g.safe data = true := by
  have hok : ∀ response, Sound (g.answer response) ↔ true = true := fun _ =>
    iff_of_true ((sound_ok _).mpr h) rfl
  unfold processPacket
  split
  · exact hok _
  · exact hok _
  · exact sound_readAllRegs h
  · exact sound_writeAllRegs h _
  · exact sound_readMemory h _
  · exact sound_writeMemory h _
  · exact sound_sendPc h _ fun g' hg' => sound_sendRaw_ok hg' (by decide) _
  · exact sound_sendPc h _ fun g' hg' => sound_sendRaw_ok hg' (by decide) _
  · exact sound_breakpointPacket h _ (by decide) _
  · exact sound_breakpointPacket h _ (by decide) _
  · exact sound_sendRaw_ok h (by decide) _
  · exact sound_sendRaw_ok h (by decide) _
  · exact sound_readReg h _
  · exact sound_writeReg h _
  · rw [sound_query h]
    unfold safe
    split
    all_goals first | rfl | simp_all only [List.cons.injEq, true_and, imp_false, forall_eq']

end Packets

section Words

/-- A word is written as eight digits, and read back from them. -/
theorem length_hex32 {n : Int} (hn : InWord n) : (Py.hex32 n).length = 8 := by
  obtain ⟨hlow, hhigh⟩ := hn
  have hlen : (Nat.toDigits 16 n.natAbs).length ≤ 8 := by
    rw [Nat.length_toDigits_le_iff (by decide) (by decide)]
    omega
  have hsign : ¬ n < 0 := not_lt.mpr hlow
  simp only [Py.hex32, if_neg hsign, List.nil_append, List.length_nil, List.length_append,
    List.length_replicate]
  omega

theorem hex32_eq {n : Int} (hn : InWord n) :
    Py.hex32 n = List.replicate (8 - (Nat.toDigits 16 n.toNat).length) '0' ++
      Nat.toDigits 16 n.toNat := by
  obtain ⟨m, rfl⟩ := Int.eq_ofNat_of_zero_le hn.1
  rfl

theorem int_hex32 {n : Int} (hn : InWord n) : Py.int 16 (Py.hex32 n) = .ok n := by
  rw [hex32_eq hn, Py.int_toDigits (by decide) (by decide) _ fun h => absurd h (by decide),
    Int.toNat_of_nonneg hn.1]

theorem isDigitOf_hex32 {n : Int} (hn : InWord n) :
    (Py.hex32 n).all (Py.isDigitOf 16) = true := by
  rw [hex32_eq hn, List.all_eq_true]
  intro c hc
  rcases List.mem_append.mp hc with hc | hc
  · rw [List.eq_of_mem_replicate hc]
    decide
  · exact Py.isDigitOf_of_mem_toDigits (by decide) (by decide) hc

/-- The text holds the registers in GDB's order, each as eight hexadecimal digits. -/
structure Encodes (text : Text) (regs : Fin 18 → Int) : Prop where
  length : text.length = 144
  digits : text.all (Py.isDigitOf 16) = true
  field : ∀ i r, gdbOrder[i]? = some r → Py.int 16 ((text.drop (8 * i)).take 8) = .ok (regs r)

variable {regs : Fin 18 → Int} (hregs : ∀ r, InWord (regs r))

include hregs

theorem length_words (rs : List (Fin 18)) :
    (rs.flatMap fun r => Py.hex32 (regs r)).length = 8 * rs.length := by
  induction rs with
  | nil => rfl
  | cons r rs ih =>
    rw [List.flatMap_cons, List.length_append, length_hex32 (hregs r), ih, List.length_cons]
    omega

/-- The fields of a sequence of words are the words. -/
theorem word_field (rs : List (Fin 18)) : ∀ {i : Nat} {r : Fin 18}, rs[i]? = some r →
    ((rs.flatMap fun q => Py.hex32 (regs q)).drop (8 * i)).take 8 = Py.hex32 (regs r) := by
  induction rs with
  | nil => intro i r hr; cases hr
  | cons q rs ih =>
    intro i r hr
    rw [List.flatMap_cons]
    cases i with
    | zero =>
      cases hr
      rw [Nat.mul_zero, List.drop_zero, List.take_left' (length_hex32 (hregs q))]
    | succ i =>
      have hdrop : 8 * (i + 1) = (Py.hex32 (regs q)).length + 8 * i := by
        rw [length_hex32 (hregs q)]
        omega
      rw [hdrop, List.drop_length_add_append, ih (by simpa using hr)]

/-- The joined words of the cache hold its registers. -/
theorem encodes_words : Encodes (gdbOrder.flatMap fun r => Py.hex32 (regs r)) regs where
  length := length_words hregs gdbOrder
  digits := by
    rw [List.all_eq_true]
    intro c hc
    obtain ⟨r, _, hcr⟩ := List.mem_flatMap.mp hc
    exact List.all_eq_true.mp (isDigitOf_hex32 (hregs r)) c hcr
  field := fun i r hr => by rw [word_field hregs gdbOrder hr, int_hex32 (hregs r)]

omit hregs in
/-- Writing the cached words back leaves the cache as it is. -/
theorem writeRegs_words (rs : List (Fin 18)) : ∀ {g : Gdb}, g.dbg.InRange →
    g.connected = true →
      ∃ sent, g.writeRegs rs (rs.flatMap fun r => Py.hex32 (g.dbg.regs r)) =
        { g with sent := sent }.answer "OK".toList := by
  induction rs with
  | nil => intro g _ _; exact ⟨g.sent, rfl⟩
  | cons r rs ih =>
    intro g h hconn
    have hlen := length_hex32 (h r)
    have hsame : (g.logged (setRegLine (regName r) (g.dbg.regs r))).setReg r (g.dbg.regs r) =
        g.logged (setRegLine (regName r) (g.dbg.regs r)) := by
      unfold setReg logged
      simp only [Function.update_eq_self]
    rw [List.flatMap_cons, writeRegs, List.take_left' hlen, List.drop_left' hlen, int_hex32 (h r)]
    simp only
    rw [andThen_sendRaw (latin_setRegLine (latin_regName r) _), if_pos hconn, hsame]
    exact ih (g := g.logged _) h hconn

end Words

/-- What the server guarantees of its register cache: no packet raised, every register is a word,
a g packet is answered with the words, and writing them back with G changes nothing. -/
structure Encodable (g : Gdb) : Prop where
  alive : ∀ e, g.fate ≠ .raised e
  inRange : g.dbg.InRange
  encodes : Encodes (regsText g.dbg) g.dbg.regs
  answers : g.dbg.stopped = true → ∀ rest, g.processPacket ('g' :: rest) = g.answer (regsText g.dbg)
  answersLater : ∀ queue, Wait.regs.finish g.dbg queue = regsText g.dbg
  restores : g.connected = true → ∃ sent,
    g.processPacket ('G' :: regsText g.dbg) = { g with sent := sent }.answer "OK".toList

theorem Encodable.of_inRange {g : Gdb} (halive : ∀ e, g.fate ≠ .raised e) (h : g.dbg.InRange) :
    Encodable g where
  alive := halive
  inRange := h
  encodes := encodes_words h
  answers := fun hstopped rest => if_pos hstopped
  answersLater := fun queue => rfl
  restores := fun hconn => by
    have hlen : ¬ (regsText g.dbg).length < 18 * 4 * 2 := by
      rw [regsText, length_words h]
      decide
    change ∃ sent, g.writeAllRegs (regsText g.dbg) = _
    rw [writeAllRegs, if_neg hlen]
    exact writeRegs_words gdbOrder h hconn

/-- The next token is no packet, or a safe one. -/
def safeNext (g : Gdb) : Option (Token × Text) → Bool
  | some (.packet data, _) => g.safe data
  | _ => true

/-- The condition on a step: a packet is safe, and a stop carries 32-bit values. -/
def Permitted (g : Gdb) : GdbLabel → Prop
  | .handle => g.safeNext (nextToken g.buf) = true
  | .arrive (.stop msg) => StopInRange msg
  | _ => True

instance (g : Gdb) : (label : GdbLabel) → Decidable (Permitted g label)
  | .handle => inferInstanceAs (Decidable (_ = true))
  | .arrive (.stop msg) => inferInstanceAs (Decidable (StopInRange msg))
  | .arrive (.state _) | .arrive .running | .arrive .reset | .arrive (.event _) | .read _
  | .resume _ | .forward | .link _ => isTrue trivial

theorem respond_dbg (g : Gdb) (response : Option Text) : (g.respond response).dbg = g.dbg := by
  cases response with
  | none => rfl
  | some response => simp only [respond]; split <;> rfl

/-- Writing a response may end the loop, but not with an exception of `_process_packet`. -/
theorem respond_alive {g : Gdb} (halive : ∀ e, g.fate ≠ .raised e) (response : Option Text) :
    ∀ e, (g.respond response).fate ≠ .raised e := by
  cases response with
  | none => exact halive
  | some response =>
    simp only [respond]
    split
    · exact halive
    · intro e h
      cases h

/-- A sound result leaves the loop alive and the cache in range. -/
theorem settle_sound {r : Result} (hfate : ∀ e, r.1.fate ≠ .raised e) (h : Sound r) :
    (∀ e, (settle r).fate ≠ .raised e) ∧ (settle r).dbg.InRange := by
  obtain ⟨g, x⟩ := r
  obtain ⟨⟨outcome, hok⟩, hrange⟩ := h
  cases hok
  cases outcome with
  | reply response =>
    refine ⟨respond_alive hfate response, ?_⟩
    change (g.respond response).dbg.InRange
    rw [respond_dbg]
    exact hrange
  | wait w => exact ⟨hfate, hrange⟩

/-- A packet handler changes nothing but registers and the lines sent, each of which is `P`. -/
def Frame (P : Text → Prop) (g g' : Gdb) : Prop :=
  ∃ regs, ∃ lines : List Text, (∀ line ∈ lines, P line) ∧ g' =
    { g with
      dbg := { g.dbg with regs := regs }
      sent := g.sent ++ lines.map (· ++ ['\n']) }

section Frames

variable {P : Text → Prop}

theorem Frame.refl (g : Gdb) : Frame P g g :=
  ⟨g.dbg.regs, [], fun _ h => (List.not_mem_nil h).elim, by simp⟩

theorem Frame.trans {g g' g'' : Gdb} (h : Frame P g g') (h' : Frame P g' g'') : Frame P g g'' := by
  obtain ⟨_, lines, hlines, rfl⟩ := h
  obtain ⟨regs, lines', hlines', rfl⟩ := h'
  refine ⟨regs, lines ++ lines', fun line hline => ?_, by simp [List.append_assoc]⟩
  rcases List.mem_append.mp hline with hline | hline
  · exact hlines line hline
  · exact hlines' line hline

theorem Frame.setReg {g g' : Gdb} (h : Frame P g g') (r : Fin 18) (value : Int) :
    Frame P g (g'.setReg r value) :=
  h.trans ⟨Function.update g'.dbg.regs r value, [], fun _ h => (List.not_mem_nil h).elim,
    by simp [Gdb.setReg]⟩

theorem Frame.logged (g : Gdb) {line : Text} (hline : P line) : Frame P g (g.logged line) :=
  ⟨g.dbg.regs, [line], by simpa using hline, rfl⟩

theorem frame_andThen_send {g : Gdb} {cmd : Command} {line : Text} {next : Gdb → Result}
    (hformat : formatCommand cmd = .ok line) (hline : P line)
    (hnext : ∀ g', Frame P g g' → Frame P g (next g').1) :
    Frame P g (g.andThen (g.send cmd) next).1 := by
  rw [andThen_send hformat]
  split
  · split
    · exact hnext _ (Frame.logged g hline)
    · exact Frame.refl g
  · exact Frame.refl g

theorem frame_andThen_sendRaw {g : Gdb} {line : Text} {next : Gdb → Result} (hlatin : Latin line)
    (hline : P line) (hnext : ∀ g', Frame P g g' → Frame P g (next g').1) :
    Frame P g (g.andThen (g.sendRaw line) next).1 := by
  rw [andThen_sendRaw hlatin]
  split
  · exact hnext _ (Frame.logged g hline)
  · exact Frame.refl g

theorem frame_sendRaw_ok (g : Gdb) {line : Text} (hlatin : Latin line) (hline : P line)
    (outcome : Outcome) : Frame P g (g.andThen (g.sendRaw line) fun g' => (g', .ok outcome)).1 :=
  frame_andThen_sendRaw hlatin hline fun _ hg' => hg'

/-- A command without fields, or with fields that hold no newline. -/
def Named (names : List String) (line : Text) : Prop :=
  ∃ name ∈ names, line = name.toList ∨
    ∃ fields, '\n' ∉ fields ∧ line = name.toList ++ '|' :: fields

/-- The lines that a packet may put on the link. -/
def SentFor : Text → Text → Prop
  | 'M' :: data, line => ∃ addr hexData, writeArgs data = some (addr, hexData) ∧
      line = "WRITEMEM|".toList ++ Py.hex32 addr ++ '|' :: hexData
  | 's' :: _, line => Named ["DBGSETREG", "DBGSTEP"] line
  | 'c' :: _, line => Named ["DBGSETREG", "DBGCONT"] line
  | _, line => Named ["DBGREGS", "DBGSETREG", "INSPECT", "BPSET", "BPCLEAR", "DBGDETACH",
      "DBGSTATUS", "DBGBT"] line

theorem named_of_mem {names : List String} {name : String} (h : name ∈ names) :
    Named names name.toList := ⟨name, h, Or.inl rfl⟩

theorem newline_notMem_regName (r : Fin 18) : '\n' ∉ regName r := by
  unfold regName
  split
  · exact fun h => (List.mem_cons.mp h).elim (by decide) (newline_notMem_str _)
  · split
    · exact fun h => (List.mem_cons.mp h).elim (by decide) (newline_notMem_str _)
    · split <;> decide

theorem named_setRegLine {names : List String} (h : "DBGSETREG" ∈ names) {name : Text}
    (hname : '\n' ∉ name) (value : Int) : Named names (setRegLine name value) := by
  refine ⟨"DBGSETREG", h, Or.inr ⟨name ++ '|' :: Py.hex32 value, ?_, ?_⟩⟩
  · simp only [List.mem_append, List.mem_cons, not_or]
    exact ⟨hname, by decide, newline_notMem_hex32 value⟩
  · have hbar : "DBGSETREG|".toList = "DBGSETREG".toList ++ ['|'] := rfl
    change "DBGSETREG|".toList ++ name ++ '|' :: Py.hex32 value = _
    simp only [hbar, List.append_assoc, List.cons_append, List.nil_append]

theorem frame_writeRegs (hsend : ∀ r value, P (setRegLine (regName r) value))
    (rs : List (Fin 18)) : ∀ (g : Gdb) (hexData : Text),
      Frame P g (g.writeRegs rs hexData).1 := by
  induction rs with
  | nil => intro g _; exact Frame.refl g
  | cons r rs ih =>
    intro g hexData
    rw [writeRegs]
    cases Py.int 16 (hexData.take 8) with
    | error e => exact Frame.refl g
    | ok val =>
      exact frame_andThen_sendRaw (latin_setRegLine (latin_regName r) val) (hsend r val)
        fun g' hg' => (hg'.setReg r val).trans (ih _ _)

theorem frame_writeReg (hsend : ∀ name value, '\n' ∉ name → P (setRegLine name value))
    (g : Gdb) (data : Text) : Frame P g (g.writeReg data).1 := by
  rw [writeReg_eq]
  cases writeRegArgs data with
  | none => exact Frame.refl g
  | some args =>
    obtain ⟨regnum, value⟩ := args
    simp only
    by_cases hwritable : regnum < 8 ∧ ¬ Py.writable regnum
    · rw [if_pos hwritable]
      exact Frame.refl g
    · rw [if_neg hwritable]
      by_cases hhigh : 18 ≤ regnum
      · rw [regTarget_none hhigh]
        exact Frame.refl g
      · obtain ⟨name, idx, htarget, hname, hnewline, _, _⟩ := regTarget_some (not_le.mp hhigh)
        rw [htarget]
        simp only
        refine frame_andThen_sendRaw (latin_setRegLine hname value) (hsend name value hnewline) ?_
        intro g' hg'
        split
        · exact hg'.setReg _ _
        · exact hg'

theorem frame_sendPc (hsend : ∀ name value, '\n' ∉ name → P (setRegLine name value)) {g : Gdb}
    {next : Gdb → Result} (data : Text) (hnext : ∀ g', Frame P g' (next g').1) :
    Frame P g (g.sendPc data next).1 := by
  unfold sendPc
  split
  · exact hnext g
  · split
    · exact frame_andThen_sendRaw (latin_setRegLine (by decide) _)
        (hsend _ _ (by decide)) fun g' hg' => hg'.trans (hnext g')
    · exact hnext g

theorem frame_breakpointPacket {command : String} (hcommand : Latin command.toList)
    (hsend : ∀ addr, P (command.toList ++ '|' :: Py.hex32 addr)) (w : Wait) (g : Gdb)
    (data : Text) : Frame P g (breakpointPacket command w g data).1 := by
  rcases breakpointPacket_cases command w g data with ⟨_, _, heq⟩ | ⟨addr, _, heq⟩
  · rw [heq]
    exact Frame.refl g
  · rw [heq]
    exact frame_sendRaw_ok g
      (latin_append.mpr ⟨hcommand, latin_cons.mpr ⟨by decide, latin_hex32 addr⟩⟩) (hsend addr) _

theorem frame_query (hstatus : P "DBGSTATUS".toList) (hbt : P "DBGBT".toList) (g : Gdb)
    (data : Text) : Frame P g (g.query data).1 := by
  by_cases hmonitor : "qRcmd,".toList.isPrefixOf data = true
  · rw [query_monitor hmonitor]
    split
    · unfold monitorCommand
      split
      · exact frame_sendRaw_ok g (by decide) hstatus _
      · split
        · exact frame_sendRaw_ok g (by decide) hbt _
        · exact Frame.refl g
    · exact Frame.refl g
  · obtain ⟨_, hquery⟩ := query_answer g hmonitor
    rw [hquery]
    exact Frame.refl g

end Frames

/-- What a packet changes before the first suspension. -/
theorem frame_processPacket (g : Gdb) (data : Text) :
    Frame (SentFor data) g (g.processPacket data).1 := by
  have hset : ∀ {names : List String}, "DBGSETREG" ∈ names → ∀ name value, '\n' ∉ name →
      Named names (setRegLine name value) := fun h _ value hname => named_setRegLine h hname value
  have hfields : ∀ {names : List String} {command : String}, command ∈ names → ∀ addr,
      Named names (command.toList ++ '|' :: Py.hex32 addr) := fun h addr =>
    ⟨_, h, Or.inr ⟨_, newline_notMem_hex32 addr, rfl⟩⟩
  unfold processPacket
  split
  · exact Frame.refl g
  · exact Frame.refl g
  · unfold readAllRegs
    split
    · exact Frame.refl g
    · exact frame_sendRaw_ok g (by decide) (named_of_mem (by decide)) _
  · unfold writeAllRegs
    split
    · exact Frame.refl g
    · exact frame_writeRegs (fun r value => hset (by decide) _ value (newline_notMem_regName r)) _ g _
  · next data =>
    rw [readMemory_eq]
    split
    · next addr length _ =>
      split
      · exact Frame.refl g
      · refine frame_andThen_send (formatCommand_inspect _ _) ?_ fun _ hg' => hg'
        refine ⟨"INSPECT", by decide, Or.inr ⟨Py.hex32 addr ++ '|' :: Py.str (min length 4096), ?_, ?_⟩⟩
        · simp only [List.mem_append, List.mem_cons, not_or]
          exact ⟨newline_notMem_hex32 addr, by decide, newline_notMem_str _⟩
        · have hbar : "INSPECT|".toList = "INSPECT".toList ++ ['|'] := rfl
          simp only [hbar, List.append_assoc, List.cons_append, List.nil_append]
    · exact Frame.refl g
  · next data =>
    rw [writeMemory_eq]
    split
    · next addr hexData hargs =>
      exact frame_andThen_send (formatCommand_writemem _ _) ⟨addr, hexData, hargs, rfl⟩
        fun _ hg' => hg'
    · exact Frame.refl g
  · exact frame_sendPc (hset (by decide)) _ fun g' =>
      frame_sendRaw_ok g' (by decide) (named_of_mem (by decide)) _
  · exact frame_sendPc (hset (by decide)) _ fun g' =>
      frame_sendRaw_ok g' (by decide) (named_of_mem (by decide)) _
  · exact frame_breakpointPacket (by decide) (hfields (by decide)) _ g _
  · exact frame_breakpointPacket (by decide) (hfields (by decide)) _ g _
  · exact frame_sendRaw_ok g (by decide) (named_of_mem (by decide)) _
  · exact frame_sendRaw_ok g (by decide) (named_of_mem (by decide)) _
  · unfold readReg
    repeat' split
    all_goals exact Frame.refl g
  · exact frame_writeReg (hset (by decide)) g _
  · have hsent : ∀ line, SentFor data line = Named ["DBGREGS", "DBGSETREG", "INSPECT", "BPSET",
        "BPCLEAR", "DBGDETACH", "DBGSTATUS", "DBGBT"] line := by
      intro line
      unfold SentFor
      split
      all_goals first | rfl | simp_all only [List.cons.injEq, true_and, imp_false, forall_eq']
    refine frame_query ?_ ?_ g data
    · rw [hsent]
      exact named_of_mem (by decide)
    · rw [hsent]
      exact named_of_mem (by decide)

/-- Taking a safe packet keeps the loop alive and the cache in range. -/
theorem take_sound {g : Gdb} (halive : ∀ e, g.fate ≠ .raised e) (h : g.dbg.InRange) {token : Token}
    (hsafe : ∀ data, token = .packet data → g.safe data = true) :
    (∀ e, (g.take token).fate ≠ .raised e) ∧ (g.take token).dbg.InRange := by
  cases token with
  | ack => exact ⟨halive, h⟩
  | nak => exact ⟨halive, h⟩
  | noise => exact ⟨halive, h⟩
  | interrupt =>
    simp only [take]
    by_cases hstopped : g.dbg.stopped = true
    · rw [if_pos hstopped]
      refine ⟨respond_alive halive _, ?_⟩
      rw [respond_dbg]
      exact h
    · rw [if_neg hstopped]
      exact ⟨halive, h⟩
  | packet data =>
    apply settle_sound
    · obtain ⟨regs, lines, _, hframe⟩ := frame_processPacket { g with out := g.out ++ [['+']] } data
      rw [hframe]
      exact halive
    · exact (sound_processPacket_iff (g := { g with out := g.out ++ [['+']] }) h data).mpr
        (hsafe data rfl)

/-- A permitted step keeps the loop alive and the cache in range. -/
theorem step_sound {g g' : Gdb} {label : GdbLabel} (halive : ∀ e, g.fate ≠ .raised e)
    (h : g.dbg.InRange) (hpermitted : Permitted g label) (hstep : g.step label = some g') :
    (∀ e, g'.fate ≠ .raised e) ∧ g'.dbg.InRange := by
  cases label with
  | read data =>
    simp only [step] at hstep
    split at hstep
    · cases hstep
      exact ⟨halive, h⟩
    · cases hstep
  | handle =>
    simp only [step] at hstep
    split at hstep
    · obtain ⟨⟨token, rest⟩, hnext, rfl⟩ := Option.map_eq_some_iff.mp hstep
      apply take_sound (g := { g with buf := rest }) halive h
      rintro data rfl
      simp only [Permitted, safeNext, hnext] at hpermitted
      exact hpermitted
    · cases hstep
  | resume taken =>
    simp only [step] at hstep
    split at hstep
    · split at hstep
      · cases hstep
        refine ⟨respond_alive ?_ _, ?_⟩
        · exact halive
        · rw [respond_dbg]
          exact h
      · cases hstep
    · cases hstep
  | forward =>
    simp only [step] at hstep
    split at hstep
    · split at hstep
      · cases hstep
        refine ⟨respond_alive ?_ _, ?_⟩
        · exact halive
        · rw [respond_dbg]
          exact h
      · cases hstep
    · cases hstep
  | arrive a =>
    cases hstep
    cases a with
    | stop msg => exact ⟨halive, InRange.updateFromStop h hpermitted⟩
    | state msg => exact ⟨halive, h⟩
    | running => exact ⟨halive, h⟩
    | reset => exact ⟨halive, inRange_reset⟩
    | event e => exact ⟨halive, h⟩
  | link up =>
    cases hstep
    exact ⟨halive, h⟩

/-- What a client sends to write one register and the handler taking it. -/
def writePacket (packet : String) : List GdbLabel :=
  [.read (packet.toList.map fun c => UInt8.ofNat c.toNat), .handle]

/-- The link stays up, and stops are in range. -/
def Undisturbed : GdbLabel → Prop
  | .arrive (.stop msg) => StopInRange msg
  | .link up => up = true
  | _ => True

end AmigaDevbench.Gdb
