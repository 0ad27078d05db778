import AmigaDevbench.Core.Framing
import AmigaDevbench.Host.Reception

/-!
# Reception and the division into reads

The line buffer makes the lines that are handed to the parser independent of the division of
the stream. The messages are not: a line that the parser rejects takes the lines behind it in
the same read with it, and only those when the pseudo terminal's callback is called again for
the next read. The loop of a TCP connection ends at the exception.
-/

namespace AmigaDevbench

open Protocol

namespace SerialConn

/-- A message without its time stamp, which is the host's own. -/
def untimed (msg : Dict) : Dict := msg.filter (·.1 ≠ "timestamp")

/-- A stop report shows the clock reading in its time stamp alone. -/
theorem parseDbgstop_untimed (now now' : Text) (parts : List Text) :
    (parseDbgstop now parts).map (·.map untimed) =
      (parseDbgstop now' parts).map (·.map untimed) := by
  unfold parseDbgstop
  cases hex parts 2 with
  | error e => rfl
  | ok pc =>
    cases hex parts 3 with
    | error e => rfl
    | ok sr =>
      cases hexList parts 4 with
      | error e => rfl
      | ok dataRegs =>
        cases stopAddrRegs parts with
        | error e => rfl
        | ok addrRegs => rfl

/-- No branch shows the clock reading anywhere but in the time stamp. -/
theorem run_untimed (now now' line : Text) (parts : List Text) :
    ∀ b ∈ branches, (b.2.run now line parts).map (·.map untimed) =
      (b.2.run now' line parts).map (·.map untimed) := by
  have hrequire : ∀ (n : Nat) {msg msg' : Dict}, untimed msg = untimed msg' →
      Except.map (Option.map untimed) (.ok (require n parts msg) : Except PyError Parsed) =
        Except.map (Option.map untimed) (.ok (require n parts msg')) := by
    intro n msg msg' h
    unfold require
    split
    · rfl
    · simp only [Except.map, Option.map_some, h]
  simp only [branches, List.forall_mem_cons]
  repeat' apply And.intro
  all_goals first
    | exact rfl
    | exact hrequire _ rfl
    | exact parseDbgstop_untimed now now' parts
    | exact fun _ hb => absurd hb List.not_mem_nil

/-- The message of a line does not depend on the clock, time stamp apart. -/
theorem message_untimed (now now' line : Text) :
    (message now line).map untimed = (message now' line).map untimed := by
  have hmessage : ∀ now, (message now line).map untimed =
      ((parseMessage now line).map (·.map untimed)).toOption.join := by
    intro now
    unfold message
    cases parseMessage now line with
    | error e => rfl
    | ok r => cases r <;> rfl
  rw [hmessage now, hmessage now']
  unfold parseMessage
  cases hb : branchOf ((line.splitOn '|').headD []) with
  | none => simp only [hb]
  | some branch =>
    obtain ⟨b, hfind, rfl⟩ := Option.map_eq_some_iff.mp hb
    have hrun := run_untimed now now' line (line.splitOn '|') b (List.mem_of_find?_eq_some hfind)
    simp only [hb, hrun]

/-- The line stands for a message. -/
def bears (line : Text) : Bool := (message [] line).isSome

/-- The messages of the lines up to the first one that the parser rejects, time stamps apart. -/
def heard (lines : List Text) : List Dict :=
  (lines.takeWhile wellFormed).filterMap fun line => (message [] line).map untimed

/-- One read processes the messages in front of the first rejected line. -/
theorem processed_handleLines (hasDbg : Bool) (now : Text) (lines : List Text) :
    (handleLines hasDbg now lines).processed.map untimed = heard lines := by
  induction lines with
  | nil => rfl
  | cons line lines ih =>
    cases hw : wellFormed line with
    | true =>
      have hrest := (handleLines_cons_of_wellFormed hasDbg now hw lines).2
      have hclock := message_untimed now [] line
      rw [hrest, List.map_append, ih, heard, heard, List.takeWhile_cons_of_pos hw,
        List.filterMap_cons, ← hclock]
      cases message now line <;> rfl
    | false =>
      have hnone := (handleLines_cons_of_not_wellFormed hasDbg now hw lines).2.1
      rw [hnone, heard, List.takeWhile_cons_of_neg (by simp [hw])]
      rfl

/-- A read raises exactly when the parser rejects one of its lines. -/
theorem raised_handleLines (hasDbg : Bool) (now : Text) (lines : List Text) :
    (handleLines hasDbg now lines).raised.isSome = !lines.all wellFormed := by
  induction lines with
  | nil => rfl
  | cons line lines ih =>
    cases hparse : parseMessage now line with
    | error e =>
      have hw : ¬ wellFormed line = true := by
        rw [← returns_parseMessage_iff now, hparse]
        exact not_returns_error e
      simp [handleLines, hparse, hw]
    | ok r =>
      have hw : wellFormed line = true := (returns_parseMessage_iff now line).mp ⟨r, hparse⟩
      cases r with
      | none => simp [handleLines, hparse, hw, ih]
      | some msg =>
        have hcomplete := parseMessage_completeIfAny now line _ hparse
        obtain ⟨effects, heffects⟩ := returns_processMessage hasDbg now hcomplete
        simp [handleLines, hparse, heffects, hw, ih]

/-- One piece of the stream, with the monotonic clock and the time of day at its arrival. -/
structure Read where
  time : Nat
  now : Text
  data : Text

/-- The messages that successive reads process. The loop of a TCP connection ends at an
exception; the callback of a pseudo terminal is called again for the next read. -/
def receive (conn : SerialConn) : List Read → List Dict
  | [] => []
  | read :: reads =>
    let r := conn.handleData read.time read.now read.data
    if r.2.raised.isSome && conn.mode == .tcp then r.2.processed
    else r.2.processed ++ receive r.1 reads

/-- No pause inside a line is longer than an unfinished line is kept: `p` is the unfinished line
and `t` the time of the read in front of the given ones. -/
def Timely : Text → Nat → List Read → Prop
  | _, _, [] => True
  | p, t, read :: reads =>
    (p = [] ∨ read.time ≤ t + staleAfter) ∧
      Timely (Framing.pending '\n' (p ++ read.data)) read.time reads

/-- The cleaned lines that each read completes, behind an unfinished line. -/
def completed (p : Text) (reads : List Text) : List (List Text) :=
  (Framing.deliver '\n' p reads).map (·.filterMap cleanLine)

/-- Behind the read with the first rejected line, no read has a message in front of its own
first rejected line. -/
def NothingBehind : List (List Text) → Prop
  | [] => True
  | lines :: later =>
    if lines.all wellFormed then NothingBehind later
    else ∀ l ∈ later, ∀ line ∈ l.takeWhile wellFormed, bears line = false

instance : DecidablePred NothingBehind := go
where
  go : (batches : List (List Text)) → Decidable (NothingBehind batches)
    | [] => inferInstanceAs (Decidable True)
    | lines :: later =>
      haveI := go later
      inferInstanceAs (Decidable (if lines.all wellFormed then NothingBehind later
        else ∀ l ∈ later, ∀ line ∈ l.takeWhile wellFormed, bears line = false))

/-- What the reads hand on, given the lines that each completes. -/
def heardBy (mode : Mode) : List (List Text) → List Dict
  | [] => []
  | lines :: later =>
    if !lines.all wellFormed && mode == .tcp then heard lines else heard lines ++ heardBy mode later

theorem heard_append (lines more : List Text) :
    heard (lines ++ more) =
      if lines.all wellFormed then heard lines ++ heard more else heard lines := by
  unfold heard
  rw [List.takeWhile_append]
  split
  · next hlen =>
    have hall : lines.all wellFormed = true := by
      rw [List.all_eq_true]
      exact List.takeWhile_eq_self_iff.mp (List.takeWhile_prefix _ |>.eq_of_length hlen)
    rw [if_pos hall, List.filterMap_append, (List.takeWhile_prefix _).eq_of_length hlen]
  · next hlen =>
    have hall : ¬ lines.all wellFormed = true := by
      intro hall
      rw [List.all_eq_true] at hall
      exact hlen (by rw [List.takeWhile_eq_self_iff.mpr hall])
    rw [if_neg hall]

/-- Nothing is heard exactly when no line in front of the first rejected one bears a message. -/
theorem heard_eq_nil_iff (lines : List Text) :
    heard lines = [] ↔ ∀ line ∈ lines.takeWhile wellFormed, bears line = false := by
  simp [heard, bears]

/-- A connection whose reading ends at the exception hears what one read hears. -/
theorem heardBy_tcp (batches : List (List Text)) : heardBy .tcp batches = heard batches.flatten := by
  induction batches with
  | nil => rfl
  | cons lines later ih =>
    rw [heardBy, List.flatten_cons, heard_append, ih]
    cases lines.all wellFormed <;> rfl

/-- A pseudo terminal hears the beginning of every read. -/
theorem heardBy_pty (batches : List (List Text)) : heardBy .pty batches = batches.flatMap heard := by
  induction batches with
  | nil => rfl
  | cons lines later ih =>
    rw [heardBy, List.flatMap_cons, ih, if_neg]
    simp

/-- A pseudo terminal hears the beginning of every read, which is what one read hears exactly
when nothing stands behind a rejected line. -/
theorem heardBy_pty_iff (batches : List (List Text)) :
    heardBy .pty batches = heard batches.flatten ↔ NothingBehind batches := by
  rw [heardBy_pty]
  induction batches with
  | nil => exact iff_of_true rfl trivial
  | cons lines later ih =>
    rw [List.flatMap_cons, List.flatten_cons, heard_append, NothingBehind]
    split
    · rw [List.append_cancel_left_eq, ih]
    · rw [List.append_right_eq_self, List.flatMap_eq_nil_iff]
      simp only [heard_eq_nil_iff]

/-- A read that does not look like HTTP completes the lines of the buffered stream. -/
theorem handleData_eq {conn : SerialConn} {data : Text} (h : conn.looksHttp data = false)
    (time : Nat) (now : Text) :
    conn.handleData time now data =
      ({ conn with
          firstData := conn.firstData && conn.mode != Mode.tcp
          lineBuf := Framing.pending '\n' (conn.freshBuf time ++ data)
          lineBufTime := some time },
        handleLines conn.hasDbg now
          ((Framing.finished '\n' (conn.freshBuf time ++ data)).filterMap cleanLine)) := by
  simp only [handleData, batch, h, Bool.false_eq_true, if_false, bufferedLines, Framing.pending,
    Framing.finished]

/-- Data that looks like HTTP does so however much follows. -/
theorem looksHttp_append {conn : SerialConn} {data : Text} (h : conn.looksHttp data = true)
    (more : Text) : conn.looksHttp (data ++ more) = true := by
  have hfront : ∀ p : Text, p.isPrefixOf data = true → p.isPrefixOf (data ++ more) = true := by
    intro p hp
    rw [List.isPrefixOf_iff_prefix] at hp ⊢
    exact hp.trans (List.prefix_append data more)
  simp only [looksHttp, Bool.and_eq_true, Bool.or_eq_true] at h ⊢
  refine ⟨h.1, ?_⟩
  rcases h.2 with (hhttp | hdoc) | hhtml
  · exact Or.inl (Or.inl (hfront _ hhttp))
  · exact Or.inl (Or.inr (hfront _ hdoc))
  · exact Or.inr (hfront _ hhtml)

/-- Behind the first data, nothing looks like HTTP any more. -/
def Settled (conn : SerialConn) : Prop := (conn.firstData && conn.mode == .tcp) = false

/-- A read hands on what the lines that it completes stand for, and so do the reads behind it. -/
theorem receive_cons {conn : SerialConn} {read : Read} {p : Text} (reads : List Read)
    (hhttp : conn.looksHttp read.data = false) (hbuf : conn.freshBuf read.time = p)
    (hlater : ∀ conn' : SerialConn, conn'.Settled → conn'.mode = conn.mode →
      conn'.lineBuf = Framing.pending '\n' (p ++ read.data) → conn'.lineBufTime = some read.time →
      (receive conn' reads).map untimed = heardBy conn.mode
        (completed (Framing.pending '\n' (p ++ read.data)) (reads.map (·.data)))) :
    (receive conn (read :: reads)).map untimed =
      heardBy conn.mode (completed p ((read :: reads).map (·.data))) := by
  have hsettled : Settled (conn.handleData read.time read.now read.data).1 := by
    rw [handleData_eq hhttp]
    cases conn.mode <;> simp [Settled]
  have hrest := hlater _ hsettled (by rw [handleData_eq hhttp]) (by rw [handleData_eq hhttp, hbuf])
    (by rw [handleData_eq hhttp])
  rw [receive, List.map_cons, completed, Framing.deliver, List.map_cons, heardBy]
  rw [completed] at hrest
  rw [handleData_eq hhttp, hbuf] at hrest ⊢
  simp only [raised_handleLines]
  split
  · exact processed_handleLines _ _ _
  · rw [List.map_append, processed_handleLines, hrest]

/-- Reads in time hand on what the lines that each completes stand for. -/
theorem receive_eq (reads : List Read) {conn : SerialConn} {t : Nat} (hsettled : conn.Settled)
    (htime : conn.lineBufTime = some t) (htimely : Timely conn.lineBuf t reads) :
    (receive conn reads).map untimed =
      heardBy conn.mode (completed conn.lineBuf (reads.map (·.data))) := by
  induction reads generalizing conn t with
  | nil => rfl
  | cons read reads ih =>
    have hhttp : conn.looksHttp read.data = false := by
      rw [looksHttp, hsettled, Bool.false_and]
    have hbuf : conn.freshBuf read.time = conn.lineBuf := by
      have hkept : ¬ (conn.lineBuf ≠ [] ∧ staleAfter < read.time - t) := by
        rintro ⟨hne, hlate⟩
        have hsoon := htimely.1.resolve_left hne
        omega
      simp only [freshBuf, htime, if_neg hkept]
    refine receive_cons reads hhttp hbuf fun conn' hset hmode hline htime' => ?_
    have hrest := ih hset htime' (hline ▸ htimely.2)
    rw [hrest, hmode, hline]

/-- The lines that the reads complete are those that one read completes. -/
theorem flatten_completed (p data : Text) (later : List Text) :
    (completed p (data :: later)).flatten =
      (Framing.finished '\n' (p ++ (data :: later).flatten)).filterMap cleanLine := by
  have hdeliver := Framing.flatten_deliver '\n' p data later
  rw [← hdeliver, completed, List.filterMap_flatten]

/-- A stream in reads that follow each other in time, none of which looks like HTTP, is
processed like the same stream in one read exactly over TCP, where the first rejected line ends
the reading for good, and when behind the read with the first rejected line no read has a
message in front of its own first rejected line. -/
theorem receive_framing_iff (conn : SerialConn) (now : Text) (read : Read) (reads : List Read)
    (hhttp : conn.looksHttp ((read :: reads).map (·.data)).flatten = false)
    (htimely : Timely (Framing.pending '\n' (conn.freshBuf read.time ++ read.data)) read.time
      reads) :
    (receive conn (read :: reads)).map untimed =
        (conn.handleData read.time now
          ((read :: reads).map (·.data)).flatten).2.processed.map untimed ↔
      conn.mode = .tcp ∨
        NothingBehind (completed (conn.freshBuf read.time) ((read :: reads).map (·.data))) := by
  have hfirst : conn.looksHttp read.data = false := by
    by_contra hno
    have hwhole := looksHttp_append (Bool.of_not_eq_false hno)
      ((reads.map (·.data)).flatten)
    rw [List.map_cons, List.flatten_cons] at hhttp
    exact absurd hwhole (by simp [hhttp])
  have hreads : (receive conn (read :: reads)).map untimed =
      heardBy conn.mode (completed (conn.freshBuf read.time) ((read :: reads).map (·.data))) := by
    refine receive_cons reads hfirst rfl fun conn' hset hmode hline htime => ?_
    have hrest := receive_eq reads hset htime (hline ▸ htimely)
    rw [hrest, hmode, hline]
  have hone : (conn.handleData read.time now
      ((read :: reads).map (·.data)).flatten).2.processed.map untimed =
        heard (completed (conn.freshBuf read.time) ((read :: reads).map (·.data))).flatten := by
    rw [handleData_eq hhttp, processed_handleLines, List.map_cons, flatten_completed]
  rw [hreads, hone]
  cases conn.mode with
  | tcp => exact iff_of_true (heardBy_tcp _) (Or.inl rfl)
  | pty =>
    rw [heardBy_pty_iff]
    exact ⟨Or.inr, fun h => h.resolve_left (by decide)⟩

/-- An answer to a ping that is cut in two is processed like the whole one. -/
theorem receive_framing_ping :
    (receive ⟨.pty, [], 0, true, false, [], none, true⟩
      [⟨0, "00:00".toList, "PONG|1|".toList⟩, ⟨1500, "00:01".toList, "2|3\n".toList⟩]).map untimed =
    ((SerialConn.mk .pty [] 0 true false [] none true).handleData 0 []
      (["PONG|1|".toList, "2|3\n".toList]).flatten).2.processed.map untimed :=
  (receive_framing_iff ⟨.pty, [], 0, true, false, [], none, true⟩ []
    ⟨0, "00:00".toList, "PONG|1|".toList⟩ [⟨1500, "00:01".toList, "2|3\n".toList⟩] (by decide)
    ⟨Or.inr (by decide), trivial⟩).mpr (Or.inr (by decide))

/-- The state of a target whose task name has a bar raises. In one read with it, the answer to a
ping is lost; in a read of its own it is processed. -/
theorem receive_framing_cut :
    (SerialConn.mk .pty [] 0 true false [] none true).looksHttp
        "DBGSTATE|1|1|job|two|00001000|0|BASE:00000000\nPONG|1|2|3\n".toList = false ∧
    Timely (Framing.pending '\n' "DBGSTATE|1|1|job|two|00001000|0|BASE:00000000\n".toList) 0
      [⟨0, [], "PONG|1|2|3\n".toList⟩] ∧
    (receive ⟨.pty, [], 0, true, false, [], none, true⟩
      [⟨0, [], "DBGSTATE|1|1|job|two|00001000|0|BASE:00000000\n".toList⟩,
        ⟨0, [], "PONG|1|2|3\n".toList⟩]).map untimed ≠
    ((SerialConn.mk .pty [] 0 true false [] none true).handleData 0 []
      "DBGSTATE|1|1|job|two|00001000|0|BASE:00000000\nPONG|1|2|3\n".toList).2.processed.map
        untimed := by
  refine ⟨by decide, ⟨Or.inl (by decide), trivial⟩, fun h => ?_⟩
  have hlength := congrArg List.length h
  revert hlength
  decide

end SerialConn

end AmigaDevbench
