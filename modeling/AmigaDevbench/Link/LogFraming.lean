import AmigaDevbench.Daemon.Log
import AmigaDevbench.Host.SerialConn

/-!
# A log line from the client to the host

A client's log text passes through the data field of an IPC message, a line of the daemon and
the cleaning of the host. On a text of one line that fits into the message, the host reads one
CLOG message: the client's name, the level letter, and the text without the noise that
cleaning removes. What the host does with it depends on the text only through the lines of
the test harness, which it looks for inside log texts.
-/

namespace AmigaDevbench.LogFraming

open CText Protocol SerialConn Daemon

/-- The text of a line as it comes out of the host's cleaning. -/
def shown (text : Text) : Text := (Py.rstrip text).filter plain

/-- The message that stands for a client's log text on the host. -/
def clogMsg (client : Text) (level : Char) (message now : Text) : Dict :=
  [("type", .str "CLOG".toList), ("client", .str client), ("level", .str [level]),
    ("tick", .int 0), ("message", .str message), ("timestamp", .str now)]

/-- The log entry made from it. -/
def clogEntry (client : Text) (level : Char) (message now : Text) : Dict :=
  [("type", .str "LOG".toList), ("level", .str [level]), ("tick", .int 0),
    ("message", .str ("[".toList ++ client ++ "] ".toList ++ message)), ("timestamp", .str now),
    ("client", .str client)]

/-- The message types of the test harness. -/
def testTypes : List Text :=
  ["TEST_BEGIN".toList, "TEST_PASS".toList, "TEST_FAIL".toList, "TEST_END".toList]

/-- The test message inside a log text: its first field must name one. -/
def embeddedTest (now text : Text) : Option Dict :=
  if (text.splitOn '|').headD [] ∈ testTypes then (parseMessage now text).toOption.join else none

/-- What the host does with a client's log text. -/
def clogEffects (client : Text) (level : Char) (message now : Text) : List Effect :=
  match embeddedTest now message with
  | some test => processTest (clogMsg client level message now) test
  | none =>
    [.addLog (clogEntry client level message now),
      .publish "log" (clogEntry client level message now),
      .publish "clog" (clogMsg client level message now)]

/-- The host took a read for one ordinary log line of a client, with this level and text. -/
def AsClientLog (client : Text) (level : Char) (text now : Text) (r : Handled) : Prop :=
  r.processed = [clogMsg client level text now] ∧ r.raised = none ∧
    r.effects = [.sawMessage, .addLog (clogEntry client level text now),
      .publish "log" (clogEntry client level text now),
      .publish "clog" (clogMsg client level text now)]

/-- A text without noise and without trailing blanks is shown as it is. -/
theorem shown_eq_self {text : Text} (hplain : ∀ c ∈ text, plain c = true)
    (hstrip : Py.rstrip text = text) : shown text = text := by
  rw [shown, hstrip, List.filter_eq_self]
  exact hplain

/-- Text filtered for noise has no separator that was not there before. -/
theorem bar_notMem_filter {s : Text} (h : '|' ∉ s) : '|' ∉ s.filter plain :=
  fun hmem => h (List.mem_of_mem_filter hmem)

/-- The cleaned line of a log text. -/
theorem cleanLine_clog (client text : Text) (level : Char) (hlevel : plain level = true) :
    cleanLine ("CLOG|".toList ++ client ++ "|".toList ++ [level] ++ "|0|".toList ++ text) =
      some ("CLOG|".toList ++ client.filter plain ++ "|".toList ++ [level] ++ "|0|".toList ++
        shown text) := by
  have hC : Py.isSpace 'C' = false := by decide
  have hbar : Py.isSpace '|' = false := by decide
  have hassoc : "CLOG|".toList ++ client ++ "|".toList ++ [level] ++ "|0|".toList ++ text =
      'C' :: ("LOG|".toList ++ client ++ "|".toList ++ [level] ++ "|0".toList) ++ '|' :: text := by
    simp
  have hstrip : Py.strip ("CLOG|".toList ++ client ++ "|".toList ++ [level] ++ "|0|".toList ++
      text) = "CLOG|".toList ++ client ++ "|".toList ++ [level] ++ "|0|".toList ++
        Py.rstrip text := by
    rw [hassoc, Py.strip, List.cons_append, Text.stripBy_cons hC, ← List.cons_append,
      Text.rstripBy_append_cons hbar, Py.rstrip]
    simp
  have htype : ("CLOG|".toList).filter plain = "CLOG|".toList := by decide
  have hone : ("|".toList).filter plain = "|".toList := by decide
  have htick : ("|0|".toList).filter plain = "|0|".toList := by decide
  have hletter : [level].filter plain = [level] := by simp only [List.filter, hlevel]
  rw [cleanLine_eq, hstrip]
  simp only [List.filter_append, htype, hone, htick, hletter, shown]
  simp

/-- The message read from the cleaned line. -/
theorem parseMessage_clog (now client text : Text) (level : Char) (hclient : '|' ∉ client)
    (hlevel : level ≠ '|') :
    parseMessage now ("CLOG|".toList ++ client ++ "|".toList ++ [level] ++ "|0|".toList ++ text) =
      .ok (some (clogMsg client level text now)) := by
  have hassoc : "CLOG|".toList ++ client ++ "|".toList ++ [level] ++ "|0|".toList ++ text =
      "CLOG".toList ++ '|' :: (client ++ '|' :: ([level] ++ '|' :: (['0'] ++ '|' :: text))) := by
    simp
  have hsplit : ("CLOG|".toList ++ client ++ "|".toList ++ [level] ++ "|0|".toList ++
      text).splitOn '|' = "CLOG".toList :: client :: [level] :: ['0'] :: text.splitOn '|' := by
    rw [hassoc, Text.splitOn_field (by decide), Text.splitOn_field hclient,
      Text.splitOn_field (by simpa using hlevel.symm), Text.splitOn_field (by decide)]
  have hbranch : branchOf "CLOG".toList = some (.guarded fun now _ p => parseClog now p) := rfl
  unfold parseMessage
  simp only [hsplit, List.headD_cons, hbranch, Branch.run]
  have hlen : ¬ ("CLOG".toList :: client :: [level] :: ['0'] :: text.splitOn '|').length < 5 := by
    have hpos := List.length_pos_of_ne_nil (List.splitOn_ne_nil '|' text)
    simp only [List.length_cons]
    omega
  have hrest : rest ("CLOG".toList :: client :: [level] :: ['0'] :: text.splitOn '|') 4 = text :=
    Text.joinBar_splitOn text
  have htick : num ("CLOG".toList :: client :: [level] :: ['0'] :: text.splitOn '|') 3 = 0 := by
    simp only [num, List.getD_cons_succ, List.getD_cons_zero]
    rfl
  simp only [parseClog, require, hlen, if_false, hrest, htick]
  rfl

/-- A text with the prefix of the test harness whose first field is none of its types is no
message at all. -/
theorem parseMessage_of_not_testType {now text : Text}
    (hfront : "TEST_".toList.isPrefixOf text = true)
    (htype : (text.splitOn '|').headD [] ∉ testTypes) : parseMessage now text = .ok none := by
  rcases parseMessage_cases now text with ⟨b, hb, hname, _⟩ | ⟨_, hnone⟩
  · have htests : ∀ b ∈ branches, "TEST_".toList <+: b.1.toList → b.1.toList ∈ testTypes := by
      decide
    refine absurd ?_ htype
    rw [← hname]
    apply htests b hb
    obtain ⟨tl, rfl⟩ := List.isPrefixOf_iff_prefix.mp hfront
    obtain ⟨hd, ps, hps⟩ := List.exists_cons_of_ne_nil (List.splitOn_ne_nil '|' tl)
    rw [hname]
    refine ⟨hd, ?_⟩
    simp [List.splitOn_cons_eq_if_modifyHead, hps]
  · exact hnone

/-- A text whose first field is one of its types always is one. -/
theorem parseMessage_testType {text : Text} (now : Text)
    (htype : (text.splitOn '|').headD [] ∈ testTypes) :
    ∃ test, parseMessage now text = .ok (some test) := by
  simp only [testTypes, List.mem_cons, List.not_mem_nil, or_false] at htype
  rcases htype with h | h | h | h <;> simp only [parseMessage, h] <;> exact ⟨_, rfl⟩

/-- A text whose first field names a type of the test harness has the harness's prefix. -/
theorem prefix_of_testType {text : Text} (htype : (text.splitOn '|').headD [] ∈ testTypes) :
    "TEST_".toList.isPrefixOf text = true := by
  have htests : ∀ t ∈ testTypes, "TEST_".toList <+: t := by decide
  obtain ⟨hd, ps, hps⟩ := List.exists_cons_of_ne_nil (List.splitOn_ne_nil '|' text)
  rw [hps] at htype
  have hjoin := Text.joinBar_splitOn text
  rw [hps] at hjoin
  have hhead : hd <+: text := by
    rw [← hjoin]
    cases ps with
    | nil => simp [Text.joinBar]
    | cons p ps =>
      rw [Text.joinBar, List.intercalate_cons_cons]
      exact ⟨_, (List.append_assoc ..).symm⟩
  exact List.isPrefixOf_iff_prefix.mpr ((htests hd htype).trans hhead)

/-- What `_process_message` does with a client's log message. -/
theorem processMessage_clog (hasDbg : Bool) (now client message : Text) (level : Char) :
    processMessage hasDbg now (clogMsg client level message now) =
      .ok (.sawMessage :: clogEffects client level message now) := by
  have hlog : processClientLog (clogMsg client level message now) =
      .ok [.addLog (clogEntry client level message now),
        .publish "log" (clogEntry client level message now),
        .publish "clog" (clogMsg client level message now)] := rfl
  have hclog : processClog now (clogMsg client level message now) =
      .ok (clogEffects client level message now) := by
    have hraw : (clogMsg client level message now).getText "message" [] = message := rfl
    have hget : (clogMsg client level message now).getItem "message" = .ok (.str message) := rfl
    unfold processClog clogEffects embeddedTest
    rw [hget]
    change (if "TEST_".toList.isPrefixOf message then _ else _) = _
    rw [hraw]
    by_cases htype : (message.splitOn '|').headD [] ∈ testTypes
    · obtain ⟨test, htest⟩ := parseMessage_testType now htype
      rw [if_pos (prefix_of_testType htype), if_pos htype, htest]
      rfl
    · rw [if_neg htype]
      split
      · next hfront =>
        rw [parseMessage_of_not_testType hfront htype]
        exact hlog
      · exact hlog
  have hdispatch : dispatch hasDbg now (clogMsg client level message now) =
      processClog now (clogMsg client level message now) := rfl
  unfold processMessage
  rw [hdispatch, hclog]
  rfl

/-- A read that delivers one line hands it to the parser alone. -/
theorem batch_line {conn : SerialConn} (hbuf : conn.lineBuf = []) (time : Nat) {line : Text}
    (hline : '\n' ∉ line) (hhttp : conn.looksHttp (line ++ ['\n']) = false) :
    conn.batch time (line ++ ['\n']) = [line].filterMap cleanLine := by
  have hfresh : conn.freshBuf time = [] := by
    unfold freshBuf
    rw [hbuf]
    cases conn.lineBufTime <;> simp
  have hlines : conn.bufferedLines time (line ++ ['\n']) = [line, []] := by
    rw [bufferedLines, hfresh, List.nil_append, Text.splitOn_field hline, List.splitOn_nil]
  simp only [batch, hhttp, Bool.false_eq_true, if_false, hlines]
  rfl

/-- A log text of one line that fits into a message arrives as one CLOG message of its client,
with its level and its text up to the noise that the host removes. It is logged under the
client's name, unless its first field is a message type of the test harness, in which case it
is published as that client's test event. -/
theorem log_framing (conn : SerialConn) (hbuf : conn.lineBuf = []) (time : Nat) (now : Text)
    (client : ClientName) (hsys : client.chars ≠ "sys".toList) (hname : '|' ∉ client.chars)
    (hnameLine : '\n' ∉ client.chars) (level : Int) (hlevel : 0 ≤ level ∧ level ≤ 3)
    (text : Text) (hnul : nul ∉ text) (hlen : text.length ≤ Client.maxData - 3)
    (htext : '\n' ∉ text) (bm : Client.LogMsg) (hbm : Client.abLog true level text = some bm) :
    let name := client.chars.filter plain
    let msg := clogMsg name (levelLetter level) (shown text) now
    let r := (conn.handleData time now (ipcLog client bm)).2
    r.processed = [msg] ∧ r.raised = none ∧
      r.effects = .sawMessage :: clogEffects name (levelLetter level) (shown text) now ∧
      ((∀ c ∈ client.chars ++ text, plain c = true) → Py.rstrip text = text →
        (text.splitOn '|').headD [] ∉ testTypes →
        AsClientLog client.chars (levelLetter level) text now r) := by
  intro name msg r
  have hletter : plain (levelLetter level) = true ∧ levelLetter level ≠ '|' ∧
      levelLetter level ≠ '\n' := by
    have hcases : level = 0 ∨ level = 1 ∨ level = 2 ∨ level = 3 := by omega
    rcases hcases with rfl | rfl | rfl | rfl <;> decide
  obtain ⟨hplain, hbar, hnewline⟩ := hletter
  have hsent := ipcLog_eq hsys hlevel hnul hlen hbm
  have hline : '\n' ∉ "CLOG|".toList ++ client.chars ++ "|".toList ++ [levelLetter level] ++
      "|0|".toList ++ text := by
    simp [hnameLine, htext, hnewline.symm]
  have hhttp : conn.looksHttp ("CLOG|".toList ++ client.chars ++ "|".toList ++
      [levelLetter level] ++ "|0|".toList ++ text ++ ['\n']) = false := by
    have hnone : ∀ s : Text, "HTTP/".toList.isPrefixOf ('C' :: s) = false ∧
        "<!DOCTYPE".toList.isPrefixOf ('C' :: s) = false ∧
        "<html".toList.isPrefixOf ('C' :: s) = false := fun s => ⟨rfl, rfl, rfl⟩
    have hC : "CLOG|".toList = 'C' :: "LOG|".toList := rfl
    simp only [looksHttp, hC, List.cons_append, hnone, Bool.or_self, Bool.and_false]
  have hbatch := batch_line hbuf time hline hhttp
  rw [List.filterMap_cons_some (cleanLine_clog client.chars text _ hplain), List.filterMap_nil]
    at hbatch
  have hr : r = handleLines conn.hasDbg now ["CLOG|".toList ++ name ++ "|".toList ++
      [levelLetter level] ++ "|0|".toList ++ shown text] := by
    simp only [r, hsent, handleData, hhttp, Bool.false_eq_true, if_false, hbatch, name]
  have hparse : parseMessage now ("CLOG|".toList ++ name ++ "|".toList ++ [levelLetter level] ++
      "|0|".toList ++ shown text) = .ok (some msg) :=
    parseMessage_clog now name (shown text) _ (bar_notMem_filter hname) hbar
  have hprocess : processMessage conn.hasDbg now msg =
      .ok (.sawMessage :: clogEffects name (levelLetter level) (shown text) now) :=
    processMessage_clog conn.hasDbg now name (shown text) (levelLetter level)
  have heffects : r.effects =
      .sawMessage :: clogEffects name (levelLetter level) (shown text) now := by
    simp only [hr, handleLines, hparse, hprocess, List.append_nil]
  have hprocessed : r.processed = [msg] := by simp only [hr, handleLines, hparse, hprocess]
  have hraised : r.raised = none := by simp only [hr, handleLines, hparse, hprocess]
  refine ⟨hprocessed, hraised, heffects, fun hall hstrip htest => ?_⟩
  have hclean : name = client.chars :=
    List.filter_eq_self.mpr fun c hc => hall c (List.mem_append_left text hc)
  have hshown : shown text = text :=
    shown_eq_self (fun c hc => hall c (List.mem_append_right client.chars hc)) hstrip
  refine ⟨?_, hraised, ?_⟩
  · rw [hprocessed, ← hclean]
    simp only [msg, hshown]
  · rw [heffects, hclean, hshown, clogEffects, embeddedTest, if_neg htest]

/-- A connection whose line buffer is empty. -/
def idleConn : SerialConn := ⟨.tcp, [], 0, false, false, [], none, false⟩

/-- The host's reading of a log text of the client `app`, if the client is connected. -/
def loggedByApp (text : String) : Option Handled :=
  (Client.abLog true 1 text.toList).map fun bm =>
    (idleConn.handleData 0 [] (ipcLog (.register "app".toList) bm)).2

/-- The hypotheses hold of an ordinary log call. -/
theorem log_framing_hello : ∃ bm, Client.abLog true 1 "hello | world".toList = some bm ∧
    (idleConn.handleData 0 [] (ipcLog (.register "app".toList) bm)).2.processed =
      [clogMsg "app".toList 'I' "hello | world".toList []] :=
  ⟨_, rfl, (log_framing idleConn rfl 0 [] (.register "app".toList) (by decide) (by decide)
    (by decide) 1 (by decide) "hello | world".toList (by decide) (by decide) (by decide) _ rfl).1⟩

/-- A log text that looks like a line of the test harness is published as a test event and not
as a client log, and a trailing blank is lost. -/
theorem log_framing_not_verbatim :
    (∀ r, loggedByApp "TEST_BEGIN|suite" = some r →
      ¬ AsClientLog "app".toList 'I' "TEST_BEGIN|suite".toList [] r) ∧
    ∀ r, loggedByApp "done " = some r →
      ¬ AsClientLog "app".toList 'I' "done ".toList [] r := by
  constructor
  · rintro r hr ⟨_, _, heffects⟩
    cases hr
    exact absurd (congrArg List.length heffects) (by decide)
  · rintro r hr ⟨hprocessed, _, _⟩
    cases hr
    have htext := congrArg (List.map (Dict.getText · "message" [])) hprocessed
    exact absurd htext (by decide)

end AmigaDevbench.LogFraming
