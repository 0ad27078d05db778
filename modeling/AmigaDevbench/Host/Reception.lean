import AmigaDevbench.Host.SerialConn

/-!
# Totality of the receiving path

Every message that a branch of the parser returns carries the keys that `_process_message`
reads from it with `[...]`, so processing cannot fail and the parser alone decides whether a
read is carried out. One ill-formed line in front of others is then the only way to lose them.
-/

namespace AmigaDevbench

open Protocol

namespace SerialConn

/-- The keys that `_process_message` reads unconditionally, by message type. -/
def readKeys : List (String × List String) :=
  [("VAR", ["name"]), ("CLOG", ["message", "level", "tick", "timestamp", "client"]),
   ("CVAR", ["name", "varType", "value", "client"])]

/-- The message has a type, and the keys that are read from messages of that type. -/
def complete (msg : Dict) : Bool :=
  (msg.get? "type").isSome && readKeys.all fun r =>
    msg.getText "type" [] != r.1.toList || r.2.all fun k => (msg.get? k).isSome

/-- `None`, or a complete message. -/
abbrev CompleteIfAny (r : Parsed) : Prop := r.all complete = true

theorem completeIfAny_require (n : Nat) (parts : List Text) {msg : Dict}
    (h : complete msg = true) : CompleteIfAny (require n parts msg) := by
  unfold require
  split
  · rfl
  · exact h

/-- The sections of a client report leave its other keys alone. -/
theorem get?_cinfoSection (info : Dict) (part : Text) {k : String}
    (hk : k ∉ ["vars", "hooks", "memregs"]) :
    (cinfoSection info part).get? k = info.get? k := by
  simp only [List.mem_cons, List.not_mem_nil, or_false, not_or] at hk
  unfold cinfoSection
  split
  · exact Dict.get?_set_of_ne _ _ hk.1
  · split
    · exact Dict.get?_set_of_ne _ _ hk.2.1
    · split
      · exact Dict.get?_set_of_ne _ _ hk.2.2
      · rfl

theorem completeIfAny_parseCinfo (parts : List Text) : CompleteIfAny (parseCinfo parts) := by
  have htype : ∀ (ps : List Text) (d : Dict),
      (ps.foldl cinfoSection d).get? "type" = d.get? "type" := by
    intro ps
    induction ps with
    | nil => exact fun d => rfl
    | cons p ps ih =>
      intro d
      rw [List.foldl_cons, ih, get?_cinfoSection d p (by decide)]
  simp only [CompleteIfAny, parseCinfo, Option.all_some, complete, Dict.getText, htype]
  rfl

theorem completeIfAny_parseCapabilities (parts : List Text) :
    CompleteIfAny (parseCapabilities parts) := by
  unfold parseCapabilities
  split
  · rfl
  · split <;> rfl

theorem completeIfAny_parseSysinfo (parts : List Text) : CompleteIfAny (parseSysinfo parts) := by
  unfold parseSysinfo
  split <;> rfl

/-- Every branch returns `None` or a complete message. -/
theorem run_completeIfAny (now line : Text) (parts : List Text) :
    ∀ b ∈ branches, Ensures CompleteIfAny (b.2.run now line parts) := by
  simp only [branches, List.forall_mem_cons]
  repeat' apply And.intro
  all_goals first
    | exact ensures_ok rfl
    | exact ensures_ok (completeIfAny_require _ parts rfl)
    | exact ensures_ok (completeIfAny_parseCinfo parts)
    | exact ensures_ok (completeIfAny_parseCapabilities parts)
    | exact ensures_ok (completeIfAny_parseSysinfo parts)
    | exact ensures_bind fun _ => ensures_pure rfl
    | exact ensures_bind fun _ => ensures_bind fun _ => ensures_pure rfl
    | exact ensures_bind fun _ => ensures_bind fun _ => ensures_bind fun _ =>
        ensures_bind fun _ => ensures_pure rfl
    | exact fun _ hb => absurd hb List.not_mem_nil

/-- The parser returns `None` or a complete message. -/
theorem parseMessage_completeIfAny (now line : Text) :
    Ensures CompleteIfAny (parseMessage now line) := by
  rcases parseMessage_cases now line with ⟨b, hb, _, hrun⟩ | ⟨_, hrun⟩
  · rw [hrun]
    exact run_completeIfAny now line _ b hb
  · rw [hrun]
    exact ensures_ok rfl

/-- A key that is present can be read. -/
theorem returns_getItem {msg : Dict} {k : String} (h : (msg.get? k).isSome = true) :
    Returns (msg.getItem k) := by
  obtain ⟨v, hv⟩ := Option.isSome_iff_exists.mp h
  exact ⟨v, by simp only [Dict.getItem, hv]⟩

/-- A complete message of a listed type has every listed key. -/
theorem complete_key {msg : Dict} (h : complete msg = true) {r : String × List String}
    (hr : r ∈ readKeys) (htype : msg.getText "type" [] = r.1.toList) {k : String}
    (hk : k ∈ r.2) : Returns (msg.getItem k) := by
  have hall := (Bool.and_eq_true_iff.mp h).2
  have hkeys := List.all_eq_true.mp hall r hr
  rw [htype] at hkeys
  simp only [bne_self_eq_false, Bool.false_or, List.all_eq_true] at hkeys
  exact returns_getItem (hkeys k hk)

/-- The type of an embedded test line is none of the converting ones. -/
theorem wellFormed_of_test {raw : Text} (h : "TEST_".toList.isPrefixOf raw = true) :
    wellFormed raw = true := by
  obtain ⟨tl, rfl⟩ := List.isPrefixOf_iff_prefix.mp h
  obtain ⟨hd, ps, hps⟩ := List.exists_cons_of_ne_nil (List.splitOn_ne_nil '|' tl)
  have hsplit : ("TEST_".toList ++ tl).splitOn '|' = ("TEST_".toList ++ hd) :: ps := by
    simp [List.splitOn_cons_eq_if_modifyHead, hps]
  have hne : ∀ c ∈ conversions, c.1.toList ≠ "TEST_".toList ++ hd := by
    have hpre : ∀ c ∈ conversions, ¬ "TEST_".toList <+: c.1.toList := by decide
    intro c hc he
    exact hpre c hc ⟨hd, he.symm⟩
  have hfind : conversions.find? (·.1.toList = "TEST_".toList ++ hd) = none := by
    rw [List.find?_eq_none]
    intro c hc
    simpa only [decide_eq_true_eq] using hne c hc
  simp only [wellFormed, hsplit, List.headD_cons, hfind, Option.all_none]

theorem returns_processClog (now : Text) {msg : Dict} (h : complete msg = true)
    (htype : msg.getText "type" [] = "CLOG".toList) : Returns (processClog now msg) := by
  have hkey : ∀ k ∈ ["message", "level", "tick", "timestamp", "client"],
      Returns (msg.getItem k) := fun k hk =>
    complete_key h (r := ("CLOG", _)) (by simp [readKeys]) htype hk
  have hlog : Returns (processClientLog msg) := by
    unfold processClientLog
    obtain ⟨level, hlevel⟩ := hkey "level" (by simp)
    obtain ⟨tick, htick⟩ := hkey "tick" (by simp)
    obtain ⟨stamp, hstamp⟩ := hkey "timestamp" (by simp)
    obtain ⟨client, hclient⟩ := hkey "client" (by simp)
    rw [hlevel, htick, hstamp, hclient]
    exact ⟨_, rfl⟩
  obtain ⟨message, hmessage⟩ := hkey "message" (by simp)
  unfold processClog
  rw [hmessage]
  change Returns (if _ then _ else _)
  split
  · next htest =>
    obtain ⟨test, hparse⟩ := (returns_parseMessage_iff now _).mpr (wellFormed_of_test htest)
    rw [hparse]
    cases test with
    | none => exact hlog
    | some test => exact ⟨_, rfl⟩
  · exact hlog

theorem returns_processCvar {msg : Dict} (h : complete msg = true)
    (htype : msg.getText "type" [] = "CVAR".toList) : Returns (processCvar msg) := by
  have hkey : ∀ k ∈ ["name", "varType", "value", "client"], Returns (msg.getItem k) :=
    fun k hk => complete_key h (r := ("CVAR", _)) (by simp [readKeys]) htype hk
  obtain ⟨name, hname⟩ := hkey "name" (by simp)
  obtain ⟨varType, hvarType⟩ := hkey "varType" (by simp)
  obtain ⟨value, hvalue⟩ := hkey "value" (by simp)
  obtain ⟨client, hclient⟩ := hkey "client" (by simp)
  unfold processCvar
  rw [hname, hvarType, hvalue, hclient]
  exact ⟨_, rfl⟩

theorem returns_dispatch (hasDbg : Bool) (now : Text) {msg : Dict} (h : complete msg = true) :
    Returns (dispatch hasDbg now msg) := by
  unfold dispatch
  simp only
  split
  · exact returns_ok _
  · split
    · next htype =>
      obtain ⟨name, hname⟩ := complete_key h (r := ("VAR", ["name"])) (by simp [readKeys]) htype
        (k := "name") (by simp)
      rw [hname]
      exact ⟨_, rfl⟩
    · split
      · exact returns_ok _
      · split
        · next htype => exact returns_processClog now h htype
        · split
          · next htype => exact returns_processCvar h htype
          · repeat' split
            all_goals exact returns_ok _

/-- Processing a complete message cannot fail. -/
theorem returns_processMessage (hasDbg : Bool) (now : Text) {msg : Dict}
    (h : complete msg = true) : Returns (processMessage hasDbg now msg) := by
  obtain ⟨type, htype⟩ := returns_getItem (Bool.and_eq_true_iff.mp h).1
  obtain ⟨effects, heffects⟩ := returns_dispatch hasDbg now h
  unfold processMessage
  rw [htype, heffects]
  exact ⟨_, rfl⟩

/-- The message that a line stands for, if any. -/
def message (now line : Text) : Option Dict :=
  match parseMessage now line with
  | .ok r => r
  | .error _ => none

/-- Every line of the batch was parsed and every message among them processed. -/
def Undisturbed (now : Text) (batch : List Text) (r : Handled) : Prop :=
  r.parsed = batch ∧ r.processed = batch.filterMap (message now)

/-- A line that converts is passed over, with its message processed if there is one. -/
theorem handleLines_cons_of_wellFormed (hasDbg : Bool) (now : Text) {line : Text}
    (h : wellFormed line = true) (lines : List Text) :
    (handleLines hasDbg now (line :: lines)).parsed =
        line :: (handleLines hasDbg now lines).parsed ∧
      (handleLines hasDbg now (line :: lines)).processed =
        (message now line).toList ++ (handleLines hasDbg now lines).processed := by
  obtain ⟨r, hr⟩ := (returns_parseMessage_iff now line).mpr h
  have hcomplete := parseMessage_completeIfAny now line r hr
  cases r with
  | none => simp only [handleLines, message, hr, Option.toList_none, List.nil_append, and_self]
  | some msg =>
    obtain ⟨effects, heffects⟩ := returns_processMessage hasDbg now hcomplete
    simp only [handleLines, message, hr, heffects, Option.toList_some, List.singleton_append,
      and_self]

/-- A line that does not convert ends the read. -/
theorem handleLines_cons_of_not_wellFormed (hasDbg : Bool) (now : Text) {line : Text}
    (h : wellFormed line = false) (lines : List Text) :
    (handleLines hasDbg now (line :: lines)).parsed = [line] ∧
      (handleLines hasDbg now (line :: lines)).processed = [] ∧ message now line = none := by
  have hno : ¬ Returns (parseMessage now line) := by
    rw [returns_parseMessage_iff, h]
    exact Bool.false_ne_true
  cases hp : parseMessage now line with
  | ok r => exact absurd ⟨r, hp⟩ hno
  | error e => simp only [handleLines, message, hp, and_self]

/-- A batch goes through undisturbed exactly when no line but the last is ill-formed. -/
theorem undisturbed_handleLines_iff (hasDbg : Bool) (now : Text) (batch : List Text) :
    Undisturbed now batch (handleLines hasDbg now batch) ↔
      ∀ line ∈ batch.dropLast, wellFormed line = true := by
  unfold Undisturbed
  induction batch with
  | nil => simp [handleLines]
  | cons line lines ih =>
    cases hw : wellFormed line with
    | true =>
      obtain ⟨hparsed, hprocessed⟩ := handleLines_cons_of_wellFormed hasDbg now hw lines
      have hfilter : (line :: lines).filterMap (message now) =
          (message now line).toList ++ lines.filterMap (message now) := by
        cases hm : message now line <;> simp [hm]
      rw [hparsed, hprocessed, hfilter, List.cons_inj_right, List.append_cancel_left_eq, ih]
      cases lines with
      | nil => simp
      | cons next lines => simp [hw]
    | false =>
      obtain ⟨hparsed, hprocessed, hnone⟩ := handleLines_cons_of_not_wellFormed hasDbg now hw lines
      rw [hparsed, hprocessed]
      cases lines with
      | nil => simp [hnone]
      | cons next lines => simp [hw]

/-- The parser returns exactly on the lines whose converted fields are literals, and a read
delivers all its other lines exactly when every line but its last is of this kind. -/
theorem reception_total_iff (conn : SerialConn) (time : Nat) (now line data : Text) :
    (Returns (parseMessage now line) ↔ wellFormed line = true) ∧
    (Undisturbed now (conn.batch time data) (conn.handleData time now data).2 ↔
      ∀ line ∈ (conn.batch time data).dropLast, wellFormed line = true) := by
  refine ⟨returns_parseMessage_iff now line, ?_⟩
  by_cases hhttp : conn.looksHttp data = true
  · simp [Undisturbed, handleData, batch, hhttp]
  · simp only [handleData, hhttp, Bool.false_eq_true, if_false]
    exact undisturbed_handleLines_iff conn.hasDbg now (conn.batch time data)

/-- A stop report with one noisy byte in its program counter raises, and takes the answer to
a ping in the same read with it. -/
theorem reception_not_total :
    ¬ Returns (parseMessage [] "DBGSTOP|breakpoint|00zz|0000".toList) ∧
    ¬ Undisturbed []
      ((SerialConn.mk .tcp [] 0 false false [] none true).batch 0
        "DBGSTOP|breakpoint|00zz|0000\nPONG|1|2|3\n".toList)
      ((SerialConn.mk .tcp [] 0 false false [] none true).handleData 0 []
        "DBGSTOP|breakpoint|00zz|0000\nPONG|1|2|3\n".toList).2 := by
  constructor
  · rw [returns_parseMessage_iff]
    decide
  · intro h
    exact absurd h.1 (by decide)

end SerialConn

end AmigaDevbench
