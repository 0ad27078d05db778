import AmigaDevbench.Daemon.Arexx
import AmigaDevbench.Host.Amiforge.Calls
import AmigaDevbench.Link.CommandFraming
import AmigaDevbench.Link.Replies
import AmigaDevbench.Core.Separated

/-!
# Replies of the IDE

The IDE answers a command with the first tokens of its escaped payload and keeps the rest for the
commands that follow. Between it and the caller are the line of a command, the line of its answer,
and whatever errors of other commands arrive meanwhile; the payload is put together as it was.
-/

namespace AmigaDevbench.Amiforge

open Daemon Protocol Replies SerialConn

/-! ### The IDE -/

/-- The state of the ARexx port: what is left of a reply, and the application. -/
structure Ide (σ : Type) where
  rest : Text
  app : σ

/-- `AF1 rc more length chunk`. -/
def envelope (rc more : Nat) (chunk : Text) : Text :=
  "AF1 ".toList ++ (decimal rc ++ ' ' :: (decimal more ++ ' ' :: (decimal chunk.length ++
    ' ' :: chunk)))

namespace Ide

variable {σ : Type} (chunk : Nat) (run : σ → Text → σ × Nat × Text)

/-- Answer with as many tokens as fit, and keep the others. -/
def page (ide : Ide σ) (rc : Nat) (esc : Text) : Ide σ × Int × Text :=
  let n := fitLength chunk (tokens esc) 0
  ({ ide with rest := esc.drop n }, 0, envelope rc (esc.drop n).length (esc.take n))

/-- One ARexx command: its return code and its result. `run` is a command of the application. -/
def arexx (ide : Ide σ) (command : Text) : Ide σ × Int × Text :=
  let word := command.before ' '
  if word = "MCPMORE".toList then ide.page chunk 0 ide.rest
  else if word ≠ "MCP".toList then (ide, 0, "classic".toList)
  else
    let (app, rc, payload) := run ide.app ((command.after? ' ').getD [])
    page chunk { ide with app := app } rc (escape false payload)

end Ide

/-! ### The way to it -/

/-- What the surroundings do: the time stamps of the host, and the events of other commands that
arrive while the answer to the `n`th message is awaited. -/
structure Surroundings where
  hasDbg : Bool
  now : Text
  others : Nat → List Event
  /-- Of the events that `_arexx` subscribes to, the others are errors of other commands. -/
  unrelated : ∀ n, ∀ e ∈ others n, e.name = "err" ∧
    e.data.hasText "context" "AREXX".toList = false

/-- The far end, and how many messages it has had. -/
structure World (σ : Type) where
  ide : Ide σ
  asked : Nat

variable {σ : Type} (chunk : Nat) (run : σ → Text → σ × Nat × Text) (env : Surroundings)
  (port : Text)

/-- The ARexx command that the daemon reads off the line of an AREXXSEND. -/
def sentCommand (command : Text) : Option Text :=
  match send true [("type", .str "AREXXSEND".toList), ("port", .str port),
    ("command", .str command)] with
  | .ok bytes =>
    match (Daemon.receive [] bytes).2 with
    | [.executed "AREXXSEND" [.text _, .text command]] => some command
    | _ => none
  | .error _ => none

/-- The events that the answer of an ARexx command publishes. -/
def answerEvents (rc : Int) (result : Text) : List Event :=
  (cleanLine (Arexx.resultLine rc result)).toList.flatMap (published env.hasDbg env.now)

/-- A message to the IDE and the events until its answer. -/
def ask (w : World σ) (command : Text) : World σ × List Event :=
  match sentCommand port command with
  | some command =>
    let (ide, rc, result) := w.ide.arexx chunk run command
    (⟨ide, w.asked + 1⟩, env.others w.asked ++ answerEvents env rc result)
  | none => (⟨w.ide, w.asked + 1⟩, env.others w.asked)

/-- A port that an AREXXSEND can name. -/
structure PortName (port : Text) : Prop where
  length : port.length ≤ 63
  clean : ∀ c ∈ port, c.toNat < 0x100 ∧ c ≠ '|' ∧ c ≠ '\n' ∧ c ≠ '\r' ∧ c ≠ CText.nul

/-- A command that a line can hold. -/
structure Carried (command : Text) : Prop where
  ne_nil : command ≠ []
  length : command.length ≤ 8000
  sendable : ∀ c ∈ command, Sendable c

section

variable {port}

theorem sentCommand_eq (hport : PortName port) {command : Text} (hcommand : Carried command) :
    sentCommand port command = some command := by
  have hrequest : formatCommand [("type", .str "AREXXSEND".toList), ("port", .str port),
      ("command", .str command)] = .ok ("AREXXSEND".toList ++ '|' :: (port ++ '|' :: command)) := by
    have hrequested : requested [("type", .str "AREXXSEND".toList), ("port", .str port),
        ("command", .str command)] = .ok ("AREXXSEND", [.str port, .str command]) := rfl
    rw [formatCommand, hrequested]
    change Except.ok (Text.joinBar ["AREXXSEND".toList, port, command]) = _
    rw [CommandFraming.joinBar_cons _ (List.cons_ne_nil _ _),
      CommandFraming.joinBar_cons _ (List.cons_ne_nil _ _), Text.joinBar,
      List.intercalate_singleton]
  have hchars : ∀ c ∈ "AREXXSEND".toList ++ '|' :: (port ++ '|' :: command),
      c.toNat < 0x100 ∧ c ≠ '\n' ∧ c ≠ '\r' ∧ c ≠ CText.nul := by
    intro c hc
    rw [List.mem_append, List.mem_cons, List.mem_append, List.mem_cons] at hc
    rcases hc with hc | rfl | hc | rfl | hc
    · exact (by decide : ∀ c ∈ "AREXXSEND".toList, c.toNat < 0x100 ∧ c ≠ '\n' ∧ c ≠ '\r' ∧
        c ≠ CText.nul) c hc
    · decide
    · obtain ⟨hlatin, -, hclean⟩ := hport.clean c hc
      exact ⟨hlatin, hclean⟩
    · decide
    · obtain ⟨hlow, hhigh, -⟩ := hcommand.sendable c hc
      refine ⟨by omega, ?_, ?_, ?_⟩ <;> rintro rfl <;> exact absurd hlow (by decide)
  have hencode : encode ("AREXXSEND".toList ++ '|' :: (port ++ '|' :: command)) =
      .ok ("AREXXSEND".toList ++ '|' :: (port ++ '|' :: command) ++ ['\n']) :=
    if_pos (List.all_eq_true.mpr fun c hc => decide_eq_true (hchars c hc).1)
  have hlen : ("AREXXSEND".toList ++ '|' :: (port ++ '|' :: command)).length < maxLine := by
    have hname : "AREXXSEND".toList.length = 9 := rfl
    have hmax : maxLine = 8192 := rfl
    have hport := hport.length
    have hcommand := hcommand.length
    simp only [List.length_append, List.length_cons, hname, hmax]
    omega
  have hbar : '|' ∉ port := fun hmem => (hport.clean _ hmem).2.1 rfl
  have hhandler : handlerOf "AREXXSEND".toList =
      some ("AREXXSEND", 2, [.text 63 (some 63), .rest none]) := rfl
  have hfields : readFields [.text 63 (some 63), .rest none] (port ++ '|' :: command) =
      some [.text port, .text command] := by
    have hmem : '|' ∈ port ++ '|' :: command := List.mem_append_right _ List.mem_cons_self
    simp only [readFields, Cut.read, Cut.isLast, Bool.false_eq_true, if_false, if_pos hmem,
      Text.before_append hbar, List.take_of_length_le hport.length, Text.after?_append hbar,
      if_true, Option.map_some, capped]
  have hcount : ¬ (port ++ '|' :: command).count '|' + 1 < 2 := by
    rw [List.count_append, List.count_cons_self]
    omega
  have hrun :
      (Daemon.receive [] ("AREXXSEND".toList ++ '|' :: (port ++ '|' :: command) ++ ['\n'])).2 =
      [.executed "AREXXSEND" [.text port, .text command]] := by
    rw [receive_line (fun c hc => (hchars c hc).2) (by simp) hlen]
    simp only
    rw [protocolParseLine_append (by decide) (by decide), Daemon.dispatch, hhandler]
    simp only [hcount, if_false, hfields]
  unfold sentCommand send
  rw [if_pos rfl, hrequest, ok_bind, hencode]
  simp only [hrun]

end

/-! ### An envelope -/

section

variable (quoted : Text → Text)

theorem pyInt_decimal {n : Nat} (h : n < 2 ^ 32) : Py.int 10 (decimal n) = .ok n := by
  have hlen : (Nat.toDigits 10 n).length ≤ 10 := length_decimal_le h
  have hint := Py.int_toDigits (b := 10) (n := n) (by decide) (by decide) 0
    fun _ => by simpa using hlen.trans (by decide)
  rwa [List.replicate_zero, List.nil_append] at hint

theorem blank_notMem_decimal (n : Nat) : ' ' ∉ decimal n := by
  intro h
  exact absurd (CNumber.isDigit_of_mem_toDigits h) (by decide)

/-- An envelope is read as it was meant, whatever blanks its page ends with. -/
theorem parseEnvelope_rstrip {rc more : Nat} {page : Text} (hrc : rc < 2 ^ 32)
    (hmore : more < 2 ^ 32) (hlen : page.length < 2 ^ 32)
    (hblank : ∀ c ∈ page, Py.isSpace c = true → c = ' ') :
    parseEnvelope quoted (Py.rstrip (envelope rc more page)) =
      .ok (rc, more, unescape page) := by
  have hdigit : ∀ n, ∀ c ∈ decimal n, Py.isSpace c = false := fun n c hc =>
    Py.isSpace_of_isDigit (CNumber.isDigit_of_mem_toDigits hc)
  have hnumber := rstrip_eq_self (hdigit page.length)
  have hcut : Py.rstrip (envelope rc more page) = "AF1 ".toList ++ (decimal rc ++ ' ' ::
      (decimal more ++ ' ' :: (decimal page.length ++
        if Py.rstrip page = [] then [] else ' ' :: Py.rstrip page))) := by
    have hfront : ∀ s : Text, Py.rstrip s ≠ [] →
        Py.rstrip ("AF1 ".toList ++ (decimal rc ++ ' ' :: (decimal more ++ ' ' :: s))) =
          "AF1 ".toList ++ (decimal rc ++ ' ' :: (decimal more ++ ' ' :: Py.rstrip s)) := by
      intro s hs
      have hjoin : ∀ s : Text, "AF1 ".toList ++ (decimal rc ++ ' ' :: (decimal more ++ ' ' :: s)) =
          ("AF1 ".toList ++ decimal rc ++ [' '] ++ decimal more ++ [' ']) ++ s := by
        intro s
        generalize "AF1 ".toList = name
        simp only [List.append_assoc, List.cons_append, List.nil_append]
      rw [hjoin, hjoin, rstrip_append hs]
    have hnumberNe : Py.rstrip (decimal page.length) ≠ [] := by
      rw [hnumber]
      exact Nat.toDigits_ne_nil
    split
    · next hnil =>
      have hblankPage : Py.rstrip (' ' :: page) = [] := by
        rw [← List.singleton_append, rstrip_append_blank page hnil]
        rfl
      have hend : Py.rstrip (decimal page.length ++ ' ' :: page) = decimal page.length := by
        rw [rstrip_append_blank _ hblankPage, hnumber]
      unfold envelope
      rw [hfront _ (by rw [hend]; exact Nat.toDigits_ne_nil), hend, List.append_nil]
    · next hne =>
      have hend : Py.rstrip (decimal page.length ++ ' ' :: page) =
          decimal page.length ++ ' ' :: Py.rstrip page := by
        rw [← List.singleton_append, ← List.append_assoc, rstrip_append hne, List.append_assoc,
          List.singleton_append]
      unfold envelope
      rw [hfront _ (by rw [hend]; simp), hend]
  rw [hcut]
  refine parseEnvelope_fields quoted (blank_notMem_decimal rc) (blank_notMem_decimal more)
    (blank_notMem_decimal _) (pyInt_decimal hrc) (pyInt_decimal hmore) (pyInt_decimal hlen)
    (rstrip_padded hblank) ?_
  split
  · next hnil => exact .inr ⟨rfl, hnil⟩
  · exact .inl rfl

end

/-! ### An answer -/

/-- The message of an answer without an error. -/
def resultMsg (result : Text) : Dict :=
  [("type", .str "AREXXRESULT".toList), ("rc", .int 0), ("result", .str result)]

/-- A result that comes through the line as it is, up to the blanks at its end. -/
structure Transparent (result : Text) : Prop where
  length : result.length ≤ maxLine - 65
  sendable : ∀ c ∈ result, Sendable c

section

variable {env port} {result : Text}

theorem parseMessage_arexxresult (now : Text) {r : Text} (hbar : '|' ∉ r) :
    parseMessage now ("AREXXRESULT".toList ++ '|' :: ('0' :: '|' :: r)) =
      .ok (some (resultMsg r)) := by
  have hbranch : branchOf "AREXXRESULT".toList =
      some (.guarded fun _ _ p => parseArexxresult p) := rfl
  have hzero : ('0' :: '|' :: r).splitOn '|' = ['0'] :: [r] := by
    rw [← List.singleton_append, Text.splitOn_field (by decide), List.splitOn_eq_singleton hbar]
  have hrest : rest ["AREXXRESULT".toList, ['0'], r] 2 = r :=
    (List.intercalate_singleton : ['|'].intercalate [r] = r)
  rw [parseMessage, Text.splitOn_field (by decide), hzero]
  simp only [List.headD_cons, hbranch, Branch.run, parseArexxresult, hrest]
  rfl

theorem published_arexxresult {r : Text} (hbar : '|' ∉ r) :
    published env.hasDbg env.now ("AREXXRESULT".toList ++ '|' :: ('0' :: '|' :: r)) =
      [⟨"arexxresult", resultMsg r⟩] :=
  published_of_parse (parseMessage_arexxresult env.now hbar) rfl

theorem answerEvents_eq (h : Transparent result) :
    answerEvents env 0 result = [⟨"arexxresult", resultMsg (Py.rstrip result)⟩] := by
  have hclean : (result.take (maxLine - 65)).map Arexx.sanitized = result := by
    rw [List.take_of_length_le h.length]
    refine (List.map_congr_left fun c hc => ?_).trans (List.map_id result)
    obtain ⟨hlow, hhigh, hbar⟩ := h.sendable c hc
    have hsigned : ¬ (CText.signed c < 0x20 ∧ c ≠ CText.nul) := by
      rw [CText.signed, if_pos (by omega)]
      omega
    rw [Arexx.sanitized, if_neg ?_, if_neg hsigned, id]
    rintro (rfl | rfl | rfl)
    · exact hbar rfl
    · exact absurd hlow (by decide)
    · exact absurd hlow (by decide)
  have hline : Arexx.resultLine 0 result =
      'A' :: ("REXXRESULT".toList ++ '|' :: ['0']) ++ '|' :: result := by
    unfold Arexx.resultLine
    rw [if_pos rfl, hclean]
    rfl
  have hstrip : Py.strip ('A' :: ("REXXRESULT".toList ++ '|' :: ['0']) ++ '|' :: result) =
      'A' :: ("REXXRESULT".toList ++ '|' :: ['0']) ++ '|' :: Py.rstrip result := by
    rw [Py.strip, List.cons_append, Text.stripBy_cons (by decide), ← List.cons_append,
      Text.rstripBy_append_cons (by decide)]
    rfl
  have hbar : '|' ∉ Py.rstrip result := fun hmem =>
    (h.sendable _ ((Text.rstripBy_isPrefix _ _).subset hmem)).2.2 rfl
  have hfilter : ('A' :: ("REXXRESULT".toList ++ '|' :: ['0']) ++ '|' :: Py.rstrip result).filter
      plain = 'A' :: ("REXXRESULT".toList ++ '|' :: ['0']) ++ '|' :: Py.rstrip result := by
    have hname : ∀ c ∈ 'A' :: ("REXXRESULT".toList ++ '|' :: ['0']), plain c = true := by decide
    rw [List.filter_eq_self]
    intro c hc
    rcases List.mem_append.mp hc with hc | hc
    · exact hname c hc
    · rcases List.mem_cons.mp hc with rfl | hc
      · decide
      · have hlow := (h.sendable c ((Text.rstripBy_isPrefix _ _).subset hc)).1
        rw [plain, decide_eq_true hlow, Bool.true_or]
  have hne : 'A' :: ("REXXRESULT".toList ++ '|' :: ['0']) ++ '|' :: Py.rstrip result ≠ [] :=
    List.append_ne_nil_of_right_ne_nil _ (List.cons_ne_nil _ _)
  unfold answerEvents
  rw [hline, cleanLine_eq, hstrip, hfilter, if_neg hne]
  exact (List.append_nil _).trans (published_arexxresult hbar)

/-- The errors of other commands are passed over. -/
theorem answer_append {others events : List Event} (h : ∀ e ∈ others, e.name = "err" ∧
    e.data.hasText "context" "AREXX".toList = false) :
    answer port (others ++ events) = answer port events := by
  induction others with
  | nil => rfl
  | cons e others ih =>
    obtain ⟨hname, hcontext⟩ := h e List.mem_cons_self
    rw [List.cons_append, answer, if_pos hname, hcontext, if_neg Bool.false_ne_true]
    exact ih fun e he => h e (List.mem_cons_of_mem _ he)

end

/-! ### Pages -/

section

variable {chunk port} (quoted : Text → Text) (ide : Ide σ)

theorem eq_blank {c : Char} (h : Sendable c) (hspace : Py.isSpace c = true) : c = ' ' := by
  obtain ⟨hlow, hhigh, -⟩ := h
  have hmem := of_decide_eq_true hspace
  have hnat : c.toNat = ' '.toNat := by
    have hblank : ' '.toNat = 0x20 := rfl
    simp only [List.mem_cons, List.not_mem_nil, or_false] at hmem
    omega
  exact Char.toNat_inj.mp hnat

theorem sendable_of_isDigit {c : Char} (h : c.isDigit = true) : Sendable c := by
  have hzero : '0'.toNat = 48 := rfl
  have hnine : '9'.toNat = 57 := rfl
  rw [Char.isDigit_iff_toNat] at h
  refine ⟨by omega, by omega, ?_⟩
  rintro rfl
  exact absurd h (by decide)

theorem transparent_envelope {rc more : Nat} {page : Text} (hrc : rc < 2 ^ 32)
    (hmore : more < 2 ^ 32) (hlen : page.length ≤ 8000) (hpage : ∀ c ∈ page, Sendable c) :
    Transparent (envelope rc more page) := by
  have hname : "AF1 ".toList.length = 4 := rfl
  have hchars : ∀ c ∈ "AF1 ".toList, 0x20 ≤ c.toNat ∧ c.toNat < 0x7f ∧ c ≠ '|' := by decide
  have hmax : maxLine = 8192 := rfl
  have hblank : Sendable ' ' := ⟨by decide, by decide, by decide⟩
  have hdecimal : ∀ n, ∀ c ∈ decimal n, Sendable c := fun n c hc =>
    sendable_of_isDigit (CNumber.isDigit_of_mem_toDigits hc)
  unfold envelope
  constructor
  · have hr := length_decimal_le hrc
    have hm := length_decimal_le hmore
    have hn := length_decimal_le (by omega : page.length < 2 ^ 32)
    simp only [List.length_append, List.length_cons, hname, hmax]
    omega
  · intro c hc
    simp only [List.mem_append, List.mem_cons] at hc
    rcases hc with hc | hc | rfl | hc | rfl | hc | rfl | hc
    · exact hchars c hc
    · exact hdecimal rc c hc
    · exact hblank
    · exact hdecimal more c hc
    · exact hblank
    · exact hdecimal _ c hc
    · exact hblank
    · exact hpage c hc

/-- A page of an escaped text holds its first characters, and at least one of them. -/
theorem page_escape (hchunk : 4 ≤ chunk) (rc : Nat) (text : Text) : ∃ k ≤ text.length,
    ide.page chunk rc (escape false text) =
      ({ ide with rest := escape false (text.drop k) }, 0,
        envelope rc (escape false (text.drop k)).length (escape false (text.take k))) ∧
      (escape false (text.take k)).length ≤ chunk ∧ (text ≠ [] → k ≠ 0) ∧
      (k < text.length → chunk < (escape false (text.take k)).length + 4) := by
  obtain ⟨k, hk, hfit, hle, hmore⟩ := fitLength_escape chunk false text 0 (Nat.zero_le _)
  rw [Nat.zero_add] at hfit hle hmore
  have hsplit : escape false text = escape false (text.take k) ++ escape false (text.drop k) := by
    rw [← escape_append, List.take_append_drop]
  refine ⟨k, hk, ?_, hle, fun hne hzero => ?_, hmore⟩
  · rw [Ide.page, tokens_escape, hfit]
    nth_rewrite 1 2 3 [hsplit]
    rw [List.drop_left, List.take_left]
  · subst hzero
    have hover := hmore (List.length_pos_iff.mpr hne)
    have hnil : (escape false (text.take 0)).length = 0 := rfl
    omega

/-- A message that is answered with an envelope. -/
theorem exchange_eq (failed : Int → AmiForgeError) (hport : PortName port) (w : World σ)
    {command : Text} (hcommand : Carried command) {ide : Ide σ} {rc more : Nat} {page : Text}
    (hide : w.ide.arexx chunk run command = (ide, 0, envelope rc more page)) (hrc : rc < 2 ^ 32)
    (hmore : more < 2 ^ 32) (hlen : page.length ≤ 8000) (hpage : ∀ c ∈ page, Sendable c) :
    exchange quoted (ask chunk run env port) port failed w command =
      (⟨ide, w.asked + 1⟩, .ok (rc, more, unescape page)) := by
  have htransparent := transparent_envelope hrc hmore hlen hpage
  have hblank : ∀ c ∈ page, Py.isSpace c = true → c = ' ' := fun c hc hspace =>
    eq_blank (hpage c hc) hspace
  have hanswer : answer port (env.others w.asked ++ answerEvents env 0 (envelope rc more page)) =
      .ok (0, Py.rstrip (envelope rc more page)) := by
    rw [answer_append (env.unrelated w.asked), answerEvents_eq htransparent]
    rfl
  have hask : ask chunk run env port w command = (⟨ide, w.asked + 1⟩,
      env.others w.asked ++ answerEvents env 0 (envelope rc more page)) := by
    rw [ask, sentCommand_eq hport hcommand]
    simp only [hide]
  rw [exchange, hask]
  simp only [hanswer, ne_eq, not_true_eq_false, if_false,
    parseEnvelope_rstrip quoted hrc hmore (by omega : page.length < 2 ^ 32) hblank]

/-- Names of words that are sent. -/
theorem carried_mcpmore : Carried "MCPMORE".toList := by
  have hchars : ∀ c ∈ "MCPMORE".toList, 0x20 ≤ c.toNat ∧ c.toNat < 0x7f ∧ c ≠ '|' := by decide
  exact ⟨by decide, by decide, hchars⟩

/-- The pages that are left are fetched one by one, as many as the rest of the reply has. -/
theorem morePages_eq (hport : PortName port) (hlow : 4 ≤ chunk) (hhigh : chunk ≤ 8000) (left : Nat) :
    ∀ (text before : Text) (w : World σ), w.ide.rest = escape false text →
      (escape false text).length ≤ left * (chunk - 3) → (escape false text).length < 2 ^ 32 →
      ∃ w' : World σ, w'.ide = ⟨[], w.ide.app⟩ ∧
        morePages quoted (ask chunk run env port) port left (escape false text).length before w =
          (w', .ok (before ++ text.map latin)) := by
  induction left with
  | zero =>
    intro text before w hrest hlen _
    have htext : escape false text = [] := List.length_eq_zero_iff.mp (by omega)
    rw [htext] at hrest
    refine ⟨w, by rw [← hrest], ?_⟩
    rw [htext, escape_eq_nil.mp htext, morePages]
    exact (if_pos le_rfl).trans (by rw [List.map_nil, List.append_nil])
  | succ left ih =>
    intro text before w hrest hlen hword
    by_cases htext : text = []
    · subst htext
      have hnil : escape false [] = [] := rfl
      rw [hnil] at hrest
      refine ⟨w, by rw [← hrest], ?_⟩
      rw [hnil, morePages]
      exact (if_pos le_rfl).trans (by rw [List.map_nil, List.append_nil])
    · obtain ⟨k, hk, hpage, hle, hpos, hmore⟩ :=
        page_escape w.ide hlow 0 text
      have hsplit : (escape false text).length =
          (escape false (text.take k)).length + (escape false (text.drop k)).length := by
        rw [← List.length_append, ← escape_append, List.take_append_drop]
      have harexx : w.ide.arexx chunk run "MCPMORE".toList =
          ({ w.ide with rest := escape false (text.drop k) }, 0,
            envelope 0 (escape false (text.drop k)).length (escape false (text.take k))) := by
        rw [← hpage, ← hrest]
        rfl
      have hexchange := exchange_eq run env quoted moreFailed hport w carried_mcpmore harexx
        (by decide) (by omega) (by omega) fun c hc => (sendable_escape hc).1
      rw [unescape_escape] at hexchange
      have hpositive : ¬ ((escape false text).length : Int) ≤ 0 := by
        have hne : escape false text ≠ [] := fun h => htext (escape_eq_nil.mp h)
        have := List.length_pos_iff.mpr hne
        omega
      have hchunk : (text.take k).map latin ≠ [] := by
        intro hnil
        rcases List.take_eq_nil_iff.mp (List.map_eq_nil_iff.mp hnil) with hzero | hnil
        · exact hpos htext hzero
        · exact htext hnil
      have hremaining : (escape false (text.drop k)).length ≤ left * (chunk - 3) := by
        by_cases hlast : k < text.length
        · have := hmore hlast
          rw [Nat.succ_mul] at hlen
          omega
        · rw [List.drop_eq_nil_of_le (not_lt.mp hlast)]
          exact Nat.zero_le _
      obtain ⟨w', hw', hrun⟩ := ih (text.drop k) (before ++ (text.take k).map latin)
        ⟨{ w.ide with rest := escape false (text.drop k) }, w.asked + 1⟩ rfl hremaining (by omega)
      refine ⟨w', hw', ?_⟩
      rw [morePages, if_neg hpositive, hexchange]
      simp only [hchunk, false_and, if_false]
      rw [hrun, List.append_assoc, ← List.map_append, List.take_append_drop]

theorem arexx_mcp {command : Text} {app : σ} {rc : Nat} {payload : Text}
    (hrun : run ide.app command = (app, rc, payload)) :
    ide.arexx chunk run ("MCP ".toList ++ command) =
      Ide.page chunk { ide with app := app } rc (escape false payload) := by
  have hname : ' ' ∉ "MCP".toList := by decide
  have hjoin : "MCP ".toList ++ command = "MCP".toList ++ ' ' :: command := rfl
  have hne : "MCP".toList ≠ "MCPMORE".toList := by decide
  unfold Ide.arexx
  rw [hjoin, Text.before_append hname, Text.after?_append hname]
  dsimp only
  rw [if_neg hne, if_neg (not_not.mpr rfl), Option.getD_some, hrun]

/-- What a command of the application is to be reported as: its payload up to the characters outside
Latin-1, as the result or, with another return code than zero, as an error. -/
def reported (rc : Nat) (payload : Text) : Except AmiForgeError Text :=
  if rc = 0 then .ok (payload.map latin)
  else .error ⟨if payload = [] then "command failed (RC ".toList ++ Py.str rc ++ [')']
    else payload.map latin, rc, false⟩

theorem callUnlocked_eq (hport : PortName port) (hlow : 4 ≤ chunk) (hhigh : chunk ≤ 8000)
    (w : World σ) {command : Text} (hcommand : Carried ("MCP ".toList ++ command)) {app : σ}
    {rc : Nat} {payload : Text} (hrun : run w.ide.app command = (app, rc, payload))
    (hrc : rc < 2 ^ 32) (hpages : (escape false payload).length ≤ maxPages * (chunk - 3)) :
    ∃ w' : World σ, w'.ide = ⟨[], app⟩ ∧
      callUnlocked quoted (ask chunk run env port) port w command =
        (w', reported rc payload) := by
  obtain ⟨k, hk, hpage, hle, hpos, hmore⟩ :=
    page_escape { w.ide with app := app } hlow rc payload
  have hsplit : (escape false payload).length =
      (escape false (payload.take k)).length + (escape false (payload.drop k)).length := by
    rw [← List.length_append, ← escape_append, List.take_append_drop]
  have hmax : maxPages = 1000 := rfl
  rw [hmax] at hpages
  have harexx := (arexx_mcp run w.ide hrun).trans hpage
  have hexchange := exchange_eq run env quoted (rejected port) hport w hcommand harexx hrc
    (by omega) (by omega) fun c hc => (sendable_escape hc).1
  rw [unescape_escape] at hexchange
  obtain ⟨w', hw', hrest⟩ := morePages_eq run env quoted hport hlow hhigh maxPages
    (payload.drop k) ((payload.take k).map latin)
    ⟨{ w.ide with rest := escape false (payload.drop k), app := app }, w.asked + 1⟩ rfl
    (by rw [hmax]; omega) (by omega)
  refine ⟨w', hw', ?_⟩
  rw [← List.map_append, List.take_append_drop] at hrest
  rw [callUnlocked, hexchange, reported]
  simp only [hrest, List.map_eq_nil_iff]
  by_cases hzero : rc = 0
  · subst hzero
    rfl
  · have hne : (rc : Int) ≠ 0 := by omega
    rw [if_pos hne, if_neg hzero]


/-- Calls one after the other. -/
def session (quoted : Text → Text) (ask : σ → Text → σ × List Event) (port : Text) (s : σ) :
    List Text → σ × List (Except AmiForgeError Text)
  | [] => (s, [])
  | command :: commands =>
    let (s, result) := callUnlocked quoted ask port s command
    let (s, results) := session quoted ask port s commands
    (s, result :: results)

/-- The same commands given to the application itself. -/
def direct (run : σ → Text → σ × Nat × Text) (app : σ) :
    List Text → σ × List (Except AmiForgeError Text)
  | [] => (app, [])
  | command :: commands =>
    let (app, rc, payload) := run app command
    let (app, results) := direct run app commands
    (app, reported rc payload :: results)

/-- A sequence of calls does to the application what the commands do to it, and each call reports
what its own command was answered with, in however many pages, whatever was left of an earlier
reply and whatever errors of other commands arrive in between. -/
theorem session_eq_direct (hport : PortName port) (hlow : 4 ≤ chunk) (hhigh : chunk ≤ 8000)
    (hanswers : ∀ app command, (run app command).2.1 < 2 ^ 32 ∧
      (escape false (run app command).2.2).length ≤ maxPages * (chunk - 3))
    {commands : List Text} (hcommands : ∀ command ∈ commands, Carried ("MCP ".toList ++ command))
    (w : World σ) :
    (session quoted (ask chunk run env port) port w commands).1.ide.app =
        (direct run w.ide.app commands).1 ∧
      (session quoted (ask chunk run env port) port w commands).2 =
        (direct run w.ide.app commands).2 := by
  induction commands generalizing w with
  | nil => exact ⟨rfl, rfl⟩
  | cons command commands ih =>
    obtain ⟨hrc, hpages⟩ := hanswers w.ide.app command
    obtain ⟨w', hw', hcall⟩ := callUnlocked_eq run env quoted hport hlow hhigh w
      (hcommands command List.mem_cons_self) (Prod.ext rfl (Prod.ext rfl rfl)) hrc hpages
    obtain ⟨happ, hresults⟩ := ih (fun c hc => hcommands c (List.mem_cons_of_mem _ hc)) w'
    rw [hw'] at happ hresults
    simp only [session, direct, hcall, happ, hresults, and_self]

/-- `DEFAULT_PORT`. -/
def defaultPort : Text := "AMIFORGE".toList

theorem portName_defaultPort : PortName defaultPort := by
  have hclean : ∀ c ∈ defaultPort, c.toNat < 0x100 ∧ c ≠ '|' ∧ c ≠ '\n' ∧ c ≠ '\r' ∧
      c ≠ CText.nul := by decide
  exact ⟨by decide, hclean⟩

/-- Surroundings in which nothing else is sent. -/
def quiet : Surroundings := ⟨true, [], fun _ => [], nofun⟩

/-- An application that answers every command with the same text. -/
def fixed (payload : Text) (_ : Unit) (_ : Text) : Unit × Nat × Text := ((), 0, payload)

/-- A text of several pages, the first of them after what was left of another reply. -/
theorem session_eq_direct_pages :
    (session id (ask 5 (fixed "a|b  c".toList) quiet defaultPort) defaultPort
      ⟨⟨"old".toList, ()⟩, 0⟩ ["GETSTATE".toList]).2 = [.ok "a|b  c".toList] := by
  have hcarried : Carried ("MCP ".toList ++ "GETSTATE".toList) := by
    have hchars : ∀ c ∈ "MCP ".toList ++ "GETSTATE".toList,
        0x20 ≤ c.toNat ∧ c.toNat < 0x7f ∧ c ≠ '|' := by decide
    exact ⟨by decide, by decide, hchars⟩
  have hlow : 4 ≤ 5 := by decide
  have hlength : (escape false "a|b  c".toList).length ≤ maxPages * (5 - 3) := by decide
  have hzero : 0 < 2 ^ 32 := by decide
  exact (session_eq_direct (fixed "a|b  c".toList) quiet id portName_defaultPort hlow (by decide)
    (fun _ _ => ⟨hzero, hlength⟩) (List.forall_mem_singleton.mpr hcarried)
    ⟨⟨"old".toList, ()⟩, 0⟩).2

end

end AmigaDevbench.Amiforge
