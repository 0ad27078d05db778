import AmigaDevbench.Core.CText
import AmigaDevbench.Host.GdbRegisters

/-!
# Stop replies of a remote debugger

A session puts the GDB server, the lines on their way to the daemon, the target and the DBGSTOP
messages on their way back next to each other. The debugger client sends its resume packets (`c`,
`s`, an interrupt) one at a time. A stop reply comes from the event forwarder for every DBGSTOP,
from the handler of `s` and from the handler of an interrupt; `Answered` says that each resume
packet gets exactly one of them, behind the stop of the target.
-/

namespace AmigaDevbench.GdbStops

open Gdb

/-- The target as the daemon sees it. -/
inductive Target where
  | detached
  | stopped
  | running
  deriving DecidableEq, Repr

/-- The server, the daemon and what is on the way between them. The last four fields record what
happened: the packets and replies so far, whether the target has still to stop for the last
packet, and whether a reply was written before it did. -/
structure Session where
  gdb : Gdb
  target : Target
  todo : List Text
  flight : Nat
  resumes : Nat
  replies : Nat
  awaiting : Bool
  early : Bool

/-- What can happen next. -/
inductive Label where
  /-- The server takes a step of its own, or something other than a stop event reaches it. -/
  | server (label : GdbLabel)
  /-- The daemon takes the next line. -/
  | execute
  /-- The target stops, and the daemon reports it. -/
  | halt
  /-- A DBGSTOP reaches the host. -/
  | deliver (msg : Dict)
  /-- A DBGSTOP that no packet of this client led to. -/
  | stray

/-- The lines in the bytes of one write. -/
def linesOf (bytes : Text) : List Text := (bytes.splitOn '\n').dropLast

/-- The command that the daemon reads off a line. -/
def commandOf (line : Text) : Text := (CText.cut (line.filter (· ≠ '\r'))).before '|'

/-- A line that makes a stopped target run. -/
def resumesTarget (line : Text) : Bool :=
  commandOf line ∈ ["DBGCONT".toList, "DBGSTEP".toList, "DBGNEXT".toList]

/-- A packet that makes the target run. -/
def startsTarget : Token → Bool
  | .packet ('c' :: _) | .packet ('s' :: _) => true
  | _ => false

/-- A packet that is to be answered with a stop reply. -/
def isResume (token : Token) : Bool := token = .interrupt || startsTarget token

/-- The server takes a token that satisfies the predicate. -/
def takes (p : Token → Bool) (g : Gdb) : GdbLabel → Bool
  | .handle => (nextToken g.buf).any fun next => p next.1
  | _ => false

/-- The server writes a stop reply. -/
def writesStop (g : Gdb) : GdbLabel → Bool
  | .handle => g.dbg.stopped && takes (· = .interrupt) g .handle
  | .resume _ =>
    match g.waiting with
    | some (.stop, _) => true
    | _ => false
  | .forward => true
  | _ => false

/-- A stop event reaches the server only as a delivered DBGSTOP. -/
def isStopEvent : GdbLabel → Bool
  | .arrive (.event e) => e.name = "dbg_stop"
  | _ => false

namespace Session

/-- The session when a client connects. -/
def start (target : Target) : Session := ⟨.initial true, target, [], 0, 0, 0, false, false⟩

/-- One step of the session. -/
def step (s : Session) : Label → Option Session
  | .server label =>
    if isStopEvent label then none
    else (s.gdb.step label).map fun g =>
      { s with
        gdb := g
        todo := s.todo ++ (g.sent.drop s.gdb.sent.length).flatMap linesOf
        resumes := s.resumes + (takes isResume s.gdb label).toNat
        replies := s.replies + (writesStop s.gdb label).toNat
        awaiting := s.awaiting || takes startsTarget s.gdb label
        early := s.early || writesStop s.gdb label && (s.awaiting || s.target = .running) }
  | .execute =>
    match s.todo with
    | [] => none
    | line :: todo =>
      some { s with
        todo := todo
        target :=
          if commandOf line = "DBGDETACH".toList then .detached
          else if resumesTarget line ∧ s.target = .stopped then .running
          else s.target }
  | .halt =>
    if s.target = .running then
      some { s with target := .stopped, flight := s.flight + 1, awaiting := false }
    else none
  | .deliver msg =>
    match s.flight with
    | 0 => none
    | flight + 1 => some { s with
        flight := flight
        gdb := (s.gdb.arrive (.stop msg)).arrive (.event ⟨"dbg_stop", msg⟩) }
  | .stray => some { s with flight := s.flight + 1 }

end Session

/-- Each resume packet is answered once, after the target stopped. -/
structure Answered (s : Session) : Prop where
  /-- No packet is answered twice. -/
  atMostOnce : s.replies ≤ s.resumes
  notEarly : s.early = false
  /-- When the target has stopped and nothing is on the way, every packet is answered. -/
  answered : s.awaiting = false → s.flight = 0 → s.gdb.stops = [] → s.replies = s.resumes
  /-- Until then the target runs or is about to, unless it was detached. -/
  underWay : s.awaiting = true →
    s.target ≠ .stopped ∨ ∃ line ∈ s.todo, resumesTarget line = true

/-- The client sends a resume packet when the last one is answered. -/
def OneAtATime (s : Session) : Label → Prop
  | .server label => takes isResume s.gdb label = true → s.replies = s.resumes
  | _ => True

/-- The data of an M packet contain no line that makes the target run. -/
def quietData (data : Text) : Bool :=
  match writeArgs data with
  | some (addr, hexData) =>
    (linesOf ("WRITEMEM|".toList ++ Py.hex32 addr ++ '|' :: hexData ++ ['\n'])).all
      fun line => !resumesTarget line
  | none => true

/-- The condition on a token: `s` is not used, `c` finds the link up and the target stopped with
no detach on the way, an interrupt finds the cached state stopped, and M carries no command. -/
def quiet (s : Session) : Token → Bool
  | .packet ('s' :: _) => false
  | .packet ('c' :: _) => s.gdb.connected && s.target = .stopped &&
      s.todo.all fun line => commandOf line ≠ "DBGDETACH".toList
  | .packet ('M' :: data) => quietData data
  | .interrupt => s.gdb.dbg.stopped
  | _ => true

/-- The condition on a step: the tokens are quiet, and the target stops only for a resume packet
of this client. -/
def Permitted (s : Session) (label : Label) : Prop :=
  OneAtATime s label ∧
    match label with
    | .server .handle => ∀ next ∈ nextToken s.gdb.buf, quiet s next.1 = true
    | .halt => s.awaiting = true
    | .stray => False
    | _ => True

section Lines

/-- A line without newline arrives as itself. -/
theorem linesOf_line {line : Text} (h : '\n' ∉ line) : linesOf (line ++ ['\n']) = [line] := by
  rw [linesOf, Text.splitOn_field h]
  rfl

theorem commandOf_name {name : Text} (hbar : '|' ∉ name) (hcr : '\r' ∉ name)
    (hnul : CText.nul ∉ name) : commandOf name = name := by
  have hfilter : name.filter (· ≠ '\r') = name := by
    rw [List.filter_eq_self]
    intro c hc
    exact decide_eq_true fun h => hcr (h ▸ hc)
  rw [commandOf, hfilter, CText.cut_eq_self hnul, Text.before_eq_self hbar]

/-- The command is cut off in front of the fields, whatever these are. -/
theorem commandOf_fields {name : Text} (hbar : '|' ∉ name) (hcr : '\r' ∉ name)
    (hnul : CText.nul ∉ name) (fields : Text) : commandOf (name ++ '|' :: fields) = name := by
  have hfilter : (name ++ '|' :: fields).filter (· ≠ '\r') =
      name ++ '|' :: fields.filter (· ≠ '\r') := by
    have hself : name.filter (· ≠ '\r') = name := by
      rw [List.filter_eq_self]
      intro c hc
      exact decide_eq_true fun h => hcr (h ▸ hc)
    rw [List.filter_append, hself]
    rfl
  have hcut : CText.cut (name ++ '|' :: fields.filter (· ≠ '\r')) =
      name ++ '|' :: CText.cut (fields.filter (· ≠ '\r')) := by
    have hstop : ∀ c ∈ name, (c != CText.nul) = true := Text.all_ne_of_notMem hnul
    unfold CText.cut Text.before
    rw [List.takeWhile_append_of_pos hstop]
    rfl
  rw [commandOf, hfilter, hcut, Text.before_append hbar]

/-- The name of a command: no separator and nothing that the daemon drops. -/
def PlainName (name : String) : Prop :=
  '|' ∉ name.toList ∧ '\r' ∉ name.toList ∧ '\n' ∉ name.toList ∧ CText.nul ∉ name.toList

theorem commandOf_named {names : List String} (hnames : ∀ name ∈ names, PlainName name)
    {line : Text} (h : Named names line) :
    (∃ name ∈ names, commandOf line = name.toList) ∧ '\n' ∉ line := by
  obtain ⟨name, hname, rfl | ⟨fields, hfields, rfl⟩⟩ := h
  · obtain ⟨hbar, hcr, hnewline, hnul⟩ := hnames name hname
    exact ⟨⟨name, hname, commandOf_name hbar hcr hnul⟩, hnewline⟩
  · obtain ⟨hbar, hcr, hnewline, hnul⟩ := hnames name hname
    refine ⟨⟨name, hname, commandOf_fields hbar hcr hnul fields⟩, ?_⟩
    simp only [List.mem_append, List.mem_cons, not_or]
    exact ⟨hnewline, by decide, hfields⟩

/-- Of the commands of the server, only DBGCONT and DBGSTEP make the target run. -/
theorem resumesTarget_named {line : Text}
    (h : Named ["DBGREGS", "DBGSETREG", "INSPECT", "BPSET", "BPCLEAR", "DBGDETACH", "DBGSTATUS",
      "DBGBT"] line) : resumesTarget line = false ∧ linesOf (line ++ ['\n']) = [line] := by
  have hplain : ∀ name ∈ ["DBGREGS", "DBGSETREG", "INSPECT", "BPSET", "BPCLEAR", "DBGDETACH",
      "DBGSTATUS", "DBGBT"], PlainName name ∧
        name.toList ∉ ["DBGCONT".toList, "DBGSTEP".toList, "DBGNEXT".toList] := by
    unfold PlainName
    decide
  obtain ⟨⟨name, hname, hcommand⟩, hnewline⟩ :=
    commandOf_named (fun name hname => (hplain name hname).1) h
  refine ⟨?_, linesOf_line hnewline⟩
  rw [resumesTarget, hcommand]
  exact decide_eq_false (hplain name hname).2

end Lines

section Packets

/-- Writing a response changes nothing else. -/
theorem respond_eq (g : Gdb) (response : Option Text) :
    ∃ out fate, g.respond response = { g with out := out, fate := fate } := by
  cases response with
  | none => exact ⟨g.out, g.fate, rfl⟩
  | some response =>
    simp only [respond]
    split
    · exact ⟨_, g.fate, rfl⟩
    · exact ⟨g.out, _, rfl⟩

/-- The packet loop behind a handler writes a response or starts a wait. -/
theorem settle_eq (r : Result) : ∃ out fate waiting,
    settle r = { r.1 with out := out, fate := fate, waiting := waiting } ∧
      (waiting = r.1.waiting ∨ ∃ w, r.2 = .ok (.wait w) ∧ waiting = some (w, [])) := by
  obtain ⟨g, x⟩ := r
  cases x with
  | error e => exact ⟨g.out, _, g.waiting, rfl, Or.inl rfl⟩
  | ok outcome =>
    cases outcome with
    | reply response =>
      obtain ⟨out, fate, heq⟩ := respond_eq g response
      exact ⟨out, fate, g.waiting, heq, Or.inl rfl⟩
    | wait w => exact ⟨g.out, g.fate, some (w, []), rfl, Or.inr ⟨w, rfl, rfl⟩⟩

theorem andThen_ne_stop {g : Gdb} {x : Except PyError Gdb} {next : Gdb → Result}
    (hnext : ∀ g', (next g').2 ≠ .ok (.wait .stop)) :
    (g.andThen x next).2 ≠ .ok (.wait .stop) := by
  cases x with
  | ok g' => exact hnext g'
  | error e => exact fun h => nomatch h

theorem writeRegs_ne_stop (rs : List (Fin 18)) : ∀ (g : Gdb) (hexData : Text),
    (g.writeRegs rs hexData).2 ≠ .ok (.wait .stop) := by
  induction rs with
  | nil =>
    intro g hexData h
    cases h
  | cons r rs ih =>
    intro g hexData
    rw [writeRegs]
    split
    · intro h
      cases h
    · exact andThen_ne_stop fun g' => ih _ _

theorem breakpointPacket_ne_stop (command : String) {w : Wait} (hw : w ≠ .stop) (g : Gdb)
    (data : Text) : (breakpointPacket command w g data).2 ≠ .ok (.wait .stop) := by
  rcases breakpointPacket_cases command w g data with ⟨_, _, heq⟩ | ⟨_, _, heq⟩
  · rw [heq]
    exact fun h => nomatch h
  · rw [heq]
    apply andThen_ne_stop
    intro g' h
    cases h
    exact hw rfl

/-- Only `s` waits for a stop. -/
theorem processPacket_ne_stop (g : Gdb) {data : Text} (h : ∀ rest, data ≠ 's' :: rest) :
    (g.processPacket data).2 ≠ .ok (.wait .stop) := by
  have hreply : ∀ (g' : Gdb) (response : Option Text),
      ((g', .ok (.reply response)) : Result).2 ≠ .ok (.wait .stop) := fun _ _ h => nomatch h
  have hwait : ∀ (g' : Gdb) (w : Wait), w ≠ .stop → (g'.await w).2 ≠ .ok (.wait .stop) := by
    intro g' w hw heq
    cases heq
    exact hw rfl
  unfold processPacket
  split
  · exact hreply _ _
  · exact hreply _ _
  · unfold readAllRegs
    split
    · exact hreply _ _
    · exact andThen_ne_stop fun g' => hwait g' _ (by decide)
  · unfold writeAllRegs
    split
    · exact hreply _ _
    · exact writeRegs_ne_stop _ g _
  · rw [readMemory_eq]
    split
    · split
      · exact fun heq => nomatch heq
      · exact andThen_ne_stop fun g' => hwait g' _ (fun heq => nomatch heq)
    · exact hreply _ _
  · rw [writeMemory_eq]
    split
    · exact andThen_ne_stop fun g' => hwait g' _ (fun heq => nomatch heq)
    · exact hreply _ _
  · exact absurd rfl (h _)
  · unfold continuePacket sendPc
    split
    · exact andThen_ne_stop fun g' => hreply _ _
    · split
      · exact andThen_ne_stop fun g' => andThen_ne_stop fun g'' => hreply _ _
      · exact andThen_ne_stop fun g' => hreply _ _
  · exact breakpointPacket_ne_stop _ (by decide) g _
  · exact breakpointPacket_ne_stop (w := .ok "BPCLEAR".toList) _ (fun heq => nomatch heq) g _
  · exact andThen_ne_stop fun g' => hreply _ _
  · exact andThen_ne_stop fun g' => hreply _ _
  · unfold readReg
    repeat' split
    all_goals exact fun heq => nomatch heq
  · rw [writeReg_eq]
    split
    · split
      · exact fun heq => nomatch heq
      · split
        · exact hreply _ _
        · apply andThen_ne_stop
          intro g'
          split
          · exact hreply _ _
          · exact fun heq => nomatch heq
    · exact hreply _ _
  · by_cases hmonitor : "qRcmd,".toList.isPrefixOf data = true
    · rw [query_monitor hmonitor]
      split
      · unfold monitorCommand
        split
        · exact andThen_ne_stop fun g' => hwait g' _ (by decide)
        · split
          · exact andThen_ne_stop fun g' => hwait g' _ (by decide)
          · exact hreply _ _
      · exact hreply _ _
    · obtain ⟨_, hquery⟩ := query_answer g hmonitor
      rw [hquery]
      exact hreply _ _

/-- With the link up, `c` sends a DBGCONT behind the optional address. -/
theorem continuePacket_eq {g : Gdb} (hconn : g.connected = true) (data : Text) :
    ∃ lines, (∀ line ∈ lines, Named ["DBGSETREG"] line) ∧
      g.processPacket ('c' :: data) =
        ({ g with sent := g.sent ++ (lines ++ ["DBGCONT".toList]).map (· ++ ['\n']) },
          .ok (.reply none)) := by
  have hcont : Latin "DBGCONT".toList := by decide
  change ∃ lines, _ ∧ g.sendPc data (fun g => g.andThen (g.sendRaw "DBGCONT".toList)
    fun g' => (g', .ok (.reply none))) = _
  have hsimple : g.andThen (g.sendRaw "DBGCONT".toList) (fun g' => (g', .ok (.reply none))) =
      ({ g with sent := g.sent ++ ([] ++ ["DBGCONT".toList]).map (· ++ ['\n']) },
        .ok (.reply none)) := by
    rw [andThen_sendRaw hcont, if_pos hconn]
    rfl
  unfold sendPc
  split
  · exact ⟨[], fun _ h => (List.not_mem_nil h).elim, hsimple⟩
  · split
    · next addr _ =>
      have hpc : Latin (setRegLine "PC".toList addr) := latin_setRegLine (by decide) addr
      refine ⟨[setRegLine "PC".toList addr], ?_, ?_⟩
      · intro line hline
        rw [List.mem_singleton.mp hline]
        exact named_setRegLine (by decide) (by decide) addr
      · have hlogged : (g.logged (setRegLine "PC".toList addr)).connected = true := hconn
        rw [andThen_sendRaw hpc, if_pos hconn, andThen_sendRaw hcont, if_pos hlogged]
        simp only [logged, List.map_append, List.map_cons, List.map_nil, List.append_assoc]
    · exact ⟨[], fun _ h => (List.not_mem_nil h).elim, hsimple⟩

end Packets

/-- What the packets sent, the lines on the way and the stops on the way add up to. -/
structure Inv (s : Session) : Prop where
  balance : s.replies + s.awaiting.toNat + s.flight + s.gdb.stops.length = s.resumes
  oneAtATime : s.resumes ≤ s.replies + 1
  notEarly : s.early = false
  running : s.target = .running → s.awaiting = true
  pending : ∀ line ∈ s.todo, resumesTarget line = true →
    s.awaiting = true ∧ s.target ≠ .running
  once : s.todo.countP resumesTarget ≤ 1
  underWay : s.awaiting = true →
    s.target ≠ .stopped ∨ ∃ line ∈ s.todo, resumesTarget line = true
  waiting : ∀ queue, s.gdb.waiting ≠ some (.stop, queue)

theorem Inv.answered {s : Session} (h : Inv s) : Answered s where
  atMostOnce := by
    have hbalance := h.balance
    omega
  notEarly := h.notEarly
  answered := by
    intro hawaiting hflight hstops
    have hbalance := h.balance
    rw [hawaiting, hflight, hstops] at hbalance
    exact hbalance
  underWay := h.underWay

/-- When every packet is answered, nothing is on the way. -/
theorem Inv.idle {s : Session} (h : Inv s) (heq : s.replies = s.resumes) :
    s.awaiting = false ∧ s.flight = 0 ∧ s.gdb.stops = [] ∧ s.target ≠ .running ∧
      ∀ line ∈ s.todo, resumesTarget line = false := by
  have hbalance := h.balance
  have hawaiting : s.awaiting = false := by
    cases hs : s.awaiting with
    | false => rfl
    | true =>
      rw [hs, Bool.toNat_true] at hbalance
      omega
  refine ⟨hawaiting, by omega, List.length_eq_zero_iff.mp (by omega), fun hrun => ?_,
    fun line hline => ?_⟩
  · exact absurd (h.running hrun) (by simp [hawaiting])
  · cases hres : resumesTarget line with
    | false => rfl
    | true => exact absurd (h.pending line hline hres).1 (by simp [hawaiting])

theorem inv_start {target : Target} (h : target ≠ .running) : Inv (.start target) where
  balance := rfl
  oneAtATime := Nat.zero_le _
  notEarly := rfl
  running := fun hrun => absurd hrun h
  pending := fun _ hline => (List.not_mem_nil hline).elim
  once := Nat.zero_le _
  underWay := fun hawaiting => nomatch hawaiting
  waiting := fun _ h => nomatch h

/-- Lines that make nothing run leave the accounts as they are. -/
theorem Inv.quietLines {s : Session} (h : Inv s) {g : Gdb} {lines : List Text}
    (hlines : ∀ line ∈ lines, resumesTarget line = false) (hstops : g.stops = s.gdb.stops)
    (hwaiting : ∀ queue, g.waiting ≠ some (.stop, queue)) :
    Inv { s with gdb := g, todo := s.todo ++ lines } where
  balance := by
    change s.replies + s.awaiting.toNat + s.flight + g.stops.length = s.resumes
    rw [hstops]
    exact h.balance
  oneAtATime := h.oneAtATime
  notEarly := h.notEarly
  running := h.running
  pending := by
    intro line hline hres
    rcases List.mem_append.mp hline with hline | hline
    · exact h.pending line hline hres
    · rw [hlines line hline] at hres
      cases hres
  once := by
    have hzero : lines.countP resumesTarget = 0 := by
      rw [List.countP_eq_zero]
      intro line hline hres
      rw [hlines line hline] at hres
      cases hres
    rw [List.countP_append, hzero]
    exact h.once
  underWay := by
    intro hawaiting
    rcases h.underWay hawaiting with hstopped | ⟨line, hline, hres⟩
    · exact Or.inl hstopped
    · exact Or.inr ⟨line, List.mem_append_left _ hline, hres⟩
  waiting := hwaiting

/-- The session behind a server step that takes no resume packet and writes no stop reply. -/
theorem step_quiet {s s' : Session} {label : GdbLabel}
    (hresume : takes isResume s.gdb label = false) (hstop : writesStop s.gdb label = false)
    (hstep : s.step (.server label) = some s') :
    isStopEvent label = false ∧ ∃ g, s.gdb.step label = some g ∧
      s' = { s with
        gdb := g
        todo := s.todo ++ (g.sent.drop s.gdb.sent.length).flatMap linesOf } := by
  have hstarts : takes startsTarget s.gdb label = false := by
    cases label with
    | handle =>
      simp only [takes] at hresume ⊢
      cases hnext : nextToken s.gdb.buf with
      | none => rfl
      | some next =>
        rw [hnext] at hresume
        simp only [Option.any_some, isResume, Bool.or_eq_false_iff] at hresume ⊢
        exact hresume.2
    | _ => rfl
  simp only [Session.step] at hstep
  split at hstep
  · cases hstep
  · next hevent =>
    obtain ⟨g, hg, heq⟩ := Option.map_eq_some_iff.mp hstep
    refine ⟨Bool.not_eq_true _ |>.mp hevent, g, hg, ?_⟩
    rw [← heq, hresume, hstop, hstarts]
    simp only [Bool.toNat_false, Nat.add_zero, Bool.or_false, Bool.false_and]

/-- What a step of the handler is made of. -/
theorem handle_eq {g g' : Gdb} (hstep : g.step .handle = some g') :
    ∃ token rest, nextToken g.buf = some (token, rest) ∧ g.waiting = none ∧
      g' = { g with buf := rest }.take token := by
  simp only [Gdb.step] at hstep
  split at hstep
  · next hready =>
    obtain ⟨⟨token, rest⟩, hnext, heq⟩ := Option.map_eq_some_iff.mp hstep
    exact ⟨token, rest, hnext, hready.2, heq.symm⟩
  · cases hstep

/-- A packet leaves the queue of the forwarder alone, sends the lines of its kind, and waits for
a stop only if it is an `s`. -/
theorem take_packet (g : Gdb) (data : Text) (hwaiting : g.waiting = none) :
    ∃ lines : List Text, (∀ line ∈ lines, SentFor data line) ∧
      (g.take (.packet data)).sent = g.sent ++ lines.map (· ++ ['\n']) ∧
      (g.take (.packet data)).stops = g.stops ∧
      ((∀ rest, data ≠ 's' :: rest) →
        ∀ queue, (g.take (.packet data)).waiting ≠ some (.stop, queue)) := by
  obtain ⟨regs, lines, hlines, hframe⟩ := frame_processPacket { g with out := g.out ++ [['+']] } data
  obtain ⟨out, fate, waiting, hsettle, hwait⟩ :=
    settle_eq ({ g with out := g.out ++ [['+']] }.processPacket data)
  have htake : g.take (.packet data) =
      settle ({ g with out := g.out ++ [['+']] }.processPacket data) := rfl
  refine ⟨lines, hlines, ?_, ?_, ?_⟩
  · rw [htake, hsettle, hframe]
  · rw [htake, hsettle, hframe]
  · intro hdata queue
    rw [htake, hsettle]
    change waiting ≠ _
    rcases hwait with rfl | ⟨w, hw, rfl⟩
    · rw [hframe]
      change g.waiting ≠ _
      rw [hwaiting]
      exact fun h => nomatch h
    · intro h
      cases h
      exact processPacket_ne_stop _ hdata hw

/-- The lines behind the ones sent before. -/
theorem newLines {sent : List Text} (lines : List Text) :
    ((sent ++ lines.map (· ++ ['\n'])).drop sent.length).flatMap linesOf =
      lines.flatMap fun line => linesOf (line ++ ['\n']) := by
  rw [List.drop_left, List.flatMap_map]

/-- A quiet packet that is no `c` makes nothing run. -/
theorem quiet_lines {s : Session} {data : Text} (hquiet : quiet s (.packet data) = true)
    (hc : ∀ rest, data ≠ 'c' :: rest) {lines : List Text} (hlines : ∀ line ∈ lines, SentFor data line) :
    ∀ line ∈ lines.flatMap fun line => linesOf (line ++ ['\n']), resumesTarget line = false := by
  intro line hline
  obtain ⟨entry, hentry, hline⟩ := List.mem_flatMap.mp hline
  have hsent := hlines entry hentry
  unfold SentFor at hsent
  split at hsent
  · obtain ⟨addr, hexData, hargs, rfl⟩ := hsent
    simp only [quiet, quietData, hargs] at hquiet
    have hnot := List.all_eq_true.mp hquiet line hline
    simpa using hnot
  · cases hquiet
  · exact absurd rfl (hc _)
  · obtain ⟨hres, hself⟩ := resumesTarget_named hsent
    rw [hself, List.mem_singleton] at hline
    rw [hline, hres]

/-- A step that sends quiet lines and answers nothing keeps the accounts. -/
theorem inv_quietStep {s s' : Session} {label : GdbLabel} (h : Inv s)
    (hresume : takes isResume s.gdb label = false) (hstop : writesStop s.gdb label = false)
    (hstep : s.step (.server label) = some s')
    (hgdb : ∀ g, s.gdb.step label = some g → ∃ lines : List Text,
      (∀ line ∈ lines.flatMap fun line => linesOf (line ++ ['\n']), resumesTarget line = false) ∧
      g.sent = s.gdb.sent ++ lines.map (· ++ ['\n']) ∧ g.stops = s.gdb.stops ∧
      ∀ queue, g.waiting ≠ some (.stop, queue)) : Inv s' := by
  obtain ⟨_, g, hg, rfl⟩ := step_quiet hresume hstop hstep
  obtain ⟨lines, hlines, hsent, hstops, hwaiting⟩ := hgdb g hg
  rw [hsent, newLines]
  exact h.quietLines hlines hstops hwaiting

/-- A `c` that finds everything answered and the target stopped is under way behind it. -/
theorem inv_continue {s s' : Session} (h : Inv s) {data rest : Text}
    (hnext : nextToken s.gdb.buf = some (.packet ('c' :: data), rest))
    (hone : s.replies = s.resumes) (hquiet : quiet s (.packet ('c' :: data)) = true)
    (hstep : s.step (.server .handle) = some s') : Inv s' := by
  obtain ⟨hawaiting, hflight, hstops, hrunning, hidle⟩ := h.idle hone
  simp only [quiet, Bool.and_eq_true, decide_eq_true_eq] at hquiet
  obtain ⟨⟨hconn, htarget⟩, _⟩ := hquiet
  obtain ⟨g, hg, heq⟩ := Option.map_eq_some_iff.mp hstep
  obtain ⟨token, rest', hnext', hwaiting, htake⟩ := handle_eq hg
  rw [hnext] at hnext'
  cases hnext'
  obtain ⟨lines, hlines, hcontinue⟩ := continuePacket_eq
    (g := { s.gdb with buf := rest, out := s.gdb.out ++ [['+']] }) hconn data
  have hsettled : g = { s.gdb with
      buf := rest
      out := s.gdb.out ++ [['+']]
      sent := s.gdb.sent ++ (lines ++ ["DBGCONT".toList]).map (· ++ ['\n']) } := by
    rw [htake]
    change settle (_ : Result) = _
    rw [hcontinue]
    rfl
  have hset : ∀ line ∈ lines, resumesTarget line = false ∧ linesOf (line ++ ['\n']) = [line] := by
    intro line hline
    apply resumesTarget_named
    obtain ⟨name, hname, hform⟩ := hlines line hline
    refine ⟨name, ?_, hform⟩
    rw [List.mem_singleton.mp hname]
    decide
  have hcont : linesOf ("DBGCONT".toList ++ ['\n']) = ["DBGCONT".toList] :=
    linesOf_line (by decide)
  have hresumes : resumesTarget "DBGCONT".toList = true := by decide
  have hself : (lines.flatMap fun line => linesOf (line ++ ['\n'])) = lines := by
    rw [List.flatMap_congr fun line hline => (hset line hline).2]
    exact List.flatMap_singleton' lines
  have hnew : (g.sent.drop s.gdb.sent.length).flatMap linesOf = lines ++ ["DBGCONT".toList] := by
    rw [hsettled]
    simp only
    rw [newLines, List.flatMap_append, hself, List.flatMap_singleton, hcont]
  have hcount : (lines ++ ["DBGCONT".toList]).countP resumesTarget = 1 := by
    have hzero : lines.countP resumesTarget = 0 := by
      rw [List.countP_eq_zero]
      intro line hline hres
      rw [(hset line hline).1] at hres
      cases hres
    rw [List.countP_append, hzero, List.countP_singleton, hresumes]
    rfl
  have htodo : s.todo.countP resumesTarget = 0 := by
    rw [List.countP_eq_zero]
    intro line hline hres
    rw [hidle line hline] at hres
    cases hres
  have hisResume : takes isResume s.gdb .handle = true := by
    simp only [takes, hnext, Option.any_some]
    rfl
  have hstarts : takes startsTarget s.gdb .handle = true := by
    simp only [takes, hnext, Option.any_some]
    rfl
  have hwrites : writesStop s.gdb .handle = false := by
    simp only [writesStop, takes, hnext, Option.any_some]
    simp
  rw [hnew, hisResume, hstarts, hwrites] at heq
  subst heq
  refine ⟨?_, ?_, ?_, ?_, ?_, ?_, ?_, ?_⟩
  · simp only [hawaiting, hflight, hsettled, hstops, hone, Bool.or_true, Bool.toNat_true,
      Bool.toNat_false, Nat.add_zero, List.length_nil]
  · simp only [hone, Bool.toNat_true, Bool.toNat_false, Nat.add_zero, Nat.le_refl]
  · simp only [h.notEarly, Bool.false_or, Bool.false_and]
  · intro _
    simp only [Bool.or_true]
  · intro line _ _
    exact ⟨by simp only [Bool.or_true], hrunning⟩
  · simp only [List.countP_append] at hcount ⊢
    omega
  · intro _
    exact Or.inr ⟨_, List.mem_append_right _ (List.mem_append_right _
      (List.mem_singleton_self _)), hresumes⟩
  · intro queue
    rw [hsettled]
    change s.gdb.waiting ≠ _
    rw [hwaiting]
    exact fun heq => nomatch heq

/-- An interrupt that finds everything answered and the cached state stopped is answered. -/
theorem inv_interrupt {s s' : Session} (h : Inv s) {rest : Text}
    (hnext : nextToken s.gdb.buf = some (.interrupt, rest)) (hone : s.replies = s.resumes)
    (hstopped : s.gdb.dbg.stopped = true) (hstep : s.step (.server .handle) = some s') :
    Inv s' := by
  obtain ⟨hawaiting, hflight, hstops, hrunning, hidle⟩ := h.idle hone
  obtain ⟨g, hg, heq⟩ := Option.map_eq_some_iff.mp hstep
  obtain ⟨token, rest', hnext', hwaiting, htake⟩ := handle_eq hg
  rw [hnext] at hnext'
  cases hnext'
  obtain ⟨out, fate, hrespond⟩ := respond_eq { s.gdb with buf := rest } (some "S05".toList)
  have hg' : g = { s.gdb with buf := rest, out := out, fate := fate } := by
    rw [htake, ← hrespond]
    exact if_pos hstopped
  have hisResume : takes isResume s.gdb .handle = true := by
    simp only [takes, hnext, Option.any_some]
    rfl
  have hstarts : takes startsTarget s.gdb .handle = false := by
    simp only [takes, hnext, Option.any_some]
    rfl
  have hwrites : writesStop s.gdb .handle = true := by
    simp only [writesStop, takes, hnext, Option.any_some, hstopped]
    rfl
  have hnone : (g.sent.drop s.gdb.sent.length).flatMap linesOf = [] := by
    rw [hg']
    simp only [List.drop_length, List.flatMap_nil]
  rw [hnone, hisResume, hstarts, hwrites, List.append_nil] at heq
  subst heq
  refine ⟨?_, ?_, ?_, ?_, ?_, h.once, ?_, ?_⟩
  · simp only [hawaiting, hflight, hg', hstops, hone, Bool.or_false, Bool.toNat_true,
      Bool.toNat_false, Nat.add_zero, List.length_nil]
  · simp only [hone]
    omega
  · simp only [h.notEarly, hawaiting, hrunning, decide_false, Bool.or_false, Bool.and_false]
  · exact fun hrun => absurd hrun hrunning
  · intro line hline hres
    rw [hidle line hline] at hres
    cases hres
  · intro hawait
    simp only [hawaiting, Bool.or_false, Bool.false_eq_true] at hawait
  · intro queue
    rw [hg']
    change s.gdb.waiting ≠ _
    rw [hwaiting]
    exact fun heq => nomatch heq

/-- The handler keeps the accounts when it takes a quiet token. -/
theorem inv_handle {s s' : Session} (h : Inv s) (hone : OneAtATime s (.server .handle))
    (hquiet : ∀ next ∈ nextToken s.gdb.buf, quiet s next.1 = true)
    (hstep : s.step (.server .handle) = some s') : Inv s' := by
  obtain ⟨g, hg, _⟩ := Option.map_eq_some_iff.mp hstep
  obtain ⟨token, rest, hnext, hwaiting, htake⟩ := handle_eq hg
  have hquiet := hquiet _ hnext
  have hresume : takes isResume s.gdb .handle = isResume token := by
    simp only [takes, hnext, Option.any_some]
  have hwrites : writesStop s.gdb .handle = (s.gdb.dbg.stopped && decide (token = .interrupt)) := by
    simp only [writesStop, takes, hnext, Option.any_some]
  have hplain : ∀ token, isResume token = false → token ≠ .interrupt := by
    rintro _ htoken rfl
    cases htoken
  have hnothing : ∀ g' : Gdb, g' = { s.gdb with buf := rest } → ∃ lines : List Text,
      (∀ line ∈ lines.flatMap fun line => linesOf (line ++ ['\n']), resumesTarget line = false) ∧
      g'.sent = s.gdb.sent ++ lines.map (· ++ ['\n']) ∧ g'.stops = s.gdb.stops ∧
      ∀ queue, g'.waiting ≠ some (.stop, queue) := by
    rintro g' rfl
    exact ⟨[], fun _ hline => (List.not_mem_nil hline).elim, (List.append_nil _).symm, rfl,
      h.waiting⟩
  have hgdb : ∀ g', s.gdb.step .handle = some g' → g' = { s.gdb with buf := rest }.take token := by
    intro g' hg'
    rw [hg] at hg'
    cases hg'
    exact htake
  cases token with
  | ack => exact inv_quietStep h hresume (by simp [hwrites]) hstep fun g' hg' => hnothing g' (hgdb g' hg')
  | nak => exact inv_quietStep h hresume (by simp [hwrites]) hstep fun g' hg' => hnothing g' (hgdb g' hg')
  | noise => exact inv_quietStep h hresume (by simp [hwrites]) hstep fun g' hg' => hnothing g' (hgdb g' hg')
  | interrupt => exact inv_interrupt h hnext (hone hresume) hquiet hstep
  | packet data =>
    by_cases hc : ∃ data', data = 'c' :: data'
    · obtain ⟨data', rfl⟩ := hc
      exact inv_continue h hnext (hone hresume) hquiet hstep
    · have hs : ∀ data', data ≠ 's' :: data' := by
        rintro data' rfl
        cases hquiet
      have hnoresume : isResume (.packet data) = false := by
        unfold isResume startsTarget
        split
        · exact absurd ⟨_, by cases ‹Token.packet data = _›; rfl⟩ hc
        · next heq => cases heq; exact absurd rfl (hs _)
        · rfl
      refine inv_quietStep h (hresume.trans hnoresume) (by simp [hwrites]) hstep ?_
      intro g' hg'
      rw [hgdb g' hg']
      obtain ⟨lines, hlines, hsent, hstops, hwait⟩ :=
        take_packet { s.gdb with buf := rest } data hwaiting
      exact ⟨lines, quiet_lines hquiet (fun data' heq => hc ⟨data', heq⟩) hlines, hsent, hstops,
        hwait hs⟩

/-- The other server steps keep the accounts. -/
theorem inv_server {s s' : Session} {label : GdbLabel} (h : Inv s)
    (hpermitted : Permitted s (.server label)) (hstep : s.step (.server label) = some s') :
    Inv s' := by
  have hunsent : ∀ g' : Gdb, g'.sent = s.gdb.sent → g'.stops = s.gdb.stops →
      (∀ queue, g'.waiting ≠ some (.stop, queue)) → ∃ lines : List Text,
      (∀ line ∈ lines.flatMap fun line => linesOf (line ++ ['\n']), resumesTarget line = false) ∧
      g'.sent = s.gdb.sent ++ lines.map (· ++ ['\n']) ∧ g'.stops = s.gdb.stops ∧
      ∀ queue, g'.waiting ≠ some (.stop, queue) := fun g' hsent hstops hwaiting =>
    ⟨[], fun _ hline => (List.not_mem_nil hline).elim, hsent.trans (List.append_nil _).symm,
      hstops, hwaiting⟩
  cases label with
  | read data =>
    refine inv_quietStep h rfl rfl hstep fun g hg => ?_
    simp only [Gdb.step] at hg
    split at hg
    · cases hg
      exact hunsent _ rfl rfl h.waiting
    · cases hg
  | handle => exact inv_handle h hpermitted.1 hpermitted.2 hstep
  | resume taken =>
    have hstop : writesStop s.gdb (.resume taken) = false := by
      simp only [writesStop]
      split
      · next queue heq => exact absurd heq (h.waiting queue)
      · rfl
    refine inv_quietStep h rfl hstop hstep fun g hg => ?_
    simp only [Gdb.step] at hg
    split at hg
    · split at hg
      · cases hg
        obtain ⟨out, fate, hrespond⟩ := respond_eq { s.gdb with waiting := none } (some _)
        rw [hrespond]
        exact hunsent _ rfl rfl fun queue heq => by cases heq
      · cases hg
    · cases hg
  | forward =>
    obtain ⟨g, hg, heq⟩ := Option.map_eq_some_iff.mp hstep
    simp only [Gdb.step] at hg
    split at hg
    · next e stops hstops =>
      split at hg
      · cases hg
        obtain ⟨out, fate, hrespond⟩ := respond_eq { s.gdb with stops := stops } (some "S05".toList)
        rw [hrespond] at heq
        have hbalance := h.balance
        have hone := h.oneAtATime
        rw [hstops, List.length_cons] at hbalance
        have hawaiting : s.awaiting = false := by
          cases hs : s.awaiting with
          | false => rfl
          | true =>
            rw [hs, Bool.toNat_true] at hbalance
            omega
        have hrunning : s.target ≠ .running := by
          intro hrun
          rw [h.running hrun] at hawaiting
          cases hawaiting
        simp only [writesStop, takes, List.drop_length, List.flatMap_nil, List.append_nil,
          Bool.toNat_true, Bool.toNat_false, Nat.add_zero, Bool.or_false] at heq
        subst heq
        refine ⟨?_, ?_, ?_, h.running, h.pending, h.once, h.underWay, h.waiting⟩
        · simp only
          omega
        · simp only
          omega
        · simp only [h.notEarly, hawaiting, hrunning, decide_false, Bool.or_false, Bool.and_false]
      · cases hg
    · cases hg
  | arrive a =>
    refine inv_quietStep h rfl rfl hstep fun g hg => ?_
    cases hg
    have hevent := (step_quiet rfl rfl (show s.step (.server (.arrive a)) = some s' from hstep)).1
    cases a with
    | event e =>
      have hne : ¬ e.name = "dbg_stop" := of_decide_eq_false hevent
      refine hunsent _ rfl (if_neg hne) fun queue heq => ?_
      simp only [Gdb.arrive] at heq
      obtain ⟨⟨w, queue'⟩, hwait, hpair⟩ := Option.map_eq_some_iff.mp heq
      cases hpair
      exact h.waiting _ hwait
    | _ => exact hunsent _ rfl rfl h.waiting
  | link up =>
    refine inv_quietStep h rfl rfl hstep fun g hg => ?_
    cases hg
    exact hunsent _ rfl rfl h.waiting

/-- The daemon keeps the accounts when it takes a line. -/
theorem inv_execute {s s' : Session} (h : Inv s) (hstep : s.step .execute = some s') : Inv s' := by
  simp only [Session.step] at hstep
  split at hstep
  · cases hstep
  · next line todo htodo =>
    cases hstep
    have honce := h.once
    rw [htodo, List.countP_cons] at honce
    have hpending : ∀ l ∈ line :: todo, resumesTarget l = true →
        s.awaiting = true ∧ s.target ≠ .running := by
      rw [← htodo]
      exact h.pending
    have hrest : resumesTarget line = true → ∀ l ∈ todo, resumesTarget l = false := by
      intro hres l hl
      rw [if_pos hres] at honce
      have hzero : todo.countP resumesTarget = 0 := by omega
      exact Bool.not_eq_true _ |>.mp (List.countP_eq_zero.mp hzero l hl)
    refine ⟨h.balance, h.oneAtATime, h.notEarly, ?_, ?_, ?_, ?_, h.waiting⟩
    · intro hrun
      simp only at hrun
      split at hrun
      · cases hrun
      · split at hrun
        · next hres => exact (hpending line List.mem_cons_self hres.1).1
        · exact h.running hrun
    · intro l hl hres
      obtain ⟨hawaiting, hrunning⟩ := hpending l (List.mem_cons_of_mem _ hl) hres
      refine ⟨hawaiting, ?_⟩
      simp only
      split
      · exact fun heq => nomatch heq
      · split
        · next hline =>
          rw [hrest hline.1 l hl] at hres
          cases hres
        · exact hrunning
    · simp only
      omega
    · intro hawaiting
      simp only
      by_cases hdetach : commandOf line = "DBGDETACH".toList
      · rw [if_pos hdetach]
        exact Or.inl fun heq => nomatch heq
      · rw [if_neg hdetach]
        by_cases hres : resumesTarget line = true ∧ s.target = .stopped
        · rw [if_pos hres]
          exact Or.inl fun heq => nomatch heq
        · rw [if_neg hres]
          rcases h.underWay hawaiting with hstopped | ⟨l, hl, hlres⟩
          · exact Or.inl hstopped
          · by_cases hstopped : s.target = .stopped
            · rw [htodo] at hl
              rcases List.mem_cons.mp hl with rfl | hl
              · exact absurd ⟨hlres, hstopped⟩ hres
              · exact Or.inr ⟨l, hl, hlres⟩
            · exact Or.inl hstopped

/-- A permitted step keeps the accounts. -/
theorem inv_step {s s' : Session} {label : Label} (h : Inv s) (hpermitted : Permitted s label)
    (hstep : s.step label = some s') : Inv s' := by
  cases label with
  | server label => exact inv_server h hpermitted hstep
  | execute => exact inv_execute h hstep
  | halt =>
    simp only [Session.step] at hstep
    split at hstep
    · next hrunning =>
      cases hstep
      have hawaiting : s.awaiting = true := hpermitted.2
      have hbalance := h.balance
      rw [hawaiting, Bool.toNat_true] at hbalance
      refine ⟨?_, h.oneAtATime, h.notEarly, (fun heq => nomatch heq), ?_, h.once,
        (fun heq => nomatch heq), h.waiting⟩
      · simp only [Bool.toNat_false]
        omega
      · intro line hline hres
        exact absurd hrunning (h.pending line hline hres).2
    · cases hstep
  | deliver msg =>
    simp only [Session.step] at hstep
    split at hstep
    · cases hstep
    · next flight hflight =>
      cases hstep
      have hbalance := h.balance
      have hone := h.oneAtATime
      rw [hflight] at hbalance
      have hstops : ((s.gdb.arrive (.stop msg)).arrive (.event ⟨"dbg_stop", msg⟩)).stops =
          s.gdb.stops ++ [⟨"dbg_stop", msg⟩] := by
        have hroom : s.gdb.stops.length < 1000 := by omega
        change (if "dbg_stop" = "dbg_stop" then enqueue s.gdb.stops ⟨"dbg_stop", msg⟩
          else s.gdb.stops) = _
        rw [if_pos rfl, enqueue, if_pos hroom]
      refine ⟨?_, hone, h.notEarly, h.running, h.pending, h.once, h.underWay, ?_⟩
      · simp only
        rw [hstops, List.length_append, List.length_singleton]
        omega
      · intro queue heq
        simp only [Gdb.arrive] at heq
        obtain ⟨⟨w, queue'⟩, hwait, hpair⟩ := Option.map_eq_some_iff.mp heq
        cases hpair
        exact h.waiting _ hwait
  | stray => exact hpermitted.2.elim

/-- In every run of permitted steps, whatever the order in which packets, lines, stops, events and
the two tasks take their turns, each resume packet is answered once, after the target stopped. -/
theorem stop_replies_answered {target : Target} (htarget : target ≠ .running) {s : Session}
    (hrun : Reaches Session.step Permitted (.start target) s) : Answered s :=
  (hrun.invariant Inv (inv_start htarget) fun _ _ _ h hpermitted hstep =>
    inv_step h hpermitted hstep).answered

instance (s : Session) : (label : Label) → Decidable (OneAtATime s label)
  | .server _ => inferInstanceAs (Decidable (_ → _))
  | .execute | .halt | .deliver _ | .stray => isTrue trivial

/-- Whether the next token is quiet is decided. -/
def decideQuiet (s : Session) : Decidable (∀ next ∈ nextToken s.gdb.buf, quiet s next.1 = true) :=
  decidable_of_iff ((nextToken s.gdb.buf).all (fun next => quiet s next.1) = true)
    (by cases nextToken s.gdb.buf <;> simp)

instance (s : Session) : (label : Label) → Decidable (Permitted s label)
  | .server .handle => @instDecidableAnd _ _ inferInstance (decideQuiet s)
  | .halt => inferInstanceAs (Decidable (_ ∧ _ = true))
  | .stray => inferInstanceAs (Decidable (_ ∧ False))
  | .server (.read _) | .server (.resume _) | .server .forward | .server (.arrive _)
  | .server (.link _) | .execute | .deliver _ => inferInstanceAs (Decidable (_ ∧ True))

/-- The client sends a packet and the handler takes it. -/
def send (packet : String) : List Label :=
  [.server (.read (packet.toList.map fun c => UInt8.ofNat c.toNat)), .server .handle]

/-- The daemon takes the line, the target stops again, and the stop reaches the host. -/
def untilStopped : List Label := [.execute, .halt, .deliver []]

/-- A target that is continued is answered once when it stops. -/
theorem stop_replies_answered_continue :
    ∃ s, Reaches Session.step Permitted (.start .stopped) s ∧ s.resumes = 1 ∧ s.replies = 1 ∧
      Answered s := by
  have hend : (runLabels Session.step (.start .stopped)
      (send "$c#63" ++ untilStopped ++ [.server .forward])).map (fun s => (s.resumes, s.replies)) =
      some (1, 1) := by decide
  have hpermitted : AllPermitted Session.step Permitted (.start .stopped)
      (send "$c#63" ++ untilStopped ++ [.server .forward]) := by decide
  obtain ⟨s, hrun, hcounts⟩ := Option.map_eq_some_iff.mp hend
  have hreaches := Reaches.refl.of_labels hrun hpermitted
  have hanswered := stop_replies_answered (by decide) hreaches
  exact ⟨s, hreaches, (Prod.mk.inj hcounts).1, (Prod.mk.inj hcounts).2, hanswered⟩

/-- A single step is answered twice, by its handler and by the forwarder. -/
theorem stop_replies_not_answered :
    ¬ ∀ s, Reaches Session.step OneAtATime (.start .stopped) s → Answered s := by
  intro hall
  have hend : (runLabels Session.step (.start .stopped)
      (send "$s#73" ++ untilStopped ++ [.server (.resume 1), .server .forward])).map
        (fun s => (s.resumes, s.replies)) = some (1, 2) := by decide
  have hpermitted : AllPermitted Session.step OneAtATime (.start .stopped)
      (send "$s#73" ++ untilStopped ++ [.server (.resume 1), .server .forward]) := by
    decide
  obtain ⟨s, hrun, hcounts⟩ := Option.map_eq_some_iff.mp hend
  have honce := (hall s (Reaches.refl.of_labels hrun hpermitted)).atMostOnce
  obtain ⟨hresumes, hreplies⟩ := Prod.mk.inj hcounts
  omega

end AmigaDevbench.GdbStops
