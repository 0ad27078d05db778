import AmigaDevbench.Core.Runs
import AmigaDevbench.Daemon.Commands

/-!
# The connections of `net_io.c`

The daemon serves one connection at a time. It takes bytes off the socket into a receive buffer
and hands them one by one to the line assembler of `main.c`. A dropped connection empties the
receive buffer; the line buffer is the main loop's. Beside the code the model keeps the bytes and
the commands of each connection apart.
-/

namespace AmigaDevbench.Daemon

/-- The bytes of one stream leave the same line buffer wherever it is divided. -/
theorem receive_concat (bytes more : Text) : ∀ buf : Text,
    receive buf (bytes ++ more) =
      ((receive (receive buf bytes).1 more).1,
        (receive buf bytes).2 ++ (receive (receive buf bytes).1 more).2) := by
  induction bytes with
  | nil => intro buf; rfl
  | cons c bytes ih =>
    intro buf
    simp only [List.cons_append, receive, ih, List.append_assoc]

theorem receive_singleton (buf : Text) (c : Char) :
    receive buf [c] = handleSerialByte buf c := by
  simp only [receive, List.append_nil]

/-- `client_sock`, the receive buffer, the line buffer, and the history of each connection. -/
structure Server where
  /-- The connection behind `client_sock`. -/
  peer : Option Nat
  /-- How many connections have been accepted. -/
  accepted : Nat
  /-- `rx_buf` from `rx_pos` to `rx_len`. -/
  rx : Text
  /-- `line_buf` up to `line_pos`. -/
  lineBuf : Text
  /-- What `recv` has taken off each connection. -/
  received : Nat → Text
  /-- The bytes of each connection that `handle_serial_byte` has been called with. -/
  handled : Nat → Text
  /-- What the lines that ended in each connection made the daemon do. -/
  executed : Nat → List Outcome

namespace Server

def start : Server := ⟨none, 0, [], [], fun _ => [], fun _ => [], fun _ => []⟩

/-- `drop_client`. -/
def dropClient (s : Server) : Server := { s with peer := none, rx := [] }

/-- What happens to the socket, and the steps of the main loop. -/
inductive Label where
  /-- `try_accept`. -/
  | accept
  /-- `recv` returns bytes. -/
  | recv (bytes : Text)
  /-- `recv` returns zero or an error. -/
  | close
  /-- A byte of the receive buffer is handled; a command may fail to write its answer. -/
  | byte (fails : Bool)
  /-- Another write fails, of the greeting, the heartbeat or an event. -/
  | writeFails
  deriving DecidableEq

/-- `try_accept` with a socket. -/
def accept (s : Server) : Server :=
  { s with peer := some s.accepted, accepted := s.accepted + 1, rx := [] }

/-- `net_check_read` fills the receive buffer. -/
def fill (s : Server) (n : Nat) (bytes : Text) : Server :=
  { s with
    rx := bytes
    received := Function.update s.received n (s.received n ++ bytes) }

/-- `net_check_read` and `handle_serial_byte` for the next byte. -/
def handleByte (s : Server) (n : Nat) (c : Char) (rest : Text) : Server :=
  { s with
    rx := rest
    lineBuf := (handleSerialByte s.lineBuf c).1
    handled := Function.update s.handled n (s.handled n ++ [c])
    executed := Function.update s.executed n
      (s.executed n ++ (handleSerialByte s.lineBuf c).2) }

/-- One step. -/
def next (s : Server) : Label → Option Server
  | .accept =>
    if s.peer = none ∧ s.rx = [] then some s.accept else none
  | .recv bytes =>
    match s.peer with
    | some n =>
      if s.rx = [] ∧ bytes ≠ [] ∧ bytes.length ≤ 512 then some (s.fill n bytes) else none
    | none => none
  | .close => if s.peer.isSome ∧ s.rx = [] then some s.dropClient else none
  | .byte fails =>
    match s.peer, s.rx with
    | some n, c :: rest =>
      if fails then
        -- `net_write` is called while a line is executed
        if c = '\n' ∧ s.lineBuf ≠ [] then some (s.handleByte n c rest).dropClient else none
      else some (s.handleByte n c rest)
    | _, _ => none
  | .writeFails => if s.peer.isSome then some s.dropClient else none

/-- The commands of each connection are those that a fresh daemon reads off its bytes. -/
structure Separate (s : Server) : Prop where
  commands (n : Nat) : s.executed n = (receive [] (s.handled n)).2
  bytes (n : Nat) : s.handled n <+: s.received n
  /-- In particular the first command line is executed as it was sent. -/
  first (n : Nat) (line : Text) (hline : ∀ c ∈ line, c ≠ '\n' ∧ c ≠ '\r' ∧ c ≠ CText.nul)
    (hne : line ≠ []) (hlen : line.length < maxLine) (hsent : line ++ ['\n'] <+: s.handled n) :
    ∃ later, s.executed n = protocolParseLine line ++ later

/-- A connection is dropped between two lines. -/
def BetweenLines (s : Server) : Label → Prop
  | .close | .writeFails => s.lineBuf = []
  | .accept | .recv _ | .byte _ => True

instance (s : Server) : (label : Label) → Decidable (s.BetweenLines label)
  | .close | .writeFails => inferInstanceAs (Decidable (_ = _))
  | .accept | .recv _ | .byte _ => isTrue trivial

/-- The invariant of such runs. -/
structure Inv (s : Server) : Prop where
  commands (n : Nat) : s.executed n = (receive [] (s.handled n)).2
  /-- The buffers belong to the connection, if there is one. -/
  lineBuf (n : Nat) (h : s.peer = some n) : (receive [] (s.handled n)).1 = s.lineBuf
  idle (h : s.peer = none) : s.lineBuf = [] ∧ s.rx = []
  current (n : Nat) (h : s.peer = some n) : s.handled n ++ s.rx = s.received n
  bytes (n : Nat) : s.handled n <+: s.received n
  /-- A connection to come has no history. -/
  fresh (n : Nat) (h : s.accepted ≤ n) : s.handled n = [] ∧ s.received n = [] ∧ s.peer ≠ some n

theorem inv_start : Inv start where
  commands _ := rfl
  lineBuf _ h := by cases h
  idle _ := ⟨rfl, rfl⟩
  current _ h := by cases h
  bytes _ := List.prefix_refl _
  fresh _ _ := ⟨rfl, rfl, fun h => by cases h⟩

variable {s s' : Server}

theorem Inv.drop (h : Inv s) (hline : s.lineBuf = []) : Inv s.dropClient where
  commands := h.commands
  lineBuf _ hpeer := by cases hpeer
  idle _ := ⟨hline, rfl⟩
  current _ hpeer := by cases hpeer
  bytes := h.bytes
  fresh n hn := ⟨(h.fresh n hn).1, (h.fresh n hn).2.1, fun hpeer => by cases hpeer⟩

/-- The history of the connection to come is empty, and so is the line buffer. -/
theorem Inv.accept (h : Inv s) (hpeer : s.peer = none) : Inv s.accept := by
  obtain ⟨hline, -⟩ := h.idle hpeer
  obtain ⟨hhandled, hreceived, -⟩ := h.fresh s.accepted le_rfl
  have hnow {n : Nat} (hn : s.accept.peer = some n) : s.accepted = n := Option.some.inj hn
  constructor
  · exact h.commands
  · intro n hn
    change (receive [] (s.handled n)).1 = s.lineBuf
    rw [← hnow hn, hhandled, hline]
    rfl
  · intro hnone
    cases hnone
  · intro n hn
    change s.handled n ++ [] = s.received n
    rw [← hnow hn, hhandled, hreceived]
    rfl
  · exact h.bytes
  · intro n hn
    have hlt : s.accepted + 1 ≤ n := hn
    have hfresh := h.fresh n (by omega)
    refine ⟨hfresh.1, hfresh.2.1, fun heq => ?_⟩
    have hsame := hnow heq
    omega

theorem Inv.fill (h : Inv s) {n : Nat} {bytes : Text} (hpeer : s.peer = some n)
    (hrx : s.rx = []) : Inv (s.fill n bytes) := by
  have hcurrent := h.current n hpeer
  rw [hrx, List.append_nil] at hcurrent
  have hreceived (m : Nat) : (s.fill n bytes).received m =
      if m = n then s.received n ++ bytes else s.received m := Function.update_apply ..
  constructor
  · exact h.commands
  · exact h.lineBuf
  · intro hnone
    exact absurd (hpeer.symm.trans hnone) (Option.some_ne_none n)
  · intro m hm
    obtain rfl : m = n := Option.some.inj (hm.symm.trans hpeer)
    rw [hreceived, if_pos rfl, ← hcurrent]
    rfl
  · intro m
    rw [hreceived]
    split
    · rename_i hm
      rw [hm]
      exact (h.bytes n).trans (List.prefix_append _ _)
    · exact h.bytes m
  · intro m hm
    obtain ⟨hnone, hempty, hother⟩ := h.fresh m hm
    refine ⟨hnone, ?_, hother⟩
    rw [hreceived, if_neg fun heq => hother (by rw [heq]; exact hpeer)]
    exact hempty

theorem Inv.handleByte (h : Inv s) {n : Nat} {c : Char} {rest : Text} (hpeer : s.peer = some n)
    (hrx : s.rx = c :: rest) : Inv (s.handleByte n c rest) := by
  have hbuf := h.lineBuf n hpeer
  have hcurrent := h.current n hpeer
  have hmore : receive [] (s.handled n ++ [c]) =
      ((handleSerialByte s.lineBuf c).1,
        s.executed n ++ (handleSerialByte s.lineBuf c).2) := by
    rw [receive_concat, hbuf, receive_singleton, h.commands n]
  have hhandled (m : Nat) : (s.handleByte n c rest).handled m =
      if m = n then s.handled n ++ [c] else s.handled m := Function.update_apply ..
  have hexecuted (m : Nat) : (s.handleByte n c rest).executed m =
      if m = n then s.executed n ++ (handleSerialByte s.lineBuf c).2 else s.executed m :=
    Function.update_apply ..
  have hjoined : (s.handled n ++ [c]) ++ rest = s.received n := by
    rw [List.append_assoc, List.singleton_append, ← hrx]
    exact hcurrent
  constructor
  · intro m
    rw [hhandled, hexecuted]
    split
    · rw [hmore]
    · exact h.commands m
  · intro m hm
    obtain rfl : m = n := Option.some.inj (hm.symm.trans hpeer)
    rw [hhandled, if_pos rfl, hmore]
    rfl
  · intro hnone
    exact absurd (hpeer.symm.trans hnone) (Option.some_ne_none n)
  · intro m hm
    obtain rfl : m = n := Option.some.inj (hm.symm.trans hpeer)
    rw [hhandled, if_pos rfl]
    exact hjoined
  · intro m
    rw [hhandled]
    split
    · rename_i hm
      rw [hm]
      exact ⟨rest, hjoined⟩
    · exact h.bytes m
  · intro m hm
    obtain ⟨hnone, hreceived, hother⟩ := h.fresh m hm
    refine ⟨?_, hreceived, hother⟩
    rw [hhandled, if_neg fun heq => hother (by rw [heq]; exact hpeer)]
    exact hnone

/-- Every step that drops no connection within a line keeps the invariant. -/
theorem inv_next {label : Label} (h : Inv s) (hpermit : s.BetweenLines label)
    (hstep : s.next label = some s') : Inv s' := by
  cases label with
  | accept =>
    obtain ⟨⟨hpeer, -⟩, hnext⟩ := Option.ite_none_right_eq_some.mp hstep
    cases hnext
    exact h.accept hpeer
  | recv bytes =>
    simp only [next] at hstep
    split at hstep
    · rename_i n hpeer
      obtain ⟨⟨hrx, -, -⟩, hnext⟩ := Option.ite_none_right_eq_some.mp hstep
      cases hnext
      exact h.fill hpeer hrx
    · cases hstep
  | close =>
    obtain ⟨-, hnext⟩ := Option.ite_none_right_eq_some.mp hstep
    cases hnext
    exact h.drop hpermit
  | byte fails =>
    simp only [next] at hstep
    split at hstep
    · rename_i n c rest hpeer hrx
      have hhandled := h.handleByte hpeer hrx
      split at hstep
      · obtain ⟨⟨hnewline, -⟩, hnext⟩ := Option.ite_none_right_eq_some.mp hstep
        cases hnext
        refine hhandled.drop ?_
        change (handleSerialByte s.lineBuf c).1 = []
        rw [handleSerialByte, if_pos hnewline]
      · cases hstep
        exact hhandled
    · cases hstep
  | writeFails =>
    obtain ⟨-, hnext⟩ := Option.ite_none_right_eq_some.mp hstep
    cases hnext
    exact h.drop hpermit

theorem Inv.separate (h : Inv s) : Separate s where
  commands := h.commands
  bytes := h.bytes
  first n line hline hne hlen hsent := by
    obtain ⟨rest, hrest⟩ := hsent
    rw [h.commands n, ← hrest, receive_concat, receive_line hline hne hlen]
    exact ⟨_, rfl⟩

/-- A new connection starts clean in every run whose connections are dropped between two lines. -/
theorem sessions_separate (hrun : Reaches next BetweenLines start s) : Separate s :=
  (hrun.invariant Inv inv_start fun _ _ _ h hpermit hstep => inv_next h hpermit hstep).separate

/-- A connection that sends some bytes which are all handled. -/
def send (bytes : Text) : List Label :=
  .accept :: .recv bytes :: List.replicate bytes.length (.byte false)

/-- Two connections, dropped between two lines, send a PING each. -/
theorem sessions_separate_ping : ∃ s, Reaches next BetweenLines start s ∧
    s.executed 1 = [.executed "PING" []] ∧ Separate s := by
  have hend : (runLabels next start
      (send "PING\n".toList ++ .close :: send "PING\n".toList)).map (·.executed 1) =
      some [.executed "PING" []] := by decide
  have hpermitted : AllPermitted next BetweenLines start
      (send "PING\n".toList ++ .close :: send "PING\n".toList) := by decide
  obtain ⟨s, hlast, hexecuted⟩ := Option.map_eq_some_iff.mp hend
  have hreaches := Reaches.refl.of_labels hlast hpermitted
  exact ⟨s, hreaches, hexecuted, sessions_separate hreaches⟩

/-- Behind a connection that was dropped within a line, the PING of the next one is refused. -/
theorem sessions_not_separate :
    ¬ ∀ s, Reaches next (fun _ _ => True) start s → Separate s := by
  intro hall
  have hend : (runLabels next start
      (send "INSP".toList ++ .close :: send "PING\n".toList)).map
        (fun s => (s.executed 1, s.handled 1)) =
      some ([.refused "INSPPING".toList], "PING\n".toList) := by decide
  obtain ⟨s, hlast, hboth⟩ := Option.map_eq_some_iff.mp hend
  obtain ⟨hexecuted, hhandled⟩ := Prod.mk.inj hboth
  have hseparate := hall s (Reaches.refl.of_labels hlast (allPermitted_true ..))
  have hcommands := hseparate.commands 1
  rw [hexecuted, hhandled] at hcommands
  exact absurd hcommands (by decide)

end Server

end AmigaDevbench.Daemon
