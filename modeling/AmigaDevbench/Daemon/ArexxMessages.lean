import AmigaDevbench.Core.Runs
import AmigaDevbench.Daemon.Arexx

/-!
# The messages between the daemon and ARexx applications

`arexx_bridge.c` has one command pending at a time. The message belongs to the daemon again once it
is in the reply port; a command that times out is pulled out of whatever list its message is in and
freed. Between the look into the reply port and `Forbid` the application may go on.
-/

namespace AmigaDevbench.Daemon.Arexx

open CText

/-- Where the memory of a `RexxMsg` is. -/
inductive Place where
  /-- In the message list of the application's port. -/
  | queued
  /-- Taken by the application and not yet replied. -/
  | held
  /-- In the daemon's reply port. -/
  | replied
  | freed
  deriving DecidableEq

/-- A message that was put to a port. -/
structure Message where
  /-- `rm_Args[0]` -/
  command : Text
  place : Place
  /-- `rm_Result1` -/
  result1 : Int
  /-- `rm_Result2`, empty for no result. -/
  result2 : Text
  /-- The polls that found no reply while the command was pending. -/
  polls : Nat
  deriving DecidableEq

/-- A line to the host, with the message it answers. -/
structure Line where
  about : Option Nat
  text : Text
  deriving DecidableEq

/-- The static variables of `arexx_bridge.c`, with all messages in the order in which they were
sent. -/
structure State where
  messages : List Message
  /-- The list of `g_replyPort`. -/
  replyPort : List Nat
  pendingMsg : Option Nat
  pendingTimeout : Nat
  /-- `arexx_poll` has found no reply and no time left, and is in front of `Forbid`. -/
  expiring : Bool
  /-- `g_replyPort` is there. -/
  alive : Bool
  lines : List Line
  /-- A message was unlinked or freed while the application had it, or it was put to a port that is
  gone. -/
  damaged : Bool
  deriving DecidableEq

/-- The bridge after `arexx_init`. -/
def State.initial : State where
  messages := []
  replyPort := []
  pendingMsg := none
  pendingTimeout := 0
  expiring := false
  alive := true
  lines := []
  damaged := false

/-- What the system calls of `arexx_handle_send` come to. -/
inductive Outcome where
  | notFound | noMessage | noArgstring | disappeared | sent
  deriving DecidableEq

/-- `portname` -/
def portName (args : Text) : Text := (args.before '|').take 63

/-- The timeout of a command: `50 * 200ms timer ticks`. -/
def timeoutPolls : Nat := 50

/-- The line of a command that is not sent. -/
def State.sendError (s : State) (args : Text) (outcome : Outcome) : Option Text :=
  if ¬ s.alive then some "ERR|AREXX|rexxsyslib not available".toList
  else if s.pendingMsg.isSome then some "ERR|AREXX|Another command is pending".toList
  else match args.after? '|' with
    | none | some [] => some "ERR|AREXX|Usage: AREXXSEND|portname|command".toList
    | some (_ :: _) =>
      match outcome with
      | .notFound =>
        some ("ERR|AREXX|Port '".toList ++ portName args ++ "' not found".toList)
      | .noMessage => some "ERR|AREXX|Could not create RexxMsg".toList
      | .noArgstring => some "ERR|AREXX|Could not create argstring".toList
      | .disappeared =>
        some ("ERR|AREXX|Port '".toList ++ portName args ++ "' disappeared".toList)
      | .sent => none

/-- `protocol_send_raw` -/
def State.sendRaw (s : State) (about : Option Nat) (text : Text) : State :=
  { s with lines := s.lines ++ [⟨about, text⟩] }

/-- `arexx_handle_send` -/
def State.handleSend (s : State) (args : Text) (outcome : Outcome) : State :=
  match s.sendError args outcome with
  | some error => s.sendRaw none error
  | none =>
    { s with
      messages := s.messages ++ [⟨(args.after? '|').getD [], .queued, 0, [], 0⟩]
      pendingMsg := some s.messages.length
      pendingTimeout := timeoutPolls }

/-- Where a message is. -/
def State.place? (s : State) (i : Nat) : Option Place := s.messages[i]?.map (·.place)

/-- The field of one message after an update. -/
def State.modify (s : State) (i : Nat) (f : Message → Message) : State :=
  { s with messages := s.messages.modify i f }

/-- `ClearRexxMsg` and `DeleteRexxMsg`, on a message that may be in one of the places. -/
def State.free (s : State) (i : Nat) (owned : List Place) : State :=
  { s.modify i ({ · with place := .freed }) with
    damaged := s.damaged || !(s.place? i).any (· ∈ owned) }

/-- The line about a reply, read from the message. -/
def State.resultText (s : State) (i : Nat) : Text :=
  match s.messages[i]? with
  | some m => resultLine m.result1 m.result2
  | none => []

/-- `arexx_poll` up to the timeout's `Forbid`. -/
def State.poll (s : State) : State :=
  match s.pendingMsg with
  | none => s
  | some i =>
    if s.alive then
      match s.replyPort with
      | [] =>
        { s.modify i (fun m => { m with polls := m.polls + 1 }) with
          pendingTimeout := s.pendingTimeout - 1
          expiring := s.pendingTimeout - 1 == 0 }
      -- the message that is answered and freed is the pending one, whichever was in the port
      | _ :: rest =>
        ({ s with replyPort := rest, pendingMsg := none }.free i [.replied]).sendRaw (some i)
          (s.resultText i)
    else s

/-- The line about a command that timed out. -/
def timeoutLine : Text := "ERR|AREXX|Command timed out".toList

/-- The timeout in `arexx_poll` from `Forbid` on. -/
def State.expire (s : State) : State :=
  match s.pendingMsg with
  | none => s
  | some i =>
    ({ s with
      replyPort := s.replyPort.erase i
      pendingMsg := none
      expiring := false }.free i [.queued, .replied]).sendRaw (some i) timeoutLine

/-- `arexx_cleanup` -/
def State.cleanup (s : State) : State :=
  { s.replyPort.foldl (fun s i => s.free i [.replied]) s with
    replyPort := []
    pendingMsg := none
    alive := false }

/-- The moves of the daemon and of the applications. -/
inductive Label where
  | send (args : Text) (outcome : Outcome)
  | poll
  | expire
  | cleanup
  /-- An application takes a message from its port. -/
  | take (i : Nat)
  /-- An application replies a message. -/
  | reply (i : Nat) (result1 : Int) (result2 : Text)
  deriving DecidableEq

/-- The daemon does one thing at a time; an application moves between any two of them. -/
def State.step (s : State) : Label → Option State
  | .send args outcome => if s.expiring then none else some (s.handleSend args outcome)
  | .poll => if s.expiring then none else some s.poll
  | .expire => if s.expiring then some s.expire else none
  | .cleanup => if s.expiring then none else some s.cleanup
  | .take i =>
    if s.place? i = some .queued then some (s.modify i ({ · with place := .held })) else none
  | .reply i result1 result2 =>
    if s.place? i = some .held then
      some
        { s.modify i (fun m => { m with place := .replied, result1, result2 }) with
          replyPort := s.replyPort ++ [i]
          damaged := s.damaged || !s.alive }
    else none

/-- No command times out while the application has its message, and no application replies after
the bridge has gone. -/
def Permitted (s : State) : Label → Prop
  | .expire => s.expiring = true → ∀ i ∈ s.pendingMsg, s.place? i ≠ some .held
  | .reply i _ _ => s.place? i = some .held → s.alive = true
  | _ => True

/-- The answer to a command: the result that the application gave, or a timeout after fifty
polls. -/
def Message.answer (m : Message) : Text :=
  if m.polls = timeoutPolls then timeoutLine else resultLine m.result1 m.result2

/-- The message that a line answers, with the answer. -/
def Line.answer? (line : Line) : Option (Nat × Text) := line.about.map (·, line.text)

/-- The messages that are done, and the one that is not. -/
structure Accounted (s : State) (done : List Message) (rest : Option Message) : Prop where
  undamaged : s.damaged = false
  messages : s.messages = done ++ rest.toList
  /-- Nothing that is done stays in memory. -/
  freed (m : Message) (h : m ∈ done) : m.place = .freed
  /-- The commands are answered once each, in order. -/
  answers : s.lines.filterMap Line.answer? = done.mapIdx fun i m => (i, m.answer)
  pending : s.pendingMsg = if s.alive then rest.map fun _ => done.length else none
  idle (h : s.pendingMsg = none) : s.replyPort = [] ∧ s.expiring = false
  /-- A pending command has polls left until it expires. -/
  underWay (m : Message) (h : m ∈ rest) (halive : s.alive = true) :
    m.place ≠ .freed ∧ m.polls + s.pendingTimeout = timeoutPolls ∧
      (s.expiring = true ↔ s.pendingTimeout = 0) ∧
      s.replyPort = if m.place = .replied then [done.length] else []

theorem accounted_initial : Accounted .initial [] none where
  undamaged := rfl
  messages := rfl
  freed _ h := by cases h
  answers := rfl
  pending := rfl
  idle _ := ⟨rfl, rfl⟩
  underWay _ h := by cases h

section Steps

variable {s : State} {done : List Message} {rest : Option Message}

theorem filterMap_sendRaw_none (lines : List Line) (text : Text) :
    (lines ++ [Line.mk none text]).filterMap Line.answer? = lines.filterMap Line.answer? := by
  rw [List.filterMap_append]
  exact List.append_nil _

theorem filterMap_sendRaw_some (lines : List Line) (i : Nat) (text : Text) :
    (lines ++ [Line.mk (some i) text]).filterMap Line.answer? =
      lines.filterMap Line.answer? ++ [(i, text)] := by
  rw [List.filterMap_append]
  rfl

theorem modify_last (done : List Message) (m : Message) (f : Message → Message) :
    (done ++ [m]).modify done.length f = done ++ [f m] := by
  induction done with
  | nil => rfl
  | cons d done ih => exact congrArg (d :: ·) ih

/-- The message that is not done is the last one. -/
theorem Accounted.last {m : Message} (h : Accounted s done (some m)) :
    s.messages[done.length]? = some m := by
  rw [h.messages, Option.toList_some]
  exact List.getElem?_concat_length

/-- A message that is not freed is the last one. -/
theorem Accounted.of_place (h : Accounted s done rest) {i : Nat} {p : Place}
    (hplace : s.place? i = some p) (hp : p ≠ .freed) :
    ∃ m, rest = some m ∧ i = done.length ∧ m.place = p := by
  obtain ⟨m, hget, hm⟩ := Option.map_eq_some_iff.mp hplace
  rw [h.messages] at hget
  rcases lt_or_ge i done.length with hlt | hge
  · rw [List.getElem?_append_left hlt] at hget
    exact absurd (hm.symm.trans (h.freed m (List.mem_of_getElem? hget))) hp
  · rw [List.getElem?_append_right hge] at hget
    cases rest with
    | none => cases hget
    | some last =>
      rw [Option.toList_some, List.getElem?_singleton] at hget
      obtain ⟨hzero, heq⟩ := Option.ite_none_right_eq_some.mp hget
      cases heq
      exact ⟨m, rfl, by omega, hm⟩

/-- A pending command is the last message. -/
theorem Accounted.of_pending (h : Accounted s done rest) {i : Nat}
    (hpending : s.pendingMsg = some i) : ∃ m, rest = some m ∧ i = done.length ∧ s.alive = true := by
  have heq := h.pending.symm.trans hpending
  split at heq
  · rename_i halive
    obtain ⟨m, hm, hi⟩ := Option.map_eq_some_iff.mp heq
    exact ⟨m, hm, hi.symm, halive⟩
  · cases heq

/-- A bridge with nothing pending has no message left. -/
theorem Accounted.of_idle (h : Accounted s done rest) (hpending : s.pendingMsg = none)
    (halive : s.alive = true) : rest = none := by
  have heq := h.pending.symm.trans hpending
  rw [if_pos halive] at heq
  exact Option.map_eq_none_iff.mp heq

/-- A command is sent only while nothing is pending. -/
theorem of_sendError {args : Text} {outcome : Outcome} (h : s.sendError args outcome = none) :
    s.alive = true ∧ s.pendingMsg = none := by
  unfold State.sendError at h
  split at h
  · cases h
  · rename_i halive
    split at h
    · cases h
    · rename_i hpending
      exact ⟨not_not.mp halive, Option.not_isSome_iff_eq_none.mp hpending⟩

theorem Accounted.handleSend (h : Accounted s done rest) (hexpiring : s.expiring = false)
    (args : Text) (outcome : Outcome) :
    ∃ done' rest', Accounted (s.handleSend args outcome) done' rest' := by
  unfold State.handleSend
  cases herror : s.sendError args outcome with
  | some error =>
    exact ⟨done, rest, { h with answers := (filterMap_sendRaw_none ..).trans h.answers }⟩
  | none =>
    obtain ⟨halive, hpending⟩ := of_sendError herror
    have hrest := h.of_idle hpending halive
    subst hrest
    have hmessages : s.messages = done := h.messages.trans (List.append_nil _)
    refine ⟨done, some ⟨(args.after? '|').getD [], .queued, 0, [], 0⟩,
      { h with messages := ?_, pending := ?_, idle := ?_, underWay := ?_ }⟩
    · rw [hmessages]
      rfl
    · rw [if_pos halive, hmessages]
      rfl
    · intro hnone
      cases hnone
    · intro m hm _
      cases hm
      exact ⟨Place.noConfusion, rfl, by simp [hexpiring, timeoutPolls], (h.idle hpending).1⟩

/-- The last message is done, with its answer. -/
theorem Accounted.settle {m : Message} {s' : State} {text : Text}
    (h : Accounted s done (some m)) (hdamaged : s'.damaged = false)
    (hmessages : s'.messages = done ++ [{ m with place := .freed }])
    (hlines : s'.lines = s.lines ++ [⟨some done.length, text⟩]) (htext : text = m.answer)
    (hpending : s'.pendingMsg = none) (hidle : s'.replyPort = [] ∧ s'.expiring = false) :
    Accounted s' (done ++ [{ m with place := .freed }]) none where
  undamaged := hdamaged
  messages := hmessages.trans (List.append_nil _).symm
  freed d hd := by
    rcases List.mem_append.mp hd with hold | hnew
    · exact h.freed d hold
    · rw [List.mem_singleton.mp hnew]
  answers := by
    have hanswer : Message.answer { m with place := .freed } = m.answer := rfl
    rw [hlines, filterMap_sendRaw_some, h.answers, List.mapIdx_concat, hanswer, htext]
  pending := by
    rw [hpending]
    split
    · rfl
    · rfl
  idle _ := hidle
  underWay _ hm := by cases hm

theorem Accounted.poll (h : Accounted s done rest) (hexpiring : s.expiring = false) :
    ∃ done' rest', Accounted s.poll done' rest' := by
  unfold State.poll
  cases hpending : s.pendingMsg with
  | none => exact ⟨done, rest, h⟩
  | some i =>
    obtain ⟨m, hrest, hi, halive⟩ := h.of_pending hpending
    subst hrest hi
    obtain ⟨hplace, hpolls, hzero, hport⟩ := h.underWay m rfl halive
    have htime : s.pendingTimeout ≠ 0 := by
      intro htime
      exact Bool.false_ne_true (hexpiring.symm.trans (hzero.mpr htime))
    simp only [halive, if_true]
    by_cases hreplied : m.place = .replied
    · -- the reply in the port is the pending message's
      rw [if_pos hreplied] at hport
      simp only [hport]
      have hlast := h.last
      refine ⟨_, _, h.settle ?_ ?_ rfl ?_ rfl ⟨rfl, hexpiring⟩⟩
      · simp [State.sendRaw, State.free, State.modify, State.place?, hlast, hreplied, h.undamaged]
      · change s.messages.modify done.length _ = _
        rw [h.messages]
        exact modify_last ..
      · rw [State.resultText, hlast, Message.answer, if_neg (by omega)]
    · rw [if_neg hreplied] at hport
      simp only [hport]
      refine ⟨done, some { m with polls := m.polls + 1 },
        { h with messages := ?_, idle := ?_, underWay := ?_ }⟩
      · change s.messages.modify done.length _ = _
        rw [h.messages]
        exact modify_last ..
      · intro hnone
        exact absurd (hnone.symm.trans hpending) (by simp)
      · intro m' hm' _
        cases hm'
        refine ⟨hplace, ?_, ?_, ?_⟩
        · change m.polls + 1 + (s.pendingTimeout - 1) = timeoutPolls
          omega
        · exact beq_iff_eq
        · change s.replyPort = if m.place = .replied then _ else _
          rw [hport, if_neg hreplied]

theorem Accounted.expire (h : Accounted s done rest) (hexpiring : s.expiring = true)
    (hpermitted : ∀ i ∈ s.pendingMsg, s.place? i ≠ some .held) :
    ∃ done' rest', Accounted s.expire done' rest' := by
  unfold State.expire
  cases hpending : s.pendingMsg with
  | none => exact ⟨done, rest, h⟩
  | some i =>
    obtain ⟨m, hrest, hi, halive⟩ := h.of_pending hpending
    subst hrest hi
    obtain ⟨hplace, hpolls, hzero, hport⟩ := h.underWay m rfl halive
    have hlast := h.last
    have hheld : m.place ≠ .held := by
      intro hheld
      exact hpermitted _ hpending (by rw [State.place?, hlast, Option.map_some, hheld])
    refine ⟨_, _, h.settle ?_ ?_ rfl ?_ rfl ⟨?_, rfl⟩⟩
    · have howned : m.place ∈ [Place.queued, .replied] := by
        cases hm : m.place with
        | queued => exact List.mem_cons_self
        | held => exact absurd hm hheld
        | replied => exact List.mem_cons_of_mem _ List.mem_cons_self
        | freed => exact absurd hm hplace
      simp only [State.sendRaw, State.free, State.modify, State.place?, hlast, Option.map_some,
        Option.any_some, howned, h.undamaged, decide_true, Bool.not_true, Bool.or_self]
    · change s.messages.modify done.length _ = _
      rw [h.messages]
      exact modify_last ..
    · have hfifty : m.polls = timeoutPolls := by
        have htime := hzero.mp hexpiring
        omega
      rw [Message.answer, if_pos hfifty]
    · change s.replyPort.erase done.length = []
      rw [hport]
      split
      · exact List.erase_cons_head ..
      · rfl

theorem Accounted.cleanup (h : Accounted s done rest) (hexpiring : s.expiring = false) :
    ∃ done' rest', Accounted s.cleanup done' rest' := by
  unfold State.cleanup
  cases hpending : s.pendingMsg with
  | none =>
    obtain ⟨hport, _⟩ := h.idle hpending
    rw [hport]
    refine ⟨done, rest, { h with pending := rfl, idle := fun _ => ⟨rfl, hexpiring⟩, underWay := ?_ }⟩
    intro _ _ halive
    cases halive
  | some i =>
    obtain ⟨m, hrest, hi, halive⟩ := h.of_pending hpending
    subst hrest hi
    obtain ⟨_, _, _, hport⟩ := h.underWay m rfl halive
    have hlast := h.last
    by_cases hreplied : m.place = .replied
    · rw [if_pos hreplied] at hport
      rw [hport]
      refine ⟨done, some { m with place := .freed },
        { h with undamaged := ?_, messages := ?_, pending := rfl, idle := fun _ => ⟨rfl, hexpiring⟩,
                 underWay := ?_ }⟩
      · simp [State.free, State.modify, State.place?, hlast, hreplied, h.undamaged]
      · change s.messages.modify done.length _ = _
        rw [h.messages]
        exact modify_last ..
      · intro _ _ halive
        cases halive
    · rw [if_neg hreplied] at hport
      rw [hport]
      refine ⟨done, some m,
        { h with pending := rfl, idle := fun _ => ⟨rfl, hexpiring⟩, underWay := ?_ }⟩
      intro _ _ halive
      cases halive

/-- An application takes the message that is queued. -/
theorem Accounted.take (h : Accounted s done rest) {i : Nat} (hplace : s.place? i = some .queued) :
    ∃ done' rest', Accounted (s.modify i ({ · with place := .held })) done' rest' := by
  obtain ⟨m, hrest, hi, hm⟩ := h.of_place hplace Place.noConfusion
  subst hrest hi
  refine ⟨done, some { m with place := .held }, { h with messages := ?_, underWay := ?_ }⟩
  · change s.messages.modify done.length _ = _
    rw [h.messages]
    exact modify_last ..
  · intro m' hm' halive
    cases hm'
    obtain ⟨_, hpolls, hzero, hport⟩ := h.underWay m rfl halive
    rw [hm] at hport
    exact ⟨Place.noConfusion, hpolls, hzero, hport⟩

/-- An application replies the message that it holds. -/
theorem Accounted.reply (h : Accounted s done rest) {i : Nat} (hplace : s.place? i = some .held)
    (halive : s.alive = true) (result1 : Int) (result2 : Text) :
    ∃ done' rest', Accounted
      { s.modify i (fun m => { m with place := .replied, result1, result2 }) with
        replyPort := s.replyPort ++ [i]
        damaged := s.damaged || !s.alive } done' rest' := by
  obtain ⟨m, hrest, hi, hm⟩ := h.of_place hplace Place.noConfusion
  subst hrest hi
  obtain ⟨_, hpolls, hzero, hport⟩ := h.underWay m rfl halive
  rw [hm] at hport
  refine ⟨done, some { m with place := .replied, result1, result2 },
    { h with undamaged := ?_, messages := ?_, idle := ?_, underWay := ?_ }⟩
  · simp only [h.undamaged, halive, Bool.not_true, Bool.or_self]
  · change s.messages.modify done.length _ = _
    rw [h.messages]
    exact modify_last ..
  · intro hnone
    exact absurd (h.of_idle hnone halive) (by simp)
  · intro m' hm' _
    cases hm'
    refine ⟨Place.noConfusion, hpolls, hzero, ?_⟩
    change s.replyPort ++ [done.length] = [done.length]
    rw [hport]
    rfl

theorem Accounted.step {s' : State} {label : Label} (h : Accounted s done rest)
    (hpermitted : Permitted s label) (hstep : s.step label = some s') :
    ∃ done' rest', Accounted s' done' rest' := by
  cases label with
  | send args outcome =>
    obtain ⟨hexpiring, hnext⟩ := Option.ite_none_left_eq_some.mp hstep
    cases hnext
    exact h.handleSend (Bool.eq_false_iff.mpr hexpiring) args outcome
  | poll =>
    obtain ⟨hexpiring, hnext⟩ := Option.ite_none_left_eq_some.mp hstep
    cases hnext
    exact h.poll (Bool.eq_false_iff.mpr hexpiring)
  | expire =>
    obtain ⟨hexpiring, hnext⟩ := Option.ite_none_right_eq_some.mp hstep
    cases hnext
    exact h.expire hexpiring (hpermitted hexpiring)
  | cleanup =>
    obtain ⟨hexpiring, hnext⟩ := Option.ite_none_left_eq_some.mp hstep
    cases hnext
    exact h.cleanup (Bool.eq_false_iff.mpr hexpiring)
  | take i =>
    obtain ⟨hplace, hnext⟩ := Option.ite_none_right_eq_some.mp hstep
    cases hnext
    exact h.take hplace
  | reply i result1 result2 =>
    obtain ⟨hplace, hnext⟩ := Option.ite_none_right_eq_some.mp hstep
    cases hnext
    exact h.reply hplace (hpermitted hplace) result1 result2

end Steps

section Damage

variable {s s' : State} {label : Label}

theorem damaged_free (s : State) (i : Nat) (owned : List Place) (h : s.damaged = true) :
    (s.free i owned).damaged = true := by
  simp only [State.free, h, Bool.true_or]

theorem damaged_foldl_free (port : List Nat) (h : s.damaged = true) :
    (port.foldl (fun s i => s.free i [.replied]) s).damaged = true := by
  induction port generalizing s with
  | nil => exact h
  | cons i port ih => exact ih (damaged_free s i _ h)

/-- Damage stays. -/
theorem damaged_step (h : s.damaged = true) (hstep : s.step label = some s') :
    s'.damaged = true := by
  cases label with
  | send args outcome =>
    obtain ⟨_, hnext⟩ := Option.ite_none_left_eq_some.mp hstep
    cases hnext
    unfold State.handleSend
    split
    · exact h
    · exact h
  | poll =>
    obtain ⟨_, hnext⟩ := Option.ite_none_left_eq_some.mp hstep
    cases hnext
    unfold State.poll
    split
    · exact h
    · split
      · split
        · exact h
        · exact damaged_free _ _ _ h
      · exact h
  | expire =>
    obtain ⟨_, hnext⟩ := Option.ite_none_right_eq_some.mp hstep
    cases hnext
    unfold State.expire
    split
    · exact h
    · exact damaged_free _ _ _ h
  | cleanup =>
    obtain ⟨_, hnext⟩ := Option.ite_none_left_eq_some.mp hstep
    cases hnext
    exact damaged_foldl_free _ h
  | take i =>
    obtain ⟨_, hnext⟩ := Option.ite_none_right_eq_some.mp hstep
    cases hnext
    exact h
  | reply i result1 result2 =>
    obtain ⟨_, hnext⟩ := Option.ite_none_right_eq_some.mp hstep
    cases hnext
    simp only [h, Bool.true_or]

/-- A step that is not permitted does damage. -/
theorem damaged_of_not_permitted (h : ¬ Permitted s label) (hstep : s.step label = some s') :
    s'.damaged = true := by
  cases label with
  | send | poll | cleanup | take => exact absurd trivial h
  | expire =>
    obtain ⟨hexpiring, hnext⟩ := Option.ite_none_right_eq_some.mp hstep
    cases hnext
    simp only [Permitted, hexpiring, true_implies, not_forall, not_not] at h
    obtain ⟨i, hpending, hheld⟩ := h
    have hfree (t : State) (ht : t.place? i = some .held) :
        (t.free i [.queued, .replied]).damaged = true := by
      simp [State.free, ht]
    unfold State.expire
    rw [hpending]
    exact hfree _ hheld
  | reply i result1 result2 =>
    obtain ⟨hplace, hnext⟩ := Option.ite_none_right_eq_some.mp hstep
    cases hnext
    simp only [Permitted, hplace, true_implies] at h
    simp only [h, Bool.not_false, Bool.or_true]

/-- As long as nothing is damaged, everything is accounted for. -/
theorem accounted_step
    (h : s.damaged = false → ∃ done rest, Accounted s done rest)
    (hstep : s.step label = some s') (hundamaged : s'.damaged = false) :
    ∃ done rest, Accounted s' done rest := by
  have hbefore : s.damaged = false := by
    by_contra hdamaged
    exact Bool.false_ne_true (hundamaged.symm.trans
      (damaged_step (Bool.not_eq_false _ ▸ hdamaged) hstep))
  have hpermitted : Permitted s label := by
    by_contra hnot
    exact Bool.false_ne_true (hundamaged.symm.trans (damaged_of_not_permitted hnot hstep))
  obtain ⟨done, rest, haccounted⟩ := h hbefore
  exact haccounted.step hpermitted hstep

end Damage

/-- No message is touched that the daemon does not own, in exactly the runs in which no command
times out in an application's hands and none is replied to a closed bridge. In all of them, every
command is answered once, in order, with its own result or after fifty polls. -/
theorem messages_safe_iff (labels : List Label) :
    (Always State.step (·.damaged = false) .initial labels ↔
        AllPermitted State.step Permitted .initial labels) ∧
      Always State.step (fun s => s.damaged = false → ∃ done rest, Accounted s done rest)
        .initial labels := by
  have hkeep (s : State) (a : Label) (s' : State)
      (h : s.damaged = false → ∃ done rest, Accounted s done rest)
      (hstep : s.step a = some s') : s'.damaged = false → ∃ done rest, Accounted s' done rest :=
    accounted_step h hstep
  have hexact (s : State) (a : Label) (s' : State)
      (h : s.damaged = false → ∃ done rest, Accounted s done rest) (hundamaged : s.damaged = false)
      (hstep : s.step a = some s') : s'.damaged = false ↔ Permitted s a := by
    constructor
    · intro hafter
      by_contra hnot
      exact Bool.false_ne_true (hafter.symm.trans (damaged_of_not_permitted hnot hstep))
    · intro hpermitted
      obtain ⟨done, rest, haccounted⟩ := h hundamaged
      obtain ⟨_, _, hnext⟩ := haccounted.step hpermitted hstep
      exact hnext.undamaged
  have hdisabled (s : State) (a : Label) (hstep : s.step a = none) : Permitted s a := by
    cases a with
    | send | poll | cleanup | take => trivial
    | expire =>
      intro hexpiring
      rw [State.step, if_pos hexpiring] at hstep
      cases hstep
    | reply i result1 result2 =>
      intro hplace
      rw [State.step, if_pos hplace] at hstep
      cases hstep
  have hstart : State.initial.damaged = false → ∃ done rest, Accounted .initial done rest :=
    fun _ => ⟨[], none, accounted_initial⟩
  exact ⟨always_iff_allPermitted hkeep hexact hdisabled labels .initial hstart rfl,
    Always.of_inv hkeep labels .initial hstart⟩

/-- An application that takes ten seconds loses its message to the timeout. -/
example : (runLabels State.step .initial
    ([.send "REXX|WAIT".toList .sent, .take 0] ++ List.replicate 50 .poll ++ [.expire])).map
      (·.damaged) = some true := by
  decide

end AmigaDevbench.Daemon.Arexx
