import AmigaDevbench.Core.Replay
import AmigaDevbench.Core.Runs
import AmigaDevbench.Host.DebuggerState
import AmigaDevbench.Host.EventBus
import AmigaDevbench.Host.SerialConn

/-!
# The debugger state and its subscribers

`_process_message` updates the debugger state from DBGSTOP and DBGSTATE and publishes an event
for every debugger message. A background listener and the loop of each SSE subscriber take the
events from queues of their own and update the same state again.
-/

namespace AmigaDevbench

/-- `DebuggerState` with the registers of before the last update. -/
structure Tracked where
  dbg : DebuggerState
  prevRegs : Fin 18 → Int

namespace Tracked

/-- `update_from_stop`. -/
def updateFromStop (t : Tracked) (msg : Dict) : Tracked := ⟨t.dbg.updateFromStop msg, t.dbg.regs⟩

/-- `update_from_state`. -/
def updateFromState (t : Tracked) (msg : Dict) : Tracked :=
  { t with dbg := t.dbg.updateFromState msg }

/-- `stopped = False`. -/
def running (t : Tracked) : Tracked := { t with dbg := { t.dbg with stopped := false } }

/-- `reset`. -/
def reset : Tracked := ⟨.reset, fun _ => 0⟩

/-- `changed_regs`. -/
def changedRegs (t : Tracked) : List (Fin 18) :=
  (List.finRange 18).filter fun r => t.dbg.regs r ≠ t.prevRegs r

end Tracked

namespace DebuggerState

/-- `update_from_regs`. -/
def updateFromRegs (dbg : DebuggerState) (msg : Dict) : DebuggerState :=
  let regs := loadRegs (loadRegs dbg.regs 0 (msg.getInts "dataRegs")) 8 (msg.getInts "addrRegs")
  let pc := msg.getInt "pc" dbg.pc
  let sr := msg.getInt "sr" dbg.sr
  { dbg with
    pc := pc
    sr := sr
    regs := Function.update (Function.update regs 16 pc) 17 sr }

end DebuggerState

/-- What a sequence of messages says about the debugger, each taken once. -/
structure Implied where
  dbg : DebuggerState
  /-- The registers of the last stop, zero if there was none since the debugger was attached. -/
  stopRegs : Fin 18 → Int
  /-- The registers in which the last stop differs from the stop before it. -/
  changed : List (Fin 18)

namespace Implied

/-- One more message. -/
def imply (i : Implied) (msg : Dict) : Implied :=
  let type := msg.getText "type" []
  if type = "DBGSTOP".toList then
    let dbg := i.dbg.updateFromStop msg
    { dbg
      stopRegs := dbg.regs
      changed := (List.finRange 18).filter fun r => dbg.regs r ≠ i.stopRegs r }
  else if type = "DBGRUNNING".toList then { i with dbg := { i.dbg with stopped := false } }
  else if type = "DBGSTATE".toList then { i with dbg := i.dbg.updateFromState msg }
  else if type = "DBGREGS".toList then { i with dbg := i.dbg.updateFromRegs msg }
  else if type = "DBGDETACHED".toList then ⟨.reset, fun _ => 0, []⟩
  else i

end Implied

/-- The debugger state of the host with `n` SSE subscribers. The queue of the background listener
stands under `none`. `implied` records what the messages so far say. -/
structure Watched (n : Nat) where
  view : Tracked
  queues : Option (Fin n) → List Event
  implied : Implied

namespace Watched

variable {n : Nat}

/-- The events that `_dbg_state_listener` and `api_events` subscribe to. -/
def subscribed : Option (Fin n) → List String
  | none => ["dbg_stop", "dbg_running", "dbg_detached", "dbg_state"]
  | some _ => ["log", "heartbeat", "var", "connected", "disconnected", "clients", "tasks", "dir",
      "emulator_status", "crash", "snoop", "test", "taildata", "port_conflict", "dbg_stop",
      "dbg_running", "dbg_detached", "fsuae_rpc_status", "fsuae_event"]

/-- The capacity of a subscriber's queue. -/
def maxsize : Nat := 1000

/-- `put_nowait`; a full queue drops its oldest event. -/
def put (queue : List Event) (event : Event) : List Event :=
  if queue.length < maxsize then queue ++ [event] else queue.tail ++ [event]

/-- `publish`. -/
def publish (s : Watched n) (event : Event) : Watched n :=
  { s with queues := fun c =>
      if event.name ∈ subscribed c then put (s.queues c) event else s.queues c }

/-- One effect of `_process_message` on the debugger state and the bus. -/
def perform (s : Watched n) : Effect → Watched n
  | .updateFromStop msg => { s with view := s.view.updateFromStop msg }
  | .updateFromState msg => { s with view := s.view.updateFromState msg }
  | .publish event data => s.publish ⟨event, data⟩
  | _ => s

/-- What a subscriber's loop does with an event. Only the listener has a branch for DBGSTATE. -/
def react (c : Option (Fin n)) (event : Event) (t : Tracked) : Tracked :=
  if event.name = "dbg_stop" then t.updateFromStop event.data
  else if event.name = "dbg_running" then t.running
  else if event.name = "dbg_detached" then .reset
  else if event.name = "dbg_state" ∧ c = none then t.updateFromState event.data
  else t

/-- The daemon's debugger messages. -/
def debugTypes : List Text :=
  ["DBGSTOP".toList, "DBGRUNNING".toList, "DBGSTATE".toList, "DBGREGS".toList,
    "DBGDETACHED".toList]

/-- A debugger message arrives, or a subscriber takes the first event of its queue. -/
inductive Label (n : Nat) where
  | receive (msg : Dict)
  | handle (c : Option (Fin n))

/-- One step. -/
def step (s : Watched n) : Label n → Option (Watched n)
  | .receive msg =>
    if msg.getText "type" [] ∈ debugTypes then
      match SerialConn.processMessage true [] msg with
      | .ok effects =>
        some { effects.foldl perform s with implied := s.implied.imply msg }
      | .error _ => none
    else none
  | .handle c =>
    match s.queues c with
    | [] => none
    | event :: queue =>
      some { s with view := react c event s.view, queues := Function.update s.queues c queue }

/-- A debugger state with no events waiting. -/
def start (n : Nat) (dbg : DebuggerState) : Watched n :=
  ⟨⟨dbg, dbg.regs⟩, fun _ => [], ⟨dbg, dbg.regs, []⟩⟩

/-- Every event has been handled. -/
def Drained (s : Watched n) : Prop := ∀ c, s.queues c = []

/-- The fields of the debugger state are the implied ones. -/
def FieldsMirrored (s : Watched n) : Prop :=
  s.view.dbg.attached = s.implied.dbg.attached ∧ s.view.dbg.stopped = s.implied.dbg.stopped ∧
    s.view.dbg.pc = s.implied.dbg.pc ∧ s.view.dbg.regs = s.implied.dbg.regs

/-- The changed registers are the implied ones. -/
def ChangesMirrored (s : Watched n) : Prop := s.view.changedRegs = s.implied.changed

instance (s : Watched n) : Decidable s.ChangesMirrored :=
  inferInstanceAs (Decidable (s.view.changedRegs = s.implied.changed))

/-! ### The effects of a message -/

/-- What `_process_message` itself does to the debugger state. -/
def direct (msg : Dict) (t : Tracked) : Tracked :=
  if msg.getText "type" [] = "DBGSTOP".toList then t.updateFromStop msg
  else if msg.getText "type" [] = "DBGSTATE".toList then t.updateFromState msg
  else t

/-- The events of a debugger message. -/
def eventsOf (msg : Dict) : List Event :=
  let type := msg.getText "type" []
  if type = "DBGSTOP".toList then [⟨"dbg_stop", msg⟩, ⟨"log", SerialConn.stopEntry msg⟩]
  else if type = "DBGRUNNING".toList then [⟨"dbg_running", msg⟩]
  else if type = "DBGSTATE".toList then [⟨"dbg_state", msg⟩]
  else if type = "DBGREGS".toList then [⟨"dbg_regs", msg⟩]
  else [⟨"dbg_detached", msg⟩]

/-- Queues behind some events. -/
def deliver (queues : Option (Fin n) → List Event) (events : List Event) (c : Option (Fin n)) :
    List Event := (events.filter (·.name ∈ subscribed c)).foldl put (queues c)

/-- Publishing delivers one event. -/
theorem publish_eq (s : Watched n) (event : Event) :
    s.publish event = { s with queues := deliver s.queues [event] } := by
  have hqueues : ∀ c, (if event.name ∈ subscribed c then put (s.queues c) event else s.queues c) =
      deliver s.queues [event] c := by
    intro c
    by_cases hc : event.name ∈ subscribed c <;> simp [deliver, hc]
  rw [publish, funext hqueues]

theorem deliver_append (queues : Option (Fin n) → List Event) (events more : List Event) :
    deliver (deliver queues events) more = deliver queues (events ++ more) := by
  funext c
  rw [deliver, deliver, deliver, List.filter_append, List.foldl_append]

/-- The branch of each debugger message updates the state and publishes the events. -/
theorem perform_dispatch {msg : Dict} (h : msg.getText "type" [] ∈ debugTypes) :
    ∃ effects, SerialConn.dispatch true [] msg = .ok effects ∧ ∀ s : Watched n,
      effects.foldl perform s =
        { s with view := direct msg s.view, queues := deliver s.queues (eventsOf msg) } := by
  simp only [debugTypes, List.mem_cons, List.not_mem_nil, or_false] at h
  unfold SerialConn.dispatch
  rcases h with htype | htype | htype | htype | htype
  · refine ⟨[.updateFromStop msg, .publish "dbg_stop" msg,
      .publish "log" (SerialConn.stopEntry msg)], by simp only [htype]; rfl, fun s => ?_⟩
    simp only [List.foldl_cons, List.foldl_nil, perform, publish_eq, deliver_append, direct,
      eventsOf, htype]
    rfl
  · refine ⟨[.publish "dbg_running" msg], by simp only [htype]; rfl, fun s => ?_⟩
    simp only [List.foldl_cons, List.foldl_nil, perform, publish_eq, direct, eventsOf, htype]
    rfl
  · refine ⟨[.updateFromState msg, .publish "dbg_state" msg], by simp only [htype]; rfl,
      fun s => ?_⟩
    simp only [List.foldl_cons, List.foldl_nil, perform, publish_eq, direct, eventsOf, htype]
    rfl
  · refine ⟨[.publish "dbg_regs" msg], by simp only [htype]; rfl, fun s => ?_⟩
    simp only [List.foldl_cons, List.foldl_nil, perform, publish_eq, direct, eventsOf, htype]
    rfl
  · refine ⟨[.publish "dbg_detached" msg], by simp only [htype]; rfl, fun s => ?_⟩
    simp only [List.foldl_cons, List.foldl_nil, perform, publish_eq, direct, eventsOf, htype]
    rfl

/-- A message updates the state once and leaves its events in the queues. -/
theorem step_receive {s s' : Watched n} {msg : Dict} (h : step s (.receive msg) = some s') :
    msg.getText "type" [] ∈ debugTypes ∧
      s' = ⟨direct msg s.view, deliver s.queues (eventsOf msg), s.implied.imply msg⟩ := by
  simp only [step] at h
  split at h
  · next htype =>
    refine ⟨htype, ?_⟩
    split at h
    · next effects hprocess =>
      obtain ⟨rest, hdispatch, hperform⟩ := perform_dispatch (n := n) htype
      obtain ⟨_, _, hrest⟩ := bind_eq_ok_iff.mp hprocess
      obtain ⟨_, hd, heq⟩ := bind_eq_ok_iff.mp hrest
      rw [hdispatch] at hd
      cases hd
      cases heq
      cases h
      have hsaw : perform s .sawMessage = s := rfl
      rw [List.foldl_cons, hsaw, hperform]
    · cases h
  · cases h

/-- A subscriber takes the first event of its queue. -/
theorem step_handle {s s' : Watched n} {c : Option (Fin n)} (h : step s (.handle c) = some s') :
    ∃ event queue, s.queues c = event :: queue ∧
      s' = { s with view := react c event s.view, queues := Function.update s.queues c queue } := by
  simp only [step] at h
  split at h
  · cases h
  · next event queue hq =>
    cases h
    exact ⟨event, queue, hq, rfl⟩

/-! ### The fields as writes -/

/-- The fields that the messages speak of. -/
inductive Field where
  | attached
  | stopped
  | pc
  | reg (r : Fin 18)
  deriving DecidableEq, Repr

/-- The value of a field, as a number. -/
def value (dbg : DebuggerState) : Field → Int
  | .attached => dbg.attached.toInt
  | .stopped => dbg.stopped.toInt
  | .pc => dbg.pc
  | .reg r => dbg.regs r

/-- What a stop writes. -/
def stopWrite (msg : Dict) : Replay.Write Field Int
  | .attached => none
  | .stopped => some 1
  | .pc => some (msg.getInt "pc" 0)
  | .reg r =>
    if r = 17 then some (msg.getInt "sr" 0)
    else if r = 16 then some (msg.getInt "pc" 0)
    else if r.val < 8 then (msg.getInts "dataRegs")[r.val]?
    else (msg.getInts "addrRegs")[r.val - 8]?

/-- What DBGSTATE writes. -/
def stateWrite (msg : Dict) : Replay.Write Field Int
  | .attached => some (msg.getBool "attached").toInt
  | .stopped => some (msg.getBool "stopped").toInt
  | .pc => some (msg.getInt "pc" 0)
  | .reg _ => none

/-- What a subscriber's loop writes for an event. -/
def writes (c : Option (Fin n)) (event : Event) : Replay.Write Field Int :=
  if event.name = "dbg_stop" then stopWrite event.data
  else if event.name = "dbg_running" then fun f => if f = .stopped then some 0 else none
  else if event.name = "dbg_detached" then fun _ => some 0
  else if event.name = "dbg_state" ∧ c = none then stateWrite event.data
  else fun _ => none

theorem value_updateFromStop (dbg : DebuggerState) (msg : Dict) :
    value (dbg.updateFromStop msg) = (stopWrite msg).apply (value dbg) := by
  funext f
  cases f with
  | attached => rfl
  | stopped => rfl
  | pc => rfl
  | reg r =>
    simp only [value, DebuggerState.updateFromStop, Replay.Write.apply, stopWrite]
    by_cases h17 : r = 17
    · rw [h17, Function.update_self, if_pos rfl, Option.getD_some]
    · rw [Function.update_of_ne h17, if_neg h17]
      by_cases h16 : r = 16
      · rw [h16, Function.update_self, if_pos rfl, Option.getD_some]
      · rw [Function.update_of_ne h16, if_neg h16]
        have hne17 : r.val ≠ 17 := fun h => h17 (Fin.ext h)
        have hne16 : r.val ≠ 16 := fun h => h16 (Fin.ext h)
        have hlt : r.val < 16 := by omega
        by_cases h8 : r.val < 8
        · have hout : ¬ (8 ≤ r.val ∧ r.val < 8 + 8) := by omega
          simp [DebuggerState.loadRegs, h8, hout]
        · have hin : 8 ≤ r.val ∧ r.val < 8 + 8 := by omega
          simp [DebuggerState.loadRegs, h8, hin]

theorem value_updateFromState (dbg : DebuggerState) (msg : Dict) :
    value (dbg.updateFromState msg) = (stateWrite msg).apply (value dbg) := by
  funext f
  cases f <;> rfl

/-- The loop of a subscriber does what its writes say. -/
theorem value_react (c : Option (Fin n)) (event : Event) (t : Tracked) :
    value (react c event t).dbg = (writes c event).apply (value t.dbg) := by
  unfold react writes
  split
  · exact value_updateFromStop t.dbg event.data
  · split
    · funext f
      cases f <;> rfl
    · split
      · funext f
        cases f <;> rfl
      · split
        · exact value_updateFromState t.dbg event.data
        · rfl

/-! ### Fields -/

/-- The writes that wait in each queue. -/
def waiting (s : Watched n) (c : Option (Fin n)) : List (Replay.Write Field Int) :=
  (s.queues c).map (writes c)

/-- Whatever the order in which the queues are worked off, the fields end up as implied. -/
def Settled (s : Watched n) : Prop :=
  Replay.Settles (value s.implied.dbg) (value s.view.dbg) s.waiting

/-- A message after which the fields of the state still end up as implied: there is room in every
queue, no SSE subscriber holds an event that undoes a DBGSTATE, and a DBGREGS, which no loop
takes up, says nothing new. -/
def FieldsPermitted (s : Watched n) : Label n → Prop
  | .receive msg =>
    (∀ c, (s.queues c).length + 2 ≤ maxsize) ∧
      (msg.getText "type" [] = "DBGSTATE".toList → ∀ i f v,
        Replay.last f (s.waiting (some i)) = some v →
          v = value (s.implied.dbg.updateFromState msg) f) ∧
      (msg.getText "type" [] = "DBGREGS".toList →
        value (s.implied.dbg.updateFromRegs msg) = value s.implied.dbg)
  | .handle _ => True

/-- With room in the queue, the events of a message are put behind those that wait. -/
theorem deliver_eq {s : Watched n} {c : Option (Fin n)} (h : (s.queues c).length + 2 ≤ maxsize)
    (msg : Dict) :
    deliver s.queues (eventsOf msg) c =
      s.queues c ++ (eventsOf msg).filter (·.name ∈ subscribed c) := by
  have hput : ∀ (events : List Event) (queue : List Event),
      queue.length + events.length ≤ maxsize → events.foldl put queue = queue ++ events := by
    intro events
    induction events with
    | nil => exact fun queue _ => (List.append_nil queue).symm
    | cons event events ih =>
      intro queue hroom
      rw [List.length_cons] at hroom
      have hlt : queue.length < maxsize := by omega
      rw [List.foldl_cons, put, if_pos hlt, ih _ (by simp; omega), List.append_assoc,
        List.singleton_append]
  have hshort : ((eventsOf msg).filter (·.name ∈ subscribed c)).length ≤ 2 := by
    refine (List.length_filter_le _ _).trans ?_
    unfold eventsOf
    simp only
    repeat' split
    all_goals simp
  exact hput _ _ (by omega)

/-- What the events of a message add to the writes that wait for a field. -/
theorem last_deliver {s : Watched n} {c : Option (Fin n)}
    (h : (s.queues c).length + 2 ≤ maxsize) (msg : Dict) (f : Field) :
    Replay.last f ((deliver s.queues (eventsOf msg) c).map (writes c)) =
      (Replay.last f (((eventsOf msg).filter (·.name ∈ subscribed c)).map (writes c))).or
        (Replay.last f (s.waiting c)) := by
  rw [deliver_eq h, List.map_append, Replay.last_append, waiting]

/-- What a message other than DBGREGS writes. -/
def messageWrite (msg : Dict) : Replay.Write Field Int :=
  let type := msg.getText "type" []
  if type = "DBGSTOP".toList then stopWrite msg
  else if type = "DBGRUNNING".toList then fun f => if f = .stopped then some 0 else none
  else if type = "DBGSTATE".toList then stateWrite msg
  else fun _ => some 0

/-- The writes in the events of a message that a subscriber gets. -/
def heardWrites (c : Option (Fin n)) (msg : Dict) : List (Replay.Write Field Int) :=
  ((eventsOf msg).filter (·.name ∈ subscribed c)).map (writes c)

/-- Every loop replays a message, except that SSE subscribers pass DBGSTATE over. -/
theorem last_heardWrites {msg : Dict} (h : msg.getText "type" [] ∈ debugTypes)
    (hregs : msg.getText "type" [] ≠ "DBGREGS".toList) (c : Option (Fin n)) (f : Field) :
    Replay.last f (heardWrites c msg) =
      if msg.getText "type" [] = "DBGSTATE".toList ∧ c ≠ none then none else messageWrite msg f := by
  simp only [debugTypes, List.mem_cons, List.not_mem_nil, or_false] at h
  unfold heardWrites eventsOf messageWrite
  rcases h with htype | htype | htype | htype | htype
  · simp only [htype]
    cases c <;> cases f <;> rfl
  · simp only [htype]
    cases c <;> cases f <;> rfl
  · simp only [htype]
    cases c <;> cases f <;> rfl
  · exact absurd htype hregs
  · simp only [htype]
    cases c <;> cases f <;> rfl

/-- The implied fields are those behind the message's write. -/
theorem value_imply {msg : Dict} (h : msg.getText "type" [] ∈ debugTypes)
    (hregs : msg.getText "type" [] ≠ "DBGREGS".toList) (i : Implied) :
    value (i.imply msg).dbg = (messageWrite msg).apply (value i.dbg) := by
  simp only [debugTypes, List.mem_cons, List.not_mem_nil, or_false] at h
  unfold Implied.imply messageWrite
  rcases h with htype | htype | htype | htype | htype
  · simp only [htype]
    exact value_updateFromStop i.dbg msg
  · simp only [htype]
    funext f
    cases f <;> rfl
  · simp only [htype]
    exact value_updateFromState i.dbg msg
  · exact absurd htype hregs
  · simp only [htype]
    funext f
    cases f <;> rfl

/-- `_process_message` itself changes no field otherwise than the message says. -/
theorem value_direct (msg : Dict) (t : Tracked) (f : Field) :
    value (direct msg t).dbg f = value t.dbg f ∨
      messageWrite msg f = some (value (direct msg t).dbg f) := by
  have happly : ∀ (w : Replay.Write Field Int) (v : Field → Int),
      w.apply v f = v f ∨ w f = some (w.apply v f) := by
    intro w v
    cases hw : w f with
    | none => exact Or.inl (by simp [Replay.Write.apply, hw])
    | some x => exact Or.inr (by simp [Replay.Write.apply, hw])
  unfold direct messageWrite
  by_cases hstop : msg.getText "type" [] = "DBGSTOP".toList
  · simp only [hstop, if_true]
    rw [show (t.updateFromStop msg).dbg = t.dbg.updateFromStop msg from rfl, value_updateFromStop]
    exact happly _ _
  · by_cases hstate : msg.getText "type" [] = "DBGSTATE".toList
    · have hrunning : msg.getText "type" [] ≠ "DBGRUNNING".toList := by
        rw [hstate]
        decide
      simp only [if_neg hstop, if_pos hstate, if_neg hrunning]
      rw [show (t.updateFromState msg).dbg = t.dbg.updateFromState msg from rfl,
        value_updateFromState]
      exact happly _ _
    · left
      rw [if_neg hstop, if_neg hstate]

/-- Nobody takes up DBGREGS. -/
theorem unheard_regs {msg : Dict} (hregs : msg.getText "type" [] = "DBGREGS".toList)
    (c : Option (Fin n)) : (eventsOf msg).filter (·.name ∈ subscribed c) = [] := by
  unfold eventsOf
  simp only [hregs]
  cases c <;> rfl

/-- A permitted message keeps the outcome settled. -/
theorem Settled.receive {s : Watched n} {msg : Dict} (h : s.Settled)
    (hpermit : s.FieldsPermitted (.receive msg)) (htype : msg.getText "type" [] ∈ debugTypes) :
    Settled ⟨direct msg s.view, deliver s.queues (eventsOf msg), s.implied.imply msg⟩ := by
  obtain ⟨hroom, hstate, hregs⟩ := hpermit
  have hlast := fun c => last_deliver (hroom c) msg
  by_cases hr : msg.getText "type" [] = "DBGREGS".toList
  · have hview : direct msg s.view = s.view := by
      unfold direct
      rw [hr, if_neg (by decide), if_neg (by decide)]
    have himply : value (s.implied.imply msg).dbg = value s.implied.dbg := by
      have hsame := hregs hr
      unfold Implied.imply
      simp only [hr]
      exact hsame
    have hqueues : deliver s.queues (eventsOf msg) = s.queues := by
      funext c
      rw [deliver, unheard_regs hr, List.foldl_nil]
    simp only [Settled, hview, himply]
    unfold waiting
    rw [hqueues]
    exact h
  · have hheard : ∀ c f, Replay.last f ((deliver s.queues (eventsOf msg) c).map (writes c)) =
        (if msg.getText "type" [] = "DBGSTATE".toList ∧ c ≠ none then none else messageWrite msg f).or
          (Replay.last f (s.waiting c)) := by
      intro c f
      have hw := last_heardWrites htype hr c f
      rw [heardWrites] at hw
      rw [hlast c f, hw]
    have hwrite := value_imply htype hr s.implied
    unfold Settled
    rw [hwrite]
    refine Replay.Settles.publish h (fun f => value_direct msg s.view f) (fun c f => ?_) none
      (fun f => ?_)
    · by_cases hc : msg.getText "type" [] = "DBGSTATE".toList ∧ c ≠ none
      · right
        obtain ⟨i, rfl⟩ := Option.ne_none_iff_exists'.mp hc.2
        have hsame := hheard (some i) f
        rw [if_pos hc, Option.none_or] at hsame
        refine ⟨hsame, fun v hv => ?_⟩
        have hagree := hstate hc.1 i f v hv
        rw [hagree, ← hwrite]
        unfold Implied.imply
        simp only [hc.1]
        rfl
      · left
        have hnew := hheard c f
        rwa [if_neg hc] at hnew
    · have hnew := hheard none f
      rwa [if_neg (by simp)] at hnew

/-- A permitted step keeps the outcome settled. -/
theorem Settled.step {s s' : Watched n} {a : Label n} (h : s.Settled)
    (hpermit : s.FieldsPermitted a) (hstep : Watched.step s a = some s') : s'.Settled := by
  cases a with
  | handle c =>
    obtain ⟨event, queue, hq, rfl⟩ := step_handle hstep
    have hwaiting : s.waiting c = writes c event :: queue.map (writes c) := by
      rw [waiting, hq, List.map_cons]
    have hnext := Replay.Settles.handle h hwaiting
    have hqueues : Function.update s.waiting c (queue.map (writes c)) =
        waiting { s with view := react c event s.view,
                         queues := Function.update s.queues c queue } := by
      funext d
      by_cases hd : d = c
      · subst hd
        simp only [waiting, Function.update_self]
      · simp only [waiting, Function.update_of_ne hd]
    rw [hqueues, ← value_react c event s.view] at hnext
    exact hnext
  | receive msg =>
    obtain ⟨htype, rfl⟩ := step_receive hstep
    exact h.receive hpermit htype

/-- With the outcome settled and nothing waiting, the fields are the implied ones. -/
theorem Settled.fieldsMirrored {s : Watched n} (h : s.Settled) (hdrained : s.Drained) :
    s.FieldsMirrored := by
  have hvalue : value s.view.dbg = value s.implied.dbg :=
    Replay.Settles.eq_of_empty h fun c => by rw [waiting, hdrained c, List.map_nil]
  have hbool : ∀ {a b : Bool}, a.toInt = b.toInt → a = b := by decide
  exact ⟨hbool (congrFun hvalue .attached), hbool (congrFun hvalue .stopped),
    congrFun hvalue .pc, funext fun r => congrFun hvalue (.reg r)⟩

/-! ### Changed registers -/

/-- Applying a stop, on its arrival or from a queue, leaves the registers as they are, and they
are those of the stop before it. -/
def Quiet (s : Watched n) : Label n → Prop
  | .receive msg => msg.getText "type" [] = "DBGSTOP".toList →
    (s.view.dbg.updateFromStop msg).regs = s.view.dbg.regs ∧
      (s.implied.dbg.updateFromStop msg).regs = s.implied.stopRegs
  | .handle c => ∀ event queue, s.queues c = event :: queue → event.name = "dbg_stop" →
    (s.view.dbg.updateFromStop event.data).regs = s.view.dbg.regs

/-- No register counts as changed. -/
def Unchanged (s : Watched n) : Prop :=
  s.view.dbg.regs = s.view.prevRegs ∧ s.implied.changed = []

theorem changedRegs_eq_nil_iff (t : Tracked) : t.changedRegs = [] ↔ t.dbg.regs = t.prevRegs := by
  simp [Tracked.changedRegs, funext_iff]

theorem Unchanged.changesMirrored {s : Watched n} (h : s.Unchanged) : s.ChangesMirrored :=
  ((changedRegs_eq_nil_iff s.view).mpr h.1).trans h.2.symm

/-- Quiet steps change no register. -/
theorem Unchanged.step {s s' : Watched n} {a : Label n} (h : s.Unchanged) (hquiet : s.Quiet a)
    (hstep : Watched.step s a = some s') : s'.Unchanged := by
  cases a with
  | handle c =>
    obtain ⟨event, queue, hq, rfl⟩ := step_handle hstep
    refine ⟨?_, h.2⟩
    change (react c event s.view).dbg.regs = (react c event s.view).prevRegs
    unfold react
    split
    · next hname => exact hquiet event queue hq hname
    · split
      · exact h.1
      · split
        · rfl
        · split
          · exact h.1
          · exact h.1
  | receive msg =>
    obtain ⟨htype, rfl⟩ := step_receive hstep
    constructor
    · change (direct msg s.view).dbg.regs = (direct msg s.view).prevRegs
      unfold direct
      split
      · next hstop => exact (hquiet hstop).1
      · split
        · exact h.1
        · exact h.1
    · change (s.implied.imply msg).changed = []
      unfold Implied.imply
      simp only
      split
      · next hstop =>
        have hsame := (hquiet hstop).2
        simp [hsame]
      · repeat' split
        all_goals first
          | exact h.2
          | rfl

/-- A stop that is applied again leaves the registers as they are. -/
theorem regs_updateFromStop_twice (dbg : DebuggerState) (msg : Dict) :
    ((dbg.updateFromStop msg).updateFromStop msg).regs = (dbg.updateFromStop msg).regs := by
  have htwice : value ((dbg.updateFromStop msg).updateFromStop msg) =
      value (dbg.updateFromStop msg) := by
    rw [value_updateFromStop (dbg.updateFromStop msg), value_updateFromStop dbg,
      Replay.Write.apply_apply]
  funext r
  exact congrFun htwice (.reg r)

/-- Between the arrival of a stop and the state in which everyone has handled it. -/
structure Spreading (s : Watched n) (msg : Dict) (implied : Implied) : Prop where
  events : ∀ c, ∀ event ∈ s.queues c, event = ⟨"dbg_stop", msg⟩ ∨ event.name = "log"
  applied : (s.view.dbg.updateFromStop msg).regs = s.view.dbg.regs
  again : s.queues none = [⟨"dbg_stop", msg⟩] ∨ s.view.dbg.regs = s.view.prevRegs
  implied : s.implied = implied

/-- Every further loop that takes the stop finds it applied. -/
theorem Spreading.handle {s s' : Watched n} {msg : Dict} {i : Implied} (h : s.Spreading msg i)
    {c : Option (Fin n)} (hstep : Watched.step s (.handle c) = some s') : s'.Spreading msg i := by
  obtain ⟨event, queue, hq, rfl⟩ := step_handle hstep
  have hevents : ∀ d, ∀ e ∈ Function.update s.queues c queue d,
      e = ⟨"dbg_stop", msg⟩ ∨ e.name = "log" := by
    intro d e he
    by_cases hd : d = c
    · subst hd
      rw [Function.update_self] at he
      exact h.events d e (hq ▸ List.mem_cons_of_mem _ he)
    · rw [Function.update_of_ne hd] at he
      exact h.events d e he
  rcases h.events c event (hq ▸ List.mem_cons_self) with rfl | hlog
  · refine ⟨hevents, ?_, Or.inr h.applied, h.implied⟩
    exact regs_updateFromStop_twice s.view.dbg msg
  · have hview : react c event s.view = s.view := by
      simp [react, hlog]
    refine ⟨hevents, hview.symm ▸ h.applied, ?_, h.implied⟩
    rcases h.again with hlistener | hsame
    · left
      have hc : c ≠ none := by
        rintro rfl
        rw [hlistener] at hq
        cases hq
        exact absurd (show "dbg_stop" = "log" from hlog) (by decide)
      change Function.update s.queues c queue none = _
      rw [Function.update_of_ne (Ne.symm hc), hlistener]
    · exact Or.inr (hview.symm ▸ hsame)

/-- After a stop that nobody had to wait for, no register counts as changed. -/
theorem unchanged_after_stop {s t : Watched n} {msg : Dict} {order : List (Option (Fin n))}
    (hdrained : s.Drained) (hstop : msg.getText "type" [] = "DBGSTOP".toList)
    (hrun : runLabels step s (.receive msg :: order.map .handle) = some t) (ht : t.Drained) :
    t.view.changedRegs = [] ∧ t.implied = s.implied.imply msg := by
  obtain ⟨s', hstep, hrest⟩ := Option.bind_eq_some_iff.mp hrun
  obtain ⟨htype, rfl⟩ := step_receive hstep
  have hroom : ∀ c, (s.queues c).length + 2 ≤ maxsize := fun c => by simp [hdrained c, maxsize]
  have hqueues := fun c => deliver_eq (hroom c) msg
  have hevents : eventsOf msg = [⟨"dbg_stop", msg⟩, ⟨"log", SerialConn.stopEntry msg⟩] := by
    unfold eventsOf
    simp only [hstop, if_true]
  have hdirect : direct msg s.view = s.view.updateFromStop msg := by
    unfold direct
    rw [if_pos hstop]
  have hfirst : Spreading ⟨direct msg s.view, deliver s.queues (eventsOf msg), s.implied.imply msg⟩
      msg (s.implied.imply msg) := by
    refine ⟨fun c e he => ?_, ?_, Or.inl ?_, rfl⟩
    · have hmem : e ∈ eventsOf msg := by
        rw [show Watched.queues _ c = _ from hqueues c, hdrained c, List.nil_append] at he
        exact List.mem_of_mem_filter he
      rw [hevents] at hmem
      simp only [List.mem_cons, List.not_mem_nil, or_false] at hmem
      rcases hmem with rfl | rfl
      · exact Or.inl rfl
      · exact Or.inr rfl
    · change ((direct msg s.view).dbg.updateFromStop msg).regs = (direct msg s.view).dbg.regs
      rw [hdirect]
      exact regs_updateFromStop_twice s.view.dbg msg
    · change deliver s.queues (eventsOf msg) none = _
      rw [hqueues none, hdrained none, hevents]
      rfl
  have hall : ∀ {u : Watched n}, u.Spreading msg (s.implied.imply msg) →
      runLabels step u (order.map .handle) = some t → t.Spreading msg (s.implied.imply msg) := by
    clear hrun hrest
    induction order with
    | nil =>
      intro u hu hrun
      cases hrun
      exact hu
    | cons c order ih =>
      intro u hu hrun
      obtain ⟨u', hu', hmore⟩ := Option.bind_eq_some_iff.mp hrun
      exact ih (hu.handle hu') hmore
  have hlast := hall hfirst hrest
  refine ⟨(changedRegs_eq_nil_iff t.view).mpr ?_, hlast.implied⟩
  exact hlast.again.resolve_left (by simp [ht none])

/-- A stop at `pc` with all other registers zero. -/
def stopAt (pc : Int) : Dict :=
  [("type", .str "DBGSTOP".toList), ("reason", .str "breakpoint".toList), ("pc", .int pc),
    ("sr", .int 0), ("dataRegs", .list []), ("addrRegs", .list []), ("warnings", .list []),
    ("timestamp", .str [])]

/-- A message without fields. -/
def bareMessage (type : String) : Dict := [("type", .str type.toList), ("timestamp", .str [])]

end Watched

end AmigaDevbench
