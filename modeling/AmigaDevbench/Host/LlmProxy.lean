import AmigaDevbench.Core.Raises
import AmigaDevbench.Core.Text

/-!
# The turns of `llm_proxy.py`

A turn runs the model for up to six steps, and sends the Amiga a TOKEN event for each piece of
text, a TOOL event for each command the model asks for, and DONE. The model, the Amiga's answers,
and the points at which the turn is cancelled are the turn's environment.
-/

namespace AmigaDevbench.LlmProxy

open Raises

/-! ### Values -/

/-- A decoded JSON value. Of a number with a fraction only its text and whether it is zero are
kept. -/
inductive Json where
  | null
  | bool (b : Bool)
  | int (n : Int)
  | float (text : Text) (zero : Bool)
  | str (s : Text)
  | list (xs : List Json)
  | dict (kvs : List (Text × Json))

namespace Json

/-- `bool(v)`. -/
def truthy : Json → Bool
  | .null => false
  | .bool b => b
  | .int n => n != 0
  | .float _ zero => !zero
  | .str s => !s.isEmpty
  | .list xs => !xs.isEmpty
  | .dict kvs => !kvs.isEmpty

/-- `type(v).__name__`. -/
def typeName : Json → Text
  | .null => "NoneType".toList
  | .bool _ => "bool".toList
  | .int _ => "int".toList
  | .float _ _ => "float".toList
  | .str _ => "str".toList
  | .list _ => "list".toList
  | .dict _ => "dict".toList

def isText (v : Json) (s : Text) : Bool :=
  match v with
  | .str t => t == s
  | .null | .bool _ | .int _ | .float _ _ | .list _ | .dict _ => false

end Json

/-- `d.get(key, default)`. -/
def getKey (kvs : List (Text × Json)) (key : String) (default : Json) : Json :=
  (kvs.lookup key.toList).getD default

/-- `LLMDelta`. -/
structure Delta where
  content : Text
  toolCall : Option (List (Text × Json))
  done : Bool

/-- What leaves a call other than by a return: `CancelledError`, or an `Exception` with its
text. -/
inductive Raised where
  | cancelled
  | error (text : Text)
  deriving DecidableEq

/-- One stream of the backend: what it yields, and what it raises behind that. -/
structure Stream where
  deltas : List Delta
  ending : Option Raised

/-- `json.loads` of a text: a value, `JSONDecodeError`, or another exception. -/
inductive Loaded where
  | value (v : Json)
  | decodeError
  | raised (text : Text)

/-- The messages of a conversation. -/
inductive Message where
  | system (content : Text)
  | user (content : Text)
  | assistant (content : Text)
  | tool (name : Json) (content : Text)

/-- What is sent to the hook. -/
inductive Event where
  | token (text : Text)
  | tool (id : Nat) (name cmdline : Text)
  | done (status : Text)
  deriving DecidableEq

/-- The argument of the `CALLHOOK`. -/
def Event.args : Event → Text
  | .token text => "TOKEN|".toList ++ text
  | .tool id name cmdline =>
    "TOOL|".toList ++ Nat.toDigits 10 id ++ '|' :: name ++ '|' :: cmdline
  | .done status => "DONE|".toList ++ status

/-- `LLMProxyConfig`, as far as a turn reads it. -/
structure Config where
  systemPrompt : Text
  clientName : Text
  hookName : Text

/-- What a turn depends on. A call is answered according to the messages that the backend is
given, or to the arguments of all the hook calls of the turn, its own the last. -/
structure Env where
  cfg : Config
  chatStream : List Message → Stream
  callHook (client hook : Text) (args : List Text) : Except Raised Text
  loads : Text → Loaded
  repr : Json → Text

/-- `_conversations` and the events sent in the turn. Beside the code it holds the text received
from the model, the number of streams begun, and the results of the tool calls that returned one,
with their ids. -/
structure Proxy where
  conversations : Int → Option (List Message)
  events : List Event
  received : Text
  steps : Nat
  executed : List (Nat × Text)

/-! ### The turn -/

/-- `s.replace("|", "/")`. -/
def replaceBars (s : Text) : Text := s.map fun c => if c = '|' then '/' else c

/-- `messages.append`, where `messages` is the session's list. -/
def append (session : Int) (m : Message) : Raises Raised Proxy Unit :=
  modify fun s => { s with
    conversations := Function.update s.conversations session
      (some ((s.conversations session).getD [] ++ [m])) }

/-- `_get_messages`. -/
def getMessages (env : Env) (session : Int) (prompt : Text) : Raises Raised Proxy Unit := do
  let s ← get
  if s.conversations session = none then
    append session (.system env.cfg.systemPrompt)
  append session (.user prompt)

/-- `_call_hook` with the names of the configuration. -/
def callHook (env : Env) (e : Event) : Raises Raised Proxy Text := do
  modify fun s => { s with events := s.events ++ [e] }
  let s ← get
  liftExcept (env.callHook env.cfg.clientName env.cfg.hookName (s.events.map Event.args))

def sendToken (env : Env) (delta : Text) : Raises Raised Proxy Unit := do
  discard (callHook env (.token (replaceBars delta)))

def sendDone (env : Env) (status : Text) : Raises Raised Proxy Unit := do
  discard (callHook env (.done status))

def sendTool (env : Env) (id : Nat) (name : Text) (cmdline : Json) : Raises Raised Proxy Text :=
  match cmdline with
  | .str cmdline => do
    let result ← callHook env (.tool id name (replaceBars cmdline))
    modify fun s => { s with executed := s.executed ++ [(id, result)] }
    return result
  | .null | .bool _ | .int _ | .float _ _ | .list _ | .dict _ =>
    throw (.error ("'".toList ++ cmdline.typeName ++ "' object has no attribute 'replace'".toList))

/-- The content of a delta is accumulated and sent. -/
def receive (env : Env) (content : Text) : Raises Raised Proxy Unit := do
  modify fun s => { s with received := s.received ++ content }
  if content ≠ [] then
    sendToken env content

/-- The `async for` of a step, from the deltas that are still to come. -/
def consume (env : Env) (ending : Option Raised) :
    List Delta → Text → Option (List (Text × Json)) →
      Raises Raised Proxy (Text × Option (List (Text × Json)))
  | [], accumulated, toolCall =>
    match ending with
    | none => return (accumulated, toolCall)
    | some e => throw e
  | delta :: deltas, accumulated, toolCall => do
    receive env delta.content
    let toolCall := if (delta.toolCall.getD []).isEmpty then toolCall else delta.toolCall
    if delta.done then
      return (accumulated ++ delta.content, toolCall)
    consume env ending deltas (accumulated ++ delta.content) toolCall

/-- The arguments of a tool call, decoded if they are a text. -/
def decodeArguments (env : Env) (args : Json) : Raises Raised Proxy Json :=
  match args with
  | .str text =>
    match env.loads text with
    | .value v => return v
    | .decodeError => return .dict []
    | .raised text => throw (.error text)
  | .null | .bool _ | .int _ | .float _ _ | .list _ | .dict _ => return args

/-- `args.get("command", "")`. -/
def getCommand (args : Json) : Raises Raised Proxy Json :=
  match args with
  | .dict kvs => return getKey kvs "command" (.str [])
  | .null | .bool _ | .int _ | .float _ _ | .str _ | .list _ =>
    throw (.error ("'".toList ++ args.typeName ++ "' object has no attribute 'get'".toList))

/-- `cmdline`: only `run_command` has one. -/
def commandLine (name args : Json) : Raises Raised Proxy Json :=
  if name.isText "run_command".toList then getCommand args else return .str []

/-- The tool call of a step, with its result. -/
def runTool (env : Env) (step : Nat) (toolCall : List (Text × Json)) :
    Raises Raised Proxy (Json × Text) := do
  let name := getKey toolCall "name" (.str [])
  let args ← decodeArguments env (getKey toolCall "arguments" (.dict []))
  let cmdline ← commandLine name args
  if !cmdline.truthy then
    return (name, "error: unknown tool ".toList ++ env.repr name)
  let result ← sendTool env step "run_command".toList cmdline
  return (name, result)

/-- `MAX_STEPS`. -/
def maxSteps : Nat := 6

/-- The loop of `run_turn`, with the number of steps that are left. -/
def runSteps (env : Env) (session : Int) : Nat → Raises Raised Proxy Unit
  | 0 => sendDone env "step_budget_exceeded".toList
  | left + 1 => do
    modify fun s => { s with steps := s.steps + 1 }
    let s ← get
    let stream := env.chatStream ((s.conversations session).getD [])
    let (accumulated, toolCall) ← consume env stream.ending stream.deltas [] none
    append session (.assistant accumulated)
    match toolCall with
    | none => sendDone env "ok".toList
    | some toolCall =>
      let (name, result) ← runTool env (maxSteps - left) toolCall
      append session (.tool name result)
      runSteps env session left

/-- The `except` clauses of `run_turn`. -/
def handler (env : Env) : Raised → Raises Raised Proxy Unit
  | .cancelled => do
    sendDone env "cancelled".toList
    throw .cancelled
  | .error text =>
    tryCatch (sendDone env ("error:".toList ++ text)) fun
      | .cancelled => throw .cancelled
      | .error _ => return

def runTurn (env : Env) (session : Int) (prompt : Text) : Raises Raised Proxy Unit := do
  getMessages env session prompt
  tryCatch (runSteps env session maxSteps) (handler env)

/-! ### What a turn should do -/

namespace Event

/-- The payload of a TOKEN event. -/
def tokenText : Event → Text
  | .token text => text
  | .tool _ _ _ | .done _ => []

/-- The id of a TOOL event. -/
def toolId? : Event → Option Nat
  | .tool id _ _ => some id
  | .token _ | .done _ => none

def isDone : Event → Bool
  | .done _ => true
  | .token _ | .tool _ _ _ => false

end Event

/-- The ids of the tool calls that were sent. -/
def Proxy.called (s : Proxy) : List Nat := s.events.filterMap Event.toolId?

/-- A step with a tool call that was answered. -/
structure Round where
  text : Text
  name : Json
  result : Text
  /-- Whether the Amiga answered it. -/
  executed : Bool

/-- What a round adds to the conversation. -/
def Round.entries (r : Round) : List Message := [.assistant r.text, .tool r.name r.result]

/-- The results of the executed tool calls, with the numbers of their steps. -/
def results (rounds : List Round) : List (Nat × Text) :=
  (rounds.zipIdx 1).filterMap fun r => if r.1.executed then some (r.2, r.1.result) else none

/-- The conversation is that of the rounds, each executed tool call in the round of its step, and
at most a text of the assistant behind them; a tool call that was sent and has no result belongs
to that text. -/
def Consistent (session : Int) (base : List Message) (s : Proxy) : Prop :=
  ∃ rounds last, s.conversations session =
      some (base ++ (rounds.flatMap Round.entries ++ last)) ∧
    s.executed = results rounds ∧
    (last = [] ∧ s.called = s.executed.map Prod.fst ∨
      ∃ text, last = [.assistant text] ∧
        (s.called = s.executed.map Prod.fst ∨
          s.called = s.executed.map Prod.fst ++ [rounds.length + 1]))

/-- What a turn leaves behind: TOKEN and TOOL events and one DONE, at most six steps, the model's
text, and a consistent history. -/
structure WellFormed (session : Int) (base : List Message) (s : Proxy) : Prop where
  events : ∃ body status, s.events = body ++ [.done status] ∧ ∀ e ∈ body, e.isDone = false
  steps : s.steps ≤ maxSteps
  tokens : s.events.flatMap Event.tokenText = replaceBars s.received
  history : Consistent session base s

/-! ### The invariant -/

/-- The state within a turn or behind it: `closing` is the DONE event, if it has been sent, and
`pending` the tool call that has been sent and not answered. -/
structure Progress (session : Int) (history : List Message) (steps : Nat)
    (ran : List (Nat × Text)) (pending : List Nat) (closing : List Event) (s : Proxy) :
    Prop where
  history : s.conversations session = some history
  steps : s.steps = steps
  executed : s.executed = ran
  called : s.called = ran.map Prod.fst ++ pending
  events : ∃ body, s.events = body ++ closing ∧ ∀ e ∈ body, e.isDone = false
  tokens : s.events.flatMap Event.tokenText = replaceBars s.received

/-- Between two steps. -/
def AtStep (session : Int) (base : List Message) (rounds : List Round) : Proxy → Prop :=
  Progress session (base ++ rounds.flatMap Round.entries) rounds.length (results rounds) [] []

/-- Anywhere in the turn, or behind it. -/
def Stage (session : Int) (base : List Message) (closing : List Event) (s : Proxy) : Prop :=
  ∃ rounds last pending steps,
    Progress session (base ++ (rounds.flatMap Round.entries ++ last)) steps (results rounds)
      pending closing s ∧
    steps ≤ maxSteps ∧
    (last = [] ∧ pending = [] ∨
      ∃ text, last = [.assistant text] ∧ (pending = [] ∨ pending = [rounds.length + 1]))

/-- Behind the turn. -/
def Closed (session : Int) (base : List Message) (s : Proxy) : Prop :=
  ∃ status, Stage session base [.done status] s

theorem Closed.wellFormed {session : Int} {base : List Message} {s : Proxy}
    (h : Closed session base s) : WellFormed session base s := by
  obtain ⟨status, rounds, last, pending, steps, hp, hsteps, hlast⟩ := h
  obtain ⟨body, hevents, hrunning⟩ := hp.events
  refine ⟨⟨body, status, hevents, hrunning⟩, ?_, hp.tokens, rounds, last, hp.history,
    hp.executed, ?_⟩
  · rw [hp.steps]
    exact hsteps
  · rw [hp.executed, hp.called]
    rcases hlast with ⟨hnil, hpending⟩ | ⟨text, htext, hpending | hpending⟩
    · left
      rw [hpending, List.append_nil]
      exact ⟨hnil, rfl⟩
    · right
      rw [hpending, List.append_nil]
      exact ⟨text, htext, .inl rfl⟩
    · right
      rw [hpending]
      exact ⟨text, htext, .inr rfl⟩

section Turns

variable {env : Env} {session : Int} {base history : List Message} {steps : Nat}
  {ran : List (Nat × Text)} {pending : List Nat} {rounds : List Round}

/-- A hook call records its event, whatever its outcome. -/
theorem triple_callHook {e : Event} {P Q : Proxy → Prop}
    (h : ∀ s, P s → Q { s with events := s.events ++ [e] }) :
    Triple P (callHook env e) (fun _ => Q) Q :=
  triple_bind (Q := fun _ => Q) (triple_modify h) fun _ =>
    triple_bind (Q := fun _ => Q) (triple_get fun _ => id) fun _ =>
      triple_liftExcept (fun _ _ _ => id) fun _ => id

theorem replaceBars_append (s t : Text) : replaceBars (s ++ t) = replaceBars s ++ replaceBars t :=
  List.map_append

/-- A token or a tool call that is sent leaves the turn running. -/
theorem running_send {events : List Event} {e : Event} (he : e.isDone = false)
    (h : ∃ body, events = body ++ [] ∧ ∀ e ∈ body, e.isDone = false) :
    ∃ body, events ++ [e] = body ++ [] ∧ ∀ e ∈ body, e.isDone = false := by
  obtain ⟨body, rfl, hrunning⟩ := h
  refine ⟨body ++ [e], by rw [List.append_nil, List.append_nil], fun other hother => ?_⟩
  rcases List.mem_append.mp hother with hold | hnew
  · exact hrunning other hold
  · rwa [List.mem_singleton.mp hnew]

theorem called_send (s : Proxy) (e : Event) :
    Proxy.called { s with events := s.events ++ [e] } = s.called ++ e.toolId?.toList := by
  cases e <;> simp only [Proxy.called, List.filterMap_append, List.filterMap_cons, Event.toolId?,
    List.filterMap_nil, Option.toList]

/-- Each piece of text is sent as one token. -/
theorem triple_receive (content : Text) :
    Triple (Progress session history steps ran pending []) (receive env content)
      (fun _ => Progress session history steps ran pending [])
      (Progress session history steps ran pending []) := by
  refine triple_bind (Q := fun _ s => ∃ t, Progress session history steps ran pending [] t ∧
    s = { t with received := t.received ++ content }) (triple_modify fun t h => ⟨t, h, rfl⟩)
    fun _ => ?_
  split
  · refine triple_bind (Q := fun _ => Progress session history steps ran pending [])
      (triple_callHook ?_) fun _ => triple_pure fun _ => id
    rintro _ ⟨t, h, rfl⟩
    refine ⟨h.history, h.steps, h.executed, ?_, running_send rfl h.events, ?_⟩
    · rw [called_send, ← h.called]
      exact List.append_nil _
    · rw [List.flatMap_append, h.tokens, replaceBars_append, List.flatMap_singleton]
      rfl
  · rename_i hempty
    refine triple_pure ?_
    rintro _ ⟨t, h, rfl⟩
    rw [not_ne_iff.mp hempty, List.append_nil]
    exact h

/-- A stream sends tokens. -/
theorem triple_consume (ending : Option Raised) (deltas : List Delta) :
    ∀ (text : Text) (toolCall : Option (List (Text × Json))),
      Triple (Progress session history steps ran pending [])
        (consume env ending deltas text toolCall)
        (fun _ => Progress session history steps ran pending [])
        (Progress session history steps ran pending []) := by
  induction deltas with
  | nil =>
    intro text toolCall
    cases ending with
    | none => exact triple_pure fun _ => id
    | some e => exact triple_throw fun _ => id
  | cons delta deltas ih =>
    intro text toolCall
    refine triple_bind (triple_receive delta.content) fun _ => ?_
    dsimp only
    split
    · exact triple_pure fun _ => id
    · exact ih _ _

theorem triple_decodeArguments {P : Proxy → Prop} (args : Json) :
    Triple P (decodeArguments env args) (fun _ => P) P := by
  unfold decodeArguments
  split
  · split
    · exact triple_pure fun _ => id
    · exact triple_pure fun _ => id
    · exact triple_throw fun _ => id
  all_goals exact triple_pure fun _ => id

theorem triple_getCommand {P : Proxy → Prop} (args : Json) :
    Triple P (getCommand args) (fun _ => P) P := by
  cases args with
  | dict kvs => exact triple_pure fun _ => id
  | null | bool _ | int _ | float _ _ | str _ | list _ => exact triple_throw fun _ => id

theorem triple_commandLine {P : Proxy → Prop} (name args : Json) :
    Triple P (commandLine name args) (fun _ => P) P := by
  unfold commandLine
  split
  · exact triple_getCommand args
  · exact triple_pure fun _ => id

/-- A tool call is sent once; it has a result if it returns one. -/
theorem triple_sendTool (step : Nat) (name : Text) (cmdline : Json) :
    Triple (Progress session history steps ran [] []) (sendTool env step name cmdline)
      (fun result => Progress session history steps (ran ++ [(step, result)]) [] [])
      (fun s => ∃ pending, Progress session history steps ran pending [] s ∧
        (pending = [] ∨ pending = [step])) := by
  cases cmdline with
  | null | bool _ | int _ | float _ _ | list _ | dict _ =>
    exact triple_throw fun s h => ⟨[], h, .inl rfl⟩
  | str cmdline =>
    have hsent : Triple (Progress session history steps ran [] [])
        (callHook env (.tool step name (replaceBars cmdline)))
        (fun _ => Progress session history steps ran [step] [])
        (Progress session history steps ran [step] []) := by
      apply triple_callHook
      intro s h
      refine ⟨h.history, h.steps, h.executed, ?_, running_send rfl h.events, ?_⟩
      · rw [called_send, h.called, List.append_nil]
        rfl
      · rw [List.flatMap_append, h.tokens, List.flatMap_singleton]
        exact List.append_nil _
    refine triple_bind (hsent.conseq (fun _ => id) (fun _ _ => id)
      fun s h => ⟨[step], h, .inr rfl⟩) fun result => ?_
    refine triple_bind (triple_modify ?_) fun _ => triple_pure fun _ => id
    intro s h
    refine ⟨h.history, h.steps, congrArg (· ++ [(step, result)]) h.executed, ?_, h.events,
      h.tokens⟩
    rw [List.map_append, List.append_nil]
    exact h.called

/-- The result of a tool call is the Amiga's if the call was executed. -/
theorem triple_runTool (step : Nat) (toolCall : List (Text × Json)) :
    Triple (Progress session history steps ran [] []) (runTool env step toolCall)
      (fun r s => ∃ executed : Bool, Progress session history steps
        (ran ++ if executed then [(step, r.2)] else []) [] [] s)
      (fun s => ∃ pending, Progress session history steps ran pending [] s ∧
        (pending = [] ∨ pending = [step])) := by
  have hraise (s : Proxy) (h : Progress session history steps ran [] [] s) :
      ∃ pending, Progress session history steps ran pending [] s ∧
        (pending = [] ∨ pending = [step]) := ⟨[], h, .inl rfl⟩
  refine triple_bind ((triple_decodeArguments _).conseq (fun _ => id) (fun _ _ => id) hraise)
    fun args => ?_
  refine triple_bind ((triple_commandLine _ args).conseq (fun _ => id) (fun _ _ => id) hraise)
    fun cmdline => ?_
  split
  · refine triple_pure fun s h => ⟨false, ?_⟩
    rw [if_neg Bool.false_ne_true, List.append_nil]
    exact h
  · exact triple_bind (triple_sendTool step _ cmdline) fun result =>
      triple_pure fun s h => ⟨true, h⟩

/-- A round behind the others is that of the next step. -/
theorem results_append (r : Round) :
    results (rounds ++ [r]) =
      results rounds ++ if r.executed then [(rounds.length + 1, r.result)] else [] := by
  rw [results, List.zipIdx_append, List.filterMap_append, Nat.add_comm rounds.length]
  cases hexecuted : r.executed <;>
    simp only [results, List.zipIdx_singleton, List.filterMap_cons, List.filterMap_nil, hexecuted,
      if_true, Bool.false_eq_true, if_false]

/-- An entry is added to the history of the turn's session. -/
theorem triple_append (m : Message) {E : Proxy → Prop} :
    Triple (Progress session history steps ran pending []) (append session m)
      (fun _ => Progress session (history ++ [m]) steps ran pending []) E := by
  refine triple_modify fun s h => ⟨?_, h.steps, h.executed, h.called, h.events, h.tokens⟩
  change Function.update s.conversations session
    (some ((s.conversations session).getD [] ++ [m])) session = some (history ++ [m])
  rw [Function.update_self, h.history]
  rfl

/-- Where a DONE is sent, it returns. -/
def Env.Answers (env : Env) : Prop :=
  ∀ calls status, ∃ reply, env.callHook env.cfg.clientName env.cfg.hookName
    (calls ++ [(Event.done status).args]) = .ok reply

/-- DONE closes the turn. -/
theorem triple_sendDone (hdone : env.Answers) (status : Text) {E : Proxy → Prop} :
    Triple (Stage session base []) (sendDone env status) (fun _ => Closed session base) E := by
  rintro s ⟨rounds, last, pending, steps, h, hsteps, hlast⟩
  obtain ⟨reply, hreply⟩ := hdone (s.events.map Event.args) status
  rw [← List.map_singleton (f := Event.args), ← List.map_append] at hreply
  have hrun : (sendDone env status).outcome s =
      (.ok (), { s with events := s.events ++ [.done status] }) := by
    change (callHook env (.done status) >>= fun _ => pure ()).outcome s = _
    rw [outcome_bind]
    have hcall : (callHook env (.done status)).outcome s =
        (.ok reply, { s with events := s.events ++ [.done status] }) := by
      change (liftExcept (env.callHook env.cfg.clientName env.cfg.hookName
        ((s.events ++ [Event.done status]).map Event.args)) :
          Raises Raised Proxy Text).outcome _ = _
      rw [hreply]
      rfl
    rw [hcall]
    rfl
  rw [hrun]
  obtain ⟨body, hbody, hrunning⟩ := h.events
  rw [List.append_nil] at hbody
  refine ⟨status, rounds, last, pending, steps, ⟨h.history, h.steps, h.executed, ?_,
    ⟨body, congrArg (· ++ [.done status]) hbody, hrunning⟩, ?_⟩, hsteps, hlast⟩
  · rw [called_send, h.called]
    exact List.append_nil _
  · rw [List.flatMap_append, h.tokens, List.flatMap_singleton]
    exact List.append_nil _

/-- Where the rounds so far are all there is to the history. -/
theorem stage_of_rounds {s : Proxy} (h : Progress session (base ++ rounds.flatMap Round.entries)
    steps (results rounds) [] [] s) (hsteps : steps ≤ maxSteps) : Stage session base [] s := by
  refine ⟨rounds, [], [], steps, ?_, hsteps, .inl ⟨rfl, rfl⟩⟩
  rw [List.append_nil]
  exact h

/-- Where a text of the assistant stands behind the rounds. -/
theorem stage_of_text {s : Proxy} {text : Text}
    (h : Progress session (base ++ rounds.flatMap Round.entries ++ [.assistant text]) steps
      (results rounds) pending [] s) (hsteps : steps ≤ maxSteps)
    (hpending : pending = [] ∨ pending = [rounds.length + 1]) : Stage session base [] s := by
  rw [List.append_assoc] at h
  exact ⟨rounds, [.assistant text], pending, steps, h, hsteps, .inr ⟨text, rfl, hpending⟩⟩

/-- The steps that are left end with DONE, or raise before it. -/
theorem triple_runSteps (hdone : env.Answers) (left : Nat) :
    ∀ rounds : List Round, rounds.length + left = maxSteps →
      Triple (AtStep session base rounds) (runSteps env session left)
        (fun _ => Closed session base) (Stage session base []) := by
  induction left with
  | zero =>
    intro rounds hlength
    exact (triple_sendDone hdone _).conseq
      (fun s h => stage_of_rounds h (Nat.le_of_eq hlength)) (fun _ _ => id) fun _ => id
  | succ left ih =>
    intro rounds hlength
    have hsteps : rounds.length + 1 ≤ maxSteps := by omega
    have hstep : maxSteps - left = rounds.length + 1 := by omega
    refine triple_bind (Q := fun _ => Progress session (base ++ rounds.flatMap Round.entries)
      (rounds.length + 1) (results rounds) [] []) (triple_modify fun s h =>
        ⟨h.history, congrArg (· + 1) h.steps, h.executed, h.called, h.events, h.tokens⟩)
      fun _ => ?_
    refine triple_bind (triple_get (R := fun _ => _) fun _ => id) fun s => ?_
    refine triple_bind ((triple_consume _ _ [] none).conseq (fun _ => id) (fun _ _ => id)
      fun s h => stage_of_rounds h hsteps) fun r => ?_
    obtain ⟨text, toolCall⟩ := r
    refine triple_bind (triple_append (.assistant text)) fun _ => ?_
    cases toolCall with
    | none =>
      exact (triple_sendDone hdone _).conseq (fun s h => stage_of_text h hsteps (.inl rfl))
        (fun _ _ => id) fun _ => id
    | some toolCall =>
      rw [hstep]
      refine triple_bind ((triple_runTool _ toolCall).conseq (fun _ => id) (fun _ _ => id)
        fun s ⟨pending, h, hpending⟩ => stage_of_text h hsteps hpending) fun r => ?_
      obtain ⟨name, result⟩ := r
      rintro s ⟨executed, h⟩
      refine triple_bind (triple_append (.tool name result)) (fun _ => ?_) s h
      let round : Round := ⟨text, name, result, executed⟩
      have hlength' : (rounds ++ [round]).length + left = maxSteps := by
        rw [List.length_append, List.length_singleton, ← hlength]
        omega
      refine (ih (rounds ++ [round]) hlength').conseq (fun s h => ?_) (fun _ _ => id) fun _ => id
      rw [AtStep, results_append, List.flatMap_append, List.length_append]
      rw [List.append_assoc, List.append_assoc] at h
      exact h

/-- Whatever ends the steps, the handlers close the turn. -/
theorem triple_handler (hdone : env.Answers) (e : Raised) :
    Triple (Stage session base []) (handler env e) (fun _ => Closed session base)
      (Closed session base) := by
  cases e with
  | cancelled =>
    exact triple_bind (triple_sendDone hdone _) fun _ => triple_throw fun _ => id
  | error text =>
    refine triple_tryCatch (E := Closed session base) (triple_sendDone hdone _) fun e => ?_
    cases e with
    | cancelled => exact triple_throw fun _ => id
    | error _ => exact triple_pure fun _ => id

end Turns

/-- The messages that a turn of the session begins with. -/
def opening (env : Env) (s : Proxy) (session : Int) (prompt : Text) : List Message :=
  (s.conversations session).getD [.system env.cfg.systemPrompt] ++ [.user prompt]

/-- The start of a turn: nothing has been sent or received in it. -/
def fresh (conversations : Int → Option (List Message)) : Proxy :=
  ⟨conversations, [], [], 0, []⟩

theorem outcome_append (session : Int) (m : Message) (s : Proxy) :
    (append session m).outcome s = (.ok (), { s with
      conversations := Function.update s.conversations session
        (some ((s.conversations session).getD [] ++ [m])) }) := rfl

theorem outcome_getMessages (env : Env) (session : Int) (prompt : Text) (s : Proxy) :
    (getMessages env session prompt).outcome s = (.ok (), { s with
      conversations := Function.update s.conversations session
        (some (opening env s session prompt)) }) := by
  rw [getMessages, outcome_bind, outcome_get, opening]
  dsimp only
  cases hold : s.conversations session with
  | none =>
    rw [if_pos rfl, outcome_bind, outcome_append, hold]
    dsimp only
    rw [outcome_append]
    dsimp only
    rw [Function.update_self, Function.update_idem]
    rfl
  | some messages =>
    rw [if_neg nofun, outcome_append, hold]
    rfl

/-- A model that asks for a command, says something, and stops. -/
def askVersion (messages : List Message) : Stream :=
  match messages with
  | [_, _] => ⟨[⟨"checking".toList, some [("name".toList, .str "run_command".toList),
      ("arguments".toList, .dict [("command".toList, .str "Version".toList)])], true⟩], none⟩
  | _ => ⟨[⟨"40|68".toList, none, false⟩, ⟨[], none, true⟩], none⟩

/-- An environment with this model, in which the Amiga answers commands with `reply`. -/
def versionEnv (reply : Except Raised Text) : Env where
  cfg := ⟨"short".toList, "amiterm".toList, "llm_event".toList⟩
  chatStream := askVersion
  callHook := fun _ _ calls =>
    if ((calls.getLast?.getD []).take 5) = "TOOL|".toList then reply else .ok []
  loads := fun _ => .decodeError
  repr := fun _ => []

theorem versionEnv_answers (reply : Except Raised Text) : (versionEnv reply).Answers := by
  intro calls status
  refine ⟨[], ?_⟩
  have hlast : (calls ++ [(Event.done status).args]).getLast?.getD [] =
      (Event.done status).args := by
    rw [List.getLast?_concat]
    rfl
  have hdone : ((Event.done status).args).take 5 = "DONE|".toList := rfl
  change (if ((calls ++ [(Event.done status).args]).getLast?.getD []).take 5 = "TOOL|".toList
    then reply else .ok []) = _
  rw [hlast, hdone]
  exact if_neg (by decide)

end AmigaDevbench.LlmProxy
