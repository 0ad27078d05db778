import AmigaDevbench.Client.Variables
import AmigaDevbench.Core.Runs

/-!
# Injected input events

`INPUTKEY`, `INPUTMOVE`, `INPUTPOS` and `INPUTCLICK` hand events to the input device. An event
carries the qualifiers that the daemon has recorded as held. The daemon waits for a bounded time;
an event that is neither processed nor aborted by then stays with the device, and no other is
handed over before it has drained.
-/

namespace AmigaDevbench.InputInject

open CNumber Client

/-! ### Events -/

/-- `ie_Class`. -/
inductive EventClass
  | rawkey
  | rawmouse
  | pointerpos
  deriving DecidableEq

/-- `struct InputEvent`. -/
structure InputEvent where
  eventClass : EventClass
  code : BitVec 16
  qualifier : BitVec 16
  x : BitVec 16
  y : BitVec 16

/-- `IECODE_UP_PREFIX`. -/
def iecodeUp : BitVec 16 := 0x80

/-- `IECODE_NOBUTTON`. -/
def iecodeNoButton : BitVec 16 := 0xff

/-- `IEQUALIFIER_CAPSLOCK`. -/
def capsLock : BitVec 16 := 0x0004

/-- `key_qualifier_bit`. -/
def keyQualifierBit (raw : BitVec 16) : BitVec 16 :=
  match raw.toNat with
  | 0x60 => 0x0001
  | 0x61 => 0x0002
  | 0x62 => 0x0004
  | 0x63 => 0x0008
  | 0x64 => 0x0010
  | 0x65 => 0x0020
  | 0x66 => 0x0040
  | 0x67 => 0x0080
  | _ => 0

/-! ### The daemon -/

/-- `inputOpen`, `inputWedged`, `g_heldQuals` and `g_keyQuals`. -/
structure InputState where
  inputOpen : Bool
  inputWedged : Bool
  heldQuals : BitVec 16
  keyQuals : BitVec 16

/-- The qualifiers that an event is given. -/
def InputState.recorded (s : InputState) : BitVec 16 := s.heldQuals ||| s.keyQuals

/-- What becomes of a request while the daemon polls for it. -/
inductive Outcome
  | processed
  | aborted
  | pending

/-- The input device, as one call finds it. -/
structure Answer where
  opens : Bool
  outcome : Outcome

/-- How `inject_event` ends. -/
inductive Injected
  | processed
  | aborted
  | pending
  | wedged
  | unopened
  deriving DecidableEq

/-- What `inject_event` returns. -/
def Injected.rc : Injected → Int
  | .processed => 0
  | .aborted => -1
  | .pending => -1
  | .wedged => -2
  | .unopened => -3

/-- `inject_event`; `busy` is whether the device still has the request. -/
def injectEvent (busy : Bool) (answer : Answer) (s : InputState) : InputState × Injected :=
  if !s.inputOpen && !answer.opens then (s, .unopened)
  else if s.inputWedged && busy then ({ s with inputOpen := true }, .wedged)
  else
    match answer.outcome with
    | .processed => ({ s with inputOpen := true, inputWedged := false }, .processed)
    | .aborted => ({ s with inputOpen := true, inputWedged := false }, .aborted)
    | .pending => ({ s with inputOpen := true, inputWedged := true }, .pending)

/-- `inject_note`. -/
def injectNote (rc : Int) : Text :=
  if rc = 0 then []
  else if rc = -1 then
    " (timeout: input.device busy - modal window drag? release physical mouse button)".toList
  else if rc = -2 then
    " (refused: input still wedged - release physical mouse button on the Amiga)".toList
  else " (error: cannot open input.device)".toList

/-- Whether the second field begins with `u`. -/
def isUp (args : Text) : Bool :=
  match args.after? '|' with
  | some (c :: _) => c = 'u' ∨ c = 'U'
  | _ => false

/-- A handler before it injects: the error for missing arguments, or the state with the
qualifiers updated, the event and what it is called in the reply. -/
abbrev Prepared := Except Text (InputState × InputEvent × Text)

/-- The record of the qualifier keys. Caps Lock is toggled by a press. -/
def updateKeyQuals (keyQuals qbit : BitVec 16) (up : Bool) : BitVec 16 :=
  if qbit = 0 then keyQuals
  else if qbit = capsLock then if up then keyQuals else keyQuals ^^^ capsLock
  else if up then keyQuals &&& ~~~qbit
  else keyQuals ||| qbit

/-- `input_handle_key` up to the injection. -/
def keyEvent (s : InputState) (args : Text) : Prepared :=
  if args = [] then .error "ERR|INPUTKEY|Missing arguments (rawkey_hex|up/down)".toList
  else
    let rawkey := BitVec.ofNat 16 (strtoul 16 args)
    let s := { s with keyQuals := updateKeyQuals s.keyQuals (keyQualifierBit rawkey) (isUp args) }
    let code := if isUp args then rawkey ||| iecodeUp else rawkey
    .ok (s, ⟨.rawkey, code, s.recorded, 0, 0⟩, "Key ".toList ++ (Nat.toDigits 16 rawkey.toNat ++
      (if isUp args then " up".toList else " down".toList)))

/-- `input_handle_mouse_move` up to the injection. -/
def moveEvent (s : InputState) (args : Text) : Prepared :=
  if args = [] then .error "ERR|INPUTMOVE|Missing arguments (dx|dy)".toList
  else match args.after? '|' with
    | none => .error "ERR|INPUTMOVE|Missing dy".toList
    | some rest =>
      .ok (s, ⟨.rawmouse, iecodeNoButton, s.recorded, BitVec.ofInt 16 (strtol args),
        BitVec.ofInt 16 (strtol rest)⟩,
        "Mouse moved ".toList ++ (longText (strtol args) ++ ',' :: longText (strtol rest)))

/-- `input_handle_pointer_pos` up to the injection. -/
def pointerEvent (s : InputState) (args : Text) : Prepared :=
  if args = [] then .error "ERR|INPUTPOS|Missing arguments (x|y)".toList
  else match args.after? '|' with
    | none => .error "ERR|INPUTPOS|Missing y".toList
    | some rest =>
      .ok (s, ⟨.pointerpos, iecodeNoButton, s.recorded, BitVec.ofInt 16 (strtol args),
        BitVec.ofInt 16 (strtol rest)⟩,
        "Pointer at ".toList ++ (longText (strtol args) ++ ',' :: longText (strtol rest)))

/-- The button that the first letter names: its code, its qualifier and its name. -/
def button (args : Text) : BitVec 16 × BitVec 16 × Text :=
  match args.head? with
  | some 'r' => (0x69, 0x2000, "right".toList)
  | some 'R' => (0x69, 0x2000, "right".toList)
  | some 'm' => (0x6a, 0x1000, "middle".toList)
  | some 'M' => (0x6a, 0x1000, "middle".toList)
  | _ => (0x68, 0x4000, "left".toList)

/-- `input_handle_mouse_button` up to the injection. -/
def buttonEvent (s : InputState) (args : Text) : Prepared :=
  if args = [] then .error "ERR|INPUTCLICK|Missing arguments (left/right/middle|up/down)".toList
  else
    let (code, qualBit, name) := button args
    let heldQuals := if isUp args then s.heldQuals &&& ~~~qualBit else s.heldQuals ||| qualBit
    let s := { s with heldQuals := heldQuals }
    .ok (s, ⟨.rawmouse, if isUp args then code ||| iecodeUp else code, s.recorded, 0, 0⟩,
      "Button ".toList ++ (name ++ (if isUp args then " up".toList else " down".toList)))

/-- The commands. -/
inductive Command
  | key
  | move
  | pointer
  | click

/-- The name of a command in its replies. -/
def Command.name : Command → Text
  | .key => "INPUTKEY".toList
  | .move => "INPUTMOVE".toList
  | .pointer => "INPUTPOS".toList
  | .click => "INPUTCLICK".toList

/-- What a command does before it injects. -/
def Command.prepare : Command → InputState → Text → Prepared
  | .key => keyEvent
  | .move => moveEvent
  | .pointer => pointerEvent
  | .click => buttonEvent

/-- A handler: the state, the event with what became of it, and the reply. -/
def Command.handle (c : Command) (busy : Bool) (answer : Answer) (s : InputState) (args : Text) :
    InputState × Option (InputEvent × Injected) × Text :=
  match c.prepare s args with
  | .error message => (s, none, message)
  | .ok (s, ie, what) =>
    let (s, injected) := injectEvent busy answer s
    (s, some (ie, injected), (if injected.rc = 0 then "OK|".toList else "ERR|".toList) ++
      (c.name ++ '|' :: (what ++ injectNote injected.rc)))

/-- `input_handle_key`. -/
def inputHandleKey := Command.handle .key

/-- `input_handle_mouse_move`. -/
def inputHandleMouseMove := Command.handle .move

/-- `input_handle_pointer_pos`. -/
def inputHandlePointerPos := Command.handle .pointer

/-- `input_handle_mouse_button`. -/
def inputHandleMouseButton := Command.handle .click

/-! ### The daemon and the device -/

/-- Where the event of a request lies: in a variable of the handler, which is gone when the
handler returns, or in storage that stays. -/
inductive Storage
  | automatic
  | permanent
  deriving DecidableEq

/-- The handlers declare `struct InputEvent ie` as a local variable. -/
def eventStorage : Storage := .automatic

/-- The daemon and the device: the events that it has processed, the request that it still has,
each event that was handed to it with those processed before, and the recorded qualifiers before
and after each command whose event it did not take. -/
structure InputSystem where
  daemon : InputState
  processed : List InputEvent
  pending : Option (InputEvent × Storage)
  sent : List (InputEvent × List InputEvent)
  refusals : List (BitVec 16 × BitVec 16)

/-- A command is handled, or the pending request drains. -/
inductive InputLabel
  | command (c : Command) (args : Text) (answer : Answer)
  | drain

/-- What a command has done to the device. -/
def InputSystem.take (s : InputSystem) (daemon : InputState) (ie : InputEvent) :
    Injected → InputSystem
  | .processed => ⟨daemon, s.processed ++ [ie], none, s.sent ++ [(ie, s.processed)], s.refusals⟩
  | .aborted =>
    ⟨daemon, s.processed, none, s.sent ++ [(ie, s.processed)],
      s.refusals ++ [(s.daemon.recorded, daemon.recorded)]⟩
  | .pending =>
    ⟨daemon, s.processed, some (ie, eventStorage), s.sent ++ [(ie, s.processed)], s.refusals⟩
  | .wedged =>
    ⟨daemon, s.processed, s.pending, s.sent, s.refusals ++ [(s.daemon.recorded, daemon.recorded)]⟩
  | .unopened =>
    ⟨daemon, s.processed, s.pending, s.sent, s.refusals ++ [(s.daemon.recorded, daemon.recorded)]⟩

def inputStep (s : InputSystem) : InputLabel → Option InputSystem
  | .command c args answer =>
    match c.handle s.pending.isSome answer s.daemon args with
    | (_, none, _) => some s
    | (daemon, some (ie, injected), _) => some (s.take daemon ie injected)
  | .drain =>
    s.pending.map fun request =>
      { s with processed := s.processed ++ [request.1], pending := none }

/-- The daemon after its start. -/
def inputInit : InputSystem := ⟨⟨false, false, 0, 0⟩, [], none, [], []⟩

/-! ### What is held -/

/-- The qualifier that an event presses or releases, by its bit. -/
def touch (e : InputEvent) : Option (Nat × Bool) :=
  let n := e.code.toNat
  match e.eventClass with
  | .rawkey =>
    if 0x60 ≤ n ∧ n ≤ 0x67 then some (n - 0x60, true)
    else if 0xe0 ≤ n ∧ n ≤ 0xe7 then some (n - 0xe0, false)
    else none
  | .rawmouse =>
    if 0x68 ≤ n ∧ n ≤ 0x6a then some (14 - (n - 0x68), true)
    else if 0xe8 ≤ n ∧ n ≤ 0xea then some (14 - (n - 0xe8), false)
    else none
  | .pointerpos => none

/-- Whether an event presses a qualifier or releases it. -/
def touchOf (i : Nat) (e : InputEvent) : Option Bool :=
  (touch e).bind fun t => if t.1 = i then some t.2 else none

/-- Whether a qualifier is held after the events: Caps Lock if it has been pressed an odd number of
times, another one if the last event that concerns it was a press. -/
def held (events : List InputEvent) (i : Nat) : Bool :=
  if i = 2 then decide ((events.filterMap (touchOf i)).count true % 2 = 1)
  else (events.filterMap (touchOf i)).getLast?.getD false

/-- The picture is true: each event handed over carries what was held, itself included, and so does
the record; a command whose event was not taken has not changed the record; and the event of a
pending request is still there. -/
structure TruePicture (s : InputSystem) : Prop where
  masks : ∀ r ∈ s.sent, ∀ i < 16, r.1.qualifier.getLsbD i = held (r.2 ++ [r.1]) i
  recorded : ∀ i < 16, s.daemon.recorded.getLsbD i = held s.processed i
  kept : ∀ r ∈ s.refusals, r.1 = r.2
  alive : ∀ r ∈ s.pending, r.2 = .permanent

/-- One more press or release of a qualifier. -/
def settle (t : Option (Nat × Bool)) (i : Nat) (old : Bool) : Bool :=
  match t with
  | none => old
  | some (j, press) => if j ≠ i then old else if i = 2 then old ^^ press else press

theorem held_append (events : List InputEvent) (e : InputEvent) (i : Nat) :
    held (events ++ [e]) i = settle (touch e) i (held events i) := by
  rw [held, held, List.filterMap_append]
  cases htouch : touch e with
  | none =>
    have hnone : [e].filterMap (touchOf i) = [] := by
      rw [List.filterMap_cons_none (by rw [touchOf, htouch]; rfl), List.filterMap_nil]
    rw [hnone, List.append_nil]
    rfl
  | some t =>
    obtain ⟨j, press⟩ := t
    by_cases hj : j = i
    · subst hj
      have hsome : [e].filterMap (touchOf j) = [press] := by
        rw [List.filterMap_cons_some (by rw [touchOf, htouch, Option.bind_some, if_pos rfl]),
          List.filterMap_nil]
      rw [hsome, settle, if_neg (not_not_intro rfl)]
      split
      · rw [List.count_append]
        cases press with
        | true =>
          rw [List.count_singleton_self, Bool.xor_true, ← decide_not]
          exact decide_eq_decide.mpr (by omega)
        | false =>
          rw [Bool.xor_false]
          rfl
      · rw [List.getLast?_append, List.getLast?_singleton]
        rfl
    · have hnone : [e].filterMap (touchOf i) = [] := by
        rw [List.filterMap_cons_none (by rw [touchOf, htouch, Option.bind_some, if_neg hj]),
          List.filterMap_nil]
      rw [hnone, List.append_nil, settle, if_pos hj]

/-! ### What the handlers see -/

/-- The press or release that a handler takes account of. -/
def seen (c : Command) (args : Text) : Option (Nat × Bool) :=
  match c with
  | .key =>
    let n := strtoul 16 args % 2 ^ 16
    if 0x60 ≤ n ∧ n ≤ 0x67 then some (n - 0x60, !isUp args) else none
  | .click => some (14 - ((button args).1.toNat - 0x68), !isUp args)
  | _ => none

/-- The two records are of different qualifiers. -/
structure Separate (s : InputState) : Prop where
  keys : ∀ i, s.keyQuals.getLsbD i = true → i < 8
  buttons : ∀ i, s.heldQuals.getLsbD i = true → 12 ≤ i

section Masks

variable {raw q : BitVec 16} {k i : Nat} {up : Bool}

theorem keyQualifierBit_eq (hk : k < 8) (hraw : raw.toNat = 0x60 + k) :
    keyQualifierBit raw = BitVec.twoPow 16 k := by
  have hall : ∀ k < 8, keyQualifierBit (BitVec.ofNat 16 (0x60 + k)) = BitVec.twoPow 16 k := by
    decide
  rw [← hall k hk, ← hraw, BitVec.ofNat_toNat, BitVec.setWidth_eq]

theorem keyQualifierBit_eq_zero (h : ¬ (0x60 ≤ raw.toNat ∧ raw.toNat ≤ 0x67)) :
    keyQualifierBit raw = 0 := by
  rw [keyQualifierBit]
  split
  case h_9 => rfl
  all_goals omega

theorem getLsbD_set (hk : k < 16) :
    (q ||| BitVec.twoPow 16 k).getLsbD i = if k = i then true else q.getLsbD i := by
  rw [BitVec.getLsbD_or, BitVec.getLsbD_twoPow, decide_eq_true hk, Bool.true_and]
  split
  · next h => rw [decide_eq_true h, Bool.or_true]
  · next h => rw [decide_eq_false h, Bool.or_false]

theorem getLsbD_unset (hk : k < 16) :
    (q &&& ~~~BitVec.twoPow 16 k).getLsbD i = if k = i then false else q.getLsbD i := by
  rw [BitVec.getLsbD_and, BitVec.getLsbD_not, BitVec.getLsbD_twoPow, decide_eq_true hk,
    Bool.true_and]
  split
  · next h => rw [decide_eq_true h, Bool.not_true, Bool.and_false, Bool.and_false]
  · next h =>
    rw [decide_eq_false h, Bool.not_false, Bool.and_true]
    cases hi : q.getLsbD i with
    | false => rfl
    | true => rw [decide_eq_true (BitVec.lt_of_getLsbD hi), Bool.and_true]

theorem getLsbD_toggle (hk : k < 16) :
    (q ^^^ BitVec.twoPow 16 k).getLsbD i = if k = i then !q.getLsbD i else q.getLsbD i := by
  rw [BitVec.getLsbD_xor, BitVec.getLsbD_twoPow, decide_eq_true hk, Bool.true_and]
  split
  · next h => rw [decide_eq_true h, Bool.xor_true]
  · next h => rw [decide_eq_false h, Bool.xor_false]

/-- The record of the keys follows a press or release. -/
theorem getLsbD_updateKeyQuals (hk : k < 8) :
    (updateKeyQuals q (BitVec.twoPow 16 k) up).getLsbD i =
      settle (some (k, !up)) i (q.getLsbD i) := by
  have hbit : ∀ k < 8, BitVec.twoPow 16 k ≠ 0 ∧ (BitVec.twoPow 16 k = capsLock ↔ k = 2) := by
    decide
  obtain ⟨hne, hcaps⟩ := hbit k hk
  have htwo : capsLock = BitVec.twoPow 16 2 := rfl
  rw [updateKeyQuals, if_neg hne, settle]
  by_cases hk2 : k = 2
  · subst hk2
    rw [if_pos (hcaps.mpr rfl)]
    cases up with
    | true =>
      by_cases hi : 2 = i
      · subst hi
        simp
      · simp [hi]
    | false =>
      rw [if_neg Bool.false_ne_true, htwo, getLsbD_toggle (by omega)]
      by_cases hi : 2 = i
      · subst hi
        simp
      · simp [hi]
  · rw [if_neg (mt hcaps.mp hk2)]
    cases up with
    | true =>
      rw [if_pos rfl, getLsbD_unset (by omega)]
      by_cases hi : k = i
      · subst hi
        simp [hk2]
      · simp [hi]
    | false =>
      rw [if_neg Bool.false_ne_true, getLsbD_set (by omega)]
      by_cases hi : k = i
      · subst hi
        simp [hk2]
      · simp [hi]

/-- The bits behind the mark of a release stay as they are. -/
theorem toNat_iecodeUp (raw : BitVec 16) :
    (raw ||| iecodeUp).toNat % 2 ^ 7 = raw.toNat % 2 ^ 7 ∧
      (raw ||| iecodeUp).toNat / 2 ^ 8 = raw.toNat / 2 ^ 8 ∧ 2 ^ 7 ≤ (raw ||| iecodeUp).toNat := by
  have hup : iecodeUp.toNat = 128 := rfl
  rw [BitVec.toNat_or, hup]
  refine ⟨?_, ?_, ?_⟩
  · rw [Nat.or_mod_two_pow]
    exact Nat.or_zero _
  · rw [Nat.or_div_two_pow]
    exact Nat.or_zero _
  · exact Nat.right_le_or

end Masks

section Handlers

variable {s s' : InputState} {c : Command} {args what : Text} {ie : InputEvent}

/-- A release that the key code carries itself, of a qualifier other than Caps Lock. -/
def hiddenRelease (c : Command) (args : Text) : Option Nat :=
  match c with
  | .key =>
    let n := strtoul 16 args % 2 ^ 16
    if 0xe0 ≤ n ∧ n ≤ 0xe7 then some (n - 0xe0) else none
  | _ => none

/-- What a handler does before it injects. -/
structure PreparedFrom (c : Command) (args : Text) (s s' : InputState) (ie : InputEvent) :
    Prop where
  inputOpen : s'.inputOpen = s.inputOpen
  inputWedged : s'.inputWedged = s.inputWedged
  separate : Separate s'
  qualifier : ie.qualifier = s'.recorded
  recorded : ∀ i, s'.recorded.getLsbD i = settle (seen c args) i (s.recorded.getLsbD i)
  touched : touch ie = match hiddenRelease c args with
    | some k => some (k, false)
    | none => seen c args

/-- A press or release of a qualifier of the one record leaves the other record alone. -/
theorem settle_or {other old : Bool} {k i : Nat} {press : Bool} (h : k = i → other = false) :
    settle (some (k, press)) i (other || old) = (other || settle (some (k, press)) i old) := by
  rw [settle, settle]
  split
  · rfl
  · next hk =>
    rw [h (not_not.mp hk), Bool.false_or]
    rfl

/-- The event of a key without or with the mark of a release. -/
theorem touch_rawkey (raw qualifier : BitVec 16) (up : Bool) :
    touch ⟨.rawkey, if up then raw ||| iecodeUp else raw, qualifier, 0, 0⟩ =
      if 0x60 ≤ raw.toNat ∧ raw.toNat ≤ 0x67 then some (raw.toNat - 0x60, !up)
      else if 0xe0 ≤ raw.toNat ∧ raw.toNat ≤ 0xe7 then some (raw.toNat - 0xe0, false)
      else none := by
  cases up with
  | false => rfl
  | true =>
    obtain ⟨hlow, hhigh, hup⟩ := toNat_iecodeUp raw
    simp only [touch, if_true]
    generalize (raw ||| iecodeUp).toNat = m at hlow hhigh hup
    generalize raw.toNat = n at hlow hhigh
    rw [if_neg (by omega)]
    by_cases hkey : 0x60 ≤ n ∧ n ≤ 0x67
    · rw [if_pos hkey, if_pos (by omega)]
      exact congrArg (fun k => some (k, false)) (by omega)
    · rw [if_neg hkey]
      by_cases hcode : 0xe0 ≤ n ∧ n ≤ 0xe7
      · rw [if_pos hcode, if_pos (by omega)]
        exact congrArg (fun k => some (k, false)) (by omega)
      · rw [if_neg hcode, if_neg (by omega)]

theorem prepared_key (h : Separate s) (hkey : keyEvent s args = .ok (s', ie, what)) :
    PreparedFrom .key args s s' ie := by
  rw [keyEvent] at hkey
  split at hkey
  · cases hkey
  · simp only [Except.ok.injEq, Prod.mk.injEq] at hkey
    obtain ⟨rfl, rfl, -⟩ := hkey
    have hseen : seen .key args = if 0x60 ≤ strtoul 16 args % 2 ^ 16 ∧
        strtoul 16 args % 2 ^ 16 ≤ 0x67 then some (strtoul 16 args % 2 ^ 16 - 0x60, !isUp args)
        else none := rfl
    have hhidden : hiddenRelease .key args = if 0xe0 ≤ strtoul 16 args % 2 ^ 16 ∧
        strtoul 16 args % 2 ^ 16 ≤ 0xe7 then some (strtoul 16 args % 2 ^ 16 - 0xe0)
        else none := rfl
    rw [← BitVec.toNat_ofNat (strtoul 16 args) 16] at hseen hhidden
    generalize BitVec.ofNat 16 (strtoul 16 args) = raw at hseen hhidden
    by_cases hraw : 0x60 ≤ raw.toNat ∧ raw.toNat ≤ 0x67
    · rw [if_pos hraw] at hseen
      rw [if_neg (by omega)] at hhidden
      have hk : raw.toNat - 0x60 < 8 := by omega
      have hbit : keyQualifierBit raw = BitVec.twoPow 16 (raw.toNat - 0x60) :=
        keyQualifierBit_eq hk (by omega)
      have hupdate : ∀ i, (updateKeyQuals s.keyQuals (keyQualifierBit raw) (isUp args)).getLsbD i =
          settle (seen .key args) i (s.keyQuals.getLsbD i) := fun i => by
        rw [hbit, hseen]
        exact getLsbD_updateKeyQuals hk
      refine ⟨rfl, rfl, ⟨fun i hi => ?_, h.buttons⟩, rfl, fun i => ?_, ?_⟩
      · rw [hupdate i, hseen, settle] at hi
        split at hi
        · exact h.keys i hi
        · next hki => exact not_not.mp hki ▸ hk
      · rw [InputState.recorded, BitVec.getLsbD_or, hupdate i, InputState.recorded,
          BitVec.getLsbD_or, hseen]
        refine (settle_or fun hki => ?_).symm
        by_contra hne
        have hle := h.buttons i (Bool.eq_true_of_not_eq_false hne)
        omega
      · rw [touch_rawkey, if_pos hraw, hhidden, hseen]
    · rw [if_neg hraw] at hseen
      have hupdate : updateKeyQuals s.keyQuals (keyQualifierBit raw) (isUp args) = s.keyQuals := by
        rw [keyQualifierBit_eq_zero hraw, updateKeyQuals, if_pos rfl]
      refine ⟨rfl, rfl, ?_, rfl, fun i => ?_, ?_⟩
      · rw [hupdate]
        exact h
      · rw [hupdate, hseen]
        rfl
      · rw [touch_rawkey, if_neg hraw, hhidden, hseen]
        split <;> rfl

theorem prepared_move (h : Separate s) (hmove : moveEvent s args = .ok (s', ie, what)) :
    PreparedFrom .move args s s' ie := by
  rw [moveEvent] at hmove
  split at hmove
  · cases hmove
  · split at hmove
    · cases hmove
    · cases hmove
      exact ⟨rfl, rfl, h, rfl, fun _ => rfl, rfl⟩

theorem prepared_pointer (h : Separate s) (hmove : pointerEvent s args = .ok (s', ie, what)) :
    PreparedFrom .pointer args s s' ie := by
  rw [pointerEvent] at hmove
  split at hmove
  · cases hmove
  · split at hmove
    · cases hmove
    · cases hmove
      exact ⟨rfl, rfl, h, rfl, fun _ => rfl, rfl⟩

/-- A button is one of three, each with its code and its qualifier. -/
theorem button_cases (args : Text) : ∃ k, 12 ≤ k ∧ k ≤ 14 ∧
    (button args).2.1 = BitVec.twoPow 16 k ∧
    (button args).1 = BitVec.ofNat 16 (0x68 + (14 - k)) := by
  rw [button]
  split
  · exact ⟨13, by decide, by decide, rfl, rfl⟩
  · exact ⟨13, by decide, by decide, rfl, rfl⟩
  · exact ⟨12, by decide, by decide, rfl, rfl⟩
  · exact ⟨12, by decide, by decide, rfl, rfl⟩
  · exact ⟨14, by decide, by decide, rfl, rfl⟩

theorem prepared_click (h : Separate s) (hclick : buttonEvent s args = .ok (s', ie, what)) :
    PreparedFrom .click args s s' ie := by
  rw [buttonEvent] at hclick
  split at hclick
  · cases hclick
  · simp only [Except.ok.injEq, Prod.mk.injEq] at hclick
    obtain ⟨rfl, rfl, -⟩ := hclick
    obtain ⟨k, hlow, hhigh, hqual, hcode⟩ := button_cases args
    have hnat : (button args).1.toNat = 0x68 + (14 - k) := by
      rw [hcode, BitVec.toNat_ofNat, Nat.mod_eq_of_lt (by omega)]
    have hseen : seen .click args = some (k, !isUp args) := by
      rw [seen, hnat]
      exact congrArg (fun k => some (k, !isUp args)) (by omega)
    have hupdate : ∀ i, (if isUp args then s.heldQuals &&& ~~~(button args).2.1
        else s.heldQuals ||| (button args).2.1).getLsbD i =
          settle (seen .click args) i (s.heldQuals.getLsbD i) := fun i => by
      rw [hqual, hseen, settle]
      cases isUp args with
      | true =>
        rw [if_pos rfl, getLsbD_unset (by omega)]
        by_cases hi : k = i
        · rw [if_pos hi, if_neg (not_not_intro hi), if_neg (by omega), Bool.not_true]
        · rw [if_neg hi, if_pos hi]
      | false =>
        rw [if_neg Bool.false_ne_true, getLsbD_set (by omega)]
        by_cases hi : k = i
        · rw [if_pos hi, if_neg (not_not_intro hi), if_neg (by omega), Bool.not_false]
        · rw [if_neg hi, if_pos hi]
    refine ⟨rfl, rfl, ⟨h.keys, fun i hi => ?_⟩, rfl, fun i => ?_, ?_⟩
    · rw [hupdate i, hseen, settle] at hi
      split at hi
      · exact h.buttons i hi
      · next hki => exact not_not.mp hki ▸ hlow
    · rw [InputState.recorded, BitVec.getLsbD_or, hupdate i, InputState.recorded,
        BitVec.getLsbD_or, hseen, Bool.or_comm, Bool.or_comm (s.heldQuals.getLsbD i)]
      refine (settle_or fun hki => ?_).symm
      by_contra hne
      have hle := h.keys i (Bool.eq_true_of_not_eq_false hne)
      omega
    · have hcodes : ∀ k ∈ [12, 13, 14], ∀ up : Bool,
          (if up then BitVec.ofNat 16 (0x68 + (14 - k)) ||| iecodeUp
            else BitVec.ofNat 16 (0x68 + (14 - k))).toNat =
            0x68 + (14 - k) + if up then 0x80 else 0 := by
        decide
      have hk : k ∈ [12, 13, 14] := by
        simp only [List.mem_cons, List.not_mem_nil, or_false]
        omega
      rw [hseen, hcode]
      simp only [touch, hcodes k hk, hiddenRelease]
      cases isUp args with
      | true =>
        rw [if_pos rfl, if_neg (by omega), if_pos (by omega)]
        exact congrArg (fun k => some (k, false)) (by omega)
      | false =>
        rw [if_neg Bool.false_ne_true, if_pos (by omega)]
        exact congrArg (fun k => some (k, true)) (by omega)

theorem prepared (h : Separate s) (hprepare : c.prepare s args = .ok (s', ie, what)) :
    PreparedFrom c args s s' ie := by
  cases c with
  | key => exact prepared_key h hprepare
  | move => exact prepared_move h hprepare
  | pointer => exact prepared_pointer h hprepare
  | click => exact prepared_click h hprepare

end Handlers

/-! ### Runs -/

section Inject

variable {s s' : InputState} {busy : Bool} {answer : Answer}

/-- The injection leaves the record as the handler has updated it. -/
theorem injectEvent_quals : (injectEvent busy answer s).1.heldQuals = s.heldQuals ∧
    (injectEvent busy answer s).1.keyQuals = s.keyQuals := by
  rw [injectEvent]
  split
  · exact ⟨rfl, rfl⟩
  · split
    · exact ⟨rfl, rfl⟩
    · cases answer.outcome <;> exact ⟨rfl, rfl⟩

theorem recorded_injectEvent : (injectEvent busy answer s).1.recorded = s.recorded := by
  rw [InputState.recorded, injectEvent_quals.1, injectEvent_quals.2, InputState.recorded]

theorem separate_injectEvent (h : Separate s) : Separate (injectEvent busy answer s).1 := by
  obtain ⟨hheld, hkey⟩ := @injectEvent_quals s busy answer
  exact ⟨hkey ▸ h.keys, hheld ▸ h.buttons⟩

/-- How it ends does not depend on the qualifiers. -/
theorem injected_congr (hopen : s'.inputOpen = s.inputOpen)
    (hwedged : s'.inputWedged = s.inputWedged) :
    (injectEvent busy answer s').2 = (injectEvent busy answer s).2 := by
  rw [injectEvent, injectEvent, hopen, hwedged]
  split
  · rfl
  · split
    · rfl
    · cases answer.outcome <;> rfl

end Inject

/-- A release that the key code carries itself is of a qualifier that is not held. -/
def Unhidden (c : Command) (args : Text) (recorded : BitVec 16) : Prop :=
  ∀ k, hiddenRelease c args = some k → k = 2 ∨ recorded.getLsbD k = false

/-- What must hold of a command for each end of its event: that it sees what the event does, if the
event was handed over, and that it changes nothing, if the event was not taken. -/
def Injected.Allows (injected : Injected) (sees same : Prop) : Prop :=
  match injected with
  | .processed => sees
  | .aborted => sees ∧ same
  | .pending => False
  | .wedged => same
  | .unopened => same

/-- No event is left with the device; where it is not taken, the command presses and releases
nothing that is not pressed or released already; and no key code carries the release of a
qualifier that is held. -/
def Undisturbed (s : InputSystem) : InputLabel → Prop
  | .command c args answer => ∀ daemon ie what, c.prepare s.daemon args = .ok (daemon, ie, what) →
    (injectEvent s.pending.isSome answer s.daemon).2.Allows (Unhidden c args s.daemon.recorded)
      (daemon.recorded = s.daemon.recorded)
  | .drain => True

/-- What holds in every state: a pending event lies where the handlers put it. -/
structure Kept (s : InputSystem) : Prop where
  separate : Separate s.daemon
  stored : ∀ r ∈ s.pending, r.2 = eventStorage

section Pictures

variable {s s' : InputSystem} {daemon : InputState} {ie : InputEvent} {c : Command} {args : Text}

theorem hiddenRelease_eq_some {k : Nat} (h : hiddenRelease c args = some k) :
    k < 8 ∧ seen c args = none := by
  cases c with
  | key =>
    simp only [hiddenRelease] at h
    split at h
    · next hn =>
      have hk := Option.some.inj h
      refine ⟨by omega, ?_⟩
      simp only [seen]
      exact if_neg (by omega)
    · cases h
  | move => cases h
  | pointer => cases h
  | click => cases h

/-- The handler sees what the event does, unless the key code hides a release. -/
theorem recorded_eq_settle_iff {d d' : InputState} (h : PreparedFrom c args d d' ie) :
    (∀ i < 16, d'.recorded.getLsbD i = settle (touch ie) i (d.recorded.getLsbD i)) ↔
      Unhidden c args d.recorded := by
  cases hhidden : hiddenRelease c args with
  | none =>
    have htouch := h.touched
    rw [hhidden] at htouch
    refine iff_of_true (fun i _ => ?_) fun k hk => ?_
    · rw [h.recorded i, htouch]
    · rw [hhidden] at hk
      cases hk
  | some k =>
    obtain ⟨hk, hseen⟩ := hiddenRelease_eq_some hhidden
    have htouch := h.touched
    rw [hhidden] at htouch
    have hsame : ∀ i, d'.recorded.getLsbD i = d.recorded.getLsbD i := fun i => by
      rw [h.recorded i, hseen]
      rfl
    rw [htouch]
    constructor
    · rintro hall j hj
      obtain rfl : k = j := Option.some.inj (hhidden.symm.trans hj)
      refine or_iff_not_imp_left.mpr fun hne => ?_
      have hset := hall k (by omega)
      rw [hsame k, settle, if_neg (not_not_intro rfl), if_neg hne] at hset
      exact hset
    · intro hfree i _
      rw [hsame i, settle]
      split
      · rfl
      · next hi =>
        obtain rfl := not_not.mp hi
        rcases hfree k hhidden with rfl | hoff
        · rw [if_pos rfl, Bool.xor_false]
        · rw [hoff]
          split <;> rfl

/-- One event more that the device has processed. -/
theorem recorded_processed_iff (h : TruePicture s) :
    (∀ i < 16, daemon.recorded.getLsbD i = held (s.processed ++ [ie]) i) ↔
      ∀ i < 16, daemon.recorded.getLsbD i = settle (touch ie) i (s.daemon.recorded.getLsbD i) := by
  refine forall₂_congr fun i hi => ?_
  rw [held_append, ← h.recorded i hi]

/-- Without a further event the record must be what it was. -/
theorem recorded_same_iff (h : TruePicture s) :
    (∀ i < 16, daemon.recorded.getLsbD i = held s.processed i) ↔
      daemon.recorded = s.daemon.recorded := by
  constructor
  · intro hall
    exact BitVec.eq_of_getLsbD_eq fun i hi => (hall i hi).trans (h.recorded i hi).symm
  · intro hsame i hi
    rw [hsame]
    exact h.recorded i hi

/-- The mask of one event more that is handed over. -/
theorem masks_sent_iff (h : TruePicture s) (hmask : ie.qualifier = daemon.recorded) :
    (∀ r ∈ s.sent ++ [(ie, s.processed)], ∀ i < 16,
        r.1.qualifier.getLsbD i = held (r.2 ++ [r.1]) i) ↔
      ∀ i < 16, daemon.recorded.getLsbD i = held (s.processed ++ [ie]) i := by
  rw [List.forall_mem_append, and_iff_right h.masks, List.forall_mem_singleton, hmask]

theorem kept_refusal_iff (h : TruePicture s) :
    (∀ r ∈ s.refusals ++ [(s.daemon.recorded, daemon.recorded)], r.1 = r.2) ↔
      daemon.recorded = s.daemon.recorded := by
  rw [List.forall_mem_append, and_iff_right h.kept, List.forall_mem_singleton]
  exact eq_comm

/-- What becomes of an event decides what its command must not have done. -/
theorem truePicture_take_iff (h : TruePicture s) (hmask : ie.qualifier = daemon.recorded)
    (injected : Injected) :
    TruePicture (s.take daemon ie injected) ↔
      injected.Allows
        (∀ i < 16, daemon.recorded.getLsbD i =
          settle (touch ie) i (s.daemon.recorded.getLsbD i))
        (daemon.recorded = s.daemon.recorded) := by
  have hnone : ∀ r ∈ (none : Option (InputEvent × Storage)), r.2 = .permanent := fun r hr => by
    cases hr
  have hsettle := @recorded_processed_iff s daemon ie h
  have hsame := @recorded_same_iff s daemon h
  have hmasks := masks_sent_iff h hmask
  have hkept := @kept_refusal_iff s daemon h
  cases injected with
  | processed =>
    refine ⟨fun h' => hsettle.mp h'.recorded, fun hall => ⟨?_, hsettle.mpr hall, h.kept, hnone⟩⟩
    exact hmasks.mpr (hsettle.mpr hall)
  | aborted =>
    constructor
    · exact fun h' => ⟨hsettle.mp (hmasks.mp h'.masks), hsame.mp h'.recorded⟩
    · exact fun hall => ⟨hmasks.mpr (hsettle.mpr hall.1), hsame.mpr hall.2, hkept.mpr hall.2, hnone⟩
  | pending =>
    refine iff_of_false (fun h' => ?_) not_false
    have hgone := h'.alive _ rfl
    cases hgone
  | wedged =>
    exact ⟨fun h' => hsame.mp h'.recorded, fun hall => ⟨h.masks, hsame.mpr hall, hkept.mpr hall,
      h.alive⟩⟩
  | unopened =>
    exact ⟨fun h' => hsame.mp h'.recorded, fun hall => ⟨h.masks, hsame.mpr hall, hkept.mpr hall,
      h.alive⟩⟩

end Pictures

section Steps

variable {s s' : InputSystem}

/-- A command without its arguments does nothing; another one hands over its event. -/
theorem command_cases {c : Command} {args : Text} {answer : Answer}
    (h : inputStep s (.command c args answer) = some s') :
    (∃ message, c.prepare s.daemon args = .error message ∧ s' = s) ∨
      ∃ daemon ie what, c.prepare s.daemon args = .ok (daemon, ie, what) ∧
        s' = s.take (injectEvent s.pending.isSome answer daemon).1 ie
          (injectEvent s.pending.isSome answer daemon).2 := by
  rw [inputStep, Command.handle] at h
  cases hprepare : c.prepare s.daemon args with
  | error message =>
    rw [hprepare] at h
    exact .inl ⟨message, rfl, (Option.some.inj h).symm⟩
  | ok prepared =>
    obtain ⟨daemon, ie, what⟩ := prepared
    rw [hprepare] at h
    exact .inr ⟨daemon, ie, what, rfl, (Option.some.inj h).symm⟩

theorem kept_step (h : Kept s) {a : InputLabel} (hstep : inputStep s a = some s') : Kept s' := by
  cases a with
  | command c args answer =>
    rcases command_cases hstep with ⟨message, -, rfl⟩ | ⟨daemon, ie, what, hprepare, rfl⟩
    · exact h
    · have hseparate := @separate_injectEvent daemon s.pending.isSome answer
        (prepared h.separate hprepare).separate
      have hnone : ∀ r ∈ (none : Option (InputEvent × Storage)), r.2 = eventStorage :=
        fun r hr => by cases hr
      cases (injectEvent s.pending.isSome answer daemon).2 with
      | processed => exact ⟨hseparate, hnone⟩
      | aborted => exact ⟨hseparate, hnone⟩
      | pending => exact ⟨hseparate, fun r hr => by rw [← Option.some.inj hr]⟩
      | wedged => exact ⟨hseparate, h.stored⟩
      | unopened => exact ⟨hseparate, h.stored⟩
  | drain =>
    obtain ⟨r, -, rfl⟩ := Option.map_eq_some_iff.mp hstep
    exact ⟨h.separate, fun r hr => by cases hr⟩

/-- From a true picture a step leads to a true one exactly if it is undisturbed. -/
theorem truePicture_step_iff (h : Kept s) (hs : TruePicture s) {a : InputLabel}
    (hstep : inputStep s a = some s') : TruePicture s' ↔ Undisturbed s a := by
  cases a with
  | command c args answer =>
    rcases command_cases hstep with ⟨message, hprepare, rfl⟩ | ⟨daemon, ie, what, hprepare, rfl⟩
    · refine iff_of_true hs fun daemon ie what hok => ?_
      rw [hprepare] at hok
      cases hok
    · have hfrom := prepared h.separate hprepare
      have hrecorded : (injectEvent s.pending.isSome answer daemon).1.recorded = daemon.recorded :=
        recorded_injectEvent
      have hagree := recorded_eq_settle_iff hfrom
      have hinjected : (injectEvent s.pending.isSome answer daemon).2 =
          (injectEvent s.pending.isSome answer s.daemon).2 :=
        injected_congr hfrom.inputOpen hfrom.inputWedged
      have honly : Undisturbed s (.command c args answer) ↔
          (injectEvent s.pending.isSome answer s.daemon).2.Allows
            (Unhidden c args s.daemon.recorded) (daemon.recorded = s.daemon.recorded) := by
        refine ⟨fun hall => hall daemon ie what hprepare, fun hthis daemon' ie' what' hok => ?_⟩
        rw [hprepare] at hok
        cases hok
        exact hthis
      rw [truePicture_take_iff hs (hfrom.qualifier.trans hrecorded.symm), hrecorded, hagree,
        hinjected, honly]
  | drain =>
    obtain ⟨r, hr, rfl⟩ := Option.map_eq_some_iff.mp hstep
    have hgone := (h.stored r hr).symm.trans (hs.alive r hr)
    cases hgone

end Steps

theorem kept_init : Kept inputInit :=
  ⟨⟨fun i hi => by simp [inputInit] at hi, fun i hi => by simp [inputInit] at hi⟩,
    fun r hr => by cases hr⟩

theorem truePicture_init : TruePicture inputInit :=
  ⟨fun r hr => absurd hr List.not_mem_nil, by decide, fun r hr => absurd hr List.not_mem_nil,
    fun r hr => by cases hr⟩

end AmigaDevbench.InputInject
