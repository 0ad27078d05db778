import AmigaDevbench.Core.Keyboard
import AmigaDevbench.Core.Keyed
import AmigaDevbench.Core.Returns
import AmigaDevbench.Host.Winuae.HunkRelocate
import AmigaDevbench.Host.Winuae.SymbolRead

/-!
# Guest input of `winuae_guest.py`

A sequence of input events is built from the arguments of a request and sent in one command. The
events that a text is turned into are replayed here on a keyboard of the guest, which types the
legends of its keys.
-/

namespace AmigaDevbench.Winuae

open SymbolRead

namespace GuestInput

/-- `[kind, port, code, value]`. -/
structure InputEvent where
  kind : Nat
  port : Nat
  code : Nat
  value : Nat
  deriving DecidableEq, Repr

/-- An event behind a delay in frames. -/
structure Step where
  delay : Nat
  event : InputEvent
  deriving DecidableEq, Repr

/-- `integer`, of a number that is not negative. -/
def amount (value : Json) (name : String) (maximum minimum : Nat) : Except DebugError Nat :=
  (integer value.toVal name maximum minimum).map Int.toNat

/-- `boolean`. A value that equals zero or one stands for a Boolean. -/
def flag (value : Json) (name : String) : Except DebugError Bool :=
  if value.equalsInt 0 || value.equalsText ['0'] then .ok false
  else if value.equalsInt 1 || value.equalsText ['1'] then .ok true
  else .error ⟨name ++ " must be true or false"⟩

/-- `DIRECTIONS`. -/
def directions : List String := ["left", "right", "up", "down"]

/-- `DIRECTIONS.index`, where the value is one of them. -/
def directionIndex? (value : Json) : Option Nat :=
  directions.findIdx? fun direction => value.equalsText direction.toList

/-- A motion of the mouse. -/
def mouseEvent (args : Obj) (port : Nat) : Except DebugError InputEvent :=
  let axis := getKey args "axis" .null
  match getKey args "delta" .null with
  | .int delta =>
    if (axis.equalsText ['x'] || axis.equalsText ['y']) && delta.natAbs ≤ 127 then
      .ok ⟨1, port, if axis.equalsText ['x'] then 0 else 1, (delta % 2 ^ 32).toNat⟩
    else
      .error ⟨"Mouse motion needs axis x or y and an integer delta of -127..127"⟩
  | _ => .error ⟨"Mouse motion needs axis x or y and an integer delta of -127..127"⟩

/-- What is pressed or released. -/
def pressEvent (args : Obj) (port state : Nat) : Except DebugError InputEvent :=
  let kind := getKey args "action" .null
  if kind.equalsText "key".toList then
    if port ≠ 0 then .error ⟨"The keyboard has no port"⟩
    else (amount (getKey args "code" .null) "code" 0x67 0).map fun code => ⟨0, 0, code, state⟩
  else if kind.equalsText "button".toList then
    (amount (getKey args "button" .null) "button" 2 0).map fun button =>
      ⟨2, port, 4 + button, state⟩
  else
    match kind.equalsText "joystick".toList, directionIndex? (getKey args "direction" .null) with
    | true, some direction => .ok ⟨2, port, direction, state⟩
    | _, _ => .error ⟨"Input action must be key, mouse, button or joystick"⟩

/-- `input_event`. -/
def inputEvent (args : Obj) : Except DebugError InputEvent := do
  let port ← amount (getKey args "port" (.int 0)) "port" 1 0
  if (getKey args "action" .null).equalsText "mouse".toList then mouseEvent args port
  else do
    let pressed ← flag (getKey args "pressed" .null) "pressed"
    pressEvent args port (if pressed then 1 else 0)

/-! ### The keys of a text -/

/-- The rows of the keymap with the key of their first character. -/
def rows : List (String × Nat) :=
  [("`1234567890-=", 0x00), ("qwertyuiop[]", 0x10), ("asdfghjkl;'", 0x20), ("zxcvbnm,./", 0x31)]

/-- The characters of a row, each on the next key. -/
def rowKeys (row : String × Nat) : List (Char × Nat × Bool) :=
  row.1.toList.mapIdx fun i c => (c, row.2 + i, false)

/-- The plain characters and those that their keys have above them. -/
def shiftedRows : List (String × String) :=
  [("`1234567890-=", "~!@#$%^&*()_+"), ("[]", "\x7b\x7d"), (";'", ":\""), (",./", "<>?")]

/-- The shifted key of a plain character. -/
def shiftedKey (keys : List (Char × Nat × Bool)) (plain shifted : Char) : Char × Nat × Bool :=
  (shifted, ((Keyed.lookup keys plain).getD (0, false)).1, true)

/-- The items of `TEXT_KEYS` in the order of its loops. -/
def textItems : List (Char × Nat × Bool) :=
  let plain := rows.flatMap rowKeys
  let upper := "abcdefghijklmnopqrstuvwxyz".toList.map fun c => shiftedKey plain c c.toUpper
  let above := shiftedRows.flatMap fun row =>
    (row.1.toList.zip row.2.toList).map fun pair => shiftedKey plain pair.1 pair.2
  plain ++ upper ++ above ++
    [('\\', 0x0d, false), ('|', 0x0d, true), (' ', 0x40, false), ('\t', 0x42, false),
      ('\n', 0x44, false)]

/-- `TEXT_KEYS`. -/
def textKeys : List (Char × Nat × Bool) := Keyed.assignAll [] textItems

/-- `KEY_SHIFT`. -/
def keyShift : Nat := 0x60

/-- `SEQUENCE_STEPS` and `SEQUENCE_FRAMES`. -/
def sequenceSteps : Nat := 256

def sequenceFrames : Nat := 3600

/-- `tap`: the keys are pressed in order, held, and released in the opposite order. -/
def tap (hold gap : Nat) (codes : List Nat) : List Step :=
  codes.map (fun code => ⟨0, ⟨0, 0, code, 1⟩⟩) ++
    codes.reverse.mapIdx (fun i code => ⟨if i = 0 then hold else 0, ⟨0, 0, code, 0⟩⟩) ++
    [⟨gap, ⟨3, 0, 0, 0⟩⟩]

/-- The tools that send a sequence. -/
inductive SequenceKind where
  | inputSequence
  | keyTap
  | typeText
  deriving DecidableEq, Repr

/-- A step of `input_sequence`. -/
def sequenceStep : Json → Except DebugError Step
  | .dict step => do
    let delay ← amount (getKey step "after_frames" (.int 0)) "after_frames" sequenceFrames 0
    if (getKey step "action" .null).equalsText "wait".toList then return ⟨delay, ⟨3, 0, 0, 0⟩⟩
    else return ⟨delay, ← inputEvent step⟩
  | _ => .error ⟨"Each step must be an object"⟩

/-- The steps of `input_sequence`. -/
def inputSteps (args : Obj) : Except DebugError (List Step) :=
  match getKey args "steps" .null with
  | .list raw =>
    if 1 ≤ raw.length ∧ raw.length ≤ sequenceSteps then raw.mapM sequenceStep
    else .error ⟨"Supply 1..256 steps"⟩
  | _ => .error ⟨"Supply 1..256 steps"⟩

/-- The steps of `key_tap`. -/
def tapSteps (args : Obj) (hold gap : Nat) : Except DebugError (List Step) :=
  match getKey args "codes" .null with
  | .list raw =>
    if 1 ≤ raw.length ∧ raw.length ≤ 8 then do
      let codes ← raw.mapM fun code => amount code "code" 0x67 0
      if codes.Nodup then return tap hold gap codes
      else .error ⟨"A chord cannot contain a key twice"⟩
    else .error ⟨"Supply 1..8 key codes"⟩
  | _ => .error ⟨"Supply 1..8 key codes"⟩

variable (quoted : Char → String)

/-- The taps of a character. `quoted` is `repr`. -/
def charSteps (hold gap : Nat) (c : Char) : Except DebugError (List Step) :=
  match Keyed.lookup textKeys c with
  | none => .error ⟨"Unsupported character for the US keymap: " ++ quoted c⟩
  | some (code, shifted) => .ok (tap hold gap (if shifted then [keyShift, code] else [code]))

/-- The steps of `type_text`. -/
def textSteps (args : Obj) (hold gap : Nat) : Except DebugError (List Step) :=
  match getKey args "text" .null with
  | .str text =>
    if (getKey args "layout" .null).equalsText "us".toList ∧ 1 ≤ text.length ∧ text.length ≤ 60 then do
      let taps ← text.mapM (charSteps quoted hold gap)
      return taps.flatten
    else .error ⟨"Supply 1..60 characters and layout \"us\" (the guest keymap)"⟩
  | _ => .error ⟨"Supply 1..60 characters and layout \"us\" (the guest keymap)"⟩

/-- `build_sequence` before its last check. -/
def unchecked (kind : SequenceKind) (args : Obj) : Except DebugError (List Step) :=
  match kind with
  | .inputSequence => inputSteps args
  | _ => do
    let hold ← amount (getKey args "hold_frames" (.int 3)) "hold_frames" 120 1
    let gap ← amount (getKey args "gap_frames" (.int 3)) "gap_frames" 120 1
    if kind = .keyTap then tapSteps args hold gap else textSteps quoted args hold gap

/-- `build_sequence`. -/
def buildSequence (kind : SequenceKind) (args : Obj) : Except DebugError (List Step) := do
  let steps ← unchecked quoted kind args
  if sequenceSteps < steps.length ∨ sequenceFrames < (steps.map (·.delay)).sum then
    .error ⟨"The sequence exceeds 256 events or 3600 frames; split it"⟩
  else return steps

/-! ### The keyboard of the guest -/

/-- The characters on the keys of a US keyboard, plain and shifted. -/
def usCaps : List (Nat × Char × Char) :=
  [(0x00, '\x60', '~'), (0x01, '1', '!'), (0x02, '2', '@'), (0x03, '3', '#'), (0x04, '4', '$'),
    (0x05, '5', '%'), (0x06, '6', '^'), (0x07, '7', '&'), (0x08, '8', '*'), (0x09, '9', '('),
    (0x0a, '0', ')'), (0x0b, '-', '_'), (0x0c, '=', '+'), (0x0d, '\\', '|'),
    (0x10, 'q', 'Q'), (0x11, 'w', 'W'), (0x12, 'e', 'E'), (0x13, 'r', 'R'), (0x14, 't', 'T'),
    (0x15, 'y', 'Y'), (0x16, 'u', 'U'), (0x17, 'i', 'I'), (0x18, 'o', 'O'), (0x19, 'p', 'P'),
    (0x1a, '[', '\x7b'), (0x1b, ']', '\x7d'),
    (0x20, 'a', 'A'), (0x21, 's', 'S'), (0x22, 'd', 'D'), (0x23, 'f', 'F'), (0x24, 'g', 'G'),
    (0x25, 'h', 'H'), (0x26, 'j', 'J'), (0x27, 'k', 'K'), (0x28, 'l', 'L'), (0x29, ';', ':'),
    (0x2a, '\x27', '\x22'),
    (0x31, 'z', 'Z'), (0x32, 'x', 'X'), (0x33, 'c', 'C'), (0x34, 'v', 'V'), (0x35, 'b', 'B'),
    (0x36, 'n', 'N'), (0x37, 'm', 'M'), (0x38, ',', '<'), (0x39, '.', '>'), (0x3a, '/', '?'),
    (0x40, ' ', ' '), (0x42, '\t', '\t'), (0x44, '\n', '\n')]

/-- What a key types. -/
def usKey (shifted : Bool) (code : Nat) : Option Char :=
  (Keyed.lookup usCaps code).map fun cap => if shifted then cap.2 else cap.1

/-- What a key types while others are held. -/
def usLegend (held : Finset Nat) (code : Nat) : Option Char := usKey (decide (keyShift ∈ held)) code

/-- What a step does to the keyboard. -/
def strokeOf? (step : Step) : Option (Stroke Nat) :=
  if step.event.kind = 0 then
    some (if step.event.value = 1 then .down step.event.code else .up step.event.code)
  else none

/-- The keyboard behind the steps. -/
def replay (s : Keyboard.State Nat Char) (steps : List Step) : Option (Keyboard.State Nat Char) :=
  Keyboard.strokes usLegend s (steps.filterMap strokeOf?)

theorem replay_append {s t : Keyboard.State Nat Char} {first second : List Step}
    (h : replay s first = some t) : replay s (first ++ second) = replay t second := by
  rw [replay, List.filterMap_append]
  exact Keyboard.strokes_append h

theorem strokes_down (codes : List Nat) :
    (codes.map fun code => (⟨0, ⟨0, 0, code, 1⟩⟩ : Step)).filterMap strokeOf? =
      codes.map .down := by
  induction codes with
  | nil => rfl
  | cons code codes ih =>
    rw [List.map_cons, List.filterMap_cons_some (rfl : strokeOf? _ = some (.down code)), ih,
      List.map_cons]

/-- The strokes of a tap are those of its chord. -/
theorem strokes_tap (hold gap : Nat) (codes : List Nat) :
    (tap hold gap codes).filterMap strokeOf? = Keyboard.chord codes := by
  have hup : ∀ (codes : List Nat) (delay : Nat → Nat),
      (codes.mapIdx fun i code => (⟨delay i, ⟨0, 0, code, 0⟩⟩ : Step)).filterMap strokeOf? =
        codes.map .up := by
    intro codes
    induction codes with
    | nil => exact fun _ => rfl
    | cons code codes ih =>
      intro delay
      rw [List.mapIdx_cons, List.filterMap_cons_some (rfl : strokeOf? _ = some (.up code)),
        List.map_cons]
      exact congrArg _ (ih fun i => delay (i + 1))
  rw [tap, List.filterMap_append, List.filterMap_append, strokes_down, hup codes.reverse]
  exact List.append_nil _

set_option maxRecDepth 20000 in
/-- Every character is on its key. -/
theorem usKey_textItems : ∀ e ∈ textItems, usKey e.2.2 e.2.1 = some e.1 ∧ e.2.1 ≤ 0x44 := by
  decide

/-- The shift key types nothing. -/
theorem usLegend_keyShift : usLegend ∅ keyShift = none := by
  have hnone : ∀ shifted, usKey shifted 0x60 = none := fun shifted => by
    rw [usKey, Keyed.lookup_eq_none.mpr (by decide)]
    rfl
  exact hnone _

/-- The key of a supported character is one of the items. -/
theorem charSteps_ok {hold gap : Nat} {c : Char} {steps : List Step}
    (h : charSteps quoted hold gap c = .ok steps) :
    ∃ code shifted, (c, code, shifted) ∈ textItems ∧
      steps = tap hold gap (if shifted then [keyShift, code] else [code]) := by
  unfold charSteps at h
  cases hkey : Keyed.lookup textKeys c with
  | none =>
    rw [hkey] at h
    cases h
  | some key =>
    rw [hkey] at h
    have hmem : (c, key) ∈ textItems :=
      (Keyed.mem_assignAll (Keyed.mem_of_lookup hkey)).resolve_left List.not_mem_nil
    exact ⟨key.1, key.2, hmem, (Except.ok.inj h).symm⟩

/-- The taps of a character type it. -/
theorem replay_charSteps {hold gap : Nat} {c : Char} {steps : List Step}
    (h : charSteps quoted hold gap c = .ok steps) (typed : Text) :
    replay ⟨∅, typed⟩ steps = some ⟨∅, typed ++ [c]⟩ := by
  obtain ⟨code, shifted, hmem, rfl⟩ := charSteps_ok quoted h
  obtain ⟨hlegend, hcode⟩ := usKey_textItems _ hmem
  have hshift : keyShift = 0x60 := rfl
  have hne : keyShift ≠ code := by
    intro heq
    dsimp only at hcode
    omega
  rw [replay, strokes_tap]
  cases shifted with
  | false =>
    have hplain : usLegend ∅ code = some c := hlegend
    have htyped : Keyboard.typedBy usLegend ∅ [code] = [c] := by
      rw [Keyboard.typedBy, Keyboard.typedBy, hplain]
      exact List.append_nil _
    rw [if_neg Bool.false_ne_true, Keyboard.strokes_chord (by simp) (List.nodup_singleton code),
      htyped]
  | true =>
    have hshifted : usLegend (insert keyShift ∅) code = some c := by
      rw [usLegend, decide_eq_true (Finset.mem_insert_self keyShift ∅)]
      exact hlegend
    have htyped : Keyboard.typedBy usLegend ∅ [keyShift, code] = [c] := by
      rw [Keyboard.typedBy, Keyboard.typedBy, Keyboard.typedBy, usLegend_keyShift, hshifted]
      rfl
    rw [if_pos rfl, Keyboard.strokes_chord (by simp) (by simpa using hne), htyped]

theorem replay_flatten {hold gap : Nat} {text : Text} {taps : List (List Step)}
    (h : List.Forall₂ (fun c steps => charSteps quoted hold gap c = .ok steps) text taps) :
    ∀ typed : Text, replay ⟨∅, typed⟩ taps.flatten = some ⟨∅, typed ++ text⟩ := by
  induction h with
  | nil =>
    intro typed
    rw [List.append_nil]
    rfl
  | @cons c steps text taps hc _ ih =>
    intro typed
    rw [List.flatten_cons, replay_append (replay_charSteps quoted hc typed), ih,
      List.append_assoc, List.singleton_append]

/-- The different keys that a request names. -/
structure Chord (args : Obj) (codes : List Nat) : Prop where
  named : ∃ raw, getKey args "codes" .null = .list raw ∧
    (raw.mapM fun code => amount code "code" 0x67 0) = .ok codes
  nodup : codes.Nodup

/-- The steps of a chord press and release its keys. -/
theorem tapSteps_ok {args : Obj} {hold gap : Nat} {steps : List Step}
    (h : tapSteps args hold gap = .ok steps) :
    ∃ codes, Chord args codes ∧ steps = tap hold gap codes := by
  unfold tapSteps at h
  split at h
  · next raw hraw =>
    split at h
    · obtain ⟨codes, hcodes, hrest⟩ := bind_eq_ok_iff.mp h
      split at hrest
      · next hnodup => exact ⟨codes, ⟨⟨raw, hraw, hcodes⟩, hnodup⟩, (Except.ok.inj hrest).symm⟩
      · cases hrest
    · cases h
  · cases h

/-- The steps of a text are the taps of its characters. -/
theorem textSteps_ok {args : Obj} {hold gap : Nat} {steps : List Step}
    (h : textSteps quoted args hold gap = .ok steps) :
    ∃ text taps, getKey args "text" .null = .str text ∧ text ≠ [] ∧
      List.Forall₂ (fun c steps => charSteps quoted hold gap c = .ok steps) text taps ∧
      steps = taps.flatten := by
  unfold textSteps at h
  split at h
  · next text htext =>
    split at h
    · next hlen =>
      obtain ⟨taps, htaps, hrest⟩ := bind_eq_ok_iff.mp h
      exact ⟨text, taps, htext, List.length_pos_iff.mp hlen.2.1, forall₂_of_mapM htaps,
        (Except.ok.inj hrest).symm⟩
    · cases h
  · cases h

theorem buildSequence_ok {kind : SequenceKind} {args : Obj} {steps : List Step}
    (h : buildSequence quoted kind args = .ok steps) :
    unchecked quoted kind args = .ok steps ∧ steps.length ≤ sequenceSteps ∧
      (steps.map (·.delay)).sum ≤ sequenceFrames := by
  obtain ⟨all, hall, hcheck⟩ := bind_eq_ok_iff.mp h
  split at hcheck
  · cases hcheck
  · next hlimits =>
    cases hcheck
    exact ⟨hall, not_lt.mp fun hlen => hlimits (.inl hlen),
      not_lt.mp fun hsum => hlimits (.inr hsum)⟩

/-- Whatever is accepted, each stroke is possible and no key stays held. A text is typed as it
stands, and the keys of a chord are all held before the first of them is released. -/
theorem replay_buildSequence {kind : SequenceKind} {args : Obj} {steps : List Step}
    (hkind : kind ≠ .inputSequence) (h : buildSequence quoted kind args = .ok steps)
    (before : Text) : ∃ typed, replay ⟨∅, before⟩ steps = some ⟨∅, before ++ typed⟩ ∧
      (kind = .typeText → getKey args "text" .null = .str typed) ∧
      (kind = .keyTap → ∃ codes, Chord args codes ∧
        (replay ⟨∅, before⟩ (steps.take codes.length)).map (·.held) = some codes.toFinset) := by
  obtain ⟨hall, -, -⟩ := buildSequence_ok quoted h
  cases kind with
  | inputSequence => exact absurd rfl hkind
  | keyTap =>
    obtain ⟨hold, -, hrest⟩ := bind_eq_ok_iff.mp hall
    obtain ⟨gap, -, htap⟩ := bind_eq_ok_iff.mp hrest
    obtain ⟨codes, hchord, rfl⟩ := tapSteps_ok htap
    have hnew : ∀ key ∈ codes, key ∉ (∅ : Finset Nat) := fun key _ => Finset.notMem_empty key
    refine ⟨Keyboard.typedBy usLegend ∅ codes, ?_, (fun hkind => by cases hkind),
      fun _ => ⟨codes, hchord, ?_⟩⟩
    · rw [replay, strokes_tap, Keyboard.strokes_chord hnew hchord.nodup]
    · rw [tap, List.append_assoc, List.take_left' (List.length_map _), replay, strokes_down,
        Keyboard.strokes_down hnew hchord.nodup, Finset.empty_union]
      rfl
  | typeText =>
    obtain ⟨hold, -, hrest⟩ := bind_eq_ok_iff.mp hall
    obtain ⟨gap, -, htext⟩ := bind_eq_ok_iff.mp hrest
    obtain ⟨text, taps, hargs, -, htaps, rfl⟩ := textSteps_ok quoted htext
    exact ⟨text, replay_flatten quoted htaps before, fun _ => hargs, fun hkind => by cases hkind⟩

/-- The arguments of a request to type a text. -/
def textArgs (text : Text) : Obj := [("layout".toList, .str "us".toList), ("text".toList, .str text)]

set_option maxRecDepth 20000 in
/-- A brace is on a key with a bracket, behind the shift key. -/
theorem replay_buildSequence_brace :
    replay ⟨∅, []⟩ (tap 3 3 [0x60, 0x1a]) = some ⟨∅, ['\x7b']⟩ := by
  have hok : buildSequence Char.toString .typeText (textArgs ['\x7b']) =
      .ok (tap 3 3 [0x60, 0x1a]) := rfl
  obtain ⟨typed, hreplay, htext, -⟩ :=
    replay_buildSequence Char.toString SequenceKind.noConfusion hok []
  have htyped : typed = ['\x7b'] := (Json.str.inj (htext rfl)).symm
  rw [hreplay, htyped]
  rfl

/-! ### The command -/

/-- The numbers of a step. -/
def stepNumbers (step : Step) : List Nat :=
  [step.delay, step.event.kind, step.event.port, step.event.code, step.event.value]

/-- `' '.join(f'{n:x}' for n in s)`. -/
def stepText (step : Step) : Text := [' '].intercalate ((stepNumbers step).map (Nat.toDigits 16))

def sequenceName : Text := "input sequence ".toList

/-- The command of `_sequence`. -/
def sequenceCommand (steps : List Step) : Text :=
  sequenceName ++ [';'].intercalate (steps.map stepText)

/-- The step that a part of the command stands for. -/
def readStep? (text : Text) : Option Step :=
  match (text.splitOn ' ').map fun number => (Py.int 16 number).toOption with
  | [some delay, some kind, some port, some code, some value] =>
    some ⟨delay.toNat, ⟨kind.toNat, port.toNat, code.toNat, value.toNat⟩⟩
  | _ => none

/-- The steps that a command stands for. -/
def readCommand? (command : Text) : Option (List Step) :=
  ((command.drop sequenceName.length).splitOn ';').mapM readStep?

section

variable {quoted}

theorem notMem_toDigits {n : Nat} {c : Char} (hc : Py.isDigitOf 16 c = false) :
    c ∉ Nat.toDigits 16 n := by
  intro hmem
  have hdigit := Py.isDigitOf_of_mem_toDigits (by decide) le_rfl hmem
  rw [hc] at hdigit
  cases hdigit

/-- A step is read as it is written. -/
theorem readStep?_stepText (step : Step) : readStep? (stepText step) = some step := by
  have hsplit : (stepText step).splitOn ' ' = (stepNumbers step).map (Nat.toDigits 16) := by
    refine List.splitOn_intercalate ' ' (fun piece hmem => ?_) (List.cons_ne_nil _ _)
    obtain ⟨n, -, rfl⟩ := List.mem_map.mp hmem
    exact notMem_toDigits (by decide)
  have hint : ∀ n : Nat, (Py.int 16 (Nat.toDigits 16 n)).toOption = some (n : Int) := by
    intro n
    have hread := Py.int_toDigits (b := 16) (n := n) (by decide) le_rfl 0 nofun
    rw [List.replicate_zero, List.nil_append] at hread
    rw [hread]
    rfl
  rw [readStep?, hsplit, stepNumbers]
  simp only [List.map_cons, List.map_nil, hint, Int.toNat_natCast]

theorem notMem_stepText (step : Step) : ';' ∉ stepText step := by
  intro hmem
  rcases Text.mem_intercalate hmem with hspace | ⟨piece, hpiece, hc⟩
  · cases hspace
  · obtain ⟨n, -, rfl⟩ := List.mem_map.mp hpiece
    exact notMem_toDigits (by decide) hc

/-- A sequence of steps is read as it is written. -/
theorem readCommand?_sequenceCommand {steps : List Step} (hne : steps ≠ []) :
    readCommand? (sequenceCommand steps) = some steps := by
  have hsplit : ([';'].intercalate (steps.map stepText)).splitOn ';' = steps.map stepText := by
    refine List.splitOn_intercalate ';' (fun piece hmem => ?_)
      (fun h => hne (List.map_eq_nil_iff.mp h))
    obtain ⟨step, -, rfl⟩ := List.mem_map.mp hmem
    exact notMem_stepText step
  rw [readCommand?, sequenceCommand, List.drop_left, hsplit]
  clear hsplit hne
  induction steps with
  | nil => rfl
  | cons step steps ih =>
    rw [List.map_cons, List.mapM_cons, readStep?_stepText, ih]
    rfl

end
/-! ### The events that are sent -/

/-- What the input command of the emulator takes: a key, a motion, a direction or a button of a port,
or nothing. -/
inductive InputEvent.Valid : InputEvent → Prop
  | key {code state : Nat} (hcode : code ≤ 0x67) (hstate : state ≤ 1) : Valid ⟨0, 0, code, state⟩
  | mouse {port axis : Nat} {delta : Int} (hport : port ≤ 1) (haxis : axis ≤ 1)
    (hdelta : delta.natAbs ≤ 127) : Valid ⟨1, port, axis, (delta % 2 ^ 32).toNat⟩
  | line {port code state : Nat} (hport : port ≤ 1) (hcode : code ≤ 6) (hstate : state ≤ 1) :
    Valid ⟨2, port, code, state⟩
  | wait : Valid ⟨3, 0, 0, 0⟩

theorem amount_le {value : Json} {name : String} {maximum minimum n : Nat}
    (h : amount value name maximum minimum = .ok n) : n ≤ maximum := by
  unfold amount at h
  cases hint : integer value.toVal name maximum minimum with
  | error e =>
    rw [hint] at h
    cases h
  | ok m =>
    rw [hint] at h
    cases h
    have hbounds := integer_bounds hint
    exact Int.toNat_le.mpr hbounds.2

theorem directionIndex?_lt {value : Json} {i : Nat} (h : directionIndex? value = some i) :
    i < 4 := by
  obtain ⟨hlt, -⟩ := List.findIdx?_eq_some_iff_getElem.mp h
  exact hlt

theorem mouseEvent_valid {args : Obj} {port : Nat} {event : InputEvent} (hport : port ≤ 1)
    (h : mouseEvent args port = .ok event) : event.Valid := by
  unfold mouseEvent at h
  dsimp only at h
  split at h
  · next delta hdelta =>
    split at h
    · next hcheck =>
      cases h
      obtain ⟨-, hdelta⟩ := (Bool.and_eq_true _ _).mp hcheck
      refine .mouse hport ?_ (of_decide_eq_true hdelta)
      split
      · exact Nat.zero_le 1
      · exact le_rfl
    · cases h
  · cases h

theorem pressEvent_valid {args : Obj} {port state : Nat} {event : InputEvent} (hport : port ≤ 1)
    (hstate : state ≤ 1) (h : pressEvent args port state = .ok event) : event.Valid := by
  unfold pressEvent at h
  dsimp only at h
  split at h
  · split at h
    · cases h
    · cases hcode : amount (getKey args "code" .null) "code" 0x67 0 with
      | error e =>
        rw [hcode] at h
        cases h
      | ok code =>
        rw [hcode] at h
        cases h
        exact .key (amount_le hcode) hstate
  · split at h
    · cases hbutton : amount (getKey args "button" .null) "button" 2 0 with
      | error e =>
        rw [hbutton] at h
        cases h
      | ok button =>
        rw [hbutton] at h
        cases h
        have hle := amount_le hbutton
        exact .line hport (by omega) hstate
    · split at h
      · next direction hjoystick hdirection =>
        cases h
        have hlt := directionIndex?_lt hdirection
        exact .line hport (by omega) hstate
      · cases h

theorem inputEvent_valid {args : Obj} {event : InputEvent} (h : inputEvent args = .ok event) :
    event.Valid := by
  obtain ⟨port, hport, hrest⟩ := bind_eq_ok_iff.mp h
  split at hrest
  · exact mouseEvent_valid (amount_le hport) hrest
  · obtain ⟨pressed, -, hpress⟩ := bind_eq_ok_iff.mp hrest
    refine pressEvent_valid (amount_le hport) ?_ hpress
    cases pressed with
    | false => exact Nat.zero_le 1
    | true => exact le_rfl

theorem tap_valid {hold gap : Nat} {codes : List Nat} (hcodes : ∀ code ∈ codes, code ≤ 0x67) :
    ∀ step ∈ tap hold gap codes, step.event.Valid := by
  intro step hstep
  rcases List.mem_append.mp hstep with hstep | hwait
  · rcases List.mem_append.mp hstep with hdown | hup
    · obtain ⟨code, hcode, rfl⟩ := List.mem_map.mp hdown
      exact .key (hcodes code hcode) le_rfl
    · obtain ⟨i, hi, rfl⟩ := List.mem_mapIdx.mp hup
      exact .key (hcodes _ (List.mem_reverse.mp (List.getElem_mem hi))) (Nat.zero_le 1)
  · rw [List.mem_singleton.mp hwait]
    exact .wait

theorem tap_ne_nil (hold gap : Nat) (codes : List Nat) : tap hold gap codes ≠ [] :=
  List.append_ne_nil_of_right_ne_nil _ (List.cons_ne_nil _ _)

theorem sequenceStep_valid {value : Json} {step : Step} (h : sequenceStep value = .ok step) :
    step.event.Valid := by
  unfold sequenceStep at h
  split at h
  · obtain ⟨delay, -, hrest⟩ := bind_eq_ok_iff.mp h
    split at hrest
    · cases hrest
      exact .wait
    · obtain ⟨event, hevent, hstep⟩ := bind_eq_ok_iff.mp hrest
      cases hstep
      exact inputEvent_valid hevent
  · cases h

/-- Steps of which each event is valid, and at least one. -/
structure Sendable (steps : List Step) : Prop where
  ne_nil : steps ≠ []
  valid : ∀ step ∈ steps, step.event.Valid

theorem inputSteps_sendable {args : Obj} {steps : List Step} (h : inputSteps args = .ok steps) :
    Sendable steps := by
  unfold inputSteps at h
  split at h
  · next raw hraw =>
    split at h
    · next hlen =>
      have hsteps := forall₂_of_mapM h
      refine ⟨?_, fun step hstep => ?_⟩
      · rintro rfl
        rw [hsteps.length_eq] at hlen
        exact absurd hlen.1 (by decide)
      · obtain ⟨value, -, hvalue⟩ := exists_of_forall₂ hsteps.flip hstep
        exact sequenceStep_valid hvalue
    · cases h
  · cases h

theorem charSteps_sendable {hold gap : Nat} {c : Char} {steps : List Step}
    (h : charSteps quoted hold gap c = .ok steps) : Sendable steps := by
  obtain ⟨code, shifted, hmem, rfl⟩ := charSteps_ok quoted h
  have hcode := (usKey_textItems _ hmem).2
  refine ⟨tap_ne_nil _ _ _, tap_valid fun key hkey => ?_⟩
  cases shifted with
  | false =>
    rw [List.mem_singleton.mp hkey]
    exact hcode.trans (by decide)
  | true =>
    rcases List.mem_cons.mp hkey with rfl | hkey
    · decide
    · rw [List.mem_singleton.mp hkey]
      exact hcode.trans (by decide)

theorem flatten_sendable {taps : List (List Step)} (hne : taps ≠ [])
    (h : ∀ steps ∈ taps, Sendable steps) : Sendable taps.flatten := by
  obtain ⟨first, rest, rfl⟩ := List.exists_cons_of_ne_nil hne
  refine ⟨fun hnil => ?_, fun step hstep => ?_⟩
  · exact (h first List.mem_cons_self).ne_nil (List.flatten_eq_nil_iff.mp hnil _ List.mem_cons_self)
  · obtain ⟨steps, hsteps, hmem⟩ := List.mem_flatten.mp hstep
    exact (h steps hsteps).valid step hmem

theorem unchecked_sendable {kind : SequenceKind} {args : Obj} {steps : List Step}
    (h : unchecked quoted kind args = .ok steps) : Sendable steps := by
  cases kind with
  | inputSequence => exact inputSteps_sendable h
  | keyTap =>
    obtain ⟨hold, -, hrest⟩ := bind_eq_ok_iff.mp h
    obtain ⟨gap, -, htap⟩ := bind_eq_ok_iff.mp hrest
    obtain ⟨codes, ⟨⟨raw, -, hcodes⟩, -⟩, rfl⟩ := tapSteps_ok htap
    refine ⟨tap_ne_nil _ _ _, tap_valid fun code hcode => ?_⟩
    obtain ⟨value, -, hvalue⟩ := exists_of_forall₂ (forall₂_of_mapM hcodes).flip hcode
    exact amount_le hvalue
  | typeText =>
    obtain ⟨hold, -, hrest⟩ := bind_eq_ok_iff.mp h
    obtain ⟨gap, -, htext⟩ := bind_eq_ok_iff.mp hrest
    obtain ⟨text, taps, -, hne, htaps, rfl⟩ := textSteps_ok quoted htext
    refine flatten_sendable (fun hnil => ?_) fun steps hsteps => ?_
    · rw [hnil] at htaps
      exact hne (List.forall₂_nil_right_iff.mp htaps)
    · obtain ⟨c, -, hc⟩ := exists_of_forall₂ htaps.flip hsteps
      exact charSteps_sendable quoted hc

/-- The command of an accepted sequence stands for the steps of the sequence, each of them valid and
together within the limits of the emulator. -/
theorem buildSequence_sent {kind : SequenceKind} {args : Obj} {steps : List Step}
    (h : buildSequence quoted kind args = .ok steps) :
    readCommand? (sequenceCommand steps) = some steps ∧ (∀ step ∈ steps, step.event.Valid) ∧
      steps.length ≤ sequenceSteps ∧ (steps.map (·.delay)).sum ≤ sequenceFrames := by
  obtain ⟨hall, hlen, hsum⟩ := buildSequence_ok quoted h
  have hsend := unchecked_sendable quoted hall
  exact ⟨readCommand?_sequenceCommand hsend.ne_nil, hsend.valid, hlen, hsum⟩

/-- A motion to the left behind a delay. -/
theorem buildSequence_sent_motion :
    readCommand? "input sequence a 1 1 0 fffffffb".toList = some [⟨10, ⟨1, 1, 0, 4294967291⟩⟩] := by
  have hok : buildSequence Char.toString .inputSequence
      [("steps".toList, .list [.dict [("after_frames".toList, .int 10),
        ("action".toList, .str "mouse".toList), ("port".toList, .str ['1']),
        ("axis".toList, .str ['x']), ("delta".toList, .int (-5))]])] =
      .ok [⟨10, ⟨1, 1, 0, 4294967291⟩⟩] := rfl
  exact (buildSequence_sent Char.toString hok).1


end GuestInput

end AmigaDevbench.Winuae
