import AmigaDevbench.Link.AmiforgeReplies

/-!
# Texts for the IDE

A text that is an argument of a command is sent in the command or, when it is long, in pieces that
the IDE appends to a slot. Either way the IDE finds the text as it was, and a text that would not
come through is refused before anything is sent.
-/

namespace AmigaDevbench.Amiforge

open Daemon Replies

/-- `s.split()`. -/
def words (s : Text) : List Text := (s.splitOnP Py.isSpace).filter (· ≠ [])

/-- The arguments of a command, each a name with its value or with `1`. -/
def arguments (rest : Text) : List (Text × Text) :=
  Keyed.assignAll [] ((words rest).map fun word =>
    ((word.before '=').map Char.toUpper, (word.after? '=').getD ['1']))

/-- The slots of the IDE, and what else there is to it. -/
structure Application (σ : Type) where
  slots : List (Int × Text)
  other : σ

variable {σ : Type}

/-- `MCPBUF`. -/
def mcpbuf (app : Application σ) (args : List (Text × Text)) : Application σ × Nat × Text :=
  match Keyed.lookup args "SLOT".toList with
  | none => (app, 10, "'SLOT'".toList)
  | some number =>
    match Py.int 10 number with
    | .error _ => (app, 10, [])
    | .ok slot =>
      let slots := if (Keyed.lookup args "CLEAR".toList).isSome then
        Keyed.assign app.slots slot [] else app.slots
      let content := (Keyed.lookup slots slot).getD [] ++
        unescape ((Keyed.lookup args "TEXT".toList).getD [])
      ({ app with slots := Keyed.assign slots slot content }, 0, decimal content.length)

/-- A command of the IDE: `others` are those that are not `MCPBUF`. -/
def runCommand (others : σ → Text → σ × Nat × Text) (app : Application σ) (line : Text) :
    Application σ × Nat × Text :=
  if line.before ' ' = "MCPBUF".toList then mcpbuf app (arguments ((line.after? ' ').getD []))
  else
    let (other, rc, payload) := others app.other line
    ({ app with other := other }, rc, payload)

/-- The text that an argument stands for: the content of a slot or the argument itself. -/
def textOf (app : Application σ) (value : Text) : Option Text :=
  match value with
  | ['\\', '@', digit] => (Py.int 10 [digit]).toOption.bind (Keyed.lookup app.slots ·)
  | _ => some (unescape value)

/-! ### A piece -/

theorem words_append_blank (x y : Text) : words (x ++ ' ' :: y) = words x ++ words y := by
  unfold words
  rw [List.splitOnP_append_cons x y (by decide), List.filter_append]

theorem words_eq_singleton {s : Text} (hne : s ≠ []) (h : ∀ c ∈ s, Py.isSpace c = false) :
    words s = [s] := by
  have hsplit : s.splitOnP Py.isSpace = [s] := by
    rw [List.splitOnP_eq_singleton]
    exact h
  rw [words, hsplit]
  exact List.filter_cons_of_pos (decide_eq_true hne)

theorem isSpace_of_escape {text : Text} {c : Char} (h : c ∈ escape true text) :
    Py.isSpace c = false := by
  obtain ⟨hsend, hblank⟩ := sendable_escape h
  cases hspace : Py.isSpace c with
  | false => rfl
  | true => exact absurd (eq_blank hsend hspace) (hblank rfl)

/-- A word that is a name with a value. -/
def assignment (name value : Text) : Text := name ++ '=' :: value

theorem words_assignment {name value : Text} (hname : ∀ c ∈ name, Py.isSpace c = false)
    (hvalue : ∀ c ∈ value, Py.isSpace c = false) :
    words (assignment name value) = [assignment name value] := by
  refine words_eq_singleton (List.append_ne_nil_of_right_ne_nil _ (List.cons_ne_nil _ _)) ?_
  intro c hc
  rcases List.mem_append.mp hc with hc | hc
  · exact hname c hc
  · rcases List.mem_cons.mp hc with rfl | hc
    · decide
    · exact hvalue c hc

theorem digit_slot : ∀ slot < 10, Py.str (slot : Nat) = [Nat.digitChar slot] ∧
    Py.isSpace (Nat.digitChar slot) = false ∧
      Py.int 10 [Nat.digitChar slot] = .ok (slot : Int) ∧ Sendable (Nat.digitChar slot) := by
  unfold Sendable
  decide

/-- The arguments of the command that sends a piece. -/
theorem arguments_piece {slot : Nat} (hslot : slot < 10) (first : Bool) (part : Text) :
    arguments (assignment "SLOT".toList (Py.str slot) ++
      (if first then ' ' :: "CLEAR".toList else []) ++
        ' ' :: assignment "TEXT".toList (escape true part)) =
      ("SLOT".toList, Py.str slot) :: ((if first then [("CLEAR".toList, ['1'])] else []) ++
        [("TEXT".toList, escape true part)]) := by
  obtain ⟨hstr, hdigit, -, -⟩ := digit_slot slot hslot
  have hslotWord : words (assignment "SLOT".toList (Py.str slot)) =
      [assignment "SLOT".toList (Py.str slot)] := by
    refine words_assignment (by decide) fun c hc => ?_
    rw [hstr] at hc
    rwa [List.mem_singleton.mp hc]
  have htextWord : words (assignment "TEXT".toList (escape true part)) =
      [assignment "TEXT".toList (escape true part)] :=
    words_assignment (by decide) fun c hc => isSpace_of_escape hc
  have hclear : words "CLEAR".toList = ["CLEAR".toList] := by decide
  have hname : ∀ name value : Text, '=' ∉ name → name.map Char.toUpper = name →
      ((assignment name value).before '=').map Char.toUpper = name ∧
        ((assignment name value).after? '=').getD ['1'] = value := by
    intro name value hname hupper
    rw [assignment, Text.before_append hname, Text.after?_append hname]
    exact ⟨hupper, rfl⟩
  obtain ⟨hslotName, hslotValue⟩ := hname "SLOT".toList (Py.str slot) (by decide) (by decide)
  obtain ⟨htextName, htextValue⟩ := hname "TEXT".toList (escape true part) (by decide) (by decide)
  have hclearName : (Text.before '=' "CLEAR".toList).map Char.toUpper = "CLEAR".toList := by decide
  have hclearValue : (Text.after? '=' "CLEAR".toList).getD ['1'] = ['1'] := by decide
  rw [arguments, words_append_blank]
  cases first with
  | false =>
    rw [if_neg Bool.false_ne_true, if_neg Bool.false_ne_true, List.append_nil, hslotWord, htextWord]
    simp only [List.map_append, List.map_cons, List.map_nil, hslotName, hslotValue, htextName,
      htextValue]
    rfl
  | true =>
    rw [if_pos rfl, if_pos rfl, words_append_blank, hslotWord, htextWord, hclear]
    simp only [List.map_append, List.map_cons, List.map_nil, hslotName, hslotValue, htextName,
      htextValue, hclearName, hclearValue]
    rfl

theorem pieceCommand_eq {slot : Nat} (hslot : slot < 10) (first : Bool) (piece : Text) :
    pieceCommand slot first piece = "MCPBUF".toList ++ ' ' ::
      (assignment "SLOT".toList (Py.str slot) ++ (if first then ' ' :: "CLEAR".toList else []) ++
        ' ' :: assignment "TEXT".toList piece) := by
  unfold pieceCommand
  rw [(digit_slot slot hslot).1]
  cases first with
  | false => rfl
  | true => rfl

/-- A slot behind a piece. -/
def filled (app : Application σ) (slot : Int) (first : Bool) (part : Text) : Application σ :=
  let slots := if first then Keyed.assign app.slots slot [] else app.slots
  { app with
    slots := Keyed.assign slots slot ((Keyed.lookup slots slot).getD [] ++ part.map latin) }

/-- A piece is appended to its slot. -/
theorem runCommand_piece (others : σ → Text → σ × Nat × Text) (app : Application σ) {slot : Nat}
    (hslot : slot < 10) (first : Bool) (part : Text) :
    runCommand others app (pieceCommand slot first (escape true part)) =
      (filled app slot first part, 0,
        decimal ((Keyed.lookup (filled app slot first part).slots (slot : Int)).getD []).length) := by
  have hname : ' ' ∉ "MCPBUF".toList := by decide
  have hint : Py.int 10 (Py.str slot) = .ok (slot : Int) := by
    rw [(digit_slot slot hslot).1]
    exact (digit_slot slot hslot).2.2.1
  rw [pieceCommand_eq hslot, runCommand, Text.before_append hname, if_pos rfl,
    Text.after?_append hname, Option.getD_some, arguments_piece hslot]
  have hnumber : ∀ more, Keyed.lookup (("SLOT".toList, Py.str slot) :: more) "SLOT".toList =
      some (Py.str slot) := fun _ => rfl
  have htext : ∀ clear : List (Text × Text), clear = [] ∨ clear = [("CLEAR".toList, ['1'])] →
      Keyed.lookup (("SLOT".toList, Py.str slot) :: (clear ++ [("TEXT".toList, escape true part)]))
        "TEXT".toList = some (escape true part) := by
    rintro clear (rfl | rfl)
    · rfl
    · rfl
  have hclear : (Keyed.lookup (("SLOT".toList, Py.str slot) ::
      ((if first then [("CLEAR".toList, ['1'])] else []) ++ [("TEXT".toList, escape true part)]))
        "CLEAR".toList).isSome = first := by
    cases first with
    | false => rfl
    | true => rfl
  have hcontent : Keyed.lookup (filled app slot first part).slots (slot : Int) =
      some ((Keyed.lookup (if first then Keyed.assign app.slots (slot : Int) [] else app.slots)
        (slot : Int)).getD [] ++ part.map latin) := by
    rw [filled, Keyed.lookup_assign, if_pos rfl]
  rw [mcpbuf, hnumber]
  simp only [hint, hclear]
  rw [htext _ (by cases first <;> simp), Option.getD_some, unescape_escape, hcontent,
    Option.getD_some]
  rfl

theorem carried_piece {slot : Nat} (hslot : slot < 10) (first : Bool) {part : Text}
    (hlen : (escape true part).length ≤ slotChunk) :
    Carried ("MCP ".toList ++ pieceCommand slot first (escape true part)) := by
  obtain ⟨hstr, -, -, hdigit⟩ := digit_slot slot hslot
  have hwords : ∀ c ∈ "MCP ".toList ++ "MCPBUF SLOT=".toList ++ " CLEAR".toList ++
      " TEXT=".toList, 0x20 ≤ c.toNat ∧ c.toNat < 0x7f ∧ c ≠ '|' := by decide
  have hmcp : "MCP ".toList.length = 4 := rfl
  have hname : "MCPBUF SLOT=".toList.length = 12 := rfl
  have hclear : (if first then " CLEAR".toList else []).length ≤ 6 := by
    cases first with
    | false => decide
    | true => decide
  have htext : " TEXT=".toList.length = 6 := rfl
  have hmax : slotChunk = 3000 := rfl
  unfold pieceCommand
  rw [hstr]
  constructor
  · exact List.append_ne_nil_of_left_ne_nil (by decide) _
  · simp only [List.length_append, List.length_singleton, hmcp, hname, htext]
    omega
  · intro c hc
    have hword : ∀ w : Text, w ⊆ "MCP ".toList ++ "MCPBUF SLOT=".toList ++ " CLEAR".toList ++
        " TEXT=".toList → c ∈ w → Sendable c := fun w hw hmem => hwords c (hw hmem)
    simp only [List.mem_append] at hc
    rcases hc with hc | (((hc | hc) | hc) | hc) | hc
    · exact hword _ (by simp) hc
    · exact hword _ (by simp) hc
    · rwa [List.mem_singleton.mp hc]
    · cases first with
      | false => exact absurd hc List.not_mem_nil
      | true => exact hword _ (by simp) hc
    · exact hword _ (by simp) hc
    · exact (sendable_escape hc).1

/-- Nothing but a slot has changed. -/
structure OnlySlot (slot : Int) (app app' : Application σ) : Prop where
  other : app'.other = app.other
  slots : ∀ j, j ≠ slot → Keyed.lookup app'.slots j = Keyed.lookup app.slots j

theorem onlySlot_filled (app : Application σ) (slot : Int) (first : Bool) (part : Text) :
    OnlySlot slot app (filled app slot first part) := by
  refine ⟨rfl, fun j hj => ?_⟩
  rw [filled, Keyed.lookup_assign, if_neg hj]
  cases first with
  | false => rfl
  | true =>
    rw [if_pos rfl, Keyed.lookup_assign, if_neg hj]

theorem OnlySlot.trans {slot : Int} {app app' app'' : Application σ} (h : OnlySlot slot app app')
    (h' : OnlySlot slot app' app'') : OnlySlot slot app app'' :=
  ⟨h'.other.trans h.other, fun j hj => (h'.slots j hj).trans (h.slots j hj)⟩

section

variable {chunk : Nat} (others : σ → Text → σ × Nat × Text) (env : Surroundings) {port : Text}
  (quoted : Text → Text)

/-- The content of a slot. -/
def content (app : Application σ) (slot : Int) : Text := (Keyed.lookup app.slots slot).getD []

theorem length_escape_decimal {n : Nat} (h : n < 2 ^ 32) :
    (escape false (decimal n)).length ≤ 1000 := by
  have hdigits := length_decimal_le h
  have hle : ∀ text : Text, (escape false text).length ≤ 4 * text.length := by
    intro text
    induction text with
    | nil => exact le_rfl
    | cons c text ih =>
      have hone := (written_escapeChar false c).length_le.2
      rw [escape, List.flatMap_cons, List.length_append, ← escape, List.length_cons]
      omega
  have hdecimal := hle (decimal n)
  omega

/-- A call that sends a piece. -/
theorem callUnlocked_piece (hport : PortName port) (hlow : 4 ≤ chunk) (hhigh : chunk ≤ 8000)
    (w : World (Application σ)) {slot : Nat} (hslot : slot < 10) (first : Bool) {part : Text}
    (hlen : (escape true part).length ≤ slotChunk)
    (hword : (content (filled w.ide.app slot first part) slot).length < 2 ^ 32) :
    ∃ w' : World (Application σ), w'.ide.app = filled w.ide.app slot first part ∧ ∃ payload,
      callUnlocked quoted (ask chunk (runCommand others) env port) port w
        (pieceCommand slot first (escape true part)) = (w', .ok payload) := by
  have hpages := length_escape_decimal hword
  have hmax : maxPages = 1000 := rfl
  obtain ⟨w', hw', hcall⟩ := callUnlocked_eq (runCommand others) env quoted hport hlow hhigh w
    (carried_piece hslot first hlen) (runCommand_piece others w.ide.app hslot first part)
    (by decide) (hpages.trans (by rw [hmax]; omega))
  refine ⟨w', by rw [hw'], _, hcall⟩

theorem content_filled (app : Application σ) (slot : Int) (first : Bool) (part : Text) :
    content (filled app slot first part) slot =
      (if first then [] else content app slot) ++ part.map latin := by
  rw [content, filled, Keyed.lookup_assign, if_pos rfl]
  cases first with
  | false => rfl
  | true =>
    rw [if_pos rfl, Keyed.lookup_assign, if_pos rfl]
    rfl

/-- The pieces are appended one after the other. -/
theorem putPieces_eq (hport : PortName port) (hlow : 4 ≤ chunk) (hhigh : chunk ≤ 8000) {slot : Nat}
    (hslot : slot < 10) {parts : List Text}
    (hlen : ∀ part ∈ parts, (escape true part).length ≤ slotChunk) (first : Bool)
    (w : World (Application σ)) (hne : parts = [] → first = false)
    (hword : (if first then [] else content w.ide.app slot).length + parts.flatten.length <
      2 ^ 32) :
    ∃ w' : World (Application σ),
      putPieces quoted (ask chunk (runCommand others) env port) port slot first
        (parts.map (escape true)) w = (w', .ok ()) ∧
      content w'.ide.app slot =
        (if first then [] else content w.ide.app slot) ++ parts.flatten.map latin ∧
      OnlySlot slot w.ide.app w'.ide.app := by
  induction parts generalizing first w with
  | nil =>
    rw [hne rfl]
    refine ⟨w, rfl, ?_, rfl, fun _ _ => rfl⟩
    exact (List.append_nil _).symm
  | cons part parts ih =>
    rw [List.flatten_cons, List.length_append] at hword
    have hfilled := content_filled w.ide.app slot first part
    obtain ⟨w₁, hw₁, payload, hcall⟩ := callUnlocked_piece others env quoted hport hlow
      hhigh w hslot first (hlen part List.mem_cons_self) (by
        rw [hfilled, List.length_append, List.length_map]
        omega)
    obtain ⟨w', hrun, hcontent, honly⟩ := ih (fun p hp => hlen p (List.mem_cons_of_mem _ hp))
      false w₁ (fun _ => rfl) (by
        rw [if_neg Bool.false_ne_true, hw₁, hfilled, List.length_append, List.length_map]
        omega)
    refine ⟨w', ?_, ?_, ?_⟩
    · rw [List.map_cons, putPieces, hcall]
      exact hrun
    · rw [hcontent, if_neg Bool.false_ne_true, hw₁, hfilled, List.flatten_cons, List.map_append,
        List.append_assoc]
    · rw [hw₁] at honly
      exact (onlySlot_filled w.ide.app slot first part).trans honly

theorem Written.ne_slot {spaces : Bool} {d : Char} {code : Text} (h : Written spaces d code)
    (rest : Text) (digit : Char) : code ++ rest ≠ ['\\', '@', digit] := by
  intro heq
  cases h with
  | @escape next d hnext _ =>
    have hat : next = '@' := (List.cons.inj (List.cons.inj heq).2).1
    rw [hat] at hnext
    exact absurd hnext (by decide)
  | hex => exact absurd (List.cons.inj (List.cons.inj heq).2).1 (by decide)
  | plain _ _ hslash => exact hslash (List.cons.inj heq).1

/-- An escaped text does not look like a slot. -/
theorem textOf_escape (app : Application σ) {text : Text} (hlatin : ∀ c ∈ text, c.toNat ≤ 0xff) :
    textOf app (escape true text) = some text := by
  rw [textOf.eq_def]
  split
  · next digit hvalue =>
    exfalso
    cases text with
    | nil => cases hvalue
    | cons c text => exact (written_escapeChar true c).ne_slot _ digit hvalue
  · rw [unescape_escape, map_latin_eq_self hlatin]

/-- A text is put where its value says, as long as nobody else uses the slot. -/
theorem putText_eq (hport : PortName port) (hlow : 4 ≤ chunk) (hhigh : chunk ≤ 8000)
    (shown : List Char → Text) (w : World (Application σ)) {slot : Nat} (hslot : slot < 10)
    {text : Text} (hlatin : ∀ c ∈ text, c.toNat ≤ 0xff) (hlen : text.length < 2 ^ 32) :
    ∃ (w' : World (Application σ)) (value : Text),
      putText quoted (ask chunk (runCommand others) env port) port shown w text slot =
        (w', .ok value) ∧ OnlySlot slot w.ide.app w'.ide.app ∧
      ∀ app : Application σ, Keyed.lookup app.slots (slot : Int) =
        Keyed.lookup w'.ide.app.slots slot → textOf app value = some text := by
  have hnone : (text.filter fun c => 0xff < c.toNat) = [] := by
    rw [List.filter_eq_nil_iff]
    intro c hc hwide
    have hle := hlatin c hc
    have hlt := of_decide_eq_true hwide
    omega
  unfold putText
  simp only [hnone, ne_eq, not_true_eq_false, if_false]
  split
  · exact ⟨w, _, rfl, ⟨rfl, fun _ _ => rfl⟩, fun app _ => textOf_escape app hlatin⟩
  · next hlong =>
    obtain ⟨parts, hflatten, hpack, hparts⟩ :=
      packTokens_escape true (by decide : 4 ≤ slotChunk) text [] (Nat.zero_le _)
    rw [List.nil_append] at hflatten
    have hpieces : packTokens slotChunk (tokens (escape true text)) [] =
        parts.map (escape true) := by
      rw [tokens_escape]
      exact hpack
    have hne : parts ≠ [] := by
      rintro rfl
      rw [← hflatten] at hlong
      exact hlong (by decide)
    obtain ⟨w', hrun, hcontent, honly⟩ := putPieces_eq others env quoted hport hlow hhigh hslot
      hparts true w (fun hnil => absurd hnil hne) (by
        rw [if_pos rfl, hflatten]
        simpa using hlen)
    rw [if_pos rfl, List.nil_append, hflatten, map_latin_eq_self hlatin] at hcontent
    rw [hpieces, hrun]
    refine ⟨w', _, rfl, honly, fun app happ => ?_⟩
    obtain ⟨hstr, -, hint, -⟩ := digit_slot slot hslot
    have hread : textOf app (['\\', '@'] ++ Py.str slot) =
        Keyed.lookup app.slots (slot : Int) := by
      rw [hstr]
      change (Py.int 10 [Nat.digitChar slot]).toOption.bind (Keyed.lookup app.slots ·) = _
      rw [hint]
      rfl
    rw [hread, happ]
    rw [content] at hcontent
    cases hlookup : Keyed.lookup w'.ide.app.slots (slot : Int) with
    | none =>
      rw [hlookup] at hcontent
      rw [← hcontent] at hlong
      exact absurd (by decide) hlong
    | some found =>
      rw [hlookup] at hcontent
      exact congrArg some hcontent

/-- Several texts, each with its slot. -/
def putTexts {τ : Type} (quoted : Text → Text) (ask : τ → Text → τ × List Event) (port : Text)
    (shown : List Char → Text) : List (Text × Nat) → τ → τ × Except AmiForgeError (List Text)
  | [], s => (s, .ok [])
  | (text, slot) :: items, s =>
    match putText quoted ask port shown s text slot with
    | (s, .error e) => (s, .error e)
    | (s, .ok value) =>
      match putTexts quoted ask port shown items s with
      | (s, .error e) => (s, .error e)
      | (s, .ok values) => (s, .ok (value :: values))

/-- Latin-1 texts with slots of their own are all there when the command with their values is run,
whether they were short or long, and nothing else of the application has changed. -/
theorem putTexts_read (hport : PortName port) (hlow : 4 ≤ chunk) (hhigh : chunk ≤ 8000)
    (shown : List Char → Text) {items : List (Text × Nat)}
    (hitems : ∀ item ∈ items, (∀ c ∈ item.1, c.toNat ≤ 0xff) ∧ item.1.length < 2 ^ 32 ∧
      item.2 < 10) (hslots : (items.map Prod.snd).Nodup) (w : World (Application σ)) :
    ∃ (w' : World (Application σ)) (values : List Text),
      putTexts quoted (ask chunk (runCommand others) env port) port shown items w =
        (w', .ok values) ∧
      List.Forall₂ (fun item value => textOf w'.ide.app value = some item.1) items values ∧
      w'.ide.app.other = w.ide.app.other ∧
      ∀ j, (∀ item ∈ items, (item.2 : Int) ≠ j) →
        Keyed.lookup w'.ide.app.slots j = Keyed.lookup w.ide.app.slots j := by
  induction items generalizing w with
  | nil => exact ⟨w, [], rfl, .nil, rfl, fun _ _ => rfl⟩
  | cons item items ih =>
    obtain ⟨text, slot⟩ := item
    obtain ⟨hlatin, hlen, hslot⟩ := hitems _ List.mem_cons_self
    obtain ⟨hnew, hslots⟩ := List.nodup_cons.mp hslots
    obtain ⟨w₁, value, hput, honly, hvalue⟩ :=
      putText_eq others env quoted hport hlow hhigh shown w hslot hlatin hlen
    obtain ⟨w', values, hrest, hvalues, hother, hkept⟩ :=
      ih (fun item hitem => hitems item (List.mem_cons_of_mem _ hitem)) hslots w₁
    have hapart : ∀ item ∈ items, (item.2 : Int) ≠ slot := by
      intro item hitem heq
      exact hnew (List.mem_map.mpr ⟨item, hitem, by omega⟩)
    refine ⟨w', value :: values, ?_, .cons (hvalue _ (hkept slot hapart)) hvalues,
      hother.trans honly.other, fun j hj => ?_⟩
    · simp only [putTexts, hput, hrest]
    · rw [hkept j fun item hitem => hj item (List.mem_cons_of_mem _ hitem)]
      exact honly.slots j (hj _ List.mem_cons_self).symm

/-- A text that is sent in two pieces and one that is not sent at all. -/
theorem putTexts_read_pieces : ∃ (w' : World (Application Unit)) (values : List Text),
    putTexts id (ask 40 (runCommand (fixed [])) quiet defaultPort) defaultPort (fun _ => [])
      [(List.replicate 1600 '|', 1), ("\\@1".toList, 2)] ⟨⟨[], ⟨[], ()⟩⟩, 0⟩ = (w', .ok values) ∧
    List.Forall₂ (fun item value => textOf w'.ide.app value = some item.1)
      [(List.replicate 1600 '|', 1), ("\\@1".toList, 2)] values := by
  have hitems : ∀ item ∈ [(List.replicate 1600 '|', 1), ("\\@1".toList, 2)],
      (∀ c ∈ item.1, c.toNat ≤ 0xff) ∧ item.1.length < 2 ^ 32 ∧ item.2 < 10 := by
    intro item hitem
    rcases List.mem_cons.mp hitem with rfl | hitem
    · refine ⟨fun c hc => ?_, ?_, by decide⟩
      · rw [List.eq_of_mem_replicate hc]
        decide
      · rw [List.length_replicate]
        decide
    · rw [List.mem_singleton.mp hitem]
      have hchars : ∀ c ∈ "\\@1".toList, c.toNat ≤ 0xff := by decide
      exact ⟨hchars, by decide, by decide⟩
  have hslots : ([(List.replicate 1600 '|', 1), ("\\@1".toList, 2)].map Prod.snd).Nodup := by
    decide
  have hlow : 4 ≤ 40 := by decide
  obtain ⟨w', values, hput, hvalues, -⟩ := putTexts_read (fixed []) quiet id portName_defaultPort
    hlow (by decide) (fun _ => []) hitems hslots ⟨⟨[], ⟨[], ()⟩⟩, 0⟩
  exact ⟨w', values, hput, hvalues⟩

end

end AmigaDevbench.Amiforge
