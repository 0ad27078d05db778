import AmigaDevbench.Host.Amiforge.Escaping
import AmigaDevbench.Host.EventBus

/-!
# Commands to the IDE

A command travels as one ARexx message and is answered with an envelope, of which the rest is
fetched page by page. The other end is a state that changes with each message and the events that
arrive until the deadline.
-/

namespace AmigaDevbench.Amiforge

/-- `AmiForgeError`, and `AmiForgeNotRunning` if there is no port. -/
structure AmiForgeError where
  message : Text
  rc : Int
  notRunning : Bool := false
  deriving DecidableEq, Repr

/-- `INLINE_MAX`, `SLOT_CHUNK` and `MAX_PAGES`. -/
def inlineMax : Nat := 2500

def slotChunk : Nat := 3000

def maxPages : Nat := 1000

/-- `part in text`. -/
def mentions (part text : Text) : Bool := (Text.beforeStr? part text).isSome

/-- What an ERR of the bridge means. -/
def bridgeError (port message : Text) : AmiForgeError :=
  if mentions "not found".toList message || mentions "disappeared".toList message then
    ⟨"AmiForge isn't running: there is no ARexx port ".toList ++ port ++
      " on the Amiga. Start AmiForge there (amiforge_launch), then try again.".toList, 0, true⟩
  else if mentions "timed out".toList message then
    ⟨("AmiForge didn't answer within 10 s: it is probably showing a window or requester of its " ++
      "own (look with amiforge_screenshot and close it), or it is busy.").toList, 0, false⟩
  else ⟨"ARexx: ".toList ++ message, 0, false⟩

/-- The loop of `_arexx` over the events that arrive in time. -/
def answer (port : Text) : List Event → Except AmiForgeError (Int × Text)
  | [] => .error ⟨"no answer from the bridge in time (is the bridge busy?)".toList, 0, false⟩
  | e :: events =>
    if e.name = "err" then
      if e.data.hasText "context" "AREXX".toList then
        .error (bridgeError port (e.data.getText "message" []))
      else answer port events
    else .ok (e.data.getInt "rc" (-1), e.data.getText "result" [])

section

variable (quoted : Text → Text)

def malformed (line : Text) : AmiForgeError :=
  ⟨"malformed AmiForge reply: ".toList ++ quoted (line.take 80), 0, false⟩

/-- `parse_envelope`. `quoted` is `repr`. -/
def parseEnvelope (line : Text) : Except AmiForgeError (Int × Int × Text) :=
  if !"AF1 ".toList.isPrefixOf line then
    .error ⟨("AmiForge answered without the MCP envelope - this AmiForge is too old for the " ++
      "amiforge_ tools (got: ").toList ++ quoted (line.take 80) ++ [')'], 0, false⟩
  else
    match Text.splitMax ' ' 3 (line.drop 4) with
    | rc :: more :: length :: rest =>
      match Py.int 10 rc, Py.int 10 more, Py.int 10 length with
      | .ok rc, .ok more, .ok length =>
        if more < 0 ∨ length < 0 then .error (malformed quoted line)
        else
          -- the transport strips trailing spaces
          let body := rest.headD []
          let padded := body ++ List.replicate (length.toNat - body.length) ' '
          .ok (rc, more, unescape (padded.take length.toNat))
      | _, _, _ => .error (malformed quoted line)
    | _ => .error (malformed quoted line)

variable {σ : Type} (ask : σ → Text → σ × List Event) (port : Text)

/-- One message and what is read from its answer. `failed` is the error for another return code. -/
def exchange (failed : Int → AmiForgeError) (s : σ) (command : Text) :
    σ × Except AmiForgeError (Int × Int × Text) :=
  let (s, events) := ask s command
  match answer port events with
  | .error e => (s, .error e)
  | .ok (rc, result) =>
    if rc ≠ 0 then (s, .error (failed rc)) else (s, parseEnvelope quoted result)

def moreFailed (rc : Int) : AmiForgeError :=
  ⟨"MCPMORE failed (ARexx RC ".toList ++ Py.str rc ++ [')'], 0, false⟩

def rejected (rc : Int) : AmiForgeError :=
  ⟨"AmiForge rejected the command (ARexx RC ".toList ++ Py.str rc ++ ") - is the port ".toList ++
    port ++ " an AmiForge with the MCP commands?".toList, 0, false⟩

def unending : AmiForgeError := ⟨"AmiForge's paged reply did not end".toList, 0, false⟩

/-- The loop over the pages, of which `left` more may be fetched. -/
def morePages : Nat → Int → Text → σ → σ × Except AmiForgeError Text
  | left, more, payload, s =>
    if more ≤ 0 then (s, .ok payload)
    else
      match exchange quoted ask port moreFailed s "MCPMORE".toList with
      | (s, .error e) => (s, .error e)
      | (s, .ok (_, more, chunk)) =>
        match left with
        | 0 => (s, .error unending)
        | left + 1 =>
          if chunk = [] ∧ 0 < more then (s, .error unending)
          else morePages left more (payload ++ chunk) s

/-- `_call_unlocked`. -/
def callUnlocked (s : σ) (command : Text) : σ × Except AmiForgeError Text :=
  match exchange quoted ask port (rejected port) s ("MCP ".toList ++ command) with
  | (s, .error e) => (s, .error e)
  | (s, .ok (erc, more, payload)) =>
    match morePages quoted ask port maxPages more payload s with
    | (s, .error e) => (s, .error e)
    | (s, .ok payload) =>
      if erc ≠ 0 then
        (s, .error ⟨if payload = [] then "command failed (RC ".toList ++ Py.str erc ++ [')']
          else payload, erc, false⟩)
      else (s, .ok payload)

/-- The command that sends a piece of a text into a slot. -/
def pieceCommand (slot : Nat) (first : Bool) (piece : Text) : Text :=
  "MCPBUF SLOT=".toList ++ Py.str slot ++ (if first then " CLEAR".toList else []) ++
    " TEXT=".toList ++ piece

/-- The pieces of a text, one call after the other. -/
def putPieces (slot : Nat) : Bool → List Text → σ → σ × Except AmiForgeError Unit
  | _, [], s => (s, .ok ())
  | first, piece :: pieces, s =>
    match callUnlocked quoted ask port s (pieceCommand slot first piece) with
    | (s, .error e) => (s, .error e)
    | (s, .ok _) => putPieces slot false pieces s

/-- `_put_text`. `shown` names the characters that are not Latin-1. -/
def putText (shown : List Char → Text) (s : σ) (text : Text) (slot : Nat) :
    σ × Except AmiForgeError Text :=
  let bad := text.filter fun c => 0xff < c.toNat
  if bad ≠ [] then
    (s, .error ⟨("the text has characters that aren't Latin-1, which AmiForge's files can't " ++
      "hold: ").toList ++ shown bad ++ (". Use plain ASCII instead (e.g. '-' for a dash, " ++
        "'->' for an arrow).").toList, 0, false⟩)
  else
    let esc := escape true text
    if esc.length ≤ inlineMax then (s, .ok esc)
    else
      match putPieces quoted ask port slot true (packTokens slotChunk (tokens esc) []) s with
      | (s, .error e) => (s, .error e)
      | (s, .ok _) => (s, .ok (['\\', '@'] ++ Py.str slot))

end

/-! ### Envelopes -/

/-- What is stripped from a text whose only blanks are spaces can be put back. -/
theorem rstrip_padded {s : Text} (h : ∀ c ∈ s, Py.isSpace c = true → c = ' ') :
    s = Py.rstrip s ++ List.replicate (s.length - (Py.rstrip s).length) ' ' := by
  have hsplit := List.takeWhile_append_dropWhile (p := Py.isSpace) (l := s.reverse)
  have hall : ∀ c ∈ s.reverse.takeWhile Py.isSpace, c = ' ' := fun c hc =>
    h c (List.mem_reverse.mp (List.takeWhile_subset _ hc)) (List.mem_takeWhile_imp hc)
  have hreplicate := List.eq_replicate_of_mem hall
  have hs : s = Py.rstrip s ++ (s.reverse.takeWhile Py.isSpace).reverse := by
    rw [Py.rstrip, Text.rstripBy, ← List.reverse_append, hsplit, List.reverse_reverse]
  have hlen : (s.reverse.takeWhile Py.isSpace).length = s.length - (Py.rstrip s).length := by
    have := congrArg List.length hs
    rw [List.length_append, List.length_reverse] at this
    omega
  rw [hlen] at hreplicate
  rw [hreplicate, List.reverse_replicate] at hs
  exact hs

theorem rstrip_eq_self {s : Text} (h : ∀ c ∈ s, Py.isSpace c = false) : Py.rstrip s = s := by
  have hdrop : s.reverse.dropWhile Py.isSpace = s.reverse := by
    rw [List.dropWhile_eq_self_iff]
    intro hpos
    rw [h _ (List.mem_reverse.mp (List.getElem_mem hpos))]
    exact Bool.false_ne_true
  rw [Py.rstrip, Text.rstripBy, hdrop, List.reverse_reverse]

/-- Stripping goes on in front of a text of blanks. -/
theorem rstrip_append_blank {s : Text} (t : Text) (h : Py.rstrip t = []) :
    Py.rstrip (s ++ t) = Py.rstrip s := by
  have hdrop : t.reverse.dropWhile Py.isSpace = [] := List.reverse_eq_nil_iff.mp h
  rw [Py.rstrip, Text.rstripBy, List.reverse_append, List.dropWhile_append, hdrop]
  rfl

theorem rstrip_append {s t : Text} (h : Py.rstrip t ≠ []) :
    Py.rstrip (s ++ t) = s ++ Py.rstrip t := by
  have hdrop : (t.reverse.dropWhile Py.isSpace).isEmpty = false := by
    refine List.isEmpty_eq_false_iff.mpr fun hnil => h ?_
    rw [Py.rstrip, Text.rstripBy, hnil]
    rfl
  rw [Py.rstrip, Text.rstripBy, List.reverse_append, List.dropWhile_append, hdrop,
    if_neg Bool.false_ne_true, List.reverse_append, List.reverse_reverse]
  rfl

/-- What is split and put together again of a text behind three numbers: its end may be cut off by
as many blanks as the last number says. -/
theorem parseEnvelope_fields (quoted : Text → Text) {rc more length page t : Text}
    {r m : Nat} (hrc : ' ' ∉ rc) (hmore : ' ' ∉ more) (hlength : ' ' ∉ length)
    (hr : Py.int 10 rc = .ok r) (hm : Py.int 10 more = .ok m)
    (hn : Py.int 10 length = .ok page.length)
    (hpage : page = t ++ List.replicate (page.length - t.length) ' ') {tail : Text}
    (htail : tail = ' ' :: t ∨ tail = [] ∧ t = []) :
    parseEnvelope quoted ("AF1 ".toList ++ (rc ++ ' ' :: (more ++ ' ' :: (length ++ tail)))) =
      .ok (r, m, unescape page) := by
  have hsplit : Text.splitMax ' ' 3 (rc ++ ' ' :: (more ++ ' ' :: (length ++ tail))) =
      rc :: more :: length :: (if tail = [] then [] else [t]) := by
    rcases htail with rfl | ⟨rfl, rfl⟩
    · simp only [Text.splitMax, Text.after?_append hrc, Text.before_append hrc,
        Text.after?_append hmore, Text.before_append hmore, Text.after?_append hlength,
        Text.before_append hlength, reduceCtorEq, if_false]
    · simp only [Text.splitMax, Text.after?_append hrc, Text.before_append hrc,
        Text.after?_append hmore, Text.before_append hmore, List.append_nil,
        Text.after?_eq_none hlength, if_true]
  have hhead : (if tail = [] then [] else [t]).headD [] = t := by
    rcases htail with rfl | ⟨rfl, rfl⟩
    · rfl
    · rfl
  have hdrop : ("AF1 ".toList ++ (rc ++ ' ' :: (more ++ ' ' :: (length ++ tail)))).drop 4 =
      rc ++ ' ' :: (more ++ ' ' :: (length ++ tail)) := rfl
  have hstart : "AF1 ".toList.isPrefixOf
      ("AF1 ".toList ++ (rc ++ ' ' :: (more ++ ' ' :: (length ++ tail)))) = true := rfl
  have hnone : ¬ ((m : Int) < 0 ∨ (page.length : Int) < 0) := by omega
  rw [parseEnvelope, hstart, hdrop, hsplit]
  simp only [Bool.not_true, Bool.false_eq_true, if_false, hr, hm, hn, hnone, hhead,
    Int.toNat_natCast, ← hpage, List.take_length]

end AmigaDevbench.Amiforge
