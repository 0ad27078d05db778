import AmigaDevbench.Core.Keyed
import AmigaDevbench.Host.Python

/-!
# The escapes of `amiforge_tools.py`

Text for the IDE is written in printable ASCII characters, with escapes for all others. An escape
begins with a backslash and is never cut, so a text can be sent in pieces that are read one by one.
-/

namespace AmigaDevbench.Amiforge

/-- `_ESC`, up to the backslash of each. -/
def escapes : List (Char × Char) :=
  [('\\', '\\'), ('\n', 'n'), ('\t', 't'), ('\r', 'r'), ('|', 'p'), ('\x22', 'q')]

/-- `_UNESC`. -/
def unescapes : List (Char × Char) :=
  [('n', '\n'), ('t', '\t'), ('r', '\r'), ('s', ' '), ('p', '|'), ('q', '\x22'), ('e', '\x1b'),
    ('\\', '\\')]

/-- A digit of `X`. -/
def upperDigit (d : Nat) : Char := (Nat.digitChar d).toUpper

/-- A character in `escape`. -/
def escapeChar (spaces : Bool) (c : Char) : Text :=
  match Keyed.lookup escapes c with
  | some code => ['\\', code]
  | none =>
    if c = ' ' then if spaces then ['\\', 's'] else [' ']
    else if 0xff < c.toNat then ['?']
    else if c.toNat < 0x20 ∨ 0x7f ≤ c.toNat then
      ['\\', 'x', upperDigit (c.toNat / 16), upperDigit (c.toNat % 16)]
    else [c]

/-- `escape`. -/
def escape (spaces : Bool) (text : Text) : Text := text.flatMap (escapeChar spaces)

/-- A digit in `_is_hex`. -/
def isHexDigit (c : Char) : Bool :=
  ('0' ≤ c && c ≤ '9') || ('a' ≤ c && c ≤ 'f') || ('A' ≤ c && c ≤ 'F')

/-- `unescape`. -/
def unescape : Text → Text
  | [] => []
  | c :: rest =>
    if c ≠ '\\' then c :: unescape rest
    else match rest with
      | [] => [c]
      | next :: rest =>
        match Keyed.lookup unescapes next with
        | some d => d :: unescape rest
        | none =>
          match rest with
          | hi :: lo :: rest' =>
            if next = 'x' && isHexDigit hi && isHexDigit lo then
              Char.ofNat (Py.digitsVal 16 [hi, lo]) :: unescape rest'
            else '\\' :: next :: unescape (hi :: lo :: rest')
          | rest => '\\' :: next :: unescape rest

/-- `_TOKEN.findall`. -/
def tokens : Text → List Text
  | [] => []
  | c :: rest =>
    if c ≠ '\\' then [c] :: tokens rest
    else match rest with
      | [] => [[c]]
      | next :: rest =>
        match rest with
        | hi :: lo :: rest' =>
          if next = 'x' && isHexDigit hi && isHexDigit lo then
            ['\\', 'x', hi, lo] :: tokens rest'
          else ['\\', next] :: tokens (hi :: lo :: rest')
        | rest => ['\\', next] :: tokens rest

/-! ### One character -/

/-- The character that comes back, of which only Latin-1 is kept. -/
def latin (c : Char) : Char := if 0xff < c.toNat then '?' else c

/-- The forms that a character is written in. -/
inductive Written (spaces : Bool) : Char → Text → Prop
  | escape {code d : Char} (hnext : code ∈ ['\\', 'n', 't', 'r', 'p', 'q', 's'])
    (hlookup : Keyed.lookup unescapes code = some d) : Written spaces d ['\\', code]
  | hex {n : Nat} (hn : n < 256) :
    Written spaces (Char.ofNat n) ['\\', 'x', upperDigit (n / 16), upperDigit (n % 16)]
  | plain {d : Char} (hlow : 0x20 ≤ d.toNat) (hhigh : d.toNat < 0x7f) (hslash : d ≠ '\\')
    (hbar : d ≠ '|') (hblank : spaces = true → d ≠ ' ') : Written spaces d [d]

theorem lookup_escapes {c code : Char} (h : Keyed.lookup escapes c = some code) :
    code ∈ ['\\', 'n', 't', 'r', 'p', 'q', 's'] ∧ Keyed.lookup unescapes code = some c ∧
      ¬ 0xff < c.toNat := by
  have hall : ∀ e ∈ escapes, e.2 ∈ ['\\', 'n', 't', 'r', 'p', 'q', 's'] ∧
      Keyed.lookup unescapes e.2 = some e.1 ∧ ¬ 0xff < e.1.toNat := by decide
  exact hall _ (Keyed.mem_of_lookup h)

theorem written_escapeChar (spaces : Bool) (c : Char) :
    Written spaces (latin c) (escapeChar spaces c) := by
  unfold escapeChar latin
  cases hcode : Keyed.lookup escapes c with
  | some code =>
    obtain ⟨hmem, hlookup, hlatin⟩ := lookup_escapes hcode
    rw [if_neg hlatin]
    exact .escape hmem hlookup
  | none =>
    have hkeys := Keyed.lookup_eq_none.mp hcode
    dsimp only
    by_cases hblank : c = ' '
    · subst hblank
      cases spaces with
      | true => exact .escape (by decide) (by decide)
      | false => exact .plain (by decide) (by decide) (by decide) (by decide) nofun
    · rw [if_neg hblank]
      by_cases hwide : 0xff < c.toNat
      · rw [if_pos hwide, if_pos hwide]
        exact .plain (by decide) (by decide) (by decide) (by decide) (fun _ => by decide)
      · rw [if_neg hwide, if_neg hwide]
        split
        · have hofNat : Char.ofNat c.toNat = c := Char.ofNat_toNat c
          nth_rewrite 1 [← hofNat]
          exact .hex (by omega)
        · next hrange =>
          refine .plain (by omega) (by omega) ?_ ?_ fun _ => hblank
          · rintro rfl
            exact hkeys (by decide)
          · rintro rfl
            exact hkeys (by decide)

theorem upperDigit_spec : ∀ d < 16, isHexDigit (upperDigit d) = true ∧
    Py.digitVal (upperDigit d) = some d ∧ 0x20 ≤ (upperDigit d).toNat ∧
      (upperDigit d).toNat < 0x7f ∧ upperDigit d ≠ '|' ∧ upperDigit d ≠ ' ' := by
  decide

theorem lookup_unescapes_x : Keyed.lookup unescapes 'x' = none := by decide

theorem unescape_cons {c : Char} (hc : c ≠ '\\') (rest : Text) :
    unescape (c :: rest) = c :: unescape rest := by
  rw [unescape.eq_def]
  exact if_pos hc

theorem tokens_cons {c : Char} (hc : c ≠ '\\') (rest : Text) :
    tokens (c :: rest) = [c] :: tokens rest := by
  rw [tokens.eq_def]
  exact if_pos hc

namespace Written

variable {spaces : Bool} {d : Char} {code : Text}

theorem unescape_append (h : Written spaces d code) (rest : Text) :
    unescape (code ++ rest) = d :: unescape rest := by
  cases h with
  | @escape next d hnext hlookup =>
    rw [List.cons_append, List.singleton_append, unescape.eq_def]
    simp only [ne_eq, not_true_eq_false, if_false, hlookup]
  | @hex n hn =>
    obtain ⟨hhi, hhiVal, -⟩ := upperDigit_spec (n / 16) (by omega)
    obtain ⟨hlo, hloVal, -⟩ := upperDigit_spec (n % 16) (by omega)
    have hval : Py.digitsVal 16 [upperDigit (n / 16), upperDigit (n % 16)] = n := by
      rw [Py.digitsVal, List.foldl_cons, List.foldl_cons, List.foldl_nil, hhiVal, hloVal,
        Option.getD_some, Option.getD_some]
      omega
    simp only [List.cons_append, List.nil_append]
    rw [unescape, if_neg (not_not.mpr rfl), lookup_unescapes_x]
    dsimp only
    rw [hhi, hlo, decide_eq_true rfl, Bool.and_self, Bool.and_self, if_pos rfl, hval]
  | plain _ _ hslash => exact unescape_cons hslash rest

/-- A character is one token. -/
theorem tokens_append (h : Written spaces d code) (rest : Text) :
    tokens (code ++ rest) = code :: tokens rest := by
  cases h with
  | @escape next d hnext hlookup =>
    have hx : next ≠ 'x' := by
      rintro rfl
      rw [lookup_unescapes_x] at hlookup
      cases hlookup
    rw [List.cons_append, List.singleton_append, tokens.eq_def]
    simp only [ne_eq, not_true_eq_false, if_false, decide_eq_false hx, Bool.false_and,
      Bool.false_eq_true]
    split
    · rfl
    · rfl
  | @hex n hn =>
    have hhi := (upperDigit_spec (n / 16) (by omega)).1
    have hlo := (upperDigit_spec (n % 16) (by omega)).1
    simp only [List.cons_append, List.nil_append]
    rw [tokens, if_neg (not_not.mpr rfl), hhi, hlo, decide_eq_true rfl, Bool.and_self,
      Bool.and_self, if_pos rfl]
  | plain _ _ hslash => exact tokens_cons hslash rest

theorem length_le (h : Written spaces d code) : 1 ≤ code.length ∧ code.length ≤ 4 := by
  cases h with
  | escape => simp
  | hex => simp
  | plain => simp

end Written

/-- A character that a line can hold: printable ASCII, and none that ends a field. -/
def Sendable (c : Char) : Prop := 0x20 ≤ c.toNat ∧ c.toNat < 0x7f ∧ c ≠ '|'

theorem Written.sendable {spaces : Bool} {d : Char} {code : Text} (h : Written spaces d code) :
    ∀ c ∈ code, Sendable c ∧ (spaces = true → c ≠ ' ') := by
  intro c hc
  cases h with
  | @escape next d hnext hlookup =>
    have hall : ∀ c ∈ ['\\', 'n', 't', 'r', 'p', 'q', 's'],
        (0x20 ≤ c.toNat ∧ c.toNat < 0x7f ∧ c ≠ '|') ∧ c ≠ ' ' := by decide
    have hmem : c ∈ ['\\', 'n', 't', 'r', 'p', 'q', 's'] := by
      rcases List.mem_cons.mp hc with rfl | hc
      · decide
      · rwa [List.mem_singleton.mp hc]
    exact ⟨(hall c hmem).1, fun _ => (hall c hmem).2⟩
  | @hex n hn =>
    simp only [List.mem_cons, List.not_mem_nil, or_false] at hc
    rcases hc with rfl | rfl | rfl | rfl
    · exact ⟨⟨by decide, by decide, by decide⟩, fun _ => by decide⟩
    · exact ⟨⟨by decide, by decide, by decide⟩, fun _ => by decide⟩
    · obtain ⟨-, -, hlow, hhigh, hbar, hblank⟩ := upperDigit_spec (n / 16) (by omega)
      exact ⟨⟨hlow, hhigh, hbar⟩, fun _ => hblank⟩
    · obtain ⟨-, -, hlow, hhigh, hbar, hblank⟩ := upperDigit_spec (n % 16) (by omega)
      exact ⟨⟨hlow, hhigh, hbar⟩, fun _ => hblank⟩
  | plain hlow hhigh _ hbar hblank =>
    rw [List.mem_singleton.mp hc]
    exact ⟨⟨hlow, hhigh, hbar⟩, hblank⟩

/-! ### Texts -/

section

variable {spaces : Bool}

/-- An escaped text falls into tokens, one for each character. -/
theorem tokens_escape (text : Text) :
    tokens (escape spaces text) = text.map (escapeChar spaces) := by
  induction text with
  | nil => rfl
  | cons c text ih =>
    rw [escape, List.flatMap_cons, (written_escapeChar spaces c).tokens_append, ← escape, ih,
      List.map_cons]

/-- An escaped text reads back, except for the characters outside Latin-1. -/
theorem unescape_escape (text : Text) : unescape (escape spaces text) = text.map latin := by
  induction text with
  | nil => rfl
  | cons c text ih =>
    rw [escape, List.flatMap_cons, (written_escapeChar spaces c).unescape_append, ← escape, ih,
      List.map_cons]

theorem sendable_escape {text : Text} {c : Char} (h : c ∈ escape spaces text) :
    Sendable c ∧ (spaces = true → c ≠ ' ') := by
  obtain ⟨d, -, hc⟩ := List.mem_flatMap.mp h
  exact (written_escapeChar spaces d).sendable c hc

theorem escape_append (first second : Text) :
    escape spaces (first ++ second) = escape spaces first ++ escape spaces second :=
  List.flatMap_append

theorem escape_eq_nil {text : Text} : escape spaces text = [] ↔ text = [] := by
  constructor
  · intro h
    cases text with
    | nil => rfl
    | cons c text =>
      have hlen := (written_escapeChar spaces c).length_le.1
      rw [escape, List.flatMap_cons] at h
      rw [(List.append_eq_nil_iff.mp h).1] at hlen
      exact absurd hlen (by decide)
  · rintro rfl
    rfl

theorem map_latin_eq_self {text : Text} (h : ∀ c ∈ text, c.toNat ≤ 0xff) :
    text.map latin = text := by
  refine (List.map_congr_left fun c hc => ?_).trans (List.map_id text)
  exact if_neg (not_lt.mpr (h c hc))

end

/-! ### Cutting between tokens -/

/-- The length of the first tokens that fit, behind a text of length `n`. -/
def fitLength (limit : Nat) : List Text → Nat → Nat
  | [], n => n
  | token :: rest, n =>
    if limit < n + token.length then n else fitLength limit rest (n + token.length)

/-- The pieces of `_put_text`, where `piece` is the one that is being put together. -/
def packTokens (limit : Nat) : List Text → Text → List Text
  | [], piece => if piece = [] then [] else [piece]
  | token :: rest, piece =>
    if limit < piece.length + token.length then piece :: packTokens limit rest token
    else packTokens limit rest (piece ++ token)

/-- What fits is the form of the first characters of a text, at least one of them, and only another
character may be missing to the limit. -/
theorem fitLength_escape (limit : Nat) (spaces : Bool) (text : Text) : ∀ n : Nat, n ≤ limit →
    ∃ k ≤ text.length,
      fitLength limit (text.map (escapeChar spaces)) n =
        n + (escape spaces (text.take k)).length ∧
      n + (escape spaces (text.take k)).length ≤ limit ∧
      (k < text.length → limit < n + (escape spaces (text.take k)).length + 4) := by
  induction text with
  | nil => exact fun n hn => ⟨0, le_rfl, rfl, hn, fun h => absurd h (Nat.lt_irrefl 0)⟩
  | cons c text ih =>
    intro n hn
    have hlen := (written_escapeChar spaces c).length_le.2
    rw [List.map_cons, fitLength]
    split
    · next hover =>
      refine ⟨0, Nat.zero_le _, rfl, hn, fun _ => ?_⟩
      have hnil : (escape spaces ((c :: text).take 0)).length = 0 := rfl
      omega
    · next hfits =>
      obtain ⟨k, hk, hlength, hle, hmore⟩ := ih (n + (escapeChar spaces c).length) (by omega)
      have hescape : (escape spaces ((c :: text).take (k + 1))).length =
          (escapeChar spaces c).length + (escape spaces (text.take k)).length := by
        rw [List.take_succ_cons, escape, List.flatMap_cons, List.length_append]
        rfl
      refine ⟨k + 1, Nat.succ_le_succ hk, ?_, ?_, fun hlt => ?_⟩
      · rw [hlength, hescape, Nat.add_assoc]
      · omega
      · have hmore := hmore (Nat.lt_of_succ_lt_succ hlt)
        omega

/-- The pieces are the forms of the parts of a text, none of them too long. -/
theorem packTokens_escape {limit : Nat} (spaces : Bool) (hlimit : 4 ≤ limit) (text : Text) :
    ∀ before : Text, (escape spaces before).length ≤ limit →
      ∃ parts : List Text, parts.flatten = before ++ text ∧
        packTokens limit (text.map (escapeChar spaces)) (escape spaces before) =
          parts.map (escape spaces) ∧
        ∀ part ∈ parts, (escape spaces part).length ≤ limit := by
  induction text with
  | nil =>
    intro before hlen
    rw [List.map_nil, packTokens]
    split
    · next hnil =>
      rw [escape_eq_nil.mp hnil]
      exact ⟨[], rfl, rfl, nofun⟩
    · refine ⟨[before], by rw [List.flatten_singleton, List.append_nil], rfl, fun part hpart => ?_⟩
      rwa [List.mem_singleton.mp hpart]
  | cons c text ih =>
    intro before hlen
    have hone : escape spaces [c] = escapeChar spaces c := List.flatMap_singleton _ _
    rw [List.map_cons, packTokens]
    split
    · have hnew := (written_escapeChar spaces c).length_le.2
      obtain ⟨parts, hflatten, hpack, hparts⟩ := ih [c] (by rw [hone]; omega)
      rw [hone] at hpack
      refine ⟨before :: parts, ?_, ?_, fun part hpart => ?_⟩
      · rw [List.flatten_cons, hflatten, List.singleton_append]
      · rw [hpack, List.map_cons]
      · rcases List.mem_cons.mp hpart with rfl | hpart
        · exact hlen
        · exact hparts part hpart
    · next hfits =>
      have hjoin : escape spaces (before ++ [c]) = escape spaces before ++ escapeChar spaces c := by
        rw [escape_append, hone]
      obtain ⟨parts, hflatten, hpack, hparts⟩ :=
        ih (before ++ [c]) (by rw [hjoin, List.length_append]; omega)
      rw [hjoin] at hpack
      refine ⟨parts, ?_, hpack, hparts⟩
      rw [hflatten, List.append_assoc, List.singleton_append]

end AmigaDevbench.Amiforge
