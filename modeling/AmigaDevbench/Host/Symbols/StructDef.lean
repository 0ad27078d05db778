import Mathlib.Data.List.Infix
import AmigaDevbench.Core.Keyed
import AmigaDevbench.Core.Returns
import AmigaDevbench.Core.Scan
import AmigaDevbench.Host.Python

/-!
# Structure definitions

The debug strings that define a structure, and the patterns that take them apart. A field comes out
with its name, offset and size if its type is a plain number; the other way to refer to a type has a
comma in it, which ends the type for the pattern.
-/

namespace AmigaDevbench

namespace Symbols

open Scan Keyed

/-- The character classes of the host language, which are the usual ones on ASCII. -/
structure Unicode where
  /-- `\s` -/
  isSpace : Char → Bool
  /-- `\w` -/
  isWord : Char → Bool
  /-- The value of a character of `\d`. -/
  digit : Char → Option Nat
  /-- The boundaries of `splitlines`. -/
  isLineBreak : Char → Bool
  /-- `int(s, 16)`, where it does not raise. -/
  int16 : Text → Option Int
  isWord_ascii : ∀ c, c.toNat < 128 → isWord c = (c.isAlphanum || c == '_')
  digit_ascii : ∀ c, c.toNat < 128 →
    digit c = if c.isDigit then some (c.toNat - '0'.toNat) else none

namespace Unicode

variable (u : Unicode)

/-- `\d` -/
def isDigit (c : Char) : Bool := (u.digit c).isSome

/-- The number that digits denote. -/
def number (s : Text) : Nat := s.foldl (fun n c => n * 10 + (u.digit c).getD 0) 0

/-- `int(s)` of digits. -/
def int (s : Text) : Except PyError Nat :=
  if s.length ≤ Py.maxStrDigits then .ok (u.number s) else .error .valueError

end Unicode

/-- A field of a structure. -/
structure StructField where
  name : Text
  typeName : Text
  offsetBits : Nat
  sizeBits : Nat
  deriving DecidableEq

/-- A structure type. -/
structure StructType where
  name : Text
  sizeBytes : Nat
  fields : List StructField
  deriving DecidableEq

/-- `paren_map` and `num_map`. -/
def simpleTypes : List (Text × Text) := ([
  ("(0,1)", "int"), ("(0,2)", "char"), ("(0,3)", "long"),
  ("(0,4)", "unsigned int"), ("(0,5)", "unsigned long"),
  ("(0,6)", "long long"), ("(0,7)", "unsigned long long"),
  ("(0,8)", "short"), ("(0,9)", "unsigned short"),
  ("(0,10)", "unsigned char"), ("(0,11)", "float"),
  ("(0,12)", "double"), ("(0,13)", "void"),
  ("1", "int"), ("2", "char"), ("3", "long int"), ("4", "unsigned int"),
  ("5", "unsigned long"), ("10", "short"), ("11", "unsigned short"),
  ("12", "signed char"), ("13", "unsigned char"), ("14", "float"),
  ("15", "double"), ("17", "void"),
  ("20", "LONG"), ("21", "ULONG"), ("23", "WORD"), ("24", "UWORD"),
  ("26", "BYTE"), ("27", "UBYTE")] : List (String × String)).map
    fun e => (e.1.toList, e.2.toList)

/-- `_simplify_type`. -/
def simplifyType (typeMap : List (Text × Text)) (type : Text) : Text :=
  match lookup simpleTypes type with
  | some name => name
  | none =>
    match lookup typeMap type with
    | some name => name
    | none => "type(".toList ++ type ++ [')']

/-- The name without the underscore that the compiler puts before it. -/
def dropUnderscore : Text → Text
  | '_' :: s => s
  | s => s

section Patterns

variable (u : Unicode)

/-- The groups of a match of `field_pattern`. -/
structure FieldMatch where
  name : Text
  type : Text
  offset : Text
  size : Text
  deriving DecidableEq

def typeChar (c : Char) : Bool := c != ',' && c != ';'

/-- A match of `([^,;]+),(\d+),(\d+);` at the beginning of a text, and the rest. -/
def matchDescription (name s : Text) : Option (FieldMatch × Text) := do
  let (type, s) ← run typeChar s
  let s ← char ',' s
  let (offset, s) ← run u.isDigit s
  let s ← char ',' s
  let (size, s) ← run u.isDigit s
  let s ← char ';' s
  return (⟨name, type, offset, size⟩, s)

/-- A match of `(\w+):([^,;]+),(\d+),(\d+);` at the beginning of a text, and the rest. -/
def matchField (s : Text) : Option (FieldMatch × Text) := do
  let (name, s) ← run u.isWord s
  let s ← char ':' s
  matchDescription u name s

/-- `\([^)]+\)|\d+`, behind which the rest is returned. -/
def typeNumber (s : Text) : Option Text :=
  match char '(' s with
  | some s => do
    let (_, s) ← run (· != ')') s
    char ')' s
  | none => do
    let (_, s) ← run u.isDigit s
    return s

/-- `(?:\d+=)?` -/
def dropAlias (s : Text) : Text :=
  match run u.isDigit s with
  | some (_, rest) => (char '=' rest).getD s
  | none => s

/-- `[Tt]` -/
def tagChar : Text → Option Text
  | [] => none
  | c :: s => if c = 'T' ∨ c = 't' then some s else none

/-- The size and the fields in `[Tt](?:\([^)]+\)|\d+)=(?:\d+=)?s(\d+)(.*)`. -/
def matchStruct (s : Text) : Option (Text × Text) := do
  let s ← tagChar s
  let s ← typeNumber u s
  let s ← char '=' s
  let s ← char 's' (dropAlias u s)
  let (size, s) ← run u.isDigit s
  return (size, s.takeWhile (· != '\n'))

variable (typeMap : List (Text × Text))

/-- The loop body over the matches of `field_pattern`. -/
def fieldOf (m : FieldMatch) : Except PyError StructField := do
  let offset ← u.int m.offset
  let size ← u.int m.size
  return ⟨m.name, simplifyType typeMap m.type, offset, size⟩

/-- `_parse_struct_stab` up to the last step: the structure that is put into the table. -/
def structOf (stab : Text) : Except PyError (Option StructType) :=
  if [':', 'T'] <:+: stab ∨ [':', 't'] <:+: stab then
    match matchStruct u ((stab.after? ':').getD []) with
    | none => .ok none
    | some (size, fields) => do
      let size ← u.int size
      let fields ← (finditer (matchField u) fields).mapM (fieldOf u typeMap)
      return if fields = [] then none else some ⟨dropUnderscore (stab.before ':'), size, fields⟩
  else .ok none

/-- `_parse_struct_stab` on `struct_types`. -/
def parseStructStab (stab : Text) (types : List (Text × StructType)) :
    Except PyError (List (Text × StructType)) := do
  match ← structOf u typeMap stab with
  | none => return types
  | some st => return assign types st.name st

end Patterns

/-! ### Definitions and their strings -/

/-- A number in decimal digits. -/
structure Numeral where
  text : Text
  ne_nil : text ≠ []
  digits : ∀ c ∈ text, c.isDigit = true

/-- A reference to a type: its number, or the numbers of its file and of the type in it. -/
inductive TypeRef where
  | number (n : Numeral)
  | pair (file type : Numeral)

def TypeRef.text : TypeRef → Text
  | .number n => n.text
  | .pair file type => '(' :: file.text ++ ',' :: type.text ++ [')']

def TypeRef.isNumber : TypeRef → Bool
  | .number _ => true
  | .pair _ _ => false

/-- The field of a definition. -/
structure FieldDef (u : Unicode) where
  name : Text
  type : TypeRef
  offset : Numeral
  size : Numeral
  name_ne : name ≠ []
  name_word : ∀ c ∈ name, u.isWord c = true
  name_start : Stops u.isDigit name

/-- `name:type,offset,size;` -/
def FieldDef.text {u : Unicode} (f : FieldDef u) : Text :=
  f.name ++ ':' :: (f.type.text ++ ',' :: (f.offset.text ++ ',' :: (f.size.text ++ [';'])))

/-- The definition of a structure. -/
structure StructDef (u : Unicode) where
  name : Text
  /-- The tag is `T`. -/
  upper : Bool
  id : TypeRef
  synonym : Option Numeral
  size : Numeral
  fields : List (FieldDef u)
  name_colon : ':' ∉ name

/-- `name:Tid=ssize` or `name:tid=synonym=ssize`, the fields and a semicolon. -/
def StructDef.text {u : Unicode} (d : StructDef u) : Text :=
  let synonym := d.synonym.elim [] fun n => n.text ++ ['=']
  d.name ++ ':' :: (if d.upper then 'T' else 't') :: (d.id.text ++ '=' ::
    (synonym ++ 's' :: (d.size.text ++ (d.fields.flatMap FieldDef.text ++ [';']))))

/-- The numbers of a definition do not exceed the digits that `int` takes. -/
structure StructDef.Short {u : Unicode} (d : StructDef u) : Prop where
  size : d.size.text.length ≤ Py.maxStrDigits
  fields : ∀ f ∈ d.fields,
    f.offset.text.length ≤ Py.maxStrDigits ∧ f.size.text.length ≤ Py.maxStrDigits

/-- The types of all fields are plain numbers. -/
def StructDef.Plain {u : Unicode} (d : StructDef u) : Prop :=
  ∀ f ∈ d.fields, f.type.isNumber = true

/-- The parser returns every field with its name, offset and size, in order. -/
def StructDef.Recovered {u : Unicode} (d : StructDef u) (typeMap : List (Text × Text)) : Prop :=
  ∃ st, structOf u typeMap d.text = .ok st ∧
    (st.elim [] StructType.fields).map (fun f => (f.name, f.offsetBits, f.sizeBits)) =
      d.fields.map fun f => (f.name, u.number f.offset.text, u.number f.size.text)

section Scanning

variable {u : Unicode}

theorem toNat_lt_of_isDigit {c : Char} (h : c.isDigit = true) : c.toNat < 128 := by
  have hrange : c.val ≤ 57 := by
    simp only [Char.isDigit, Bool.and_eq_true, decide_eq_true_eq] at h
    exact h.2
  have hle : c.toNat ≤ 57 := hrange
  omega

theorem isDigit_of_ascii {c : Char} (hc : c.toNat < 128) : u.isDigit c = c.isDigit := by
  rw [Unicode.isDigit, u.digit_ascii c hc]
  cases c.isDigit <;> rfl

theorem isDigit_digit {c : Char} (h : c.isDigit = true) : u.isDigit c = true := by
  rw [isDigit_of_ascii (toNat_lt_of_isDigit h), h]

theorem isWord_digit {c : Char} (h : c.isDigit = true) : u.isWord c = true := by
  rw [u.isWord_ascii c (toNat_lt_of_isDigit h), Char.isAlphanum, h]
  simp

/-- The punctuation of a definition is neither a digit nor a word character. -/
theorem punctuation (c : Char) (hc : c ∈ [':', ',', ';', '(', ')', '=', '\n']) :
    u.isDigit c = false ∧ u.isWord c = false := by
  have hascii : ∀ c ∈ [':', ',', ';', '(', ')', '=', '\n'],
      c.toNat < 128 ∧ c.isDigit = false ∧ c.isAlphanum = false ∧ c ≠ '_' := by decide
  obtain ⟨hlt, hdigit, halpha, hne⟩ := hascii c hc
  rw [isDigit_of_ascii hlt, u.isWord_ascii c hlt, hdigit, halpha]
  simp [hne]

theorem Numeral.run (n : Numeral) {rest : Text} (h : Stops u.isDigit rest) :
    Scan.run u.isDigit (n.text ++ rest) = some (n.text, rest) :=
  run_append n.ne_nil (fun c hc => isDigit_digit (n.digits c hc)) h

theorem typeChar_digit {c : Char} (h : c.isDigit = true) : typeChar c = true := by
  rw [typeChar, Bool.and_eq_true, bne_iff_ne, bne_iff_ne]
  constructor <;> rintro rfl <;> cases h

/-- What a match is made of. -/
theorem matchField_eq_some {s rest : Text} {m : FieldMatch}
    (h : matchField u s = some (m, rest)) :
    s = m.name ++ ':' :: (m.type ++ ',' :: (m.offset ++ ',' :: (m.size ++ ';' :: rest))) ∧
      (∀ c ∈ m.offset, u.isDigit c = true) ∧ ∀ c ∈ m.size, u.isDigit c = true := by
  obtain ⟨⟨name, s₁⟩, hname, h⟩ := Option.bind_eq_some_iff.mp h
  obtain ⟨s₂, hcolon, h⟩ := Option.bind_eq_some_iff.mp h
  obtain ⟨⟨type, s₃⟩, htype, h⟩ := Option.bind_eq_some_iff.mp h
  obtain ⟨s₄, hcomma, h⟩ := Option.bind_eq_some_iff.mp h
  obtain ⟨⟨offset, s₅⟩, hoffset, h⟩ := Option.bind_eq_some_iff.mp h
  obtain ⟨s₆, hcomma', h⟩ := Option.bind_eq_some_iff.mp h
  obtain ⟨⟨size, s₇⟩, hsize, h⟩ := Option.bind_eq_some_iff.mp h
  obtain ⟨s₈, hsemi, h⟩ := Option.bind_eq_some_iff.mp h
  cases h
  obtain ⟨rfl, -, -⟩ := run_eq_some hname
  obtain rfl := char_eq_some hcolon
  obtain ⟨rfl, -, -⟩ := run_eq_some htype
  obtain rfl := char_eq_some hcomma
  obtain ⟨rfl, -, hoffsets⟩ := run_eq_some hoffset
  obtain rfl := char_eq_some hcomma'
  obtain ⟨rfl, -, hsizes⟩ := run_eq_some hsize
  obtain rfl := char_eq_some hsemi
  exact ⟨rfl, hoffsets, hsizes⟩

theorem shortens_matchField : Shortens (matchField u) := by
  intro s m rest h
  obtain ⟨rfl, -, -⟩ := matchField_eq_some h
  simp only [List.length_append, List.length_cons]
  omega

/-! ### The fields that are found -/

/-- A name and its colon are read. -/
theorem matchField_name {w s : Text} (hw : w ≠ []) (hall : ∀ c ∈ w, u.isWord c = true) :
    matchField u (w ++ ':' :: s) = matchDescription u w s := by
  have hstop : Stops u.isWord (':' :: s) := stops_cons (punctuation ':' (by decide)).2
  simp only [matchField, run_append hw hall hstop, Option.bind_eq_bind, Option.bind_some, char_cons]

/-- What the pattern finds of a field whose type is a plain number. -/
def FieldDef.found (f : FieldDef u) : FieldMatch :=
  ⟨f.name, f.type.text, f.offset.text, f.size.text⟩

theorem matchField_plain (f : FieldDef u) {n : Numeral} (hplain : f.type = .number n)
    (rest : Text) : matchField u (f.text ++ rest) = some (f.found, rest) := by
  have hcomma : Stops typeChar (',' :: (f.offset.text ++ ',' :: (f.size.text ++ ';' :: rest))) :=
    stops_cons rfl
  have htext : f.text ++ rest = f.name ++ ':' :: (n.text ++ ',' :: (f.offset.text ++ ',' ::
      (f.size.text ++ ';' :: rest))) := by
    rw [FieldDef.text, hplain]
    simp [TypeRef.text]
  rw [htext, matchField_name f.name_ne f.name_word]
  simp only [matchDescription, Option.bind_eq_bind, Option.bind_some, char_cons,
    run_append n.ne_nil (fun c hc => typeChar_digit (n.digits c hc)) hcomma,
    f.offset.run (stops_cons (punctuation ',' (by decide)).1),
    f.size.run (stops_cons (punctuation ';' (by decide)).1), FieldDef.found, hplain, TypeRef.text]
  rfl

/-- No match begins where there is no word, or a word without a colon. -/
theorem matchField_none {w s : Text} {c : Char} (hall : ∀ d ∈ w, u.isWord d = true)
    (hstop : u.isWord c = false) (hcolon : c ≠ ':') : matchField u (w ++ c :: s) = none := by
  by_cases hw : w = []
  · simp only [hw, List.nil_append, matchField, run_eq_none (stops_cons hstop),
      Option.bind_eq_bind, Option.bind_none]
  · simp only [matchField, run_append hw hall (stops_cons hstop), Option.bind_eq_bind,
      Option.bind_some, char_eq_none hcolon, Option.bind_none]

/-- In a word and the character behind it no match begins, unless it is a colon. -/
theorem finditer_word {w s : Text} {c : Char} (hall : ∀ d ∈ w, u.isWord d = true)
    (hstop : u.isWord c = false) (hcolon : c ≠ ':') :
    finditer (matchField u) (w ++ c :: s) = finditer (matchField u) s := by
  induction w with
  | nil => exact finditer_of_none (matchField_none (w := []) (fun _ h => by cases h) hstop hcolon)
  | cons d w ih =>
    have hnone : matchField u (d :: (w ++ c :: s)) = none :=
      matchField_none (w := d :: w) hall hstop hcolon
    rw [List.cons_append, finditer_of_none hnone]
    exact ih fun e he => hall e (List.mem_cons_of_mem _ he)

theorem finditer_numeral (n : Numeral) {s : Text} {c : Char}
    (hc : c ∈ [',', ';', ')']) :
    finditer (matchField u) (n.text ++ c :: s) = finditer (matchField u) s := by
  refine finditer_word (fun d hd => isWord_digit (n.digits d hd)) (punctuation c ?_).2 ?_
  · revert hc
    decide +revert
  · rintro rfl
    exact absurd hc (by decide)

/-- No match begins in the name of a field whose type is a pair: the type ends at the comma in the
pair. -/
theorem matchField_pair {w s : Text} {file type : Numeral} (hw : w ≠ [])
    (hall : ∀ c ∈ w, u.isWord c = true) :
    matchField u (w ++ ':' :: '(' :: (file.text ++ ',' :: (type.text ++ ')' :: s))) = none := by
  have hopen : ∀ c ∈ '(' :: file.text, typeChar c = true := by
    intro c hc
    rcases List.mem_cons.mp hc with rfl | hc
    · rfl
    · exact typeChar_digit (file.digits c hc)
  have hcomma : Stops typeChar (',' :: (type.text ++ ')' :: s)) := stops_cons rfl
  have hclose : (')' : Char) ≠ ',' := by decide
  have hrun := run_append (List.cons_ne_nil '(' file.text) hopen hcomma
  rw [List.cons_append] at hrun
  rw [matchField_name hw hall]
  simp only [matchDescription, Option.bind_eq_bind, Option.bind_some, char_cons, hrun,
    type.run (stops_cons (punctuation ')' (by decide)).1), char_eq_none hclose, Option.bind_none]

/-- A field whose type is a pair is passed over. -/
theorem finditer_pair (f : FieldDef u) {file type : Numeral} (hpair : f.type = .pair file type)
    (rest : Text) :
    finditer (matchField u) (f.text ++ rest) = finditer (matchField u) rest := by
  have htext : f.text ++ rest = f.name ++ ':' :: '(' :: (file.text ++ ',' :: (type.text ++ ')' ::
      ',' :: (f.offset.text ++ ',' :: (f.size.text ++ ';' :: rest)))) := by
    rw [FieldDef.text, hpair]
    simp [TypeRef.text]
  have hsingle : ∀ c ∈ [':', '(', ','], ∀ s,
      finditer (matchField u) (c :: s) = finditer (matchField u) s := by
    intro c hc s
    have hstop : u.isWord c = false := by
      refine (punctuation c ?_).2
      revert hc
      decide +revert
    refine finditer_of_none ?_
    simp only [matchField, run_eq_none (stops_cons hstop), Option.bind_eq_bind, Option.bind_none]
  rw [htext, finditer_append, hsingle ':' (by decide), hsingle '(' (by decide),
    finditer_numeral file (by decide), finditer_numeral type (by decide),
    hsingle ',' (by decide), finditer_numeral f.offset (by decide),
    finditer_numeral f.size (by decide)]
  intro v c t heq
  refine matchField_pair (List.cons_ne_nil c t) fun d hd => f.name_word d ?_
  rw [heq]
  exact List.mem_append_right v hd

/-- The pattern finds the fields whose types are plain numbers. -/
theorem finditer_fields (fields : List (FieldDef u)) (rest : Text) :
    finditer (matchField u) (fields.flatMap FieldDef.text ++ rest) =
      (fields.filter fun f => f.type.isNumber).map FieldDef.found ++
        finditer (matchField u) rest := by
  induction fields with
  | nil => rfl
  | cons f fields ih =>
    rw [List.flatMap_cons, List.append_assoc, List.filter_cons]
    cases htype : f.type with
    | number n =>
      have hne : f.text ++ (fields.flatMap FieldDef.text ++ rest) ≠ [] := by
        simp [FieldDef.text]
      rw [finditer_of_match shortens_matchField (matchField_plain f htype _) hne, ih]
      simp [TypeRef.isNumber]
    | pair file type =>
      rw [finditer_pair f htype, ih]
      simp [TypeRef.isNumber]

/-! ### The definition as a whole -/

theorem typeNumber_text (t : TypeRef) (s : Text) :
    typeNumber u (t.text ++ '=' :: s) = some ('=' :: s) := by
  cases t with
  | number n =>
    obtain ⟨c, w, hw⟩ := List.exists_cons_of_ne_nil n.ne_nil
    have hc : c ≠ '(' := by
      rintro rfl
      have hdigit := n.digits '(' (hw ▸ List.mem_cons_self)
      cases hdigit
    have hopen : char '(' (n.text ++ '=' :: s) = none := by
      rw [hw]
      exact char_eq_none hc
    simp only [typeNumber, TypeRef.text, hopen, n.run (stops_cons (punctuation '=' (by decide)).1),
      Option.bind_eq_bind, Option.bind_some]
    rfl
  | pair file type =>
    have htext : (TypeRef.pair file type).text ++ '=' :: s =
        '(' :: ((file.text ++ ',' :: type.text) ++ ')' :: '=' :: s) := by
      simp [TypeRef.text]
    have hall : ∀ c ∈ file.text ++ ',' :: type.text, (c != ')') = true := by
      intro c hc
      have hdigit : ∀ n : Numeral, c ∈ n.text → (c != ')') = true := by
        intro n hn
        refine bne_iff_ne.mpr ?_
        rintro rfl
        have hparen := n.digits ')' hn
        cases hparen
      rcases List.mem_append.mp hc with hc | hc
      · exact hdigit file hc
      · rcases List.mem_cons.mp hc with rfl | hc
        · rfl
        · exact hdigit type hc
    have hstop : Stops (fun c => c != ')') (')' :: '=' :: s) := stops_cons rfl
    rw [htext]
    simp only [typeNumber, char_cons, run_append (by simp) hall hstop, Option.bind_eq_bind,
      Option.bind_some]

theorem dropAlias_text (synonym : Option Numeral) (s : Text) :
    dropAlias u ((synonym.elim [] fun n => n.text ++ ['=']) ++ 's' :: s) = 's' :: s := by
  cases synonym with
  | none =>
    have hs : u.isDigit 's' = false := isDigit_of_ascii (by decide)
    have hnone : run u.isDigit ('s' :: s) = none := run_eq_none (stops_cons hs)
    simp only [Option.elim, List.nil_append, dropAlias, hnone]
  | some n =>
    have htext : (n.text ++ ['=']) ++ 's' :: s = n.text ++ '=' :: 's' :: s := by simp
    simp only [Option.elim, htext, dropAlias,
      n.run (stops_cons (punctuation '=' (by decide)).1), char_cons, Option.getD_some]

theorem ne_newline_of_mem_field {f : FieldDef u} {c : Char} (hc : c ∈ f.text) :
    (c != '\n') = true := by
  have hdigit : ∀ n : Numeral, c ∈ n.text → c ≠ '\n' := by
    rintro n hn rfl
    have hline := n.digits '\n' hn
    cases hline
  have htype : c ∈ f.type.text → c ≠ '\n' := by
    cases f.type with
    | number n => exact hdigit n
    | pair file type =>
      simp only [TypeRef.text, List.mem_append, List.mem_cons, List.not_mem_nil, or_false,
        List.cons_append]
      rintro (rfl | (h | rfl | h) | rfl)
      · decide
      · exact hdigit file h
      · decide
      · exact hdigit type h
      · decide
  have hname : c ∈ f.name → c ≠ '\n' := by
    rintro h rfl
    have hword := f.name_word '\n' h
    rw [(punctuation '\n' (by decide)).2] at hword
    cases hword
  refine bne_iff_ne.mpr ?_
  simp only [FieldDef.text, List.mem_append, List.mem_cons, List.not_mem_nil, or_false] at hc
  rcases hc with h | rfl | h | rfl | h | rfl | h | rfl
  · exact hname h
  · decide
  · exact htype h
  · decide
  · exact hdigit f.offset h
  · decide
  · exact hdigit f.size h
  · decide

/-- The pattern takes the size and all fields from a definition. -/
theorem matchStruct_text (d : StructDef u) :
    matchStruct u ((d.text.after? ':').getD []) =
      some (d.size.text, d.fields.flatMap FieldDef.text ++ [';']) := by
  have hafter : (d.text.after? ':').getD [] = (if d.upper then 'T' else 't') :: (d.id.text ++ '=' ::
      ((d.synonym.elim [] fun n => n.text ++ ['=']) ++ 's' :: (d.size.text ++
        (d.fields.flatMap FieldDef.text ++ [';'])))) := by
    rw [StructDef.text, Text.after?_append d.name_colon, Option.getD_some]
  have htag : ∀ s, tagChar ((if d.upper then 'T' else 't') :: s) = some s := by
    intro s
    cases d.upper <;> rfl
  have hstop : Stops u.isDigit (d.fields.flatMap FieldDef.text ++ [';']) := by
    cases d.fields with
    | nil => exact stops_cons (punctuation ';' (by decide)).1
    | cons f fields =>
      obtain ⟨c, w, hw⟩ := List.exists_cons_of_ne_nil f.name_ne
      have hstart := f.name_start
      rw [hw] at hstart
      rw [List.flatMap_cons, FieldDef.text, hw]
      exact stops_cons (hstart c rfl)
  have hline : (d.fields.flatMap FieldDef.text ++ [';']).takeWhile (· != '\n') =
      d.fields.flatMap FieldDef.text ++ [';'] := by
    refine List.takeWhile_eq_self_iff.mpr fun c hc => ?_
    rcases List.mem_append.mp hc with hc | hc
    · obtain ⟨f, -, hc⟩ := List.mem_flatMap.mp hc
      exact ne_newline_of_mem_field hc
    · rw [List.mem_singleton.mp hc]
      rfl
  simp only [hafter, matchStruct, htag, typeNumber_text, dropAlias_text, char_cons,
    d.size.run hstop, hline, Option.bind_eq_bind, Option.bind_some]
  rfl

theorem isDefinition_text (d : StructDef u) :
    [':', 'T'] <:+: d.text ∨ [':', 't'] <:+: d.text := by
  rw [StructDef.text]
  cases d.upper with
  | true => exact .inl ⟨d.name, _, by simp; rfl⟩
  | false => exact .inr ⟨d.name, _, by simp; rfl⟩

theorem int_eq_ok {s : Text} {n : Nat} :
    u.int s = .ok n ↔ s.length ≤ Py.maxStrDigits ∧ n = u.number s := by
  rw [Unicode.int]
  split
  · next h =>
    constructor
    · intro hn
      cases hn
      exact ⟨h, rfl⟩
    · rintro ⟨-, rfl⟩
      rfl
  · next h =>
    constructor
    · intro hn
      cases hn
    · exact fun hn => (h hn.1).elim

/-- What is returned for a field. -/
theorem fieldOf_found {typeMap : List (Text × Text)} {f : FieldDef u} {field : StructField} :
    fieldOf u typeMap f.found = .ok field ↔
      (f.offset.text.length ≤ Py.maxStrDigits ∧ f.size.text.length ≤ Py.maxStrDigits) ∧
        field = ⟨f.name, simplifyType typeMap f.type.text, u.number f.offset.text,
          u.number f.size.text⟩ := by
  constructor
  · intro h
    obtain ⟨offset, hoffset, h⟩ := bind_eq_ok_iff.mp h
    obtain ⟨size, hsize, h⟩ := bind_eq_ok_iff.mp h
    obtain ⟨hoffsets, rfl⟩ := int_eq_ok.mp hoffset
    obtain ⟨hsizes, rfl⟩ := int_eq_ok.mp hsize
    cases h
    exact ⟨⟨hoffsets, hsizes⟩, rfl⟩
  · rintro ⟨⟨hoffset, hsize⟩, rfl⟩
    rw [fieldOf, FieldDef.found]
    dsimp only
    rw [int_eq_ok.mpr ⟨hoffset, rfl⟩, ok_bind, int_eq_ok.mpr ⟨hsize, rfl⟩, ok_bind]
    rfl

/-- The parser converts the size and the fields with plain numbers for types. -/
theorem structOf_eq_ok {d : StructDef u} {typeMap : List (Text × Text)} {fields : List StructField} :
    (∃ st, structOf u typeMap d.text = .ok st ∧ st.elim [] StructType.fields = fields) ↔
      d.size.text.length ≤ Py.maxStrDigits ∧
        (((d.fields.filter fun f => f.type.isNumber).map FieldDef.found).mapM
          (fieldOf u typeMap)) = .ok fields := by
  have hfound : finditer (matchField u) (d.fields.flatMap FieldDef.text ++ [';']) =
      (d.fields.filter fun f => f.type.isNumber).map FieldDef.found := by
    have hend : matchField u [';'] = none :=
      matchField_none (w := []) (fun _ h => by cases h) (punctuation ';' (by decide)).2 (by decide)
    rw [finditer_fields, finditer_of_none hend, finditer_nil, List.append_nil]
  rw [structOf, if_pos (isDefinition_text d), matchStruct_text]
  dsimp only
  rw [hfound]
  constructor
  · rintro ⟨st, hst, rfl⟩
    obtain ⟨size, hsize, hst⟩ := bind_eq_ok_iff.mp hst
    obtain ⟨fields, hfields, hst⟩ := bind_eq_ok_iff.mp hst
    refine ⟨(int_eq_ok.mp hsize).1, ?_⟩
    rw [hfields]
    cases hst
    by_cases hempty : fields = []
    · rw [if_pos hempty, hempty]
      rfl
    · rw [if_neg hempty]
      rfl
  · rintro ⟨hsize, hfields⟩
    rw [int_eq_ok.mpr ⟨hsize, rfl⟩, ok_bind, hfields, ok_bind]
    refine ⟨_, rfl, ?_⟩
    by_cases hempty : fields = []
    · rw [if_pos hempty, hempty]
      rfl
    · rw [if_neg hempty]
      rfl

theorem filter_eq_self_of_plain {d : StructDef u} (h : d.Plain) :
    d.fields.filter (fun f => f.type.isNumber) = d.fields :=
  List.filter_eq_self.mpr h

/-- The parser recovers a structure if and only if the types of all fields are plain numbers, and no
number has too many digits for `int`. -/
theorem recovered_iff (d : StructDef u) (typeMap : List (Text × Text)) :
    d.Recovered typeMap ↔ d.Plain ∧ d.Short := by
  constructor
  · rintro ⟨st, hst, hfields⟩
    obtain ⟨hsize, hmap⟩ := structOf_eq_ok.mp ⟨st, hst, rfl⟩
    have hall := forall₂_of_mapM hmap
    have hplain : d.Plain := by
      have hlength := hall.length_eq
      rw [List.length_map] at hlength
      have hcount := congrArg List.length hfields
      rw [List.length_map, List.length_map, ← hlength] at hcount
      exact List.length_filter_eq_length_iff.mp hcount
    rw [filter_eq_self_of_plain hplain, List.forall₂_map_left_iff] at hall
    refine ⟨hplain, hsize, fun f hf => ?_⟩
    obtain ⟨field, -, hfield⟩ := exists_of_forall₂ hall hf
    exact (fieldOf_found.mp hfield).1
  · rintro ⟨hplain, hshort⟩
    have hmap : ((d.fields.filter fun f => f.type.isNumber).map FieldDef.found).mapM
        (fieldOf u typeMap) = .ok (d.fields.map fun f =>
          ⟨f.name, simplifyType typeMap f.type.text, u.number f.offset.text,
            u.number f.size.text⟩) := by
      rw [filter_eq_self_of_plain hplain, List.mapM_map]
      exact mapM_eq_map fun f hf => fieldOf_found.mpr ⟨hshort.fields f hf, rfl⟩
    obtain ⟨st, hst, hfields⟩ := structOf_eq_ok.mpr ⟨hshort.size, hmap⟩
    refine ⟨st, hst, ?_⟩
    rw [hfields, List.map_map]
    rfl

end Scanning

/-- A structure that is recovered is found in the table under its name. -/
theorem lookup_parseStructStab {u : Unicode} {typeMap : List (Text × Text)} {stab : Text}
    {st : StructType} (h : structOf u typeMap stab = .ok (some st))
    (types : List (Text × StructType)) : ∃ types', parseStructStab u typeMap stab types = .ok types' ∧
      lookup types' st.name = some st := by
  refine ⟨assign types st.name st, ?_, ?_⟩
  · rw [parseStructStab, h, ok_bind]
    rfl
  · rw [lookup_assign, if_pos rfl]

/-- The classes with ASCII characters only. -/
def ascii : Unicode where
  isSpace := Py.isSpace
  isWord := fun c => c.isAlphanum || c == '_'
  digit := fun c => if c.isDigit then some (c.toNat - '0'.toNat) else none
  isLineBreak := fun c => c.toNat ∈ [10, 11, 12, 13, 28, 29, 30, 133]
  int16 := fun s => (Py.int 16 s).toOption
  isWord_ascii := fun _ _ => rfl
  digit_ascii := fun _ _ => rfl

/-- The definition of a structure that refers to its types by pairs, from which nothing is
recovered. -/
theorem not_recovered_point : ∃ d : StructDef ascii,
    d.text = "Point:T(1,1)=s8x:(0,1),0,32;y:(0,1),32,32;;".toList ∧
      structOf ascii [] d.text = .ok none ∧ ¬ d.Recovered [] := by
  let zero : Numeral := ⟨['0'], by decide, by decide⟩
  let one : Numeral := ⟨['1'], by decide, by decide⟩
  let eight : Numeral := ⟨['8'], by decide, by decide⟩
  let bits : Numeral := ⟨['3', '2'], by decide, by decide⟩
  have hx : Stops ascii.isDigit ['x'] := stops_cons rfl
  have hy : Stops ascii.isDigit ['y'] := stops_cons rfl
  let x : FieldDef ascii := ⟨['x'], .pair zero one, zero, bits, by decide, by decide, hx⟩
  let y : FieldDef ascii := ⟨['y'], .pair zero one, bits, bits, by decide, by decide, hy⟩
  let point : StructDef ascii :=
    ⟨"Point".toList, true, .pair one one, none, eight, [x, y], by decide⟩
  have hnone : structOf ascii [] point.text = .ok none := rfl
  refine ⟨point, rfl, hnone, ?_⟩
  rintro ⟨st, hst, hfields⟩
  rw [hnone] at hst
  cases hst
  cases hfields

end Symbols

end AmigaDevbench
