import AmigaDevbench.Core.Bytes

/-!
# The Python operations of the host

Texts are the Latin-1 strings that the serial link delivers, so character classes are those
of the first 256 code points. `int()` is the built-in: surrounding blanks, a sign, an optional
`0x` for base 16, single underscores between digits, and the interpreter's limit on the
number of decimal digits.
-/

namespace AmigaDevbench

/-- The exceptions that the modelled host code can raise. -/
inductive PyError where
  | valueError
  | keyError
  | runtimeError
  | indexError
  | unicodeEncodeError
  deriving DecidableEq, Repr

/-- A value stored in a message dictionary. -/
inductive Val where
  | str (s : Text)
  | int (n : Int)
  | bool (b : Bool)
  | list (xs : List Val)
  | dict (kvs : List (String × Val))

/-- A message or command dictionary, keys in insertion order. -/
abbrev Dict := List (String × Val)

namespace Dict

/-- `d.get(k)`. -/
def get? (d : Dict) (k : String) : Option Val := (d.find? (·.1 = k)).map (·.2)

/-- `d[k]`. -/
def getItem (d : Dict) (k : String) : Except PyError Val :=
  match d.get? k with
  | some v => .ok v
  | none => .error .keyError

/-- `d[k] = v`: an existing key keeps its place. -/
def set (d : Dict) (k : String) (v : Val) : Dict :=
  if d.any (·.1 = k) then d.map fun kv => if kv.1 = k then (k, v) else kv else d ++ [(k, v)]

/-- `d.get(k, "")` where the value is a text. -/
def getText (d : Dict) (k : String) (default : Text) : Text :=
  match d.get? k with
  | some (.str s) => s
  | _ => default

/-- `d.get(k, n)` where the value is a number. -/
def getInt (d : Dict) (k : String) (default : Int) : Int :=
  match d.get? k with
  | some (.int n) => n
  | _ => default

/-- `d.get(k, False)` where the value is a Boolean. -/
def getBool (d : Dict) (k : String) : Bool :=
  match d.get? k with
  | some (.bool b) => b
  | _ => false

/-- `d.get(k, [])` where the value is a list of numbers. -/
def getInts (d : Dict) (k : String) : List Int :=
  match d.get? k with
  | some (.list xs) => xs.filterMap fun v => match v with
    | .int n => some n
    | _ => none
  | _ => []

/-- `d.get(k) == s` for a text `s`. -/
def hasText (d : Dict) (k : String) (s : Text) : Bool :=
  match d.get? k with
  | some (.str t) => t = s
  | _ => false

/-- Storing under one key leaves the others alone. -/
theorem get?_set_of_ne (d : Dict) {j k : String} (v : Val) (h : j ≠ k) :
    (d.set k v).get? j = d.get? j := by
  have hkey : ∀ kv : String × Val, (if kv.1 = k then (k, v) else kv).1 = kv.1 := by
    intro kv
    split
    · next hk => exact hk.symm
    · rfl
  unfold set get?
  split
  · simp only [List.find?_map, Function.comp_def, hkey]
    cases hf : d.find? (·.1 = j) with
    | none => rfl
    | some kv =>
      have hj : kv.1 = j := by simpa using List.find?_some hf
      have hne : kv.1 ≠ k := fun hk => h (hj.symm.trans hk)
      simp [hne]
  · simp [List.find?_append, Ne.symm h]

end Dict

namespace Py

/-- `c.isspace()` on Latin-1. -/
def isSpace (c : Char) : Bool :=
  c.toNat ∈ [0x09, 0x0a, 0x0b, 0x0c, 0x0d, 0x1c, 0x1d, 0x1e, 0x1f, 0x20, 0x85, 0xa0]

/-- `s.strip()`. -/
def strip (s : Text) : Text := s.stripBy isSpace

/-- `s.rstrip()`. -/
def rstrip (s : Text) : Text := s.rstripBy isSpace

/-- `s.isdigit()` on Latin-1, where the three superscript digits count as digits. -/
def isdigit (s : Text) : Bool :=
  !s.isEmpty && s.all fun c => c.isDigit || c.toNat ∈ [0xb2, 0xb3, 0xb9]

/-- The blanks that `int()` skips. Unlike `isspace`, the four separators below the blank are
not among them. -/
def intSpace (c : Char) : Bool :=
  c.toNat ∈ [0x09, 0x0a, 0x0b, 0x0c, 0x0d, 0x20, 0x85, 0xa0]

/-- The value of a digit in any base up to sixteen. -/
def digitVal (c : Char) : Option Nat :=
  if '0' ≤ c ∧ c ≤ '9' then some (c.toNat - '0'.toNat)
  else if 'a' ≤ c ∧ c ≤ 'f' then some (c.toNat - 'a'.toNat + 10)
  else if 'A' ≤ c ∧ c ≤ 'F' then some (c.toNat - 'A'.toNat + 10)
  else none

/-- A digit of the given base. -/
def isDigitOf (base : Nat) (c : Char) : Bool := (digitVal c).any (· < base)

/-- The most decimal digits that `int()` converts. -/
def maxStrDigits : Nat := 4300

/-- The sign in front of a literal and the text behind it. -/
def splitSign : Text → Bool × Text
  | '+' :: s => (false, s)
  | '-' :: s => (true, s)
  | s => (false, s)

/-- Base 16 allows `0x`, and one underscore directly behind it. -/
def dropBasePrefix (base : Nat) (s : Text) : Text :=
  match base, s with
  | 16, '0' :: 'x' :: '_' :: s => s
  | 16, '0' :: 'X' :: '_' :: s => s
  | 16, '0' :: 'x' :: s => s
  | 16, '0' :: 'X' :: s => s
  | _, s => s

/-- The digit groups of a literal: what stands between single underscores. -/
def digitGroups (base : Nat) (s : Text) : List Text :=
  (dropBasePrefix base (splitSign (s.stripBy intSpace)).2).splitOn '_'

/-- The texts that `int(s, base)` accepts, for base 10 and base 16. -/
def isIntLiteral (base : Nat) (s : Text) : Bool :=
  (digitGroups base s).all (fun g => !g.isEmpty && g.all (isDigitOf base)) &&
    (base != 10 || (digitGroups base s).flatten.length ≤ maxStrDigits)

/-- The number that a sequence of digits denotes. -/
def digitsVal (base : Nat) (s : Text) : Nat :=
  s.foldl (fun n c => n * base + (digitVal c).getD 0) 0

/-- `int(s, base)`. -/
def int (base : Nat) (s : Text) : Except PyError Int :=
  if isIntLiteral base s then
    let n : Int := digitsVal base (digitGroups base s).flatten
    .ok (if (splitSign (s.stripBy intSpace)).1 then -n else n)
  else .error .valueError

/-- Exactly the literals convert. -/
theorem int_ok_iff (base : Nat) (s : Text) :
    (∃ n, int base s = .ok n) ↔ isIntLiteral base s = true := by
  unfold int
  cases isIntLiteral base s <;> simp

section Numerals

/-- Digits in any base are no blanks, signs, underscores or base prefixes. -/
theorem digitVal_eq_some {c : Char} {d : Nat} (h : digitVal c = some d) :
    intSpace c = false ∧ c ≠ '+' ∧ c ≠ '-' ∧ c ≠ '_' ∧ c ≠ 'x' ∧ c ≠ 'X' := by
  refine ⟨?_, ?_, ?_, ?_, ?_, ?_⟩
  · cases hspace : intSpace c with
    | false => rfl
    | true =>
      have hlow : c.toNat < 48 ∨ 128 ≤ c.toNat := by
        simp only [intSpace, List.mem_cons, List.not_mem_nil, or_false, decide_eq_true_eq] at hspace
        omega
      have hranges : ∀ l u : Char, 48 ≤ l.toNat → u.toNat < 128 → ¬ (l ≤ c ∧ c ≤ u) := by
        rintro l u hl hu ⟨hlc, hcu⟩
        have h1 : l.toNat ≤ c.toNat := hlc
        have h2 : c.toNat ≤ u.toNat := hcu
        omega
      rw [digitVal, if_neg (hranges _ _ (by decide) (by decide)),
        if_neg (hranges _ _ (by decide) (by decide)),
        if_neg (hranges _ _ (by decide) (by decide))] at h
      cases h
  all_goals
    rintro rfl
    exact absurd h (by decide +revert)

/-- A sequence of digits converts to the number it denotes. -/
theorem int_digits {base : Nat} {s : Text} (hs : s ≠ []) (hall : s.all (isDigitOf base) = true)
    (hlen : base = 10 → s.length ≤ maxStrDigits) : int base s = .ok (digitsVal base s) := by
  have hdigit : ∀ c ∈ s, ∃ d, digitVal c = some d := by
    intro c hc
    have hof := List.all_eq_true.mp hall c hc
    cases hval : digitVal c with
    | none => simp [isDigitOf, hval] at hof
    | some d => exact ⟨d, rfl⟩
  have hstrip : s.stripBy intSpace = s := by
    apply Text.stripBy_eq_self
    intro c hc
    obtain ⟨d, hd⟩ := hdigit c hc
    exact (digitVal_eq_some hd).1
  have hsign : splitSign s = (false, s) := by
    obtain ⟨c, cs, rfl⟩ := List.exists_cons_of_ne_nil hs
    obtain ⟨d, hd⟩ := hdigit c List.mem_cons_self
    obtain ⟨_, hplus, hminus, _⟩ := digitVal_eq_some hd
    unfold splitSign
    split
    · next h => exact absurd (List.cons.inj h).1 hplus
    · next h => exact absurd (List.cons.inj h).1 hminus
    · rfl
  have hfront : dropBasePrefix base s = s := by
    have hx : 'x' ∉ s := fun h => by
      obtain ⟨d, hd⟩ := hdigit _ h
      exact (digitVal_eq_some hd).2.2.2.2.1 rfl
    have hX : 'X' ∉ s := fun h => by
      obtain ⟨d, hd⟩ := hdigit _ h
      exact (digitVal_eq_some hd).2.2.2.2.2 rfl
    unfold dropBasePrefix
    split
    · exact absurd (by simp) hx
    · exact absurd (by simp) hX
    · exact absurd (by simp) hx
    · exact absurd (by simp) hX
    · rfl
  have hgroups : digitGroups base s = [s] := by
    rw [digitGroups, hstrip, hsign, hfront]
    apply List.splitOn_eq_singleton
    intro h
    obtain ⟨d, hd⟩ := hdigit _ h
    exact (digitVal_eq_some hd).2.2.2.1 rfl
  have hliteral : isIntLiteral base s = true := by
    by_cases hten : base = 10
    · simp [isIntLiteral, hgroups, hall, hs, hlen hten]
    · simp [isIntLiteral, hgroups, hall, hs, hten]
  simp only [int, hliteral, if_true, hgroups, List.flatten_cons, List.flatten_nil,
    List.append_nil, hstrip, hsign, Bool.false_eq_true, if_false]

theorem digitVal_digitChar : ∀ d < 16, digitVal (Nat.digitChar d) = some d := by decide

/-- Every digit of a numeral is a digit of its base. -/
theorem isDigitOf_of_mem_toDigits {base n : Nat} {c : Char} (hone : 1 < base) (hbase : base ≤ 16)
    (hc : c ∈ Nat.toDigits base n) : isDigitOf base c = true := by
  induction n using Nat.base_induction base hone with
  | single m hm =>
    rw [Nat.toDigits_of_lt_base hm, List.mem_singleton] at hc
    simp [hc, isDigitOf, digitVal_digitChar m (by omega), hm]
  | digit m k hk hm ih =>
    rw [← Nat.toDigits_append_toDigits hone hm hk, List.mem_append] at hc
    rcases hc with hc | hc
    · exact ih hc
    · rw [Nat.toDigits_of_lt_base hk, List.mem_singleton] at hc
      simp [hc, isDigitOf, digitVal_digitChar k (by omega), hk]

/-- A numeral denotes its number. -/
theorem digitsVal_toDigits {base : Nat} (hone : 1 < base) (hbase : base ≤ 16) (n : Nat) :
    digitsVal base (Nat.toDigits base n) = n := by
  induction n using Nat.base_induction base hone with
  | single m hm =>
    rw [Nat.toDigits_of_lt_base hm]
    simp [digitsVal, digitVal_digitChar m (by omega)]
  | digit m k hk hm ih =>
    rw [← Nat.toDigits_append_toDigits hone hm hk, digitsVal, List.foldl_append, ← digitsVal, ih,
      Nat.toDigits_of_lt_base hk]
    simp [digitVal_digitChar k (by omega), Nat.mul_comm]

/-- Leading zeros do not count. -/
theorem digitsVal_zeros (base k : Nat) (s : Text) :
    digitsVal base (List.replicate k '0' ++ s) = digitsVal base s := by
  induction k with
  | zero => rfl
  | succ k ih =>
    rw [← ih, List.replicate_succ, List.cons_append, digitsVal, List.foldl_cons]
    have hzero : 0 * base + (digitVal '0').getD 0 = 0 := by
      rw [Nat.zero_mul]
      rfl
    rw [hzero, digitsVal]

/-- A numeral with leading zeros converts to its number. -/
theorem int_toDigits {b n : Nat} (hone : 1 < b) (hbase : b ≤ 16) (k : Nat)
    (hlen : b = 10 → k + (Nat.toDigits b n).length ≤ maxStrDigits) :
    int b (List.replicate k '0' ++ Nat.toDigits b n) = .ok n := by
  rw [int_digits, digitsVal_zeros, digitsVal_toDigits hone hbase]
  · simp [Nat.toDigits_ne_nil]
  · rw [List.all_eq_true]
    intro c hc
    rcases List.mem_append.mp hc with hc | hc
    · rw [List.eq_of_mem_replicate hc]
      simpa [isDigitOf, digitVal] using (by omega : 0 < b)
    · exact isDigitOf_of_mem_toDigits hone hbase hc
  · simpa using hlen

theorem isSpace_of_isDigit {c : Char} (hc : c.isDigit = true) : isSpace c = false := by
  have hrange : '0' ≤ c ∧ c ≤ '9' := by
    simpa [Char.isDigit, Char.le_def] using hc
  have hlow : '0'.toNat ≤ c.toNat := hrange.1
  have hhigh : c.toNat ≤ '9'.toNat := hrange.2
  have h0 : '0'.toNat = 48 := rfl
  have h9 : '9'.toNat = 57 := rfl
  simp only [isSpace, List.mem_cons, List.not_mem_nil, or_false, decide_eq_false_iff_not]
  omega

end Numerals

/-- `bytes.fromhex(s)`: pairs of digits, with ASCII blanks allowed between them. -/
def fromhex : Text → Except PyError Bytes
  | [] => .ok []
  | [c] => if c.toNat ∈ [0x09, 0x0a, 0x0b, 0x0c, 0x0d, 0x20] then .ok [] else .error .valueError
  | c :: d :: s =>
    if c.toNat ∈ [0x09, 0x0a, 0x0b, 0x0c, 0x0d, 0x20] then fromhex (d :: s)
    else match digitVal c, digitVal d with
      | some hi, some lo => (fromhex s).map (UInt8.ofNat (16 * hi + lo) :: ·)
      | _, _ => .error .valueError

/-- Bytes are read back from their digits. -/
theorem fromhex_hex (bs : Bytes) : fromhex bs.hex = .ok bs := by
  have hdigit : ∀ n < 16, digitVal (Nat.digitChar n) = some n ∧
      (Nat.digitChar n).toNat ∉ [0x09, 0x0a, 0x0b, 0x0c, 0x0d, 0x20] := by
    decide
  induction bs with
  | nil => rfl
  | cons b bs ih =>
    have hb := b.toNat_lt
    obtain ⟨hhi, hblank⟩ := hdigit (b.toNat / 16) (by omega)
    obtain ⟨hlo, _⟩ := hdigit (b.toNat % 16) (by omega)
    have hval : 16 * (b.toNat / 16) + b.toNat % 16 = b.toNat := by omega
    rw [Bytes.hex_cons, fromhex, if_neg hblank, hhi, hlo, ih]
    simp only [hval, Except.map, UInt8.ofNat_toNat]

/-- `str(n)`. -/
def str (n : Int) : Text := (toString n).toList

/-- A numeral is its digits, behind a minus sign for a negative number. -/
theorem str_eq (n : Int) :
    str n = if 0 ≤ n then Nat.toDigits 10 n.toNat else '-' :: Nat.toDigits 10 (-n).toNat := by
  have hrepr : str n = n.repr.toList := rfl
  rw [hrepr, Int.repr_eq_if]
  split
  · exact Nat.toList_repr
  · simp [Nat.toList_repr]

/-- `f"{n:08x}"`: the sign counts in the width. -/
def hex32 (n : Int) : Text :=
  let digits := Nat.toDigits 16 n.natAbs
  let sign := if n < 0 then ['-'] else []
  sign ++ List.replicate (8 - sign.length - digits.length) '0' ++ digits

/-- `s.lower()` on Latin-1. -/
def lower (s : Text) : Text :=
  s.map fun c =>
    if 65 ≤ c.toNat ∧ c.toNat ≤ 90 ∨ 192 ≤ c.toNat ∧ c.toNat ≤ 222 ∧ c.toNat ≠ 215 then
      Char.ofNat (c.toNat + 32)
    else c

/-- `bs.decode("ascii", errors="replace")`. -/
def decodeAscii (bs : Bytes) : Text :=
  bs.map fun b => if b.toNat < 128 then Char.ofNat b.toNat else Char.ofNat 0xfffd

/-- The position of `xs[i]` in a list of `n` values: negative indices count from the end. -/
def index (n : Nat) (i : Int) : Except PyError (Fin n) :=
  if h : 0 ≤ i ∧ i < n then .ok ⟨i.toNat, by omega⟩
  else if h : -n ≤ i ∧ i < 0 then .ok ⟨(i + n).toNat, by omega⟩
  else .error .indexError

/-- Python refuses to write a number of more than 4300 decimal digits. -/
def writable (n : Int) : Bool := (Nat.toDigits 10 n.natAbs).length ≤ maxStrDigits

end Py

end AmigaDevbench
