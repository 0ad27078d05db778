import AmigaDevbench.Core.Text

/-!
# Numbers in C strings

`strtoul` and `strtol` of the C library with a base of ten or sixteen and 32-bit results: they
skip blanks, read a sign and, for base sixteen, a `0x`, and stop at the first character that
is no digit. Results out of range are saturated. What they read of a field does not depend on
what stands behind the separator.
-/

namespace AmigaDevbench.CNumber

/-- `isspace` in the C locale. -/
def isSpace (c : Char) : Bool := c.toNat ∈ [0x09, 0x0a, 0x0b, 0x0c, 0x0d, 0x20]

/-- The value of a digit. -/
def digit? (base : Nat) (c : Char) : Option Nat :=
  let value :=
    if '0' ≤ c ∧ c ≤ '9' then c.toNat - '0'.toNat
    else if 'a' ≤ c ∧ c ≤ 'f' then c.toNat - 'a'.toNat + 10
    else if 'A' ≤ c ∧ c ≤ 'F' then c.toNat - 'A'.toNat + 10
    else base
  if value < base then some value else none

def isDigit (base : Nat) (c : Char) : Bool := (digit? base c).isSome

/-- The value of the digits in front. -/
def magnitude (base : Nat) (s : Text) : Nat :=
  (s.takeWhile (isDigit base)).foldl (fun n c => n * base + (digit? base c).getD 0) 0

/-- The sign in front and what follows it. -/
def splitSign : Text → Bool × Text
  | '-' :: s => (true, s)
  | '+' :: s => (false, s)
  | s => (false, s)

/-- Base sixteen allows `0x`. -/
def dropBasePrefix (base : Nat) : Text → Text
  | '0' :: 'x' :: s => if base = 16 then s else '0' :: 'x' :: s
  | '0' :: 'X' :: s => if base = 16 then s else '0' :: 'X' :: s
  | s => s

/-- The sign and the text from the first digit on. -/
def scan (base : Nat) (s : Text) : Bool × Text :=
  let signed := splitSign (s.dropWhile isSpace)
  (signed.1, dropBasePrefix base signed.2)

/-- `strtoul(s, NULL, base)` with 32 bits: a sign negates modulo the range. -/
def strtoul (base : Nat) (s : Text) : Nat :=
  let n := magnitude base (scan base s).2
  if 2 ^ 32 ≤ n then 2 ^ 32 - 1 else if (scan base s).1 then (2 ^ 32 - n) % 2 ^ 32 else n

theorem strtoul_lt (base : Nat) (s : Text) : strtoul base s < 2 ^ 32 := by
  rw [strtoul]
  split
  · omega
  · split <;> omega

/-- `strtol(s, NULL, 10)` with 32 bits. -/
def strtol (s : Text) : Int :=
  let n : Int := magnitude 10 (scan 10 s).2
  if (scan 10 s).1 then max (-n) (-2 ^ 31) else min n (2 ^ 31 - 1)

/-- What `strtol` leaves unread; all of it when there is no number. -/
def strtolRest (s : Text) : Text :=
  if ((scan 10 s).2.takeWhile (isDigit 10)).isEmpty then s
  else (scan 10 s).2.dropWhile (isDigit 10)

/-- A conversion to a signed type of `bits` bits. -/
def toSigned (bits : Nat) (n : Int) : Int := (n + 2 ^ (bits - 1)) % 2 ^ bits - 2 ^ (bits - 1)

theorem toSigned_eq_self {bits : Nat} {n : Int} (hbits : 0 < bits)
    (hlow : -2 ^ (bits - 1) ≤ n) (hhigh : n < 2 ^ (bits - 1)) : toSigned bits n = n := by
  obtain ⟨k, rfl⟩ : ∃ k, bits = k + 1 := ⟨bits - 1, by omega⟩
  have hpow : (2 : Int) ^ (k + 1) = 2 * 2 ^ k := by rw [Int.pow_succ, Int.mul_comm]
  simp only [Nat.add_sub_cancel] at hlow hhigh
  unfold toSigned
  rw [Nat.add_sub_cancel, hpow, Int.emod_eq_of_lt (by omega) (by omega)]
  omega

/-- The separator of the fields ends every part of a number. -/
theorem isDigit_bar {base : Nat} (h : base = 10 ∨ base = 16) : isDigit base '|' = false := by
  rcases h with rfl | rfl <;> decide

theorem splitSign_append_bar (s t : Text) :
    splitSign (s ++ '|' :: t) = ((splitSign s).1, (splitSign s).2 ++ '|' :: t) := by
  cases s with
  | nil => rfl
  | cons c s =>
    by_cases hminus : c = '-'
    · subst hminus
      rfl
    · by_cases hplus : c = '+'
      · subst hplus
        rfl
      · have hself : ∀ u : Text, splitSign (c :: u) = (false, c :: u) := by
          intro u
          unfold splitSign
          split
          · next h => exact absurd (List.cons.inj h).1 hminus
          · next h => exact absurd (List.cons.inj h).1 hplus
          · rfl
        rw [List.cons_append, hself, hself]
        rfl

/-- Behind a base prefix or not, the digits are those of the field alone. -/
theorem magnitude_append_bar {base : Nat} (hbase : base = 10 ∨ base = 16) (s t : Text) :
    magnitude base (s ++ '|' :: t) = magnitude base s := by
  rw [magnitude, Text.takeWhile_append_stop (isDigit_bar hbase), magnitude]

theorem dropBasePrefix_append_bar (base : Nat) (s t : Text) :
    dropBasePrefix base (s ++ '|' :: t) = dropBasePrefix base s ++ '|' :: t := by
  have hself : ∀ u : Text, (∀ v, u ≠ '0' :: 'x' :: v) → (∀ v, u ≠ '0' :: 'X' :: v) →
      dropBasePrefix base u = u := by
    intro u hx hX
    unfold dropBasePrefix
    split
    · next v => exact absurd rfl (hx v)
    · next v => exact absurd rfl (hX v)
    · rfl
  rcases s with _ | ⟨a, _ | ⟨b, s⟩⟩
  · rw [hself, hself] <;> simp
  · rw [hself, hself] <;> simp
  · by_cases ha : a = '0'
    · subst ha
      by_cases hx : b = 'x'
      · subst hx
        simp only [dropBasePrefix, List.cons_append]
        split <;> rfl
      · by_cases hX : b = 'X'
        · subst hX
          simp only [dropBasePrefix, List.cons_append]
          split <;> rfl
        · rw [hself, hself] <;> simp [hx, hX]
    · rw [hself, hself] <;> simp [ha]

theorem scan_append_bar (base : Nat) (s t : Text) :
    scan base (s ++ '|' :: t) = ((scan base s).1, (scan base s).2 ++ '|' :: t) := by
  have hspace : isSpace '|' = false := by decide
  simp only [scan, Text.dropWhile_append_stop hspace, splitSign_append_bar, dropBasePrefix_append_bar]

theorem strtoul_append_bar {base : Nat} (hbase : base = 10 ∨ base = 16) (s t : Text) :
    strtoul base (s ++ '|' :: t) = strtoul base s := by
  simp only [strtoul, scan_append_bar, magnitude_append_bar hbase]

theorem strtol_append_bar (s t : Text) : strtol (s ++ '|' :: t) = strtol s := by
  simp only [strtol, scan_append_bar, magnitude_append_bar (Or.inl rfl)]

theorem strtolRest_append_bar {s : Text} (t : Text) (h : strtolRest s = []) (hs : s ≠ []) :
    strtolRest (s ++ '|' :: t) = '|' :: t := by
  have hbar := isDigit_bar (Or.inl (rfl : 10 = 10))
  unfold strtolRest at h ⊢
  rw [scan_append_bar]
  simp only [Text.takeWhile_append_stop hbar, Text.dropWhile_append_stop hbar]
  split at h
  · exact absurd h hs
  · next hdigits => rw [if_neg hdigits, h, List.nil_append]

/-- A decimal digit has its value. -/
theorem digit?_of_isDigit {c : Char} (hc : c.isDigit = true) :
    digit? 10 c = some (c.toNat - '0'.toNat) := by
  have hrange : '0' ≤ c ∧ c ≤ '9' := by
    simpa [Char.isDigit, Char.le_def] using hc
  have hhigh : c.toNat ≤ '9'.toNat := hrange.2
  have hlt : c.toNat - '0'.toNat < 10 := by
    have h9 : '9'.toNat = 57 := rfl
    have h0 : '0'.toNat = 48 := rfl
    omega
  simp only [digit?, hrange, and_self, if_true, hlt]

theorem isDigit_of_mem_toDigits {n : Nat} {c : Char} (hc : c ∈ Nat.toDigits 10 n) :
    c.isDigit = true := Nat.isDigit_of_mem_toDigits (by omega) (by omega) hc

/-- A decimal numeral consists of digits. -/
theorem takeWhile_toDigits (n : Nat) :
    (Nat.toDigits 10 n).takeWhile (isDigit 10) = Nat.toDigits 10 n := by
  rw [List.takeWhile_eq_self_iff]
  intro c hc
  simp only [isDigit, digit?_of_isDigit (isDigit_of_mem_toDigits hc), Option.isSome_some]

theorem dropWhile_toDigits (n : Nat) : (Nat.toDigits 10 n).dropWhile (isDigit 10) = [] := by
  rw [List.dropWhile_eq_nil_iff]
  intro c hc
  simp only [isDigit, digit?_of_isDigit (isDigit_of_mem_toDigits hc), Option.isSome_some]

/-- The digits of a decimal numeral, read back. -/
theorem magnitude_toDigits (n : Nat) : magnitude 10 (Nat.toDigits 10 n) = n := by
  have hfold : ∀ (cs : Text) (m : Nat), (∀ c ∈ cs, c.isDigit = true) →
      cs.foldl (fun n c => n * 10 + (digit? 10 c).getD 0) m = Nat.ofDigitChars 10 cs m := by
    intro cs
    induction cs with
    | nil => intro m _; rfl
    | cons c cs ih =>
      intro m hcs
      rw [List.foldl_cons, ih _ fun d hd => hcs d (List.mem_cons_of_mem c hd),
        Nat.ofDigitChars_cons, digit?_of_isDigit (hcs c List.mem_cons_self), Option.getD_some,
        Nat.mul_comm]
  rw [magnitude, takeWhile_toDigits, hfold _ 0 fun c hc => isDigit_of_mem_toDigits hc,
    Nat.ofDigitChars_ten_toDigits]

theorem dropBasePrefix_ten (s : Text) : dropBasePrefix 10 s = s := by
  unfold dropBasePrefix
  split <;> rfl

/-- A decimal numeral has neither blanks nor a sign in front. -/
theorem scan_toDigits (n : Nat) :
    scan 10 (Nat.toDigits 10 n) = (false, Nat.toDigits 10 n) ∧
      scan 10 ('-' :: Nat.toDigits 10 n) = (true, Nat.toDigits 10 n) := by
  obtain ⟨c, cs, hcs⟩ := List.exists_cons_of_ne_nil (Nat.toDigits_ne_nil (n := n) (b := 10))
  have hdigit : c.isDigit = true := isDigit_of_mem_toDigits (n := n) (by simp [hcs])
  have hspace : isSpace c = false := by
    have hrange : '0'.toNat ≤ c.toNat := (by simpa [Char.isDigit, Char.le_def] using hdigit :
      '0' ≤ c ∧ c ≤ '9').1
    have h0 : '0'.toNat = 48 := rfl
    simp only [isSpace, List.mem_cons, List.not_mem_nil, or_false, decide_eq_false_iff_not]
    omega
  have hminus : c ≠ '-' := by
    rintro rfl
    exact absurd hdigit (by decide)
  have hplus : c ≠ '+' := by
    rintro rfl
    exact absurd hdigit (by decide)
  have hsign : splitSign (c :: cs) = (false, c :: cs) := by
    unfold splitSign
    split
    · next h => exact absurd (List.cons.inj h).1 hminus
    · next h => exact absurd (List.cons.inj h).1 hplus
    · rfl
  have hblank : isSpace '-' = false := by decide
  constructor
  · simp only [scan, hcs, List.dropWhile_cons, hspace, Bool.false_eq_true, if_false, hsign,
      dropBasePrefix_ten]
  · simp only [scan, hcs, List.dropWhile_cons, hblank, Bool.false_eq_true, if_false, splitSign,
      dropBasePrefix_ten]

/-- A number of 32 bits is read back from its numeral. -/
theorem strtoul_toDigits {n : Nat} (h : n < 2 ^ 32) : strtoul 10 (Nat.toDigits 10 n) = n := by
  have hlt : ¬ 2 ^ 32 ≤ n := by omega
  simp only [strtoul, (scan_toDigits n).1, magnitude_toDigits, hlt, if_false, Bool.false_eq_true]

theorem strtol_toDigits {n : Nat} (h : n < 2 ^ 31) : strtol (Nat.toDigits 10 n) = n := by
  simp only [strtol, (scan_toDigits n).1, magnitude_toDigits, Bool.false_eq_true, if_false]
  omega

theorem strtol_neg_toDigits {n : Nat} (h : n ≤ 2 ^ 31) :
    strtol ('-' :: Nat.toDigits 10 n) = -(n : Int) := by
  simp only [strtol, (scan_toDigits n).2, magnitude_toDigits, if_true]
  omega

/-- A numeral, with a sign or without, is read to its end. -/
theorem strtolRest_toDigits (n : Nat) :
    strtolRest (Nat.toDigits 10 n) = [] ∧ strtolRest ('-' :: Nat.toDigits 10 n) = [] := by
  have hne : (Nat.toDigits 10 n).isEmpty = false := by
    simp
  constructor
  · simp only [strtolRest, (scan_toDigits n).1, takeWhile_toDigits, dropWhile_toDigits, hne,
      Bool.false_eq_true, if_false]
  · simp only [strtolRest, (scan_toDigits n).2, takeWhile_toDigits, dropWhile_toDigits, hne,
      Bool.false_eq_true, if_false]

end AmigaDevbench.CNumber
