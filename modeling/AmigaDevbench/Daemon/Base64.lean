import AmigaDevbench.Core.Bytes

/-!
# Base64 on the daemon

Three bytes are four characters of six bits each. The decoder takes any text: it collects the bits
of the characters it knows and writes a byte whenever there are eight.
-/

namespace AmigaDevbench.Daemon

/-- `b64_alphabet`. -/
def b64Alphabet : Text :=
  "ABCDEFGHIJKLMNOPQRSTUVWXYZabcdefghijklmnopqrstuvwxyz0123456789+/".toList

/-- `b64_alphabet[(n >> shift) & 63]`. -/
def b64Char (n shift : Nat) : Char := b64Alphabet.getD ((n >>> shift) &&& 63) '='

/-- `b64_encode`. -/
def b64Encode : Bytes → Text
  | a :: b :: c :: data =>
    let n := (a.toNat <<< 16) ||| (b.toNat <<< 8) ||| c.toNat
    b64Char n 18 :: b64Char n 12 :: b64Char n 6 :: b64Char n 0 :: b64Encode data
  | [a] =>
    let n := a.toNat <<< 16
    [b64Char n 18, b64Char n 12, '=', '=']
  | [a, b] =>
    let n := (a.toNat <<< 16) ||| (b.toNat <<< 8)
    [b64Char n 18, b64Char n 12, b64Char n 6, '=']
  | [] => []

/-- `v`, or nothing where the loop goes on with the next character. -/
def b64Value (ch : Char) : Option Nat :=
  let c := ch.toNat
  if 65 ≤ c ∧ c ≤ 90 then some (c - 65)
  else if 97 ≤ c ∧ c ≤ 122 then some (c - 97 + 26)
  else if 48 ≤ c ∧ c ≤ 57 then some (c - 48 + 52)
  else if c = 43 then some 62
  else if c = 47 then some 63
  else none

/-- The loop of `b64_decode`, with `acc` and `bits`. -/
def b64Loop : Nat → Nat → Text → Bytes
  | _, _, [] => []
  | acc, bits, c :: text =>
    match b64Value c with
    | none => b64Loop acc bits text
    | some v =>
      let acc := ((acc <<< 6) ||| v) % 2 ^ 32
      if 8 ≤ bits + 6 then
        UInt8.ofNat ((acc >>> (bits + 6 - 8)) &&& 0xFF) :: b64Loop acc (bits + 6 - 8) text
      else b64Loop acc (bits + 6) text

/-- `b64_decode`. -/
def b64Decode (text : Text) : Bytes := b64Loop 0 0 text

/-! ### The bits -/

theorem shiftLeft_or {a b i : Nat} (h : b < 2 ^ i) : a <<< i ||| b = a * 2 ^ i + b := by
  rw [← Nat.shiftLeft_add_eq_or_of_lt h, Nat.shiftLeft_eq]

theorem b64Value_lt {c : Char} {v : Nat} (h : b64Value c = some v) : v < 64 := by
  simp only [b64Value] at h
  split_ifs at h <;> cases h <;> omega

/-- A character is read back. -/
theorem b64Value_getD : ∀ v < 64, b64Value (b64Alphabet.getD v '=') = some v := by
  decide +kernel

theorem b64Value_b64Char (n shift : Nat) :
    b64Value (b64Char n shift) = some (n / 2 ^ shift % 64) := by
  have hmask : n >>> shift &&& 63 = n / 2 ^ shift % 64 := by
    rw [Nat.shiftRight_eq_div_pow]
    exact Nat.and_two_pow_sub_one_eq_mod (n / 2 ^ shift) 6
  rw [b64Char, hmask]
  exact b64Value_getD _ (Nat.mod_lt _ (by omega))

/-- The numbers of the three groups that are encoded. -/
theorem three_bytes (a b c : UInt8) : (a.toNat <<< 16) ||| (b.toNat <<< 8) ||| c.toNat =
    a.toNat * 65536 + b.toNat * 256 + c.toNat := by
  have ha := a.toNat_lt
  have hb := b.toNat_lt
  have hc := c.toNat_lt
  rw [Nat.or_assoc, shiftLeft_or (b := c.toNat) (i := 8) hc, shiftLeft_or (by omega)]
  omega

theorem two_bytes (a b : UInt8) : (a.toNat <<< 16) ||| (b.toNat <<< 8) =
    a.toNat * 65536 + b.toNat * 256 := by
  have hb := b.toNat_lt
  have h := three_bytes a b 0
  have hzero : (0 : UInt8).toNat = 0 := rfl
  rwa [hzero, Nat.or_zero, Nat.add_zero] at h

/-- One character that counts. -/
theorem b64Loop_cons {c : Char} {v : Nat} (h : b64Value c = some v) (acc bits : Nat)
    (text : Text) : b64Loop acc bits (c :: text) =
      if 8 ≤ bits + 6 then
        UInt8.ofNat ((acc * 64 + v) % 2 ^ 32 / 2 ^ (bits + 6 - 8) % 256) ::
          b64Loop ((acc * 64 + v) % 2 ^ 32) (bits + 6 - 8) text
      else b64Loop ((acc * 64 + v) % 2 ^ 32) (bits + 6) text := by
  have hacc : (acc <<< 6 ||| v) = acc * 64 + v := shiftLeft_or (i := 6) (b64Value_lt h)
  have hmask (n : Nat) : n &&& 0xFF = n % 256 := Nat.and_two_pow_sub_one_eq_mod n 8
  rw [b64Loop, h]
  simp only [hacc, hmask, Nat.shiftRight_eq_div_pow]

theorem b64Loop_pad (acc bits : Nat) (text : Text) :
    b64Loop acc bits ('=' :: text) = b64Loop acc bits text := by
  have hpad : b64Value '=' = none := by decide
  rw [b64Loop, hpad]

section Group

variable {acc : Nat} {x y z w : Char} {i j k l : Nat}

/-- Two characters at the beginning of a group are a byte. -/
theorem b64Loop_two (acc : Nat) (hx : b64Value x = some i) (hy : b64Value y = some j) (text : Text) :
    ∃ acc', acc' % 2 ^ 12 = i * 64 + j ∧ b64Loop acc 0 (x :: y :: text) =
      UInt8.ofNat (i * 4 + j / 16) :: b64Loop acc' 4 text := by
  have hi := b64Value_lt hx
  have hj := b64Value_lt hy
  refine ⟨(((acc * 64 + i) % 2 ^ 32) * 64 + j) % 2 ^ 32, by omega, ?_⟩
  rw [b64Loop_cons hx, if_neg (by omega), b64Loop_cons hy, if_pos (by omega)]
  have hbyte : (((acc * 64 + i) % 2 ^ 32) * 64 + j) % 2 ^ 32 / 2 ^ (0 + 6 + 6 - 8) % 256 =
      i * 4 + j / 16 := by omega
  rw [hbyte]

/-- The third character has the next byte. -/
theorem b64Loop_third (hacc : acc % 2 ^ 12 = i * 64 + j) (hz : b64Value z = some k)
    (text : Text) : ∃ acc', acc' % 2 ^ 8 = j % 4 * 64 + k ∧ b64Loop acc 4 (z :: text) =
      UInt8.ofNat (j % 16 * 16 + k / 4) :: b64Loop acc' 2 text := by
  have hk := b64Value_lt hz
  refine ⟨(acc * 64 + k) % 2 ^ 32, by omega, ?_⟩
  rw [b64Loop_cons hz, if_pos (by omega)]
  have hbyte : (acc * 64 + k) % 2 ^ 32 / 2 ^ (4 + 6 - 8) % 256 = j % 16 * 16 + k / 4 := by omega
  rw [hbyte]

/-- The fourth character has the last byte, and nothing is left over. -/
theorem b64Loop_fourth (hacc : acc % 2 ^ 8 = j % 4 * 64 + k)
    (hw : b64Value w = some l) (text : Text) : ∃ acc', b64Loop acc 2 (w :: text) =
      UInt8.ofNat (k % 4 * 64 + l) :: b64Loop acc' 0 text := by
  have hl := b64Value_lt hw
  refine ⟨(acc * 64 + l) % 2 ^ 32, ?_⟩
  rw [b64Loop_cons hw, if_pos (by omega)]
  have hbyte : (acc * 64 + l) % 2 ^ 32 / 2 ^ (2 + 6 - 8) % 256 = k % 4 * 64 + l := by omega
  rw [hbyte]

end Group

theorem ofNat_eq_toNat {n : Nat} {b : UInt8} (h : n = b.toNat) : UInt8.ofNat n = b := by
  rw [h, UInt8.ofNat_toNat]

/-- What was encoded is decoded, whatever is left over from before. -/
theorem b64Loop_b64Encode (data : Bytes) : ∀ acc, b64Loop acc 0 (b64Encode data) = data := by
  fun_induction b64Encode data with
  | case1 a b c data n ih =>
    intro acc
    have ha := a.toNat_lt
    have hb := b.toNat_lt
    have hc := c.toNat_lt
    have hn : n = a.toNat * 65536 + b.toNat * 256 + c.toNat := three_bytes a b c
    obtain ⟨acc₁, h₁, hloop₁⟩ := b64Loop_two acc (b64Value_b64Char n 18)
      (b64Value_b64Char n 12) (b64Char n 6 :: b64Char n 0 :: b64Encode data)
    obtain ⟨acc₂, h₂, hloop₂⟩ := b64Loop_third h₁ (b64Value_b64Char n 6)
      (b64Char n 0 :: b64Encode data)
    obtain ⟨acc₃, hloop₃⟩ := b64Loop_fourth h₂ (b64Value_b64Char n 0) (b64Encode data)
    rw [hloop₁, hloop₂, hloop₃, ih, ofNat_eq_toNat (b := a) (by omega),
      ofNat_eq_toNat (b := b) (by omega), ofNat_eq_toNat (b := c) (by omega)]
  | case2 a n =>
    intro acc
    have ha := a.toNat_lt
    have hn : n = a.toNat * 65536 := Nat.shiftLeft_eq a.toNat 16
    obtain ⟨acc₁, -, hloop₁⟩ := b64Loop_two acc (b64Value_b64Char n 18)
      (b64Value_b64Char n 12) ['=', '=']
    rw [hloop₁, b64Loop_pad, b64Loop_pad, b64Loop, ofNat_eq_toNat (b := a) (by omega)]
  | case3 a b n =>
    intro acc
    have ha := a.toNat_lt
    have hb := b.toNat_lt
    have hn : n = a.toNat * 65536 + b.toNat * 256 := two_bytes a b
    obtain ⟨acc₁, h₁, hloop₁⟩ := b64Loop_two acc (b64Value_b64Char n 18)
      (b64Value_b64Char n 12) [b64Char n 6, '=']
    obtain ⟨acc₂, -, hloop₂⟩ := b64Loop_third h₁ (b64Value_b64Char n 6) ['=']
    rw [hloop₁, hloop₂, b64Loop_pad, b64Loop, ofNat_eq_toNat (b := a) (by omega),
      ofNat_eq_toNat (b := b) (by omega)]
  | case4 => exact fun acc => rfl

/-! ### Lengths and characters -/

theorem length_b64Encode (data : Bytes) :
    (b64Encode data).length = 4 * ((data.length + 2) / 3) := by
  fun_induction b64Encode data with
  | case1 a b c data n ih =>
    simp only [List.length_cons, ih]
    omega
  | case2 a n => simp
  | case3 a b n => simp
  | case4 => rfl

/-- The characters of encoded data. -/
def B64Safe (c : Char) : Prop := c ∈ b64Alphabet ∨ c = '='

theorem safe_b64Char (n shift : Nat) : B64Safe (b64Char n shift) := by
  rw [b64Char, List.getD_eq_getElem?_getD]
  cases h : b64Alphabet[n >>> shift &&& 63]? with
  | none => exact .inr rfl
  | some c => exact .inl (List.mem_of_getElem? h)

theorem safe_b64Encode (data : Bytes) : ∀ c ∈ b64Encode data, B64Safe c := by
  have hpad : B64Safe '=' := .inr rfl
  fun_induction b64Encode data with
  | case1 a b c data n ih =>
    simp only [List.forall_mem_cons, safe_b64Char, true_and]
    exact ih
  | case2 a n => simp [safe_b64Char, hpad]
  | case3 a b n => simp [safe_b64Char, hpad]
  | case4 => exact fun c hc => by cases hc

theorem not_safe : ¬ B64Safe '|' ∧ ¬ B64Safe '\n' := by
  constructor
  · rintro (h | h)
    · exact absurd h (by decide)
    · cases h
  · rintro (h | h)
    · exact absurd h (by decide)
    · cases h

/-- How many characters of a text count. -/
def b64Count (text : Text) : Nat := text.countP fun c => (b64Value c).isSome

/-- All bits are written but the last ones, fewer than eight. -/
theorem length_b64Loop (text : Text) : ∀ {acc bits : Nat}, bits < 8 →
    (b64Loop acc bits text).length = (6 * b64Count text + bits) / 8 := by
  induction text with
  | nil =>
    intro acc bits hbits
    rw [b64Loop, b64Count, List.countP_nil, List.length_nil]
    omega
  | cons c text ih =>
    intro acc bits hbits
    cases hv : b64Value c with
    | none =>
      have hcount : b64Count (c :: text) = b64Count text :=
        List.countP_cons_of_neg (by simp [hv])
      rw [b64Loop, hv, hcount]
      exact ih hbits
    | some v =>
      have hcount : b64Count (c :: text) = b64Count text + 1 :=
        List.countP_cons_of_pos (by simp [hv])
      rw [b64Loop_cons hv, hcount]
      split
      · rw [List.length_cons, ih (by omega)]
        omega
      · rw [ih (by omega)]
        omega

theorem length_b64Decode (text : Text) : (b64Decode text).length = 3 * b64Count text / 4 := by
  rw [b64Decode, length_b64Loop text (by omega)]
  omega

/-- Data comes back from its encoding, which has four characters for three bytes, or a part of
them, and neither a bar nor a newline. Of any text the decoder writes no more than three bytes for
four characters exactly if at most one character that counts is left over from the fours. -/
theorem base64_codec (data : Bytes) (text : Text) :
    (b64Decode (b64Encode data) = data ∧
      (b64Encode data).length = 4 * ((data.length + 2) / 3) ∧
      '|' ∉ b64Encode data ∧ '\n' ∉ b64Encode data) ∧
    ((b64Decode text).length ≤ text.length / 4 * 3 ↔
      b64Count text ≤ 4 * (text.length / 4) + 1) := by
  refine ⟨⟨b64Loop_b64Encode data 0, length_b64Encode data, fun h => ?_, fun h => ?_⟩, ?_⟩
  · exact not_safe.1 (safe_b64Encode data '|' h)
  · exact not_safe.2 (safe_b64Encode data '\n' h)
  · rw [length_b64Decode]
    omega

/-- Two characters are one byte. -/
theorem b64Decode_two : ¬ ∀ text : Text,
    (b64Decode text).length ≤ text.length / 4 * 3 := by
  intro h
  exact absurd (h ['A', 'A']) (by decide)

end AmigaDevbench.Daemon
