import AmigaDevbench.Core.Returns
import AmigaDevbench.Host.Winuae.Debugger

/-!
# The quoting of RSP packets

A character of a reply stands for itself, is escaped behind a `}`, or is followed by a `*` and a
count that repeats it. `decode_packet` expands what any such writing of a text says.
-/

namespace AmigaDevbench.Winuae

/-- An exception: `DebugError`, or one of Python's own. -/
inductive Raised where
  | debugError (e : DebugError)
  | python (e : PyError)
  deriving DecidableEq

namespace Rsp

def raise {α : Type} (message : String) : Except Raised α := .error (.debugError ⟨message⟩)

/-- `data[i]`. -/
def byteAt (data : Bytes) (i : Nat) : Except Raised UInt8 :=
  match data[i]? with
  | some b => .ok b
  | none => .error (.python .indexError)

/-- The turn of the loop in `decode_packet` at `i`, up to the check of the length: the new index
and the new `result`. -/
def turn (data : Bytes) (i : Nat) (result : Bytes) : Except Raised (Nat × Bytes) := do
  let ch ← byteAt data i
  if ch = 125 then
    if i + 1 = data.length then raise "Truncated RSP escape"
    else do
      let b ← byteAt data (i + 1)
      return (i + 2, result ++ [b ^^^ 32])
  else if ch = 42 then
    match result.getLast? with
    | none => raise "Invalid RSP repeat"
    | some last =>
      if i + 1 = data.length then raise "Invalid RSP repeat"
      else do
        let n ← byteAt data (i + 1)
        if 32 ≤ n ∧ n ≤ 126 then
          return (i + 2, result ++ List.replicate (n.toNat - 29) last)
        else raise "Invalid RSP repeat"
  else return (i + 1, result ++ [ch])

/-- The loop of `decode_packet`, which ends after as many turns as there are bytes left. -/
def expand (data : Bytes) : Nat → Nat → Bytes → Except Raised Bytes
  | 0, _, result => .ok result
  | turns + 1, i, result =>
    if i < data.length then do
      let (i, result) ← turn data i result
      if 65536 < result.length then raise "RSP response too large"
      else expand data turns i result
    else .ok result

/-- What the `ascii` codec decodes. -/
def Ascii (bytes : Bytes) : Prop := ∀ b ∈ bytes, b < 128

instance decidableAscii (bytes : Bytes) : Decidable (Ascii bytes) :=
  List.decidableBAll (fun b => b < 128) bytes

/-- `decode_packet`. `UnicodeDecodeError` is a `ValueError`. -/
def decodePacket (data : Bytes) : Except Raised Text := do
  let result ← expand data data.length 0 []
  if Ascii result then .ok result.latin1 else .error (.python .valueError)

/-! ### Writings of a text -/

/-- `Encodes data payload`: the data are a writing of the payload. -/
inductive Encodes : Bytes → Bytes → Prop where
  | nil : Encodes [] []
  | plain {data payload : Bytes} {b : UInt8} (h : Encodes data payload) (hescape : b ≠ 125)
      (hrepeat : b ≠ 42) : Encodes (data ++ [b]) (payload ++ [b])
  /-- The byte behind a `}` has bit 5 inverted. -/
  | escaped {data payload : Bytes} {b : UInt8} (h : Encodes data payload) :
      Encodes (data ++ [125, b ^^^ 32]) (payload ++ [b])
  /-- A count is written as the character with 29 added to its code. -/
  | repeated {data payload : Bytes} {b n : UInt8} (h : Encodes data (payload ++ [b]))
      (hlow : 32 ≤ n) (hhigh : n ≤ 126) :
      Encodes (data ++ [42, n]) (payload ++ [b] ++ List.replicate (n.toNat - 29) b)

/-- An error of the protocol. -/
def IsDebugError (e : Raised) : Prop := ∃ error, e = .debugError error

variable {data : Bytes} {i : Nat} {result : Bytes}

theorem xor_32_xor_32 (b : UInt8) : b ^^^ 32 ^^^ 32 = b := by
  rw [UInt8.xor_assoc, UInt8.xor_self, UInt8.xor_zero]

theorem take_add_two {b c : UInt8} (hb : data[i]? = some b) (hc : data[i + 1]? = some c) :
    data.take (i + 2) = data.take i ++ [b, c] := by
  rw [List.take_add_one, List.take_add_one, hb, hc, List.append_assoc]
  rfl

/-- A turn goes on in the writing, or ends with an error of the protocol. -/
theorem turn_sound (hi : i < data.length) (h : Encodes (data.take i) result) :
    Ends (fun next => i < next.1 ∧ next.1 ≤ data.length ∧ Encodes (data.take next.1) next.2)
      IsDebugError (turn data i result) := by
  obtain ⟨ch, hch⟩ : ∃ ch, data[i]? = some ch := ⟨_, List.getElem?_eq_getElem hi⟩
  have hbyte : byteAt data i = .ok ch := by rw [byteAt, hch]
  rw [turn, hbyte, ok_bind]
  by_cases hescape : ch = 125
  · rw [if_pos hescape]
    by_cases hend : i + 1 = data.length
    · rw [if_pos hend]
      exact ⟨_, rfl⟩
    · rw [if_neg hend]
      obtain ⟨b, hb⟩ : ∃ b, data[i + 1]? = some b :=
        ⟨_, List.getElem?_eq_getElem (by omega)⟩
      have hnext : byteAt data (i + 1) = .ok b := by rw [byteAt, hb]
      rw [hnext]
      refine ⟨by omega, by omega, ?_⟩
      rw [take_add_two hch hb, hescape]
      have hstep := h.escaped (b := b ^^^ 32)
      rwa [xor_32_xor_32] at hstep
  · rw [if_neg hescape]
    by_cases hrepeat : ch = 42
    · rw [if_pos hrepeat]
      rcases List.eq_nil_or_concat result with rfl | ⟨before, last, rfl⟩
      · exact ⟨_, rfl⟩
      · rw [List.concat_eq_append] at h ⊢
        rw [List.getLast?_concat]
        simp only
        by_cases hend : i + 1 = data.length
        · rw [if_pos hend]
          exact ⟨_, rfl⟩
        · rw [if_neg hend]
          obtain ⟨n, hn⟩ : ∃ n, data[i + 1]? = some n :=
            ⟨_, List.getElem?_eq_getElem (by omega)⟩
          have hnext : byteAt data (i + 1) = .ok n := by rw [byteAt, hn]
          rw [hnext]
          simp only [ok_bind]
          by_cases hcount : 32 ≤ n ∧ n ≤ 126
          · rw [if_pos hcount]
            refine ⟨by omega, by omega, ?_⟩
            rw [take_add_two hch hn, hrepeat]
            exact h.repeated hcount.1 hcount.2
          · rw [if_neg hcount]
            exact ⟨_, rfl⟩
    · rw [if_neg hrepeat]
      refine ⟨by omega, by omega, ?_⟩
      rw [List.take_add_one, hch]
      exact h.plain hescape hrepeat

/-- What the loop returns is what the data are a writing of. -/
theorem expand_sound (turns : Nat) : ∀ {i : Nat} {result : Bytes}, data.length ≤ i + turns →
    i ≤ data.length → Encodes (data.take i) result → result.length ≤ 65536 →
      Ends (fun out => Encodes data out ∧ out.length ≤ 65536) IsDebugError
        (expand data turns i result) := by
  induction turns with
  | zero =>
    intro i result hturns hi h hlength
    have heq : i = data.length := by omega
    rw [heq, List.take_length] at h
    exact ⟨h, hlength⟩
  | succ turns ih =>
    intro i result hturns hi h hlength
    rw [expand]
    by_cases hlt : i < data.length
    · rw [if_pos hlt]
      refine ends_bind (turn_sound hlt h) ?_
      rintro ⟨j, result'⟩ ⟨hij, hj, h'⟩
      simp only
      by_cases hlarge : 65536 < result'.length
      · rw [if_pos hlarge]
        exact ⟨_, rfl⟩
      · rw [if_neg hlarge]
        exact ih (by omega) hj h' (by omega)
    · rw [if_neg hlt]
      have heq : i = data.length := by omega
      rw [heq, List.take_length] at h
      exact ⟨h, hlength⟩

/-- One turn of the loop that stays within the limit. -/
theorem expand_turn {turns j : Nat} {result' : Bytes} (hi : i < data.length)
    (hturn : turn data i result = .ok (j, result')) (hlength : result'.length ≤ 65536) :
    expand data (turns + 1) i result = expand data turns j result' := by
  rw [expand, if_pos hi, hturn, ok_bind]
  exact if_neg (Nat.not_lt.mpr hlength)

theorem byteAt_append (before : Bytes) (b : UInt8) (rest : Bytes) :
    byteAt (before ++ b :: rest) before.length = .ok b := by
  rw [byteAt, List.getElem?_append_right (Nat.le_refl _), Nat.sub_self]
  rfl

theorem byteAt_append_succ (before : Bytes) (b c : UInt8) (rest : Bytes) :
    byteAt (before ++ b :: c :: rest) (before.length + 1) = .ok c := by
  have h := byteAt_append (before ++ [b]) c rest
  rwa [List.append_assoc, List.length_append] at h

/-- The loop reads a writing at the front of the data and has the text that it is a writing of. -/
theorem expand_encodes {front : Bytes} (h : Encodes front result) (hlength : result.length ≤ 65536)
    (rest : Bytes) : ∃ used ≤ front.length, ∀ turns,
      expand (front ++ rest) (used + turns) 0 [] =
        expand (front ++ rest) turns front.length result := by
  induction h generalizing rest with
  | nil => exact ⟨0, Nat.le_refl _, fun turns => by rw [Nat.zero_add]; rfl⟩
  | @plain front payload b h hescape hrepeat ih =>
    rw [List.length_append] at hlength
    obtain ⟨used, hused, heq⟩ := ih (by omega) (b :: rest)
    have hturn : turn (front ++ b :: rest) front.length payload =
        .ok (front.length + 1, payload ++ [b]) := by
      rw [turn, byteAt_append, ok_bind, if_neg hescape, if_neg hrepeat]
      rfl
    refine ⟨used + 1, by simpa using hused, fun turns => ?_⟩
    rw [List.append_assoc, List.singleton_append, Nat.add_assoc, Nat.add_comm 1, heq,
      expand_turn (by simp) hturn (by simpa using hlength), List.length_append]
    rfl
  | @escaped front payload b h ih =>
    rw [List.length_append] at hlength
    obtain ⟨used, hused, heq⟩ := ih (by omega) (125 :: (b ^^^ 32) :: rest)
    have hturn : turn (front ++ 125 :: (b ^^^ 32) :: rest) front.length payload =
        .ok (front.length + 2, payload ++ [b]) := by
      rw [turn, byteAt_append, ok_bind, if_pos rfl, if_neg (by simp),
        byteAt_append_succ, ok_bind, xor_32_xor_32]
      rfl
    refine ⟨used + 1, by simpa using Nat.le_succ_of_le hused, fun turns => ?_⟩
    rw [List.append_assoc, List.cons_append, List.cons_append, List.nil_append, Nat.add_assoc,
      Nat.add_comm 1, heq, expand_turn (by simp) hturn (by simpa using hlength), List.length_append]
    rfl
  | @repeated front payload b n h hlow hhigh ih =>
    rw [List.length_append] at hlength
    obtain ⟨used, hused, heq⟩ := ih (by omega) (42 :: n :: rest)
    have hturn : turn (front ++ 42 :: n :: rest) front.length (payload ++ [b]) =
        .ok (front.length + 2, payload ++ [b] ++ List.replicate (n.toNat - 29) b) := by
      rw [turn, byteAt_append, ok_bind, if_neg (by decide), if_pos rfl,
        List.getLast?_concat]
      simp only
      rw [if_neg (by simp), byteAt_append_succ, ok_bind, if_pos ⟨hlow, hhigh⟩]
      rfl
    refine ⟨used + 1, by simpa using Nat.le_succ_of_le hused, fun turns => ?_⟩
    rw [List.append_assoc, List.cons_append, List.cons_append, List.nil_append, Nat.add_assoc,
      Nat.add_comm 1, heq,
      expand_turn (by simp) hturn (by rw [List.length_append]; exact hlength), List.length_append]
    rfl

/-- A writing of a payload that is not too long is expanded to it. -/
theorem expand_eq_ok {payload : Bytes} (h : Encodes data payload)
    (hlength : payload.length ≤ 65536) : expand data data.length 0 [] = .ok payload := by
  obtain ⟨used, hused, heq⟩ := expand_encodes h hlength []
  rw [List.append_nil] at heq
  have hall := heq (data.length - used)
  rw [Nat.add_sub_cancel' hused] at hall
  rw [hall]
  cases data.length - used with
  | zero => rfl
  | succ turns => rw [expand, if_neg (Nat.lt_irrefl _)]

/-- Every writing of an ASCII payload of at most 65536 characters is decoded to the payload, and on
data that are no such writing the decoder raises `DebugError` or `ValueError`. -/
theorem decodePacket_exact (data : Bytes) :
    (∀ payload : Bytes, (∀ b ∈ payload, b < 128) → payload.length ≤ 65536 →
      Encodes data payload → decodePacket data = .ok payload.latin1) ∧
    ((∀ payload : Bytes, (∀ b ∈ payload, b < 128) → payload.length ≤ 65536 →
      ¬ Encodes data payload) →
        (∃ e, decodePacket data = .error (.debugError e)) ∨
          decodePacket data = .error (.python .valueError)) := by
  constructor
  · intro payload hascii hlength h
    have hpayload : Ascii payload := hascii
    rw [decodePacket, expand_eq_ok h hlength, ok_bind, if_pos hpayload]
  · intro hnone
    have hsound : Ends (fun out => Encodes data out ∧ out.length ≤ 65536) IsDebugError
        (expand data data.length 0 []) :=
      expand_sound data.length (Nat.le_add_left _ _) (Nat.zero_le _) .nil (Nat.zero_le _)
    rw [decodePacket]
    cases hcase : expand data data.length 0 [] with
    | error e =>
      rw [hcase] at hsound
      obtain ⟨error, rfl⟩ := hsound
      exact .inl ⟨error, rfl⟩
    | ok out =>
      rw [hcase] at hsound
      rw [ok_bind, if_neg fun hascii : Ascii out => hnone out hascii hsound.2 hsound.1]
      exact .inr rfl

end Rsp

end AmigaDevbench.Winuae
