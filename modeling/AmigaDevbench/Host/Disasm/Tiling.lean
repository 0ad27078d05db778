import Mathlib.Algebra.Group.Subgroup.Even
import AmigaDevbench.Core.Extent
import AmigaDevbench.Host.Disasm.Decode

/-!
# The listing tiles the data

Decoders read whole words. So every entry stands for the bytes from the place where it begins to the
place where the next one does, whichever branches the decoder took.
-/

namespace AmigaDevbench.Disasm

open Decoder

/-! ### Decoders read whole words -/

section Words

/-- Whatever is read is a number of words. -/
abbrev ReadsWords {α : Type} (p : Reader α) : Prop := Advances (AddSubmonoid.even Nat) p

theorem readsWords_word : ReadsWords word :=
  advances_bind (advances_take _ ⟨1, rfl⟩) fun _ => advances_pure _

theorem readsWords_sword : ReadsWords sword :=
  advances_bind readsWords_word fun _ => advances_pure _

theorem readsWords_long : ReadsWords long :=
  advances_bind readsWords_word fun _ => advances_bind readsWords_word fun _ => advances_pure _

theorem readsWords_slong : ReadsWords slong :=
  advances_bind readsWords_long fun _ => advances_pure _

theorem readsWords_addr (base : Int) : ReadsWords (addr base) :=
  advances_bind advances_position fun _ => advances_pure _

theorem readsWords_decodeBriefExt (name : Text) (refAddr : Option Int) :
    ReadsWords (decodeBriefExt name refAddr) :=
  advances_bind readsWords_word fun _ => advances_pure _

theorem readsWords_decodeEa (mode reg size : Nat) (pcAddr : Int) :
    ReadsWords (decodeEa mode reg size pcAddr) := by
  unfold decodeEa
  split
  all_goals try split
  all_goals try split
  all_goals first
    | exact advances_pure _
    | exact readsWords_decodeBriefExt _ _
    | exact advances_bind readsWords_sword fun _ => advances_pure _
    | exact advances_bind readsWords_long fun _ => advances_pure _
    | exact advances_bind readsWords_word fun _ => advances_pure _

variable (base : Int) (op size : Nat) (head tail : Text)

theorem readsWords_decodeEaFromWord : ReadsWords (decodeEaFromWord base op size) :=
  advances_bind (readsWords_addr base) fun _ => readsWords_decodeEa _ _ _ _

theorem readsWords_decodeUnary : ReadsWords (decodeUnary base op size head tail) :=
  advances_bind (readsWords_decodeEaFromWord base op size) fun _ => advances_pure _

theorem readsWords_immediateData : ReadsWords (immediateData size) := by
  unfold immediateData
  split
  · exact advances_bind readsWords_word fun _ => advances_pure _
  · exact advances_bind readsWords_word fun _ => advances_pure _
  · exact advances_bind readsWords_long fun _ => advances_pure _

theorem readsWords_decodeImmOp : ReadsWords (decodeImmOp base op head size) :=
  advances_bind (readsWords_immediateData size) fun _ =>
    advances_bind (readsWords_decodeEaFromWord base op size) fun _ => advances_pure _

theorem readsWords_decodeToCcr : ReadsWords (decodeToCcr head) :=
  advances_bind readsWords_word fun _ => advances_pure _

theorem readsWords_decodeToSr : ReadsWords (decodeToSr head) :=
  advances_bind readsWords_word fun _ => advances_pure _

theorem readsWords_decodeSized : ReadsWords (decodeSized base op head) :=
  advances_ite (advances_pure _) (readsWords_decodeImmOp base op _ head)

theorem readsWords_decodeBitRegister : ReadsWords (decodeBitRegister base op) :=
  advances_bind (readsWords_decodeEaFromWord base op 0) fun _ => advances_pure _

theorem readsWords_decodeMovep : ReadsWords (decodeMovep base op) := by
  refine advances_bind readsWords_sword fun disp => ?_
  dsimp only
  split
  all_goals first
    | exact advances_pure _
    | exact readsWords_decodeBitRegister base op

theorem readsWords_decodeBitImmediate : ReadsWords (decodeBitImmediate base op) :=
  advances_bind readsWords_word fun _ =>
    advances_bind (readsWords_decodeEaFromWord base op 0) fun _ => advances_pure _

theorem readsWords_decode0000 : ReadsWords (decode0000 base op) := by
  unfold decode0000
  refine advances_ite (advances_ite (readsWords_decodeMovep base op)
    (readsWords_decodeBitRegister base op)) ?_
  have hlogic (name : Text) (c c' : Prop) [Decidable c] [Decidable c'] :
      ReadsWords (if (op >>> 6) &&& 3 = 3 then return none
        else if c then decodeToCcr name else if c' then decodeToSr name
        else decodeImmOp base op name ((op >>> 6) &&& 3)) :=
    advances_ite (advances_pure _) <|
    advances_ite (readsWords_decodeToCcr _) <|
    advances_ite (readsWords_decodeToSr _) <|
    readsWords_decodeImmOp base op _ _
  split
  · exact hlogic _ _ _
  · exact hlogic _ _ _
  · exact readsWords_decodeSized base op _
  · exact readsWords_decodeSized base op _
  · exact readsWords_decodeBitImmediate base op
  · exact hlogic _ _ _
  · exact readsWords_decodeSized base op _
  · exact advances_pure _

theorem readsWords_decodeMove : ReadsWords (decodeMove base op size) := by
  unfold decodeMove
  refine advances_bind (readsWords_addr base) fun pcAddr =>
    advances_bind (readsWords_decodeEa _ _ _ pcAddr) fun src => ?_
  refine advances_ite (advances_ite (advances_pure _) (advances_pure _)) ?_
  exact advances_bind (readsWords_addr base) fun pcAddr =>
    advances_bind (readsWords_decodeEa _ _ _ pcAddr) fun dst => advances_pure _

theorem readsWords_decodeMovem : ReadsWords (decodeMovem base op) :=
  advances_bind readsWords_word fun _ =>
    advances_bind (readsWords_decodeEaFromWord base op _) fun _ => advances_pure _

theorem readsWords_decodeStop : ReadsWords decodeStop :=
  advances_bind readsWords_word fun _ => advances_pure _

theorem readsWords_decodeLink : ReadsWords (decodeLink op) :=
  advances_bind readsWords_sword fun _ => advances_pure _

theorem readsWords_decodeSingle : ReadsWords (decodeSingle base op) :=
  have hunary (size : Nat) (head tail : Text) : ReadsWords (decodeUnary base op size head tail) :=
    readsWords_decodeUnary base op size head tail
  advances_ite (advances_ite (hunary _ _ _) (hunary _ _ _)) <|
  advances_ite (advances_ite (advances_pure _) (hunary _ _ _)) <|
  advances_ite (advances_ite (hunary _ _ _) (hunary _ _ _)) <|
  advances_ite (advances_ite (advances_pure _) (hunary _ _ _)) <|
  advances_ite (advances_ite (hunary _ _ _) (hunary _ _ _)) <|
  advances_ite (hunary _ _ _) <|
  advances_ite (hunary _ _ _) <|
  advances_ite (hunary _ _ _) <|
  advances_ite (hunary _ _ _) <|
  advances_pure _

theorem readsWords_decodeMovement : ReadsWords (decodeMovement base op) :=
  have hunary (size : Nat) (head tail : Text) : ReadsWords (decodeUnary base op size head tail) :=
    readsWords_decodeUnary base op size head tail
  advances_ite (advances_pure _) <|
  advances_ite (hunary _ _ _) <|
  advances_ite (advances_pure _) <|
  advances_ite (advances_pure _) <|
  advances_ite (advances_pure _) <|
  advances_ite (readsWords_decodeMovem base op) <|
  advances_ite (hunary _ _ _) <|
  advances_ite (hunary _ _ _) <|
  advances_ite (hunary _ _ _) <|
  advances_ite (hunary _ _ _) <|
  readsWords_decodeSingle base op

theorem readsWords_decode0100 : ReadsWords (decode0100 base op) :=
  advances_ite (advances_pure _) <|
  advances_ite (advances_pure _) <|
  advances_ite readsWords_decodeStop <|
  advances_ite (advances_pure _) <|
  advances_ite (advances_pure _) <|
  advances_ite (advances_pure _) <|
  advances_ite (advances_pure _) <|
  advances_ite (advances_pure _) <|
  advances_ite (advances_pure _) <|
  advances_ite (readsWords_decodeLink op) <|
  advances_ite (advances_pure _) <|
  advances_ite (advances_ite (advances_pure _) (advances_pure _)) <|
  readsWords_decodeMovement base op

theorem readsWords_decodeDbcc : ReadsWords (decodeDbcc base op) :=
  advances_bind readsWords_sword fun _ =>
    advances_bind (readsWords_addr base) fun _ => advances_pure _

theorem readsWords_decode0101 : ReadsWords (decode0101 base op) :=
  advances_ite (advances_ite (readsWords_decodeDbcc base op) (readsWords_decodeUnary base op _ _ _))
    (readsWords_decodeUnary base op _ _ _)

theorem readsWords_decodeBranch : ReadsWords (decodeBranch base op) :=
  advances_bind (readsWords_addr base) fun _ =>
    advances_ite (advances_bind readsWords_sword fun _ => advances_pure _)
      (advances_ite (advances_bind readsWords_slong fun _ => advances_pure _) (advances_pure _))

theorem readsWords_decodeMoveq : ReadsWords (decodeMoveq op) :=
  advances_ite (advances_pure _) (advances_pure _)

theorem readsWords_decodeDyadic : ReadsWords (decodeDyadic base op head size) :=
  advances_ite (advances_pure _) (advances_ite (readsWords_decodeUnary base op _ _ _)
    (readsWords_decodeUnary base op _ _ _))

theorem readsWords_decode1000 : ReadsWords (decode1000 base op) :=
  advances_ite (readsWords_decodeUnary base op _ _ _) <|
  advances_ite (readsWords_decodeUnary base op _ _ _) <|
  advances_ite (advances_pure _) <|
  readsWords_decodeDyadic base op _ _

theorem readsWords_decodeAddsub : ReadsWords (decodeAddsub base op head) :=
  advances_ite (readsWords_decodeUnary base op _ _ _) <|
  advances_ite (readsWords_decodeUnary base op _ _ _) <|
  advances_ite (advances_pure _) <|
  readsWords_decodeDyadic base op _ _

theorem readsWords_decode1011 : ReadsWords (decode1011 base op) :=
  advances_ite (readsWords_decodeUnary base op _ _ _) <|
  advances_ite (readsWords_decodeUnary base op _ _ _) <|
  advances_ite (readsWords_decodeUnary base op _ _ _) <|
  advances_ite (advances_pure _) <|
  advances_ite (advances_pure _) <|
  readsWords_decodeUnary base op _ _ _

theorem readsWords_decode1100 : ReadsWords (decode1100 base op) :=
  advances_ite (readsWords_decodeUnary base op _ _ _) <|
  advances_ite (readsWords_decodeUnary base op _ _ _) <|
  advances_ite (advances_pure _) <|
  advances_ite (advances_pure _) <|
  advances_ite (advances_pure _) <|
  advances_ite (advances_pure _) <|
  readsWords_decodeDyadic base op _ _

theorem readsWords_decodeShift : ReadsWords (decodeShift base op) :=
  advances_ite (readsWords_decodeUnary base op _ _ _)
    (advances_ite (advances_pure _) (advances_pure _))

theorem readsWords_decodeGroup (top4 : Nat) : ReadsWords (decodeGroup base top4 op) := by
  unfold decodeGroup
  split
  · exact readsWords_decode0000 base op
  · exact readsWords_decodeMove base op 0
  · exact readsWords_decodeMove base op 2
  · exact readsWords_decodeMove base op 1
  · exact readsWords_decode0100 base op
  · exact readsWords_decode0101 base op
  · exact readsWords_decodeBranch base op
  · exact readsWords_decodeMoveq op
  · exact readsWords_decode1000 base op
  · exact readsWords_decodeAddsub base op _
  · exact advances_pure _
  · exact readsWords_decode1011 base op
  · exact readsWords_decode1100 base op
  · exact readsWords_decodeAddsub base op _
  · exact readsWords_decodeShift base op
  · exact advances_pure _

/-- A word is two bytes. -/
theorem exact_word : Exact word fun _ w b => b.length = 2 ∧ w = Bytes.fromBigEndian b := by
  refine (exact_bind (exact_take _ 2) fun bs => exact_pure (Bytes.fromBigEndian bs)).congr ?_
  intro c w b
  constructor
  · rintro ⟨bs, b₁, b₂, rfl, ⟨rfl, hlength⟩, rfl, rfl⟩
    rw [List.append_nil]
    exact ⟨hlength, rfl⟩
  · rintro ⟨hlength, rfl⟩
    exact ⟨b, b, [], (List.append_nil b).symm, ⟨rfl, hlength⟩, rfl, rfl⟩

/-- An instruction is one word or more. -/
theorem decodeOne_ok {s t : Input} {text : Option Text} (h : decodeOne base s = .ok (text, t)) :
    ∃ b, s.rest = b ++ t.rest ∧ t.cursor = s.cursor + b.length ∧ Even b.length ∧ 2 ≤ b.length := by
  obtain ⟨op, u, hword, hgroup⟩ := bind_eq_ok.mp h
  obtain ⟨b, hrest, hcursor, hlength, -⟩ := (exact_word s op u).mp hword
  obtain ⟨b', hrest', hcursor', heven⟩ := readsWords_decodeGroup base op _ u text t hgroup
  refine ⟨b ++ b', by rw [hrest, hrest', List.append_assoc], ?_, ?_, ?_⟩
  · rw [hcursor', hcursor, List.length_append, Nat.add_assoc]
  · rw [List.length_append, hlength]
    exact Even.add ⟨1, rfl⟩ heven
  · rw [List.length_append, hlength]
    exact Nat.le_add_right _ _

end Words

/-! ### The digits of a word -/

theorem length_hexUpper (bs : Bytes) : (hexUpper bs).length = 2 * bs.length := by
  rw [hexUpper, List.length_map, Bytes.length_hex]

theorem hexUpper_append (bs cs : Bytes) : hexUpper (bs ++ cs) = hexUpper bs ++ hexUpper cs := by
  rw [hexUpper, Bytes.hex_append, List.map_append]
  rfl

/-- One digit more is the last digit behind those of the quotient. -/
theorem padded_succ {width : Nat} (hwidth : 0 < width) (n : Nat) :
    List.replicate (width + 1 - (Nat.toDigits 16 n).length) '0' ++ Nat.toDigits 16 n =
      List.replicate (width - (Nat.toDigits 16 (n / 16)).length) '0' ++
        Nat.toDigits 16 (n / 16) ++ [Nat.digitChar (n % 16)] := by
  by_cases hlt : n < 16
  · have hzero : Nat.toDigits 16 0 = ['0'] := Nat.toDigits_zero 16
    rw [Nat.div_eq_of_lt hlt, Nat.mod_eq_of_lt hlt, Nat.toDigits_of_lt_base hlt, hzero]
    obtain ⟨k, rfl⟩ := Nat.exists_eq_add_of_lt hwidth
    simp only [List.length_singleton, Nat.zero_add, Nat.add_sub_cancel]
    rw [List.replicate_succ']
  · rw [Nat.toDigits_of_base_le (by omega) (by omega), List.length_append, List.length_singleton,
      Nat.add_sub_add_right, List.append_assoc]

theorem formatX_word {b : Bytes} (hb : b.length = 2) :
    formatX 4 (Bytes.fromBigEndian b) = hexUpper b := by
  obtain ⟨x, y, rfl⟩ := List.length_eq_two.mp hb
  have hx := x.toNat_lt
  have hy := y.toNat_lt
  have hvalue : Bytes.fromBigEndian [x, y] = x.toNat * 256 + y.toNat := by
    simp [Bytes.fromBigEndian]
  have hhigh : (x.toNat * 256 + y.toNat) / 16 / 16 = x.toNat := by omega
  have hlow : (x.toNat * 256 + y.toNat) / 16 % 16 = y.toNat / 16 := by omega
  have hlast : (x.toNat * 256 + y.toNat) % 16 = y.toNat % 16 := by omega
  have hpad : List.replicate (4 - (Nat.toDigits 16 (x.toNat * 256 + y.toNat)).length) '0' ++
      Nat.toDigits 16 (x.toNat * 256 + y.toNat) = Bytes.hex [x, y] := by
    rw [padded_succ (by decide), padded_succ (by decide), padded_succ (by decide), hhigh, hlow,
      hlast, Nat.toDigits_of_lt_base (n := x.toNat / 16) (by omega)]
    rfl
  rw [hvalue, hexUpper, ← hpad, List.map_append, List.map_replicate]
  simp only [formatX, List.length_map]
  rfl

/-! ### Tiling -/

/-- Each entry begins where the one before it ends. -/
def Contiguous : Int → List Entry → Prop
  | _, [] => True
  | address, e :: es => e.address = address ∧ Contiguous (address + e.length) es

/-- The entries show the first `n` bytes of the data, one behind the other. -/
structure Tiles (base : Int) (data : Bytes) (n : Nat) (es : List Entry) : Prop where
  contiguous : Contiguous base es
  words : ∀ e ∈ es, e.hex.length = 2 * e.length ∧ Even e.length ∧ 2 ≤ e.length
  shown : es.flatMap Entry.hex = hexUpper (data.take n)
  total : (es.map Entry.length).sum = n
  within : n ≤ data.length

theorem tiles_nil (base : Int) (data : Bytes) : Tiles base data 0 [] where
  contiguous := trivial
  words := nofun
  shown := by rw [List.take_zero]; rfl
  total := rfl
  within := Nat.zero_le _

theorem Tiles.cons {base : Int} {b rest : Bytes} {n : Nat} {es : List Entry} {text : Text}
    (heven : Even b.length) (htwo : 2 ≤ b.length) (h : Tiles (base + b.length) rest n es) :
    Tiles base (b ++ rest) (b.length + n) (⟨base, hexUpper b, text⟩ :: es) := by
  have hlength : Entry.length ⟨base, hexUpper b, text⟩ = b.length := by
    rw [Entry.length, length_hexUpper, Nat.mul_div_cancel_left _ (by decide)]
  refine ⟨⟨rfl, ?_⟩, ?_, ?_, ?_, ?_⟩
  · rw [hlength]
    exact h.contiguous
  · refine List.forall_mem_cons.mpr ⟨?_, h.words⟩
    rw [hlength]
    exact ⟨length_hexUpper b, heven, htwo⟩
  · rw [List.flatMap_cons, h.shown, List.take_length_add_append, hexUpper_append]
  · rw [List.map_cons, List.sum_cons, hlength, h.total]
  · rw [List.length_append]
    exact Nat.add_le_add_left h.within _

/-- The listing ends at its limit, where no word is left, or with a word of an instruction that
the data cuts off. -/
def Stops (base : Int) (s : Input) (n count : Nat) (es : List Entry) : Prop :=
  es.length = count ∨ s.rest.length < n + 2 ∨
    ∃ m e, n = m + 2 ∧ decodeOne base ⟨s.cursor + m, s.rest.drop m⟩ = .error e

variable {base : Int} {s t : Input} {b : Bytes} {n count : Nat} {e : Entry} {es : List Entry}

/-- What ends the rest of a listing ends the listing. -/
theorem Stops.cons (hrest : s.rest = b ++ t.rest) (hcursor : t.cursor = s.cursor + b.length)
    (h : Stops base t n count es) : Stops base s (b.length + n) (count + 1) (e :: es) := by
  rcases h with h | h | ⟨m, e, rfl, herror⟩
  · exact .inl (congrArg (· + 1) h)
  · refine .inr (.inl ?_)
    rw [hrest, List.length_append]
    omega
  · refine .inr (.inr ⟨b.length + m, e, rfl, ?_⟩)
    rw [hrest, List.drop_length_add_append, ← Nat.add_assoc, ← hcursor]
    exact herror

/-- A word can be read unless there are less than two bytes. -/
theorem word_error {f : Failure EndOfData} (h : word s = .error f) : s.rest.length < 2 := by
  by_contra hlength
  rw [Nat.not_lt] at hlength
  have hok := (exact_word s (Bytes.fromBigEndian (s.rest.take 2)) ⟨s.cursor + 2, s.rest.drop 2⟩).mpr
    ⟨s.rest.take 2, (List.take_append_drop 2 s.rest).symm, by rw [List.length_take_of_le hlength],
      List.length_take_of_le hlength, rfl⟩
  rw [h] at hok
  cases hok

/-- The entry of a word, in front of the rest of a listing. -/
theorem Tiles.consWord {w : Nat} (hword : word s = .ok (w, t))
    (h : Tiles (base + t.cursor) t.rest n es) :
    Tiles (base + s.cursor) s.rest (2 + n) (wordEntry (base + s.cursor) w :: es) := by
  obtain ⟨b, hrest, hcursor, hlength, rfl⟩ := (exact_word s w t).mp hword
  rw [hcursor, Int.natCast_add, ← Int.add_assoc] at h
  rw [wordEntry, formatX_word hlength, hrest, ← hlength]
  exact Tiles.cons (by rw [hlength]; exact ⟨1, rfl⟩) hlength.ge h

theorem entries_tile (base : Int) (count : Nat) :
    ∀ s : Input, ∃ n, Tiles (base + s.cursor) s.rest n (entries base count s) ∧
      Stops base s n count (entries base count s) := by
  induction count with
  | zero => exact fun s => ⟨0, tiles_nil _ _, .inl rfl⟩
  | succ count ih =>
    intro s
    rw [entries]
    cases hword : word s with
    | error f => exact ⟨0, tiles_nil _ _, .inr (.inl (word_error hword))⟩
    | ok r =>
      obtain ⟨w, behind⟩ := r
      dsimp only
      cases hone : decodeOne base s with
      | error f => exact ⟨2, (tiles_nil _ _).consWord hword, .inr (.inr ⟨0, f, rfl, hone⟩)⟩
      | ok r =>
        obtain ⟨text, t⟩ := r
        cases text with
        | none =>
          obtain ⟨n, htiles, hstops⟩ := ih behind
          obtain ⟨b, hrest, hcursor, hlength, -⟩ := (exact_word s w behind).mp hword
          refine ⟨2 + n, htiles.consWord hword, ?_⟩
          rw [← hlength]
          exact hstops.cons hrest hcursor
        | some mnemonic =>
          obtain ⟨n, htiles, hstops⟩ := ih t
          obtain ⟨b, hrest, hcursor, heven, htwo⟩ := decodeOne_ok base hone
          refine ⟨b.length + n, ?_, hstops.cons hrest hcursor⟩
          dsimp only
          rw [hcursor, Int.natCast_add, ← Int.add_assoc] at htiles
          rw [hcursor, Nat.add_sub_cancel_left, hrest, List.take_left]
          exact htiles.cons heven htwo

/-- The listing shows a prefix of the data word by word, entry behind entry. -/
theorem disassemble_tiles (data : Bytes) (baseAddr count : Int) :
    ∃ n, Tiles baseAddr data n (disassemble data baseAddr count) ∧
      Stops baseAddr ⟨0, data⟩ n count.toNat (disassemble data baseAddr count) := by
  have h := entries_tile baseAddr count.toNat ⟨0, data⟩
  rw [Int.natCast_zero, Int.add_zero] at h
  exact h

end AmigaDevbench.Disasm
