import AmigaDevbench.Core.BitFields
import AmigaDevbench.Host.Disasm.Instructions
import AmigaDevbench.Host.Disasm.Tiling

/-!
# Instructions are recognised

A group's decoder is given an operation word with its fields in place, and reads the words that
belong to the operands. That it takes the branch meant for the instruction is arithmetic on the
fields.
-/

namespace AmigaDevbench.Disasm

open Decoder M68000 M68000.Instruction

/-! ### Fields of an operation word -/

section Masks

variable (x : Nat)

theorem land_0x100 : x &&& 0x100 = x / 256 % 2 * 256 := Bits.land_field x 1 8
theorem land_0xFFF0 : x &&& 0xFFF0 = x / 16 % 4096 * 16 := Bits.land_field x 12 4
theorem land_0xFFF8 : x &&& 0xFFF8 = x / 8 % 8192 * 8 := Bits.land_field x 13 3
theorem land_0xFFC0 : x &&& 0xFFC0 = x / 64 % 1024 * 64 := Bits.land_field x 10 6
theorem land_0xFF00 : x &&& 0xFF00 = x / 256 % 256 * 256 := Bits.land_field x 8 8

theorem land_0xFB80 : x &&& 0xFB80 = x / 2048 % 32 * 2048 + x / 128 % 8 * 128 :=
  Bits.land_fields x 5 11 3 7 (by decide)

theorem land_0xF1C0 : x &&& 0xF1C0 = x / 4096 % 16 * 4096 + x / 64 % 8 * 64 :=
  Bits.land_fields x 4 12 3 6 (by decide)

theorem shiftRight_3 : x >>> 3 = x / 8 := Nat.shiftRight_eq_div_pow x 3
theorem shiftRight_6 : x >>> 6 = x / 64 := Nat.shiftRight_eq_div_pow x 6
theorem shiftRight_8 : x >>> 8 = x / 256 := Nat.shiftRight_eq_div_pow x 8
theorem shiftRight_9 : x >>> 9 = x / 512 := Nat.shiftRight_eq_div_pow x 9
theorem shiftRight_12 : x >>> 12 = x / 4096 := Nat.shiftRight_eq_div_pow x 12

end Masks

/-! ### Operands -/

theorem mode_lt (ea : Ea) : ea.mode < 8 := by
  cases ea <;> exact Nat.le_of_ble_eq_true rfl

theorem reg_lt (ea : Ea) : ea.reg < 8 := by
  cases ea
  all_goals first
    | exact Fin.isLt _
    | exact Nat.le_of_ble_eq_true rfl

/-- The field of an address, with the bounds on its parts. -/
theorem field_eq (ea : Ea) : ea.field = 8 * ea.mode + ea.reg ∧ ea.mode < 8 ∧ ea.reg < 8 :=
  ⟨rfl, mode_lt ea, reg_lt ea⟩

theorem code_lt (size : Size) : size.code < 3 := by cases size <;> decide

@[simp] theorem wordBytes_nil : wordBytes [] = [] := rfl

theorem wordBytes_append (ws vs : List Word) :
    wordBytes (ws ++ vs) = wordBytes ws ++ wordBytes vs := List.flatMap_append

theorem accepts_word {n : Nat} (hn : n < 65536) : Accepts word (Bytes.bigEndian 2 n) (· = n) :=
  accepts_of_exact exact_word fun _ =>
    ⟨n, ⟨Bytes.length_bigEndian 2 n, (Bytes.fromBigEndian_bigEndian hn).symm⟩, rfl⟩

/-- A word, and what is read behind it. -/
theorem accepts_word_bind {α : Type} {f : Nat → Reader α} {ws : List Word} {P : α → Prop} (w : Word)
    (hf : ∀ n, Accepts (f n) (wordBytes ws) P) : Accepts (word >>= f) (wordBytes (w :: ws)) P :=
  accepts_bind (accepts_word w.isLt) fun n _ => hf n

variable {base : Int} {op : Nat} {size : Size} {ea : Ea} {name head : Text}

theorem accepts_sword_bind {α : Type} {f : Int → Reader α} {ws : List Word} {P : α → Prop}
    (w : Word) (hf : ∀ n, Accepts (f n) (wordBytes ws) P) :
    Accepts (sword >>= f) (wordBytes (w :: ws)) P := by
  have hsword : Accepts sword (Bytes.bigEndian 2 w.toNat) fun _ => True :=
    accepts_map ((accepts_word w.isLt).mono fun _ _ => trivial)
  exact accepts_bind hsword fun n _ => hf n

theorem accepts_long_bind {α : Type} {f : Nat → Reader α} {ws : List Word} {P : α → Prop}
    (hi lo : Word) (hf : ∀ n, Accepts (f n) (wordBytes ws) P) :
    Accepts (long >>= f) (wordBytes (hi :: lo :: ws)) P := by
  have hlong : Accepts long (wordBytes [hi, lo]) fun _ => True :=
    accepts_word_bind hi fun _ => accepts_word_bind lo fun _ => accepts_pure trivial
  have h := accepts_bind hlong fun n _ => hf n
  rw [← wordBytes_append] at h
  exact h

theorem accepts_addr_bind {α : Type} {f : Int → Reader α} {bs : Bytes} {P : α → Prop}
    (hf : ∀ a, Accepts (f a) bs P) : Accepts (addr base >>= f) bs P := by
  have haddr : Accepts (addr base) [] fun _ => True :=
    accepts_position_bind fun _ => accepts_pure trivial
  exact accepts_bind haddr fun a _ => hf a

/-- An effective address reads its own extension words. -/
theorem accepts_decodeEa (hfits : ea.fits size = true) (pcAddr : Int) :
    Accepts (decodeEa ea.mode ea.reg size.code pcAddr) (wordBytes ea.extension) fun _ => True := by
  cases ea with
  | dataReg r => exact accepts_pure trivial
  | addrReg r => exact accepts_pure trivial
  | indirect r => exact accepts_pure trivial
  | postincrement r => exact accepts_pure trivial
  | predecrement r => exact accepts_pure trivial
  | displacement r d => exact accepts_sword_bind d fun _ => accepts_pure trivial
  | index r x => exact accepts_word_bind x fun _ => accepts_pure trivial
  | absShort a => exact accepts_sword_bind a fun _ => accepts_pure trivial
  | absLong hi lo => exact accepts_long_bind hi lo fun _ => accepts_pure trivial
  | pcDisplacement d => exact accepts_sword_bind d fun _ => accepts_pure trivial
  | pcIndex x => exact accepts_word_bind x fun _ => accepts_pure trivial
  | immediate data =>
    have hlength : data.length = size.words := of_decide_eq_true hfits
    cases size with
    | byte =>
      obtain ⟨w, rfl⟩ := List.length_eq_one_iff.mp hlength
      exact accepts_word_bind w fun _ => accepts_pure trivial
    | word =>
      obtain ⟨w, rfl⟩ := List.length_eq_one_iff.mp hlength
      exact accepts_word_bind w fun _ => accepts_pure trivial
    | long =>
      obtain ⟨hi, lo, rfl⟩ := List.length_eq_two.mp hlength
      exact accepts_long_bind hi lo fun _ => accepts_pure trivial

theorem accepts_decodeEaFromWord (hop : op % 64 = ea.field) (hfits : ea.fits size = true) :
    Accepts (decodeEaFromWord base op size.code) (wordBytes ea.extension) fun _ => True := by
  have hfield := field_eq ea
  have hmode : (op >>> 3) &&& 7 = ea.mode := by
    rw [shiftRight_3, Bits.land_7]
    omega
  have hreg : op &&& 7 = ea.reg := by
    rw [Bits.land_7]
    omega
  rw [decodeEaFromWord, hmode, hreg]
  exact accepts_addr_bind fun pcAddr => accepts_decodeEa hfits pcAddr

/-! ### Mnemonics -/

/-- An instruction is recognised under a name. -/
def Named (name : Text) (text : Option Text) : Prop := ∃ t, text = some t ∧ t.before ' ' = name

/-- The text begins with a name and a blank. -/
def Heads (name head : Text) : Prop := head.before ' ' = name ∧ ' ' ∈ head

instance : Decidable (Heads name head) := inferInstanceAs (Decidable (_ ∧ _))

theorem Heads.recognised (h : Heads name head) : Named name (some head) := ⟨head, rfl, h.1⟩

theorem Heads.named (h : Heads name head) (t : Text) : Named name (some (head ++ t)) := by
  refine ⟨_, rfl, ?_⟩
  obtain ⟨hname, hblank⟩ := h
  obtain ⟨stem, rest, rfl, hstem⟩ := List.eq_append_cons_of_mem hblank
  rw [Text.before_append hstem] at hname
  rw [List.append_assoc, List.cons_append, Text.before_append hstem, hname]

/-- A stem in front of a name and its text. -/
theorem Heads.append {stem : Text} (hstem : ' ' ∉ stem) (h : Heads name head) :
    Heads (stem ++ name) (stem ++ head) := by
  obtain ⟨rfl, hblank⟩ := h
  refine ⟨?_, List.mem_append_right stem hblank⟩
  exact List.takeWhile_append_of_pos (Text.all_ne_of_notMem hstem)

/-- What stands behind a name does not matter. -/
theorem Heads.append_right (h : Heads name head) (t : Text) : Heads name (head ++ t) := by
  obtain ⟨text, ht, hname⟩ := h.named t
  cases ht
  exact ⟨hname, List.mem_append_left t h.2⟩

/-- A size is followed by blanks up to a width of three or more. -/
theorem heads_size (size : Size) (width : Nat) :
    Heads size.suffix (ljust (width + 3) (sizeName size.code)) := by
  cases size
  all_goals exact ⟨rfl, List.mem_append_right _ (List.mem_replicate.mpr ⟨Nat.succ_ne_zero _, rfl⟩)⟩

theorem accepts_decodeUnary (size : Size) {tail : Text} (hop : op % 64 = ea.field)
    (hfits : ea.fits size = true) (hhead : Heads name head) :
    Accepts (decodeUnary base op size.code head tail) (wordBytes ea.extension) (Named name) := by
  refine accepts_map ((accepts_decodeEaFromWord hop hfits).mono fun t _ => ?_)
  rw [List.append_assoc]
  exact hhead.named _

/-- The operation word is one, and the decoder of its group recognises the instruction. -/
def Reads (base : Int) (i : Instruction) : Prop :=
  i.opword < 65536 ∧ Accepts (decodeGroup base ((i.opword >>> 12) &&& 0xF) i.opword)
    (wordBytes i.extension) (Named i.mnemonic)

theorem reads_of_group {i : Instruction} (top4 : Nat)
    (h : ∀ op, op = i.opword → (op < 65536 ∧ op / 4096 = top4) ∧
      Accepts (decodeGroup base top4 op) (wordBytes i.extension) (Named i.mnemonic)) :
    Reads base i := by
  obtain ⟨⟨hlt, htop⟩, haccepts⟩ := h _ rfl
  have hgroup : (i.opword >>> 12) &&& 0xF = top4 := by
    rw [shiftRight_12, Bits.land_15]
    omega
  rw [Reads, hgroup]
  exact ⟨hlt, haccepts⟩

theorem accepts_decodeOne {i : Instruction} (h : Reads base i) :
    Accepts (decodeOne base) i.bytes (Named i.mnemonic) := by
  refine accepts_bind (accepts_word h.1) fun op hop => ?_
  rw [hop]
  exact h.2

/-! ### Addressing modes that the instructions allow -/

section Allowed

theorem mode_of_control (h : ea.control = true) : 2 ≤ ea.mode := by
  cases ea <;> simp [Ea.control, Ea.mode] at h ⊢

theorem mode_of_memoryAlterable (h : ea.memoryAlterable = true) : 2 ≤ ea.mode := by
  cases ea <;> simp [Ea.memoryAlterable, Ea.memory, Ea.alterable, Ea.mode] at h ⊢

theorem mode_of_storable (h : ea.storable = true) : 2 ≤ ea.mode := by
  cases ea <;> simp [Ea.storable, Ea.control, Ea.alterable, Ea.mode] at h ⊢

theorem mode_of_data (h : ea.data = true) : ea.mode ≠ 1 := by
  cases ea <;> simp [Ea.data, Ea.mode] at h ⊢

theorem mode_of_dataAlterable (h : ea.dataAlterable = true) : ea.mode ≠ 1 :=
  mode_of_data (Bool.and_eq_true_iff.mp h).1

/-- Immediate data cannot be changed. -/
theorem field_of_dataAlterable (h : ea.dataAlterable = true) : ea.field ≠ 60 := by
  have hfield := field_eq ea
  cases ea <;>
    simp [Ea.dataAlterable, Ea.data, Ea.alterable, Ea.mode, Ea.reg] at h hfield ⊢ <;> omega

end Allowed

end AmigaDevbench.Disasm
