import Mathlib.Data.List.Basic
import Mathlib.Logic.Function.Iterate
import AmigaDevbench.Core.Sizes

/-!
# CRC-32

The reflected CRC-32 shifts its remainder one bit at a time. A shift is linear in exclusive or,
so four of them are one lookup in a table of sixteen words, which is how a program without room
for a larger table computes it.
-/

namespace AmigaDevbench.Crc32

/-- The remainder behind one more zero bit. -/
def shift (c : BitVec 32) : BitVec 32 :=
  if c.getLsbD 0 then (c >>> 1) ^^^ 0xEDB88320#32 else c >>> 1

/-- The remainder behind one more byte, bit by bit. -/
def byteStep (c : BitVec 32) (b : UInt8) : BitVec 32 :=
  shift^[8] (c ^^^ b.toBitVec.setWidth 32)

/-- The CRC-32 of a sequence of bytes. -/
def crc32 (bs : List UInt8) : BitVec 32 := bs.foldl byteStep 0xFFFFFFFF#32 ^^^ 0xFFFFFFFF#32

/-- The remainders of the sixteen four-bit values. -/
def table : List (BitVec 32) :=
  [0x00000000#32, 0x1DB71064#32, 0x3B6E20C8#32, 0x26D930AC#32,
   0x76DC4190#32, 0x6B6B51F4#32, 0x4DB26158#32, 0x5005713C#32,
   0xEDB88320#32, 0xF00F9344#32, 0xD6D6A3E8#32, 0xCB61B38C#32,
   0x9B64C2B0#32, 0x86D3D2D4#32, 0xA00AE278#32, 0xBDBDF21C#32]

/-- The remainder behind four more bits: the low bits of `n` select the word. -/
def nibbleStep (c n : BitVec 32) : BitVec 32 :=
  table.getD ((c ^^^ n) &&& 0x0F#32).toNat 0 ^^^ (c >>> 4)

/-- The remainder behind one more byte, in two lookups. -/
def tableStep (c : BitVec 32) (b : UInt8) : BitVec 32 :=
  nibbleStep (nibbleStep c (b.toBitVec.setWidth 32)) ((b >>> 4).toBitVec.setWidth 32)

theorem xor_cancel (a b p : BitVec 32) : a ^^^ p ^^^ (b ^^^ p) = a ^^^ b := by
  rw [BitVec.xor_assoc, BitVec.xor_comm b p, ← BitVec.xor_assoc p, BitVec.xor_self,
    BitVec.zero_xor]

theorem shift_xor (a b : BitVec 32) : shift (a ^^^ b) = shift a ^^^ shift b := by
  simp only [shift, BitVec.getLsbD_xor, BitVec.ushiftRight_xor_distrib]
  cases a.getLsbD 0 <;> cases b.getLsbD 0
  · rfl
  · exact BitVec.xor_assoc _ _ _
  · simp only [Bool.xor_false, if_true, Bool.false_eq_true, if_false]
    rw [BitVec.xor_assoc, BitVec.xor_comm (b >>> 1), BitVec.xor_assoc]
  · exact (xor_cancel _ _ _).symm

/-- Any number of shifts is linear. -/
theorem iterate_shift_xor (n : Nat) (a b : BitVec 32) :
    shift^[n] (a ^^^ b) = shift^[n] a ^^^ shift^[n] b := by
  induction n generalizing a b with
  | zero => rfl
  | succ n ih => rw [Function.iterate_succ_apply, Function.iterate_succ_apply,
      Function.iterate_succ_apply, shift_xor, ih]

/-- Zero bits at the low end are shifted out. -/
theorem iterate_shift_of_low {n : Nat} {c : BitVec 32} (h : ∀ i < n, c.getLsbD i = false) :
    shift^[n] c = c >>> n := by
  induction n generalizing c with
  | zero => simp
  | succ n ih =>
    have hzero : shift c = c >>> 1 := by
      rw [shift, h 0 (by omega)]
      rfl
    have hrest : ∀ i < n, (c >>> 1).getLsbD i = false := by
      intro i hi
      rw [BitVec.getLsbD_ushiftRight]
      exact h (1 + i) (by omega)
    rw [Function.iterate_succ_apply, hzero, ih hrest, ← BitVec.shiftRight_add, Nat.add_comm]

/-- The table holds the remainders of its indices. -/
theorem getD_table : ∀ k < 16, table.getD k 0 = shift^[4] (BitVec.ofNat 32 k) := by
  decide

theorem getLsbD_low (i : Nat) : (0x0F#32).getLsbD i = decide (i < 4) := by
  have hmask : (15 : Nat) = 2 ^ 4 - 1 := rfl
  rw [BitVec.getLsbD_ofNat, hmask, Nat.testBit_two_pow_sub_one, ← Bool.decide_and, decide_eq_decide]
  omega

/-- Four shifts of the high bits only move them. -/
theorem iterate_shift_high (c : BitVec 32) : shift^[4] (c &&& ~~~0x0F#32) = c >>> 4 := by
  have hlow : ∀ i < 4, (c &&& ~~~0x0F#32).getLsbD i = false := by
    intro i hi
    rw [BitVec.getLsbD_and, BitVec.getLsbD_not, getLsbD_low]
    simp [hi]
  rw [iterate_shift_of_low hlow]
  apply BitVec.eq_of_getLsbD_eq
  intro i _
  rw [BitVec.getLsbD_ushiftRight, BitVec.getLsbD_ushiftRight, BitVec.getLsbD_and,
    BitVec.getLsbD_not, getLsbD_low]
  by_cases hi : 4 + i < 32
  · simp [hi]
  · simp [BitVec.getLsbD_of_ge c (4 + i) (by omega)]

/-- Four shifts of the low bits are one lookup. -/
theorem iterate_shift_low (c : BitVec 32) :
    shift^[4] (c &&& 0x0F#32) = table.getD (c &&& 0x0F#32).toNat 0 := by
  have hlt : (c &&& 0x0F#32).toNat < 16 := by
    rw [BitVec.toNat_and]
    exact Nat.lt_of_le_of_lt Nat.and_le_right (by decide)
  rw [getD_table _ hlt, BitVec.ofNat_toNat, BitVec.setWidth_eq]

/-- High and low bits make up a word. -/
theorem and_xor_and_not (c : BitVec 32) : (c &&& 0x0F#32) ^^^ (c &&& ~~~0x0F#32) = c := by
  apply BitVec.eq_of_getLsbD_eq
  intro i hi
  simp only [BitVec.getLsbD_xor, BitVec.getLsbD_and, BitVec.getLsbD_not, hi, decide_true,
    Bool.true_and]
  cases c.getLsbD i <;> cases (0x0F#32).getLsbD i <;> rfl

/-- One lookup is four shifts. -/
theorem nibbleStep_eq (c n : BitVec 32) : nibbleStep c n = shift^[4] (c ^^^ (n &&& 0x0F#32)) := by
  have hsplit : c ^^^ (n &&& 0x0F#32) = ((c ^^^ n) &&& 0x0F#32) ^^^ (c &&& ~~~0x0F#32) := by
    apply BitVec.eq_of_getLsbD_eq
    intro i hi
    simp only [BitVec.getLsbD_xor, BitVec.getLsbD_and, BitVec.getLsbD_not, hi, decide_true,
      Bool.true_and]
    cases c.getLsbD i <;> cases n.getLsbD i <;> cases (0x0F#32).getLsbD i <;> rfl
  rw [hsplit, iterate_shift_xor, iterate_shift_high, iterate_shift_low]
  rfl

/-- Two lookups are one byte. -/
theorem tableStep_eq (c : BitVec 32) (b : UInt8) : tableStep c b = byteStep c b := by
  have hhigh : (b >>> 4).toBitVec.setWidth 32 &&& 0x0F#32 = b.toBitVec.setWidth 32 >>> 4 := by
    apply BitVec.eq_of_toNat_eq
    have hb := b.toNat_lt
    have hshift : (b >>> 4).toNat = b.toNat / 16 := by
      rw [UInt8.toNat_shiftRight, Nat.shiftRight_eq_div_pow]
      rfl
    have hmask : ((b >>> 4).toBitVec.setWidth 32 &&& 0x0F#32).toNat = b.toNat / 16 := by
      have hmod : (b >>> 4).toNat &&& 15 = (b >>> 4).toNat % 16 :=
        Nat.and_two_pow_sub_one_eq_mod (b >>> 4).toNat 4
      rw [BitVec.toNat_and, BitVec.toNat_setWidth, UInt8.toNat_toBitVec, hshift,
        Nat.mod_eq_of_lt (by omega)]
      rw [hshift] at hmod
      change b.toNat / 16 &&& 15 = _
      omega
    rw [hmask, BitVec.toNat_ushiftRight, BitVec.toNat_setWidth, UInt8.toNat_toBitVec,
      Nat.mod_eq_of_lt (by omega), Nat.shiftRight_eq_div_pow]
  have hsplit : c ^^^ b.toBitVec.setWidth 32 = (c ^^^ (b.toBitVec.setWidth 32 &&& 0x0F#32)) ^^^
      (b.toBitVec.setWidth 32 &&& ~~~0x0F#32) := by
    rw [BitVec.xor_assoc, and_xor_and_not]
  have hiterate : byteStep c b = shift^[4] (shift^[4] (c ^^^ b.toBitVec.setWidth 32)) := rfl
  rw [hiterate, hsplit, iterate_shift_xor 4, iterate_shift_high, tableStep, nibbleStep_eq,
    nibbleStep_eq, hhigh]

end AmigaDevbench.Crc32
