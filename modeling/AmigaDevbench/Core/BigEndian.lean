import Mathlib.Data.List.Induction
import AmigaDevbench.Core.Bytes

/-!
# Big-endian numbers
-/

namespace AmigaDevbench.Bytes

/-- `int.from_bytes(bs, "big")`. -/
def fromBigEndian (bs : Bytes) : Nat := bs.foldl (fun n b => n * 256 + b.toNat) 0

/-- `n.to_bytes(width, "big")` of a number that fits. -/
def bigEndian : Nat → Nat → Bytes
  | 0, _ => []
  | width + 1, n => bigEndian width (n / 256) ++ [UInt8.ofNat n]

theorem fromBigEndian_concat (bs : Bytes) (b : UInt8) :
    fromBigEndian (bs ++ [b]) = fromBigEndian bs * 256 + b.toNat := by
  rw [fromBigEndian, List.foldl_append]
  rfl

@[simp] theorem length_bigEndian (width n : Nat) : (bigEndian width n).length = width := by
  induction width generalizing n with
  | zero => rfl
  | succ width ih => rw [bigEndian, List.length_append, ih, List.length_singleton]

theorem fromBigEndian_lt (bs : Bytes) : fromBigEndian bs < 256 ^ bs.length := by
  induction bs using List.reverseRecOn with
  | nil => decide
  | append_singleton bs b ih =>
    have hb := b.toNat_lt
    rw [fromBigEndian_concat, List.length_append, List.length_singleton, Nat.pow_succ]
    omega

theorem fromBigEndian_bigEndian {width n : Nat} (h : n < 256 ^ width) :
    fromBigEndian (bigEndian width n) = n := by
  induction width generalizing n with
  | zero =>
    rw [Nat.pow_zero, Nat.lt_one_iff] at h
    rw [h]
    rfl
  | succ width ih =>
    have hdiv : n / 256 < 256 ^ width := by
      rw [Nat.pow_succ] at h
      exact Nat.div_lt_of_lt_mul (by rwa [Nat.mul_comm])
    have hbyte : (UInt8.ofNat n).toNat = n % 256 := UInt8.toNat_ofNat'
    rw [bigEndian, fromBigEndian_concat, ih hdiv, hbyte]
    omega

theorem bigEndian_fromBigEndian (bs : Bytes) : bigEndian bs.length (fromBigEndian bs) = bs := by
  induction bs using List.reverseRecOn with
  | nil => rfl
  | append_singleton bs b ih =>
    have hb := b.toNat_lt
    have hdiv : (fromBigEndian bs * 256 + b.toNat) / 256 = fromBigEndian bs := by omega
    have hbyte : UInt8.ofNat (fromBigEndian bs * 256 + b.toNat) = b := by
      apply UInt8.toNat_inj.mp
      rw [UInt8.toNat_ofNat']
      omega
    rw [fromBigEndian_concat, List.length_append, List.length_singleton, bigEndian, hdiv, ih,
      hbyte]

end AmigaDevbench.Bytes
