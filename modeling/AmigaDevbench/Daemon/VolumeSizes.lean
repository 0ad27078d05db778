import AmigaDevbench.Daemon.Inventory
import Mathlib.Tactic.Ring

/-!
# The sizes of a volume

The daemon splits a number of blocks at 1024 before it multiplies by the bytes in a block, so that
the products stay small. Modulo `2 ^ 32` what it computes is the size in kilobytes, rounded down, as
long as 1023 blocks are less than 4 gigabytes.
-/

namespace AmigaDevbench.Daemon

/-- A quotient of a product, from the quotient and the remainder of one factor. -/
theorem div_mul_add_mod_mul_div {k : Nat} (hk : 0 < k) (n b : Nat) :
    n / k * b + n % k * b / k = n * b / k := by
  have hsplit : n * b = n % k * b + n / k * b * k := by
    calc
      n * b = (n % k + k * (n / k)) * b := by rw [Nat.mod_add_div]
      _ = n % k * b + n / k * b * k := by ring
  rw [hsplit, Nat.add_mul_div_right _ _ hk, Nat.add_comm]

/-- The product of the remainder does not wrap. -/
theorem toNat_mod_mul {blocks size : UInt32} (h : size.toNat < 2 ^ 22) :
    (blocks % 1024 * size).toNat = blocks.toNat % 1024 * size.toNat := by
  have hmod : blocks.toNat % 1024 ≤ 1023 := by omega
  have hprod : blocks.toNat % 1024 * size.toNat ≤ 1023 * 2 ^ 22 := Nat.mul_le_mul hmod h.le
  rw [UInt32.toNat_mul, UInt32.toNat_mod]
  exact Nat.mod_eq_of_lt (hprod.trans_lt (by omega))

namespace DiskInfo

variable {id : DiskInfo}

theorem toNat_kilobytes (h : id.bytesPerBlock.toNat < 2 ^ 22) (blocks : UInt32) :
    (id.kilobytes blocks).toNat = blocks.toNat * id.bytesPerBlock.toNat / 1024 % 2 ^ 32 := by
  rw [kilobytes, UInt32.toNat_add, UInt32.toNat_mul, UInt32.toNat_div, UInt32.toNat_div,
    toNat_mod_mul h, Nat.mod_add_mod]
  exact congrArg (· % 2 ^ 32) (div_mul_add_mod_mul_div (k := 1024) (by omega) _ _)

/-- The size of a number of blocks in kilobytes, rounded down. -/
def sizeK (id : DiskInfo) (blocks : Int) : Int := blocks * id.bytesPerBlock.toNat / 1024

def usedSize (id : DiskInfo) : Int := id.sizeK id.numBlocksUsed.toNat

def freeSize (id : DiskInfo) : Int := id.sizeK (id.numBlocks.toNat - id.numBlocksUsed.toNat)

/-- A number of kilobytes that 32 bits can hold. -/
def Fits (size : Int) : Prop := 0 ≤ size ∧ size < 2 ^ 32

theorem sizeK_natCast (id : DiskInfo) (blocks : Nat) :
    id.sizeK blocks = (blocks * id.bytesPerBlock.toNat / 1024 : Nat) := by
  rw [sizeK, Int.natCast_ediv, Int.natCast_mul]
  rfl

theorem kilobytes_eq (h : id.bytesPerBlock.toNat < 2 ^ 22) {blocks : UInt32}
    (hfits : Fits (id.sizeK blocks.toNat)) :
    ((id.kilobytes blocks).toNat : Int) = id.sizeK blocks.toNat := by
  have hlt := hfits.2
  rw [sizeK_natCast] at hlt ⊢
  rw [toNat_kilobytes h, Nat.mod_eq_of_lt (by omega)]

/-- If more blocks are used than there are, no size is free, unless blocks are empty. -/
theorem bytesPerBlock_eq_zero (h : id.numBlocks.toNat < id.numBlocksUsed.toNat)
    (hfree : 0 ≤ id.freeSize) : id.bytesPerBlock.toNat = 0 := by
  by_contra hne
  have hsize : (0 : Int) < id.bytesPerBlock.toNat := by omega
  have hneg : (id.numBlocks.toNat - id.numBlocksUsed.toNat : Int) * id.bytesPerBlock.toNat < 0 :=
    Int.mul_neg_of_neg_of_pos (by omega) hsize
  have hlt : id.freeSize < 0 := Int.ediv_neg_of_neg_of_pos hneg (by decide)
  omega

theorem free_eq (h : id.bytesPerBlock.toNat < 2 ^ 22) (hfits : Fits id.freeSize) :
    ((id.kilobytes (id.numBlocks - id.numBlocksUsed)).toNat : Int) = id.freeSize := by
  rcases Nat.lt_or_ge id.numBlocks.toNat id.numBlocksUsed.toNat with hless | hle
  · have hzero := bytesPerBlock_eq_zero hless hfits.1
    rw [toNat_kilobytes h, freeSize, sizeK, hzero, Nat.mul_zero, Int.natCast_zero, Int.mul_zero]
    rfl
  · have hsub : ((id.numBlocks - id.numBlocksUsed).toNat : Int) =
        id.numBlocks.toNat - id.numBlocksUsed.toNat := by
      rw [UInt32.toNat_sub_of_le _ _ (UInt32.le_iff_toNat_le.mpr hle), Int.natCast_sub hle]
    rw [freeSize, ← hsub] at hfits ⊢
    exact kilobytes_eq h hfits

end DiskInfo

namespace VolumeNode

open DiskInfo

/-- A block has less than `2 ^ 22` bytes: each size in the entry of a volume that fits in 32 bits
is exact, whatever the numbers of blocks are. -/
theorem sizes_exact (v : VolumeNode) (id : DiskInfo) (hdisk : v.disk = some id)
    (hblock : id.bytesPerBlock.toNat < 2 ^ 22) :
    (DiskInfo.Fits id.usedSize → (v.usedK.toNat : Int) = id.usedSize) ∧
      (DiskInfo.Fits id.freeSize → (v.freeK.toNat : Int) = id.freeSize) := by
  rw [usedK, freeK, hdisk]
  exact ⟨kilobytes_eq hblock, free_eq hblock⟩

/-- A volume of 4 terabytes with blocks of 65536 bytes, 7 of which are used. -/
theorem sizes_exact_large :
    ((usedK ⟨none, true, some ⟨65536, 67108864, 7⟩⟩).toNat : Int) = 448 ∧
      ((freeK ⟨none, true, some ⟨65536, 67108864, 7⟩⟩).toNat : Int) = 4294966848 := by
  have hexact := sizes_exact ⟨none, true, some ⟨65536, 67108864, 7⟩⟩ _ rfl (by decide)
  exact ⟨hexact.1 ⟨by decide, by decide⟩, hexact.2 ⟨by decide, by decide⟩⟩

end VolumeNode

end AmigaDevbench.Daemon
