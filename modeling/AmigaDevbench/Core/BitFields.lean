import Mathlib.Data.Nat.Bitwise

/-!
# Bit fields of numbers

A mask of adjacent bits selects a field, at its place. With masks and shifts written as divisions
and remainders, tests on the fields of a sum of fields are linear arithmetic.
-/

namespace AmigaDevbench.Bits

/-- The mask of `n` bits at place `k`. -/
theorem land_field (x n k : Nat) : x &&& ((2 ^ n - 1) <<< k) = x / 2 ^ k % 2 ^ n * 2 ^ k := by
  rw [← Nat.shiftLeft_eq, ← Nat.and_two_pow_sub_one_eq_mod, ← Nat.shiftRight_eq_div_pow,
    Nat.shiftLeft_and_distrib]
  refine Nat.eq_of_testBit_eq fun i => ?_
  rw [Nat.testBit_land, Nat.testBit_land, Nat.testBit_shiftLeft, Nat.testBit_shiftLeft,
    Nat.testBit_shiftRight]
  by_cases hi : k ≤ i
  · rw [Nat.add_sub_of_le hi]
    simp [hi]
  · simp [hi]

/-- The mask of two fields. -/
theorem land_fields (x n k n' k' : Nat) (h : n' + k' ≤ k) :
    x &&& ((2 ^ n - 1) <<< k ||| (2 ^ n' - 1) <<< k') =
      x / 2 ^ k % 2 ^ n * 2 ^ k + x / 2 ^ k' % 2 ^ n' * 2 ^ k' := by
  have hlow : x / 2 ^ k' % 2 ^ n' * 2 ^ k' < 2 ^ k := by
    have hmod := Nat.mod_lt (x / 2 ^ k') (Nat.two_pow_pos n')
    calc x / 2 ^ k' % 2 ^ n' * 2 ^ k' < 2 ^ n' * 2 ^ k' :=
          Nat.mul_lt_mul_of_pos_right hmod (Nat.two_pow_pos k')
      _ = 2 ^ (n' + k') := (Nat.pow_add 2 n' k').symm
      _ ≤ 2 ^ k := Nat.pow_le_pow_right (by omega) h
  rw [Nat.and_or_distrib_left, land_field, land_field, ← Nat.shiftLeft_eq _ k,
    Nat.shiftLeft_add_eq_or_of_lt hlow]

/-! The masks of the lowest bits. -/

@[simp] theorem land_1 (x : Nat) : x &&& 1 = x % 2 := Nat.and_two_pow_sub_one_eq_mod x 1
@[simp] theorem land_3 (x : Nat) : x &&& 3 = x % 4 := Nat.and_two_pow_sub_one_eq_mod x 2
@[simp] theorem land_7 (x : Nat) : x &&& 7 = x % 8 := Nat.and_two_pow_sub_one_eq_mod x 3
@[simp] theorem land_15 (x : Nat) : x &&& 15 = x % 16 := Nat.and_two_pow_sub_one_eq_mod x 4
@[simp] theorem land_255 (x : Nat) : x &&& 255 = x % 256 := Nat.and_two_pow_sub_one_eq_mod x 8

end AmigaDevbench.Bits
