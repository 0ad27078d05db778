import AmigaDevbench.Core.Bytes
import AmigaDevbench.Core.RunLength

/-!
# Compressed screenshot rows

A row of pixels is written packet by packet. A packet begins with one byte: whether it is a run, and
one less than the number of its pixels.
-/

namespace AmigaDevbench.Daemon

open RunLength

/-- A pixel of `bpp` bytes. -/
abbrev Pixel (bpp : Nat) := { bytes : Bytes // bytes.length = bpp }

variable {bpp : Nat}

/-- `rle_encode`: the bytes from the pixel at `ip` on. -/
def rleEncode : List (Pixel bpp) → Bytes
  | [] => []
  | p :: rest =>
    let run := 1 + repeats p 127 rest
    if 2 ≤ run then
      UInt8.ofNat (0x80 ||| (run - 1)) :: (p.val ++ rleEncode ((p :: rest).drop run))
    else
      let lit := 1 + singles 127 rest
      UInt8.ofNat (lit - 1) ::
        (((p :: rest).take lit).flatMap Subtype.val ++ rleEncode ((p :: rest).drop lit))
termination_by pixels => pixels.length
decreasing_by
  · rw [List.length_drop, List.length_cons]
    omega
  · rw [List.length_drop, List.length_cons]
    omega

/-- The bytes of a packet. -/
def packetBytes : Packet (Pixel bpp) → Bytes
  | .run n p => UInt8.ofNat (0x80 ||| (n - 1)) :: p.val
  | .literal pixels => UInt8.ofNat (pixels.length - 1) :: pixels.flatMap Subtype.val

theorem packetBytes_literal (pixels : List (Pixel bpp)) : packetBytes (.literal pixels) =
    UInt8.ofNat (pixels.length - 1) :: pixels.flatMap Subtype.val := rfl

/-- The packets are written one after the other. -/
theorem rleEncode_eq (pixels : List (Pixel bpp)) :
    rleEncode pixels = (packets pixels).flatMap packetBytes := by
  fun_induction packets pixels with
  | case1 =>
    rw [rleEncode]
    rfl
  | case2 p rest hrun ih =>
    rw [rleEncode]
    simp only [Nat.add_comm 1]
    rw [if_pos (Nat.succ_le_succ hrun), List.drop_succ_cons, ih, List.flatMap_cons, packetBytes,
      List.cons_append, Nat.add_sub_cancel]
  | case3 p rest hrun ih =>
    have hle := (singles_le 127 rest).2
    rw [rleEncode]
    simp only [Nat.add_comm 1]
    rw [if_neg (by omega), List.drop_succ_cons, List.take_succ_cons, ih,
      List.flatMap_cons (f := packetBytes), packetBytes_literal, List.cons_append, List.length_cons,
      List.length_take,
      Nat.min_eq_left hle]

theorem length_flatMap_val (pixels : List (Pixel bpp)) :
    (pixels.flatMap Subtype.val).length = pixels.length * bpp := by
  induction pixels with
  | nil => exact (Nat.zero_mul bpp).symm
  | cons p pixels ih =>
    rw [List.flatMap_cons, List.length_append, ih, p.property, List.length_cons, Nat.succ_mul,
      Nat.add_comm]

theorem length_packetBytes (packet : Packet (Pixel bpp)) :
    (packetBytes packet).length = packet.cost bpp := by
  cases packet with
  | run n p => rw [packetBytes, List.length_cons, p.property, Packet.cost]
  | literal pixels => rw [packetBytes, List.length_cons, length_flatMap_val, Packet.cost]

/-- The length of an encoded row, from the lengths of the stretches of equal pixels. -/
theorem length_rleEncode (pixels : List (Pixel bpp)) : (rleEncode pixels).length =
    literals (stretches pixels) + (stretches pixels).countP (· = 1) * bpp +
      (stretches pixels).countP (· ≠ 1) * (bpp + 1) := by
  have hlength : List.length ∘ packetBytes = Packet.cost (α := Pixel bpp) bpp :=
    funext length_packetBytes
  rw [rleEncode_eq, List.length_flatMap, ← sum_cost_packets]
  exact congrArg (fun f => ((packets pixels).map f).sum) hlength

/-- Rows of pixels with two bytes or more stay within the size that `out` must have. Rows of
one-byte pixels do if their literals are no more than what the runs save. -/
theorem length_rleEncode_le_iff (hbpp : 1 ≤ bpp) (pixels : List (Pixel bpp)) :
    (rleEncode pixels).length ≤ pixels.length * bpp + pixels.length / 128 + 1 ↔
      2 ≤ bpp ∨
        literals (stretches pixels) ≤ surplus (stretches pixels) + pixels.length / 128 + 1 := by
  obtain ⟨hsum, hpos⟩ := sum_stretches pixels
  have hcount := sum_eq_surplus hpos
  rw [length_rleEncode, ← hsum]
  rcases Nat.lt_or_ge bpp 2 with hone | htwo
  · obtain rfl : bpp = 1 := by omega
    omega
  · refine iff_of_true ?_ (.inl htwo)
    have hliterals : literals (stretches pixels) ≤ _ := groupsFrom_le 0 (stretches pixels)
    generalize literals (stretches pixels) = groups at hliterals
    generalize (stretches pixels).countP (· = 1) = ones at hcount hliterals ⊢
    generalize (stretches pixels).countP (· ≠ 1) = runs at hcount hliterals ⊢
    generalize (stretches pixels).sum = count at hcount
    have hwhole : count * bpp = ones * bpp + 2 * runs * bpp + surplus (stretches pixels) * bpp := by
      rw [hcount, Nat.add_mul, Nat.add_mul]
    -- a run of two pixels is shorter than they are
    have hsave : runs * 2 ≤ runs * bpp := Nat.mul_le_mul_left runs htwo
    have hruns : runs * (bpp + 1) = runs * bpp + runs := Nat.mul_succ runs bpp
    have htwice : 2 * runs * bpp = runs * bpp + runs * bpp := by
      rw [Nat.mul_assoc, Nat.two_mul]
    omega

/-- A row of one-byte pixels. -/
def penRow (pens : List UInt8) : List (Pixel 1) := pens.map fun pen => ⟨[pen], rfl⟩

theorem length_rleEncode_grey : (rleEncode (penRow [1, 1, 2])).length ≤ 3 * 1 + 3 / 128 + 1 ↔
    2 ≤ 1 ∨ literals (stretches (penRow [1, 1, 2])) ≤
      surplus (stretches (penRow [1, 1, 2])) + 3 / 128 + 1 :=
  length_rleEncode_le_iff (Nat.le_refl 1) (penRow [1, 1, 2])

/-- One pixel and two equal ones, again and again, take four bytes for three pixels. -/
theorem length_rleEncode_not_le : ¬ ∀ bpp ≥ 1, ∀ pixels : List (Pixel bpp),
    (rleEncode pixels).length ≤ pixels.length * bpp + pixels.length / 128 + 1 := by
  intro h
  have hle := h 1 (Nat.le_refl 1) (penRow [0, 1, 1, 2, 3, 3])
  rw [length_rleEncode] at hle
  exact absurd hle (by decide)

end AmigaDevbench.Daemon
