import AmigaDevbench.Daemon.RunLength
import AmigaDevbench.Host.Screenshot

/-!
# Compressed rows from the daemon to the host

The decoder takes one packet off the front, whatever stands behind it. As many pixels as a header
announces are there, so a row comes back packet by packet.
-/

namespace AmigaDevbench.Screenshot

open Daemon RunLength

variable {bpp : Nat}

/-- The seven low bits of a header are the number, and the eighth tells a run from a literal. -/
theorem header_bits : ∀ n < 128,
    (UInt8.ofNat (0x80 ||| n) &&& 0x80 ≠ 0 ∧ (UInt8.ofNat (0x80 ||| n) &&& 0x7F).toNat = n) ∧
      UInt8.ofNat n &&& 0x80 = 0 ∧ (UInt8.ofNat n &&& 0x7F).toNat = n := by
  decide

/-- The bytes that a packet stands for. -/
def expandBytes (packet : Packet (Pixel bpp)) : Bytes := packet.expand.flatMap Subtype.val

theorem flatten_replicate_val (n : Nat) (p : Pixel bpp) :
    (List.replicate n p.val).flatten = (List.replicate n p).flatMap Subtype.val := by
  rw [List.flatMap_def, List.map_replicate]

/-- A packet is taken off the front of the data. -/
theorem rleDecode_packet {packet : Packet (Pixel bpp)} (h : packet.Fits) (rest : Bytes) :
    rleDecode bpp (packetBytes packet ++ rest) = expandBytes packet ++ rleDecode bpp rest := by
  cases packet with
  | run n p =>
    obtain ⟨hpos, hle⟩ := h
    obtain ⟨hrun, hcount⟩ := (header_bits (n - 1) (by omega)).1
    have hpixel : (p.val ++ rest).take bpp = p.val := List.take_left' p.property
    have hrest : (p.val ++ rest).drop bpp = rest := List.drop_left' p.property
    have hn : n - 1 + 1 = n := Nat.sub_add_cancel hpos
    rw [packetBytes, List.cons_append, rleDecode, if_pos hrun, hcount, hpixel, hrest, hn,
      flatten_replicate_val]
    rfl
  | literal pixels =>
    obtain ⟨hpos, hle⟩ := h
    obtain ⟨hliteral, hcount⟩ := (header_bits (pixels.length - 1) (by omega)).2
    have hlength : (pixels.flatMap Subtype.val).length = (pixels.length - 1 + 1) * bpp := by
      rw [length_flatMap_val, Nat.sub_add_cancel hpos]
    rw [packetBytes_literal, List.cons_append, rleDecode, if_neg (not_not.mpr hliteral)]
    simp only [hcount]
    rw [List.take_left' hlength, List.drop_left' hlength]
    rfl

/-- The packets of a row come back one after the other. -/
theorem rleDecode_packets {row : List (Packet (Pixel bpp))} (h : ∀ packet ∈ row, packet.Fits) :
    rleDecode bpp (row.flatMap packetBytes) = row.flatMap expandBytes := by
  induction row with
  | nil => rw [List.flatMap_nil, rleDecode, List.flatMap_nil]
  | cons packet row ih =>
    rw [List.flatMap_cons, rleDecode_packet (h packet List.mem_cons_self),
      ih fun p hp => h p (List.mem_cons_of_mem packet hp), List.flatMap_cons]

/-- A row comes back, whatever the size of its pixels. -/
theorem rleDecode_rleEncode (pixels : List (Pixel bpp)) :
    rleDecode bpp (rleEncode pixels) = pixels.flatMap Subtype.val := by
  have hrow : (packets pixels).flatMap expandBytes =
      ((packets pixels).flatMap Packet.expand).flatMap Subtype.val := List.flatMap_assoc.symm
  rw [rleEncode_eq, rleDecode_packets fun packet hp => fits_of_mem_packets hp, hrow,
    expand_packets]

end AmigaDevbench.Screenshot
