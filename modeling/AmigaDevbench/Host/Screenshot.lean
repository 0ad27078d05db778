import AmigaDevbench.Core.Bytes

/-!
# Decoding of screenshots
-/

namespace AmigaDevbench.Screenshot

/-- `rle_decode`. A slice behind the end of the data is short or empty. -/
def rleDecode (bpp : Nat) : Bytes → Bytes
  | [] => []
  | hdr :: data =>
    let count := (hdr &&& 0x7F).toNat + 1
    if hdr &&& 0x80 ≠ 0 then
      (List.replicate count (data.take bpp)).flatten ++ rleDecode bpp (data.drop bpp)
    else
      let nbytes := count * bpp
      data.take nbytes ++ rleDecode bpp (data.drop nbytes)
termination_by data => data.length
decreasing_by
  · rw [List.length_drop, List.length_cons]
    omega
  · rw [List.length_drop, List.length_cons]
    omega

end AmigaDevbench.Screenshot
