import AmigaDevbench.Link.PullFile

/-!
# The checksum of a file that is read in blocks

The daemon reads a file block by block, as its handler delivers it, and keeps the remainder and the
size from one block to the next.
-/

namespace AmigaDevbench.Checksum

open Daemon FileTransfer

/-- The loop over the bytes of a block, and its size. -/
def checksumBlock (s : BitVec 32 × Nat) (chkBuf : Bytes) : BitVec 32 × Nat :=
  (chkBuf.foldl Crc32.tableStep s.1, (s.2 + chkBuf.length) % 2 ^ 32)

/-- `fs_checksum`, by the blocks that `Read` returns and whether the last `Read` fails. -/
def fsChecksumReads (reads : List Bytes) (failed : Bool) : Option (BitVec 32 × Nat) :=
  let s := reads.foldl checksumBlock (0xFFFFFFFF#32, 0)
  if failed then none else some (s.1 ^^^ 0xFFFFFFFF#32, s.2)

/-- From block to block nothing is lost. -/
theorem foldl_checksumBlock (reads : List Bytes) : ∀ s : BitVec 32 × Nat, s.2 < 2 ^ 32 →
    reads.foldl checksumBlock s =
      (reads.flatten.foldl Crc32.byteStep s.1, (s.2 + reads.flatten.length) % 2 ^ 32) := by
  have hstep : Crc32.tableStep = Crc32.byteStep := by
    funext c b
    exact Crc32.tableStep_eq c b
  induction reads with
  | nil =>
    intro s hs
    exact Prod.ext rfl (Nat.mod_eq_of_lt hs).symm
  | cons chk reads ih =>
    intro s _
    rw [List.foldl_cons, ih _ (Nat.mod_lt _ (Nat.two_pow_pos 32)), checksumBlock,
      List.flatten_cons, List.foldl_append, List.length_append, hstep]
    refine Prod.ext rfl ?_
    simp only [Nat.mod_add_mod, Nat.add_assoc]

/-- The checksum does not depend on how a file is divided into blocks: it is the CRC-32 of the
contents. Sent to the host it matches the checksum of data with the same CRC-32 and no other, and so
that of the contents. -/
theorem checksum_is_crc32 (reads : List Bytes) (data : Bytes) : ∃ crc,
    fsChecksumReads reads false = some (crc, reads.flatten.length % 2 ^ 32) ∧
      crc = Crc32.crc32 reads.flatten ∧
      crcMatch (hex8 crc.toNat) (Crc32.crc32 data) =
        some (decide (Crc32.crc32 reads.flatten = Crc32.crc32 data)) ∧
      crcMatch (hex8 crc.toNat) (Crc32.crc32 reads.flatten) = some true := by
  have hcrc : fsChecksumReads reads false =
      some (Crc32.crc32 reads.flatten, reads.flatten.length % 2 ^ 32) := by
    rw [fsChecksumReads, foldl_checksumBlock reads _ (Nat.two_pow_pos 32), Nat.zero_add]
    rfl
  refine ⟨_, hcrc, rfl, PullFile.crcMatch_hex8 data, ?_⟩
  rw [PullFile.crcMatch_hex8, decide_eq_true rfl]

end AmigaDevbench.Checksum
