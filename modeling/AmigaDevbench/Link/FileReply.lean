import AmigaDevbench.Link.Replies

/-!
# The FILE reply between its two ends

`protocol_send_file` writes the offset in front of the number of bytes; `parse_message` reads the
size in front of the offset. The path and the digits arrive as they were sent, and the two numbers
arrive under each other's name.
-/

namespace AmigaDevbench.FileReply

open Daemon Protocol Replies

/-- The line of a FILE reply as `send_line` cuts it. -/
def fileLine (path : Text) (offset size : Nat) (file : Bytes) : Text :=
  (protocolSendFile path offset size (some file)).take maxLine

/-- The message names what was read: the path, the offset, the number of bytes and their digits. -/
structure Agrees (msg : Dict) (path : Text) (offset : Nat) (block : Bytes) : Prop where
  path : msg.get? "path" = some (.str path)
  offset : msg.get? "offset" = some (.int offset)
  size : msg.get? "size" = some (.int block.length)
  hexData : msg.get? "hexData" = some (.str block.hex)

/-- A path of the daemon's buffer leaves the line short enough. -/
theorem fileLine_eq {path : Text} (hlen : path.length ≤ 255) {offset : Nat}
    (hoffset : offset < 2 ^ 32) (size : Nat) (file : Bytes) :
    fileLine path offset size file = protocolSendFile path offset size (some file) := by
  have hchunk := length_fileChunk_le path offset size file
  have hcount := length_decimal_le (length_fileChunk_lt path offset size file)
  have hdecimal := length_decimal_le hoffset
  have hbytes : 2 * (fileChunk path offset size file).length ≤ maxLine - path.length - 40 := by
    have hmax := hchunk.trans (Nat.min_le_right _ _)
    rw [maxBytes] at hmax
    omega
  apply List.take_of_length_le
  change ("FILE|".toList ++ path ++ "|".toList ++ decimal offset ++ "|".toList ++
    decimal (fileChunk path offset size file).length ++ "|".toList ++
      (fileChunk path offset size file).hex).length ≤ maxLine
  have hfile : "FILE|".toList.length = 5 := rfl
  have hbar : "|".toList.length = 1 := rfl
  have hline : maxLine = 8192 := rfl
  simp only [List.length_append, hfile, hbar, Bytes.length_hex]
  omega

/-- The message of the reply agrees exactly when the two numbers are the same. -/
theorem agrees_fileMsg_iff (path : Text) (offset : Nat) (block : Bytes) :
    Agrees (fileMsg path offset block) path offset block ↔ offset = block.length := by
  have hsize : (fileMsg path offset block).get? "size" = some (.int offset) := rfl
  constructor
  · intro h
    have heq := hsize.symm.trans h.size
    simp only [Option.some.injEq, Val.int.injEq] at heq
    omega
  · intro heq
    refine ⟨rfl, ?_, ?_, rfl⟩
    · rw [heq]
      rfl
    · rw [hsize, heq]

/-- For every path of the daemon's buffer without a separator, every offset and every file: the
host reads what the daemon read off the line exactly when the offset is the number of bytes. -/
theorem file_reply_agrees_iff (now : Text) {path : Text} (hbar : '|' ∉ path)
    (hlen : path.length ≤ 255) (offset : UInt32) (size : Nat) (file : Bytes) :
    (∃ msg, parseMessage now (fileLine path offset.toNat size file) = .ok (some msg) ∧
      Agrees msg path offset.toNat (fileChunk path offset.toNat size file)) ↔
    offset.toNat = (fileChunk path offset.toNat size file).length := by
  have hoffset : offset.toNat < 2 ^ 32 := offset.toNat_lt
  have hchunk := length_fileChunk_lt path offset.toNat size file
  have hparse := parseMessage_file now hbar hoffset hchunk
  have hline := fileLine_eq hlen hoffset size file
  rw [← agrees_fileMsg_iff path]
  constructor
  · rintro ⟨msg, hmsg, hagrees⟩
    rw [hline] at hmsg
    cases hparse.symm.trans hmsg
    exact hagrees
  · intro hagrees
    refine ⟨_, ?_, hagrees⟩
    rw [hline]
    exact hparse

/-- One byte at offset one is reported as it was read. -/
theorem file_reply_agrees_second :
    ∃ msg, parseMessage [] (fileLine "S:a".toList 1 1 [7, 8]) = .ok (some msg) ∧
      Agrees msg "S:a".toList 1 [8] :=
  (@file_reply_agrees_iff [] "S:a".toList (by decide) (by decide) 1 1
    [7, 8]).mpr rfl

/-- The first two bytes of a file are reported as no bytes at offset two. -/
theorem file_reply_not_agrees :
    ¬ ∀ (path : Text) (offset : UInt32) (size : Nat) (file : Bytes), '|' ∉ path →
      ∃ msg, parseMessage [] (fileLine path offset.toNat size file) = .ok (some msg) ∧
        Agrees msg path offset.toNat (fileChunk path offset.toNat size file) := by
  intro hall
  obtain ⟨msg, hmsg, hagrees⟩ := hall "S:a".toList 0 2 [7, 8] (by decide)
  have hread := @parseMessage_file [] "S:a".toList 0 [7, 8] (by decide) (by decide) (by decide)
  rw [fileLine_eq (by decide) (by decide)] at hmsg
  cases hread.symm.trans hmsg
  exact absurd ((agrees_fileMsg_iff _ 0 [7, 8]).mp hagrees) (by decide)

end AmigaDevbench.FileReply
