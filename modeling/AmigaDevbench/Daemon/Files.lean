import AmigaDevbench.Core.Bytes
import AmigaDevbench.Core.Crc32
import AmigaDevbench.Daemon.Commands

/-!
# Files and scripts on the daemon

A `READFILE` is answered with as many bytes as fit on one line in hexadecimal, which depends on
the length of the path; a `WRITEFILE` names its offset and creates the file at offset zero. A
`SCRIPT` is started in the background, its output captured in a file of its own, and a sentinel
is echoed behind it.
-/

namespace AmigaDevbench.Daemon

/-- `"%lu"`. -/
def decimal (n : Nat) : Text := Nat.toDigits 10 n

/-- The most bytes that fit on the line of a reply. -/
def maxBytes (path : Text) : Nat := (maxLine - path.length - 40) / 2

/-- `fs_read_file`: seeking behind the end of the file reads nothing. -/
def fsReadFile (file : Bytes) (offset size : Nat) : Bytes := (file.drop offset).take size

/-- The bytes with which `protocol_send_file` answers. -/
def fileChunk (path : Text) (offset size : Nat) (file : Bytes) : Bytes :=
  fsReadFile file offset (min (min size 4096) (maxBytes path))

theorem length_fileChunk_le (path : Text) (offset size : Nat) (file : Bytes) :
    (fileChunk path offset size file).length ≤ min (min size 4096) (maxBytes path) := by
  unfold fileChunk fsReadFile
  exact List.length_take_le _ _

theorem length_fileChunk_lt (path : Text) (offset size : Nat) (file : Bytes) :
    (fileChunk path offset size file).length < 2 ^ 32 := by
  have hmin : min (min size 4096) (maxBytes path) ≤ 4096 :=
    (Nat.min_le_left _ _).trans (Nat.min_le_right _ _)
  exact ((length_fileChunk_le path offset size file).trans hmin).trans_lt (by decide)

/-- `protocol_send_file`, for a file that exists or not. -/
def protocolSendFile (path : Text) (offset size : Nat) (file : Option Bytes) : Text :=
  match file with
  | some file =>
    let chunk := fileChunk path offset size file
    "FILE|".toList ++ path ++ "|".toList ++ decimal offset ++ "|".toList ++
      decimal chunk.length ++ "|".toList ++ chunk.hex
  | none => "ERR|READFILE failed|".toList ++ path

/-- `fs_checksum`: the CRC-32 of a file, computed with the table of sixteen words, and its
size. -/
def fsChecksum (file : Bytes) : BitVec 32 × Nat :=
  (file.foldl Crc32.tableStep 0xFFFFFFFF#32 ^^^ 0xFFFFFFFF#32, file.length)

/-- `"%08lx"`. -/
def hex8 (n : Nat) : Text :=
  List.replicate (8 - (Nat.toDigits 16 n).length) '0' ++ Nat.toDigits 16 n

/-- `handle_checksum`. -/
def handleChecksum (path : Text) (file : Option Bytes) : Text :=
  match file with
  | some file =>
    "CHECKSUM|".toList ++ path ++ "|".toList ++ hex8 (fsChecksum file).1.toNat ++ "|".toList ++
      decimal (fsChecksum file).2
  | none => "ERR|CHECKSUM|".toList ++ path

/-- `fs_write_file` on a disk with room: offset zero truncates the file or creates it; any other
offset needs a file that reaches it. -/
def fsWriteFile (file : Option Bytes) (offset : Nat) (data : Bytes) : Option Bytes :=
  if offset = 0 then some data
  else match file with
    | some file =>
      if file.length < offset then none
      else some (file.take offset ++ data ++ file.drop (offset + data.length))
    | none => none

/-- `handle_writefile`: the file afterwards, and the reply. -/
def handleWritefile (path : Text) (offset : Nat) (hex : Text) (file : Option Bytes) :
    Option Bytes × Text :=
  let data : Bytes := ((hexBytes hex).take 4096).map UInt8.ofNat
  match fsWriteFile file offset data with
  | some file => (some file, "OK|WRITEFILE|".toList ++ decimal data.length)
  | none => (file, "ERR|WRITEFILE failed|".toList ++ path)

/-- Bytes are read back from their digits. -/
theorem hexBytes_hex (bs : Bytes) : hexBytes bs.hex = bs.map UInt8.toNat := by
  have hpair : ∀ hi < 16, ∀ lo < 16,
      CNumber.strtoul 16 [Nat.digitChar hi, Nat.digitChar lo] = 16 * hi + lo := by
    decide
  induction bs with
  | nil => rfl
  | cons b bs ih =>
    have hb := b.toNat_lt
    have hvalue : CNumber.strtoul 16
        [Nat.digitChar (b.toNat / 16), Nat.digitChar (b.toNat % 16)] % 256 =
        b.toNat := by
      rw [hpair _ (by omega) _ (by omega)]
      omega
    rw [Bytes.hex_cons, hexBytes, hvalue, ih, List.map_cons]

/-- The table computes the CRC-32. -/
theorem fsChecksum_eq (file : Bytes) : fsChecksum file = (Crc32.crc32 file, file.length) := by
  have hstep : Crc32.tableStep = Crc32.byteStep := by
    funext c b
    exact Crc32.tableStep_eq c b
  rw [fsChecksum, hstep, Crc32.crc32]

/-- `protocol_send_cmd_response`. -/
def protocolSendCmdResponse (cmdId : Nat) (status data : Text) : Text :=
  "CMD|".toList ++ decimal cmdId ++ "|".toList ++ status ++ "|".toList ++ data

/-- `SCRIPT_SENTINEL`. -/
def scriptSentinel : Text := "###ABDONE###".toList

/-- Where the output of a script is captured. -/
def outPath (cmdId : Nat) : Text := "T:ab_sout_".toList ++ decimal cmdId

/-- `script_write_semicolon_delimited`. -/
def semicolonDelimited (script : Text) : Text :=
  let lines := script.map fun c => if c = ';' then '\n' else c
  if lines.getLast? = some '\n' then lines else lines ++ ['\n']

/-- The script file that `handle_script` writes: the sentinel is echoed last, whatever the
commands return. -/
def scriptFile (script : Text) : Text :=
  "FailAt 255\n".toList ++ semicolonDelimited script ++ "Echo ".toList ++ scriptSentinel ++ ['\n']

/-- The answer of `handle_script` when the script was started. -/
def handleScript (cmdId : Nat) : Text :=
  protocolSendCmdResponse cmdId "OK".toList ("ASYNC|".toList ++ outPath cmdId)

/-- The captured file of a finished script: its output and the echoed sentinel. -/
def capture (out : Bytes) : Bytes :=
  out ++ scriptSentinel.map (fun c => UInt8.ofNat c.toNat) ++ [10]

theorem length_outPath {cmdId : Nat} (h : cmdId < 100000) :
    11 ≤ (outPath cmdId).length ∧ (outPath cmdId).length ≤ 15 := by
  have hpos : 0 < (Nat.toDigits 10 cmdId).length := Nat.length_toDigits_pos
  have hle : (Nat.toDigits 10 cmdId).length ≤ 5 := by
    rw [Nat.length_toDigits_le_iff (by decide) (by decide)]
    exact h
  have hfront : "T:ab_sout_".toList.length = 10 := rfl
  have hlen : (outPath cmdId).length = "T:ab_sout_".toList.length + (Nat.toDigits 10 cmdId).length :=
    List.length_append
  generalize (Nat.toDigits 10 cmdId).length = digits at hpos hle hlen
  omega

end AmigaDevbench.Daemon
