import AmigaDevbench.Daemon.Files

/-!
# Memory commands of the daemon

`INSPECT` reads up to 256 bytes and `WRITEMEM` writes up to 256 bytes; each names its address and
is answered with one line. Both refuse ranges of the address space that must not be touched, and
refuse nothing else: the addresses behind the first one are not looked at.
-/

namespace AmigaDevbench.Daemon

/-- The bytes of the 32-bit address space. -/
abbrev Memory := Nat → UInt8

/-- The address `i` bytes behind another one. -/
def wrap (address i : Nat) : Nat := (address + i) % 2 ^ 32

/-- The bytes from an address on. -/
def readBytes (memory : Memory) (address size : Nat) : Bytes :=
  (List.range size).map fun i => memory (wrap address i)

@[simp] theorem length_readBytes (memory : Memory) (address size : Nat) :
    (readBytes memory address size).length = size := by
  rw [readBytes, List.length_map, List.length_range]

/-- `CopyMem` to an address. -/
def writeBytes (memory : Memory) (address : Nat) (data : Bytes) : Memory := fun a =>
  match (List.range data.length).find? fun i => wrap address i = a with
  | some i => data.getD i 0
  | none => memory a

/-- A shorter reading is the beginning of a longer one. -/
theorem take_readBytes (memory : Memory) (address : Nat) {k n : Nat} (h : k ≤ n) :
    (readBytes memory address n).take k = readBytes memory address k := by
  rw [readBytes, readBytes, ← List.map_take, List.take_range, Nat.min_eq_left h]

/-- Different offsets are different places. -/
theorem wrap_inj {address i j : Nat} (hi : i < 2 ^ 32) (hj : j < 2 ^ 32)
    (h : wrap address i = wrap address j) : i = j := by
  unfold wrap at h
  omega

/-- What was written is read back. -/
theorem readBytes_writeBytes (memory : Memory) (address : Nat) {data : Bytes}
    (h : data.length ≤ 2 ^ 32) :
    readBytes (writeBytes memory address data) address data.length = data := by
  apply List.ext_getElem (length_readBytes _ _ _)
  intro i _ hi
  have hfind : (List.range data.length).find? (fun j => wrap address j = wrap address i) =
      some i := by
    rw [List.find?_range_eq_some]
    refine ⟨by simp, List.mem_range.mpr hi, fun j hj => ?_⟩
    have hne : wrap address j ≠ wrap address i := fun heq =>
      absurd (wrap_inj (by omega) (by omega) heq) (by omega)
    simpa using hne
  simp [readBytes, writeBytes, hfind, hi]

/-- A MEM line, as `protocol_send_mem` and `handle_inspect` write it. -/
def memLine (address : Nat) (data : Bytes) : Text :=
  "MEM|".toList ++ hex8 address ++ '|' :: (decimal data.length ++ '|' :: data.hex)

/-- The custom chip registers are not read. -/
def inspectRefused (address : Nat) : Bool := 0xDFF000 ≤ address && address < 0xE00000

/-- The most bytes of one `INSPECT`. -/
def inspectLimit : Nat := 256

/-- `handle_inspect` with the checks of `sys_inspect_mem`. -/
def handleInspect (memory : Memory) (address size : Nat) : Text :=
  if size = 0 then "ERR|INSPECT|size is 0".toList
  else if inspectRefused address then
    "ERR|INSPECT|address ".toList ++ hex8 address ++ " not accessible".toList
  else memLine address (readBytes memory address (min size inspectLimit))

/-- The ranges that `handle_writemem` does not write: the null page, CIA, custom chips, ROM. -/
def writeRefused (address : Nat) : Option String :=
  if address < 4 then some "address too low"
  else if 0xBF0000 ≤ address ∧ address < 0xC00000 then some "CIA registers - use caution"
  else if 0xDFF000 ≤ address ∧ address < 0xE00000 then
    some "custom chip registers - use caution"
  else if 0xF80000 ≤ address then some "ROM is read-only"
  else none

/-- `handle_writemem`: the memory afterwards, and the reply. -/
def handleWritemem (memory : Memory) (address : Nat) (data : Bytes) : Memory × Text :=
  match writeRefused address with
  | some detail => (memory, "ERR|WRITEMEM|".toList ++ detail.toList)
  | none =>
    (writeBytes memory address data,
      "OK|WRITEMEM|".toList ++ hex8 address ++ '|' :: decimal data.length)

end AmigaDevbench.Daemon
