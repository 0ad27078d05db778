import AmigaDevbench.Daemon.Memory

/-!
# The ranges that memory commands must not touch

The first address of a command is compared with the ranges, and up to 256 bytes behind it are not.
So a command keeps out of a range if it does not run into it from below.
-/

namespace AmigaDevbench.Daemon

open CNumber

/-- `addr` and `databuf` of a `WRITEMEM`. -/
def writememRequest (args : Text) : Option (Nat × Bytes) :=
  (args.after? '|').map fun hex => (strtoul 16 args, ((hexBytes hex).take 256).map UInt8.ofNat)

/-- `addr` and `size` of an `INSPECT`. -/
def inspectRequest (args : Text) : Nat × Nat :=
  match args.after? '|' with
  | some size => (strtoul 16 args, strtoul 10 size)
  | none => (strtoul 16 args, 16)

/-- A `WRITEMEM` that writes. -/
structure AcceptedWrite where
  args : Text
  addr : Nat
  data : Bytes
  request : writememRequest args = some (addr, data)
  accepted : writeRefused addr = none

/-- An `INSPECT` that reads. -/
structure AcceptedRead where
  args : Text
  addr : Nat
  size : Nat
  request : inspectRequest args = (addr, size)
  size_ne : size ≠ 0
  accepted : inspectRefused addr = false

/-- How many bytes are read. -/
def AcceptedRead.length (r : AcceptedRead) : Nat := min r.size inspectLimit

/-- The bytes that are written are the data. -/
theorem AcceptedWrite.written (w : AcceptedWrite) (memory : Memory) :
    (handleWritemem memory w.addr w.data).1 = writeBytes memory w.addr w.data := by
  rw [handleWritemem, w.accepted]

theorem AcceptedRead.answer (r : AcceptedRead) (memory : Memory) :
    handleInspect memory r.addr r.size = memLine r.addr (readBytes memory r.addr r.length) := by
  rw [handleInspect, if_neg r.size_ne, r.accepted]
  rfl

theorem AcceptedWrite.data_le (w : AcceptedWrite) : w.data.length ≤ 256 := by
  have h := w.request
  rw [writememRequest, Option.map_eq_some_iff] at h
  obtain ⟨hex, -, heq⟩ := h
  rw [← (Prod.mk.inj heq).2, List.length_map]
  exact List.length_take_le _ _

theorem AcceptedRead.addr_lt (r : AcceptedRead) : r.addr < 2 ^ 32 := by
  have h := r.request
  rw [inspectRequest] at h
  split at h
  · exact (Prod.mk.inj h).1 ▸ strtoul_lt 16 r.args
  · exact (Prod.mk.inj h).1 ▸ strtoul_lt 16 r.args

/-- What is not refused, as comparisons. -/
theorem writeRefused_eq_none_iff (a : Nat) : writeRefused a = none ↔
    4 ≤ a ∧ (a < 0xBF0000 ∨ 0xC00000 ≤ a) ∧ (a < 0xDFF000 ∨ 0xE00000 ≤ a) ∧ a < 0xF80000 := by
  rw [writeRefused]
  split_ifs <;> simp <;> omega

theorem inspectRefused_eq_false_iff (a : Nat) :
    inspectRefused a = false ↔ a < 0xDFF000 ∨ 0xE00000 ≤ a := by
  rw [inspectRefused, Bool.and_eq_false_iff]
  simp

/-- A command that begins in front of an address goes past it. -/
def RunsInto (addr length start : Nat) : Prop := addr < start ∧ start < addr + length

/-- The ranges of the handlers that a command can run into: the CIA, the custom chips and the ROM. -/
def rangeStarts : List Nat := [0xBF0000, 0xDFF000, 0xF80000]

theorem write_keeps_out_iff (w : AcceptedWrite) :
    (∀ i < w.data.length, writeRefused (wrap w.addr i) = none) ↔
      ∀ start ∈ rangeStarts, ¬ RunsInto w.addr w.data.length start := by
  have hle := w.data_le
  have haddr := (writeRefused_eq_none_iff w.addr).mp w.accepted
  have hwrap : ∀ i < w.data.length, wrap w.addr i = w.addr + i := fun i hi =>
    Nat.mod_eq_of_lt (by omega)
  constructor
  · intro h start hstart hruns
    rw [RunsInto] at hruns
    have hi := (writeRefused_eq_none_iff _).mp (h (start - w.addr) (by omega))
    rw [hwrap _ (by omega), Nat.add_sub_cancel' hruns.1.le] at hi
    simp only [rangeStarts, List.mem_cons, List.not_mem_nil, or_false] at hstart
    omega
  · intro h i hi
    have hcia := h 0xBF0000 (by decide)
    have hcustom := h 0xDFF000 (by decide)
    have hrom := h 0xF80000 (by decide)
    rw [RunsInto] at hcia hcustom hrom
    rw [writeRefused_eq_none_iff, hwrap i hi]
    omega

theorem read_keeps_out_iff (r : AcceptedRead) :
    (∀ i < r.length, inspectRefused (wrap r.addr i) = false) ↔
      ¬ RunsInto r.addr r.length 0xDFF000 := by
  have hlt := r.addr_lt
  have hle : r.length ≤ 256 := Nat.min_le_right _ _
  have haddr := (inspectRefused_eq_false_iff r.addr).mp r.accepted
  constructor
  · intro h hruns
    rw [RunsInto] at hruns
    have hi := (inspectRefused_eq_false_iff _).mp (h (0xDFF000 - r.addr) (by omega))
    rw [wrap] at hi
    omega
  · intro h i hi
    rw [RunsInto] at h
    rw [inspectRefused_eq_false_iff, wrap]
    omega

/-- The bytes that a command writes or reads keep out of the ranges that its handler rejects exactly
if it does not run into one of them from below. -/
theorem protected_ranges_iff (w : AcceptedWrite) (r : AcceptedRead) :
    ((∀ i < w.data.length, writeRefused (wrap w.addr i) = none) ↔
      ∀ start ∈ rangeStarts, ¬ RunsInto w.addr w.data.length start) ∧
    ((∀ i < r.length, inspectRefused (wrap r.addr i) = false) ↔
      ¬ RunsInto r.addr r.length 0xDFF000) :=
  ⟨write_keeps_out_iff w, read_keeps_out_iff r⟩

/-- Two bytes in front of the custom chips, four bytes long. -/
def writeIntoCustom : AcceptedWrite where
  args := "DFEFFE|00000000".toList
  addr := 0xDFEFFE
  data := [0, 0, 0, 0]
  request := by decide
  accepted := by decide

def readIntoCustom : AcceptedRead where
  args := "DFEFFE|4".toList
  addr := 0xDFEFFE
  size := 4
  request := by decide
  size_ne := by decide
  accepted := by decide

theorem not_kept_out :
    (¬ ∀ (w : AcceptedWrite), ∀ i < w.data.length, writeRefused (wrap w.addr i) = none) ∧
      ¬ ∀ (r : AcceptedRead), ∀ i < r.length, inspectRefused (wrap r.addr i) = false := by
  constructor
  · exact fun h => absurd (h writeIntoCustom 2 (by decide)) (by decide)
  · exact fun h => absurd (h readIntoCustom 2 (by decide)) (by decide)

end AmigaDevbench.Daemon
