import AmigaDevbench.Client.Log
import AmigaDevbench.Core.Slots
import AmigaDevbench.Daemon.Files

/-!
# Resource and performance reports of a client

A client keeps a table of tracked resources and statistics about its frames and sections. Asked
for one of them, it writes a text with its own bars and commas into the data field of the request.
-/

namespace AmigaDevbench.Client

open Daemon

/-- `struct ResourceEntry` of an active entry. -/
structure ResourceEntry where
  isMem : Bool
  isOpen : Bool
  tag : Text
  ptr : UInt32
  size : UInt32
  deriving DecidableEq, Repr

/-- `res_table`. -/
abbrev ResourceTable := Slots 64 ResourceEntry

/-- `struct PerfSection` of an active section, and the values that a report gives. -/
structure PerfSection where
  label : Text
  total : UInt32
  minVal : UInt32
  maxVal : UInt32
  count : UInt32
  deriving DecidableEq, Repr

/-- The statistics of the frames and `perf_sections`. -/
structure PerfStats where
  frameTotal : UInt32
  frameMin : UInt32
  frameMax : UInt32
  frameNum : UInt32
  sections : Slots 8 PerfSection

/-- The average, 0 without a measurement. -/
def average (total count : UInt32) : UInt32 := if count > 0 then total / count else 0

/-- A minimum as it is reported: the start value stands for none. -/
def reportedMin (minVal : UInt32) : UInt32 := if minVal = 0xFFFFFFFF then 0 else minVal

/-- The loop that lists entries, until the data field is used up. The entries themselves are
written without a look at their length. -/
def writeList : Text → List Text → Text
  | data, [] => data
  | data, entry :: entries =>
    let comma := data ≠ [] ∧ data.getLast? ≠ some '|' ∧ data.length < maxData - 1
    let data' := (if comma then data ++ [','] else data) ++ entry
    if maxData - 2 ≤ data'.length then data' else writeList data' entries

/-- `"%s:%s:%08lx:%lu:%s"`. -/
def resourceText (e : ResourceEntry) : Text :=
  (if e.isMem then "MEM".toList else "HANDLE".toList) ++ ':' :: (e.tag ++ ':' ::
    (hex8 e.ptr.toNat ++ ':' :: (decimal e.size.toNat ++ ':' ::
      if e.isOpen then "OPEN".toList else "CLOSED".toList)))

/-- The data of an ABMSG_GET_RESOURCES. -/
def resourceData (table : ResourceTable) : Text :=
  writeList (decimal table.entries.length ++ ['|']) (table.entries.map resourceText)

/-- `"%s:%lu:%lu:%lu:%lu"`. -/
def sectionText (p : PerfSection) : Text :=
  p.label ++ ':' :: (decimal (average p.total p.count).toNat ++ ':' ::
    (decimal (reportedMin p.minVal).toNat ++ ':' ::
      (decimal p.maxVal.toNat ++ ':' :: decimal p.count.toNat)))

/-- The data of an ABMSG_GET_PERF. -/
def perfData (p : PerfStats) : Text :=
  writeList (decimal (average p.frameTotal p.frameNum).toNat ++ '|' ::
    (decimal (reportedMin p.frameMin).toNat ++ '|' :: (decimal p.frameMax.toNat ++ '|' ::
      (decimal p.frameNum.toNat ++ ['|'])))) (p.sections.entries.map sectionText)

/-- A list is written behind its head. -/
theorem writeList_prefix (data : Text) (entries : List Text) :
    ∃ rest, writeList data entries = data ++ rest := by
  induction entries generalizing data with
  | nil => exact ⟨[], (List.append_nil data).symm⟩
  | cons entry entries ih =>
    unfold writeList
    simp only
    split_ifs
    · exact ⟨[','] ++ entry, by rw [List.append_assoc]⟩
    · obtain ⟨rest, hrest⟩ := ih (data ++ [','] ++ entry)
      exact ⟨[','] ++ entry ++ rest, by rw [hrest]; simp only [List.append_assoc]⟩
    · exact ⟨entry, rfl⟩
    · obtain ⟨rest, hrest⟩ := ih (data ++ entry)
      exact ⟨entry ++ rest, by rw [hrest, List.append_assoc]⟩

end AmigaDevbench.Client
