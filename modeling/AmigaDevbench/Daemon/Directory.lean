import Mathlib.Data.List.Induction
import AmigaDevbench.Daemon.Listings

/-!
# Directory listings on the daemon

A `LISTDIR` names a path and the number of entries to skip. The reply has the number of all
entries, in front of which room was left before the entries were known, and the entries that fit
on the line.
-/

namespace AmigaDevbench.Daemon

open CText CNumber

/-- The fields of a `FileInfoBlock` that a listing shows. -/
structure FileInfo where
  fileName : CString
  size : Int
  dirEntryType : Int
  fileName_le : fileName.val.length ≤ 107
  size_ge : -2 ^ 31 ≤ size
  size_lt : size < 2 ^ 31

namespace FileInfo

def typeStr (fib : FileInfo) : Text := if 0 < fib.dirEntryType then ['D'] else ['F']

/-- `entry`, without its closing bracket. -/
def body (fib : FileInfo) : Text :=
  fib.fileName.val ++ '(' :: (Client.longText fib.size ++ ',' :: fib.typeStr)

/-- `"%s(%ld,%s)"`. -/
def entry (fib : FileInfo) : Text := fib.body ++ [')']

end FileInfo

/-- The variables of the loop: what stands behind the reserved field, and the counts. -/
structure Page where
  text : Text
  total : Nat
  full : Bool
  firstInPage : Bool

/-- The body of the loop; `start` is the position behind the reserved field. -/
def Page.add (start startIdx : Nat) (page : Page) (fib : FileInfo) : Page :=
  if startIdx ≤ page.total ∧ page.full = false then
    if start + page.text.length + fib.entry.length + 2 ≥ maxLine - 8 then
      { page with full := true, total := page.total + 1 }
    else
      { text := page.text ++ (if page.firstInPage then [] else [',']) ++ fib.entry
        total := page.total + 1
        full := false
        firstInPage := false }
  else { page with total := page.total + 1 }

/-- `"DIR|%s|"`. -/
def dirHeader (path : Text) : Text := "DIR|".toList ++ path ++ ['|']

/-- The page that the loop leaves. -/
def dirPage (path : Text) (startIdx : Nat) (dir : List FileInfo) : Page :=
  dir.foldl (Page.add ((dirHeader path).length + 7) startIdx) ⟨[], 0, false, true⟩

/-- `fs_list_dir` of a directory. -/
def fsListDir (path : Text) (startIdx : Nat) (dir : List FileInfo) : Text :=
  let page := dirPage path startIdx dir
  dirHeader path ++ patchCount 7 (decimal page.total ++ ['|']) page.text

/-- `protocol_send_dir`, for a directory that can be listed or not. -/
def protocolSendDir (path : Text) (offset : Nat) (dir : Option (List FileInfo)) : Text :=
  match dir with
  | some dir => fsListDir path offset dir
  | none => "ERR|LISTDIR failed|".toList ++ path

@[simp] theorem protocolSendDir_some (path : Text) (offset : Nat) (dir : List FileInfo) :
    protocolSendDir path offset (some dir) = fsListDir path offset dir := rfl

/-- `handle_listdir` on a volume. -/
def handleListdir (volume : Text → Option (List FileInfo)) (args : Text) : Text :=
  match args.after? '|' with
  | some startIdx =>
    let path := (args.before '|').take 255
    protocolSendDir path (strtoul 10 startIdx) (volume path)
  | none => protocolSendDir args 0 (volume args)

/-! ### The entries of a page -/

theorem length_longText_le {n : Int} (hlow : -2 ^ 31 ≤ n) (hhigh : n < 2 ^ 31) :
    (Client.longText n).length ≤ 11 := by
  have hdigits : ∀ k : Nat, k ≤ 2 ^ 31 → (decimal k).length ≤ 10 := by
    intro k hk
    rw [decimal, Nat.length_toDigits_le_iff (by omega) (by omega)]
    omega
  rw [Client.longText]
  split
  · exact Nat.succ_le_succ (hdigits _ (by omega))
  · exact (hdigits _ (by omega)).trans (by omega)

/-- An entry fits into its buffer. -/
theorem length_entry_lt (fib : FileInfo) : fib.entry.length < 128 := by
  have hname := fib.fileName_le
  have hsize := length_longText_le fib.size_ge fib.size_lt
  have htype : fib.typeStr.length = 1 := by
    rw [FileInfo.typeStr]
    split <;> rfl
  simp only [FileInfo.entry, FileInfo.body, List.length_append, List.length_cons,
    List.length_nil, htype]
  omega

/-- The page shows the first `n` of the entries from the given one on: all of them, unless it is
full. -/
structure Page.Shows (startIdx : Nat) (dir : List FileInfo) (n : Nat) (page : Page) : Prop where
  total : page.total = dir.length
  text : page.text = [','].intercalate (((dir.drop startIdx).take n).map FileInfo.entry)
  count_le : n ≤ dir.length - startIdx
  all : page.full = false → n = dir.length - startIdx
  pos : page.full = true → 0 < n
  first : page.firstInPage = true ↔ n = 0
  count_le_length : n ≤ page.text.length
  length_le : page.text.length ≤ maxLine

/-- The entries shown so far stay when the directory goes on. -/
theorem take_drop_concat {α : Type} {xs : List α} {x : α} {k n : Nat} (h : n ≤ xs.length - k) :
    ((xs ++ [x]).drop k).take n = (xs.drop k).take n := by
  rcases Nat.le_total k xs.length with hk | hk
  · rw [List.drop_append_of_le_length hk, List.take_append_of_le_length]
    rwa [List.length_drop]
  · have hn : n = 0 := by omega
    rw [hn, List.take_zero, List.take_zero]

/-- One more entry of the directory. -/
theorem Page.Shows.add {start startIdx n : Nat} {dir : List FileInfo} {page : Page}
    (h : page.Shows startIdx dir n) (hstart : start ≤ 1024) (fib : FileInfo) :
    ∃ n', (page.add start startIdx fib).Shows startIdx (dir ++ [fib]) n' := by
  have hlength : (dir ++ [fib]).length = dir.length + 1 := by
    rw [List.length_append, List.length_singleton]
  have hle := h.count_le
  have htext := h.text.trans (congrArg (fun l => [','].intercalate (l.map FileInfo.entry))
    (take_drop_concat (x := fib) h.count_le).symm)
  have htotal : page.total + 1 = (dir ++ [fib]).length := by rw [h.total, hlength]
  rw [Page.add]
  split
  · next hin =>
    have hn := h.all hin.2
    have hentry := length_entry_lt fib
    rw [h.total] at hin
    split
    · next hfull =>
      refine ⟨n, htotal, htext, by omega, fun hc => (by cases hc), fun _ => ?_, h.first,
        h.count_le_length, h.length_le⟩
      -- the first entry of a page always fits
      rw [maxLine] at hfull
      have := h.count_le_length
      by_contra hzero
      have hnil : page.text.length = 0 := by
        rw [h.text, Nat.eq_zero_of_not_pos hzero]
        rfl
      omega
    · next hfits =>
      have hdrop : (dir ++ [fib]).drop startIdx = dir.drop startIdx ++ [fib] :=
        List.drop_append_of_le_length hin.1
      have hall : (dir.drop startIdx).take n = dir.drop startIdx :=
        List.take_of_length_le (by rw [List.length_drop]; omega)
      have htake : ((dir ++ [fib]).drop startIdx).take (n + 1) = dir.drop startIdx ++ [fib] := by
        rw [hdrop, List.take_of_length_le]
        rw [List.length_append, List.length_drop, List.length_singleton]
        omega
      have hshown : page.text ++ (if page.firstInPage then [] else [',']) ++ fib.entry =
          [','].intercalate (((dir ++ [fib]).drop startIdx).take (n + 1) |>.map
            FileInfo.entry) := by
        rw [htake, List.map_append, h.text, hall]
        by_cases hzero : n = 0
        · have hnil : dir.drop startIdx = [] := List.drop_eq_nil_of_le (by omega)
          rw [h.first.mpr hzero, hnil]
          exact (List.intercalate_singleton).symm
        · have hne : (dir.drop startIdx).map FileInfo.entry ≠ [] := by
            rw [ne_eq, List.map_eq_nil_iff, List.drop_eq_nil_iff]
            omega
          have hfirst : page.firstInPage = false := Bool.eq_false_iff.mpr (mt h.first.mp hzero)
          rw [hfirst, List.map_singleton, Text.intercalate_concat _ _ hne]
          rfl
      refine ⟨n + 1, htotal, hshown, by omega, fun _ => by omega, fun hc => (by cases hc),
        ?_, ?_, ?_⟩
      · simp
      · rw [List.length_append, List.length_append]
        have : 1 ≤ fib.entry.length := by simp [FileInfo.entry]
        have := h.count_le_length
        omega
      · rw [List.length_append, List.length_append]
        have : (if page.firstInPage then ([] : Text) else [',']).length ≤ 1 := by
          split
          · exact Nat.zero_le 1
          · exact Nat.le_refl 1
        rw [maxLine] at hfits ⊢
        omega
  · next hout =>
    rw [h.total] at hout
    refine ⟨n, htotal, htext, by omega, fun hc => ?_, h.pos, h.first, h.count_le_length,
      h.length_le⟩
    have hn := h.all hc
    have hout : dir.length < startIdx := by
      by_contra hge
      exact hout ⟨by omega, hc⟩
    rw [hlength]
    omega

theorem shows_dirPage {path : Text} (hpath : path.length ≤ 255) (startIdx : Nat)
    (dir : List FileInfo) : ∃ n, (dirPage path startIdx dir).Shows startIdx dir n := by
  have hstart : (dirHeader path).length + 7 ≤ 1024 := by
    have : (dirHeader path).length = 4 + path.length + 1 := by
      rw [dirHeader, List.length_append, List.length_append]
      rfl
    omega
  induction dir using List.reverseRecOn with
  | nil =>
    refine ⟨0, rfl, ?_, Nat.zero_le _, fun _ => ?_, fun hc => (by cases hc), by simp [dirPage],
      Nat.zero_le _, Nat.zero_le _⟩
    · rw [List.take_zero]
      rfl
    · exact (Nat.zero_sub startIdx).symm
  | append_singleton dir fib ih =>
    obtain ⟨n, hn⟩ := ih
    rw [dirPage, List.foldl_concat]
    exact hn.add hstart fib

/-- The page that is sent: the total, and the first entries from the given one on. -/
theorem fsListDir_eq {path : Text} (hpath : path.length ≤ 255) (startIdx : Nat)
    {dir : List FileInfo} (htotal : dir.length < 10 ^ 6) :
    ∃ n ≤ dir.length - startIdx, n ≤ maxLine ∧ (startIdx < dir.length → 0 < n) ∧
      fsListDir path startIdx dir = dirHeader path ++ (decimal dir.length ++ '|' ::
        [','].intercalate (((dir.drop startIdx).take n).map FileInfo.entry)) := by
  obtain ⟨n, hn⟩ := shows_dirPage hpath startIdx dir
  refine ⟨n, hn.count_le, hn.count_le_length.trans hn.length_le, fun hlt => ?_, ?_⟩
  · cases hfull : (dirPage path startIdx dir).full with
    | false =>
      have := hn.all hfull
      omega
    | true => exact hn.pos hfull
  · have hdigits : (decimal dir.length).length ≤ 6 := by
      rw [decimal, Nat.length_toDigits_le_iff (by omega) (by omega)]
      exact htotal
    rw [fsListDir, hn.total, patchCount,
      if_pos (by rw [List.length_append, List.length_singleton]; omega), hn.text,
      List.append_assoc]
    rfl

end AmigaDevbench.Daemon
