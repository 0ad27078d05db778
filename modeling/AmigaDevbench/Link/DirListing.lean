import Mathlib.Data.List.Infix
import AmigaDevbench.Core.Records
import AmigaDevbench.Daemon.Directory
import AmigaDevbench.Host.ListDir
import AmigaDevbench.Link.Replies

/-!
# Directory listings from the daemon to the host

An entry is its name, its size and its type, with nothing escaped. The host cuts the entries at
every closing bracket before a comma and a name at its first opening bracket.
-/

namespace AmigaDevbench.DirListing

open Daemon Protocol ListDir Replies

/-! ### One entry -/

/-- A name that the host reads back: it begins with no blank and no separator of the line, and
contains neither an opening bracket nor a closing one before a comma. -/
structure Clean (name : Text) : Prop where
  head : ∀ c ∈ name.head?, Py.isSpace c = false ∧ c ≠ '|'
  bracket : '(' ∉ name
  pair : ¬ [')', ','] <:+: name

instance (name : Text) : Decidable (Clean name) :=
  decidable_of_iff ((∀ c ∈ name.head?, Py.isSpace c = false ∧ c ≠ '|') ∧ '(' ∉ name ∧
      ¬ [')', ','] <:+: name)
    ⟨fun h => ⟨h.1, h.2.1, h.2.2⟩, fun h => ⟨h.head, h.bracket, h.pair⟩⟩

/-- What the host makes of an entry. -/
def hostEntry (fib : FileInfo) : Val :=
  .dict [("name", .str fib.fileName.val), ("size", .int fib.size),
    ("type", .str (if 0 < fib.dirEntryType then "dir".toList else "file".toList))]

section Entry

variable {fib : FileInfo}

/-- The letter of the type stands at the end. -/
theorem body_eq (fib : FileInfo) : ∃ letter, (letter = 'D' ∨ letter = 'F') ∧
    fib.typeStr = [letter] ∧
    fib.body = (fib.fileName.val ++ '(' :: (Client.longText fib.size ++ [','])) ++ [letter] := by
  rw [FileInfo.body, FileInfo.typeStr]
  split
  · exact ⟨'D', .inl rfl, rfl, by simp⟩
  · exact ⟨'F', .inr rfl, rfl, by simp⟩

theorem head_body (h : Clean fib.fileName.val) (tail : Text) :
    ∀ c ∈ (fib.body ++ tail).head?, Py.isSpace c = false ∧ c ≠ '|' := by
  intro c hc
  rw [FileInfo.body] at hc
  cases hname : fib.fileName.val with
  | nil =>
    rw [hname] at hc
    obtain rfl : '(' = c := Option.some.inj hc
    decide
  | cons d name =>
    rw [hname] at hc
    exact h.head c (hname ▸ hc)

/-- An entry without or with its closing bracket is read back. -/
theorem dirEntry_body (h : Clean fib.fileName.val) {tail : Text}
    (htail : tail = [] ∨ tail = [')']) :
    dirEntry (fib.body ++ tail) = some (hostEntry fib) := by
  obtain ⟨letter, hletter, htype, hbody⟩ := body_eq fib
  have hspace : Py.isSpace letter = false := by rcases hletter with rfl | rfl <;> decide
  have hlast : ∀ c ∈ (fib.body ++ tail).getLast?, Py.isSpace c = false := by
    rcases htail with rfl | rfl
    · rw [List.append_nil, hbody, List.getLast?_concat]
      rintro c ⟨rfl⟩
      exact hspace
    · rw [List.getLast?_concat]
      rintro c ⟨rfl⟩
      decide
  have hstrip : Py.strip (fib.body ++ tail) = fib.body ++ tail :=
    Text.stripBy_of_ends (fun c hc => (head_body h tail c hc).1) hlast
  have hbracket : (fib.body ++ tail).rstripBy (· == ')') = fib.body := by
    have hstay : (letter == ')') = false := by rcases hletter with rfl | rfl <;> rfl
    rw [hbody, List.append_assoc, List.singleton_append,
      Text.rstripBy_append_cons (p := (· == ')')) hstay]
    rcases htail with rfl | rfl
    · rfl
    · rfl
  have hinfo : (Client.longText fib.size ++ ',' :: fib.typeStr).splitOn ',' =
      [Client.longText fib.size, fib.typeStr] := by
    rw [Text.splitOn_field (notMem_longText (by decide) (by decide)), List.splitOn_eq_singleton]
    rw [htype]
    rcases hletter with rfl | rfl <;> decide
  have htypeText : ((if Py.strip fib.typeStr = ['D'] then "dir".toList else "file".toList) : Text) =
      if 0 < fib.dirEntryType then "dir".toList else "file".toList := by
    rw [FileInfo.typeStr]
    split
    · rfl
    · rfl
  rw [dirEntry, hstrip, hbracket, FileInfo.body, Text.after?_append h.bracket,
    Text.before_append h.bracket]
  simp only [hinfo, num, List.getD_cons_zero, int_longText fib.size_ge fib.size_lt, hostEntry,
    List.getElem?_cons_succ, List.getElem?_cons_zero, Option.elim_some, htypeText]

theorem not_pair_body (h : Clean fib.fileName.val) : ¬ [')', ','] <:+: fib.body := by
  intro hin
  rw [FileInfo.body] at hin
  rcases Text.infix_pair_append hin with hname | hinfo | ⟨-, hhead⟩
  · exact h.pair hname
  · obtain ⟨letter, hletter, htype, -⟩ := body_eq fib
    have hmem := hinfo.subset (List.mem_cons_self : ')' ∈ [')', ','])
    simp only [htype, List.mem_cons, List.mem_append, List.not_mem_nil, or_false,
      notMem_longText (n := fib.size) (c := ')') (by decide) (by decide), false_or] at hmem
    rcases hletter with rfl | rfl <;> exact absurd hmem (by decide)
  · cases hhead

/-- The entries of a page are read back. -/
theorem dirEntries_intercalate {fibs : List FileInfo} (hne : fibs ≠ [])
    (h : ∀ fib ∈ fibs, Clean fib.fileName.val) :
    (Text.splitStr "),".toList ([','].intercalate (fibs.map FileInfo.entry))).filterMap dirEntry =
      fibs.map hostEntry := by
  have hsep : "),".toList = [')', ','] := rfl
  rw [hsep]
  induction fibs with
  | nil => exact absurd rfl hne
  | cons fib fibs ih =>
    have hfib := h fib List.mem_cons_self
    cases fibs with
    | nil =>
      have hno : ¬ [')', ','] <:+: fib.entry := by
        intro hin
        rcases Text.infix_pair_append hin with hbody | hlast | ⟨-, hhead⟩
        · exact not_pair_body hfib hbody
        · exact absurd hlast.length_le (by decide)
        · cases hhead
      rw [List.map_singleton, List.intercalate_singleton, Text.splitStr_eq_singleton hno]
      simp only [FileInfo.entry, List.filterMap_cons, dirEntry_body hfib (.inr rfl),
        List.filterMap_nil, List.map_singleton]
    | cons next fibs =>
      have htext : [','].intercalate ((fib :: next :: fibs).map FileInfo.entry) =
          fib.body ++ ')' :: ',' :: [','].intercalate ((next :: fibs).map FileInfo.entry) := by
        rw [List.map_cons, List.map_cons, List.intercalate_cons_cons, FileInfo.entry]
        simp only [List.append_assoc, List.cons_append, List.nil_append]
      have hbody := dirEntry_body hfib (.inl rfl)
      rw [List.append_nil] at hbody
      rw [htext, Text.splitStr_pair (by decide) _ (not_pair_body hfib), List.filterMap_cons, hbody,
        ih (List.cons_ne_nil _ _) fun fib hmem => h fib (List.mem_cons_of_mem _ hmem)]
      rfl

end Entry

/-! ### One page -/

/-- The message of a page. -/
def dirMsg (path : Text) (total : Nat) (fibs : List FileInfo) : Dict :=
  [("type", .str "DIR".toList), ("path", .str path), ("count", .int total),
    ("entries", .list (fibs.map hostEntry))]

/-- A page begins with its first entry. -/
theorem intercalate_entry (fib : FileInfo) (fibs : List FileInfo) : ∃ tail,
    [','].intercalate ((fib :: fibs).map FileInfo.entry) = fib.body ++ ')' :: tail := by
  cases fibs with
  | nil => exact ⟨[], by rw [List.map_singleton, List.intercalate_singleton]; rfl⟩
  | cons next fibs =>
    refine ⟨',' :: [','].intercalate ((next :: fibs).map FileInfo.entry), ?_⟩
    rw [List.map_cons, List.map_cons, List.intercalate_cons_cons, FileInfo.entry]
    simp only [List.append_assoc, List.cons_append, List.nil_append]

theorem parseMessage_dir (now : Text) {path : Text} (hpath : '|' ∉ path) {total : Nat}
    (htotal : total < 2 ^ 32) {fibs : List FileInfo} (h : ∀ fib ∈ fibs, Clean fib.fileName.val) :
    parseMessage now (dirHeader path ++ (decimal total ++ '|' ::
      [','].intercalate (fibs.map FileInfo.entry))) = .ok (some (dirMsg path total fibs)) := by
  have hassoc (text : Text) : dirHeader path ++ (decimal total ++ '|' :: text) =
      "DIR".toList ++ '|' :: (path ++ '|' :: (decimal total ++ '|' :: text)) := by
    have hdir : "DIR|".toList = "DIR".toList ++ ['|'] := rfl
    simp only [dirHeader, hdir, List.append_assoc, List.cons_append, List.nil_append]
  have hbranch : branchOf "DIR".toList = some (.guarded fun _ _ p => parseDir p) := rfl
  rw [hassoc, parseMessage, Text.splitOn_field (by decide), Text.splitOn_field hpath,
    Text.splitOn_field (bar_notMem_decimal _)]
  simp only [List.headD_cons, hbranch, Branch.run, parseDir, num, field,
    List.getD_cons_succ, List.getD_cons_zero, int_decimal htotal, dirMsg, listField, rest,
    List.drop_succ_cons, List.drop_zero, Text.joinBar_splitOn]
  cases fibs with
  | nil => rfl
  | cons fib fibs =>
    obtain ⟨tail, htail⟩ := intercalate_entry fib fibs
    have hhead : ∀ c ∈ (fib.body ++ ')' :: tail).head?, c ≠ '|' := fun c hc =>
      (head_body (h fib List.mem_cons_self) _ c hc).2
    have hne : fib.body ++ ')' :: tail ≠ [] :=
      List.append_ne_nil_of_right_ne_nil _ (List.cons_ne_nil _ _)
    rw [if_neg (htail ▸ Text.getD_splitOn_ne_nil hne hhead),
      dirEntries_intercalate (List.cons_ne_nil _ _) h]

/-- The page of a directory from an entry on is read back. -/
theorem parseMessage_fsListDir (now : Text) {path : Text} (hbar : '|' ∉ path)
    (hpath : path.length ≤ 255) {dir : List FileInfo} (hcount : dir.length < 10 ^ 6)
    (h : ∀ fib ∈ dir, Clean fib.fileName.val) (startIdx : Nat) :
    ∃ n ≤ dir.length - startIdx, n ≤ maxLine ∧ (startIdx < dir.length → 0 < n) ∧
      parseMessage now (fsListDir path startIdx dir) =
        .ok (some (dirMsg path dir.length ((dir.drop startIdx).take n))) := by
  obtain ⟨n, hle, hline, hpos, hpage⟩ := fsListDir_eq hpath startIdx hcount
  refine ⟨n, hle, hline, hpos, ?_⟩
  have htotal : dir.length < 2 ^ 32 := by omega
  rw [hpage, parseMessage_dir now hbar htotal]
  exact fun fib hfib => h fib (List.mem_of_mem_drop (List.mem_of_mem_take hfib))

/-! ### All pages -/

/-- The events that arrive after a command, when the daemon answers from this volume. -/
def exchange (volume : Text → Option (List FileInfo)) (hasDbg : Bool) (now : Text)
    (cmd : Command) : List Event :=
  match formatCommand cmd with
  | .ok line => published hasDbg now (handleListdir volume ((line.after? '|').getD []))
  | .error _ => []

section Pages

variable {volume : Text → Option (List FileInfo)} {path : Text} {dir : List FileInfo}

theorem handleListdir_page (hvolume : volume path = some dir) (hbar : '|' ∉ path)
    (hpath : path.length ≤ 255) {offset : Nat} (hoffset : offset < 2 ^ 32) :
    handleListdir volume (path ++ '|' :: Py.str offset) = fsListDir path offset dir := by
  have hnumber : CNumber.strtoul 10 (Py.str offset) = offset := by
    rw [Py.str_eq, if_pos (Int.natCast_nonneg offset), Int.toNat_natCast,
      CNumber.strtoul_toDigits hoffset]
  have htake : path.take 255 = path := List.take_of_length_le hpath
  rw [handleListdir, Text.after?_append hbar, Text.before_append hbar]
  simp only [htake, hnumber, hvolume, protocolSendDir_some]

theorem exchange_page (hvolume : volume path = some dir) (hbar : '|' ∉ path)
    (hpath : path.length ≤ 255) (hasDbg : Bool) (now : Text) {offset : Nat}
    (hoffset : offset < 2 ^ 32) : exchange volume hasDbg now (pageCommand path offset) =
      published hasDbg now (fsListDir path offset dir) := by
  have hargs : Text.after? '|' ("LISTDIR".toList ++ '|' :: (path ++ '|' :: Py.str offset)) =
      some (path ++ '|' :: Py.str offset) := Text.after?_append (by decide) _
  rw [exchange, formatCommand_page]
  simp only [hargs, Option.getD_some, handleListdir_page hvolume hbar hpath hoffset]

/-- A request for a page is answered with entries from the given one on. -/
theorem sendAwait_page (hvolume : volume path = some dir) (hbar : '|' ∉ path)
    (hpath : path.length ≤ 255) (hcount : dir.length < 10 ^ 6)
    (h : ∀ fib ∈ dir, Clean fib.fileName.val) (hasDbg : Bool) (now : Text) {offset : Nat}
    (hoffset : offset ≤ 100000) : ∃ n ≤ dir.length - offset, n ≤ maxLine ∧
      (offset < dir.length → 0 < n) ∧ sendAwait "dir" (·.hasText "path" path)
        (exchange volume hasDbg now (pageCommand path offset)) =
          .ok (dirMsg path dir.length ((dir.drop offset).take n)) := by
  obtain ⟨n, hle, hline, hpos, hparse⟩ := parseMessage_fsListDir now hbar hpath hcount h offset
  refine ⟨n, hle, hline, hpos, ?_⟩
  rw [exchange_page hvolume hbar hpath hasDbg now (by omega), published_of_parse hparse rfl]
  exact sendAwait_singleton (by decide) (decide_eq_true (rfl : path = path))

/-- From a part of the directory the loop goes on to the end of it, or past the cap. -/
theorem listFrom_take (hvolume : volume path = some dir) (hbar : '|' ∉ path)
    (hpath : path.length ≤ 255) (hcount : dir.length < 10 ^ 6)
    (h : ∀ fib ∈ dir, Clean fib.fileName.val) (hasDbg : Bool) (now : Text) (left : Nat) :
    ∀ k ≤ dir.length, k ≤ 100000 → 100000 - k < left → ∃ n ≤ dir.length,
      listFrom (exchange volume hasDbg now) path ((dir.take k).map hostEntry) =
        .entries ((dir.take n).map hostEntry) ∧
      (n = dir.length ∨ 100000 < n) ∧ n ≤ 100000 + maxLine := by
  induction left with
  | zero => exact fun k _ _ hleft => absurd hleft (Nat.not_lt_zero _)
  | succ left ih =>
    intro k hk hcap hleft
    obtain ⟨n, hle, hline, hpos, hanswer⟩ :=
      sendAwait_page hvolume hbar hpath hcount h hasDbg now hcap
    have hlen : ((dir.take k).map hostEntry).length = k := by
      rw [List.length_map, List.length_take]
      omega
    have hmore : (dir.take k).map hostEntry ++ pageEntries (dirMsg path dir.length
        ((dir.drop k).take n)) = (dir.take (k + n)).map hostEntry := by
      rw [List.take_add, List.map_append]
      rfl
    have hpage : (pageEntries (dirMsg path dir.length ((dir.drop k).take n))).length = n := by
      change (((dir.drop k).take n).map hostEntry).length = n
      rw [List.length_map, List.length_take, List.length_drop]
      omega
    have hcountIs : (dirMsg path dir.length ((dir.drop k).take n)).getInt "count" n =
        dir.length := rfl
    have hsum : ((dir.take (k + n)).map hostEntry).length = k + n := by
      rw [List.length_map, List.length_take]
      omega
    rw [listFrom, hlen, hanswer]
    simp only [hmore, hpage, hcountIs, hsum]
    split
    · next hend =>
      exact ⟨k + n, by omega, rfl, by omega, by omega⟩
    · next hgo =>
      exact ih (k + n) (by omega) (by omega) (by omega)

end Pages

/-- Every page of a directory is read back, and the list of all pages is the directory. -/
def RoundTrips (path : Text) (dir : List FileInfo) : Prop :=
  (∀ now startIdx, ∃ n, (startIdx < dir.length → 0 < n) ∧
    parseMessage now (fsListDir path startIdx dir) =
      .ok (some (dirMsg path dir.length ((dir.drop startIdx).take n)))) ∧
  ∀ volume hasDbg now, volume path = some dir →
    listDirAll (exchange volume hasDbg now) path = .entries (dir.map hostEntry)

/-- The pages of a directory with clean names are read back, and the list is the directory up to
the cap: all of it, or its first entries, more than 100000. -/
theorem listDirAll_upToCap {path : Text} (hbar : '|' ∉ path) (hpath : path.length ≤ 255)
    {dir : List FileInfo} (hcount : dir.length < 10 ^ 6)
    (h : ∀ fib ∈ dir, Clean fib.fileName.val) :
    (∀ now startIdx, ∃ n, (startIdx < dir.length → 0 < n) ∧
      parseMessage now (fsListDir path startIdx dir) =
        .ok (some (dirMsg path dir.length ((dir.drop startIdx).take n)))) ∧
    ∀ volume hasDbg now, volume path = some dir → ∃ n ≤ dir.length,
      listDirAll (exchange volume hasDbg now) path = .entries ((dir.take n).map hostEntry) ∧
        (n = dir.length ∨ 100000 < n) := by
  refine ⟨fun now startIdx => ?_, fun volume hasDbg now hvolume => ?_⟩
  · obtain ⟨n, -, -, hpos, hparse⟩ := parseMessage_fsListDir now hbar hpath hcount h startIdx
    exact ⟨n, hpos, hparse⟩
  · obtain ⟨n, hle, hlist, hend, -⟩ := listFrom_take hvolume hbar hpath hcount h hasDbg now 100001 0
      (Nat.zero_le _) (Nat.zero_le _) (by omega)
    exact ⟨n, hle, hlist, hend⟩

/-- A drawer with a file and a directory. -/
def drawer : List FileInfo :=
  [⟨⟨"Read me, 2.txt".toList, by decide⟩, 1234, -3, by decide, by decide, by decide⟩,
    ⟨⟨"Tools".toList, by decide⟩, 0, 2, by decide, by decide, by decide⟩]

theorem clean_drawer : ∀ fib ∈ drawer, Clean fib.fileName.val := by decide

theorem listDirAll_drawer :
    listDirAll (exchange (fun _ => some drawer) false []) "RAM:".toList =
      .entries (drawer.map hostEntry) := by
  obtain ⟨n, hle, hlist, hend⟩ := (@listDirAll_upToCap "RAM:".toList (by decide) (by decide)
    drawer (by decide) clean_drawer).2 (fun _ => some drawer) false [] rfl
  have hlength : drawer.length = 2 := rfl
  rw [hlist, List.take_of_length_le (by omega)]

theorem zero_notMem_decimal (n : Nat) : '\x00' ∉ decimal n := by
  intro h
  exact absurd (CNumber.isDigit_of_mem_toDigits h) (by decide)

theorem length_decimal_le_107 (i : Fin 200000) : (decimal i).length ≤ 107 := by
  have : (decimal i).length ≤ 6 := by
    rw [decimal, Nat.length_toDigits_le_iff (by omega) (by omega)]
    omega
  omega

/-- A file named by its number. -/
def numbered (i : Fin 200000) : FileInfo where
  fileName := ⟨decimal i, zero_notMem_decimal i⟩
  size := 0
  dirEntryType := -3
  fileName_le := length_decimal_le_107 i
  size_ge := by decide
  size_lt := by decide

theorem clean_numbered (i : Fin 200000) : Clean (numbered i).fileName.val := by
  have hdigit : ∀ c ∈ (numbered i).fileName.val, c.isDigit = true := fun c hc =>
    CNumber.isDigit_of_mem_toDigits hc
  refine ⟨fun c hc => ?_, fun h => absurd (hdigit _ h) (by decide), fun h => ?_⟩
  · have hc := hdigit c (List.mem_of_mem_head? hc)
    refine ⟨Py.isSpace_of_isDigit hc, ?_⟩
    rintro rfl
    exact absurd hc (by decide)
  · exact absurd (hdigit ')' (h.subset List.mem_cons_self)) (by decide)

/-- Past the cap entries are missing. -/
theorem not_roundTrips_numbered :
    ¬ RoundTrips "RAM:".toList ((List.finRange 200000).map numbered) := by
  have hlength : ((List.finRange 200000).map numbered).length = 200000 := by
    rw [List.length_map, List.length_finRange]
  have hclean : ∀ fib ∈ (List.finRange 200000).map numbered, Clean fib.fileName.val := by
    intro fib hfib
    obtain ⟨i, -, rfl⟩ := List.mem_map.mp hfib
    exact clean_numbered i
  generalize (List.finRange 200000).map numbered = dir at hlength hclean
  rintro ⟨-, hall⟩
  obtain ⟨n, hle, hlist, -, hcap⟩ := @listFrom_take (fun _ => some dir) "RAM:".toList dir rfl
    (by decide) (by decide) (by omega) hclean false [] 100001 0 (Nat.zero_le _) (Nat.zero_le _)
    (by omega)
  have heq := Listing.entries.inj (hlist.symm.trans (hall (fun _ => some dir) false [] rfl))
  have hlengths := congrArg List.length heq
  rw [List.length_map, List.length_map, List.length_take, hlength] at hlengths
  have hline : maxLine = 8192 := rfl
  omega

/-- A file with a bracket in its name. -/
def bracketed : FileInfo :=
  ⟨⟨"a(b".toList, by decide⟩, 5, -3, by decide, by decide, by decide⟩

/-- The name of the first entry of a page. -/
def firstName (parsed : Except PyError Parsed) : Text :=
  match parsed with
  | .ok (some msg) => match pageEntries msg with
    | .dict entry :: _ => Dict.getText entry "name" []
    | _ => []
  | _ => []

theorem not_roundTrips_bracketed : ¬ RoundTrips "RAM:".toList [bracketed] := by
  rintro ⟨hpages, -⟩
  obtain ⟨n, hpos, hparse⟩ := hpages [] 0
  have hread : firstName (parseMessage [] (fsListDir "RAM:".toList 0 [bracketed])) =
      "a".toList := by decide
  obtain ⟨n, rfl⟩ : ∃ k, n = k + 1 := ⟨n - 1, by have := hpos (by decide); omega⟩
  rw [hparse] at hread
  have hname : "a(b".toList = "a".toList := hread
  exact absurd hname (by decide)

/-- Neither a large directory nor a name with a bracket is listed. -/
theorem listDirAll_not_every :
    (∃ dir : List FileInfo, dir.length < 10 ^ 6 ∧ (∀ fib ∈ dir, Clean fib.fileName.val) ∧
      ¬ RoundTrips "RAM:".toList dir) ∧
    ∃ fib, ¬ RoundTrips "RAM:".toList [fib] := by
  refine ⟨⟨(List.finRange 200000).map numbered, ?_, ?_, not_roundTrips_numbered⟩,
    bracketed, not_roundTrips_bracketed⟩
  · rw [List.length_map, List.length_finRange]
    omega
  · intro fib hfib
    obtain ⟨i, -, rfl⟩ := List.mem_map.mp hfib
    exact clean_numbered i

end AmigaDevbench.DirListing
