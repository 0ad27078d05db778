import AmigaDevbench.Core.BigEndian
import AmigaDevbench.Core.Keyed
import AmigaDevbench.Core.Returns
import AmigaDevbench.Host.Winuae.Debugger

/-!
# The comparison of state files

A state file is a sequence of named chunks, and a name may occur more than once. The comparison
keeps the chunks of a file in a dictionary under the stripped name and the number of the
occurrence, so it is exact as long as no two different chunks come under one label.
-/

namespace AmigaDevbench.Winuae

namespace StateFile

open Keyed

/-- The name and the body of a chunk. -/
abbrev Chunk := Text × Bytes

/-! ### Reading -/

section Parse

/- `zlib.decompress`, without a value on corrupt data, the path, and `repr` of a chunk name. -/
variable (decompress : Bytes → Option Bytes) (path : String) (quoted : Text → String)

/-- `data[start:stop]`. -/
def slice (data : Bytes) (start stop : Nat) : Bytes := (data.drop start).take (stop - start)

/-- The turn of the loop in `parse_state` at a position where eight bytes are left: the chunk and
the position behind it, or nothing at the end of the file. -/
def readChunk (data : Bytes) (pos : Nat) : Except DebugError (Option (Chunk × Nat)) :=
  let name := (slice data pos (pos + 4)).latin1
  let size := Bytes.fromBigEndian (slice data (pos + 4) (pos + 8))
  if size ≤ 12 then
    if name = "END ".toList then .ok none
    else .error ⟨"Invalid empty chunk " ++ quoted name ++ " in " ++ path⟩
  else
    let flags := Bytes.fromBigEndian (slice data (pos + 8) (pos + 12))
    let payload := size - 12
    let body := slice data (pos + 12) (pos + 12 + payload)
    if body.length ≠ payload then
      .error ⟨"Truncated chunk " ++ quoted name ++ " in " ++ path⟩
    else
      let written : Int := if flags % 2 = 1 then payload - 4 else payload
      let next := pos + 12 + payload + (4 - (written % 4).toNat)
      if flags % 2 = 1 then
        match decompress (body.drop 4) with
        | some body => .ok (some ((name, body), next))
        | none => .error ⟨"Corrupt compressed chunk " ++ quoted name ++ " in " ++ path⟩
      else .ok (some ((name, body), next))

/-- The loop of `parse_state`. There are not more chunks than bytes. -/
def readChunks (data : Bytes) : Nat → Nat → List Chunk → Except DebugError (List Chunk)
  | 0, _, chunks => .ok chunks
  | turns + 1, pos, chunks =>
    if pos + 8 ≤ data.length then do
      match ← readChunk decompress path quoted data pos with
      | some (chunk, pos) => readChunks data turns pos (chunks ++ [chunk])
      | none => return chunks
    else return chunks

/-- `parse_state`. -/
def parseState (data : Bytes) : Except DebugError (List Chunk) := do
  let chunks ← readChunks decompress path quoted data data.length 0 []
  if chunks.head?.map Prod.fst = some "ASF ".toList then return chunks
  else throw ⟨path ++ " is not a WinUAE state file"⟩

end Parse

section Parse

variable {decompress : Bytes → Option Bytes} {path : String} {quoted : Text → String}
  {data : Bytes}

end Parse

/-! ### Comparing -/

/-- A region in which two bodies differ. -/
structure Region where
  start : Nat
  stop : Nat
  bytes : Nat
  deriving DecidableEq

/-- The positions at which two bodies differ; beyond its end a body has no byte. -/
def differingBytes (x y : Bytes) : Nat :=
  (List.range (max x.length y.length)).countP fun i => x[i]? ≠ y[i]?

/-- The loop body of `_ranges`, with its block size and limit. -/
def addBlock (a b : Bytes) (acc : Nat × List Region) (start : Nat) : Nat × List Region :=
  let x := slice a start (start + 256)
  let y := slice b start (start + 256)
  if x = y then acc
  else
    let count := differingBytes x y
    let ranges := acc.2
    (acc.1 + count,
      match ranges.getLast? with
      | some last =>
        if last.stop = start then
          ranges.dropLast ++ [⟨last.start, start + 256, last.bytes + count⟩]
        else if ranges.length < 16 then ranges ++ [⟨start, start + 256, count⟩]
        else ranges
      | none => ranges ++ [⟨start, start + 256, count⟩])

/-- `_ranges`. -/
def ranges (a b : Bytes) : Nat × List Region :=
  ((List.range ((max a.length b.length + 255) / 256)).map (· * 256)).foldl (addBlock a b) (0, [])

/-- An entry of `changed`. -/
structure Change where
  chunk : Text
  sizeA : Nat
  sizeB : Nat
  differingBytes : Nat
  regions : List Region
  deriving DecidableEq

/-- The reply of `diff_states`, without the paths. -/
structure Report where
  changed : List Change
  onlyInA : List Text
  onlyInB : List Text
  unchanged : Nat
  deriving DecidableEq

/-- The key of the occurrence of a name. -/
def label (name : Text) (index : Nat) : Text :=
  if index = 0 then Py.strip name else Py.strip name ++ '#' :: Py.str index

/-- The loop body of `keyed` on `seen` and `result`. -/
def keyChunk (s : List (Text × Nat) × List (Text × Bytes)) (chunk : Chunk) :
    List (Text × Nat) × List (Text × Bytes) :=
  let index := (lookup s.1 chunk.1).getD 0
  (assign s.1 chunk.1 (index + 1), assign s.2 (label chunk.1 index) chunk.2)

/-- `keyed`. -/
def keyed (chunks : List Chunk) : List (Text × Bytes) := (chunks.foldl keyChunk ([], [])).2

/-- The entry of `changed` for a chunk of the first file, if there is one. -/
def change? (second : List (Text × Bytes)) (e : Text × Bytes) : Option Change :=
  (lookup second e.1).bind fun y =>
    if e.2 = y then none
    else some ⟨e.1, e.2.length, y.length, (ranges e.2 y).1, (ranges e.2 y).2⟩

/-- `diff_states` on the chunks of the two files. -/
def diffChunks (as bs : List Chunk) : Report :=
  let first := keyed as
  let second := keyed bs
  { changed := first.filterMap (change? second)
    onlyInA := keys (first.filter fun e => (lookup second e.1).isNone)
    onlyInB := keys (second.filter fun e => (lookup first e.1).isNone)
    unchanged := first.countP fun e => lookup second e.1 = some e.2 }

/-- `diff_states`. -/
def diffStates (decompress : Bytes → Option Bytes) (quoted : Text → String) (a b : String)
    (fileA fileB : Bytes) : Except DebugError Report := do
  let as ← parseState decompress a quoted fileA
  let bs ← parseState decompress b quoted fileB
  return diffChunks as bs

/-! ### The bytes that differ -/

theorem length_slice (a : Bytes) (start : Nat) :
    (slice a start (start + 256)).length = min 256 (a.length - start) := by
  rw [slice, List.length_take, List.length_drop, Nat.add_sub_cancel_left]

theorem getElem?_slice (a : Bytes) {start i : Nat} (hi : i < 256) :
    (slice a start (start + 256))[i]? = a[start + i]? := by
  rw [slice, Nat.add_sub_cancel_left, List.getElem?_take_of_lt hi, List.getElem?_drop]

/-- The positions below a bound at which two bodies differ. -/
def differingBelow (a b : Bytes) (n : Nat) : Nat :=
  (List.range n).countP fun i => a[i]? ≠ b[i]?

/-- A block adds the positions that differ in it. -/
theorem differingBytes_slice (a b : Bytes) (k : Nat) :
    differingBelow a b (min ((k + 1) * 256) (max a.length b.length)) =
      differingBelow a b (min (k * 256) (max a.length b.length)) +
        differingBytes (slice a (k * 256) (k * 256 + 256)) (slice b (k * 256) (k * 256 + 256)) := by
  have hbound : min ((k + 1) * 256) (max a.length b.length) =
      min (k * 256) (max a.length b.length) +
        max (min 256 (a.length - k * 256)) (min 256 (b.length - k * 256)) := by omega
  have hinside : ∀ i, i < max (min 256 (a.length - k * 256)) (min 256 (b.length - k * 256)) →
      min (k * 256) (max a.length b.length) = k * 256 ∧ i < 256 := by
    intro i hi
    omega
  rw [differingBytes, length_slice, length_slice, hbound, differingBelow, List.range_add,
    List.countP_append, List.countP_map, differingBelow]
  congr 1
  refine List.countP_congr fun i hi => ?_
  obtain ⟨hstart, hblock⟩ := hinside i (List.mem_range.mp hi)
  simp only [Function.comp, hstart, getElem?_slice a hblock, getElem?_slice b hblock]

theorem addBlock_fst (a b : Bytes) (acc : Nat × List Region) (start : Nat) :
    (addBlock a b acc start).1 = acc.1 +
      differingBytes (slice a start (start + 256)) (slice b start (start + 256)) := by
  rw [addBlock]
  split
  · next heq =>
    rw [heq, differingBytes]
    simp
  · rfl

/-- The count of `_ranges` is exact. -/
theorem ranges_fst (a b : Bytes) : (ranges a b).1 = differingBytes a b := by
  have hloop : ∀ n, (((List.range n).map (· * 256)).foldl (addBlock a b) (0, [])).1 =
      differingBelow a b (min (n * 256) (max a.length b.length)) := by
    intro n
    induction n with
    | zero => simp [differingBelow]
    | succ n ih =>
      rw [List.range_succ, List.map_append, List.foldl_append, List.map_singleton,
        List.foldl_cons, List.foldl_nil, addBlock_fst, ih, differingBytes_slice]
  have hall : min ((max a.length b.length + 255) / 256 * 256) (max a.length b.length) =
      max a.length b.length := by omega
  rw [ranges, hloop, hall]
  rfl

/-! ### Chunks and their labels -/

/-- What a chunk is known by: its name, and how many chunks of this name stand before it. -/
abbrev Identity := Text × Nat

/-- The bodies of chunks under their identities, behind chunks of the names `before`. -/
def identitiesFrom (before : List Text) : List Chunk → List (Identity × Bytes)
  | [] => []
  | (name, body) :: chunks =>
    ((name, before.count name), body) :: identitiesFrom (before ++ [name]) chunks

/-- The chunks of a file under their identities. -/
def identities (chunks : List Chunk) : List (Identity × Bytes) := identitiesFrom [] chunks

def Identity.label (identity : Identity) : Text := StateFile.label identity.1 identity.2

/-- The chunks of a file under their labels. -/
def labelled (chunks : List Chunk) : List (Text × Bytes) :=
  (identities chunks).map fun e => (e.1.label, e.2)

/-- No two chunks of a file have one label. -/
def LabelsDistinct (chunks : List Chunk) : Prop := (keys (labelled chunks)).Nodup

/-- The identities of the chunks of two files. -/
def identitiesOf (as bs : List Chunk) : List Identity :=
  keys (identities as) ++ keys (identities bs)

/-- Different chunks of two files have different labels. -/
def LabelsApart (as bs : List Chunk) : Prop :=
  ∀ x ∈ identitiesOf as bs, ∀ y ∈ identitiesOf as bs, x.label = y.label → x = y

variable {as bs chunks : List Chunk}

theorem length_identitiesFrom (chunks : List Chunk) :
    ∀ before, (identitiesFrom before chunks).length = chunks.length := by
  induction chunks with
  | nil => exact fun _ => rfl
  | cons chunk chunks ih => exact fun before => congrArg (· + 1) (ih _)

theorem length_labelled (chunks : List Chunk) : (labelled chunks).length = chunks.length := by
  rw [labelled, List.length_map, identities, length_identitiesFrom]

/-- The occurrences of a name are counted from where the list begins. -/
theorem le_of_mem_identitiesFrom (chunks : List Chunk) : ∀ {before : List Text} {x : Identity},
    x ∈ keys (identitiesFrom before chunks) → before.count x.1 ≤ x.2 := by
  induction chunks with
  | nil => exact fun hx => (List.not_mem_nil hx).elim
  | cons chunk chunks ih =>
    intro before x hx
    rcases List.mem_cons.mp hx with rfl | hx
    · exact Nat.le_refl _
    · have h := ih hx
      rw [List.count_append] at h
      omega

theorem nodup_identitiesFrom (chunks : List Chunk) : ∀ before : List Text,
    (keys (identitiesFrom before chunks)).Nodup := by
  induction chunks with
  | nil => exact fun _ => List.nodup_nil
  | cons chunk chunks ih =>
    intro before
    refine List.nodup_cons.mpr ⟨fun hmem => ?_, ih _⟩
    have h := le_of_mem_identitiesFrom chunks hmem
    rw [List.count_append, List.count_singleton_self] at h
    exact absurd h (by simp)

theorem nodup_identities (chunks : List Chunk) : (keys (identities chunks)).Nodup :=
  nodup_identitiesFrom chunks []

/-- The dictionary `seen` counts the occurrences of the names. -/
theorem foldl_keyChunk (chunks : List Chunk) : ∀ {before : List Text} {seen : List (Text × Nat)}
    {result : List (Text × Bytes)}, (∀ name, (lookup seen name).getD 0 = before.count name) →
      (chunks.foldl keyChunk (seen, result)).2 =
        assignAll result ((identitiesFrom before chunks).map fun e => (e.1.label, e.2)) := by
  induction chunks with
  | nil => exact fun _ => rfl
  | cons chunk chunks ih =>
    intro before seen result hseen
    obtain ⟨name, body⟩ := chunk
    rw [List.foldl_cons, keyChunk, hseen, identitiesFrom, List.map_cons, assignAll_cons]
    refine ih fun other => ?_
    rw [lookup_assign, List.count_append]
    by_cases hother : other = name
    · rw [if_pos hother, hother, List.count_singleton_self, Option.getD_some]
    · rw [if_neg hother, hseen, List.count_singleton, if_neg (by simpa using Ne.symm hother),
        Nat.add_zero]

theorem keyed_eq (chunks : List Chunk) : keyed chunks = assignAll [] (labelled chunks) :=
  foldl_keyChunk chunks fun _ => rfl

theorem nodup_keys_keyed (chunks : List Chunk) : (keys (keyed chunks)).Nodup := by
  rw [keyed_eq]
  exact nodup_keys_assignAll List.nodup_nil

/-- A file whose labels are different is kept chunk by chunk. -/
theorem keyed_of_distinct (h : LabelsDistinct chunks) : keyed chunks = labelled chunks := by
  rw [keyed_eq]
  exact assignAll_eq_append (d := []) h

theorem length_keyed_eq_iff : (keyed chunks).length = chunks.length ↔ LabelsDistinct chunks := by
  rw [keyed_eq, ← length_labelled chunks, length_assignAll_eq_iff, LabelsDistinct]

/-! ### The account of the chunks -/

/-- Every chunk of each file is in exactly one of `changed`, `only_in_a` or `only_in_b`, and the
count of unchanged chunks. -/
def Accounted (as bs : List Chunk) : Prop :=
  let report := diffChunks as bs
  report.changed.length + report.onlyInA.length + report.unchanged = as.length ∧
    report.changed.length + report.onlyInB.length + report.unchanged = bs.length

/-- A comparison of two dictionaries puts every item of the first into one of three places. -/
theorem length_compare {κ γ : Type} [DecidableEq κ] (second : List (κ × Bytes))
    {f : κ × Bytes → Option γ}
    (hf : ∀ e, (f e).isSome ↔ ∃ y, lookup second e.1 = some y ∧ y ≠ e.2)
    (first : List (κ × Bytes)) :
    (first.filterMap f).length + (first.filter fun e => (lookup second e.1).isNone).length +
      first.countP (fun e => lookup second e.1 = some e.2) = first.length := by
  induction first with
  | nil => rfl
  | cons e first ih =>
    rw [List.filterMap_cons, List.filter_cons, List.countP_cons, List.length_cons]
    cases hlookup : lookup second e.1 with
    | none =>
      have hnone : f e = none := by
        refine Option.not_isSome_iff_eq_none.mp fun hsome => ?_
        obtain ⟨y, hy, -⟩ := (hf e).mp hsome
        rw [hlookup] at hy
        cases hy
      simp only [hnone, Option.isNone_none, if_true, List.length_cons, reduceCtorEq, decide_false,
        Bool.false_eq_true, if_false]
      omega
    | some y =>
      by_cases heq : y = e.2
      · have hnone : f e = none := by
          refine Option.not_isSome_iff_eq_none.mp fun hsome => ?_
          obtain ⟨z, hz, hne⟩ := (hf e).mp hsome
          rw [hlookup] at hz
          cases hz
          exact hne heq
        simp only [hnone, Option.isNone_some, Bool.false_eq_true, if_false, heq, decide_true,
          if_true]
        omega
      · obtain ⟨c, hc⟩ := Option.isSome_iff_exists.mp ((hf e).mpr ⟨y, hlookup, heq⟩)
        simp only [hc, Option.isNone_some, Bool.false_eq_true, if_false, Option.some.injEq, heq,
          decide_false, List.length_cons]
        omega

theorem change?_isSome {second : List (Text × Bytes)} {e : Text × Bytes} :
    (change? second e).isSome ↔ ∃ y, lookup second e.1 = some y ∧ y ≠ e.2 := by
  rw [change?]
  cases lookup second e.1 with
  | none => simp
  | some y =>
    rw [Option.bind_some]
    split
    · next heq => simp [heq]
    · next hne => simp [Ne.symm hne]

/-- The report accounts for the items of the two dictionaries. -/
theorem length_report (as bs : List Chunk) :
    (diffChunks as bs).changed.length + (diffChunks as bs).onlyInA.length +
        (diffChunks as bs).unchanged = (keyed as).length ∧
      (diffChunks as bs).changed.length + (diffChunks as bs).onlyInB.length +
        (diffChunks as bs).unchanged = (keyed bs).length := by
  have hfirst := length_compare (keyed bs) (fun _ => change?_isSome) (keyed as)
  have hcommon := length_filter_isSome (nodup_keys_keyed as) (nodup_keys_keyed bs)
  have ha := length_filter_add (keyed as) (keyed bs)
  have hb := length_filter_add (keyed bs) (keyed as)
  have honlyA : (diffChunks as bs).onlyInA.length =
      ((keyed as).filter fun e => (lookup (keyed bs) e.1).isNone).length := List.length_map _
  have honlyB : (diffChunks as bs).onlyInB.length =
      ((keyed bs).filter fun e => (lookup (keyed as) e.1).isNone).length := List.length_map _
  have hchanged : (diffChunks as bs).changed.length + (diffChunks as bs).onlyInA.length +
      (diffChunks as bs).unchanged = (keyed as).length := by
    rw [honlyA]
    exact hfirst
  refine ⟨hchanged, ?_⟩
  rw [honlyA] at hchanged
  rw [honlyB]
  omega

theorem accounted_iff (as bs : List Chunk) :
    Accounted as bs ↔ LabelsDistinct as ∧ LabelsDistinct bs := by
  obtain ⟨ha, hb⟩ := length_report as bs
  rw [← length_keyed_eq_iff, ← length_keyed_eq_iff, ← ha, ← hb]
  exact Iff.rfl

/-! ### The exact comparison -/

/-- What an entry of `changed` says of its chunk: the label, the two sizes and the count of the
bytes that differ. -/
abbrev Summary := Text × Nat × Nat × Nat

def Change.summary (c : Change) : Summary := (c.chunk, c.sizeA, c.sizeB, c.differingBytes)

/-- What there is to say of a chunk if the chunk of its identity in the other file is another. -/
def summary? (second : List (Identity × Bytes)) (e : Identity × Bytes) : Option Summary :=
  (lookup second e.1).bind fun y =>
    if e.2 = y then none
    else some (e.1.label, e.2.length, y.length, differingBytes e.2 y)

/-- The report is that of a comparison of each chunk with the chunk of its identity. -/
structure Exact (as bs : List Chunk) : Prop where
  accounted : Accounted as bs
  changed : (diffChunks as bs).changed.map Change.summary =
    (identities as).filterMap (summary? (identities bs))
  onlyInA : (diffChunks as bs).onlyInA =
    ((identities as).filter fun e => (lookup (identities bs) e.1).isNone).map (·.1.label)
  onlyInB : (diffChunks as bs).onlyInB =
    ((identities bs).filter fun e => (lookup (identities as) e.1).isNone).map (·.1.label)
  unchanged : (diffChunks as bs).unchanged =
    (identities as).countP fun e => lookup (identities bs) e.1 = some e.2

theorem keys_labelled : keys (labelled chunks) = (keys (identities chunks)).map Identity.label := by
  rw [keys, labelled, List.map_map, keys, List.map_map]
  rfl

/-- The labels are different if the label tells the chunks of the file. -/
theorem labelsDistinct_iff : LabelsDistinct chunks ↔
    ∀ x ∈ keys (identities chunks), ∀ y ∈ keys (identities chunks), x.label = y.label → x = y := by
  rw [LabelsDistinct, keys_labelled, List.nodup_map_iff_inj_on (nodup_identities chunks)]

theorem LabelsApart.distinct (h : LabelsApart as bs) :
    LabelsDistinct as ∧ LabelsDistinct bs :=
  ⟨labelsDistinct_iff.mpr fun x hx y hy =>
      h x (List.mem_append_left _ hx) y (List.mem_append_left _ hy),
    labelsDistinct_iff.mpr fun x hx y hy =>
      h x (List.mem_append_right _ hx) y (List.mem_append_right _ hy)⟩

/-- Labels that tell the chunks find the chunk of an identity. -/
theorem lookup_labelled {x : Identity}
    (h : ∀ y ∈ keys (identities chunks), y.label = x.label → y = x) :
    lookup (labelled chunks) x.label = lookup (identities chunks) x :=
  lookup_map_key h

theorem labelsApart_comm : LabelsApart as bs ↔ LabelsApart bs as := by
  simp only [LabelsApart, identitiesOf, List.mem_append, or_comm]

theorem LabelsApart.lookup (h : LabelsApart as bs) {x : Identity}
    (hx : x ∈ keys (identities as)) :
    Keyed.lookup (labelled bs) x.label = Keyed.lookup (identities bs) x :=
  lookup_labelled fun y hy => h y (List.mem_append_right _ hy) x (List.mem_append_left _ hx)

theorem filter_labelled (p : Text × Bytes → Bool) (chunks : List Chunk) :
    (labelled chunks).filter p =
      ((identities chunks).filter fun e => p (e.1.label, e.2)).map fun e => (e.1.label, e.2) :=
  List.filter_map

/-- Under labels that tell the chunks, the chunks without counterpart are those of the labels
without counterpart. -/
theorem LabelsApart.filter_isNone (h : LabelsApart as bs) :
    keys ((labelled as).filter fun e => (Keyed.lookup (labelled bs) e.1).isNone) =
      ((identities as).filter fun e => (Keyed.lookup (identities bs) e.1).isNone).map
        (·.1.label) := by
  rw [filter_labelled, keys, List.map_map]
  refine congrArg _ (List.filter_congr fun e he => ?_)
  rw [h.lookup (mem_keys_of_mem he)]

/-- An entry for a label that tells the chunk is the entry for the chunk. -/
theorem LabelsApart.change? (h : LabelsApart as bs) {e : Identity × Bytes}
    (he : e ∈ identities as) :
    (StateFile.change? (labelled bs) (e.1.label, e.2)).map Change.summary =
      summary? (identities bs) e := by
  rw [StateFile.change?, summary?, h.lookup (mem_keys_of_mem he)]
  cases Keyed.lookup (identities bs) e.1 with
  | none => rfl
  | some y =>
    rw [Option.bind_some, Option.bind_some]
    split
    · rfl
    · rw [Option.map_some, Change.summary, ranges_fst]

theorem LabelsApart.exact (h : LabelsApart as bs) : Exact as bs where
  accounted := (accounted_iff as bs).mpr h.distinct
  changed := by
    rw [diffChunks, keyed_of_distinct h.distinct.1, keyed_of_distinct h.distinct.2,
      List.map_filterMap]
    exact (List.filterMap_map ..).trans (List.filterMap_congr fun e he => h.change? he)
  onlyInA := by
    rw [diffChunks, keyed_of_distinct h.distinct.1, keyed_of_distinct h.distinct.2]
    exact h.filter_isNone
  onlyInB := by
    rw [diffChunks, keyed_of_distinct h.distinct.1, keyed_of_distinct h.distinct.2]
    exact (labelsApart_comm.mp h).filter_isNone
  unchanged := by
    rw [diffChunks, keyed_of_distinct h.distinct.1, keyed_of_distinct h.distinct.2]
    refine List.countP_map.trans (List.countP_congr fun e he => ?_)
    simp only [Function.comp, h.lookup (mem_keys_of_mem he)]

/-- A label that two chunks of different files share hides that the first of them has no
counterpart. -/
theorem Exact.agree (h : Exact as bs) {x y : Identity} (hx : x ∈ keys (identities as))
    (hy : y ∈ keys (identities bs)) (hlabel : x.label = y.label) : x = y := by
  obtain ⟨hda, hdb⟩ := (accounted_iff as bs).mp h.accounted
  let byLabel (e : Identity × Bytes) : Bool := (Keyed.lookup (labelled bs) e.1.label).isNone
  let byIdentity (e : Identity × Bytes) : Bool := (Keyed.lookup (identities bs) e.1).isNone
  have hcount : ((identities as).filter byLabel).length =
      ((identities as).filter byIdentity).length := by
    have hlength := congrArg List.length h.onlyInA
    rw [diffChunks, keyed_of_distinct hda, keyed_of_distinct hdb, keys, filter_labelled,
      List.length_map, List.length_map, List.length_map] at hlength
    exact hlength
  -- A label without counterpart belongs to an identity without one.
  have hweaker : ∀ e ∈ identities as, byLabel e → byIdentity e := by
    intro e _ he
    simp only [byLabel, byIdentity, Option.isNone_iff_eq_none, lookup_eq_none,
      keys_labelled] at he ⊢
    exact fun hmem => he (List.mem_map_of_mem hmem)
  have hsame := filter_eq_of_length hweaker hcount
  obtain ⟨⟨x, body⟩, he, rfl⟩ := List.mem_map.mp hx
  have hfound : x ∈ keys (identities bs) := by
    by_contra hmissing
    have hidentity : (x, body) ∈ (identities as).filter byIdentity :=
      List.mem_filter.mpr ⟨he, Option.isNone_iff_eq_none.mpr (lookup_eq_none.mpr hmissing)⟩
    rw [← hsame] at hidentity
    have hnone := Option.isNone_iff_eq_none.mp (List.mem_filter.mp hidentity).2
    refine lookup_eq_none.mp hnone ?_
    rw [keys_labelled]
    exact List.mem_map.mpr ⟨y, hy, hlabel.symm⟩
  exact labelsDistinct_iff.mp hdb x hfound y hy hlabel

theorem Exact.labelsApart (h : Exact as bs) : LabelsApart as bs := by
  obtain ⟨hda, hdb⟩ := (accounted_iff as bs).mp h.accounted
  intro x hx y hy hlabel
  rcases List.mem_append.mp hx with hxa | hxb <;> rcases List.mem_append.mp hy with hya | hyb
  · exact labelsDistinct_iff.mp hda x hxa y hya hlabel
  · exact h.agree hxa hyb hlabel
  · exact (h.agree hya hxb hlabel.symm).symm
  · exact labelsDistinct_iff.mp hdb x hxb y hyb hlabel

/-- The report on two files is exact if and only if no two of their chunks have one label. -/
theorem diffStates_exact_iff (decompress : Bytes → Option Bytes) (quoted : Text → String)
    (a b : String) {fileA fileB : Bytes} {as bs : List Chunk}
    (ha : parseState decompress a quoted fileA = .ok as)
    (hb : parseState decompress b quoted fileB = .ok bs) :
    diffStates decompress quoted a b fileA fileB = .ok (diffChunks as bs) ∧
      (Exact as bs ↔ LabelsApart as bs) := by
  refine ⟨?_, Exact.labelsApart, LabelsApart.exact⟩
  rw [diffStates, ha, ok_bind, hb, ok_bind]
  rfl

/-- A chunk with a body of one byte, padded. -/
def oneByte (name : String) (byte : UInt8) : Bytes :=
  name.toList.map (fun c => c.toNat.toUInt8) ++ [0, 0, 0, 13, 0, 0, 0, 0, byte, 0, 0, 0]

/-- Two files that differ in the body of their last chunk. -/
theorem diffStates_exact_iff_cpu :
    diffStates (fun _ => none) String.ofList "a" "b" (oneByte "ASF " 0 ++ oneByte "CPU " 1)
        (oneByte "ASF " 0 ++ oneByte "CPU " 9) =
      .ok (diffChunks [("ASF ".toList, [0]), ("CPU ".toList, [1])]
        [("ASF ".toList, [0]), ("CPU ".toList, [9])]) ∧
      (Exact [("ASF ".toList, [0]), ("CPU ".toList, [1])]
          [("ASF ".toList, [0]), ("CPU ".toList, [9])] ↔
        LabelsApart [("ASF ".toList, [0]), ("CPU ".toList, [1])]
          [("ASF ".toList, [0]), ("CPU ".toList, [9])]) :=
  diffStates_exact_iff (fun _ => none) String.ofList "a" "b" rfl rfl

/-- The chunks `CPU ` and ` CPU` come under one label, and that the first of them differs is not
reported. -/
theorem diffStates_not_exact :
    ∃ as bs : List Chunk,
      parseState (fun _ => none) "a" String.ofList
        (oneByte "ASF " 0 ++ oneByte "CPU " 1 ++ oneByte " CPU" 2) = .ok as ∧
      parseState (fun _ => none) "b" String.ofList
        (oneByte "ASF " 0 ++ oneByte "CPU " 9 ++ oneByte " CPU" 2) = .ok bs ∧
      diffChunks as bs = ⟨[], [], [], 2⟩ ∧ ¬ Accounted as bs ∧ ¬ Exact as bs := by
  refine ⟨[("ASF ".toList, [0]), ("CPU ".toList, [1]), (" CPU".toList, [2])],
    [("ASF ".toList, [0]), ("CPU ".toList, [9]), (" CPU".toList, [2])], rfl, rfl, ?_⟩
  have hreport : diffChunks [("ASF ".toList, [0]), ("CPU ".toList, [1]), (" CPU".toList, [2])]
      [("ASF ".toList, [0]), ("CPU ".toList, [9]), (" CPU".toList, [2])] = ⟨[], [], [], 2⟩ := by
    decide
  have haccount : ¬ Accounted [("ASF ".toList, [0]), ("CPU ".toList, [1]), (" CPU".toList, [2])]
      [("ASF ".toList, [0]), ("CPU ".toList, [9]), (" CPU".toList, [2])] := by
    rw [Accounted, hreport]
    decide
  exact ⟨hreport, haccount, fun h => haccount h.accounted⟩

end StateFile

end AmigaDevbench.Winuae
