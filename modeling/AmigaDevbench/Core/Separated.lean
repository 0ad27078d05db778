import AmigaDevbench.Core.Records

/-!
# Entries behind the bars of a line

A list of entries is the last field of a line: bars in the entries are put back by the reader, which
finds nothing where the field begins with one. A writer that has no room left may leave a comma at
the end.
-/

namespace AmigaDevbench

/-- How entries are written and how the text of all of them is read. A list comes back if its
entries are readable, and only then. -/
structure ListFormat (α β : Type) where
  write : α → Text
  read : Text → List β
  value : α → β
  Readable : α → Prop
  write_ne_nil : ∀ a, Readable a → write a ≠ []
  read_writeAll : ∀ as ≠ [], (∀ a ∈ as, Readable a) → ∀ tail, tail = [] ∨ tail = [','] →
    read ([','].intercalate (as.map write) ++ tail) = as.map value
  readable_of_read : ∀ (as : List α) (tail : Text), tail = [] ∨ tail = [','] →
    read ([','].intercalate (as.map write) ++ tail) = as.map value → ∀ a ∈ as, Readable a

namespace ListFormat

variable {α β : Type} (f : ListFormat α β)

/-- What is read of a field. -/
def readField (text : Text) : List β :=
  if (text.splitOn '|').getD 0 [] = [] then [] else f.read text

/-- The first entry does not begin with a bar. -/
def Leads (as : List α) : Prop := ∀ a ∈ as.head?, ∀ c ∈ (f.write a).head?, c ≠ '|'

/-- The entries of a list come back from the field. -/
def ReadBack (as : List α) : Prop := (∀ a ∈ as, f.Readable a) ∧ f.Leads as

theorem head?_writeAll {a : α} (hne : f.write a ≠ []) (as : List α) (tail : Text) :
    ([','].intercalate ((a :: as).map f.write) ++ tail).head? = (f.write a).head? := by
  obtain ⟨c, rest, hc⟩ := List.exists_cons_of_ne_nil hne
  rw [List.map_cons, Text.intercalate_cons_eq, hc]
  rfl

theorem readable_of_readField {as : List α} {tail : Text} (htail : tail = [] ∨ tail = [','])
    (h : f.readField ([','].intercalate (as.map f.write) ++ tail) = as.map f.value) :
    ∀ a ∈ as, f.Readable a := by
  rw [readField] at h
  split at h
  · rw [List.map_eq_nil_iff.mp h.symm]
    exact fun _ hmem => absurd hmem List.not_mem_nil
  · exact f.readable_of_read as tail htail h

theorem head_ne_bar_of_readField {as : List α} {text : Text} (hne : as ≠ [])
    (h : f.readField text = as.map f.value) : ∀ c ∈ text.head?, c ≠ '|' := by
  rintro c hc rfl
  obtain ⟨rest, rfl⟩ : ∃ rest, text = '|' :: rest := by
    cases text with
    | nil => cases hc
    | cons d rest => exact ⟨rest, by rw [Option.some.inj hc]⟩
  have hfirst : (('|' :: rest : Text).splitOn '|').getD 0 [] = [] := by
    rw [← List.nil_append ('|' :: rest), Text.splitOn_field List.not_mem_nil]
    rfl
  rw [readField, if_pos hfirst] at h
  exact hne (List.map_eq_nil_iff.mp h.symm)

/-- A list comes back exactly if its entries are readable and no bar is in front of it. -/
theorem readField_writeAll_iff {as : List α} {tail : Text} (htail : tail = [] ∨ tail = [','])
    (hempty : as = [] → tail = []) :
    f.readField ([','].intercalate (as.map f.write) ++ tail) = as.map f.value ↔
      f.ReadBack as := by
  cases as with
  | nil =>
    rw [hempty rfl]
    exact ⟨fun _ => ⟨fun _ hmem => absurd hmem List.not_mem_nil, fun _ hmem => by cases hmem⟩,
      fun _ => rfl⟩
  | cons a as =>
    constructor
    · intro h
      have hread := f.readable_of_readField htail h
      refine ⟨hread, fun b hb c hc => ?_⟩
      obtain rfl : a = b := Option.some.inj hb
      have hne := f.write_ne_nil a (hread a List.mem_cons_self)
      exact f.head_ne_bar_of_readField (List.cons_ne_nil a as) h c
        (f.head?_writeAll hne as tail ▸ hc)
    · rintro ⟨hread, hlead⟩
      have hne := f.write_ne_nil a (hread a List.mem_cons_self)
      have hhead := f.head?_writeAll hne as tail
      have htext : [','].intercalate ((a :: as).map f.write) ++ tail ≠ [] := by
        intro hnil
        rw [hnil] at hhead
        exact hne (List.head?_eq_none_iff.mp hhead.symm)
      have hfirst := Text.getD_splitOn_ne_nil (c := '|') htext fun c hc =>
        hlead a rfl c (hhead ▸ hc)
      rw [readField, if_neg hfirst]
      exact f.read_writeAll _ (List.cons_ne_nil a as) hread tail htail

end ListFormat

/-! ### What a writer appends -/

/-- A text that consists of these entries, in this order, and of commas. -/
inductive Text.Written : List Text → Text → Prop
  | nil : Written [] []
  | comma {entries : List Text} {text : Text} (h : Written entries text) :
    Written entries (text ++ [','])
  | entry {entries : List Text} {text : Text} (h : Written entries text) (entry : Text) :
    Written (entries ++ [entry]) (text ++ entry)

namespace Text.Written

variable {entries : List Text} {text : Text}

/-- More entries, each with a comma in front of it. -/
theorem append (h : Written entries text) (more : List Text) :
    Written (entries ++ more) (text ++ (more.map (',' :: ·)).flatten) := by
  induction more generalizing entries text with
  | nil => rwa [List.append_nil, List.map_nil, List.flatten_nil, List.append_nil]
  | cons entry more ih =>
    have hnext := ih (h.comma.entry entry)
    rw [List.map_cons, List.flatten_cons]
    simpa only [List.append_assoc, List.cons_append, List.nil_append] using hnext

theorem intercalate (entries : List Text) : Written entries ([','].intercalate entries) := by
  cases entries with
  | nil => exact nil
  | cons entry entries =>
    rw [intercalate_cons_eq]
    exact (nil.entry entry).append entries

theorem append_tail (h : Written entries text) {tail : Text} (htail : tail = [] ∨ tail = [',']) :
    Written entries (text ++ tail) := by
  rcases htail with rfl | rfl
  · rwa [List.append_nil]
  · exact h.comma

end Text.Written

/-! ### Entries between commas -/

/-- The entries between commas, stripped and read one by one. -/
def Text.readEntries {β : Type} (blank : Char → Bool) (read : Text → Option β) (text : Text) :
    List β :=
  ((text.splitOn ',').map (Text.stripBy blank)).filterMap read

/-- A text that is an entry: without a comma, and with ends that are not stripped. -/
structure Text.Cell (blank : Char → Bool) (s : Text) : Prop where
  comma : ',' ∉ s
  head : ∀ c ∈ s.head?, blank c = false
  last : ∀ c ∈ s.getLast?, blank c = false

section Entries

variable {α β : Type} {blank : Char → Bool} {read : Text → Option β} {write : α → Text}
  {value : α → β} {as : List α}

/-- What is handed to the reader of an entry. -/
theorem Text.cell_of_mem_readEntries {b : β} {text : Text}
    (h : b ∈ Text.readEntries blank read text) :
    ∃ s, Text.Cell blank s ∧ (∀ c ∈ s, c ∈ text) ∧ read s = some b := by
  obtain ⟨s, hs, hread⟩ := List.mem_filterMap.mp h
  obtain ⟨raw, hraw, rfl⟩ := List.mem_map.mp hs
  refine ⟨_, ⟨fun hmem => ?_, fun c => Text.head_stripBy, fun c => Text.getLast_stripBy⟩,
    fun c hc => ?_, hread⟩
  · exact (Text.ne_of_mem_splitOn hraw (Text.mem_of_mem_stripBy hmem)).1 rfl
  · exact (Text.ne_of_mem_splitOn hraw (Text.mem_of_mem_stripBy hc)).2

/-- Entries are read one by one, and a comma at the end is passed over. -/
theorem Text.readEntries_intercalate (hne : as ≠ []) (hcell : ∀ a ∈ as, Text.Cell blank (write a))
    (hread : ∀ a ∈ as, read (write a) = some (value a)) (hnil : read [] = none) {tail : Text}
    (htail : tail = [] ∨ tail = [',']) :
    Text.readEntries blank read ([','].intercalate (as.map write) ++ tail) = as.map value := by
  have hpieces : as.map write ≠ [] := fun h => hne (List.map_eq_nil_iff.mp h)
  have hcomma : ∀ piece ∈ as.map write, ',' ∉ piece := by
    intro piece hmem
    obtain ⟨a, ha, rfl⟩ := List.mem_map.mp hmem
    exact (hcell a ha).comma
  have hstrip : (as.map write).map (Text.stripBy blank) = as.map write := by
    rw [List.map_map]
    refine List.map_congr_left fun a ha => ?_
    exact Text.stripBy_of_ends (hcell a ha).head (hcell a ha).last
  have hall : (as.map write).filterMap read = as.map value := by
    rw [List.filterMap_map]
    exact (List.filterMap_congr hread).trans (congrFun List.filterMap_eq_map as)
  rcases htail with rfl | rfl
  · rw [List.append_nil, readEntries, List.splitOn_intercalate ',' hcomma hpieces, hstrip, hall]
  · have hsplit : ([','].intercalate (as.map write) ++ [',']).splitOn ',' =
        as.map write ++ [[]] := by
      have hconcat := Text.intercalate_concat [','] [] hpieces
      rw [List.append_nil] at hconcat
      rw [← hconcat]
      refine List.splitOn_intercalate ',' (fun piece hmem => ?_)
        (List.append_ne_nil_of_right_ne_nil _ (List.cons_ne_nil _ _))
      rcases List.mem_append.mp hmem with hmem | hmem
      · exact hcomma piece hmem
      · rw [List.mem_singleton.mp hmem]
        exact List.not_mem_nil
    have hblank : Text.stripBy blank [] = [] := rfl
    rw [readEntries, hsplit, List.map_append, hstrip, List.filterMap_append, hall,
      List.map_singleton, hblank, List.filterMap_cons, hnil]
    exact List.append_nil _

theorem Text.readable_of_readEntries {Readable : α → Prop}
    (hreadable : ∀ a s, Text.Cell blank s → read s = some (value a) → Readable a) {text : Text}
    (h : Text.readEntries blank read text = as.map value) : ∀ a ∈ as, Readable a := by
  intro a ha
  have hmem : value a ∈ Text.readEntries blank read text := h ▸ List.mem_map_of_mem ha
  obtain ⟨s, hs, -, hvalue⟩ := Text.cell_of_mem_readEntries hmem
  exact hreadable a s hs hvalue

/-- Entries between commas, where a reader of one entry decides. -/
def ListFormat.ofCells (write : α → Text) (value : α → β) (Readable : α → Prop)
    (hnil : read [] = none) (hne : ∀ a, Readable a → write a ≠ [])
    (hcell : ∀ a, Readable a → Text.Cell blank (write a))
    (hread : ∀ a, Readable a → read (write a) = some (value a))
    (hreadable : ∀ a s, Text.Cell blank s → read s = some (value a) → Readable a) :
    ListFormat α β where
  write := write
  read := Text.readEntries blank read
  value := value
  Readable := Readable
  write_ne_nil := hne
  read_writeAll := fun _ has hall _ htail => Text.readEntries_intercalate has
    (fun a ha => hcell a (hall a ha)) (fun a ha => hread a (hall a ha)) hnil htail
  readable_of_read := fun _ _ _ h => Text.readable_of_readEntries hreadable h

end Entries

/-! ### Splitting -/

namespace Text

variable {x y c : Char}

theorem rstripBy_isPrefix (p : Char → Bool) (s : Text) : rstripBy p s <+: s := by
  rw [rstripBy, ← List.reverse_suffix, List.reverse_reverse]
  exact List.dropWhile_suffix p

theorem stripBy_isInfix (p : Char → Bool) (s : Text) : stripBy p s <:+: s :=
  (rstripBy_isPrefix p (lstripBy p s)).isInfix.trans (List.dropWhile_suffix p).isInfix

theorem notMem_of_after? {s : Text} (h : s.after? c = none) : c ∉ s := by
  intro hmem
  obtain ⟨a, t, rfl, ha⟩ := List.eq_append_cons_of_mem hmem
  rw [after?_append ha] at h
  cases h

/-- The first piece is what stands before the separator. -/
theorem getD_splitOn_zero (c : Char) (s : Text) : (s.splitOn c).getD 0 [] = s.before c := by
  by_cases h : c ∈ s
  · obtain ⟨a, t, rfl, ha⟩ := List.eq_append_cons_of_mem h
    rw [splitOn_field ha, before_append ha, List.getD_cons_zero]
  · rw [List.splitOn_eq_singleton h, before_eq_self h, List.getD_cons_zero]

/-- A text with an occurrence is cut at its first one. -/
theorem exists_first_pair (p : Text) : ∀ q : Text, ∃ a t, p ++ x :: y :: q = a ++ x :: y :: t ∧
    ¬ [x, y] <:+: a := by
  induction hn : p.length using Nat.strong_induction_on generalizing p with
  | _ n ih =>
    intro q
    by_cases hin : [x, y] <:+: p
    · obtain ⟨front, back, rfl⟩ := hin
      obtain ⟨a, t, heq, hfirst⟩ := ih front.length
        (by simp only [List.length_append, List.length_cons] at hn; omega) front rfl
        (back ++ x :: y :: q)
      refine ⟨a, t, ?_, hfirst⟩
      rw [← heq]
      simp only [List.append_assoc, List.cons_append, List.nil_append]
    · exact ⟨p, q, rfl, hin⟩

/-- No piece has the separator in it. -/
theorem not_pair_of_mem_splitStr (hxy : x ≠ y) {piece : Text} : ∀ s : Text,
    piece ∈ splitStr [x, y] s → ¬ [x, y] <:+: piece := by
  intro s
  induction hn : s.length using Nat.strong_induction_on generalizing s with
  | _ n ih =>
    intro hmem
    by_cases hin : [x, y] <:+: s
    · obtain ⟨front, back, rfl⟩ := hin
      obtain ⟨a, t, heq, hfirst⟩ := @exists_first_pair x y front back
      have hassoc : front ++ [x, y] ++ back = a ++ x :: y :: t := by
        rw [← heq, List.append_assoc]
        rfl
      rw [hassoc] at hmem hn
      rw [splitStr_pair hxy t hfirst] at hmem
      rcases List.mem_cons.mp hmem with rfl | hmem
      · exact hfirst
      · exact ih t.length (by simp only [List.length_append, List.length_cons] at hn; omega) t rfl
          hmem
    · rw [splitStr_eq_singleton hin] at hmem
      rw [List.mem_singleton.mp hmem]
      exact hin

end Text

end AmigaDevbench
