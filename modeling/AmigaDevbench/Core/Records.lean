import AmigaDevbench.Core.Text

/-!
# Records in delimited text

Records are written one after the other with commas between them and read by splitting the text
and stripping the pieces. Nothing is escaped, so a list of records comes back exactly if each
record is one that its reader can have read.
-/

namespace AmigaDevbench

namespace Text

variable {p : Char → Bool} {s t : Text} {c : Char}

/-! ### Joining -/

theorem intercalate_concat {α : Type} (sep x : List α) {xs : List (List α)} (h : xs ≠ []) :
    sep.intercalate (xs ++ [x]) = sep.intercalate xs ++ sep ++ x := by
  induction xs with
  | nil => exact absurd rfl h
  | cons y xs ih =>
    rw [List.cons_append, List.intercalate_cons_of_ne_nil (List.append_ne_nil_of_right_ne_nil _
      (List.cons_ne_nil x []))]
    by_cases hxs : xs = []
    · rw [hxs, List.nil_append, List.intercalate_singleton, List.intercalate_singleton]
    · rw [ih hxs, List.intercalate_cons_of_ne_nil hxs]
      simp only [List.append_assoc]

/-- Every piece after the first has a separator in front of it. -/
theorem intercalate_cons_eq (piece : Text) (pieces : List Text) :
    [c].intercalate (piece :: pieces) = piece ++ (pieces.map (c :: ·)).flatten := by
  induction pieces generalizing piece with
  | nil => simp
  | cons next pieces ih =>
    rw [List.intercalate_cons_cons, ih]
    simp

theorem length_flatten_cons_le {k : Nat} {pieces : List Text}
    (h : ∀ piece ∈ pieces, piece.length ≤ k) :
    (pieces.map (c :: ·)).flatten.length ≤ pieces.length * (k + 1) := by
  induction pieces with
  | nil => exact Nat.zero_le _
  | cons piece pieces ih =>
    have hpiece := h piece List.mem_cons_self
    have hrest := ih fun next hnext => h next (List.mem_cons_of_mem _ hnext)
    rw [List.map_cons, List.flatten_cons, List.length_append, List.length_cons, List.length_cons,
      Nat.succ_mul]
    omega

theorem length_intercalate_le {k : Nat} {pieces : List Text}
    (h : ∀ piece ∈ pieces, piece.length ≤ k) :
    ([c].intercalate pieces).length ≤ pieces.length * (k + 1) := by
  cases pieces with
  | nil => exact Nat.zero_le _
  | cons piece pieces =>
    have hpiece := h piece List.mem_cons_self
    have hrest := length_flatten_cons_le (c := c) fun next hnext =>
      h next (List.mem_cons_of_mem _ hnext)
    rw [intercalate_cons_eq, List.length_append, List.length_cons, Nat.succ_mul]
    omega

/-- There are not more pieces than characters. -/
theorem length_le_length_intercalate {pieces : List Text} (h : ∀ piece ∈ pieces, piece ≠ []) :
    pieces.length ≤ ([c].intercalate pieces).length := by
  cases pieces with
  | nil => exact Nat.zero_le _
  | cons piece pieces =>
    have hpiece := List.length_pos_iff.mpr (h piece List.mem_cons_self)
    have hrest : pieces.length ≤ (pieces.map (c :: ·)).flatten.length := by
      clear h hpiece
      induction pieces with
      | nil => exact Nat.le_refl _
      | cons next pieces ih =>
        rw [List.map_cons, List.flatten_cons, List.length_append, List.length_cons,
          List.length_cons]
        omega
    rw [intercalate_cons_eq, List.length_append, List.length_cons]
    omega

/-! ### Stripping -/

/-- A text is not stripped if its ends stay. -/
theorem stripBy_of_ends (hhead : ∀ c ∈ s.head?, p c = false)
    (hlast : ∀ c ∈ s.getLast?, p c = false) : stripBy p s = s := by
  cases s with
  | nil => rfl
  | cons c s =>
    rw [stripBy_cons (hhead c rfl)]
    obtain ⟨front, d, hd⟩ : ∃ front d, c :: s = front ++ [d] :=
      ⟨_, _, (List.dropLast_append_getLast (List.cons_ne_nil c s)).symm⟩
    rw [hd] at hlast ⊢
    rw [rstripBy_append_cons (hlast d List.getLast?_concat)]
    rfl

theorem head_dropWhile (h : c ∈ (s.dropWhile p).head?) : p c = false := by
  have hnot := List.head?_dropWhile_not p s
  rw [Option.mem_def.mp h] at hnot
  simpa using hnot

/-- The ends of what is stripped stay. -/
theorem head_stripBy (h : c ∈ (stripBy p s).head?) : p c = false := by
  have hprefix : stripBy p s <+: s.dropWhile p := by
    rw [stripBy, rstripBy, ← List.reverse_suffix, List.reverse_reverse]
    exact List.dropWhile_suffix p
  obtain ⟨rest, hrest⟩ := hprefix
  cases hstrip : stripBy p s with
  | nil =>
    rw [hstrip] at h
    cases h
  | cons d t =>
    rw [hstrip] at h hrest
    exact head_dropWhile (p := p) (s := s) (hrest ▸ h)

theorem getLast_stripBy (h : c ∈ (stripBy p s).getLast?) : p c = false := by
  rw [stripBy, rstripBy, List.getLast?_reverse] at h
  exact head_dropWhile h

/-! ### Splitting at a separator of two characters -/

section Pair

variable {x y : Char} {a : Text}

/-- The separator does not occur before its first place. -/
theorem splitStrAux_pair (hxy : x ≠ y) (t : Text) : ∀ acc : Text, ¬ [x, y] <:+: a →
    splitStrAux [x, y] 0 (a ++ x :: y :: t) acc =
      (acc.reverse ++ a) :: splitStrAux [x, y] 0 t [] := by
  induction a with
  | nil =>
    intro acc _
    have hprefix : [x, y].isPrefixOf (x :: y :: t) = true := by simp
    rw [List.nil_append, splitStrAux, if_pos hprefix, List.append_nil]
    rfl
  | cons c a ih =>
    intro acc h
    have hrest : ¬ [x, y] <:+: a := fun hin => h (hin.trans (List.suffix_cons c a).isInfix)
    have hprefix : ¬ [x, y].isPrefixOf (c :: (a ++ x :: y :: t)) = true := by
      rw [List.isPrefixOf_iff_prefix]
      intro hpre
      obtain ⟨hc, hpre⟩ := List.cons_prefix_cons.mp hpre
      cases a with
      | nil => exact hxy (List.cons_prefix_cons.mp hpre).1.symm
      | cons d a =>
        have hd : y = d := (List.cons_prefix_cons.mp hpre).1
        rw [hc, hd] at h
        exact h ⟨[], a, rfl⟩
    rw [List.cons_append, splitStrAux, if_neg hprefix, ih _ hrest, List.reverse_cons,
      List.append_assoc]
    rfl

theorem splitStr_pair (hxy : x ≠ y) (t : Text) (h : ¬ [x, y] <:+: a) :
    splitStr [x, y] (a ++ x :: y :: t) = a :: splitStr [x, y] t :=
  splitStrAux_pair hxy t [] h

theorem splitStrAux_eq_singleton : ∀ acc : Text, ¬ [x, y] <:+: a →
    splitStrAux [x, y] 0 a acc = [acc.reverse ++ a] := by
  induction a with
  | nil =>
    intro acc _
    rw [List.append_nil]
    rfl
  | cons c a ih =>
    intro acc h
    have hrest : ¬ [x, y] <:+: a := fun hin => h (hin.trans (List.suffix_cons c a).isInfix)
    have hprefix : ¬ [x, y].isPrefixOf (c :: a) = true := by
      rw [List.isPrefixOf_iff_prefix]
      exact fun hpre => h hpre.isInfix
    rw [splitStrAux, if_neg hprefix, ih _ hrest, List.reverse_cons, List.append_assoc]
    rfl

theorem splitStr_eq_singleton (h : ¬ [x, y] <:+: a) : splitStr [x, y] a = [a] :=
  splitStrAux_eq_singleton [] h

/-- An occurrence in a text that is put together lies in one of the parts or across the seam. -/
theorem infix_pair_append {b : Text} (h : [x, y] <:+: a ++ b) :
    [x, y] <:+: a ∨ [x, y] <:+: b ∨ (a.getLast? = some x ∧ b.head? = some y) := by
  induction a with
  | nil => exact .inr (.inl h)
  | cons c a ih =>
    rw [List.cons_append, List.infix_cons_iff] at h
    rcases h with hpre | hin
    · obtain ⟨hx, hnext⟩ := List.cons_prefix_cons.mp hpre
      cases a with
      | nil =>
        cases b with
        | nil => cases List.prefix_nil.mp hnext
        | cons d b =>
          have hy : y = d := (List.cons_prefix_cons.mp hnext).1
          exact .inr (.inr ⟨congrArg some hx.symm, congrArg some hy.symm⟩)
      | cons d a =>
        have hy : y = d := (List.cons_prefix_cons.mp hnext).1
        exact .inl ⟨[], a, by rw [hx, hy]; rfl⟩
    · rcases ih hin with hleft | hright | ⟨hlast, hhead⟩
      · exact .inl (hleft.trans (List.suffix_cons c a).isInfix)
      · exact .inr (.inl hright)
      · refine .inr (.inr ⟨?_, hhead⟩)
        rw [List.getLast?_cons, hlast]
        rfl

end Pair

/-! ### Splitting a bounded number of times -/

theorem splitMax_append {n : Nat} {a : Text} (h : c ∉ a) (t : Text) :
    splitMax c (n + 1) (a ++ c :: t) = a :: splitMax c n t := by
  rw [splitMax, after?_append h, before_append h]

theorem splitMax_of_notMem {n : Nat} (h : c ∉ s) : splitMax c (n + 1) s = [s] := by
  rw [splitMax, after?_eq_none h]

/-- Splitting at most once more than `n` times either leaves the text or cuts it at the first
separator. -/
theorem splitMax_cases (c : Char) (n : Nat) (s : Text) :
    (c ∉ s ∧ splitMax c (n + 1) s = [s]) ∨
      ∃ a t, c ∉ a ∧ s = a ++ c :: t ∧ splitMax c (n + 1) s = a :: splitMax c n t := by
  by_cases h : c ∈ s
  · obtain ⟨a, t, rfl, ha⟩ := List.eq_append_cons_of_mem h
    exact .inr ⟨a, t, ha, rfl, splitMax_append ha t⟩
  · exact .inl ⟨h, splitMax_of_notMem h⟩

/-- The first piece of a text that does not begin with the separator has its first character. -/
theorem getD_splitOn_ne_nil (hs : s ≠ []) (h : ∀ d ∈ s.head?, d ≠ c) :
    (s.splitOn c).getD 0 [] ≠ [] := by
  cases s with
  | nil => exact absurd rfl hs
  | cons d s =>
    have hd : (d == c) = false := beq_eq_false_iff_ne.mpr (h d rfl)
    obtain ⟨first, pieces, hsplit⟩ := List.exists_cons_of_ne_nil (List.splitOn_ne_nil c s)
    rw [List.splitOn_cons_eq_if_modifyHead, hsplit, if_neg (by rw [hd]; exact Bool.false_ne_true)]
    exact List.cons_ne_nil _ _

theorem notMem_getD_splitOn (c : Char) (s : Text) : c ∉ (s.splitOn c).getD 0 [] := by
  obtain ⟨first, pieces, hs⟩ := List.exists_cons_of_ne_nil (List.splitOn_ne_nil c s)
  rw [hs, List.getD_cons_zero]
  exact fun hmem => (ne_of_mem_splitOn (hs ▸ List.mem_cons_self) hmem).1 rfl

end Text

/-! ### Lists of records -/

/-- A text with these characters in none of its places. -/
def Text.Free (seps : List Char) (s : Text) : Prop := ∀ c ∈ s, c ∉ seps

instance (seps : List Char) (s : Text) : Decidable (s.Free seps) :=
  inferInstanceAs (Decidable (∀ c ∈ s, c ∉ seps))

theorem Text.free_append {seps : List Char} {a b : Text} :
    (a ++ b).Free seps ↔ a.Free seps ∧ b.Free seps := List.forall_mem_append

theorem Text.free_cons {seps : List Char} {c : Char} {a : Text} :
    Text.Free seps (c :: a) ↔ c ∉ seps ∧ a.Free seps := List.forall_mem_cons

/-- A piece that a reader can be given: without separators, and with ends that are not blank. -/
structure Piece (blank : Char → Bool) (s : Text) : Prop where
  free : s.Free [',', '|']
  head : ∀ c ∈ s.head?, blank c = false
  last : ∀ c ∈ s.getLast?, blank c = false

section Piece

variable {blank : Char → Bool} {a t : Text} {c : Char}

/-- A piece made of two fields. -/
theorem Piece.of_fields (ha : a.Free [',', '|']) (ht : t.Free [',', '|']) (hc : c ∉ [',', '|'])
    (hblank : blank c = false) (hhead : ∀ d ∈ a.head?, blank d = false)
    (hlast : ∀ d ∈ t.getLast?, blank d = false) : Piece blank (a ++ c :: t) := by
  refine ⟨Text.free_append.mpr ⟨ha, Text.free_cons.mpr ⟨hc, ht⟩⟩, fun d hd => ?_, fun d hd => ?_⟩
  · cases a with
    | nil => exact Option.some.inj hd ▸ hblank
    | cons e a => exact hhead d hd
  · rw [List.getLast?_append, List.getLast?_cons] at hd
    cases hl : t.getLast? with
    | none => exact Option.some.inj (hl ▸ hd) ▸ hblank
    | some e =>
      rw [hl] at hd
      exact hlast d (hl.trans hd)

theorem Piece.left (h : Piece blank (a ++ c :: t)) :
    a.Free [',', '|'] ∧ ∀ d ∈ a.head?, blank d = false := by
  refine ⟨(Text.free_append.mp h.free).1, fun d hd => h.head d ?_⟩
  cases a with
  | nil => cases hd
  | cons e a => exact hd

theorem Piece.right (h : Piece blank (a ++ c :: t)) :
    t.Free [',', '|'] ∧ ∀ d ∈ t.getLast?, blank d = false := by
  refine ⟨(Text.free_cons.mp (Text.free_append.mp h.free).2).2, fun d hd => h.last d ?_⟩
  rw [Option.mem_def] at hd
  rw [List.getLast?_append, List.getLast?_cons, hd]
  rfl

end Piece

/-- How a record is written and read. The readable records are the ones that are read from what is
written of them, and the only ones that are read at all. -/
structure RecordFormat (α β : Type) (blank : Char → Bool) where
  write : α → Text
  read : Text → Option β
  value : α → β
  Readable : α → Prop
  write_ne_nil : ∀ r, write r ≠ []
  piece_write : ∀ r, Readable r → Piece blank (write r)
  read_write : ∀ r, Readable r → read (write r) = some (value r)
  readable_of_read : ∀ r s, Piece blank s → read s = some (value r) → Readable r

namespace RecordFormat

variable {α β : Type} {blank : Char → Bool} (f : RecordFormat α β blank)

/-- The text of a list of records. -/
def writeAll (rs : List α) : Text := [','].intercalate (rs.map f.write)

/-- The records in the first field of a line. -/
def readAll (line : Text) : List β :=
  if (line.splitOn '|').getD 0 [] = [] then []
  else ((((line.splitOn '|').getD 0 []).splitOn ',').map (Text.stripBy blank)).filterMap f.read

theorem writeAll_ne_nil {rs : List α} (h : rs ≠ []) : f.writeAll rs ≠ [] := by
  cases rs with
  | nil => exact absurd rfl h
  | cons r rs =>
    rw [writeAll, List.map_cons, Text.intercalate_cons_eq]
    exact List.append_ne_nil_of_left_ne_nil (f.write_ne_nil r) _

/-- Readable records come back. -/
theorem readAll_writeAll {rs : List α} (h : ∀ r ∈ rs, f.Readable r) :
    f.readAll (f.writeAll rs) = rs.map f.value := by
  cases rs with
  | nil => rfl
  | cons r rs =>
    have hpiece : ∀ piece ∈ (r :: rs).map f.write, Piece blank piece := by
      intro piece hmem
      obtain ⟨r', hr', rfl⟩ := List.mem_map.mp hmem
      exact f.piece_write r' (h r' hr')
    have hbar : '|' ∉ f.writeAll (r :: rs) := by
      intro hmem
      rcases Text.mem_intercalate hmem with habs | ⟨piece, hin, hmem⟩
      · exact absurd habs (by decide)
      · exact absurd ((hpiece piece hin).free '|' hmem) (by decide)
    have hcomma : ∀ piece ∈ (r :: rs).map f.write, ',' ∉ piece := fun piece hin hmem =>
      absurd ((hpiece piece hin).free ',' hmem) (by decide)
    have hstrip : ((r :: rs).map f.write).map (Text.stripBy blank) = (r :: rs).map f.write := by
      refine (List.map_congr_left fun piece hin => ?_).trans (List.map_id _)
      exact Text.stripBy_of_ends (hpiece piece hin).head (hpiece piece hin).last
    rw [readAll, List.splitOn_eq_singleton hbar, List.getD_cons_zero,
      if_neg (f.writeAll_ne_nil (List.cons_ne_nil r rs)), writeAll,
      List.splitOn_intercalate ',' hcomma (List.cons_ne_nil _ _), hstrip, List.filterMap_map]
    refine (List.filterMap_congr fun r' hr' => ?_).trans (congrFun List.filterMap_eq_map _)
    exact f.read_write r' (h r' hr')

/-- What comes back is readable. -/
theorem readable_of_readAll {rs : List α} {line : Text}
    (h : f.readAll line = rs.map f.value) : ∀ r ∈ rs, f.Readable r := by
  intro r hr
  have hvalue : f.value r ∈ f.readAll line := h ▸ List.mem_map_of_mem hr
  rw [readAll] at hvalue
  split at hvalue
  · exact absurd hvalue List.not_mem_nil
  · obtain ⟨s, hs, hread⟩ := List.mem_filterMap.mp hvalue
    obtain ⟨raw, hraw, rfl⟩ := List.mem_map.mp hs
    refine f.readable_of_read r _ ⟨fun c hc => ?_, fun c => Text.head_stripBy,
      fun c => Text.getLast_stripBy⟩ hread
    obtain ⟨hcomma, hfield⟩ := Text.ne_of_mem_splitOn hraw (Text.mem_of_mem_stripBy hc)
    have hbar : c ≠ '|' := fun heq => Text.notMem_getD_splitOn '|' line (heq ▸ hfield)
    simp [hcomma, hbar]

/-- A list of records comes back exactly if they are readable. -/
theorem readAll_writeAll_iff (rs : List α) :
    f.readAll (f.writeAll rs) = rs.map f.value ↔ ∀ r ∈ rs, f.Readable r :=
  ⟨f.readable_of_readAll, f.readAll_writeAll⟩

end RecordFormat

end AmigaDevbench
