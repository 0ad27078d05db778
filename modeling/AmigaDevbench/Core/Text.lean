import Mathlib.Data.List.Basic
import Mathlib.Data.List.TakeWhile
import AmigaDevbench.Core.Sizes

/-!
# Delimited text

Both ends of the link handle lines as sequences of Latin-1 characters joined by one-character
or longer separators. This file collects the list functions such code is made of: splitting
with and without a bound on the number of cuts, splitting at a longer separator, stripping,
and the lemmas that invert a join.
-/

namespace AmigaDevbench

/-- A Python `str` or a C string, as the sequence of its characters. -/
abbrev Text := List Char

instance lawfulBEq_text : LawfulBEq Text := inferInstance

/-- What holds of each character of a text is decided along the text, not over all characters. -/
instance (priority := high) {p : Char → Prop} [DecidablePred p] (s : Text) :
    Decidable (∀ c ∈ s, p c) := List.decidableBAll p s

instance (priority := high) {p : Char → Prop} [DecidablePred p] (s : Text) :
    Decidable (∃ c ∈ s, p c) := List.decidableBEx p s

instance (priority := high) decidableForallMem {p : Char → Prop} [DecidablePred p]
    (o : Option Char) :
    Decidable (∀ c ∈ o, p c) := Option.decidableForallMem o

namespace Text

/-- Drop every leading character that satisfies `p`. -/
def lstripBy (p : Char → Bool) (s : Text) : Text := s.dropWhile p

/-- Drop every trailing character that satisfies `p`. -/
def rstripBy (p : Char → Bool) (s : Text) : Text := (s.reverse.dropWhile p).reverse

/-- Drop the characters that satisfy `p` at both ends. -/
def stripBy (p : Char → Bool) (s : Text) : Text := rstripBy p (lstripBy p s)

/-- The text before the first `c`; all of it when there is none. -/
def before (c : Char) (s : Text) : Text := s.takeWhile (· != c)

/-- The text after the first `c`, when there is one. -/
def after? (c : Char) (s : Text) : Option Text :=
  match s.dropWhile (· != c) with
  | [] => none
  | _ :: rest => some rest

/-- Split at the first `n` occurrences of `c`. -/
def splitMax (c : Char) : Nat → Text → List Text
  | 0, s => [s]
  | n + 1, s =>
    match after? c s with
    | none => [s]
    | some rest => before c s :: splitMax c n rest

/-- Scan for a separator of several characters. `skip` counts the characters of a separator
already recognised; `acc` holds the current piece, reversed. -/
def splitStrAux (sep : Text) : Nat → Text → Text → List Text
  | _, [], acc => [acc.reverse]
  | skip + 1, _ :: cs, acc => splitStrAux sep skip cs acc
  | 0, c :: cs, acc =>
    if sep.isPrefixOf (c :: cs) then acc.reverse :: splitStrAux sep (sep.length - 1) cs []
    else splitStrAux sep 0 cs (c :: acc)

/-- Split at every occurrence of a separator, leftmost first and without overlap. -/
def splitStr (sep s : Text) : List Text := splitStrAux sep 0 s []

/-- The text before the first occurrence of a longer separator, when there is one. -/
def beforeStr? (sep : Text) : Text → Option Text
  | [] => if sep = [] then some [] else none
  | c :: s => if sep.isPrefixOf (c :: s) then some [] else (beforeStr? sep s).map (c :: ·)

/-- Join pieces with `|`. -/
def joinBar (parts : List Text) : Text := ['|'].intercalate parts

/-- What stands before the first occurrence is followed by it. -/
theorem beforeStr?_prefix {sep s b : Text} (h : beforeStr? sep s = some b) : b ++ sep <+: s := by
  induction s generalizing b with
  | nil =>
    simp only [beforeStr?] at h
    split at h
    · next hsep =>
      cases h
      simp [hsep]
    · cases h
  | cons c s ih =>
    simp only [beforeStr?] at h
    split at h
    · next hsep =>
      cases h
      exact List.isPrefixOf_iff_prefix.mp hsep
    · obtain ⟨b', hb', rfl⟩ := Option.map_eq_some_iff.mp h
      exact (List.prefix_cons_inj c).mpr (ih hb')

/-- No occurrence stands before the first one. -/
theorem beforeStr?_first {sep s b : Text} (h : b ++ sep <+: s) :
    ∃ b', beforeStr? sep s = some b' ∧ b'.length ≤ b.length := by
  induction s generalizing b with
  | nil =>
    have hnil := List.prefix_nil.mp h
    have hsep : sep = [] := (List.append_eq_nil_iff.mp hnil).2
    exact ⟨[], by simp [beforeStr?, hsep], by simp⟩
  | cons c s ih =>
    simp only [beforeStr?]
    split
    · exact ⟨[], rfl, by simp⟩
    · next hno =>
      cases b with
      | nil => exact absurd (List.isPrefixOf_iff_prefix.mpr h) hno
      | cons d b =>
        rw [List.cons_append, List.cons_prefix_cons] at h
        obtain ⟨b', hb', hlen⟩ := ih h.2
        exact ⟨c :: b', by rw [hb', Option.map_some], by simpa using hlen⟩

/-- Without an earlier occurrence in `out`, an occurrence that starts inside `out` ends inside
the separator that follows it, which then has an end in common with itself. -/
theorem early_occurrence {sep out b t : Text} (h : b ++ sep <+: out ++ sep ++ t)
    (hlen : b.length < out.length) (hno : ¬ sep <:+: out) :
    ∃ k, 0 < k ∧ k < sep.length ∧ out = b ++ sep.take k ∧ sep.drop k <+: sep ++ t := by
  have hb : b <+: out := by
    have hleft : b <+: out ++ (sep ++ t) :=
      (List.prefix_append b sep).trans (by rwa [List.append_assoc] at h)
    exact List.prefix_of_prefix_length_le hleft (List.prefix_append _ _) hlen.le
  obtain ⟨m, rfl⟩ := hb
  have hpos : 0 < m.length := by
    rw [List.length_append] at hlen
    omega
  have hm : sep <+: m ++ (sep ++ t) := by
    rwa [List.append_assoc, List.append_assoc, List.prefix_append_right_inj] at h
  have hshort : m.length < sep.length := by
    by_contra hge
    have hin : sep <+: m :=
      List.prefix_of_prefix_length_le hm (List.prefix_append _ _) (by omega)
    exact hno (hin.isInfix.trans (List.suffix_append b m).isInfix)
  have hsplit : m = sep.take m.length := by
    have hpre : m <+: sep :=
      List.prefix_of_prefix_length_le (List.prefix_append m _) hm hshort.le
    exact List.prefix_iff_eq_take.mp hpre
  refine ⟨m.length, hpos, hshort, by rw [← hsplit], ?_⟩
  rw [hsplit] at hm
  nth_rewrite 1 [← List.take_append_drop m.length sep] at hm
  rwa [List.prefix_append_right_inj] at hm

section Stop

variable {p : Char → Bool} {c : Char}

/-- A prefix of a class ends at the latest before a character outside it. -/
theorem takeWhile_append_stop (hc : p c = false) (s t : Text) :
    (s ++ c :: t).takeWhile p = s.takeWhile p := by
  induction s with
  | nil => simp [hc]
  | cons a s ih => simp only [List.cons_append, List.takeWhile_cons, ih]

theorem dropWhile_append_stop (hc : p c = false) (s t : Text) :
    (s ++ c :: t).dropWhile p = s.dropWhile p ++ c :: t := by
  induction s with
  | nil => simp [hc]
  | cons a s ih =>
    simp only [List.cons_append, List.dropWhile_cons, ih]
    split <;> rfl

end Stop

section Separator

variable {c : Char} {f : Text}

/-- A text without the separator is not cut. -/
theorem all_ne_of_notMem (h : c ∉ f) : ∀ d ∈ f, (d != c) = true := by
  intro d hd
  simpa using fun he : d = c => h (he ▸ hd)

theorem before_eq_self (h : c ∉ f) : f.before c = f :=
  List.takeWhile_eq_self_iff.mpr (all_ne_of_notMem h)

theorem after?_eq_none (h : c ∉ f) : f.after? c = none := by
  rw [after?, List.dropWhile_eq_nil_iff.mpr (all_ne_of_notMem h)]

/-- A text is cut at its first separator. -/
theorem before_append (h : c ∉ f) (t : Text) : (f ++ c :: t).before c = f := by
  rw [before, takeWhile_append_stop (p := fun d => d != c) (by simp), ← before, before_eq_self h]

theorem after?_append (h : c ∉ f) (t : Text) : (f ++ c :: t).after? c = some t := by
  have hdrop : (f ++ c :: t).dropWhile (fun d => d != c) = c :: t := by
    rw [dropWhile_append_stop (p := fun d => d != c) (by simp),
      List.dropWhile_eq_nil_iff.mpr (all_ne_of_notMem h), List.nil_append]
  rw [after?, hdrop]

theorem notMem_before (c : Char) (s : Text) : c ∉ s.before c := by
  intro hmem
  have hne := List.mem_takeWhile_imp hmem
  simp at hne

/-- A text with a separator is what stands on its two sides. -/
theorem eq_of_after? {s t : Text} (h : s.after? c = some t) : s = s.before c ++ c :: t := by
  have hsplit := List.takeWhile_append_dropWhile (p := fun d => d != c) (l := s)
  unfold after? at h
  split at h
  · cases h
  · next d rest hdrop =>
    cases h
    have hd : d = c := by
      have hhead := List.head?_dropWhile_not (fun d => d != c) s
      rw [hdrop] at hhead
      simpa using hhead
    rw [hdrop, hd] at hsplit
    exact hsplit.symm

/-- What stands before a separator and what follows make up the text. -/
theorem before_append_drop (c : Char) (s : Text) : s.before c ++ s.drop (s.before c).length = s :=
  List.prefix_iff_eq_append.mp (List.takeWhile_prefix _)

end Separator

/-- Stripping on the right stops at a character that stays. -/
theorem rstripBy_append_cons {p : Char → Bool} {c : Char} (hc : p c = false) (s t : Text) :
    rstripBy p (s ++ c :: t) = s ++ c :: rstripBy p t := by
  unfold rstripBy
  rw [List.reverse_append, List.reverse_cons, List.append_assoc, List.dropWhile_append]
  by_cases ht : (t.reverse.dropWhile p).isEmpty
  · rw [if_pos ht, List.isEmpty_iff.mp ht]
    simp [hc]
  · rw [if_neg ht]
    simp

theorem length_rstripBy_le (p : Char → Bool) (s : Text) : (rstripBy p s).length ≤ s.length := by
  rw [rstripBy, List.length_reverse, ← show s.reverse.length = s.length from List.length_reverse]
  exact (List.dropWhile_suffix p).length_le

/-- A first character that stays leaves stripping to the right end. -/
theorem stripBy_cons {p : Char → Bool} {c : Char} (hc : p c = false) (s : Text) :
    stripBy p (c :: s) = rstripBy p (c :: s) := by
  have hdrop : (c :: s).dropWhile p = c :: s := by simp [hc]
  rw [stripBy, lstripBy, hdrop]

/-- A text without characters of the class is not stripped. -/
theorem stripBy_eq_self {p : Char → Bool} {s : Text} (h : ∀ c ∈ s, p c = false) :
    stripBy p s = s := by
  have hdrop : ∀ t : Text, (∀ c ∈ t, p c = false) → t.dropWhile p = t := by
    intro t ht
    cases t with
    | nil => rfl
    | cons c t => simp [ht c List.mem_cons_self]
  rw [stripBy, lstripBy, hdrop s h, rstripBy,
    hdrop s.reverse fun c hc => h c (List.mem_reverse.mp hc), List.reverse_reverse]

/-- Joining the pieces of a text split at `|` gives it back. -/
theorem joinBar_splitOn (s : Text) : joinBar (s.splitOn '|') = s :=
  List.intercalate_splitOn '|'

/-- A first field without the separator is split off as it stands. -/
theorem splitOn_field {c : Char} {a : Text} (h : c ∉ a) (s : Text) :
    (a ++ c :: s).splitOn c = a :: s.splitOn c :=
  List.splitOn_append_cons_self_of_not_mem h s

/-- A piece consists of characters of the text, and the separator is not among them. -/
theorem ne_of_mem_splitOn {c d : Char} {s piece : Text} (h : piece ∈ s.splitOn c) (hd : d ∈ piece) :
    d ≠ c ∧ d ∈ s := by
  induction s generalizing piece with
  | nil => simp_all
  | cons e s ih =>
    rw [List.splitOn_cons_eq_if_modifyHead] at h
    obtain ⟨first, pieces, hs⟩ := List.exists_cons_of_ne_nil (List.splitOn_ne_nil c s)
    split at h
    · rcases List.mem_cons.mp h with rfl | hmem
      · cases hd
      · exact (ih hmem hd).imp_right (List.mem_cons_of_mem e)
    · next he =>
      rw [hs, List.modifyHead_cons] at h
      rcases List.mem_cons.mp h with rfl | hmem
      · rcases List.mem_cons.mp hd with rfl | hd
        · exact ⟨by simpa using he, List.mem_cons_self⟩
        · exact (ih (hs ▸ List.mem_cons_self) hd).imp_right (List.mem_cons_of_mem e)
      · exact (ih (hs ▸ List.mem_cons_of_mem _ hmem) hd).imp_right (List.mem_cons_of_mem e)

/-- The first piece does not contain the separator. -/
theorem notMem_headD_splitOn (c : Char) (s : Text) : c ∉ (s.splitOn c).headD [] := by
  obtain ⟨first, pieces, hs⟩ := List.exists_cons_of_ne_nil (List.splitOn_ne_nil c s)
  rw [hs, List.headD_cons]
  exact fun hmem => (ne_of_mem_splitOn (hs ▸ List.mem_cons_self) hmem).1 rfl

/-- A joined text consists of the separator and its pieces. -/
theorem mem_intercalate {c d : Char} {pieces : List Text} (h : d ∈ [c].intercalate pieces) :
    d = c ∨ ∃ piece ∈ pieces, d ∈ piece := by
  induction pieces with
  | nil => simp at h
  | cons piece pieces ih =>
    cases pieces with
    | nil =>
      rw [List.intercalate_singleton] at h
      exact .inr ⟨piece, List.mem_cons_self, h⟩
    | cons next pieces =>
      rw [List.intercalate_cons_cons, List.append_assoc, List.mem_append, List.mem_append,
        List.mem_singleton] at h
      rcases h with h | h | h
      · exact .inr ⟨piece, List.mem_cons_self, h⟩
      · exact .inl h
      · exact (ih h).imp_right fun ⟨q, hq, hd⟩ => ⟨q, List.mem_cons_of_mem _ hq, hd⟩

/-- Stripping removes only what is stripped. -/
theorem countP_stripBy (p : Char → Bool) (s : Text) :
    (stripBy p s).countP (!p ·) = s.countP (!p ·) := by
  have hdrop : ∀ t : Text, (t.dropWhile p).countP (!p ·) = t.countP (!p ·) := by
    intro t
    have htake : (t.takeWhile p).countP (!p ·) = 0 := by
      rw [List.countP_eq_zero]
      intro c hc
      simp [List.mem_takeWhile_imp hc]
    conv_rhs => rw [← List.takeWhile_append_dropWhile (p := p) (l := t)]
    rw [List.countP_append, htake, Nat.zero_add]
  rw [stripBy, rstripBy, List.countP_reverse, hdrop, List.countP_reverse, lstripBy, hdrop]

theorem mem_of_mem_stripBy {p : Char → Bool} {s : Text} {c : Char} (h : c ∈ stripBy p s) :
    c ∈ s := by
  rw [stripBy, rstripBy, List.mem_reverse] at h
  have hmem := List.mem_reverse.mp ((List.dropWhile_sublist p).subset h)
  exact (List.dropWhile_sublist p).subset hmem

end Text

end AmigaDevbench
