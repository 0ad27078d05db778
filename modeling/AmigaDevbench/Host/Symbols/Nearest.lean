import AmigaDevbench.Host.Symbols.Loader
import Mathlib.Data.List.Infix

/-!
# Lookups in loaded tables

What the parsers keep: the dictionary of addresses leads to the symbols. While an output is parsed
the lists only grow, so the index of the table before goes on to be right for what it had, and when
an output has been parsed the index is that of the whole table.
-/

namespace AmigaDevbench

namespace Symbols

open Scan Keyed Raises

namespace SymbolTable

/-- The dictionary of addresses has that of every symbol and leads to a symbol of that address. -/
structure Linked (t : SymbolTable) : Prop where
  has_key : ∀ sym ∈ t.symbols, sym.address ∈ keys t.byAddress
  leads : ∀ a i, lookup t.byAddress a = some i → ∃ sym, t.symbols[i]? = some sym ∧ sym.address = a

/-- The index is that of the dictionary and of the list of lines. -/
structure Indexed (t : SymbolTable) : Prop extends Linked t where
  sorted : t.sortedAddrs.Pairwise (· ≤ ·)
  mem_sorted : ∀ a, a ∈ t.sortedAddrs ↔ a ∈ keys t.byAddress
  sorted_lines : t.sourceLines.Pairwise fun sl sl' => sl.address ≤ sl'.address
  lineAddrs : t.lineAddrs = t.sourceLines.map (·.address)

/-- A table has more entries than before, and the same index. -/
structure Extends (s t : SymbolTable) : Prop extends Linked t where
  keys_subset : keys s.byAddress ⊆ keys t.byAddress
  sortedAddrs : t.sortedAddrs = s.sortedAddrs
  front : s.sourceLines <+: t.sourceLines
  lineAddrs : t.lineAddrs = s.lineAddrs

variable {s t t' : SymbolTable}

/-- The addresses in the dictionary are those of the symbols. -/
theorem Linked.mem_keys (h : t.Linked) {a : Int} :
    a ∈ keys t.byAddress ↔ a ∈ t.symbols.map (·.address) := by
  constructor
  · intro ha
    obtain ⟨i, hi⟩ := Option.isSome_iff_exists.mp (lookup_isSome.mpr ha)
    obtain ⟨sym, hsym, rfl⟩ := h.leads a i hi
    exact List.mem_map_of_mem (List.mem_of_getElem? hsym)
  · intro ha
    obtain ⟨sym, hsym, rfl⟩ := List.mem_map.mp ha
    exact h.has_key sym hsym

theorem Linked.extends (h : t.Linked) : t.Extends t :=
  { h with
    keys_subset := List.Subset.refl _
    sortedAddrs := rfl
    front := List.prefix_refl _
    lineAddrs := rfl }

/-- Behind an index that was right, it covers what it was built from. -/
theorem Extends.covers (hs : s.Indexed) (h : s.Extends t) :
    t.Covers (s.symbols.map (·.address)) s.sourceLines where
  sorted := h.sortedAddrs ▸ hs.sorted
  mem_sorted := fun a => by rw [h.sortedAddrs, hs.mem_sorted, hs.mem_keys]
  leads := by
    intro a ha
    have hkey : a ∈ keys t.byAddress := h.keys_subset (hs.mem_keys.mpr ha)
    obtain ⟨i, hi⟩ := Option.isSome_iff_exists.mp (lookup_isSome.mpr hkey)
    obtain ⟨sym, hsym, haddress⟩ := h.leads a i hi
    exact ⟨i, sym, hi, hsym, haddress⟩
  sorted_lines := hs.sorted_lines
  lineAddrs := h.lineAddrs.trans hs.lineAddrs
  front := h.front

theorem Extends.trans (h : s.Extends t) (h' : t.Extends t') : s.Extends t' :=
  { h'.toLinked with
    keys_subset := List.Subset.trans h.keys_subset h'.keys_subset
    sortedAddrs := h'.sortedAddrs.trans h.sortedAddrs
    front := h.front.trans h'.front
    lineAddrs := h'.lineAddrs.trans h.lineAddrs }

/-! ### The changes to a table -/

theorem linked_empty : empty.Linked where
  has_key := fun _ h => absurd h List.not_mem_nil
  leads := fun _ _ h => by cases h

theorem indexed_empty : empty.Indexed :=
  { linked_empty with
    sorted := List.Pairwise.nil
    mem_sorted := fun _ => Iff.rfl
    sorted_lines := List.Pairwise.nil
    lineAddrs := rfl }

/-- A new symbol is linked, and so are the others still. -/
theorem Linked.add (h : t.Linked) (sym : Symbol) : t.Extends (t.add sym) where
  has_key := by
    intro sym' hmem
    refine mem_keys_assign.mpr ?_
    rcases List.mem_append.mp hmem with hmem | hmem
    · exact .inr (h.has_key sym' hmem)
    · exact .inl (congrArg _ (List.mem_singleton.mp hmem))
  leads := by
    intro a i hi
    rw [SymbolTable.add] at hi ⊢
    dsimp only at hi ⊢
    rw [lookup_assign] at hi
    split at hi
    · next ha =>
      cases hi
      exact ⟨sym, by simp, ha.symm⟩
    · obtain ⟨sym', hsym, haddress⟩ := h.leads a i hi
      have hlt : i < t.symbols.length := (List.getElem?_eq_some_iff.mp hsym).1
      exact ⟨sym', by rw [List.getElem?_append_left hlt, hsym], haddress⟩
  keys_subset := fun _ ha => mem_keys_assign.mpr (.inr ha)
  sortedAddrs := rfl
  front := List.prefix_refl _
  lineAddrs := rfl

/-- The sorted addresses are those of the dictionary. -/
theorem sorted_sortAddrs (t : SymbolTable) : t.sortAddrs.sortedAddrs.Pairwise (· ≤ ·) ∧
    ∀ a, a ∈ t.sortAddrs.sortedAddrs ↔ a ∈ keys t.byAddress :=
  ⟨Bisect.pairwise_mergeSort_key id _, fun _ => List.mem_mergeSort⟩

/-- The lines are sorted by their addresses. -/
theorem sorted_sortLines (t : SymbolTable) :
    t.sortLines.sourceLines.Pairwise fun sl sl' => sl.address ≤ sl'.address :=
  Bisect.pairwise_mergeSort_key _ _

theorem address_annotate (funcSource : List (Text × Text × Nat)) (sym : Symbol) :
    (annotate funcSource sym).address = sym.address := by
  rw [annotate]
  split <;> rfl

/-- Notes about sources leave the links alone. -/
theorem Linked.sortLines (h : t.Linked) : t.sortLines.Linked where
  has_key := by
    intro sym hsym
    obtain ⟨sym', hmem, rfl⟩ := List.mem_map.mp hsym
    rw [address_annotate]
    exact h.has_key sym' hmem
  leads := by
    intro a i hi
    obtain ⟨sym, hsym, haddress⟩ := h.leads a i hi
    refine ⟨annotate t.funcSource sym, ?_, (address_annotate ..).trans haddress⟩
    rw [SymbolTable.sortLines]
    dsimp only
    rw [List.getElem?_map, hsym, Option.map_some]

/-- Lines may be added, and what has no part in the searches may change. -/
theorem Extends.congr (h : s.Extends t) (hsymbols : t'.symbols = t.symbols)
    (hkeys : t'.byAddress = t.byAddress) (hsorted : t'.sortedAddrs = t.sortedAddrs)
    (hlines : t.sourceLines <+: t'.sourceLines) (haddrs : t'.lineAddrs = t.lineAddrs) :
    s.Extends t' where
  has_key := by
    rw [hsymbols, hkeys]
    exact h.has_key
  leads := by
    rw [hsymbols, hkeys]
    exact h.leads
  keys_subset := hkeys ▸ h.keys_subset
  sortedAddrs := hsorted.trans h.sortedAddrs
  front := h.front.trans hlines
  lineAddrs := haddrs.trans h.lineAddrs

/-! ### The table of source steps -/

/-- What stepping by source lines reads of a table. -/
def stepping (t : SymbolTable) (h : t.Indexed) : SourceStep.SymbolTable where
  sourceLines := t.sourceLines
  sorted := h.sorted_lines
  funcSource := keys t.funcSource
  byName := fun name => ((lookup t.byName name).bind (t.symbols[·]?)).map (·.address)

/-- Stepping finds the lines that the lookup finds. -/
theorem lookupSourceLine_stepping (h : t.Indexed) (addr : Int) :
    (t.stepping h).lookupSourceLine addr = t.lookupSourceLine addr := by
  have hsorted : t.lineAddrs.Pairwise (· ≤ ·) := by
    rw [h.lineAddrs, List.pairwise_map]
    exact h.sorted_lines
  have hlength : Bisect.bisectRight t.lineAddrs addr =
      (t.sourceLines.takeWhile (·.address ≤ addr)).length := by
    rw [Bisect.bisectRight_eq hsorted, h.lineAddrs, List.takeWhile_map, List.length_map]
    rfl
  have hprefix : t.sourceLines.takeWhile (·.address ≤ addr) <+: t.sourceLines :=
    List.takeWhile_prefix _
  rw [lookupSourceLine, SourceStep.SymbolTable.lookupSourceLine, Bisect.floorIndex, hlength,
    List.getLast?_eq_getElem?]
  dsimp only [stepping]
  cases hlines : t.sourceLines.takeWhile (·.address ≤ addr) with
  | nil => rfl
  | cons sl lines =>
    have hlast := List.prefix_iff_getElem?.mp hprefix lines.length (by simp [hlines])
    simp only [hlines] at hlast
    simp [hlast]

end SymbolTable

open SymbolTable

section Parsers

variable {u : Unicode} {t₀ t : SymbolTable} {s : Scope} {string : Text} {desc value : Nat}

/-! ### The output of `nm` -/

/-- The lines add symbols, and do nothing else. -/
theorem nmLines_induction {P : SymbolTable → Prop} (hadd : ∀ t sym, P t → P (t.add sym))
    (lines : List Text) (h : P t) : P (lines.foldl (nmLine u) t) := by
  induction lines generalizing t with
  | nil => exact h
  | cons line lines ih =>
    have hline : P (nmLine u t line) := by
      rw [nmLine]
      split
      · split
        · exact hadd t _ h
        · exact h
      · exact h
    exact ih hline

/-- Behind the output of `nm` the index is that of the table. -/
theorem indexed_parseNmOutput (output : Text) (h : t.Indexed) :
    (parseNmOutput u output t).Indexed := by
  obtain ⟨hlinked, hlines, haddrs⟩ := nmLines_induction (u := u)
    (P := fun t' => t'.Linked ∧ t'.sourceLines = t.sourceLines ∧ t'.lineAddrs = t.lineAddrs)
    (fun t' sym h => ⟨(h.1.add sym).toLinked, h.2⟩) (splitlines u output)
    ⟨h.toLinked, rfl, rfl⟩
  obtain ⟨hsorted, hmem⟩ := sorted_sortAddrs ((splitlines u output).foldl (nmLine u) t)
  exact {
    has_key := hlinked.has_key
    leads := hlinked.leads
    sorted := hsorted
    mem_sorted := hmem
    sorted_lines := (congrArg _ hlines).mpr h.sorted_lines
    lineAddrs := haddrs.trans (h.lineAddrs.trans (congrArg _ hlines.symm)) }

/-! ### The output of `objdump` -/

/-- An entry for a variable, a file or a source has no part in the searches. -/
theorem extends_addLocal (h : t₀.Extends s.table) (v : LocalVar) :
    t₀.Extends (s.addLocal v).table :=
  h.congr rfl rfl rfl (List.prefix_refl _) rfl

theorem extends_unit (h : t₀.Extends s.table) : t₀.Extends (s.unit string).table := by
  rw [Scope.unit]
  split <;> exact h

theorem extends_includeFile (h : t₀.Extends s.table) :
    t₀.Extends (s.includeFile string).table := by
  rw [Scope.includeFile]
  split <;> exact h

theorem extends_sourceLine (h : t₀.Extends s.table) :
    t₀.Extends (s.sourceLine desc value).table := by
  rw [Scope.sourceLine]
  split
  · exact h.congr rfl rfl rfl (List.prefix_append _ _) rfl
  · exact h

theorem extends_noteSource (h : t₀.Extends s.table) (name : Text) :
    t₀.Extends (s.noteSource desc name).table := by
  rw [Scope.noteSource]
  split
  · exact h.congr rfl rfl rfl (List.prefix_refl _) rfl
  · exact h

theorem extends_addFunction (h : t₀.Extends s.table) (name : Text) :
    t₀.Extends (s.addFunction string desc value name).table := by
  rw [Scope.addFunction]
  split
  · exact h.trans (h.toLinked.add _)
  · exact h

theorem extends_function (h : t₀.Extends s.table) :
    t₀.Extends (s.function string desc value).table := by
  rw [Scope.function]
  split
  · let inside : Scope := { s with currentFunc := dropUnderscore (string.before ':') }
    have hinside : t₀.Extends inside.table := h
    exact extends_addFunction (extends_noteSource hinside _) _
  · exact h

theorem extends_param (h : t₀.Extends s.table) : t₀.Extends (s.param string value).table := by
  rw [Scope.param]
  split
  · exact extends_addLocal h _
  · exact h

theorem extends_localVar (h : t₀.Extends s.table) :
    t₀.Extends (s.localVar string value).table := by
  rw [Scope.localVar]
  split
  · exact extends_addLocal h _
  · exact h

theorem extends_noteType (h : t₀.Extends s.table) :
    t₀.Extends (s.noteType string u).table := by
  rw [Scope.noteType]
  split <;> exact h

variable (u t₀)

/-- A type may raise, and leaves the index alone. -/
theorem keeps_typeStab (string : Text) :
    Keeps (fun s => t₀.Extends s.table) (typeStab u string) := by
  have hstruct : Keeps (fun s => t₀.Extends s.table) (structStab u string) := by
    refine triple_bind (triple_get (R := fun _ s => t₀.Extends s.table) fun s h => h) fun s => ?_
    refine triple_bind (triple_liftExcept (Q := fun _ s => t₀.Extends s.table)
      (fun _ s _ h => h) fun s h => h) fun types => ?_
    exact triple_modify fun s h => h.congr rfl rfl rfl (List.prefix_refl _) rfl
  rw [typeStab]
  split
  · refine triple_bind (triple_modify (R := fun _ s => t₀.Extends s.table)
      fun s h => extends_noteType h) fun _ => ?_
    split
    · exact hstruct
    · exact triple_pure fun s h => h
  · exact triple_pure fun s h => h

/-- One line. -/
theorem keeps_stabLine (line : Text) :
    Keeps (fun s => t₀.Extends s.table) (stabLine u line) := by
  rw [stabLine]
  split
  · refine triple_bind (triple_liftExcept (Q := fun _ s => t₀.Extends s.table)
      (fun _ s _ h => h) fun s h => h) fun desc => ?_
    rw [stab]
    split
    · exact triple_modify fun s h => extends_unit h
    split
    · exact triple_modify fun s h => extends_includeFile h
    split
    · exact triple_modify fun s h => extends_sourceLine h
    split
    · exact triple_modify fun s h => extends_function h
    split
    · exact triple_modify fun s h => extends_param h
    split
    · refine triple_bind (triple_modify (R := fun _ s => t₀.Extends s.table)
        fun s h => extends_localVar h) fun _ => ?_
      exact keeps_typeStab u t₀ _
    · exact triple_pure fun s h => h
  · exact triple_pure fun s h => h

/-- All lines. -/
theorem keeps_stabLines (lines : List Text) :
    Keeps (fun s => t₀.Extends s.table) (stabLines u lines) := by
  induction lines with
  | nil => exact triple_pure fun s h => h
  | cons line lines ih => exact triple_bind (keeps_stabLine u t₀ line) fun _ => ih

/-- The table behind the lines, whether one raised or not. -/
theorem extends_stabLines (lines : List Text) (h : t₀.Linked) :
    t₀.Extends ((stabLines u lines).outcome ⟨t₀, [], [], []⟩).2.table := by
  have hran := keeps_stabLines u t₀ lines ⟨t₀, [], [], []⟩ h.extends
  revert hran
  rcases (stabLines u lines).outcome ⟨t₀, [], [], []⟩ with ⟨r, s⟩
  cases r with
  | ok a => exact id
  | error e => exact id

/-- `_parse_stabs_output` leaves linked symbols and sorted lines, or raises and leaves the index. -/
theorem parseStabsOutput_triple (output : Text) :
    Triple (fun t => t = t₀ ∧ t₀.Linked) (parseStabsOutput u output)
      (fun _ t => ∃ t', t₀.Extends t' ∧ t = t'.sortLines) (fun t => t₀.Extends t) := by
  refine triple_bind (triple_get (R := fun a _ => a = t₀ ∧ t₀.Linked) fun _ h => h) fun t => ?_
  dsimp only
  refine triple_bind (triple_modify (R := fun _ t => t₀.Extends t) ?_) fun _ => ?_
  · rintro _ ⟨rfl, h⟩
    exact extends_stabLines u _ _ h
  refine triple_bind (triple_liftExcept (Q := fun _ t => t₀.Extends t) (fun _ _ _ h => h)
    fun _ h => h) fun _ => ?_
  exact triple_modify fun t h => ⟨t, h, rfl⟩

/-- Behind the output of `objdump` the index is that of the table, and where the parser raises, it is
that of the table before. -/
theorem parseStabs_triple (output : Text) :
    Triple (fun t => t = t₀ ∧ t₀.Linked) (parse u (.stabs output)) (fun _ t => t.Indexed)
      (fun t => t₀.Extends t) := by
  refine triple_bind (parseStabsOutput_triple u t₀ output) fun _ => triple_modify ?_
  rintro _ ⟨t, h, rfl⟩
  have hlinked := h.toLinked.sortLines
  obtain ⟨hsorted, hmem⟩ := sorted_sortAddrs t.sortLines
  exact {
    has_key := hlinked.has_key
    leads := hlinked.leads
    sorted := hsorted
    mem_sorted := hmem
    sorted_lines := sorted_sortLines t
    lineAddrs := rfl }

end Parsers

/-! ### A line that raises -/

section Raise

variable {u : Unicode} {w : Text}

/-- What has no line break is one piece. -/
theorem splitlinesFrom_append (hw : ∀ c ∈ w, u.isLineBreak c = false) (line s : Text) :
    splitlinesFrom u line false (w ++ s) = splitlinesFrom u (line ++ w) false s := by
  induction w generalizing line with
  | nil => rw [List.append_nil, List.nil_append]
  | cons c w ih =>
    rw [List.cons_append, splitlinesFrom]
    simp only [Bool.false_eq_true, false_and, if_false, hw c List.mem_cons_self]
    rw [ih fun d hd => hw d (List.mem_cons_of_mem _ hd), List.append_assoc, List.singleton_append]

/-- Nothing is stripped between a first and a last character that are no blanks. -/
theorem strip_ends {c d : Char} (hc : u.isSpace c = false) (hd : u.isSpace d = false) (s : Text) :
    strip u (c :: (s ++ [d])) = c :: (s ++ [d]) := by
  rw [strip, Text.stripBy_cons hc, ← List.cons_append, Text.rstripBy_append_cons hd]
  rfl

/-- A structure with a size of too many digits raises. -/
theorem structOf_long (hw : ∀ c ∈ w, c.isDigit = true) (hlong : Py.maxStrDigits < w.length)
    (typeMap : List (Text × Text)) :
    structOf ascii typeMap ("b:T1=s".toList ++ (w ++ [';'])) = .error .valueError := by
  have hne : w ≠ [] := List.ne_nil_of_length_pos (by omega)
  have hrun := run_append hne (fun c hc => isDigit_digit (u := ascii) (hw c hc))
    (stops_cons (s := []) (punctuation ';' (by decide)).1)
  have hmatch : matchStruct ascii ((Text.after? ':' ("b:T1=s".toList ++ (w ++ [';']))).getD []) =
      (run ascii.isDigit (w ++ [';'])).bind fun m =>
        some (m.1, m.2.takeWhile (· != '\n')) := rfl
  have hint : ascii.int w = .error .valueError := if_neg (by omega)
  rw [structOf, if_pos (.inl ⟨['b'], _, rfl⟩), hmatch, hrun, Option.bind_some]
  dsimp only
  rw [hint]
  rfl

/-- A file, a line in it, and a structure with such a size. -/
def longOutput (w : Text) : Text :=
  "1 SO 0 0 0 0 main.c\n2 SLINE 0 1 10 0\n3 LSYM 0 0 0 0 b:T1=s".toList ++ (w ++ [';'])

theorem lines_longOutput (hw : ∀ c ∈ w, c.isDigit = true) :
    joinLines ascii (splitlines ascii (longOutput w)) =
      ["1 SO 0 0 0 0 main.c".toList, "2 SLINE 0 1 10 0".toList,
        "3 LSYM 0 0 0 0 b:T1=s".toList ++ (w ++ [';'])] := by
  have hbreak : ∀ c ∈ w ++ [';'], ascii.isLineBreak c = false := by
    intro c hc
    rcases List.mem_append.mp hc with hc | hc
    · have hdigit := hw c hc
      simp only [Char.isDigit, Bool.and_eq_true, decide_eq_true_eq] at hdigit
      have hlow : 48 ≤ c.toNat := hdigit.1
      have hhigh : c.toNat ≤ 57 := hdigit.2
      simp only [ascii, List.mem_cons, List.not_mem_nil, or_false, decide_eq_false_iff_not]
      omega
    · rw [List.mem_singleton.mp hc]
      rfl
  have hstart : splitlines ascii (longOutput w) = "1 SO 0 0 0 0 main.c".toList ::
      "2 SLINE 0 1 10 0".toList ::
        splitlinesFrom ascii "3 LSYM 0 0 0 0 b:T1=s".toList false (w ++ [';']) := rfl
  have hlast : splitlinesFrom ascii "3 LSYM 0 0 0 0 b:T1=s".toList false (w ++ [';']) =
      ["3 LSYM 0 0 0 0 b:T1=s".toList ++ (w ++ [';'])] := by
    have happend := splitlinesFrom_append hbreak "3 LSYM 0 0 0 0 b:T1=s".toList []
    rw [List.append_nil] at happend
    rw [happend]
    rfl
  have hstrip : strip ascii ("3 LSYM 0 0 0 0 b:T1=s".toList ++ (w ++ [';'])) =
      "3 LSYM 0 0 0 0 b:T1=s".toList ++ (w ++ [';']) :=
    strip_ends (c := '3') (s := " LSYM 0 0 0 0 b:T1=s".toList ++ w) rfl rfl
  rw [hstart, hlast]
  change ["1 SO 0 0 0 0 main.c".toList, "2 SLINE 0 1 10 0".toList,
    strip ascii ("3 LSYM 0 0 0 0 b:T1=s".toList ++ (w ++ [';']))] = _
  rw [hstrip]

/-- The last line raises, and keeps the table. -/
theorem outcome_longLine (hw : ∀ c ∈ w, c.isDigit = true) (hlong : Py.maxStrDigits < w.length)
    (t : SymbolTable) (file : Text) :
    (stabLine ascii ("3 LSYM 0 0 0 0 b:T1=s".toList ++ (w ++ [';']))).outcome ⟨t, file, [], []⟩ =
      (.error .valueError, ⟨t, file, [(['1'], ['b'])], []⟩) := by
  have hall : ∀ c ∈ w ++ [';'], (c != '\n') = true := by
    intro c hc
    refine bne_iff_ne.mpr ?_
    rintro rfl
    rcases List.mem_append.mp hc with hc | hc
    · have hdigit := hw '\n' hc
      cases hdigit
    · cases List.mem_singleton.mp hc
  have hmatch : matchLine ascii ("3 LSYM 0 0 0 0 b:T1=s".toList ++ (w ++ [';'])) =
      some ⟨"LSYM".toList, ['0'], ['0'],
        "b:T1=s".toList ++ (w ++ [';']).takeWhile (· != '\n')⟩ := rfl
  have hstrip : strip ascii ("b:T1=s".toList ++ (w ++ [';'])) = "b:T1=s".toList ++ (w ++ [';']) :=
    strip_ends (c := 'b') (s := ":T1=s".toList ++ w) rfl rfl
  have hne : w ≠ [] := List.ne_nil_of_length_pos (by omega)
  have hstruct : hasStruct ascii ("b:T1=s".toList ++ (w ++ [';'])) = true := by
    have hrun := run_append hne (fun c hc => isDigit_digit (u := ascii) (hw c hc))
      (stops_cons (s := []) (punctuation ';' (by decide)).1)
    refine List.any_eq_true.mpr ⟨"=s".toList ++ (w ++ [';']), ?_, ?_⟩
    · exact (List.mem_tails _ _).mpr ⟨"b:T1".toList, rfl⟩
    · change (run ascii.isDigit (w ++ [';'])).isSome = true
      rw [hrun]
      rfl
  have hraise : (structStab ascii ("b:T1=s".toList ++ (w ++ [';']))).outcome
      ⟨t, file, [(['1'], ['b'])], []⟩ = (.error .valueError, ⟨t, file, [(['1'], ['b'])], []⟩) := by
    rw [structStab, outcome_bind, outcome_get]
    dsimp only
    rw [outcome_bind, outcome_liftExcept, parseStructStab, structOf_long hw hlong]
    rfl
  have hdefines : Scope.definesType ("b:T1=s".toList ++ (w ++ [';'])) := .inl ⟨['b'], _, rfl⟩
  have hstab : ∀ string desc value, stab ascii "LSYM".toList string desc value =
      (do modify (·.localVar string value); typeStab ascii string) := fun _ _ _ => rfl
  have hlocal : ∀ string value, Scope.localVar ⟨t, file, [], []⟩ string value =
      ⟨t, file, [], []⟩ := fun _ _ => if_neg fun h => h.1 rfl
  have hnumber : matchTypeNumber ascii ("b:T1=s".toList ++ (w ++ [';'])) = some ['1'] := rfl
  have hnote : Scope.noteType ⟨t, file, [], []⟩ ("b:T1=s".toList ++ (w ++ [';'])) ascii =
      ⟨t, file, [(['1'], ['b'])], []⟩ := by
    rw [Scope.noteType, hnumber]
    rfl
  have hzero : ascii.int ['0'] = .ok 0 := rfl
  rw [stabLine, hmatch, List.takeWhile_eq_self_iff.mpr hall]
  dsimp only
  rw [hstrip, outcome_bind, outcome_liftExcept, hzero]
  dsimp only
  rw [hstab, outcome_bind, outcome_modify, hlocal]
  dsimp only
  rw [typeStab, if_pos hdefines, outcome_bind, outcome_modify, hnote]
  dsimp only
  rw [if_pos hstruct, hraise]

/-- The line is noted, but the lines are not sorted. -/
theorem outcome_longOutput (hw : ∀ c ∈ w, c.isDigit = true)
    (hlong : Py.maxStrDigits < w.length) (t : SymbolTable) :
    (parseAll ascii [.stabs (longOutput w)]).outcome t = (.error .valueError,
      { t with sourceLines := t.sourceLines ++ [⟨16, "main.c".toList, 1⟩] }) := by
  have hunit : (stabLine ascii "1 SO 0 0 0 0 main.c".toList).outcome ⟨t, [], [], []⟩ =
      (.ok ⟨⟩, ⟨t, "main.c".toList, [], []⟩) := rfl
  have hline : (stabLine ascii "2 SLINE 0 1 10 0".toList).outcome
      ⟨t, "main.c".toList, [], []⟩ = (.ok ⟨⟩,
        ⟨{ t with sourceLines := t.sourceLines ++ [⟨16, "main.c".toList, 1⟩] },
          "main.c".toList, [], []⟩) := rfl
  have hlines : (stabLines ascii (joinLines ascii (splitlines ascii (longOutput w)))).outcome
      ⟨t, [], [], []⟩ = (.error .valueError,
        ⟨{ t with sourceLines := t.sourceLines ++ [⟨16, "main.c".toList, 1⟩] },
          "main.c".toList, [(['1'], ['b'])], []⟩) := by
    rw [lines_longOutput hw, stabLines, outcome_bind, hunit]
    dsimp only
    rw [stabLines, outcome_bind, hline]
    dsimp only
    rw [stabLines, outcome_bind, outcome_longLine hw hlong]
  have hstabs : (parseStabsOutput ascii (longOutput w)).outcome t = (.error .valueError,
      { t with sourceLines := t.sourceLines ++ [⟨16, "main.c".toList, 1⟩] }) := by
    rw [parseStabsOutput, outcome_bind, outcome_get]
    dsimp only
    rw [hlines, outcome_bind, outcome_modify]
    rfl
  have hparse : (parse ascii (.stabs (longOutput w))).outcome t = (.error .valueError,
      { t with sourceLines := t.sourceLines ++ [⟨16, "main.c".toList, 1⟩] }) := by
    rw [parse, outcome_bind, hstabs]
  rw [parseAll, outcome_bind, hparse]

end Raise

/-! ### Loading -/

section Load

variable (u : Unicode)

/-- One output. -/
theorem parse_triple (t₀ : SymbolTable) (output : Output) :
    Triple (fun t => t = t₀ ∧ t₀.Indexed) (parse u output) (fun _ t => t.Indexed)
      (fun t => t₀.Extends t) := by
  cases output with
  | nm text =>
    refine triple_modify ?_
    rintro t ⟨rfl, h⟩
    exact indexed_parseNmOutput text h
  | stabs text =>
    exact (parseStabs_triple u t₀ text).conseq (fun t h => ⟨h.1, h.2.toLinked⟩)
      (fun _ _ h => h) fun _ h => h

/-- All outputs: the table extends that of the ones that are parsed to the end. -/
theorem extends_parseAll (outputs : List Output) {t : SymbolTable} (h : t.Indexed) :
    ∃ s, (parseAll u (completed u t outputs)).outcome t = (.ok ⟨⟩, s) ∧ s.Indexed ∧
      s.Extends ((parseAll u outputs).outcome t).2 := by
  induction outputs generalizing t with
  | nil => exact ⟨t, rfl, h, h.toLinked.extends⟩
  | cons output outputs ih =>
    have hparse := parse_triple u t output t ⟨rfl, h⟩
    rw [completed, parseAll, outcome_bind]
    rcases hcase : (parse u output).outcome t with ⟨r, t'⟩
    rw [hcase] at hparse
    cases r with
    | ok a =>
      obtain ⟨s, hs, hindexed, hextends⟩ := ih (t := t') hparse
      refine ⟨s, ?_, hindexed, hextends⟩
      rw [parseAll, outcome_bind, hcase]
      exact hs
    | error e => exact ⟨t, rfl, h, hparse⟩

/-- If nothing raises, all outputs are parsed to the end. -/
theorem completed_of_returns {outputs : List Output} {t s : SymbolTable}
    (h : (parseAll u outputs).outcome t = (.ok ⟨⟩, s)) : completed u t outputs = outputs := by
  induction outputs generalizing t with
  | nil => rfl
  | cons output outputs ih =>
    obtain ⟨a, t', hparse, hrest⟩ := outcome_bind_eq_ok.mp h
    rw [completed, hparse]
    exact congrArg _ (ih hrest)

/-- The outputs that the table of a load has an index for: all if nothing raises. -/
def indexedTable (outputs : List Output) : SymbolTable :=
  loaded u (completed u .empty outputs)

/-- After loading any outputs of the two tools in any order, each lookup returns the nearest of the
entries of the outputs that have been parsed to the end, which are all unless one raises. -/
theorem lookups_nearest (outputs : List Output) (query : Int) :
    (loaded u outputs).NearestSymbol ((indexedTable u outputs).symbols.map (·.address)) query ∧
      (loaded u outputs).NearestLine (indexedTable u outputs).sourceLines query ∧
      (Returns ((parseAll u outputs).outcome .empty).1 →
        indexedTable u outputs = loaded u outputs) := by
  obtain ⟨s, hs, hindexed, hextends⟩ := extends_parseAll u outputs indexed_empty
  have htable : indexedTable u outputs = s := by rw [indexedTable, loaded, hs]
  have hcovers := Extends.covers hindexed hextends
  rw [htable]
  refine ⟨hcovers.nearestSymbol query, hcovers.nearestLine query, ?_⟩
  rintro ⟨a, ha⟩
  have hall := completed_of_returns u (Prod.ext ha rfl)
  rw [← htable, indexedTable, hall]

/-- Such an output ends the loading; the lines that it has added are not found. -/
theorem lookups_longOutput {w : Text} (hw : ∀ c ∈ w, c.isDigit = true)
    (hlong : Py.maxStrDigits < w.length) {t : SymbolTable}
    (ht : t = loadSymbols ascii (0, "00000010 T _main\n".toList) (0, longOutput w)) :
    t.sourceLines = [⟨16, "main.c".toList, 1⟩] ∧ t.lookupSourceLine 16 = none := by
  have hblank : strip ascii (longOutput w) ≠ [] := by
    have hstrip := strip_ends (u := ascii) (c := '1') (d := ';') rfl rfl
      (" SO 0 0 0 0 main.c\n2 SLINE 0 1 10 0\n3 LSYM 0 0 0 0 b:T1=s".toList ++ w)
    rw [List.append_assoc] at hstrip
    exact fun h => List.cons_ne_nil _ _ (hstrip.symm.trans h)
  let main := parseNmOutput ascii "00000010 T _main\n".toList .empty
  have hnm : (parse ascii (.nm "00000010 T _main\n".toList)).outcome .empty =
      (.ok ⟨⟩, main) := rfl
  have hload : t = { main with sourceLines := [⟨16, "main.c".toList, 1⟩] } := by
    rw [ht, loadSymbols, if_pos rfl, if_pos ⟨rfl, hblank⟩, loaded, List.singleton_append, parseAll,
      outcome_bind, hnm]
    dsimp only
    rw [outcome_longOutput hw hlong main]
    rfl
  have haddrs : t.lineAddrs = [] := by
    rw [hload]
    rfl
  have hfloor : Bisect.floorIndex t.lineAddrs 16 = none := by
    rw [haddrs]
    exact (Bisect.floorIndex_eq_none List.Pairwise.nil).mpr fun _ h => absurd h List.not_mem_nil
  refine ⟨by rw [hload], ?_⟩
  rw [lookupSourceLine, hfloor]
  rfl

/-- After the output of a structure whose size has too many digits, the table has a line at the
address, and the lookup finds none. -/
theorem lookups_not_nearest : ∃ t : SymbolTable,
    t = loadSymbols ascii (0, "00000010 T _main\n".toList)
      (0, longOutput (List.replicate 4301 '1')) ∧
    t.sourceLines = [⟨16, "main.c".toList, 1⟩] ∧ t.lookupSourceLine 16 = none ∧
      ¬ t.NearestLine t.sourceLines 16 := by
  have hw : ∀ c ∈ List.replicate 4301 '1', c.isDigit = true := by
    intro c hc
    rw [List.eq_of_mem_replicate hc]
    rfl
  have hlong : Py.maxStrDigits < (List.replicate 4301 '1').length := by
    rw [List.length_replicate]
    decide
  obtain ⟨hlines, hnone⟩ := lookups_longOutput hw hlong rfl
  refine ⟨_, rfl, hlines, hnone, fun h => ?_⟩
  rw [NearestLine, hnone, hlines] at h
  have hfar := h _ List.mem_cons_self (Int.le_refl _)
  revert hfar
  decide

end Load

end Symbols

end AmigaDevbench
