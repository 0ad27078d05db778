import AmigaDevbench.Daemon.Commands
import AmigaDevbench.Host.Protocol.Format

/-!
# A command line from the host to the daemon

The host joins fields with `|` and ends the line with a newline; the daemon's handlers cut the
line apart again. `fits` says, for each way of reading a field, which values come through it
unchanged. For a command whose fields fit, the daemon runs exactly one handler, that of the
requested type, on exactly the requested values.
-/

namespace AmigaDevbench.CommandFraming

open CText CNumber Protocol Daemon

/-- The value of a field as the handler should see it. -/
def value (a : Arg) : Cut → FieldVal
  | .num base _ =>
    match a with
    | .int n => .num n
    | _ => .num (strtoul base a.format)
  | .snum _ | .index | .exact =>
    match a with
    | .int n => .num n
    | _ => .num (strtol a.format)
  | .initial => .text (a.format.take 1)
  | .libtype => .text (a.format.take 3)
  | .hex _ => .bytes (hexBytes a.format)
  | .pattern _ => .bytes (patternBytes a.format)
  | _ => .text a.format

/-- A name whose client part, or all of it, is at most 33 characters long. -/
def shortTarget (s : Text) : Bool := (s.before '.').length ≤ 33

/-- The bounds within which a way of reading leaves a value unchanged. -/
def bounded (a : Arg) : Cut → Bool
  | .text mid last => a.format.length ≤ mid && last.all (a.format.length ≤ ·)
  | .target => shortTarget a.format
  | .targetRest => '.' ∉ a.format || shortTarget a.format
  | .strict cap => a.format ≠ [] && a.format.length ≤ cap
  | .initial => true
  | .num base bits =>
    match a with
    | .int n => base = 10 && 0 ≤ n && n < 2 ^ bits
    | _ => strtoul base a.format < 2 ^ bits
  | .snum bits =>
    match a with
    | .int n => -2 ^ (bits - 1) ≤ n && n < 2 ^ (bits - 1)
    | _ => -2 ^ (bits - 1) ≤ strtol a.format && strtol a.format < 2 ^ (bits - 1)
  | .index =>
    match a with
    | .int n => 0 ≤ n && n < 2 ^ 31
    | _ => 0 ≤ strtol a.format
  | .exact =>
    match a with
    | .int n => -2 ^ 31 ≤ n && n < 2 ^ 31
    | _ => a.format ≠ [] && strtolRest a.format = []
  | .libtype => a.format.take 3 = "dev".toList || a.format.take 3 = "lib".toList
  | .leading n => a.format.length = n
  | .rest cap => cap.all (a.format.length ≤ ·)
  | .hex cap => a.format.length ≤ 2 * cap
  | .pattern cap => a.format.length ≤ 2 * cap
  | .limit _ => false

/-- A field fits when it is within its bounds and does not run into the next one. -/
def fits (a : Arg) (cut : Cut) : Bool := (cut.isLast || '|' ∉ a.format) && bounded a cut

/-- The types that a number is converted to. -/
def knownBase : Cut → Bool
  | .num base bits => (base = 10 || base = 16) && bits ≤ 32
  | .snum bits => 0 < bits && bits ≤ 32
  | _ => true

/-- A port number is read back if its type has 16 bits. -/
example : bounded (.int 50000) (.num 10 16) = true ∧ bounded (.int 50000) (.snum 16) = false := by
  rw [bounded, bounded]
  decide

/-- A numeral consists of digits and a sign. -/
theorem mem_str {n : Int} {c : Char} (h : c ∈ Py.str n) : c.isDigit = true ∨ c = '-' := by
  rw [Py.str_eq] at h
  split at h
  · exact Or.inl (isDigit_of_mem_toDigits h)
  · rcases List.mem_cons.mp h with rfl | hm
    · exact Or.inr rfl
    · exact Or.inl (isDigit_of_mem_toDigits hm)

theorem bar_notMem_str (n : Int) : '|' ∉ Py.str n := by
  intro h
  rcases mem_str h with hdigit | hminus
  · exact absurd hdigit (by decide)
  · exact absurd hminus (by decide)

theorem strtoul_str {n : Int} (h0 : 0 ≤ n) (h : n < 2 ^ 32) :
    (strtoul 10 (Py.str n) : Int) = n := by
  rw [Py.str_eq, if_pos h0, strtoul_toDigits (by omega)]
  omega

theorem strtol_str {n : Int} (hlow : -2 ^ 31 ≤ n) (hhigh : n < 2 ^ 31) :
    strtol (Py.str n) = n := by
  rw [Py.str_eq]
  split
  · rw [strtol_toDigits (by omega)]
    omega
  · rw [strtol_neg_toDigits (by omega)]
    omega

theorem str_ne_nil (n : Int) : Py.str n ≠ [] := by
  rw [Py.str_eq]
  split
  · exact Nat.toDigits_ne_nil
  · exact List.cons_ne_nil _ _

/-- A numeral is read to its end. -/
theorem strtolRest_str (n : Int) : strtolRest (Py.str n) = [] := by
  rw [Py.str_eq]
  split
  · exact (strtolRest_toDigits _).1
  · exact (strtolRest_toDigits _).2

/-- A short name is not cut. -/
theorem targetName_eq_self {f : Text} (h : shortTarget f = true) : targetName f = f := by
  have hlen : (f.before '.').length ≤ 33 := by simpa [shortTarget] using h
  rw [targetName, List.take_of_length_le hlen, Text.before_append_drop]

theorem length_hexBytes_le : ∀ s : Text, (hexBytes s).length ≤ s.length / 2
  | [] => by simp [hexBytes]
  | [_] => by simp [hexBytes]
  | _ :: _ :: s => by
    have ih := length_hexBytes_le s
    simp only [hexBytes, List.length_cons]
    omega

theorem length_patternBytes_le : ∀ s : Text, (patternBytes s).length ≤ (s.length + 1) / 2
  | [] => by simp [patternBytes]
  | [_] => by simp [patternBytes]
  | _ :: _ :: s => by
    have ih := length_patternBytes_le s
    simp only [patternBytes, List.length_cons]
    omega

section Values

variable {a : Arg}

/-- A number within its bounds is what `strtoul` makes of its field. -/
theorem num_eq_value {base bits : Nat} (hknown : knownBase (.num base bits) = true)
    (h : bounded a (.num base bits) = true) :
    FieldVal.num (strtoul base a.format % 2 ^ bits : Nat) = value a (.num base bits) := by
  simp only [knownBase, Bool.and_eq_true, decide_eq_true_eq] at hknown
  cases a with
  | int n =>
    simp only [bounded, Bool.and_eq_true, decide_eq_true_eq] at h
    obtain ⟨⟨rfl, h0⟩, hbits⟩ := h
    have hpow : (2 : Int) ^ bits ≤ 2 ^ 32 := by
      exact_mod_cast Nat.pow_le_pow_right (by omega) hknown.2
    have hread := strtoul_str h0 (by omega)
    have hlt : strtoul 10 (Py.str n) < 2 ^ bits := by
      have hcast : (strtoul 10 (Py.str n) : Int) < 2 ^ bits := by omega
      exact_mod_cast hcast
    simp only [value, Arg.format, Nat.mod_eq_of_lt hlt, hread]
  | str s =>
    simp only [bounded, decide_eq_true_eq] at h
    simp only [value, Nat.mod_eq_of_lt h]
  | bool b =>
    simp only [bounded, decide_eq_true_eq] at h
    simp only [value, Nat.mod_eq_of_lt h]

/-- A signed number within its bounds is what `strtol` makes of its field. -/
theorem snum_eq_value {bits : Nat} (hknown : knownBase (.snum bits) = true)
    (h : bounded a (.snum bits) = true) :
    FieldVal.num (toSigned bits (strtol a.format)) = value a (.snum bits) := by
  simp only [knownBase, Bool.and_eq_true, decide_eq_true_eq] at hknown
  cases a with
  | int n =>
    simp only [bounded, Bool.and_eq_true, decide_eq_true_eq] at h
    have hpow : (2 : Int) ^ (bits - 1) ≤ 2 ^ 31 := by
      exact_mod_cast Nat.pow_le_pow_right (by omega) (by omega : bits - 1 ≤ 31)
    have hread := strtol_str (n := n) (by omega) (by omega)
    simp only [value, Arg.format, hread, toSigned_eq_self hknown.1 h.1 h.2]
  | str s =>
    simp only [bounded, Bool.and_eq_true, decide_eq_true_eq] at h
    simp only [value, toSigned_eq_self hknown.1 h.1 h.2]
  | bool b =>
    simp only [bounded, Bool.and_eq_true, decide_eq_true_eq] at h
    simp only [value, toSigned_eq_self hknown.1 h.1 h.2]

theorem index_eq_value (h : bounded a .index = true) :
    FieldVal.num (max 0 (strtol a.format)) = value a .index := by
  cases a with
  | int n =>
    simp only [bounded, Bool.and_eq_true, decide_eq_true_eq] at h
    simp only [value, Arg.format, strtol_str (n := n) (by omega) (by omega), Int.max_eq_right h.1]
  | str s =>
    simp only [bounded, decide_eq_true_eq] at h
    simp only [value, Int.max_eq_right h]
  | bool b =>
    simp only [bounded, decide_eq_true_eq] at h
    simp only [value, Int.max_eq_right h]

/-- A number that must end at the separator is read to its end. -/
theorem exact_eq_value (h : bounded a .exact = true) :
    a.format ≠ [] ∧ strtolRest a.format = [] ∧
      FieldVal.num (strtol a.format) = value a .exact := by
  cases a with
  | int n =>
    simp only [bounded, Bool.and_eq_true, decide_eq_true_eq] at h
    refine ⟨str_ne_nil n, strtolRest_str n, ?_⟩
    simp only [value, Arg.format, strtol_str h.1 h.2]
  | str s =>
    simp only [bounded, Bool.and_eq_true, decide_eq_true_eq] at h
    exact ⟨h.1, h.2, rfl⟩
  | bool b =>
    simp only [bounded, Bool.and_eq_true, decide_eq_true_eq] at h
    exact ⟨h.1, h.2, rfl⟩

/-- The first three letters decide, whatever follows. -/
theorem libtype_read {f : Text} (h : f.take 3 = "dev".toList ∨ f.take 3 = "lib".toList)
    (t : Text) : Cut.read (f ++ t) .libtype = some (.text (f.take 3)) := by
  have hkinds : ∀ p u : Text, p = "dev".toList ∨ p = "lib".toList →
      Cut.read (p ++ u) .libtype = some (.text p) := by
    rintro p u (rfl | rfl) <;> rfl
  obtain ⟨u, hu⟩ := List.take_prefix 3 f
  have hread := hkinds (f.take 3) (u ++ t) h
  rwa [← List.append_assoc, hu] at hread

end Values

section Fields

variable {a : Arg} {cut : Cut}

/-- A field that fits holds no separator, unless its reading takes the rest of the line. -/
theorem bar_notMem (h : fits a cut = true) (hlast : cut.isLast = false) : '|' ∉ a.format := by
  simpa [fits, hlast] using (Bool.and_eq_true_iff.mp h).1

theorem bounded_of_fits (h : fits a cut = true) : bounded a cut = true :=
  (Bool.and_eq_true_iff.mp h).2

/-- A field that fits is read from the rest of the line as it was meant. -/
theorem read_next (hknown : knownBase cut = true) (h : fits a cut = true)
    (hlast : cut.isLast = false) (t : Text) :
    cut.read (a.format ++ '|' :: t) = some (value a cut) := by
  have hbar := bar_notMem h hlast
  have hbefore := Text.before_append hbar t
  have hb := bounded_of_fits h
  cases cut with
  | text mid last =>
    simp only [bounded, Bool.and_eq_true, decide_eq_true_eq] at hb
    have hmem : '|' ∈ a.format ++ '|' :: t := by simp
    rw [Cut.read, if_pos hmem, hbefore, List.take_of_length_le hb.1]
    rfl
  | target =>
    simp only [Cut.read, hbefore]
    by_cases hdot : '.' ∈ a.format
    · rw [if_pos hdot, targetName_eq_self hb]
      rfl
    · have hlen : a.format.length ≤ 33 := by
        simpa [bounded, shortTarget, Text.before_eq_self hdot] using hb
      rw [if_neg hdot, List.take_of_length_le hlen]
      rfl
  | strict cap =>
    simp only [bounded, Bool.and_eq_true, decide_eq_true_eq] at hb
    have hok : ¬ (a.format = [] ∨ cap < a.format.length) := by
      rintro (hnil | hlong)
      · exact hb.1 hnil
      · omega
    simp only [Cut.read, hbefore, hok, if_false]
    rfl
  | initial =>
    simp only [Cut.read, hbefore]
    rfl
  | num base bits =>
    have hbase : base = 10 ∨ base = 16 := by
      simp only [knownBase, Bool.and_eq_true, Bool.or_eq_true, decide_eq_true_eq] at hknown
      exact hknown.1
    rw [Cut.read, strtoul_append_bar hbase, num_eq_value hknown hb]
  | snum bits => rw [Cut.read, strtol_append_bar, snum_eq_value hknown hb]
  | index => rw [Cut.read, strtol_append_bar, index_eq_value hb]
  | exact =>
    obtain ⟨hne, hrest, hvalue⟩ := exact_eq_value hb
    rw [Cut.read, strtolRest_append_bar t hrest hne, strtol_append_bar, hvalue]
    rfl
  | libtype =>
    simp only [bounded, Bool.or_eq_true] at hb
    exact libtype_read (hb.imp of_decide_eq_true of_decide_eq_true) _
  | targetRest | leading | rest | hex | pattern => cases hlast
  | limit n => exact absurd hb Bool.false_ne_true

/-- The last field of a line is read as it was meant. -/
theorem read_last (hknown : knownBase cut = true) (h : fits a cut = true)
    (hexact : cut ≠ .exact) : cut.read a.format = some (value a cut) := by
  have hb := bounded_of_fits h
  cases cut with
  | text mid last =>
    have hbar := bar_notMem h rfl
    simp only [bounded, Bool.and_eq_true, decide_eq_true_eq] at hb
    have hcapped : capped last a.format = a.format := by
      cases last with
      | none => rfl
      | some n => exact List.take_of_length_le (by simpa using hb.2)
    rw [Cut.read, if_neg hbar, hcapped]
    rfl
  | target =>
    have hbar := bar_notMem h rfl
    simp only [Cut.read, Text.before_eq_self hbar]
    by_cases hdot : '.' ∈ a.format
    · rw [if_pos hdot, targetName_eq_self hb]
      rfl
    · have hlen : a.format.length ≤ 33 := by
        simpa [bounded, shortTarget, Text.before_eq_self hdot] using hb
      rw [if_neg hdot, List.take_of_length_le hlen]
      rfl
  | targetRest =>
    simp only [bounded, Bool.or_eq_true, decide_eq_true_eq] at hb
    rw [Cut.read]
    by_cases hdot : '.' ∈ a.format
    · rw [if_pos hdot, targetName_eq_self (hb.resolve_left fun hno => hno hdot)]
      rfl
    · rw [if_neg hdot]
      rfl
  | strict cap =>
    have hbar := bar_notMem h rfl
    simp only [bounded, Bool.and_eq_true, decide_eq_true_eq] at hb
    have hok : ¬ (a.format = [] ∨ cap < a.format.length) := by
      rintro (hnil | hlong)
      · exact hb.1 hnil
      · omega
    simp only [Cut.read, Text.before_eq_self hbar, hok, if_false]
    rfl
  | initial =>
    simp only [Cut.read, Text.before_eq_self (bar_notMem h rfl)]
    rfl
  | num base bits => rw [Cut.read, num_eq_value hknown hb]
  | snum bits => rw [Cut.read, snum_eq_value hknown hb]
  | index => rw [Cut.read, index_eq_value hb]
  | exact => exact absurd rfl hexact
  | libtype =>
    simp only [bounded, Bool.or_eq_true] at hb
    have hread := libtype_read (hb.imp of_decide_eq_true of_decide_eq_true) []
    rwa [List.append_nil] at hread
  | leading n =>
    simp only [bounded, decide_eq_true_eq] at hb
    have hlen : ¬ a.format.length < n := by omega
    rw [Cut.read, if_neg hlen, List.take_of_length_le (by omega)]
    rfl
  | rest cap =>
    have hcapped : capped cap a.format = a.format := by
      cases cap with
      | none => rfl
      | some n => exact List.take_of_length_le (by simpa [bounded] using hb)
    rw [Cut.read, hcapped]
    rfl
  | hex cap =>
    simp only [bounded, decide_eq_true_eq] at hb
    have hlen := length_hexBytes_le a.format
    rw [Cut.read, List.take_of_length_le (by omega)]
    rfl
  | pattern cap =>
    simp only [bounded, decide_eq_true_eq] at hb
    have hlen := length_patternBytes_le a.format
    rw [Cut.read, List.take_of_length_le (by omega)]
    rfl
  | limit n => exact absurd hb Bool.false_ne_true

end Fields

/-- The values of the fields that a handler reads. -/
def values : List Cut → List Arg → List FieldVal
  | [], _ => []
  | _ :: _, [] => []
  | .limit _ :: cuts, args => values cuts args
  | cut :: cuts, a :: args => value a cut :: values cuts args

/-- The fields fit, each by its own reading. -/
def fieldsFit : List Cut → List Arg → Bool
  | [], _ => true
  | _ :: _, [] => true
  | .limit n :: cuts, args =>
    (Text.joinBar (args.map Arg.format)).length ≤ n && fieldsFit cuts args
  | cut :: cuts, a :: args => fits a cut && fieldsFit cuts args

/-- A handler can read `n` fields: a reading that takes the rest of the line comes last, and
one that must end at a separator does not. -/
def shaped : List Cut → Nat → Bool
  | [], _ => true
  | _ :: _, 0 => true
  | .limit _ :: cuts, n => shaped cuts n
  | cut :: cuts, n + 1 =>
    knownBase cut && (cut != .exact || 0 < n) && (!cut.isLast || n == 0) && shaped cuts n

section Cons

variable {cut : Cut} (hno : ∀ n, cut ≠ .limit n) (cuts : List Cut) (a : Arg) (args : List Arg)

include hno

theorem values_cons : values (cut :: cuts) (a :: args) = value a cut :: values cuts args := by
  cases cut with
  | limit n => exact absurd rfl (hno n)
  | _ => rfl

theorem fieldsFit_cons :
    fieldsFit (cut :: cuts) (a :: args) = (fits a cut && fieldsFit cuts args) := by
  cases cut with
  | limit n => exact absurd rfl (hno n)
  | _ => rfl

theorem shaped_cons (n : Nat) :
    shaped (cut :: cuts) (n + 1) = (knownBase cut && (cut != .exact || 0 < n) &&
      (!cut.isLast || n == 0) && shaped cuts n) := by
  cases cut with
  | limit n => exact absurd rfl (hno n)
  | _ => rfl

end Cons

theorem joinBar_cons (f : Text) {fs : List Text} (h : fs ≠ []) :
    Text.joinBar (f :: fs) = f ++ '|' :: Text.joinBar fs := by
  obtain ⟨g, gs, rfl⟩ := List.exists_cons_of_ne_nil h
  simp only [Text.joinBar, List.intercalate_cons_cons, List.append_assoc, List.singleton_append]

/-- A handler reads the fields that were joined. -/
theorem readFields_eq (cuts : List Cut) : ∀ args : List Arg, args ≠ [] →
    shaped cuts args.length = true → fieldsFit cuts args = true →
    readFields cuts (Text.joinBar (args.map Arg.format)) = some (values cuts args) := by
  induction cuts with
  | nil => intro args _ _ _; rfl
  | cons cut cuts ih =>
    intro args hne hshape hfit
    obtain ⟨a, args, rfl⟩ := List.exists_cons_of_ne_nil hne
    by_cases hlimit : ∃ n, cut = .limit n
    · obtain ⟨n, rfl⟩ := hlimit
      simp only [fieldsFit, Bool.and_eq_true, decide_eq_true_eq] at hfit
      rw [readFields, List.take_of_length_le hfit.1]
      exact ih (a :: args) hne hshape hfit.2
    · have hno : ∀ n, cut ≠ .limit n := fun n h => hlimit ⟨n, h⟩
      rw [List.length_cons, shaped_cons hno] at hshape
      rw [fieldsFit_cons hno] at hfit
      simp only [Bool.and_eq_true, Bool.or_eq_true, Bool.not_eq_true', bne_iff_ne, beq_iff_eq,
        decide_eq_true_eq] at hshape hfit
      obtain ⟨⟨⟨hknown, hexact⟩, hlast⟩, hshape⟩ := hshape
      rw [readFields_cons hno, values_cons hno]
      by_cases hmore : args = []
      · -- the last field: nothing is left behind it
        subst hmore
        have hread := read_last hknown hfit.1 (hexact.resolve_right (by simp))
        have hjoin : Text.joinBar ([a].map Arg.format) = a.format := by simp [Text.joinBar]
        have hvalues : values cuts [] = [] := by cases cuts <;> rfl
        rw [hjoin, hread, hvalues]
        cases hc : cut.isLast with
        | true => simp
        | false => simp [Text.after?_eq_none (bar_notMem hfit.1 hc)]
      · have hpos : args.length ≠ 0 := fun h => hmore (List.length_eq_zero_iff.mp h)
        have hc : cut.isLast = false := hlast.resolve_right hpos
        have hmap : args.map Arg.format ≠ [] := fun h => hmore (List.map_eq_nil_iff.mp h)
        rw [List.map_cons, joinBar_cons a.format hmap, read_next hknown hfit.1 hc]
        simp [hc, Text.after?_append (bar_notMem hfit.1 hc), ih args hmore hshape hfit.2]

/-- The slot writes a field whatever the dictionary holds. -/
def always : Slot → Bool
  | .item _ | .get _ _ => true
  | .ifSet _ | .flag _ => false

/-- A slot writes at most one field. -/
theorem length_slotArgs {cmd : Command} {slot : Slot} {args : List Arg}
    (h : slot.args cmd = .ok args) :
    (always slot = true → args.length = 1) ∧ args.length ≤ 1 := by
  have hopt : ∀ o : Option Arg, ((o.toList).filter Arg.truthy).length ≤ 1 := by
    intro o
    have hfilter := List.length_filter_le Arg.truthy o.toList
    cases o with
    | none => simp
    | some v => simpa using hfilter
  cases slot with
  | item key =>
    simp only [Slot.args] at h
    cases hv : cmd.getItem key with
    | error e => rw [hv] at h; cases h
    | ok v => rw [hv] at h; cases h; simp
  | get key default =>
    cases h
    simp
  | ifSet key =>
    cases h
    exact ⟨fun habs => absurd habs Bool.false_ne_true, hopt _⟩
  | flag key =>
    cases h
    exact ⟨fun habs => absurd habs Bool.false_ne_true, by simpa using hopt (cmd.get? key)⟩

/-- The number of fields of a command lies between its mandatory fields and its slots. -/
theorem length_args {cmd : Command} (slots : List Slot) : ∀ {r : List (List Arg)},
    slots.mapM (Slot.args cmd) = .ok r →
    slots.countP always ≤ r.flatten.length ∧ r.flatten.length ≤ slots.length := by
  induction slots with
  | nil =>
    intro r h
    cases h
    simp
  | cons slot slots ih =>
    intro r h
    rw [List.mapM_cons] at h
    cases hslot : slot.args cmd with
    | error e => rw [hslot] at h; cases h
    | ok args =>
      cases hslots : slots.mapM (Slot.args cmd) with
      | error e => rw [hslot, hslots] at h; cases h
      | ok rs =>
        rw [hslot, hslots] at h
        cases h
        have hone := length_slotArgs hslot
        have hrest := ih hslots
        simp only [List.countP_cons, List.flatten_cons, List.length_append, List.length_cons]
        split
        · next halways =>
          have := hone.1 halways
          omega
        · omega

/-- A way of reading that yields a field. -/
def isField : Cut → Bool
  | .limit _ => false
  | _ => true

/-- The handler of a command, for every number of fields that the host may write. The first
field is read as empty when it was not written. Every handler reads all the fields, except
that of DBGSETREG, which is not implemented. -/
def rowOk (row : String × List Slot) : Bool :=
  match handlerOf row.1.toList with
  | none => false
  | some (_, need, cuts) =>
    row.1.toList ≠ [] && row.1.toList.length ≤ 31 &&
      row.1.toList.all (fun c => c != '|' && c != '\n' && c != '\r' && c != nul) &&
      ((List.range (row.2.length + 1)).all fun n =>
        n < row.2.countP always || shaped cuts (max n 1) && need ≤ max n 1) &&
      (row.1.toList = "DBGSETREG".toList || row.2.length ≤ cuts.countP isField)

/-- Every command of the host has a handler that can read it. -/
theorem commands_rowOk : ∀ row ∈ commands, rowOk row = true := by
  decide +kernel

/-- What the tables of both ends say about a command: the name is a word that the daemon's
command buffer holds, and the handler can read every number of fields that the host writes. -/
structure Readable (row : String × List Slot) (need : Nat) (cuts : List Cut) : Prop where
  handler : handlerOf row.1.toList = some (row.1, need, cuts)
  name_ne_nil : row.1.toList ≠ []
  name_length : row.1.toList.length ≤ 31
  name_clean : ∀ c ∈ row.1.toList, c ≠ '|' ∧ c ≠ '\n' ∧ c ≠ '\r' ∧ c ≠ nul
  shape : ∀ n, row.2.countP always ≤ n → n ≤ row.2.length →
    shaped cuts (max n 1) = true ∧ need ≤ max n 1
  covered : row.1 ≠ "DBGSETREG" → row.2.length ≤ cuts.countP isField

theorem readable_of_mem {row : String × List Slot} (hrow : row ∈ commands) :
    ∃ need cuts, Readable row need cuts := by
  have hok := commands_rowOk row hrow
  unfold rowOk at hok
  cases hhandler : handlerOf row.1.toList with
  | none => rw [hhandler] at hok; cases hok
  | some handler =>
    obtain ⟨name, need, cuts⟩ := handler
    rw [hhandler] at hok
    have hname : name = row.1 := String.toList_inj.mp (by simpa using List.find?_some hhandler)
    subst hname
    simp only [Bool.and_eq_true, Bool.or_eq_true, decide_eq_true_eq, List.all_eq_true, bne_iff_ne,
      List.mem_range] at hok
    obtain ⟨⟨⟨⟨hne, hlen⟩, hchars⟩, hshape⟩, hcovered⟩ := hok
    refine ⟨need, cuts, hhandler, hne, hlen, fun c hc => ?_, fun n hlow hhigh => ?_, fun hreg => ?_⟩
    · obtain ⟨⟨⟨hbar, hnewline⟩, hreturn⟩, hnul⟩ := hchars c hc
      exact ⟨hbar, hnewline, hreturn, hnul⟩
    · exact (hshape n (by omega)).resolve_left (by omega)
    · exact hcovered.resolve_left fun h => hreg (String.toList_inj.mp h)

/-- One value is read for each field, as long as the handler reads on. -/
theorem length_values (cuts : List Cut) : ∀ args : List Arg,
    (values cuts args).length = min (cuts.countP isField) args.length := by
  induction cuts with
  | nil => intro args; simp [values]
  | cons cut cuts ih =>
    intro args
    cases args with
    | nil => simp [values]
    | cons a args =>
      by_cases hlimit : ∃ n, cut = .limit n
      · obtain ⟨n, rfl⟩ := hlimit
        have hskip : values (.limit n :: cuts) (a :: args) = values cuts (a :: args) := rfl
        rw [hskip, ih, List.countP_cons_of_neg (by simp [isField])]
      · have hno : ∀ n, cut ≠ .limit n := fun n h => hlimit ⟨n, h⟩
        have hfield : isField cut = true := by
          cases cut with
          | limit n => exact absurd rfl (hno n)
          | _ => rfl
        rw [values_cons hno, List.length_cons, ih, List.countP_cons_of_pos hfield,
          List.length_cons]
        omega

/-- How the handler of a command reads its fields. -/
def cutsOf (type : String) : List Cut :=
  match handlerOf type.toList with
  | some (_, _, cuts) => cuts
  | none => []

/-- The fields as the handler sees them: a first field that was not written is empty. -/
def seen (args : List Arg) : List Arg := if args = [] then [.str []] else args

/-- The line and its fields lie within what the daemon reads back: no line ends or terminators
in the fields, every field within the bounds of its handler, and a line that fits the
buffer. -/
structure Framable (type : String) (args : List Arg) : Prop where
  clean : ∀ a ∈ args, ∀ c ∈ a.format, c ≠ '\n' ∧ c ≠ '\r' ∧ c ≠ nul
  fit : fieldsFit (cutsOf type) (seen args) = true
  short : (commandLine type args).length < maxLine

/-- The row of a requested command, and how many fields it has. -/
theorem requested_row {cmd : Command} {type : String} {args : List Arg}
    (h : requested cmd = .ok (type, args)) :
    ∃ row ∈ commands, row.1 = type ∧ row.2.countP always ≤ args.length ∧
      args.length ≤ row.2.length := by
  unfold requested at h
  cases htype : cmd.getItem "type" with
  | error e => rw [htype] at h; cases h
  | ok t =>
    rw [htype] at h
    change (slotsOf t >>= _) = _ at h
    unfold slotsOf at h
    cases hrow : commands.find? fun c => t = .str c.1.toList with
    | none => rw [hrow] at h; cases h
    | some row =>
      rw [hrow] at h
      change (row.2.mapM (Slot.args cmd) >>= _) = _ at h
      cases hargs : row.2.mapM (Slot.args cmd) with
      | error e => rw [hargs] at h; cases h
      | ok r =>
        rw [hargs] at h
        cases h
        exact ⟨row, List.mem_of_find?_eq_some hrow, rfl, length_args row.2 hargs⟩

/-- Joining writes a separator between every two fields. -/
theorem length_le_count_joinBar (fs : List Text) :
    fs.length ≤ (Text.joinBar fs).count '|' + 1 := by
  induction fs with
  | nil => simp
  | cons f fs ih =>
    by_cases h : fs = []
    · simp [h]
    · rw [joinBar_cons f h, List.count_append, List.count_cons_self, List.length_cons]
      omega

/-- The handler of a framable command runs on the requested values. -/
theorem dispatch_eq {row : String × List Slot} {need : Nat} {cuts : List Cut} {args : List Arg}
    (hrow : Readable row need cuts) (hlow : row.2.countP always ≤ args.length)
    (hhigh : args.length ≤ row.2.length) (hfit : fieldsFit cuts (seen args) = true) :
    dispatch row.1.toList (Text.joinBar (args.map Arg.format)) =
      .executed row.1 (values cuts (seen args)) := by
  obtain ⟨hshape, hneed⟩ := hrow.shape args.length hlow hhigh
  have hseen : (seen args).length = max args.length 1 := by
    unfold seen
    split
    · next hnil => simp [hnil]
    · next hne =>
      have hpos := List.length_pos_of_ne_nil hne
      omega
  have hne : seen args ≠ [] := by
    intro h
    rw [h, List.length_nil] at hseen
    omega
  have hjoin : Text.joinBar (args.map Arg.format) =
      Text.joinBar ((seen args).map Arg.format) := by
    unfold seen
    split
    · next hnil => subst hnil; rfl
    · rfl
  have hcount : ¬ (Text.joinBar ((seen args).map Arg.format)).count '|' + 1 < need := by
    have hbars := length_le_count_joinBar ((seen args).map Arg.format)
    rw [List.length_map, hseen] at hbars
    omega
  have hread := readFields_eq cuts (seen args) hne (by rwa [hseen]) hfit
  simp only [dispatch, hrow.handler, hjoin, hcount, if_false, hread]

/-- A character of joined fields is the separator or stands in a field. -/
theorem mem_joinBar {c : Char} {fs : List Text} (h : c ∈ Text.joinBar fs) :
    c = '|' ∨ ∃ f ∈ fs, c ∈ f := by
  induction fs with
  | nil => simp [Text.joinBar] at h
  | cons f fs ih =>
    by_cases hfs : fs = []
    · subst hfs
      exact Or.inr ⟨f, List.mem_cons_self, by simpa [Text.joinBar] using h⟩
    · rw [joinBar_cons f hfs, List.mem_append, List.mem_cons] at h
      rcases h with hf | hbar | hrest
      · exact Or.inr ⟨f, List.mem_cons_self, hf⟩
      · exact Or.inl hbar
      · rcases ih hrest with hbar | ⟨g, hg, hc⟩
        · exact Or.inl hbar
        · exact Or.inr ⟨g, List.mem_cons_of_mem f hg, hc⟩

/-- The command is cut off at the first separator. -/
theorem protocolParseLine_commandLine {row : String × List Slot} {need : Nat} {cuts : List Cut}
    (hrow : Readable row need cuts) (args : List Arg) :
    protocolParseLine (commandLine row.1 args) =
      [dispatch row.1.toList (Text.joinBar (args.map Arg.format))] := by
  have hbar : '|' ∉ row.1.toList := fun h => (hrow.name_clean '|' h).1 rfl
  unfold protocolParseLine commandLine
  by_cases hargs : args = []
  · subst hargs
    have hline : Text.joinBar (row.1.toList :: [].map Arg.format) = row.1.toList := by
      simp [Text.joinBar]
    rw [hline, if_neg hrow.name_ne_nil, Text.after?_eq_none hbar,
      List.take_of_length_le hrow.name_length]
    rfl
  · have hmap : args.map Arg.format ≠ [] := fun h => hargs (List.map_eq_nil_iff.mp h)
    rw [joinBar_cons _ hmap, if_neg (by simp), Text.after?_append hbar,
      Text.before_append hbar, List.take_of_length_le hrow.name_length]

/-- A line of clean fields is clean. -/
theorem commandLine_clean {row : String × List Slot} {need : Nat} {cuts : List Cut}
    (hrow : Readable row need cuts) {args : List Arg}
    (hargs : ∀ a ∈ args, ∀ c ∈ a.format, c ≠ '\n' ∧ c ≠ '\r' ∧ c ≠ nul) :
    commandLine row.1 args ≠ [] ∧
      ∀ c ∈ commandLine row.1 args, c ≠ '\n' ∧ c ≠ '\r' ∧ c ≠ nul := by
  constructor
  · unfold commandLine
    by_cases hmap : args.map Arg.format = []
    · rw [hmap]
      simpa [Text.joinBar] using hrow.name_ne_nil
    · rw [joinBar_cons _ hmap]
      simp
  · intro c hc
    rcases mem_joinBar hc with rfl | ⟨f, hf, hmem⟩
    · decide
    · rcases List.mem_cons.mp hf with rfl | hf
      · exact (hrow.name_clean c hmem).2
      · obtain ⟨a, ha, rfl⟩ := List.mem_map.mp hf
        exact hargs a ha c hmem

/-- A command dictionary with texts. -/
def command (kvs : List (String × String)) : Command := kvs.map fun kv => (kv.1, .str kv.2.toList)

/-- The daemon carries out what the host was asked to send, and nothing else. -/
def Framed (cmd : Command) : Prop :=
  ∀ bytes, send true cmd = .ok bytes → ∃ type args, requested cmd = .ok (type, args) ∧
    receive [] bytes = ([], [.executed type (values (cutsOf type) (seen args))])

end AmigaDevbench.CommandFraming
