import AmigaDevbench.Core.Returns
import AmigaDevbench.Host.Protocol.Parse

/-!
# Lines on which `parse_message` returns

Six message types convert fields with a bare `int()`. `wellFormed` lists, for each of them,
the fields that must be literals; on every other type the parser returns whatever the fields
hold. The two together decide for every line whether the parser returns.
-/

namespace AmigaDevbench.Protocol

/-- A present field is a hexadecimal literal. -/
def hexAt (parts : List Text) (i : Nat) : Bool := (parts[i]?).all (Py.isIntLiteral 16)

/-- A present field is a colon-separated list of hexadecimal literals. -/
def hexListAt (parts : List Text) (i : Nat) : Bool :=
  (parts[i]?).all fun s => (s.splitOn ':').all (Py.isIntLiteral 16)

/-- The two addresses of a breakpoint entry with all its fields are hexadecimal literals. -/
def bpEntryOk (entry : Text) : Bool :=
  let fields := entry.splitOn ':'
  fields.length < 4 || Py.isIntLiteral 16 (field fields 1 []) &&
    Py.isIntLiteral 16 (field fields 3 [])

/-- Every size that `isdigit` lets through is a decimal literal: no superscript digits, and
not more digits than `int()` converts. -/
def fontEntryOk (entry : Text) : Bool :=
  (Text.after? ':' entry).all fun sizes =>
    ((sizes.splitOn ',').filter Py.isdigit).all (Py.isIntLiteral 10)

/-- The converting message types and what their fields must satisfy. -/
def conversions : List (String × (List Text → Bool)) :=
  [("DBGSTOP", fun p => hexAt p 2 && hexAt p 3 && hexListAt p 4 &&
      (isWarning (field p 5 []) || hexListAt p 5)),
   ("BPINFO", fun p => hexAt p 2 && hexAt p 4),
   ("BPLIST", fun p => field p 2 [] = [] || ((field p 2 []).splitOn ',').all bpEntryOk),
   ("DBGREGS", fun p => hexListAt p 1 && hexListAt p 2 && hexAt p 3 && hexAt p 4),
   ("DBGSTATE", fun p => hexAt p 4),
   ("FONTS", fun p => (p.drop 2).all fontEntryOk)]

/-- The converted fields of a line are literals. -/
def wellFormed (line : Text) : Bool :=
  let parts := line.splitOn '|'
  (conversions.find? (·.1.toList = parts.headD [])).all (·.2 parts)

/-- A conversion returns exactly on the literals. -/
theorem returns_int_iff (base : Nat) (s : Text) :
    Returns (Py.int base s) ↔ Py.isIntLiteral base s = true := Py.int_ok_iff base s

theorem returns_hex_iff (parts : List Text) (i : Nat) :
    Returns (hex parts i) ↔ hexAt parts i = true := by
  unfold hex hexAt
  cases parts[i]? with
  | none => simp
  | some s => simpa using returns_int_iff 16 s

theorem returns_hexList_iff (parts : List Text) (i : Nat) :
    Returns (hexList parts i) ↔ hexListAt parts i = true := by
  unfold hexList hexListAt
  cases parts[i]? with
  | none => simp
  | some s => simp [returns_mapM_iff, returns_int_iff]

theorem returns_stopAddrRegs_iff (parts : List Text) :
    Returns (stopAddrRegs parts) ↔
      (isWarning (field parts 5 []) || hexListAt parts 5) = true := by
  unfold stopAddrRegs
  cases isWarning (field parts 5 []) with
  | true => simp
  | false => simpa using returns_hexList_iff parts 5

theorem returns_parseDbgstop_iff (now : Text) (parts : List Text) :
    Returns (parseDbgstop now parts) ↔
      (hexAt parts 2 && hexAt parts 3 && hexListAt parts 4 &&
        (isWarning (field parts 5 []) || hexListAt parts 5)) = true := by
  unfold parseDbgstop
  rw [returns_bind_of_const fun pc => returns_bind_of_const fun sr =>
    returns_bind_of_const fun d => returns_bind_of_const fun a => iff_true_intro (returns_pure _)]
  rw [returns_hex_iff, returns_hex_iff, returns_hexList_iff, returns_stopAddrRegs_iff]
  simp only [Bool.and_eq_true, and_true, and_assoc]

theorem returns_parseBpinfo_iff (parts : List Text) :
    Returns (parseBpinfo parts) ↔ (hexAt parts 2 && hexAt parts 4) = true := by
  unfold parseBpinfo
  rw [returns_bind_of_const fun a => returns_bind_of_const fun o =>
    iff_true_intro (returns_pure _)]
  simp only [returns_hex_iff, Bool.and_eq_true, and_true]

theorem returns_bpEntry_iff (entry : Text) :
    Returns (bpEntry entry) ↔ bpEntryOk entry = true := by
  unfold bpEntry bpEntryOk
  by_cases h : (entry.splitOn ':').length < 4
  · simp [h]
  · simp only [h, if_false, decide_false, Bool.false_or, Bool.and_eq_true]
    rw [returns_bind_of_const fun a => returns_bind_of_const fun o =>
      iff_true_intro (returns_pure _)]
    simp only [returns_int_iff, and_true]

theorem returns_parseBplist_iff (parts : List Text) :
    Returns (parseBplist parts) ↔
      (decide (field parts 2 [] = []) || ((field parts 2 []).splitOn ',').all bpEntryOk) = true := by
  unfold parseBplist bpEntries
  rw [returns_bind_of_const fun bps => iff_true_intro (returns_pure _), and_true]
  by_cases h : field parts 2 [] = []
  · simp [h]
  · simp [h, returns_mapM_iff, returns_bpEntry_iff]

theorem returns_parseDbgregs_iff (parts : List Text) :
    Returns (parseDbgregs parts) ↔
      (hexListAt parts 1 && hexListAt parts 2 && hexAt parts 3 && hexAt parts 4) = true := by
  unfold parseDbgregs
  rw [returns_bind_of_const fun d => returns_bind_of_const fun a =>
    returns_bind_of_const fun pc => returns_bind_of_const fun sr =>
    iff_true_intro (returns_pure _)]
  simp only [returns_hex_iff, returns_hexList_iff, Bool.and_eq_true, and_true, and_assoc]

theorem returns_parseDbgstate_iff (parts : List Text) :
    Returns (parseDbgstate parts) ↔ hexAt parts 4 = true := by
  unfold parseDbgstate
  rw [returns_bind_of_const fun pc => iff_true_intro (returns_pure _), and_true, returns_hex_iff]

theorem returns_fontEntry_iff (entry : Text) :
    Returns (fontEntry entry) ↔ fontEntryOk entry = true := by
  unfold fontEntry fontEntryOk
  cases Text.after? ':' entry with
  | none => simp
  | some sizes =>
    rw [returns_bind_of_const fun _ => iff_true_intro (returns_pure _), and_true,
      returns_mapM_iff]
    simp only [returns_int_iff, Option.all_some, List.all_eq_true]

theorem returns_parseFonts_iff (parts : List Text) :
    Returns (parseFonts parts) ↔ ((parts.drop 2).all fontEntryOk) = true := by
  unfold parseFonts
  rw [returns_bind_of_const fun _ => iff_true_intro (returns_pure _), and_true,
    returns_mapM_iff]
  simp only [returns_fontEntry_iff, List.all_eq_true]

/-- A branch that converts nothing returns on every line. -/
theorem returns_run_guarded (f : Text → Text → List Text → Parsed) (now line : Text)
    (parts : List Text) : Returns ((Branch.guarded f).run now line parts) := ⟨_, rfl⟩

/-- Each branch of the table returns exactly when the fields that it converts are literals;
the fields are those listed under the same type in `conversions`. -/
theorem returns_run_iff (now line : Text) (parts : List Text) :
    ∀ b ∈ branches, Returns (b.2.run now line parts) ↔
      (conversions.find? (·.1.toList = b.1.toList)).all (·.2 parts) = true := by
  simp only [branches, List.forall_mem_cons]
  repeat' apply And.intro
  all_goals first
    | exact iff_of_true (returns_run_guarded _ now line parts) rfl
    | exact returns_parseDbgstop_iff now parts
    | exact returns_parseBpinfo_iff parts
    | exact returns_parseBplist_iff parts
    | exact returns_parseDbgregs_iff parts
    | exact returns_parseDbgstate_iff parts
    | exact returns_parseFonts_iff parts
    | exact fun _ hb => absurd hb List.not_mem_nil

/-- The converting types are among the types of the parser. -/
theorem conversions_subset : ∀ c ∈ conversions, ∃ b ∈ branches, b.1 = c.1 := by
  decide

/-- The parser returns exactly on the lines whose converted fields are literals. -/
theorem returns_parseMessage_iff (now line : Text) :
    Returns (parseMessage now line) ↔ wellFormed line = true := by
  unfold wellFormed
  rcases parseMessage_cases now line with ⟨b, hb, hname, hrun⟩ | ⟨hnone, hrun⟩
  · rw [hrun, returns_run_iff now line _ b hb, hname]
  · have hfind : conversions.find? (·.1.toList = (line.splitOn '|').headD []) = none := by
      rw [List.find?_eq_none]
      intro c hc
      obtain ⟨b, hb, hbc⟩ := conversions_subset c hc
      simpa only [hbc, decide_eq_true_eq] using hnone b hb
    simp only [hrun, hfind, Option.all_none, iff_true]
    exact returns_ok _

end AmigaDevbench.Protocol
