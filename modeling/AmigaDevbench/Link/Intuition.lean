import AmigaDevbench.Daemon.Intuition
import AmigaDevbench.Link.GdbMemory
import AmigaDevbench.Link.Inventory

/-!
# Screens, windows and gadgets from the daemon to the host

The host asks for the screens, with an address of that list for the windows of a screen, and with an
address of the next one for the gadgets of a window. Each list has the entries that fit on its line,
and an address that the host was told leads back to the structure it was told for.
-/

namespace AmigaDevbench.Intuition

open CText CNumber Daemon Daemon.Intuition Protocol Replies Inventory

/-! ### Lists on the host -/

/-- A screen on the host. -/
def screenVal (scr : Screen) : Val :=
  .dict [("title", .str (shownText scr.title "(untitled)")), ("width", .int scr.width.toInt),
    ("height", .int scr.height.toInt), ("depth", .int scr.depth.toNat),
    ("viewModes", .str (hexLong scr.modes.toNat)), ("flags", .str (hexLong scr.flags.toNat)),
    ("addr", .str (hexLong scr.addr.toNat))]

/-- A window on the host. -/
def windowVal (win : Window) : Val :=
  .dict [("title", .str (shownText win.title "(untitled)")), ("left", .int win.leftEdge.toInt),
    ("top", .int win.topEdge.toInt), ("width", .int win.width.toInt),
    ("height", .int win.height.toInt), ("flags", .str (hexLong win.flags.toNat)),
    ("idcmp", .str (hexLong win.idcmpFlags.toNat)), ("addr", .str (hexLong win.addr.toNat))]

/-- A gadget on the host. -/
def gadgetVal (gad : Gadget) : Val :=
  .dict [("id", .int gad.gadgetID.toNat), ("left", .int gad.leftEdge.toInt),
    ("top", .int gad.topEdge.toInt), ("width", .int gad.width.toInt),
    ("height", .int gad.height.toInt), ("gadgetType", .int gad.gadgetType.toNat),
    ("flags", .int gad.flags.toNat), ("text", .str (shownText gad.gadgetText "n/a")),
    ("addr", .str (hexLong gad.addr.toNat))]

/-- The address of an entry, as the host is told it. -/
def told : Val → Text
  | .dict entry => Dict.getText entry "addr" []
  | _ => []

/-- The screens that fit on their line. -/
def shownScreens (base : Base) : List Screen :=
  shownNodes "SCREENS|".toList Screen.entry (base.screens.takeWhile (valid ·.addr))

/-- The windows of a screen that fit on their line. -/
def shownWindows (scr : Screen) : List Window :=
  shownNodes (header "WINDOWS".toList scr.addr) Window.entry (scr.windows.takeWhile (valid ·.addr))

/-- The gadgets of a window that fit on their line. -/
def shownGadgets (win : Window) : List Gadget :=
  shownNodes (header "GADGETS".toList win.addr) Gadget.entry (win.gadgets.takeWhile (valid ·.addr))

/-- The message with the screens. -/
def screensMsg (scrs : List Screen) : Dict :=
  listMsg "SCREENS" "screens" scrs.length (scrs.map screenVal)

/-- The message with the windows of a screen. -/
def windowsMsg (scr : Screen) (wins : List Window) : Dict :=
  [("type", .str "WINDOWS".toList), ("screenAddr", .str (hexLong scr.addr.toNat)),
    ("count", .int wins.length), ("windows", .list (wins.map windowVal))]

/-- The message with the gadgets of a window. -/
def gadgetsMsg (win : Window) (gads : List Gadget) : Dict :=
  [("type", .str "GADGETS".toList), ("windowAddr", .str (hexLong win.addr.toNat)),
    ("count", .int gads.length), ("gadgets", .list (gads.map gadgetVal))]

/-- The message of an error. -/
def errMsg (context message : String) : Dict :=
  [("type", .str "ERR".toList), ("context", .str context.toList), ("message", .str message.toList)]

def listScreens : Command := [("type", .str "LISTSCREENS".toList)]

def listWindows (addr : Text) : Command :=
  [("type", .str "LISTWINDOWS2".toList), ("screen", .str addr)]

def listGadgets (addr : Text) : Command :=
  [("type", .str "LISTGADGETS".toList), ("window", .str addr)]

/-- What is published on the host after a command to the daemon. -/
def ask (hasDbg : Bool) (now : Text) (base : Option Base) (cmd : Command) : List Event :=
  match formatCommand cmd with
  | .ok line => (answer base line).elim [] (published hasDbg now)
  | .error _ => []

/-! ### Fields -/

theorem free_hexLong (n : Nat) : Text.Free ['|', ',', ':'] (hexLong n) := by
  intro c hc hsep
  have hdigit := Py.isDigitOf_of_mem_toDigits (by decide) le_rfl hc
  simp only [List.mem_cons, List.not_mem_nil, or_false] at hsep
  rcases hsep with rfl | rfl | rfl <;> exact absurd hdigit (by decide)

theorem free_decimal (n : Nat) : Text.Free ['|', ',', ':'] (decimal n) := by
  intro c hc hsep
  have hdigit := CNumber.isDigit_of_mem_toDigits hc
  simp only [List.mem_cons, List.not_mem_nil, or_false] at hsep
  rcases hsep with rfl | rfl | rfl <;> exact absurd hdigit (by decide)

theorem free_longText (n : Int) : Text.Free ['|', ',', ':'] (Client.longText n) := by
  intro c hc hsep
  simp only [List.mem_cons, List.not_mem_nil, or_false] at hsep
  rcases hsep with rfl | rfl | rfl <;> exact notMem_longText (by decide) (by decide) hc

/-- What is free of all separators has no colon in it. -/
theorem colon_notMem {s : Text} (h : Text.Free ['|', ',', ':'] s) : ':' ∉ s :=
  fun hmem => h ':' hmem (by decide)

section Fields

variable {fields : List Text} (h : ∀ s ∈ fields, Text.Free ['|', ',', ':'] s)

include h

/-- An entry is split into its fields. -/
theorem splitOn_fields (hne : fields ≠ []) : ([':'].intercalate fields).splitOn ':' = fields :=
  List.splitOn_intercalate ':' (fun s hs => colon_notMem (h s hs)) hne

/-- An entry is free of the separators of lists and lines. -/
theorem free_fields : Text.Free ['|', ','] ([':'].intercalate fields) := by
  intro c hc hsep
  rcases Text.mem_intercalate hc with rfl | ⟨s, hs, hmem⟩
  · exact absurd hsep (by decide)
  · exact h s hs c hmem (List.mem_append_left [':'] hsep)

end Fields

/-- An address is read as it is written. -/
theorem strtoul_hexLong (a : UInt32) : strtoul 16 (hexLong a.toNat) = a.toNat := by
  have hval : Py.digitsVal 16 (hexLong a.toNat) = a.toNat :=
    Py.digitsVal_toDigits (by decide) (by decide) a.toNat
  have hall : (hexLong a.toNat).all (Py.isDigitOf 16) = true :=
    List.all_eq_true.mpr fun c hc => Py.isDigitOf_of_mem_toDigits (by decide) le_rfl hc
  have hne : hexLong a.toNat ≠ [] := Nat.toDigits_ne_nil
  rw [GdbMemory.strtoul_digits hne hall (hval.symm ▸ a.toNat_lt), hval]

theorem int_longText_int16 (n : Int16) : int (Client.longText n.toInt) = n.toInt := by
  have hlow := n.le_toInt
  have hhigh := n.toInt_lt
  exact int_longText (by omega) (by omega)

theorem int_decimal_uint16 (n : UInt16) : int (decimal n.toNat) = n.toNat := by
  have hlt := n.toNat_lt
  exact int_decimal (by omega)

theorem int_decimal_uint8 (n : UInt8) : int (decimal n.toNat) = n.toNat := by
  have hlt := n.toNat_lt
  exact int_decimal (by omega)

/-! ### Entries -/

theorem free_title (title : Option CString) :
    Text.Free ['|', ',', ':'] (shownText title "(untitled)") := free_shownText title (by decide)

theorem free_gadgetText (gad : Gadget) :
    Text.Free ['|', ',', ':'] (shownText gad.gadgetText "n/a") :=
  free_shownText gad.gadgetText (by decide)

/-- The fields of a screen. -/
def screenFields (scr : Screen) : List Text :=
  [shownText scr.title "(untitled)", Client.longText scr.width.toInt,
    Client.longText scr.height.toInt, decimal scr.depth.toNat, hexLong scr.modes.toNat,
    hexLong scr.flags.toNat, hexLong scr.addr.toNat]

/-- The fields of a window. -/
def windowFields (win : Window) : List Text :=
  [shownText win.title "(untitled)", Client.longText win.leftEdge.toInt,
    Client.longText win.topEdge.toInt, Client.longText win.width.toInt,
    Client.longText win.height.toInt, hexLong win.flags.toNat, hexLong win.idcmpFlags.toNat,
    hexLong win.addr.toNat]

/-- The fields of a gadget. -/
def gadgetFields (gad : Gadget) : List Text :=
  [decimal gad.gadgetID.toNat, Client.longText gad.leftEdge.toInt,
    Client.longText gad.topEdge.toInt, Client.longText gad.width.toInt,
    Client.longText gad.height.toInt, decimal gad.gadgetType.toNat, decimal gad.flags.toNat,
    shownText gad.gadgetText "n/a", hexLong gad.addr.toNat]

section Entries

variable (scr : Screen) (win : Window) (gad : Gadget)

theorem entry_screen : scr.entry = [':'].intercalate (screenFields scr) := by
  simp only [Screen.entry, screenFields, List.intercalate_cons_cons, List.intercalate_singleton,
    List.append_assoc, List.cons_append, List.nil_append]

theorem entry_window : win.entry = [':'].intercalate (windowFields win) := by
  simp only [Window.entry, windowFields, List.intercalate_cons_cons, List.intercalate_singleton,
    List.append_assoc, List.cons_append, List.nil_append]

theorem entry_gadget : gad.entry = [':'].intercalate (gadgetFields gad) := by
  simp only [Gadget.entry, gadgetFields, List.intercalate_cons_cons, List.intercalate_singleton,
    List.append_assoc, List.cons_append, List.nil_append]

theorem free_screenFields : ∀ s ∈ screenFields scr, Text.Free ['|', ',', ':'] s := by
  simp only [screenFields, List.forall_mem_cons, free_title, free_longText, free_decimal,
    free_hexLong, true_and]
  exact List.forall_mem_nil _

theorem free_windowFields : ∀ s ∈ windowFields win, Text.Free ['|', ',', ':'] s := by
  simp only [windowFields, List.forall_mem_cons, free_title, free_longText, free_hexLong, true_and]
  exact List.forall_mem_nil _

theorem free_gadgetFields : ∀ s ∈ gadgetFields gad, Text.Free ['|', ',', ':'] s := by
  simp only [gadgetFields, List.forall_mem_cons, free_gadgetText, free_longText, free_decimal,
    free_hexLong, true_and]
  exact List.forall_mem_nil _

theorem free_screen : Text.Free ['|', ','] scr.entry := by
  rw [entry_screen]
  exact free_fields (free_screenFields scr)

theorem free_window : Text.Free ['|', ','] win.entry := by
  rw [entry_window]
  exact free_fields (free_windowFields win)

theorem free_gadget : Text.Free ['|', ','] gad.entry := by
  rw [entry_gadget]
  exact free_fields (free_gadgetFields gad)

/-- A screen is read as it is written. -/
theorem screenEntry_entry : screenEntry scr.entry = some (screenVal scr) := by
  have hparts := splitOn_fields (free_screenFields scr) (List.cons_ne_nil _ _)
  rw [← entry_screen, screenFields] at hparts
  simp only [screenEntry, hparts, field, num, List.getD_cons_zero, List.getD_cons_succ,
    int_longText_int16, int_decimal_uint8]
  exact if_pos (Nat.le_refl 7)

/-- A window is read as it is written. -/
theorem windowEntry_entry : windowEntry win.entry = some (windowVal win) := by
  have hparts := splitOn_fields (free_windowFields win) (List.cons_ne_nil _ _)
  rw [← entry_window, windowFields] at hparts
  simp only [windowEntry, hparts, field, num, List.getD_cons_zero, List.getD_cons_succ,
    int_longText_int16]
  exact if_pos (Nat.le_refl 8)

/-- A gadget is read as it is written. -/
theorem gadgetEntry_entry : gadgetEntry gad.entry = some (gadgetVal gad) := by
  have hparts := splitOn_fields (free_gadgetFields gad) (List.cons_ne_nil _ _)
  rw [← entry_gadget, gadgetFields] at hparts
  simp only [gadgetEntry, hparts, field, num, List.getD_cons_zero, List.getD_cons_succ,
    int_longText_int16, int_decimal_uint16]
  exact if_pos (Nat.le_refl 9)

end Entries

/-! ### Lines -/

/-- The entries of a field. -/
def readList (read : Text → Option Val) (text : Text) : List Val :=
  if text = [] then [] else (text.splitOn ',').filterMap read

/-- A comma behind the last entry adds nothing. -/
theorem readList_entries {read : Text → Option Val} (hnil : read [] = none) {entries : List Text}
    {tail : Text} (hcomma : ∀ entry ∈ entries, ',' ∉ entry) (htail : tail = [] ∨ tail = [','])
    (hempty : entries = [] → tail = []) :
    readList read ([','].intercalate entries ++ tail) = entries.filterMap read := by
  have hread (text : Text) : readList read text = (text.splitOn ',').filterMap read := by
    rw [readList]
    split
    · next h =>
      have hone : ([] : Text).splitOn ',' = [[]] := rfl
      rw [h, hone, List.filterMap_cons_none hnil, List.filterMap_nil]
    · rfl
  rw [hread]
  cases entries with
  | nil =>
    rw [hempty rfl]
    exact List.filterMap_cons_none hnil
  | cons entry entries =>
    rcases htail with rfl | rfl
    · rw [List.append_nil, List.splitOn_intercalate ',' hcomma (List.cons_ne_nil _ _)]
    · have hall : ∀ piece ∈ entry :: entries ++ [[]], ',' ∉ piece := by
        intro piece hpiece
        rcases List.mem_append.mp hpiece with hmem | hmem
        · exact hcomma piece hmem
        · rw [List.mem_singleton.mp hmem]
          exact List.not_mem_nil
      have hjoined := Text.intercalate_concat [','] [] (List.cons_ne_nil entry entries)
      rw [List.append_nil] at hjoined
      rw [← hjoined, List.splitOn_intercalate ',' hall (List.append_ne_nil_of_left_ne_nil
        (List.cons_ne_nil _ _) _), List.filterMap_append, List.filterMap_cons_none hnil,
        List.filterMap_nil, List.append_nil]

section Lines

variable {α : Type} {header : Text} {entry : α → Text} {value : α → Val} {read : Text → Option Val}

/-- A line has the number of the nodes that fit and a field in which the host reads them. -/
theorem exists_field (hheader : header.length ≤ 1024)
    (hfree : ∀ x, Text.Free ['|', ','] (entry x)) (hread : ∀ x, read (entry x) = some (value x))
    (hnil : read [] = none) (nodes : List α) :
    ∃ text, countedLine header (nodes.map entry) =
        header ++ (decimal (shownNodes header entry nodes).length ++ '|' :: text) ∧
      '|' ∉ text ∧ readList read text = (shownNodes header entry nodes).map value ∧
      (shownNodes header entry nodes).length < 2 ^ 32 := by
  have hline := lineOf_countedLine hheader (nodes.map entry)
  rw [← List.map_take] at hline
  change LineOf header ((shownNodes header entry nodes).map entry) _ at hline
  obtain ⟨⟨tail, htail, hempty, heq⟩, -, hcount⟩ := hline
  rw [List.length_map] at heq hcount
  have hplain : ∀ piece ∈ (shownNodes header entry nodes).map entry,
      Text.Free ['|', ','] piece := by
    intro piece hpiece
    obtain ⟨x, -, rfl⟩ := List.mem_map.mp hpiece
    exact hfree x
  refine ⟨_, heq, fun hmem => ?_, ?_, by omega⟩
  · rcases List.mem_append.mp hmem with hin | hin
    · rcases Text.mem_intercalate hin with habs | ⟨piece, hpiece, hbar⟩
      · exact absurd habs (by decide)
      · exact hplain piece hpiece '|' hbar (by decide)
    · rcases htail with rfl | rfl
      · cases hin
      · exact absurd hin (by decide)
  · have hcomma : ∀ piece ∈ (shownNodes header entry nodes).map entry, ',' ∉ piece :=
      fun piece hpiece hmem => hplain piece hpiece ',' hmem (by decide)
    rw [readList_entries hnil hcomma htail hempty, List.filterMap_map]
    exact (List.filterMap_congr fun x _ => hread x).trans (congrFun List.filterMap_eq_map _)

end Lines

section Parse

variable {n : Nat} {text : Text}

theorem listField_last {parts : List Text} {read : Text → Option Val} {i : Nat}
    (h : field parts i [] = text) :
    listField parts i (fun s => (s.splitOn ',').filterMap read) = .list (readList read text) := by
  rw [listField, h]
  rfl

theorem parse_screens (hn : n < 2 ^ 32) (hbar : '|' ∉ text) (now : Text) :
    parseMessage now ("SCREENS|".toList ++ (decimal n ++ '|' :: text)) =
      .ok (some (listMsg "SCREENS" "screens" n (readList screenEntry text))) := by
  have hbranch : branchOf "SCREENS".toList = some (.guarded fun _ _ p => parseScreens p) := rfl
  refine (parse_list now (by decide) hbranch text).trans ?_
  rw [List.splitOn_eq_singleton hbar, parseScreens, listField_last rfl]
  simp only [num, field, List.getD_cons_succ, List.getD_cons_zero, int_decimal hn]
  rfl

/-- The fields of a line with an address in front of the number. -/
theorem splitOn_addressed {type : Text} (htype : '|' ∉ type) (a : UInt32) (hbar : '|' ∉ text) :
    (header type a ++ (decimal n ++ '|' :: text)).splitOn '|' =
      [type, hexLong a.toNat, decimal n, text] := by
  have haddr : '|' ∉ hexLong a.toNat := fun hmem => free_hexLong _ '|' hmem (by decide)
  have hline : header type a ++ (decimal n ++ '|' :: text) =
      type ++ '|' :: (hexLong a.toNat ++ '|' :: (decimal n ++ '|' :: text)) := by
    simp only [header, List.append_assoc, List.cons_append, List.nil_append]
  rw [hline, Text.splitOn_field htype, Text.splitOn_field haddr,
    Text.splitOn_field (bar_notMem_decimal n), List.splitOn_eq_singleton hbar]

theorem parse_windows (hn : n < 2 ^ 32) (hbar : '|' ∉ text) (now : Text) (a : UInt32) :
    parseMessage now (header "WINDOWS".toList a ++ (decimal n ++ '|' :: text)) =
      .ok (some [("type", .str "WINDOWS".toList), ("screenAddr", .str (hexLong a.toNat)),
        ("count", .int n), ("windows", .list (readList windowEntry text))]) := by
  have hbranch : branchOf "WINDOWS".toList = some (.guarded fun _ _ p => parseWindows p) := rfl
  have htype : '|' ∉ "WINDOWS".toList := by decide
  rw [parseMessage, splitOn_addressed htype a hbar]
  simp only [List.headD_cons, hbranch, Branch.run, parseWindows, listField_last rfl, num, field,
    List.getD_cons_succ, List.getD_cons_zero, int_decimal hn]

theorem parse_gadgets (hn : n < 2 ^ 32) (hbar : '|' ∉ text) (now : Text) (a : UInt32) :
    parseMessage now (header "GADGETS".toList a ++ (decimal n ++ '|' :: text)) =
      .ok (some [("type", .str "GADGETS".toList), ("windowAddr", .str (hexLong a.toNat)),
        ("count", .int n), ("gadgets", .list (readList gadgetEntry text))]) := by
  have hbranch : branchOf "GADGETS".toList = some (.guarded fun _ _ p => parseGadgets p) := rfl
  have htype : '|' ∉ "GADGETS".toList := by decide
  rw [parseMessage, splitOn_addressed htype a hbar]
  simp only [List.headD_cons, hbranch, Branch.run, parseGadgets, listField_last rfl, num, field,
    List.getD_cons_succ, List.getD_cons_zero, int_decimal hn]

end Parse

/-! ### Addresses -/

section Addresses

variable {α : Type} {addr : α → UInt32}

/-- Where no two elements have one address, an address leads to its element. -/
theorem find?_addr {xs : List α} (hnodup : (xs.map addr).Nodup) {x : α} (hx : x ∈ xs) :
    xs.find? (fun y => (addr y).toNat = (addr x).toNat) = some x := by
  induction xs with
  | nil => cases hx
  | cons y ys ih =>
    rw [List.map_cons, List.nodup_cons] at hnodup
    rcases List.mem_cons.mp hx with rfl | hin
    · exact List.find?_cons_of_pos (decide_eq_true rfl)
    · have hne : (addr y).toNat ≠ (addr x).toNat := by
        intro heq
        have hsame : addr y = addr x := UInt32.toNat_inj.mp heq
        exact hnodup.1 (hsame ▸ List.mem_map_of_mem hin)
      rw [List.find?_cons_of_neg (by simpa using hne)]
      exact ih hnodup.2 hin

theorem find?_addr_eq_none {xs : List α} {a : UInt32} (h : ∀ x ∈ xs, addr x ≠ a) :
    xs.find? (fun y => (addr y).toNat = a.toNat) = none := by
  apply List.find?_eq_none.mpr
  intro x hx heq
  exact h x hx (UInt32.toNat_inj.mp (of_decide_eq_true heq))

/-- A walk that ends early comes by some of what there is, in the same order. -/
theorem sublist_walk {β : Type} (p : α → Bool) (q : β → Bool) (f : α → List β) (xs : List α) :
    List.Sublist ((xs.takeWhile p).flatMap fun x => (f x).takeWhile q) (xs.flatMap f) := by
  induction xs with
  | nil => exact List.Sublist.refl _
  | cons x xs ih =>
    rw [List.takeWhile_cons]
    split
    · rw [List.flatMap_cons, List.flatMap_cons]
      exact (List.takeWhile_sublist q).append ih
    · exact List.nil_sublist _

end Addresses

theorem nodup_walked (base : Base) : (base.walked.map Window.addr).Nodup :=
  base.windows_nodup.sublist ((sublist_walk _ _ Screen.windows base.screens).map Window.addr)

section Shown

variable {base : Base} {scr : Screen} {win : Window}

theorem mem_of_shownScreens (h : scr ∈ shownScreens base) :
    scr ∈ base.screens.takeWhile (valid ·.addr) := List.mem_of_mem_take h

theorem mem_of_shownWindows (h : win ∈ shownWindows scr) :
    win ∈ scr.windows.takeWhile (valid ·.addr) := List.mem_of_mem_take h

/-- The gadgets of a window are looked for where the window was found. -/
theorem mem_walked (hscr : scr ∈ shownScreens base) (hwin : win ∈ shownWindows scr) :
    win ∈ base.walked :=
  List.mem_flatMap.mpr ⟨scr, mem_of_shownScreens hscr, mem_of_shownWindows hwin⟩

theorem bounds_of_valid {a : UInt32} (h : valid a = true) :
    ¬ (a.toNat < 0x100 ∨ 0x10000000 < a.toNat) := by
  have hbounds := of_decide_eq_true h
  have hlow : 0x100 ≤ a.toNat := UInt32.le_iff_toNat_le.mp hbounds.1
  have hhigh : a.toNat ≤ 0x10000000 := UInt32.le_iff_toNat_le.mp hbounds.2
  omega

/-- An address that is written as the host was told it. -/
theorem handleWindows_addr (base : Base) (a : UInt32) :
    handleWindows (some base) (hexLong a.toNat) =
      if a.toNat < 0x100 ∨ 0x10000000 < a.toNat then "ERR|WINDOWS|Invalid screen address".toList
      else
        match base.screens.find? (·.addr.toNat = a.toNat) with
        | some scr => windowsLine scr
        | none => "ERR|WINDOWS|Screen not found at given address".toList := by
  have hne : hexLong a.toNat ≠ [] := Nat.toDigits_ne_nil
  have haddr := strtoul_hexLong a
  generalize hexLong a.toNat = args at hne haddr
  rw [← haddr]
  exact if_pos hne

theorem handleGadgets_addr (base : Base) (a : UInt32) :
    handleGadgets (some base) (hexLong a.toNat) =
      if a.toNat < 0x100 ∨ 0x10000000 < a.toNat then "ERR|GADGETS|Invalid window address".toList
      else
        match base.walked.find? (·.addr.toNat = a.toNat) with
        | some win => gadgetsLine win
        | none => "ERR|GADGETS|Window not found at given address".toList := by
  have hne : hexLong a.toNat ≠ [] := Nat.toDigits_ne_nil
  have haddr := strtoul_hexLong a
  generalize hexLong a.toNat = args at hne haddr
  rw [← haddr]
  exact if_neg hne

theorem handleWindows_shown (hscr : scr ∈ shownScreens base) :
    handleWindows (some base) (hexLong scr.addr.toNat) = windowsLine scr := by
  have hmem := mem_of_shownScreens hscr
  have hvalid := List.mem_takeWhile_imp hmem
  have hfind := find?_addr base.screens_nodup ((List.takeWhile_sublist _).subset hmem)
  rw [handleWindows_addr, if_neg (bounds_of_valid hvalid), hfind]

theorem handleGadgets_shown (hscr : scr ∈ shownScreens base) (hwin : win ∈ shownWindows scr) :
    handleGadgets (some base) (hexLong win.addr.toNat) = gadgetsLine win := by
  have hvalid := List.mem_takeWhile_imp (mem_of_shownWindows hwin)
  have hfind := find?_addr (nodup_walked base) (mem_walked hscr hwin)
  rw [handleGadgets_addr, if_neg (bounds_of_valid hvalid), hfind]

end Shown

/-! ### Answers -/

section Answers

variable (hasDbg : Bool) (now : Text)

/-- The host reads the list of screens as it is. -/
theorem published_handleScreens (base : Base) :
    published hasDbg now (handleScreens (some base)) =
      [⟨"screens", screensMsg (shownScreens base)⟩] := by
  have hlength : "SCREENS|".toList.length = 8 := rfl
  obtain ⟨text, hline, hbar, hread, hcount⟩ := exists_field (hlength.trans_le (by decide))
    free_screen screenEntry_entry rfl (base.screens.takeWhile (valid ·.addr))
  have hparse := parse_screens hcount hbar now
  rw [hread] at hparse
  refine published_of_parse (Eq.trans (congrArg _ hline) hparse) rfl

theorem length_header_le {type : Text} (htype : type.length ≤ 8) (a : UInt32) :
    (header type a).length ≤ 1024 := by
  have haddr := length_hexLong_uint32 a
  simp only [header, List.length_append, List.length_cons, List.length_nil]
  omega

theorem published_windowsLine (scr : Screen) :
    published hasDbg now (windowsLine scr) =
      [⟨"windows", windowsMsg scr (shownWindows scr)⟩] := by
  have hlength : "WINDOWS".toList.length = 7 := rfl
  obtain ⟨text, hline, hbar, hread, hcount⟩ := exists_field
    (length_header_le (hlength.trans_le (by decide)) scr.addr) free_window windowEntry_entry rfl
    (scr.windows.takeWhile (valid ·.addr))
  have hparse := parse_windows hcount hbar now scr.addr
  rw [hread] at hparse
  exact published_of_parse (Eq.trans (congrArg _ hline) hparse) rfl

theorem published_gadgetsLine (win : Window) :
    published hasDbg now (gadgetsLine win) =
      [⟨"gadgets", gadgetsMsg win (shownGadgets win)⟩] := by
  have hlength : "GADGETS".toList.length = 7 := rfl
  obtain ⟨text, hline, hbar, hread, hcount⟩ := exists_field
    (length_header_le (hlength.trans_le (by decide)) win.addr) free_gadget gadgetEntry_entry rfl
    (win.gadgets.takeWhile (valid ·.addr))
  have hparse := parse_gadgets hcount hbar now win.addr
  rw [hread] at hparse
  exact published_of_parse (Eq.trans (congrArg _ hline) hparse) rfl

variable (base : Option Base) (a : UInt32)

theorem joinBar_pair (s t : Text) : Text.joinBar [s, t] = s ++ '|' :: t := by
  rw [Text.joinBar, List.intercalate_cons_cons, List.intercalate_singleton, List.append_assoc]
  rfl

theorem ask_listScreens :
    ask hasDbg now base listScreens = published hasDbg now (handleScreens base) := rfl

theorem ask_listWindows : ask hasDbg now base (listWindows (hexLong a.toNat)) =
    published hasDbg now (handleWindows base (hexLong a.toNat)) := by
  have hline : formatCommand (listWindows (hexLong a.toNat)) =
      .ok ("LISTWINDOWS2".toList ++ '|' :: hexLong a.toNat) := by
    have hrequested : requested (listWindows (hexLong a.toNat)) =
        .ok ("LISTWINDOWS2", [.str (hexLong a.toNat)]) := rfl
    rw [formatCommand, hrequested]
    exact congrArg Except.ok (joinBar_pair _ _)
  have hname : '|' ∉ "LISTWINDOWS2".toList := by decide
  rw [ask, hline]
  simp only [answer, Text.before_append hname, Text.after?_append hname, Option.getD_some]
  rfl

theorem ask_listGadgets : ask hasDbg now base (listGadgets (hexLong a.toNat)) =
    published hasDbg now (handleGadgets base (hexLong a.toNat)) := by
  have hline : formatCommand (listGadgets (hexLong a.toNat)) =
      .ok ("LISTGADGETS".toList ++ '|' :: hexLong a.toNat) := by
    have hrequested : requested (listGadgets (hexLong a.toNat)) =
        .ok ("LISTGADGETS", [.str (hexLong a.toNat)]) := rfl
    rw [formatCommand, hrequested]
    exact congrArg Except.ok (joinBar_pair _ _)
  have hname : '|' ∉ "LISTGADGETS".toList := by decide
  rw [ask, hline]
  simp only [answer, Text.before_append hname, Text.after?_append hname, Option.getD_some]
  rfl

/-- The host reads an error as it is. -/
theorem published_error {context message : String} (hcontext : '|' ∉ context.toList)
    (hmessage : '|' ∉ message.toList) :
    published hasDbg now
        ("ERR".toList ++ '|' :: (context.toList ++ '|' :: message.toList)) =
      [⟨"err", errMsg context message⟩] := by
  have hbranch : branchOf "ERR".toList = some (.guarded fun _ _ p => parseOutcome "ERR" p) := rfl
  have hname : '|' ∉ "ERR".toList := by decide
  have hrest : rest ["ERR".toList, context.toList, message.toList] 2 = message.toList := by
    simp only [rest, List.drop_succ_cons, List.drop_zero, Text.joinBar]
    exact List.intercalate_singleton
  refine published_of_parse ?_ rfl
  rw [parseMessage, Text.splitOn_field hname, Text.splitOn_field hcontext,
    List.splitOn_eq_singleton hmessage]
  simp only [List.headD_cons, hbranch, Branch.run]
  simp only [parseOutcome, hrest, field, List.getD_cons_succ, List.getD_cons_zero]
  rfl

variable {a} {base : Base}

/-- No windows are listed for an address without a screen. -/
theorem windows_refused (h : ∀ scr ∈ base.screens, scr.addr ≠ a) :
    ∃ message, published hasDbg now (handleWindows (some base) (hexLong a.toNat)) =
      [⟨"err", errMsg "WINDOWS" message⟩] := by
  have hcontext : '|' ∉ "WINDOWS".toList := by decide
  rw [handleWindows_addr, find?_addr_eq_none h]
  split
  · have hline : "ERR|WINDOWS|Invalid screen address".toList =
        "ERR".toList ++ '|' :: ("WINDOWS".toList ++ '|' :: "Invalid screen address".toList) := rfl
    have hmessage : '|' ∉ "Invalid screen address".toList := by decide
    exact ⟨_, (congrArg _ hline).trans (published_error hasDbg now hcontext hmessage)⟩
  · have hline : "ERR|WINDOWS|Screen not found at given address".toList =
        "ERR".toList ++ '|' ::
          ("WINDOWS".toList ++ '|' :: "Screen not found at given address".toList) := rfl
    have hmessage : '|' ∉ "Screen not found at given address".toList := by decide
    exact ⟨_, (congrArg _ hline).trans (published_error hasDbg now hcontext hmessage)⟩

/-- No gadgets are listed for an address without a window. -/
theorem gadgets_refused (h : ∀ win ∈ base.walked, win.addr ≠ a) :
    ∃ message, published hasDbg now (handleGadgets (some base) (hexLong a.toNat)) =
      [⟨"err", errMsg "GADGETS" message⟩] := by
  have hcontext : '|' ∉ "GADGETS".toList := by decide
  rw [handleGadgets_addr, find?_addr_eq_none h]
  split
  · have hline : "ERR|GADGETS|Invalid window address".toList =
        "ERR".toList ++ '|' :: ("GADGETS".toList ++ '|' :: "Invalid window address".toList) := rfl
    have hmessage : '|' ∉ "Invalid window address".toList := by decide
    exact ⟨_, (congrArg _ hline).trans (published_error hasDbg now hcontext hmessage)⟩
  · have hline : "ERR|GADGETS|Window not found at given address".toList =
        "ERR".toList ++ '|' ::
          ("GADGETS".toList ++ '|' :: "Window not found at given address".toList) := rfl
    have hmessage : '|' ∉ "Window not found at given address".toList := by decide
    exact ⟨_, (congrArg _ hline).trans (published_error hasDbg now hcontext hmessage)⟩

end Answers

end AmigaDevbench.Intuition
