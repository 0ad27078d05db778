import AmigaDevbench.Daemon.Processes
import AmigaDevbench.Link.Replies

/-!
# Lists of records from the daemon to the host

Processes, assigns, hooks and memory regions are listed on one line each. Their fields stand behind
each other with colons between them, and nothing is escaped. Which texts come back depends on where
in its record a field stands.
-/

namespace AmigaDevbench.Records

open Daemon Protocol Replies

/-! ### The fields of an entry -/

theorem free_decimal (n : Nat) : (decimal n).Free [',', '|'] := by
  intro c hc hsep
  have hdigit := CNumber.isDigit_of_mem_toDigits hc
  rcases List.mem_pair.mp hsep with rfl | rfl <;> exact absurd hdigit (by decide)

theorem free_longText (n : Int) : (Client.longText n).Free [',', '|'] := by
  intro c hc hsep
  rcases List.mem_pair.mp hsep with rfl | rfl <;>
    exact notMem_longText (by decide) (by decide) hc

theorem head_longText {n : Int} {c : Char} (h : c ∈ (Client.longText n).head?) :
    Py.isSpace c = false := by
  by_contra hspace
  rw [Bool.not_eq_false] at hspace
  refine notMem_longText (n := n) (c := c) ?_ ?_ (List.mem_of_mem_head? h)
  · exact Bool.eq_false_iff.mpr fun hdigit =>
      absurd (Py.isSpace_of_isDigit hdigit) (by simp [hspace])
  · rintro rfl
    exact absurd hspace (by decide)

section Free

variable {s t : Text}

theorem free_iff : s.Free [':', ',', '|'] ↔ ':' ∉ s ∧ s.Free [',', '|'] := by
  constructor
  · intro h
    exact ⟨fun hmem => absurd (h ':' hmem) (by decide),
      fun c hc hsep => h c hc (List.mem_cons_of_mem _ hsep)⟩
  · rintro ⟨hcolon, h⟩ c hc hsep
    rcases List.mem_cons.mp hsep with rfl | hsep
    · exact hcolon hc
    · exact h c hc hsep

/-- Three fields, the first two without colons. -/
theorem splitMax_fields {a b t : Text} (ha : ':' ∉ a) (hb : ':' ∉ b) (n : Nat) :
    Text.splitMax ':' (n + 2) (a ++ ':' :: (b ++ ':' :: t)) = a :: b :: Text.splitMax ':' n t := by
  rw [Text.splitMax_append ha, Text.splitMax_append hb]

/-- A text with three fields or more has two without colons in front of the others. -/
theorem exists_fields {n : Nat} (h : 3 ≤ (Text.splitMax ':' (n + 2) s).length) :
    ∃ a b t, ':' ∉ a ∧ ':' ∉ b ∧ s = a ++ ':' :: (b ++ ':' :: t) ∧
      Text.splitMax ':' (n + 2) s = a :: b :: Text.splitMax ':' n t := by
  rcases Text.splitMax_cases ':' (n + 1) s with ⟨-, hone⟩ | ⟨a, t, ha, rfl, htwo⟩
  · rw [hone, List.length_singleton] at h
    exact absurd h (by decide)
  · rcases Text.splitMax_cases ':' n t with ⟨-, hone⟩ | ⟨b, t, hb, rfl, -⟩
    · rw [htwo, hone, List.length_cons, List.length_singleton] at h
      exact absurd h (by decide)
    · exact ⟨a, b, t, ha, hb, rfl, splitMax_fields ha hb n⟩

/-- The first field, of however many. -/
theorem exists_first (n : Nat) (s : Text) : ∃ a rest, ':' ∉ a ∧
    (Text.splitMax ':' (n + 1) s).headD [] = a ∧ (s = a ∨ s = a ++ ':' :: rest) := by
  rcases Text.splitMax_cases ':' n s with ⟨hs, hone⟩ | ⟨a, t, ha, hs, htwo⟩
  · exact ⟨s, [], hs, by rw [hone]; rfl, .inl rfl⟩
  · exact ⟨a, t, ha, by rw [htwo]; rfl, .inr hs⟩

end Free

/-! ### Processes -/

/-- The host cuts the command off at its first separator. -/
def ReadableProc (p : TrackedProc) : Prop := p.command.val.Free [':', ',', '|']

instance : DecidablePred ReadableProc := fun p =>
  inferInstanceAs (Decidable (p.command.val.Free _))

/-- A process on the host. -/
def procVal (p : TrackedProc) : Val :=
  .dict [("id", .int p.id), ("command", .str p.command.val), ("status", .str "running".toList)]

def procFormat : RecordFormat TrackedProc Val Py.isSpace where
  write := TrackedProc.entry
  read := procEntry
  value := procVal
  Readable := ReadableProc
  write_ne_nil := TrackedProc.entry_ne_nil
  piece_write p h := by
    refine .of_fields (free_longText p.id) ?_ (by decide) (by decide)
      (fun c => head_longText) fun c hc => ?_
    · exact Text.free_append.mpr ⟨(free_iff.mp h).2, by decide⟩
    · rw [List.getLast?_append] at hc
      obtain rfl : 'g' = c := Option.some.inj hc
      decide
  read_write p h := by
    have hparts : Text.splitMax ':' 2 p.entry =
        [Client.longText p.id, p.command.val, "running".toList] :=
      splitMax_fields (notMem_longText (by decide) (by decide)) (free_iff.mp h).1 0
    have hid : int (Client.longText p.id) = p.id := int_longText p.id_ge p.id_lt
    rw [procEntry]
    simp only [hparts]
    rw [if_pos ⟨p.entry_ne_nil, Nat.le_refl 3⟩]
    simp only [num, field, List.getD_cons_zero, List.getD_cons_succ, hid, procVal]
  readable_of_read p s hs h := by
    rw [procEntry] at h
    split at h
    · next hlen =>
      obtain ⟨id, command, t, -, hcolon, rfl, hparts⟩ := exists_fields hlen.2
      rw [hparts] at h
      have hcommand : command = p.command.val := by
        have hval := Val.dict.inj (Option.some.inj h)
        simp only [field, List.getD_cons_zero, List.getD_cons_succ, List.cons.injEq,
          Prod.mk.injEq, Val.str.injEq] at hval
        exact hval.2.1.2
      rw [ReadableProc, ← hcommand]
      exact free_iff.mpr ⟨hcolon, (Text.free_append.mp hs.right.1).1⟩
    · cases h

/-! ### Assigns -/

/-- The name of an assign stands in front and keeps no blanks; its path has no colons any more. -/
structure ReadableAssign (node : AssignNode) : Prop where
  name : node.info.name.val.Free [':', ',', '|']
  head : ∀ c ∈ node.info.name.val.head?, Py.isSpace c = false
  path : node.info.path.val.Free [',', '|']

/-- An assign on the host. -/
def assignVal (node : AssignNode) : Val :=
  .dict [("name", .str node.info.name.val), ("path", .str node.info.path.val),
    ("assignType", .str [node.info.atype])]

theorem colon_notMem_path (node : AssignNode) : ':' ∉ node.info.path.val := by
  intro hmem
  obtain ⟨c, -, hc⟩ := List.mem_map.mp hmem
  split at hc
  · exact absurd hc (by decide)
  · next hne => exact hne hc

/-- The type is one letter, and none that a reader takes for something else. -/
theorem atype_plain (node : AssignNode) :
    Text.Free [',', '|'] [node.info.atype] ∧ Py.isSpace node.info.atype = false := by
  have hletter : node.info.atype ∈ ['A', 'L', 'N', '?'] := by
    change node.target.atype ∈ ['A', 'L', 'N', '?']
    cases node.target <;> simp [AssignTarget.atype]
  have hall : ∀ c ∈ ['A', 'L', 'N', '?'], Text.Free [',', '|'] [c] ∧ Py.isSpace c = false := by
    decide
  exact hall _ hletter

def assignFormat : RecordFormat AssignNode Val Py.isSpace where
  write node := node.info.entry
  read := assignEntry
  value := assignVal
  Readable := ReadableAssign
  write_ne_nil node := List.append_ne_nil_of_right_ne_nil _ (List.cons_ne_nil _ _)
  piece_write node h := by
    obtain ⟨hfree, hblank⟩ := atype_plain node
    refine .of_fields (free_iff.mp h.name).2 ?_ (by decide) (by decide) h.head fun c hc => ?_
    · exact Text.free_append.mpr ⟨h.path, Text.free_cons.mpr ⟨by decide, hfree⟩⟩
    · rw [List.getLast?_append] at hc
      exact Option.some.inj hc ▸ hblank
  read_write node h := by
    have hne : node.info.entry ≠ [] := List.append_ne_nil_of_right_ne_nil _ (List.cons_ne_nil _ _)
    have hparts : Text.splitMax ':' 2 node.info.entry =
        [node.info.name.val, node.info.path.val, [node.info.atype]] :=
      splitMax_fields (free_iff.mp h.name).1 (colon_notMem_path node) 0
    rw [assignEntry, if_neg hne]
    simp only [hparts]
    rfl
  readable_of_read node s hs h := by
    have hpath : ∀ a b t, ':' ∉ a → s = a ++ ':' :: (b ++ ':' :: t) →
        a = node.info.name.val → b = node.info.path.val → ReadableAssign node := by
      rintro a b t hcolon rfl ha hb
      exact ⟨ha ▸ free_iff.mpr ⟨hcolon, hs.left.1⟩, ha ▸ hs.left.2,
        hb ▸ (Text.free_append.mp hs.right.1).1⟩
    rw [assignEntry] at h
    simp only at h
    split at h
    · cases h
    · split at h
      · next hlen =>
        obtain ⟨a, b, t, hcolon, -, hsplit, hparts⟩ := exists_fields hlen
        rw [hparts] at h
        have hval := Val.dict.inj (Option.some.inj h)
        simp only [field, List.getD_cons_zero, List.getD_cons_succ, List.cons.injEq,
          Prod.mk.injEq, Val.str.injEq] at hval
        exact hpath a b t hcolon hsplit hval.1.2 hval.2.1.2
      · obtain ⟨a, rest, hcolon, hfirst, hsplit⟩ := exists_first 1 s
        have hval := Val.dict.inj (Option.some.inj h)
        simp only [field, List.cons.injEq, Prod.mk.injEq, Val.str.injEq] at hval
        have ha : a = node.info.name.val := by
          rw [← hfirst, List.headD_eq_getD]
          exact hval.1.2
        have hempty : node.info.path.val = [] := hval.2.1.2.symm
        rcases hsplit with rfl | rfl
        · exact ⟨ha ▸ free_iff.mpr ⟨hcolon, hs.free⟩, ha ▸ hs.head,
            by rw [hempty]; exact fun c hc => absurd hc List.not_mem_nil⟩
        · exact ⟨ha ▸ free_iff.mpr ⟨hcolon, hs.left.1⟩, ha ▸ hs.left.2,
            by rw [hempty]; exact fun c hc => absurd hc List.not_mem_nil⟩

/-! ### Hooks and memory regions -/

/-- A name in front and a description at the end of an entry. -/
structure ReadableEnds (name description : Text) : Prop where
  freeName : name.Free [':', ',', '|']
  head : ∀ c ∈ name.head?, Py.isSpace c = false
  freeDescription : description.Free [',', '|']
  last : ∀ c ∈ description.getLast?, Py.isSpace c = false

/-- A hook on the host. -/
def hookVal (h : HookInfo) : Val :=
  .dict [("name", .str h.name), ("description", .str h.description)]

def hookFormat : RecordFormat HookInfo Val Py.isSpace where
  write h := h.name ++ ':' :: h.description
  read := hookEntry
  value := hookVal
  Readable h := ReadableEnds h.name h.description
  write_ne_nil h := List.append_ne_nil_of_right_ne_nil _ (List.cons_ne_nil _ _)
  piece_write h hread :=
    .of_fields (free_iff.mp hread.freeName).2 hread.freeDescription (by decide) (by decide)
      hread.head hread.last
  read_write h hread := by
    have hcolon := (free_iff.mp hread.freeName).1
    rw [hookEntry, Text.after?_append hcolon, Text.before_append hcolon]
    rfl
  readable_of_read h s hs hread := by
    rw [hookEntry] at hread
    rcases Text.splitMax_cases ':' 0 s with ⟨hcolon, -⟩ | ⟨a, t, hcolon, rfl, -⟩
    · rw [Text.after?_eq_none hcolon] at hread
      simp only at hread
      split at hread
      · cases hread
      · have hval := Val.dict.inj (Option.some.inj hread)
        simp only [List.cons.injEq, Prod.mk.injEq, Val.str.injEq] at hval
        obtain ⟨⟨-, hname⟩, ⟨-, hdesc⟩, -⟩ := hval
        refine ⟨hname ▸ free_iff.mpr ⟨hcolon, hs.free⟩, hname ▸ hs.head,
          hdesc ▸ fun c hc => absurd hc List.not_mem_nil, ?_⟩
        rw [← hdesc]
        rintro c ⟨⟩
    · rw [Text.after?_append hcolon, Text.before_append hcolon] at hread
      have hval := Val.dict.inj (Option.some.inj hread)
      simp only [List.cons.injEq, Prod.mk.injEq, Val.str.injEq] at hval
      obtain ⟨⟨-, hname⟩, ⟨-, hdesc⟩, -⟩ := hval
      exact ⟨hname ▸ free_iff.mpr ⟨hcolon, hs.left.1⟩, hname ▸ hs.left.2, hdesc ▸ hs.right.1,
        hdesc ▸ hs.right.2⟩

/-- A memory region of a client: address and size are 32 bits wide. -/
abbrev Region : Type := { m : MemRegInfo // m.addr < 2 ^ 32 ∧ m.size < 2 ^ 32 }

/-- A memory region on the host. -/
def memregVal (m : MemRegInfo) : Val :=
  .dict [("name", .str m.name), ("address", .str (hex8 m.addr)), ("size", .int m.size),
    ("description", .str m.description)]

theorem free_hex8 (n : Nat) : (hex8 n).Free [':', ',', '|'] := by
  have hdigit : ∀ c ∈ [':', ',', '|'], Py.isDigitOf 16 c = false := by decide
  intro c hc hsep
  rcases List.mem_append.mp hc with hc | hc
  · rw [List.eq_of_mem_replicate hc] at hsep
    exact absurd hsep (by decide)
  · have hhex := Py.isDigitOf_of_mem_toDigits (by decide) (by decide) hc
    rw [hdigit c hsep] at hhex
    cases hhex

theorem le_length_hex8 (n : Nat) : 8 ≤ (hex8 n).length := by
  rw [hex8, List.length_append, List.length_replicate]
  omega

theorem length_hex8_le {n : Nat} (h : n < 2 ^ 32) : (hex8 n).length ≤ 8 := by
  have hdigits : (Nat.toDigits 16 n).length ≤ 8 := by
    rw [Nat.length_toDigits_le_iff (by decide) (by decide)]
    omega
  rw [hex8, List.length_append, List.length_replicate]
  omega

theorem colon_notMem_decimal (n : Nat) : ':' ∉ decimal n := by
  intro h
  exact absurd (CNumber.isDigit_of_mem_toDigits h) (by decide)

/-- `"%s:%08lx:%lu:%s"`. -/
def regionText (m : MemRegInfo) : Text :=
  m.name ++ ':' :: (hex8 m.addr ++ ':' :: (decimal m.size ++ ':' :: m.description))

def memregFormat : RecordFormat Region Val Py.isSpace where
  write m := regionText m.val
  read := memregEntry
  value m := memregVal m.val
  Readable m := ReadableEnds m.val.name m.val.description
  write_ne_nil m := List.append_ne_nil_of_right_ne_nil _ (List.cons_ne_nil _ _)
  piece_write m h := by
    have hsize : Piece Py.isSpace (decimal m.val.size ++ ':' :: m.val.description) :=
      .of_fields (free_decimal _) h.freeDescription (by decide) (by decide)
        (fun c hc => Py.isSpace_of_isDigit
          (CNumber.isDigit_of_mem_toDigits (List.mem_of_mem_head? hc))) h.last
    have haddr : Text.Free [',', '|'] (hex8 m.val.addr ++ ':' ::
        (decimal m.val.size ++ ':' :: m.val.description)) :=
      Text.free_append.mpr
        ⟨(free_iff.mp (free_hex8 _)).2, Text.free_cons.mpr ⟨by decide, hsize.free⟩⟩
    refine .of_fields (free_iff.mp h.freeName).2 haddr (by decide) (by decide) h.head fun c hc => ?_
    rw [List.getLast?_append, List.getLast?_cons] at hc
    cases hlast : (decimal m.val.size ++ ':' :: m.val.description).getLast? with
    | none =>
      rw [List.getLast?_eq_none_iff] at hlast
      exact absurd hlast (List.append_ne_nil_of_right_ne_nil _ (List.cons_ne_nil _ _))
    | some d =>
      rw [hlast] at hc
      exact Option.some.inj hc ▸ hsize.last d hlast
  read_write m h := by
    have hparts : Text.splitMax ':' 3 (regionText m.val) =
        [m.val.name, hex8 m.val.addr, decimal m.val.size, m.val.description] := by
      rw [regionText, splitMax_fields (free_iff.mp h.freeName).1 (free_iff.mp (free_hex8 _)).1 1,
        Text.splitMax_append (colon_notMem_decimal _)]
      rfl
    rw [memregEntry]
    simp only [hparts]
    rw [if_pos (by simp only [List.length_cons]; omega)]
    simp only [num, field, List.getD_cons_zero, List.getD_cons_succ, int_decimal m.property.2,
      memregVal]
  readable_of_read m s hs h := by
    rw [memregEntry] at h
    split at h
    · next hlen =>
      obtain ⟨a, b, t, hcolon, -, rfl, hparts⟩ := exists_fields hlen
      rw [hparts] at h
      have hval := Val.dict.inj (Option.some.inj h)
      simp only [field, List.getD_cons_zero, List.getD_cons_succ, List.cons.injEq,
        Prod.mk.injEq, Val.str.injEq] at hval
      obtain ⟨⟨-, hname⟩, -, -, ⟨-, hdesc⟩, -⟩ := hval
      have hend : m.val.description.Free [',', '|'] ∧
          ∀ c ∈ m.val.description.getLast?, Py.isSpace c = false := by
        rcases Text.splitMax_cases ':' 0 t with ⟨-, hone⟩ | ⟨size, description, -, rfl, htwo⟩
        · rw [hone, List.getD_cons_succ, List.getD_nil] at hdesc
          rw [← hdesc]
          exact ⟨fun c hc => absurd hc List.not_mem_nil, by rintro c ⟨⟩⟩
        · rw [htwo, List.getD_cons_succ] at hdesc
          have hassoc : a ++ ':' :: (b ++ ':' :: (size ++ ':' :: description)) =
              (a ++ ':' :: (b ++ ':' :: size)) ++ ':' :: description := by
            simp only [List.append_assoc, List.cons_append]
          rw [hassoc] at hs
          exact hdesc ▸ hs.right
      exact ⟨hname ▸ free_iff.mpr ⟨hcolon, hs.left.1⟩, hname ▸ hs.left.2, hend.1, hend.2⟩
    · split at h
      · cases h
      · have hval := Val.dict.inj (Option.some.inj h)
        simp only [List.cons.injEq, Prod.mk.injEq, Val.str.injEq] at hval
        have hlen := le_length_hex8 m.val.addr
        rw [← hval.2.1.2] at hlen
        exact absurd hlen (by decide)

/-! ### The lines -/

/-- A PROCLIST message. -/
def procsMsg (count : Nat) (processes : List Val) : Dict :=
  [("type", .str "PROCLIST".toList), ("count", .int count), ("processes", .list processes)]

/-- An ASSIGNS message. -/
def assignsMsg (count : Nat) (assigns : List Val) : Dict :=
  [("type", .str "ASSIGNS".toList), ("count", .int count), ("assigns", .list assigns)]

/-- A HOOKS message. -/
def hooksMsg (client : Text) (count : Nat) (hooks : List Val) : Dict :=
  [("type", .str "HOOKS".toList), ("client", .str client), ("count", .int count),
    ("hooks", .list hooks)]

/-- A MEMREGS message. -/
def memregsMsg (client : Text) (count : Nat) (memregs : List Val) : Dict :=
  [("type", .str "MEMREGS".toList), ("client", .str client), ("count", .int count),
    ("memregs", .list memregs)]

section Lines

variable (now : Text)

theorem parseMessage_proclist {count : Nat} (h : count < 2 ^ 32) (text : Text) :
    parseMessage now ("PROCLIST|".toList ++ (decimal count ++ '|' :: text)) =
      .ok (some (procsMsg count (procFormat.readAll text))) := by
  have hline : "PROCLIST|".toList ++ (decimal count ++ '|' :: text) =
      "PROCLIST".toList ++ '|' :: (decimal count ++ '|' :: text) := rfl
  have hbranch : branchOf "PROCLIST".toList = some (.guarded fun _ _ p => parseProclist p) := rfl
  rw [hline, parseMessage, Text.splitOn_field (by decide),
    Text.splitOn_field (bar_notMem_decimal _)]
  simp only [List.headD_cons, hbranch, Branch.run, parseProclist, num, List.getD_cons_succ,
    List.getD_cons_zero, int_decimal h]
  rfl

theorem parseMessage_assigns {count : Nat} (h : count < 2 ^ 32) (text : Text) :
    parseMessage now ("ASSIGNS|".toList ++ (decimal count ++ '|' :: text)) =
      .ok (some (assignsMsg count (assignFormat.readAll text))) := by
  have hline : "ASSIGNS|".toList ++ (decimal count ++ '|' :: text) =
      "ASSIGNS".toList ++ '|' :: (decimal count ++ '|' :: text) := rfl
  have hbranch : branchOf "ASSIGNS".toList = some (.guarded fun _ _ p => parseAssigns p) := rfl
  rw [hline, parseMessage, Text.splitOn_field (by decide),
    Text.splitOn_field (bar_notMem_decimal _)]
  simp only [List.headD_cons, hbranch, Branch.run, parseAssigns, num, List.getD_cons_succ,
    List.getD_cons_zero, int_decimal h]
  rfl

theorem procsMsg_inj {count count' : Nat} {list list' : List Val} :
    procsMsg count list = procsMsg count' list' ↔ count = count' ∧ list = list' := by
  simp [procsMsg, Int.natCast_inj]

theorem assignsMsg_inj {count count' : Nat} {list list' : List Val} :
    assignsMsg count list = assignsMsg count' list' ↔ count = count' ∧ list = list' := by
  simp [assignsMsg, Int.natCast_inj]

/-! ### What reaches the host -/

/-- The host reads the table of processes off the line. -/
def ProcsSurvive (t : ProcTable) : Prop :=
  parseMessage now (procList t) =
    .ok (some (procsMsg t.procs.entries.length (t.procs.entries.map procVal)))

/-- The host reads the list of assigns off the line. -/
def AssignsSurvive (nodes : List AssignNode) : Prop :=
  parseMessage now (sysListAssigns nodes) =
    .ok (some (assignsMsg nodes.length (nodes.map assignVal)))

/-- The host reads the hooks of a client off the line. -/
def HooksSurvive (ce : ClientEntry) : Prop :=
  parseMessage now (Registry.hooksLine ce) =
    .ok (some (hooksMsg ce.name.chars ce.hooks.length (ce.hooks.map hookVal)))

/-- The host reads the memory regions of a client off the line. -/
def MemregsSurvive (ce : ClientEntry) : Prop :=
  parseMessage now (Registry.memregsLine ce) =
    .ok (some (memregsMsg ce.name.chars ce.memregs.length (ce.memregs.map memregVal)))

/-- The table of processes always fits, so it comes back exactly if each command does. -/
theorem procsSurvive_iff (t : ProcTable) :
    ProcsSurvive now t ↔ ∀ p ∈ t.procs.entries, ReadableProc p := by
  have hcount : t.procs.entries.length ≤ 16 := Slots.length_entries_le
  rw [ProcsSurvive, procList_eq, parseMessage_proclist now (by omega), Except.ok.injEq,
    Option.some.injEq, procsMsg_inj, and_iff_right rfl]
  exact procFormat.readAll_writeAll_iff _

/-- Assigns come back exactly if they fit into the line and each of them does. -/
theorem assignsSurvive_iff (nodes : List AssignNode) :
    AssignsSurvive now nodes ↔
      AllFit "ASSIGNS|".toList (nodes.map fun node => node.info.entry) ∧
        ∀ node ∈ nodes, ReadableAssign node := by
  have hne : ∀ entry ∈ nodes.map fun node => node.info.entry, entry ≠ [] := by
    intro entry hmem
    obtain ⟨node, -, rfl⟩ := List.mem_map.mp hmem
    exact assignFormat.write_ne_nil node
  by_cases hfits : AllFit "ASSIGNS|".toList (nodes.map fun node => node.info.entry)
  · have hcount := Text.length_le_length_intercalate (c := ',') hne
    rw [List.length_map] at hcount
    have hroom := hfits
    rw [AllFit, maxLine] at hroom
    rw [AssignsSurvive, sysListAssigns, countedLine_of_fits hne hfits, List.length_map,
      parseMessage_assigns now (by omega), Except.ok.injEq, Option.some.injEq, assignsMsg_inj,
      and_iff_right rfl, and_iff_right hfits]
    exact assignFormat.readAll_writeAll_iff nodes
  · obtain ⟨count, hless, hcount, text, hline⟩ := countedLine_of_not_fits (by decide) hne hfits
    rw [List.length_map] at hless
    rw [AssignsSurvive, sysListAssigns, hline, parseMessage_assigns now (by omega), Except.ok.injEq,
      Option.some.injEq, assignsMsg_inj]
    exact iff_of_false (fun h => absurd h.1 (by omega)) (fun h => hfits h.1)

/-- A line of a client, by its fields. -/
theorem parseMessage_hooks {client : Text} (h : '|' ∉ client) {count : Nat}
    (hcount : count < 2 ^ 32) (text : Text) :
    parseMessage now ("HOOKS".toList ++ '|' :: (client ++ '|' :: (decimal count ++ '|' :: text))) =
      .ok (some (hooksMsg client count (hookFormat.readAll text))) := by
  have hbranch : branchOf "HOOKS".toList = some (.guarded fun _ _ p => parseHooks p) := rfl
  rw [parseMessage, Text.splitOn_field (by decide), Text.splitOn_field h,
    Text.splitOn_field (bar_notMem_decimal _)]
  simp only [List.headD_cons, hbranch, Branch.run, parseHooks, num, List.getD_cons_succ,
    List.getD_cons_zero, int_decimal hcount]
  rfl

theorem parseMessage_memregs {client : Text} (h : '|' ∉ client) {count : Nat}
    (hcount : count < 2 ^ 32) (text : Text) :
    parseMessage now ("MEMREGS".toList ++ '|' ::
        (client ++ '|' :: (decimal count ++ '|' :: text))) =
      .ok (some (memregsMsg client count (memregFormat.readAll text))) := by
  have hbranch : branchOf "MEMREGS".toList = some (.guarded fun _ _ p => parseMemregs p) := rfl
  rw [parseMessage, Text.splitOn_field (by decide), Text.splitOn_field h,
    Text.splitOn_field (bar_notMem_decimal _)]
  simp only [List.headD_cons, hbranch, Branch.run, parseMemregs, num, List.getD_cons_succ,
    List.getD_cons_zero, int_decimal hcount]
  rfl

/-- The client that the host reads has no bar. -/
theorem bar_notMem_of_hooks {rest client : Text} {count : Nat} {hooks : List Val}
    (h : parseMessage now ("HOOKS".toList ++ '|' :: rest) =
      .ok (some (hooksMsg client count hooks))) : '|' ∉ client := by
  have hbranch : branchOf "HOOKS".toList = some (.guarded fun _ _ p => parseHooks p) := rfl
  rw [parseMessage, Text.splitOn_field (by decide)] at h
  simp only [List.headD_cons, hbranch, Branch.run, parseHooks, hooksMsg, field,
    List.getD_cons_succ, Except.ok.injEq, Option.some.injEq, List.cons.injEq, Prod.mk.injEq,
    Val.str.injEq] at h
  rw [← h.2.1.2]
  exact Text.notMem_getD_splitOn '|' rest

theorem bar_notMem_of_memregs {rest client : Text} {count : Nat} {memregs : List Val}
    (h : parseMessage now ("MEMREGS".toList ++ '|' :: rest) =
      .ok (some (memregsMsg client count memregs))) : '|' ∉ client := by
  have hbranch : branchOf "MEMREGS".toList = some (.guarded fun _ _ p => parseMemregs p) := rfl
  rw [parseMessage, Text.splitOn_field (by decide)] at h
  simp only [List.headD_cons, hbranch, Branch.run, parseMemregs, memregsMsg, field,
    List.getD_cons_succ, Except.ok.injEq, Option.some.injEq, List.cons.injEq, Prod.mk.injEq,
    Val.str.injEq] at h
  rw [← h.2.1.2]
  exact Text.notMem_getD_splitOn '|' rest

theorem hooksMsg_inj {client client' : Text} {count count' : Nat} {list list' : List Val} :
    hooksMsg client count list = hooksMsg client' count' list' ↔
      client = client' ∧ count = count' ∧ list = list' := by
  simp [hooksMsg, Int.natCast_inj]

theorem memregsMsg_inj {client client' : Text} {count count' : Nat} {list list' : List Val} :
    memregsMsg client count list = memregsMsg client' count' list' ↔
      client = client' ∧ count = count' ∧ list = list' := by
  simp [memregsMsg, Int.natCast_inj]

/-- The hooks of a client always fit. -/
theorem hooksLine_eq {ce : ClientEntry} (h : Held ce) :
    Registry.hooksLine ce = "HOOKS".toList ++ '|' :: (ce.name.chars ++ '|' ::
      (decimal ce.hooks.length ++ '|' :: hookFormat.writeAll ce.hooks)) := by
  have hlen : ∀ entry ∈ ce.hooks.map fun h => h.name ++ ':' :: h.description,
      entry.length ≤ 97 := by
    intro entry hmem
    obtain ⟨hook, hhook, rfl⟩ := List.mem_map.mp hmem
    have hbounds := h.hooks hook hhook
    rw [List.length_append, List.length_cons]
    omega
  have htotal := Text.length_intercalate_le (c := ',') hlen
  have hcount : ce.hooks.length ≤ 16 := h.hooks_le
  have hname := ce.name.length_le
  have hdigits := length_decimal_le (n := ce.hooks.length) (by omega)
  have hheader : "HOOKS|".toList.length = 6 := rfl
  rw [List.length_map] at htotal
  rw [Registry.hooksLine, writeEntries_of_fits]
  · simp only [List.append_assoc, List.cons_append, List.nil_append]
    rfl
  · simp only [List.length_append, List.length_cons, List.length_nil, hheader, maxLine]
    omega

theorem memregsLine_eq {ce : ClientEntry} (h : Held ce) :
    Registry.memregsLine ce = "MEMREGS".toList ++ '|' :: (ce.name.chars ++ '|' ::
      (decimal ce.memregs.length ++ '|' :: [','].intercalate (ce.memregs.map regionText))) := by
  have hlen : ∀ entry ∈ ce.memregs.map regionText, entry.length ≤ 117 := by
    intro entry hmem
    obtain ⟨m, hm, rfl⟩ := List.mem_map.mp hmem
    obtain ⟨hname, hdesc, haddr, hsize⟩ := h.memregs m hm
    have haddr := length_hex8_le haddr
    have hsize := length_decimal_le hsize
    simp only [regionText, List.length_append, List.length_cons]
    omega
  have htotal := Text.length_intercalate_le (c := ',') hlen
  have hcount : ce.memregs.length ≤ 8 := h.memregs_le
  have hname := ce.name.length_le
  have hdigits := length_decimal_le (n := ce.memregs.length) (by omega)
  have hheader : "MEMREGS|".toList.length = 8 := rfl
  rw [List.length_map] at htotal
  rw [Registry.memregsLine, writeEntries_of_fits]
  · simp only [List.append_assoc, List.cons_append, List.nil_append]
    rfl
  · simp only [List.length_append, List.length_cons, List.length_nil, hheader, maxLine]
    change _ + ([','].intercalate (ce.memregs.map regionText)).length < _
    omega

theorem hooksSurvive_iff {ce : ClientEntry} (h : Held ce) :
    HooksSurvive now ce ↔
      '|' ∉ ce.name.chars ∧ ∀ hook ∈ ce.hooks, ReadableEnds hook.name hook.description := by
  have hcount : ce.hooks.length ≤ 16 := h.hooks_le
  rw [HooksSurvive, hooksLine_eq h]
  constructor
  · intro hparse
    have hbar := bar_notMem_of_hooks now hparse
    rw [parseMessage_hooks now hbar (by omega), Except.ok.injEq, Option.some.injEq,
      hooksMsg_inj] at hparse
    exact ⟨hbar, hookFormat.readable_of_readAll hparse.2.2⟩
  · rintro ⟨hbar, hread⟩
    rw [parseMessage_hooks now hbar (by omega), hookFormat.readAll_writeAll hread]
    rfl

theorem memregsSurvive_iff {ce : ClientEntry} (h : Held ce) :
    MemregsSurvive now ce ↔
      '|' ∉ ce.name.chars ∧ ∀ m ∈ ce.memregs, ReadableEnds m.name m.description := by
  have hcount : ce.memregs.length ≤ 8 := h.memregs_le
  obtain ⟨regions, hregions⟩ : ∃ regions : List Region, regions.map Subtype.val = ce.memregs :=
    ⟨ce.memregs.attachWith _ fun m hm => (h.memregs m hm).2.2, List.attachWith_map_subtype_val _⟩
  have hwrite : [','].intercalate (ce.memregs.map regionText) = memregFormat.writeAll regions := by
    rw [← hregions, List.map_map]
    rfl
  have hvalue : ce.memregs.map memregVal = regions.map memregFormat.value := by
    rw [← hregions, List.map_map]
    rfl
  have hread : (∀ m ∈ ce.memregs, ReadableEnds m.name m.description) ↔
      ∀ m ∈ regions, memregFormat.Readable m := by
    rw [← hregions, List.forall_mem_map]
    rfl
  rw [MemregsSurvive, memregsLine_eq h, hwrite, hvalue, hread]
  constructor
  · intro hparse
    have hbar := bar_notMem_of_memregs now hparse
    rw [parseMessage_memregs now hbar (by omega), Except.ok.injEq, Option.some.injEq,
      memregsMsg_inj] at hparse
    exact ⟨hbar, memregFormat.readable_of_readAll hparse.2.2⟩
  · rintro ⟨hbar, hread⟩
    rw [parseMessage_memregs now hbar (by omega), memregFormat.readAll_writeAll hread]

end Lines

/-- Processes come back exactly if no command has a separator, assigns exactly if they fit into
the line and their names and paths come back, and the hooks and memory regions of a client exactly
if its name has no bar and their names and descriptions come back. -/
theorem recordLists_survive_iff (now : Text) :
    (∀ t : ProcTable, ProcsSurvive now t ↔ ∀ p ∈ t.procs.entries, ReadableProc p) ∧
    (∀ nodes : List AssignNode, AssignsSurvive now nodes ↔
      AllFit "ASSIGNS|".toList (nodes.map fun node => node.info.entry) ∧
        ∀ node ∈ nodes, ReadableAssign node) ∧
    ∀ ce : { ce : ClientEntry // Held ce },
      (HooksSurvive now ce.val ↔ '|' ∉ ce.val.name.chars ∧
        ∀ hook ∈ ce.val.hooks, ReadableEnds hook.name hook.description) ∧
      (MemregsSurvive now ce.val ↔ '|' ∉ ce.val.name.chars ∧
        ∀ m ∈ ce.val.memregs, ReadableEnds m.name m.description) :=
  ⟨procsSurvive_iff now, assignsSurvive_iff now,
    fun ce => ⟨hooksSurvive_iff now ce.property, memregsSurvive_iff now ce.property⟩⟩

/-- A program on a volume, and a hook whose description has a comma. -/
theorem recordLists_not_survive :
    ¬ ProcsSurvive [] (ProcTable.initial.procTrack "DH0:tool".toList) ∧
      ∃ ce, Held ce ∧
        ¬ HooksSurvive [] (ClientEntry.addHook ce "reset".toList "Reset, then run".toList) := by
  constructor
  · rw [procsSurvive_iff]
    intro h
    have hread := h _ (List.mem_singleton_self _)
    exact absurd hread (by decide)
  · have hempty : Held ⟨1, .register "app".toList, 1, [], [], []⟩ :=
      ⟨Nat.zero_le _, fun _ hmem => absurd hmem List.not_mem_nil, Nat.zero_le _,
        fun _ hmem => absurd hmem List.not_mem_nil⟩
    refine ⟨_, hempty, ?_⟩
    rw [hooksSurvive_iff [] (hempty.addHook _ _)]
    rintro ⟨-, h⟩
    have hread := (h _ (List.mem_singleton_self _)).freeDescription
    exact absurd hread (by decide)

end AmigaDevbench.Records
