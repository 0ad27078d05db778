import AmigaDevbench.Client.Variables
import AmigaDevbench.Core.Records
import AmigaDevbench.Core.Slots
import AmigaDevbench.Daemon.Entries

/-!
# Processes and assigns on the daemon

Both listings are written entry by entry as long as they fit into the buffer, behind room for the
number of entries, which is filled in at the end.
-/

namespace AmigaDevbench.Daemon

open CText CNumber

/-! ### Lists behind a number -/

/-- The number of entries is put in front of them; where it is longer than the room that was
reserved, over them. -/
def patchCount (reserved : Nat) (countStr text : Text) : Text :=
  if countStr.length ≤ reserved then countStr ++ text
  else (countStr ++ text.drop (countStr.length - reserved)).take (reserved + text.length)

/-- The entries behind what is in the buffer, each after the first behind a comma, up to the first
that does not fit in front of the limit, and the number of those that did. -/
def appendEntries (limit : Nat) : Nat → Text → List Text → Text × Nat
  | count, buf, [] => (buf, count)
  | count, buf, entry :: entries =>
    if 0 < count ∧ limit ≤ buf.length + 1 then (buf, count)
    else
      let buf := if 0 < count then buf ++ [','] else buf
      if limit ≤ buf.length + entry.length then (buf, count)
      else appendEntries limit (count + 1) (buf ++ entry) entries

/-- A listing in a buffer of `maxLine` characters. -/
def countedLine (header : Text) (entries : List Text) : Text :=
  let (buf, count) := appendEntries (maxLine - 1) 0 (header ++ List.replicate 5 ' ') entries
  header ++ patchCount 5 (decimal count ++ ['|']) (buf.drop (header.length + 5))

/-! ### Processes -/

/-- `MAX_TRACKED_PROCS`. -/
abbrev maxTrackedProcs : Nat := 16

/-- `struct TrackedProc` of an active entry. -/
structure TrackedProc where
  id : Int
  command : CString
  id_ge : -2 ^ 31 ≤ id
  id_lt : id < 2 ^ 31
  command_le : command.val.length ≤ 127

/-- `g_procs` and `g_next_proc_id`. -/
structure ProcTable where
  procs : Slots maxTrackedProcs TrackedProc
  nextProcId : Int

theorem toSigned_bounds (n : Int) : -2 ^ 31 ≤ toSigned 32 n ∧ toSigned 32 n < 2 ^ 31 := by
  rw [toSigned]
  omega

namespace ProcTable

/-- `proc_init`. -/
def initial : ProcTable := ⟨.empty, 1⟩

/-- `proc_track`. -/
def procTrack (t : ProcTable) (command : Text) : ProcTable :=
  match t.procs.findFree with
  | some i =>
    let bounds := toSigned_bounds t.nextProcId
    ⟨t.procs.put i ⟨toSigned 32 t.nextProcId, ⟨fit 127 command, nul_notMem_fit 127 command⟩,
      bounds.1, bounds.2, length_fit_le 127 command⟩, toSigned 32 (t.nextProcId + 1)⟩
  | none => t

/-- `proc_remove`. -/
def procRemove (t : ProcTable) (procId : Int) : ProcTable :=
  { t with procs := t.procs.discard fun p => p.id = procId }

end ProcTable

/-- `"%ld:%s:running"`. -/
def TrackedProc.entry (p : TrackedProc) : Text :=
  Client.longText p.id ++ ':' :: (p.command.val ++ ':' :: "running".toList)

/-- `proc_list`. -/
def procList (t : ProcTable) : Text :=
  countedLine "PROCLIST|".toList (t.procs.entries.map TrackedProc.entry)

/-! ### Assigns -/

/-- What a node of the list of assigns refers to: a directory, by the path that `NameFromLock` finds
for its lock, or a path that is looked up later. -/
inductive AssignTarget where
  | directory (path : Text)
  | late (assignName : Option Text)
  | nonbinding (assignName : Option Text)
  | other

/-- A node of the list of assigns. -/
structure AssignNode where
  name : Option Text
  target : AssignTarget

/-- `namebuf`, `pathbuf` and `atype`. -/
structure AssignInfo where
  name : CString
  path : CString
  atype : Char

/-- `pathbuf`, before the colons are replaced. -/
def AssignTarget.path : AssignTarget → Text
  | directory path => path
  | late assignName | nonbinding assignName => assignName.getD []
  | other => []

def AssignTarget.atype : AssignTarget → Char
  | directory _ => 'A'
  | late _ => 'L'
  | nonbinding _ => 'N'
  | other => '?'

/-- A colon separates the fields of an entry. -/
def sanitize (path : Text) : Text := path.map fun c => if c = ':' then '/' else c

theorem nul_notMem_sanitize {path : Text} (h : nul ∉ path) : nul ∉ sanitize path := by
  intro hmem
  obtain ⟨c, hc, heq⟩ := List.mem_map.mp hmem
  split at heq
  · exact absurd heq (by decide)
  · exact h (heq ▸ hc)

/-- What the loop of `sys_list_assigns` makes of a node. -/
def AssignNode.info (node : AssignNode) : AssignInfo where
  name := ⟨fit 107 (node.name.getD ['?']), nul_notMem_fit 107 _⟩
  path := ⟨sanitize (fit 126 node.target.path), nul_notMem_sanitize (nul_notMem_fit 126 _)⟩
  atype := node.target.atype

/-- `"%s:%s:%s"`. -/
def AssignInfo.entry (a : AssignInfo) : Text :=
  a.name.val ++ ':' :: (a.path.val ++ ':' :: [a.atype])

/-- `sys_list_assigns`. -/
def sysListAssigns (nodes : List AssignNode) : Text :=
  countedLine "ASSIGNS|".toList (nodes.map fun node => node.info.entry)

/-! ### What fits -/

/-- Entries that fit are all appended. -/
theorem appendEntries_eq {limit : Nat} (entries : List Text) : ∀ {count : Nat} {buf : Text},
    0 < count → buf.length + (entries.map (',' :: ·)).flatten.length < limit →
    appendEntries limit count buf entries =
      (buf ++ (entries.map (',' :: ·)).flatten, count + entries.length) := by
  induction entries with
  | nil =>
    intro count buf _ _
    simp [appendEntries]
  | cons entry entries ih =>
    intro count buf hcount hfits
    simp only [List.map_cons, List.flatten_cons, List.length_append, List.length_cons] at hfits
    rw [appendEntries, if_neg (by omega), if_pos hcount]
    simp only
    rw [if_neg (by simp only [List.length_append, List.length_singleton]; omega),
      ih (by omega) (by simp only [List.length_append, List.length_singleton]; omega)]
    simp only [List.map_cons, List.flatten_cons, List.append_assoc, List.cons_append,
      List.nil_append, List.length_cons, Prod.mk.injEq, true_and]
    omega

/-- What is appended has as many characters as there are entries, and stays below the limit. -/
theorem exists_appendEntries {limit : Nat} (entries : List Text) : ∀ {count : Nat} {buf : Text},
    (∀ entry ∈ entries, entry ≠ []) → buf.length < limit → ∃ text,
      (appendEntries limit count buf entries).1 = buf ++ text ∧
      (appendEntries limit count buf entries).2 ≤ count + text.length ∧
      buf.length + text.length < limit := by
  induction entries with
  | nil => exact fun _ hbuf => ⟨[], (List.append_nil _).symm, Nat.le_refl _, hbuf⟩
  | cons entry entries ih =>
    intro count buf hne hbuf
    have hentry := List.length_pos_iff.mpr (hne entry List.mem_cons_self)
    rw [appendEntries]
    split
    · exact ⟨[], (List.append_nil _).symm, Nat.le_add_right _ _, hbuf⟩
    · next hroom =>
      obtain ⟨comma, hcomma, hlen⟩ : ∃ comma : Text,
          (if 0 < count then buf ++ [','] else buf) = buf ++ comma ∧
            buf.length + comma.length < limit := by
        split
        · exact ⟨[','], rfl, by simp only [List.length_singleton]; omega⟩
        · exact ⟨[], (List.append_nil _).symm, hbuf⟩
      simp only [hcomma]
      split
      · exact ⟨comma, rfl, Nat.le_add_right _ _, hlen⟩
      · next hfits =>
        rw [List.length_append] at hfits
        obtain ⟨text, htext, hcount, hlimit⟩ := @ih (count + 1) (buf ++ comma ++ entry)
          (fun e he => hne e (List.mem_cons_of_mem _ he))
          (by rw [List.length_append, List.length_append]; omega)
        simp only [List.length_append] at hlimit
        refine ⟨comma ++ entry ++ text, ?_, ?_, ?_⟩
        · rw [htext]
          simp only [List.append_assoc]
        · simp only [List.length_append]
          omega
        · simp only [List.length_append]
          omega

/-- If the number is the one of all entries, they fit. -/
theorem fits_of_appendEntries {limit : Nat} (entries : List Text) : ∀ {count : Nat} {buf : Text},
    0 < count → buf.length < limit →
    count + entries.length ≤ (appendEntries limit count buf entries).2 →
    buf.length + (entries.map (',' :: ·)).flatten.length < limit := by
  induction entries with
  | nil => exact fun _ hbuf _ => hbuf
  | cons entry entries ih =>
    intro count buf hcount hbuf hall
    rw [List.length_cons] at hall
    rw [appendEntries] at hall
    split at hall
    · exact absurd hall (by omega)
    · simp only at hall
      split at hall
      · exact absurd hall (by omega)
      · next hfits =>
        rw [List.length_append, List.length_singleton] at hfits
        have hrest := @ih (count + 1) (buf ++ [','] ++ entry) (Nat.succ_pos count)
          (by simp only [List.length_append, List.length_singleton]; omega) (by omega)
        simp only [List.length_append, List.length_singleton] at hrest
        simp only [List.map_cons, List.flatten_cons, List.length_append, List.length_cons]
        omega

/-- The entries fit into the buffer. -/
def AllFit (header : Text) (entries : List Text) : Prop :=
  header.length + 5 + ([','].intercalate entries).length < maxLine - 1

instance (header : Text) (entries : List Text) : Decidable (AllFit header entries) :=
  inferInstanceAs (Decidable (_ < _))

section Counted

variable {header : Text} {entries : List Text}

theorem countedLine_patch {text : Text} {count : Nat} (hcount : count < 10 ^ 4)
    (h : appendEntries (maxLine - 1) 0 (header ++ List.replicate 5 ' ') entries =
      (header ++ List.replicate 5 ' ' ++ text, count)) :
    countedLine header entries = header ++ (decimal count ++ '|' :: text) := by
  have hdigits : (decimal count).length ≤ 4 := by
    rw [decimal, Nat.length_toDigits_le_iff (by omega) (by omega)]
    exact hcount
  have hlen : (header ++ List.replicate 5 ' ').length = header.length + 5 := by
    rw [List.length_append, List.length_replicate]
  rw [countedLine, h]
  simp only
  rw [← hlen, List.drop_left, patchCount, if_pos (by simp; omega), List.append_assoc]
  rfl

/-- The loop from its start: the first entry has no comma. -/
theorem appendEntries_cons {limit : Nat} (buf entry : Text) :
    appendEntries limit 0 buf (entry :: entries) =
      if limit ≤ buf.length + entry.length then (buf, 0)
      else appendEntries limit 1 (buf ++ entry) entries := by
  rw [appendEntries, if_neg (fun h => Nat.lt_irrefl 0 h.1)]
  rfl

theorem length_reserved (header : Text) :
    (header ++ List.replicate 5 ' ').length = header.length + 5 := by
  rw [List.length_append, List.length_replicate]

/-- Entries that fit are all listed. -/
theorem countedLine_of_fits (hne : ∀ entry ∈ entries, entry ≠ []) (h : AllFit header entries) :
    countedLine header entries =
      header ++ (decimal entries.length ++ '|' :: [','].intercalate entries) := by
  rw [AllFit, maxLine] at h
  have hall : appendEntries (maxLine - 1) 0 (header ++ List.replicate 5 ' ') entries =
      (header ++ List.replicate 5 ' ' ++ [','].intercalate entries, entries.length) := by
    cases entries with
    | nil => rw [List.intercalate_nil, List.append_nil]; rfl
    | cons entry entries =>
      rw [Text.intercalate_cons_eq, List.length_append] at h
      rw [appendEntries_cons, if_neg (by rw [length_reserved, maxLine]; omega),
        appendEntries_eq entries Nat.one_pos
          (by rw [List.length_append, length_reserved, maxLine]; omega),
        Text.intercalate_cons_eq, List.append_assoc, List.length_cons, Nat.add_comm 1]
  obtain ⟨text, htext, hcount, hlimit⟩ := @exists_appendEntries (maxLine - 1) entries 0
    (header ++ List.replicate 5 ' ') hne (by rw [length_reserved, maxLine]; omega)
  rw [hall] at hcount
  simp only [Nat.zero_add] at hcount
  rw [maxLine] at hlimit
  exact countedLine_patch (by omega) hall

/-- If they do not all fit, the number is smaller. -/
theorem countedLine_of_not_fits (hheader : header.length ≤ 1024)
    (hne : ∀ entry ∈ entries, entry ≠ []) (h : ¬ AllFit header entries) :
    ∃ count < entries.length, count < 10 ^ 4 ∧ ∃ text,
      countedLine header entries = header ++ (decimal count ++ '|' :: text) := by
  have hstart : (header ++ List.replicate 5 ' ').length < maxLine - 1 := by
    rw [length_reserved, maxLine]
    omega
  obtain ⟨text, htext, hcount, hlimit⟩ := @exists_appendEntries _ entries 0 _ hne hstart
  have hless : (appendEntries (maxLine - 1) 0 (header ++ List.replicate 5 ' ') entries).2 <
      entries.length := by
    by_contra hge
    refine h ?_
    rw [AllFit]
    rw [length_reserved] at hstart
    cases entries with
    | nil => rwa [List.intercalate_nil]
    | cons entry entries =>
      rw [appendEntries_cons] at hge
      split at hge
      · exact absurd (Nat.succ_pos entries.length) hge
      · next hfits =>
        rw [List.length_cons, Nat.not_lt, Nat.add_comm] at hge
        have hrest := fits_of_appendEntries entries Nat.one_pos
          (by rw [List.length_append]; omega) hge
        rw [Text.intercalate_cons_eq, List.length_append]
        rw [List.length_append, length_reserved] at hrest
        omega
  rw [maxLine] at hlimit
  have hsmall : (appendEntries (maxLine - 1) 0 (header ++ List.replicate 5 ' ') entries).2 <
      10 ^ 4 := by omega
  exact ⟨_, hless, hsmall, text, countedLine_patch hsmall (Prod.ext htext rfl)⟩

end Counted

/-! ### The tables of a client -/

/-- Behind the first entry, entries that fit are all written. -/
theorem writeEntries_eq {room : Nat} (entries : List Text) : ∀ {buf : Text},
    buf.length + (entries.map (',' :: ·)).flatten.length < maxLine - room →
    Registry.writeEntries room false buf entries = buf ++ (entries.map (',' :: ·)).flatten := by
  induction entries with
  | nil => exact fun _ => (List.append_nil _).symm
  | cons entry entries ih =>
    intro buf hfits
    simp only [List.map_cons, List.flatten_cons, List.length_append, List.length_cons] at hfits
    rw [Registry.writeEntries, if_pos (by omega), if_neg Bool.false_ne_true,
      ih (by simp only [List.length_append, List.length_singleton]; omega)]
    simp only [List.map_cons, List.flatten_cons, List.append_assoc, List.cons_append,
      List.nil_append]

theorem writeEntries_of_fits {room : Nat} {entries : List Text} {buf : Text}
    (h : buf.length + ([','].intercalate entries).length < maxLine - room) :
    Registry.writeEntries room true buf entries = buf ++ [','].intercalate entries := by
  cases entries with
  | nil => exact (List.append_nil _).symm
  | cons entry entries =>
    rw [Text.intercalate_cons_eq, List.length_append] at h
    rw [Registry.writeEntries, if_pos (by omega), if_pos rfl,
      writeEntries_eq entries (by rw [List.length_append]; omega), Text.intercalate_cons_eq,
      List.append_assoc]

/-- The bounds of the arrays in an entry. -/
structure Held (ce : ClientEntry) : Prop where
  hooks_le : ce.hooks.length ≤ maxHooks
  hooks : ∀ h ∈ ce.hooks, h.name.length ≤ 33 ∧ h.description.length ≤ 63
  memregs_le : ce.memregs.length ≤ maxMemRegions
  memregs : ∀ m ∈ ce.memregs, m.name.length ≤ 33 ∧ m.description.length ≤ 63 ∧
    m.addr < 2 ^ 32 ∧ m.size < 2 ^ 32

theorem length_upsert_le {α κ : Type} [DecidableEq κ] {key : α → κ} {cap : Nat} {l : List α} {a : α}
    (h : l.length ≤ cap) : (Packed.upsert key cap l a).length ≤ cap := by
  rw [Packed.upsert]
  split
  · have hkeys : ((Packed.splice key (key a) [a] l).map key).length = (l.map key).length :=
      congrArg List.length (Packed.map_splice l)
    rw [List.length_map, List.length_map] at hkeys
    omega
  · split
    · rw [List.length_append, List.length_singleton]
      omega
    · exact h

section Entry

variable {ce : ClientEntry}

theorem Held.addHook (h : Held ce) (name description : Text) :
    Held (ce.addHook name description) := by
  refine ⟨length_upsert_le h.hooks_le, fun hook hmem => ?_, h.memregs_le, h.memregs⟩
  rcases Packed.mem_upsert hmem with rfl | hold
  · exact ⟨length_fit_le 33 name, length_fit_le 63 description⟩
  · exact h.hooks hook hold

theorem Held.addMemreg (h : Held ce) (name : Text) {addr size : Nat} (haddr : addr < 2 ^ 32)
    (hsize : size < 2 ^ 32) (description : Text) :
    Held (ce.addMemreg name addr size description) := by
  refine ⟨h.hooks_le, h.hooks, length_upsert_le h.memregs_le, fun m hmem => ?_⟩
  rcases Packed.mem_upsert hmem with rfl | hold
  · exact ⟨length_fit_le 33 name, length_fit_le 63 description, haddr, hsize⟩
  · exact h.memregs m hold

theorem Held.removeHook (h : Held ce) (name : Text) : Held (ce.removeHook name) :=
  ⟨(Packed.sublist_remove _).length_le.trans h.hooks_le,
    fun hook hmem => h.hooks hook ((Packed.sublist_remove _).subset hmem), h.memregs_le, h.memregs⟩

theorem Held.removeMemreg (h : Held ce) (name : Text) : Held (ce.removeMemreg name) :=
  ⟨h.hooks_le, h.hooks, (Packed.sublist_remove _).length_le.trans h.memregs_le,
    fun m hmem => h.memregs m ((Packed.sublist_remove _).subset hmem)⟩

theorem Held.removeVar (h : Held ce) (name : Text) : Held (ce.removeVar name) :=
  ⟨h.hooks_le, h.hooks, h.memregs_le, h.memregs⟩

theorem Held.readHook (h : Held ce) (data : Text) : Held (readHook data ce) := by
  rw [Daemon.readHook]
  split
  · exact h.addHook _ _
  · exact h

theorem Held.readMemreg (h : Held ce) (data : Text) : Held (readMemreg data ce) := by
  rw [Daemon.readMemreg]
  split
  · split
    · exact h.addMemreg _ (strtoul_lt 16 _) (strtoul_lt 10 _) _
    · exact h.addMemreg _ (strtoul_lt 16 _) (by omega) _
  · exact h

theorem Held.readVar (h : Held ce) (data : Text) : Held (readVar data ce) := by
  rw [Daemon.readVar]
  split
  · exact ⟨h.hooks_le, h.hooks, h.memregs_le, h.memregs⟩
  · exact h

end Entry

/-- Every entry keeps to the bounds of its arrays. -/
def AllHeld (r : Registry) : Prop := ∀ i ce, r.clients i = some ce → Held ce

section Registry

variable {r : Registry}

/-- One entry is changed. -/
theorem allHeld_modify (h : AllHeld r) {f : ClientEntry → ClientEntry}
    (hf : ∀ ce, Held ce → Held (f ce)) (i : Fin maxClients) :
    AllHeld { r with clients := r.clients.modify i f } := by
  intro j ce hce
  have hce : r.clients.modify i f j = some ce := hce
  by_cases hj : j = i
  · subst hj
    rw [Slots.modify_self] at hce
    obtain ⟨old, hold, rfl⟩ := Option.map_eq_some_iff.mp hce
    exact hf old (h j old hold)
  · rw [Slots.modify_of_ne hj] at hce
    exact h j ce hce

theorem allHeld_update (h : AllHeld r) {f : ClientEntry → ClientEntry}
    (hf : ∀ ce, Held ce → Held (f ce)) (clientId : UInt32) : AllHeld (r.update clientId f) := by
  rw [Registry.update]
  split
  · exact allHeld_modify h hf _
  · exact h

theorem allHeld_clientRegister (h : AllHeld r) (name : Text) (port : Option Port) :
    AllHeld (r.clientRegister name port).1 := by
  cases port with
  | none => exact h
  | some port =>
    cases hname : r.clientFindByName name with
    | some i =>
      obtain ⟨ce, hi, -⟩ := Slots.find_eq_some hname
      rw [clientRegister_known port hname hi]
      refine allHeld_modify h ?_ i
      exact fun ce hce => ⟨hce.hooks_le, hce.hooks, hce.memregs_le, hce.memregs⟩
    | none =>
      cases hfree : r.clients.findFree with
      | none =>
        rw [clientRegister_full hname hfree]
        exact h
      | some i =>
        rw [clientRegister_new port hname hfree]
        intro j ce hce
        have hce : r.clients.put i _ j = some ce := hce
        by_cases hj : j = i
        · subst hj
          rw [Slots.put_self] at hce
          obtain rfl := Option.some.inj hce
          exact ⟨Nat.zero_le _, fun _ hmem => absurd hmem List.not_mem_nil, Nat.zero_le _,
            fun _ hmem => absurd hmem List.not_mem_nil⟩
        · rw [Slots.put_of_ne hj] at hce
          exact h j ce hce

theorem allHeld_clientUnregister (h : AllHeld r) (clientId : UInt32) :
    AllHeld (r.clientUnregister clientId) := by
  rw [Registry.clientUnregister]
  split
  · next i _ =>
    intro j ce hce
    have hce : r.clients.clear i j = some ce := hce
    by_cases hj : j = i
    · subst hj
      rw [Slots.clear_self] at hce
      cases hce
    · rw [Slots.clear_of_ne hj] at hce
      exact h j ce hce
  · exact h

theorem allHeld_ipcProcess (h : AllHeld r) (clientId : UInt32) (msg : ClientMsg) :
    AllHeld (ipcProcess r clientId msg).1 := by
  cases msg with
  | register data port =>
    rw [ipcProcess_register]
    exact allHeld_clientRegister h data port
  | unregister => exact allHeld_clientUnregister h clientId
  | varRegister data => exact allHeld_update h (fun ce hce => hce.readVar data) clientId
  | varUnregister data => exact allHeld_update h (fun ce hce => hce.removeVar data) clientId
  | hookRegister data => exact allHeld_update h (fun ce hce => hce.readHook data) clientId
  | hookUnregister data => exact allHeld_update h (fun ce hce => hce.removeHook data) clientId
  | memregRegister data => exact allHeld_update h (fun ce hce => hce.readMemreg data) clientId
  | memregUnregister data =>
    exact allHeld_update h (fun ce hce => hce.removeMemreg data) clientId

end Registry

/-- Whatever the clients send. -/
theorem allHeld_of_reaches {s : Ipc}
    (h : Reaches Ipc.step (fun _ _ => True) Ipc.initial s) : AllHeld s.registry := by
  refine h.invariant (fun s => AllHeld s.registry) (fun i ce hce => by cases hce)
    fun s label s' hs _ hstep => ?_
  cases label with
  | message clientId msg =>
    cases hstep
    exact allHeld_ipcProcess hs clientId msg
  | forward answered =>
    cases hstep
    exact hs

end AmigaDevbench.Daemon
