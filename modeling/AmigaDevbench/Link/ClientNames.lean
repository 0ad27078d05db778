import AmigaDevbench.Daemon.Reachability
import AmigaDevbench.Link.Replies

/-!
# Client names in the CLIENTS message

The daemon writes a client as its name with its id in brackets behind it, and the host takes what
stands between two commas for the name. Every name on the host is therefore longer than the one
it was made from, so a registered name is found on the host only if a shorter one is registered.
-/

namespace AmigaDevbench.ClientNames

open Daemon Protocol Registry

/-- The names of the registered clients. -/
def registeredNames (r : Registry) : List Text := r.clients.entries.map (·.name.chars)

/-- The names that the host reads off the CLIENTS line are the registered ones, so the test of
`api_run_cycle`, `binary_name in names`, says whether a client of that name is registered. -/
def NamesSurvive (now : Text) (r : Registry) : Prop :=
  ∃ msg names, parseMessage now r.protocolSendClients = .ok (some msg) ∧
    msg.get? "names" = some (texts names) ∧ names.Perm (registeredNames r) ∧
      ∀ binaryName, binaryName ∈ names ↔ binaryName ∈ registeredNames r

/-- What the host takes for the names in the list of the line. -/
def hostNames (listed : Text) : List Text :=
  (commaEntries ((listed.splitOn '|').headD [])).filter (· ≠ [])

/-- The message read from a CLIENTS line. -/
theorem parseMessage_clients (now : Text) (count : Nat) (listed : Text) :
    ∃ msg, parseMessage now (clientsHead count ++ listed) = .ok (some msg) ∧
      msg.get? "names" = some (texts (hostNames listed)) := by
  have hline : clientsHead count ++ listed =
      "CLIENTS".toList ++ '|' :: (decimal count ++ '|' :: listed) := by
    have hhead : "CLIENTS|".toList = "CLIENTS".toList ++ ['|'] := rfl
    change "CLIENTS|".toList ++ decimal count ++ ['|'] ++ listed = _
    simp only [hhead, List.append_assoc, List.cons_append, List.nil_append]
  have hbranch : branchOf "CLIENTS".toList = some (.guarded fun _ _ p => parseClients p) := rfl
  let parts := "CLIENTS".toList :: decimal count :: listed.splitOn '|'
  have hfield : field parts 2 [] = (listed.splitOn '|').headD [] := by
    simp only [field, parts, List.getD_cons_succ]
    cases listed.splitOn '|' <;> rfl
  have hnames : listField parts 2 names = texts (hostNames listed) := by
    rw [listField, hfield]
    split_ifs with hempty
    · rw [hostNames, hempty]
      rfl
    · rfl
  refine ⟨[("type", .str "CLIENTS".toList), ("count", .int (num parts 1)),
    ("names", listField parts 2 names)], ?_, congrArg some hnames⟩
  rw [hline, parseMessage, Text.splitOn_field (by decide),
    Text.splitOn_field (Replies.bar_notMem_decimal count)]
  simp only [List.headD_cons, hbranch, Branch.run]
  rfl

/-- The characters of a name that stripping keeps. -/
def weight (name : Text) : Nat := name.countP (!Py.isSpace ·)

/-- What the host makes of a client weighs more than its name. -/
theorem weight_clientText (ce : ClientEntry) :
    weight ce.name.chars < weight (Py.strip (clientText ce)) := by
  have hopen : Py.isSpace '(' = false := by decide
  rw [weight, weight, Py.strip, Text.countP_stripBy, clientText, List.countP_append,
    List.countP_cons, hopen]
  simp only [Bool.not_false, if_true]
  omega

section Survival

variable {now : Text} {r : Registry}

/-- A host's name is a piece of the line: it has no separator. -/
theorem separator_notMem_hostNames {listed name : Text} (h : name ∈ hostNames listed) :
    ',' ∉ name ∧ '|' ∉ name := by
  obtain ⟨piece, hpiece, rfl⟩ := List.mem_map.mp (List.mem_filter.mp h).1
  refine ⟨fun hmem => ?_, fun hmem => ?_⟩
  · exact (Text.ne_of_mem_splitOn hpiece (Text.mem_of_mem_stripBy hmem)).1 rfl
  · have hlisted := (Text.ne_of_mem_splitOn hpiece (Text.mem_of_mem_stripBy hmem)).2
    exact Text.notMem_headD_splitOn '|' listed hlisted

/-- Without separators in the names, a host's name is the entry of a registered client. -/
theorem mem_hostNames {ces : List ClientEntry}
    (hces : ∀ ce ∈ ces, ',' ∉ ce.name.chars ∧ '|' ∉ ce.name.chars) {name : Text}
    (h : name ∈ hostNames ([','].intercalate (ces.map clientText))) :
    ∃ ce ∈ ces, name = Py.strip (clientText ce) := by
  have hclean : ∀ entry ∈ ces.map clientText, ',' ∉ entry ∧ '|' ∉ entry := by
    intro entry hentry
    obtain ⟨ce, hce, rfl⟩ := List.mem_map.mp hentry
    have hdigit : ∀ c ∈ decimal ce.clientId.toNat, c ≠ ',' ∧ c ≠ '|' := by
      intro c hc
      have hc' := Nat.isDigit_of_mem_toDigits (by decide) (by decide) hc
      constructor <;> rintro rfl <;> exact absurd hc' (by decide)
    simp only [clientText, List.mem_append, List.mem_cons, not_or]
    exact ⟨⟨(hces ce hce).1, by decide, fun hc => (hdigit _ hc).1 rfl, by decide⟩,
      (hces ce hce).2, by decide, fun hc => (hdigit _ hc).2 rfl, by decide⟩
  have hbar : '|' ∉ [','].intercalate (ces.map clientText) := by
    intro hmem
    rcases Text.mem_intercalate hmem with heq | ⟨entry, hentry, hmem⟩
    · exact absurd heq (by decide)
    · exact (hclean entry hentry).2 hmem
  obtain ⟨hpieces, hne⟩ := List.mem_filter.mp h
  rw [List.splitOn_eq_singleton hbar, List.headD_cons] at hpieces
  cases ces with
  | nil =>
    have hempty : commaEntries ([','].intercalate (([] : List ClientEntry).map clientText)) = [[]] :=
      rfl
    rw [hempty, List.mem_singleton] at hpieces
    rw [hpieces] at hne
    exact absurd hne (by decide)
  | cons ce ces =>
    rw [commaEntries, List.splitOn_intercalate ',' (fun entry hentry => (hclean entry hentry).1)
      (by simp)] at hpieces
    obtain ⟨entry, hentry, rfl⟩ := List.mem_map.mp hpieces
    obtain ⟨ce', hce', rfl⟩ := List.mem_map.mp hentry
    exact ⟨ce', hce', rfl⟩

/-- A client that is found by its id is registered. -/
theorem mem_registeredNames {ce : ClientEntry} (h : ce ∈ r.enumerate.filterMap r.clients) :
    ce.name.chars ∈ registeredNames r := by
  obtain ⟨i, -, hi⟩ := List.mem_filterMap.mp h
  exact List.mem_map_of_mem (Slots.mem_entries.mpr ⟨i, hi⟩)

/-- If every registered name is found on the host, none is registered. -/
theorem registeredNames_eq_nil
    (h : ∀ name ∈ registeredNames r, name ∈ hostNames ([','].intercalate
      ((r.enumerate.filterMap r.clients).map clientText))) : registeredNames r = [] := by
  have hclean : ∀ ce ∈ r.enumerate.filterMap r.clients,
      ',' ∉ ce.name.chars ∧ '|' ∉ ce.name.chars := fun ce hce =>
    separator_notMem_hostNames (h _ (mem_registeredNames hce))
  -- a registered name is the entry of a client whose name weighs less
  have hnone : ∀ w name, name ∈ registeredNames r → weight name ≠ w := by
    intro w
    induction w using Nat.strong_induction_on with
    | _ w ih =>
      intro name hname hw
      obtain ⟨ce, hce, rfl⟩ := mem_hostNames hclean (h name hname)
      exact ih _ (hw ▸ weight_clientText ce) _ (mem_registeredNames hce) rfl
  exact List.eq_nil_iff_forall_not_mem.mpr fun name hname => hnone _ name hname rfl

/-- The CLIENTS line as it is read. -/
theorem parse_protocolSendClients (now : Text) (r : Registry) :
    ∃ msg, parseMessage now r.protocolSendClients = .ok (some msg) ∧
      msg.get? "names" = some (texts (hostNames ([','].intercalate
        ((r.enumerate.filterMap r.clients).map clientText)))) := by
  rw [Ipc.protocolSendClients_eq]
  exact parseMessage_clients now _ _

/-- The names of a registered client do not survive. -/
theorem NamesSurvive.registeredNames_eq_nil (h : NamesSurvive now r) : registeredNames r = [] := by
  obtain ⟨msg, names, hparse, hnames, hperm, -⟩ := h
  obtain ⟨msg', hparse', hnames'⟩ := parse_protocolSendClients now r
  cases hparse.symm.trans hparse'
  have heq : names = hostNames ([','].intercalate
      ((r.enumerate.filterMap r.clients).map clientText)) := by
    have hval := Option.some.inj (hnames.symm.trans hnames')
    exact List.map_injective_iff.mpr (fun _ _ h => Val.str.inj h) (Val.list.inj hval)
  exact ClientNames.registeredNames_eq_nil fun name hname => heq ▸ hperm.mem_iff.mpr hname

end Survival

/-- For every set of registered clients: the names survive if and only if there is no client. -/
theorem client_names_survive_iff (now : Text) (r : Registry) :
    NamesSurvive now r ↔ r.clientCount = 0 := by
  have hcount : r.clientCount = (registeredNames r).length := by
    rw [clientCount, registeredNames, List.length_map]
  constructor
  · intro h
    rw [hcount, h.registeredNames_eq_nil]
    rfl
  · intro hzero
    obtain ⟨msg, hparse, hnames⟩ := parse_protocolSendClients now r
    have hentries : r.clients.entries = [] := List.eq_nil_of_length_eq_zero hzero
    have hlisted : r.enumerate.filterMap r.clients = [] := by
      rw [List.filterMap_eq_nil_iff]
      intro i _
      cases hi : r.clients i with
      | none => rfl
      | some ce =>
        have hmem := Slots.mem_entries.mpr ⟨i, hi⟩
        rw [hentries] at hmem
        cases hmem
    have hnone : registeredNames r = [] := by rw [registeredNames, hentries, List.map_nil]
    rw [hlisted] at hnames
    exact ⟨msg, [], hparse, hnames, hnone ▸ List.Perm.refl _, fun _ => by rw [hnone]⟩

/-- A client is registered as `game` and listed as `game(1)`. -/
theorem client_names_not_survive : ¬ ∀ r : Registry, NamesSurvive [] r := by
  intro hall
  have hnone := (hall (Registry.initial.clientRegister "game".toList
    (some 1)).1).registeredNames_eq_nil
  have hone : registeredNames (Registry.initial.clientRegister "game".toList (some 1)).1 =
      ["game".toList] := by decide
  rw [hone] at hnone
  cases hnone

end AmigaDevbench.ClientNames
