import AmigaDevbench.Client.Reports
import AmigaDevbench.Daemon.Variables
import AmigaDevbench.Link.Replies

/-!
# Resource and performance reports on the host

The daemon puts a client's data behind a head and the client's name. The host splits the whole
line at the bars and takes the third part for the client's data, which is only its first field:
the lists are never read.
-/

namespace AmigaDevbench.Reports

open Daemon Client Protocol Replies

/-- How the daemon's request for a report ends. -/
inductive Collected where
  | noPort
  | timeout
  | reply (data : Text)

/-- A report of a client, by its command and the head of its line. -/
def report (command head : String) (r : Registry) (args : Text) (c : Collected) : Text :=
  if args = [] then sendErr command.toList "client name required".toList
  else match (r.clientFindByName args).bind r.clients with
    | none => sendErr command.toList "client not found".toList
    | some ce =>
      match c with
      | .noPort => sendErr command.toList "cannot create port".toList
      | .timeout => sendErr command.toList "client timeout".toList
      | .reply data => head.toList ++ '|' :: (ce.name.chars ++ '|' :: data)

/-- `handle_listresources`. The reply to a first request that it sends is dropped. -/
def handleListresources : Registry → Text → Collected → Text := report "LISTRESOURCES" "RESOURCES"

/-- `handle_getperf`. -/
def handleGetperf : Registry → Text → Collected → Text := report "GETPERF" "PERF"

/-- A RESOURCES message. -/
def resourcesMsg (client : Text) (count : Int) (resources : List Val) : Dict :=
  [("type", .str "RESOURCES".toList), ("client", .str client), ("count", .int count),
    ("resources", .list resources)]

/-- A tracked resource in a message. -/
def resourceVal (e : ResourceEntry) : Val :=
  .dict [("type", .str (if e.isMem then "MEM".toList else "HANDLE".toList)), ("tag", .str e.tag),
    ("ptr", .str (hex8 e.ptr.toNat)), ("size", .int e.size.toNat),
    ("state", .str (if e.isOpen then "OPEN".toList else "CLOSED".toList))]

/-- A PERF message. -/
def perfMsg (client : Text) (avg min max count : Int) (sections : List Val) : Dict :=
  [("type", .str "PERF".toList), ("client", .str client), ("frameAvg", .int avg),
    ("frameMin", .int min), ("frameMax", .int max), ("frameCount", .int count),
    ("sections", .list sections)]

/-- A section in a message. -/
def sectionVal (p : PerfSection) : Val :=
  .dict [("label", .str p.label), ("avg", .int (average p.total p.count).toNat),
    ("min", .int (reportedMin p.minVal).toNat), ("max", .int p.maxVal.toNat),
    ("count", .int p.count.toNat)]

/-- The host reads a client's resources off the line. -/
def ResourcesSurvive (now : Text) (r : Registry) (client : Text) (table : ResourceTable) : Prop :=
  parseMessage now (handleListresources r client (.reply (resourceData table))) =
    .ok (some (resourcesMsg client table.entries.length (table.entries.map resourceVal)))

/-- The host reads a client's statistics off the line. -/
def PerfSurvives (now : Text) (r : Registry) (client : Text) (p : PerfStats) : Prop :=
  parseMessage now (handleGetperf r client (.reply (perfData p))) =
    .ok (some (perfMsg client (average p.frameTotal p.frameNum).toNat (reportedMin p.frameMin).toNat
      p.frameMax.toNat p.frameNum.toNat (p.sections.entries.map sectionVal)))

/-- The parts of a report line behind its type. -/
def reportParts (client data : Text) : List Text := (client ++ '|' :: data).splitOn '|'

/-- The line of a client that is found. -/
theorem report_eq {command head : String} {r : Registry} {client : Text} (hne : client ≠ [])
    (hfound : r.clientFindByName client ≠ none) (data : Text) :
    report command head r client (.reply data) = head.toList ++ '|' :: (client ++ '|' :: data) := by
  obtain ⟨i, hi⟩ := Option.ne_none_iff_exists'.mp hfound
  obtain ⟨ce, hce, hname⟩ := Slots.find_eq_some hi
  rw [report, if_neg hne, hi, Option.bind_some, hce]
  simp only [of_decide_eq_true hname]

/-- The part of a report line that the host takes for the client's data. -/
def third (client data : Text) : Text := (reportParts client data).tail.headD []

/-- It has no bar. -/
theorem bar_notMem_third (client data : Text) : '|' ∉ third client data := by
  unfold third
  cases htail : (reportParts client data).tail with
  | nil => exact List.not_mem_nil
  | cons piece pieces =>
    have hpiece : piece ∈ reportParts client data :=
      List.mem_of_mem_tail (htail ▸ List.mem_cons_self)
    exact fun hmem => (Text.ne_of_mem_splitOn hpiece hmem).1 rfl

/-- The host reads the client's name exactly if it has no bar. -/
theorem headD_reportParts_iff (client data : Text) :
    (reportParts client data).headD [] = client ↔ '|' ∉ client := by
  constructor
  · intro h hmem
    rw [← h] at hmem
    exact Text.notMem_headD_splitOn '|' _ hmem
  · intro h
    rw [reportParts, Text.splitOn_field h, List.headD_cons]

/-- Behind a name without bar stands the first field of the client's data. -/
theorem third_eq {client first : Text} (hclient : '|' ∉ client) (hfirst : '|' ∉ first)
    (rest : Text) : third client (first ++ '|' :: rest) = first := by
  rw [third, reportParts, Text.splitOn_field hclient, List.tail_cons, Text.splitOn_field hfirst,
    List.headD_cons]

theorem field_second (type : Text) (parts : List Text) :
    field (type :: parts) 1 [] = parts.headD [] := by
  cases parts <;> rfl

theorem field_third (type : Text) (parts : List Text) :
    field (type :: parts) 2 [] = parts.tail.headD [] := by
  rcases parts with _ | ⟨a, _ | ⟨b, parts⟩⟩ <;> rfl

/-- A RESOURCES line is read without its list. -/
theorem parseMessage_resources (now client data : Text) :
    parseMessage now ("RESOURCES".toList ++ '|' :: (client ++ '|' :: data)) =
      .ok (some (resourcesMsg ((reportParts client data).headD []) (int (third client data)) [])) := by
  have hbranch : branchOf "RESOURCES".toList = some (.guarded fun _ _ p => parseResources p) := rfl
  have hsplit : Text.splitMax '|' 1 (third client data) = [third client data] := by
    rw [Text.splitMax, Text.after?_eq_none (bar_notMem_third client data)]
  rw [parseMessage, Text.splitOn_field (by decide)]
  simp only [List.headD_cons, hbranch, Branch.run, parseResources, field_second, field_third]
  rw [← reportParts, ← third, hsplit]
  rfl

/-- A PERF line is read without anything behind the average. -/
theorem parseMessage_perf (now client data : Text) :
    parseMessage now ("PERF".toList ++ '|' :: (client ++ '|' :: data)) =
      .ok (some (perfMsg ((reportParts client data).headD []) (int (third client data)) 0 0 0 [])) := by
  have hbranch : branchOf "PERF".toList = some (.guarded fun _ _ p => parsePerf p) := rfl
  have hzero : int ['0'] = 0 := by decide
  have hsplit : (third client data).splitOn '|' = [third client data] :=
    List.splitOn_eq_singleton (bar_notMem_third client data)
  have hnum : ∀ i, num [third client data] (i + 1) = 0 := fun i => hzero
  rw [parseMessage, Text.splitOn_field (by decide)]
  simp only [List.headD_cons, hbranch, Branch.run, parsePerf, field_second, field_third]
  rw [← reportParts, ← third, hsplit, hnum 0, hnum 1, hnum 2]
  rfl

theorem resourcesMsg_inj {client client' : Text} {count count' : Int} {list list' : List Val} :
    resourcesMsg client count list = resourcesMsg client' count' list' ↔
      client = client' ∧ count = count' ∧ list = list' := by
  simp [resourcesMsg]

theorem perfMsg_inj {client client' : Text} {a a' b b' c c' d d' : Int} {list list' : List Val} :
    perfMsg client a b c d list = perfMsg client' a' b' c' d' list' ↔
      client = client' ∧ a = a' ∧ b = b' ∧ c = c' ∧ d = d' ∧ list = list' := by
  simp [perfMsg]

/-- Resources reach the host exactly if there are none and the client's name has no bar. -/
theorem resourcesSurvive_iff (now : Text) {r : Registry} {client : Text} (hne : client ≠ [])
    (hfound : r.clientFindByName client ≠ none) (table : ResourceTable) :
    ResourcesSurvive now r client table ↔ '|' ∉ client ∧ table.entries = [] := by
  rw [ResourcesSurvive, handleListresources, report_eq hne hfound, parseMessage_resources,
    Except.ok.injEq, Option.some.injEq, resourcesMsg_inj, headD_reportParts_iff]
  have hcount : '|' ∉ client → int (third client (resourceData table)) = table.entries.length := by
    intro hclient
    obtain ⟨rest, hrest⟩ := writeList_prefix (decimal table.entries.length ++ ['|'])
      (table.entries.map resourceText)
    have hlen := Slots.length_entries_le (t := table)
    rw [resourceData, hrest, List.append_assoc, List.singleton_append,
      third_eq hclient (bar_notMem_decimal _), int_decimal (by omega)]
  constructor
  · rintro ⟨hclient, _, hlist⟩
    exact ⟨hclient, List.map_eq_nil_iff.mp hlist.symm⟩
  · rintro ⟨hclient, hnone⟩
    exact ⟨hclient, hcount hclient, by rw [hnone, List.map_nil]⟩

/-- Statistics reach the host exactly if they are those of no frame and no section, and the
client's name has no bar. -/
theorem perfSurvives_iff (now : Text) {r : Registry} {client : Text} (hne : client ≠ [])
    (hfound : r.clientFindByName client ≠ none) (p : PerfStats) :
    PerfSurvives now r client p ↔ '|' ∉ client ∧ reportedMin p.frameMin = 0 ∧ p.frameMax = 0 ∧
      p.frameNum = 0 ∧ p.sections.entries = [] := by
  rw [PerfSurvives, handleGetperf, report_eq hne hfound, parseMessage_perf,
    Except.ok.injEq, Option.some.injEq, perfMsg_inj, headD_reportParts_iff]
  have hzero : ∀ n : UInt32, (0 : Int) = n.toNat ↔ n = 0 := by
    intro n
    rw [← UInt32.toNat_inj]
    change (0 : Int) = n.toNat ↔ n.toNat = 0
    omega
  have havg : '|' ∉ client →
      int (third client (perfData p)) = (average p.frameTotal p.frameNum).toNat := by
    intro hclient
    obtain ⟨rest, hrest⟩ := writeList_prefix (decimal (average p.frameTotal p.frameNum).toNat ++
      '|' :: (decimal (reportedMin p.frameMin).toNat ++ '|' :: (decimal p.frameMax.toNat ++ '|' ::
        (decimal p.frameNum.toNat ++ ['|'])))) (p.sections.entries.map sectionText)
    rw [perfData, hrest, List.append_assoc, List.cons_append,
      third_eq hclient (bar_notMem_decimal _), int_decimal (UInt32.toNat_lt _)]
  rw [hzero, hzero, hzero]
  constructor
  · rintro ⟨hclient, _, hmin, hmax, hnum, hlist⟩
    exact ⟨hclient, hmin, hmax, hnum, List.map_eq_nil_iff.mp hlist.symm⟩
  · rintro ⟨hclient, hmin, hmax, hnum, hnone⟩
    exact ⟨hclient, havg hclient, hmin, hmax, hnum, by rw [hnone, List.map_nil]⟩

/-- For a client that the daemon finds by its name: its resources reach the host exactly if there
are none, and its statistics exactly if nothing was measured, and then if its name has no bar. -/
theorem reports_survive_iff (now : Text) {r : Registry} {client : Text} (hne : client ≠ [])
    (hfound : r.clientFindByName client ≠ none) :
    (∀ table : ResourceTable, ResourcesSurvive now r client table ↔
      '|' ∉ client ∧ table.entries = []) ∧
    ∀ p : PerfStats, PerfSurvives now r client p ↔
      '|' ∉ client ∧ reportedMin p.frameMin = 0 ∧ p.frameMax = 0 ∧ p.frameNum = 0 ∧
        p.sections.entries = [] :=
  ⟨resourcesSurvive_iff now hne hfound, perfSurvives_iff now hne hfound⟩

/-- The registry with one client. -/
def oneClient : Registry :=
  ⟨Slots.empty.put 0 ⟨1, .register "app".toList, 1, [], [], []⟩, 2⟩

/-- A client without resources and measurements. -/
theorem reports_survive_empty :
    ResourcesSurvive [] oneClient "app".toList Slots.empty ∧
      PerfSurvives [] oneClient "app".toList ⟨0, 0xFFFFFFFF, 0, 0, Slots.empty⟩ :=
  ⟨((reports_survive_iff [] (by decide) (by decide)).1 _).mpr ⟨by decide, Slots.entries_empty⟩,
    ((reports_survive_iff [] (by decide) (by decide)).2 _).mpr
      ⟨by decide, by decide, by decide, by decide, Slots.entries_empty⟩⟩

/-- One allocation, and one frame of 100 ticks: the host sees no resource, and no maximum. -/
theorem reports_not_survive :
    ¬ ResourcesSurvive [] oneClient "app".toList
        (Slots.empty.put 0 ⟨true, true, "buffer".toList, 0x1000, 64⟩) ∧
      ¬ PerfSurvives [] oneClient "app".toList ⟨100, 100, 100, 1, Slots.empty⟩ := by
  constructor
  · rw [resourcesSurvive_iff [] (by decide) (by decide)]
    exact fun h => absurd h.2 (by decide)
  · rw [perfSurvives_iff [] (by decide) (by decide)]
    exact fun h => absurd h.2.2.1 (by decide)

end AmigaDevbench.Reports
