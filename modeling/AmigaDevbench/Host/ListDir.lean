import AmigaDevbench.Host.EventBus
import AmigaDevbench.Host.Protocol.Format

/-!
# Listing a directory from the host

`list_dir_all` asks for page after page, each from the number of entries that it has. What it does
depends only on the events that arrive while it waits for the answers.
-/

namespace AmigaDevbench.ListDir

open Protocol

/-- What `_send_await` returns. -/
inductive Answer where
  | ok (data : Dict)
  | err (data : Dict)
  | noresp

/-- `_send_await`, for the events that are published before the timeout. -/
def sendAwait (target : String) (predicate : Dict → Bool) (events : List Event) : Answer :=
  match events.find? fun e => e.name = "err" || (e.name = target && predicate e.data) with
  | some e => if e.name = "err" then .err e.data else .ok e.data
  | none => .noresp

/-- What `list_dir_all` returns. -/
inductive Listing where
  | entries (entries : List Val)
  | notFound (path : Text)
  | noAnswer

/-- The command that asks for a page. -/
def pageCommand (path : Text) (offset : Nat) : Command :=
  [("type", .str "LISTDIR".toList), ("path", .str path), ("offset", .int offset)]

/-- `msg.get("entries", [])`. -/
def pageEntries (msg : Dict) : List Val :=
  match msg.get? "entries" with
  | some (.list page) => page
  | _ => []

/-- The loop of `list_dir_all`, from the entries so far. -/
def listFrom (exchange : Command → List Event) (path : Text) (entries : List Val) : Listing :=
  match sendAwait "dir" (·.hasText "path" path)
      (exchange (pageCommand path entries.length)) with
  | .err _ => .notFound path
  | .noresp => if entries.isEmpty then .noAnswer else .entries entries
  | .ok msg =>
    let page := pageEntries msg
    let total := msg.getInt "count" page.length
    let offset := (entries ++ page).length
    if page.length = 0 ∨ total ≤ offset ∨ 100000 < offset then .entries (entries ++ page)
    else listFrom exchange path (entries ++ page)
termination_by 100001 - entries.length
decreasing_by
  have hoffset : offset = entries.length + page.length := List.length_append
  change 100001 - offset < 100001 - entries.length
  omega

/-- `list_dir_all`; `exchange` are the events that arrive after a command. -/
def listDirAll (exchange : Command → List Event) (path : Text) : Listing :=
  listFrom exchange path []

/-- The single answer to a request is taken. -/
theorem sendAwait_singleton {target : String} {predicate : Dict → Bool} {data : Dict}
    (htarget : target ≠ "err") (h : predicate data = true) :
    sendAwait target predicate [⟨target, data⟩] = .ok data := by
  have hfind : [(⟨target, data⟩ : Event)].find? (fun e => e.name = "err" ||
      (e.name = target && predicate e.data)) = some ⟨target, data⟩ := by
    simp [h]
  rw [sendAwait, hfind]
  exact if_neg htarget

theorem formatCommand_page (path : Text) (offset : Nat) :
    formatCommand (pageCommand path offset) =
      .ok ("LISTDIR".toList ++ '|' :: (path ++ '|' :: Py.str offset)) := by
  have hline : formatCommand (pageCommand path offset) =
      .ok (commandLine "LISTDIR" [.str path, .int offset]) := rfl
  rw [hline]
  simp [commandLine, Text.joinBar, Arg.format, List.intercalate]

end AmigaDevbench.ListDir
