import AmigaDevbench.Client.Variables

/-!
# What a client registers

A client keeps a table of variables, one of hooks and one of memory regions. Each registration
writes an entry, with a name and a description cut to their arrays, and tells the daemon in a text
message; each removal clears an entry and sends the name. The tables are cleared when the client
connects and when it cleans up.
-/

namespace AmigaDevbench.Client

open CText CNumber Daemon

/-- `struct HookEntry` of an active entry. -/
structure HookEntry where
  name : Text
  description : Text
  fn : Nat
  deriving DecidableEq, Repr

/-- `struct MemRegEntry` of an active entry. -/
structure MemRegEntry where
  name : Text
  description : Text
  addr : Nat
  size : Nat
  deriving DecidableEq, Repr

/-- The static variables of a program that links the library. -/
structure Program where
  connected : Bool
  clientId : UInt32
  vars : VarTable
  hooks : Slots maxHooks HookEntry
  memregs : Slots maxMemRegions MemRegEntry

namespace Program

/-- A program that has just been started. -/
def started : Program := ⟨false, 0, .empty, .empty, .empty⟩

/-- The loops that mark all entries as free. -/
def clearTables (p : Program) : Program :=
  { p with vars := .empty, hooks := .empty, memregs := .empty }

end Program

/-- What `send_and_wait` copies into the data field of its message. -/
def dataField (data : Text) : Text := data.take maxData

/-- A description appended with `strncat` in a buffer of the size of the data field. -/
def withDescription (head description : Text) : Text := (head ++ description).take (maxData - 1)

/-- `description ? description : ""`. -/
def orEmpty (description : Option CString) : Text := description.elim [] (·.val)

/-- `ab_init` with the daemon's reply, if there is a reply port for it: the id and the result. -/
def abInit (p : Program) (reply : Option (UInt32 × Int)) : Program :=
  if p.connected then p
  else
    match reply with
    | some (clientId, result) =>
      if result = 0 then { p.clearTables with connected := true, clientId := clientId }
      else p.clearTables
    | none => p.clearTables

/-- A program gets connected with empty tables and the id of the reply. -/
theorem abInit_connected {p : Program} {reply : Option (UInt32 × Int)}
    (hoff : p.connected = false) (hon : (abInit p reply).connected = true) :
    ∃ clientId, reply = some (clientId, 0) ∧
      abInit p reply = { p.clearTables with connected := true, clientId := clientId } := by
  unfold abInit at hon ⊢
  rw [hoff, if_neg Bool.false_ne_true] at hon ⊢
  have hcleared : p.clearTables.connected ≠ true := by
    rw [Program.clearTables, hoff]
    exact Bool.false_ne_true
  match reply with
  | none => exact absurd hon hcleared
  | some (clientId, result) =>
    dsimp only at hon ⊢
    split_ifs at hon ⊢ with hresult
    · exact ⟨clientId, by rw [hresult], rfl⟩
    · exact absurd hon hcleared

/-- `ab_cleanup`, with the message it sends. -/
def abCleanup (p : Program) : Program × Option ClientMsg :=
  if p.connected then ({ p.clearTables with connected := false, clientId := 0 }, some .unregister)
  else (p, none)

/-- `ab_register_var`: the daemon is told even if the table is full. -/
def abRegisterVar (p : Program) (name : Option CString) (type : Int32) (ptr : Nat) :
    Program × Option ClientMsg :=
  match name with
  | some name =>
    if p.connected ∧ ptr ≠ 0 then
      ({ p with vars := p.vars.store (·.name = name.val) ⟨fit 33 name.val, type.toInt, ptr⟩ },
        some (.varRegister (dataField (name.val ++ '|' :: longText type.toInt))))
    else (p, none)
  | none => (p, none)

/-- `ab_unregister_var`. -/
def abUnregisterVar (p : Program) (name : Option CString) : Program × Option ClientMsg :=
  match name with
  | some name =>
    if p.connected then
      ({ p with vars := p.vars.discard (·.name = name.val) },
        some (.varUnregister (dataField name.val)))
    else (p, none)
  | none => (p, none)

/-- `ab_register_hook`: a full table is left alone. -/
def abRegisterHook (p : Program) (name description : Option CString) (fn : Nat) :
    Program × Option ClientMsg :=
  match name with
  | some name =>
    if p.connected ∧ fn ≠ 0 ∧ (p.hooks.slotFor (·.name = name.val)).isSome then
      ({ p with
          hooks := p.hooks.store (·.name = name.val)
            ⟨fit 33 name.val, fit 63 (orEmpty description), fn⟩ },
        some (.hookRegister (dataField
          (withDescription (name.val ++ ['|']) (orEmpty description)))))
    else (p, none)
  | none => (p, none)

/-- `ab_unregister_hook`. -/
def abUnregisterHook (p : Program) (name : Option CString) : Program × Option ClientMsg :=
  match name with
  | some name =>
    if p.connected then
      ({ p with hooks := p.hooks.discard (·.name = name.val) },
        some (.hookUnregister (dataField name.val)))
    else (p, none)
  | none => (p, none)

/-- `"%s|%08lx|%lu|"`. -/
def memregHead (name : Text) (addr size : Nat) : Text :=
  name ++ '|' :: (hex8 addr ++ '|' :: (decimal size ++ ['|']))

/-- `ab_register_memregion`: a full table is left alone. -/
def abRegisterMemregion (p : Program) (name : Option CString) (addr size : UInt32)
    (description : Option CString) : Program × Option ClientMsg :=
  match name with
  | some name =>
    if p.connected ∧ addr ≠ 0 ∧ size ≠ 0 ∧ (p.memregs.slotFor (·.name = name.val)).isSome then
      ({ p with
          memregs := p.memregs.store (·.name = name.val)
            ⟨fit 33 name.val, fit 63 (orEmpty description), addr.toNat, size.toNat⟩ },
        some (.memregRegister (dataField (withDescription
          (memregHead name.val addr.toNat size.toNat) (orEmpty description)))))
    else (p, none)
  | none => (p, none)

/-- `ab_unregister_memregion`. -/
def abUnregisterMemregion (p : Program) (name : Option CString) : Program × Option ClientMsg :=
  match name with
  | some name =>
    if p.connected then
      ({ p with memregs := p.memregs.discard (·.name = name.val) },
        some (.memregUnregister (dataField name.val)))
    else (p, none)
  | none => (p, none)

/-! ### What the daemon lists of an entry -/

/-- The name and the type of a variable. -/
def VarEntry.info (ve : VarEntry) : VarInfo := ⟨ve.name, ve.type⟩

/-- The name and the description of a hook. -/
def HookEntry.info (he : HookEntry) : HookInfo := ⟨he.name, he.description⟩

/-- The name, the place and the description of a memory region. -/
def MemRegEntry.info (me : MemRegEntry) : MemRegInfo := ⟨me.name, me.addr, me.size, me.description⟩

end AmigaDevbench.Client
