import AmigaDevbench.Core.Packed
import AmigaDevbench.Daemon.Files

/-!
# The client registry of the daemon

A client takes the first free slot of the table and the next id. Its entry also lists the names
of its variables, hooks and memory regions, as the client's messages report them. Every message
names its client by the id, and the daemon looks the id up in the table.
-/

namespace AmigaDevbench.Daemon

open CText CNumber

/-- `AB_MAX_CLIENTS`, `AB_MAX_VARS`, `AB_MAX_HOOKS` and `AB_MAX_MEMREGIONS`. -/
abbrev maxClients : Nat := 16

abbrev maxVars : Nat := 32

abbrev maxHooks : Nat := 16

abbrev maxMemRegions : Nat := 8

/-- A message port, by its address. -/
abbrev Port := Nat

/-- `struct ClientVarInfo`. -/
structure VarInfo where
  name : Text
  type : Int
  deriving DecidableEq, Repr

/-- `struct ClientHookInfo`. -/
structure HookInfo where
  name : Text
  description : Text
  deriving DecidableEq, Repr

/-- `struct ClientMemRegInfo`. -/
structure MemRegInfo where
  name : Text
  addr : Nat
  size : Nat
  description : Text
  deriving DecidableEq, Repr

/-- `struct ClientEntry` of an active client. Its reply port is never `NULL`. -/
structure ClientEntry where
  clientId : UInt32
  name : ClientName
  replyPort : Port
  vars : List VarInfo
  hooks : List HookInfo
  memregs : List MemRegInfo

/-- `clients` and `next_client_id`. -/
structure Registry where
  clients : Slots maxClients ClientEntry
  nextClientId : UInt32

namespace Registry

/-- The registry when the daemon starts. -/
def initial : Registry := ⟨.empty, 1⟩

variable (r : Registry)

/-- `client_count`. -/
def clientCount : Nat := r.clients.entries.length

/-- `client_find`. -/
def clientFind (clientId : UInt32) : Option (Fin maxClients) :=
  r.clients.find (·.clientId = clientId)

/-- `client_find_by_name`. -/
def clientFindByName (name : Text) : Option (Fin maxClients) :=
  r.clients.find (·.name.chars = name)

/-- `client_register`: the id, or -1 without a reply port or a free slot. The name of a new client
is cut to its array; the comparison with the names in the table is not. -/
def clientRegister (name : Text) (replyPort : Option Port) : Registry × Int :=
  match replyPort with
  | none => (r, -1)
  | some port =>
    match r.clientFindByName name with
    | some i =>
      ({ r with clients := r.clients.modify i fun ce => { ce with replyPort := port } },
        (r.clients i).elim (-1) fun ce => toSigned 32 ce.clientId.toNat)
    | none =>
      match r.clients.findFree with
      | none => (r, -1)
      | some i =>
        (⟨r.clients.put i ⟨r.nextClientId, .register name, port, [], [], []⟩, r.nextClientId + 1⟩,
          toSigned 32 r.nextClientId.toNat)

/-- `client_unregister`. -/
def clientUnregister (clientId : UInt32) : Registry :=
  match r.clientFind clientId with
  | some i => { r with clients := r.clients.clear i }
  | none => r

/-- Change the entry that `client_find` returns. -/
def update (clientId : UInt32) (f : ClientEntry → ClientEntry) : Registry :=
  match r.clientFind clientId with
  | some i => { r with clients := r.clients.modify i f }
  | none => r

end Registry

namespace ClientEntry

variable (ce : ClientEntry)

/-- `client_add_var`. -/
def addVar (name : Text) (type : Int) : ClientEntry :=
  { ce with vars := Packed.upsert VarInfo.name maxVars ce.vars ⟨fit 33 name, type⟩ }

/-- `client_remove_var`. -/
def removeVar (name : Text) : ClientEntry :=
  { ce with vars := Packed.remove VarInfo.name ce.vars name }

/-- `client_add_hook`. -/
def addHook (name description : Text) : ClientEntry :=
  { ce with
    hooks := Packed.upsert HookInfo.name maxHooks ce.hooks ⟨fit 33 name, fit 63 description⟩ }

/-- `client_remove_hook`. -/
def removeHook (name : Text) : ClientEntry :=
  { ce with hooks := Packed.remove HookInfo.name ce.hooks name }

/-- `client_add_memreg`. -/
def addMemreg (name : Text) (addr size : Nat) (description : Text) : ClientEntry :=
  { ce with
    memregs := Packed.upsert MemRegInfo.name maxMemRegions ce.memregs
      ⟨fit 33 name, addr, size, fit 63 description⟩ }

/-- `client_remove_memreg`. -/
def removeMemreg (name : Text) : ClientEntry :=
  { ce with memregs := Packed.remove MemRegInfo.name ce.memregs name }

end ClientEntry

/-- The messages of a client that concern the registry, by their type, with the C string in their
data field. -/
inductive ClientMsg where
  | register (data : Text) (replyPort : Option Port)
  | unregister
  | varRegister (data : Text)
  | varUnregister (data : Text)
  | hookRegister (data : Text)
  | hookUnregister (data : Text)
  | memregRegister (data : Text)
  | memregUnregister (data : Text)

/-- What `ipc_process` reads off the data of a VAR_REGISTER, `"name|type"`. -/
def readVar (data : Text) (ce : ClientEntry) : ClientEntry :=
  match data.after? '|' with
  | some type => ce.addVar ((data.before '|').take 33) (strtol type)
  | none => ce

/-- The data of a HOOK_REGISTER, `"name|description"`. -/
def readHook (data : Text) (ce : ClientEntry) : ClientEntry :=
  match data.after? '|' with
  | some description => ce.addHook ((data.before '|').take 33) description
  | none => ce

/-- The data of a MEMREG_REGISTER, `"name|addr_hex|size|description"`. -/
def readMemreg (data : Text) (ce : ClientEntry) : ClientEntry :=
  match data.after? '|' with
  | some addr =>
    match addr.after? '|' with
    | some size =>
      ce.addMemreg ((data.before '|').take 33) (strtoul 16 addr) (strtoul 10 size)
        ((size.after? '|').getD [])
    | none => ce.addMemreg ((data.before '|').take 33) (strtoul 16 addr) 0 []
  | none => ce

theorem clientId_readVar (data : Text) (ce : ClientEntry) :
    (readVar data ce).clientId = ce.clientId := by
  unfold readVar
  split <;> rfl

theorem clientId_readHook (data : Text) (ce : ClientEntry) :
    (readHook data ce).clientId = ce.clientId := by
  unfold readHook
  split <;> rfl

theorem clientId_readMemreg (data : Text) (ce : ClientEntry) :
    (readMemreg data ce).clientId = ce.clientId := by
  unfold readMemreg
  split
  · split <;> rfl
  · rfl

/-- `ipc_process` for these messages: the registry, and the id and the result in the reply. -/
def ipcProcess (r : Registry) (clientId : UInt32) : ClientMsg → Registry × UInt32 × Int
  | .register data replyPort =>
    let (r', cid) := r.clientRegister data replyPort
    if 0 ≤ cid then (r', UInt32.ofNat cid.toNat, 0) else (r', clientId, -1)
  | .unregister => (r.clientUnregister clientId, clientId, 0)
  | .varRegister data => (r.update clientId (readVar data), clientId, 0)
  | .varUnregister data => (r.update clientId (·.removeVar data), clientId, 0)
  | .hookRegister data => (r.update clientId (readHook data), clientId, 0)
  | .hookUnregister data => (r.update clientId (·.removeHook data), clientId, 0)
  | .memregRegister data => (r.update clientId (readMemreg data), clientId, 0)
  | .memregUnregister data => (r.update clientId (·.removeMemreg data), clientId, 0)

/-! ### The listings -/

namespace Registry

variable (r : Registry)

/-- The body of the loops over the ids: the clients that are found, until their number is
reached. -/
def findIds : Nat → List UInt32 → List (Fin maxClients)
  | _, [] => []
  | found, id :: ids =>
    if found < r.clientCount then
      match r.clientFind id with
      | some i => i :: findIds (found + 1) ids
      | none => findIds found ids
    else []

/-- The ids from 1 to `last`. -/
def idsTo (last : Nat) : List UInt32 := (List.range last).map fun k => UInt32.ofNat (k + 1)

/-- `for (id = 1; id <= 100 && found < cc; id++)`. -/
def enumerate : List (Fin maxClients) := r.findIds 0 (idsTo 100)

/-- `"%s(%lu)"`. -/
def clientText (ce : ClientEntry) : Text :=
  ce.name.chars ++ '(' :: (decimal ce.clientId.toNat ++ [')'])

/-- The entries that `protocol_send_clients` writes behind what is in its buffer. -/
def writeClients : Nat → Text → List ClientEntry → Text
  | _, cbuf, [] => cbuf
  | found, cbuf, ce :: ces =>
    let cbuf' := (if 0 < found ∧ cbuf.length < maxLine - 2 then cbuf ++ [','] else cbuf) ++
      clientText ce
    if maxLine - 64 ≤ cbuf'.length then cbuf' else writeClients (found + 1) cbuf' ces

/-- The head of the CLIENTS line. -/
def clientsHead (count : Nat) : Text := "CLIENTS|".toList ++ decimal count ++ ['|']

/-- `protocol_send_clients`. -/
def protocolSendClients : Text :=
  writeClients 0 (clientsHead r.clientCount) (r.enumerate.filterMap r.clients)

/-- The loop that writes the entries of one client behind the head of its line, as long as it ends
more than `room` characters in front of the end of the buffer. -/
def writeEntries (room : Nat) : Bool → Text → List Text → Text
  | _, buf, [] => buf
  | first, buf, entry :: entries =>
    if buf.length < maxLine - room then
      writeEntries room false ((if first then buf else buf ++ [',']) ++ entry) entries
    else buf

/-- The HOOKS line of a client. -/
def hooksLine (ce : ClientEntry) : Text :=
  writeEntries 80 true
    ("HOOKS|".toList ++ ce.name.chars ++ '|' :: (decimal ce.hooks.length ++ ['|']))
    (ce.hooks.map fun h => h.name ++ ':' :: h.description)

/-- The MEMREGS line of a client. -/
def memregsLine (ce : ClientEntry) : Text :=
  writeEntries 120 true
    ("MEMREGS|".toList ++ ce.name.chars ++ '|' :: (decimal ce.memregs.length ++ ['|']))
    (ce.memregs.map fun m =>
      m.name ++ ':' :: (hex8 m.addr ++ ':' :: (decimal m.size ++ ':' :: m.description)))

/-- `handle_listhooks` without a client name. -/
def handleListhooks : List Text :=
  if r.enumerate = [] then ["HOOKS||0|".toList]
  else (r.enumerate.filterMap r.clients).map hooksLine

/-- `handle_listmemregs` without a client name. -/
def handleListmemregs : List Text :=
  if r.enumerate = [] then ["MEMREGS||0|".toList]
  else (r.enumerate.filterMap r.clients).map memregsLine

/-- The clients in the order in which the fallback of `handle_exec` looks for one: the first is
sent the command. -/
def execCandidates : List (Fin maxClients) := (idsTo maxClients).filterMap r.clientFind

/-- The clients that `main` sends ABMSG_SHUTDOWN to at its end. A message is taken from the pool,
of whose eight messages `leaked` were never replied to; `answers` says who replies in time. -/
def notifyShutdown (answers : Fin maxClients → Bool) :
    Nat → List (Fin maxClients) → List (Fin maxClients)
  | _, [] => []
  | leaked, i :: is =>
    if leaked < 8 then i :: notifyShutdown answers (if answers i then leaked else leaked + 1) is
    else notifyShutdown answers leaked is

end Registry

end AmigaDevbench.Daemon
