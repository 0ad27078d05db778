import AmigaDevbench.Client.Variables

/-!
# Variables over the link

`GETVAR` and `SETVAR` find the client, by its name in front of a dot or by the variable's name in
the registry, send it a request and wait for the reply. What goes to the host is read off the data
field of the reply, in the same way for both.
-/

namespace AmigaDevbench.Daemon

open CText CNumber Client

/-- `send_err`. -/
def sendErr (context detail : Text) : Text :=
  let dlen :=
    if maxLine ≤ 4 + context.length + 1 + detail.length then maxLine - 4 - context.length - 2
    else detail.length
  "ERR|".toList ++ context ++ (if 0 < dlen then '|' :: detail.take dlen else [])

/-- `type_names`. -/
def typeName (type : Int) : Text :=
  if type = 0 then "i32".toList
  else if type = 1 then "u32".toList
  else if type = 2 then "str".toList
  else if type = 3 then "f32".toList
  else if type = 4 then "ptr".toList
  else ['?']

/-- `"VAR|%s|%s|%s"`. -/
def varLine (name type value : Text) : Text :=
  "VAR".toList ++ '|' :: (name ++ '|' :: (type ++ '|' :: value))

/-- What `var_send_and_wait` makes of the data of a reply. -/
def readReply (data : Text) : Text :=
  match data.after? '|' with
  | some rest =>
    match rest.after? '|' with
    | some value => varLine ((data.before '|').take 33) (typeName (strtol rest)) value
    | none => sendErr "VAR".toList "bad reply format".toList
  | none => sendErr "VAR".toList "bad reply format".toList

/-- The registry, the tables of the clients by their reply ports, the memory they share, and the
requests that the daemon no longer waits for, which their clients have not handled yet. -/
structure VarState where
  registry : Registry
  tables : Port → VarTable
  memory : Memory
  abandoned : Port → List Request

/-- How an exchange with a client goes: what the daemon does not get, or the address of the reply
and the polls that are left when it comes. -/
inductive Exchange where
  | noMemory
  | noPort
  | timeout
  | replied (address retries : Nat)
  deriving DecidableEq, Repr

namespace VarState

variable (s : VarState)

/-- The client handles the requests that still wait at its port. -/
def settle (port : Port) : VarState :=
  { s with
    memory := (s.abandoned port).foldl
      (fun memory req => (processDaemonMsg (s.tables port) memory req).1) s.memory
    abandoned := Function.update s.abandoned port [] }

/-- The log line of an exchange. -/
def exchangeLog (address retries : Nat) : Text :=
  "LOG|I|0|[VAR] send_and_wait: reply=".toList ++
    ((Nat.toDigits 16 address) ++ " retries=".toList ++ decimal retries)

/-- The data field is cut to its array. -/
def cutData : Request → Request
  | .varGet data => .varGet (data.take maxData)
  | .varSet data => .varSet (data.take maxData)

/-- `var_send_and_wait`: the state behind it and the lines that are sent. -/
def varSendAndWait (port : Port) (req : Request) : Exchange → VarState × List Text
  | .noMemory => (s, [sendErr "VAR".toList "out of memory".toList])
  | .noPort => (s, [sendErr "VAR".toList "cannot create port".toList])
  | .timeout =>
    ({ s with abandoned :=
        Function.update s.abandoned port (s.abandoned port ++ [cutData req]) },
      [exchangeLog 0 0, sendErr "VAR".toList "client timeout".toList])
  | .replied address retries =>
    let s' := s.settle port
    let (memory, reply) := processDaemonMsg (s.tables port) s'.memory (cutData req)
    ({ s' with memory := memory },
      [exchangeLog address retries,
        if reply.result = 0 then readReply reply.data
        else sendErr "VAR".toList "not found in client".toList])

/-- `find_client_with_var`. -/
def findClientWithVar (varname : Text) : Option ClientEntry :=
  s.registry.clients.entries.find? fun ce => ce.vars.any fun v => v.name = varname

/-- `client_find_by_name`, the entry. -/
def clientNamed (name : Text) : Option ClientEntry :=
  (s.registry.clientFindByName name).bind s.registry.clients

/-- `handle_getvar`. -/
def handleGetvar (args : Text) (e : Exchange) : VarState × List Text :=
  match args.after? '.' with
  | some varname =>
    let cname := (args.before '.').take 33
    match s.clientNamed cname with
    | some ce => s.varSendAndWait ce.replyPort (.varGet varname) e
    | none => (s, [sendErr "Client not found".toList cname])
  | none =>
    match s.findClientWithVar args with
    | some ce => s.varSendAndWait ce.replyPort (.varGet args) e
    | none => (s, [sendErr "GETVAR".toList "variable not found".toList])

/-- `handle_setvar`: a dot counts if it stands in front of the bar. -/
def handleSetvar (args : Text) (e : Exchange) : VarState × List Text :=
  if '|' ∈ args then
    match (args.before '|').after? '.' with
    | some _ =>
      let cname := (args.before '.').take 33
      match s.clientNamed cname with
      | some ce => s.varSendAndWait ce.replyPort (.varSet ((args.after? '.').getD [])) e
      | none => (s, [sendErr "Client not found".toList cname])
    | none =>
      match s.findClientWithVar ((args.before '|').take 33) with
      | some ce => s.varSendAndWait ce.replyPort (.varSet args) e
      | none => (s, [sendErr "SETVAR".toList "variable not found".toList])
  else (s, [sendErr "SETVAR".toList "needs varname|value format".toList])

end VarState

end AmigaDevbench.Daemon
