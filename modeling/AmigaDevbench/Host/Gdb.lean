import AmigaDevbench.Host.DebuggerState
import AmigaDevbench.Host.EventBus
import AmigaDevbench.Host.Protocol.Format

/-!
# The GDB server

A remote debugger sends packets; the handler of its connection takes them one at a time out of a
buffer, translates each into lines for the daemon and answers from the cached registers or from
the events that arrive while it waits. A second task forwards every stop event as a stop reply.
The two tasks and the arrival of events interleave, so the server is a state machine: its labels
are the points at which the event loop can switch.
-/

namespace AmigaDevbench

/-- What a packet handler is suspended on. -/
inductive Wait where
  | regs
  | memory (length : Int)
  | ok (context : Text)
  | bpinfo
  | stop
  | status
  | backtrace
  deriving DecidableEq, Repr

/-- How the handler of a connection is doing: `_process_packet` raised, or its answer could not
be framed. -/
inductive Fate where
  | running
  | raised (e : PyError)
  | unframed (e : PyError)
  deriving DecidableEq, Repr

/-- The state that the packet handler, the event forwarder and the link share. -/
structure Gdb where
  dbg : DebuggerState
  /-- The serial link is up. -/
  connected : Bool
  /-- What the client sent and the handler has not taken yet. -/
  buf : Text
  /-- The wait of the handler with the events queued for it. -/
  waiting : Option (Wait × List Event)
  /-- The queue of the event forwarder. -/
  stops : List Event
  /-- What was written to the client. -/
  out : List Text
  /-- The lines written to the link. -/
  sent : List Text
  fate : Fate

/-- What a packet leads to before the first suspension: a response, or a wait. -/
inductive Outcome where
  | reply (response : Option Text)
  | wait (w : Wait)
  deriving DecidableEq, Repr

namespace Gdb

/-- The server when a client connects. -/
def initial (connected : Bool) : Gdb := ⟨.reset, connected, [], none, [], [], [], .running⟩

/-- `_checksum`. -/
def checksum (data : Text) : Nat := (data.map Char.toNat).sum % 256

/-- `f"{cs:02x}"`. -/
def hex2 (n : Nat) : Text := [Nat.digitChar (n / 16), Nat.digitChar (n % 16)]

/-- `_make_packet`: only ASCII can be framed. -/
def makePacket (data : Text) : Except PyError Text :=
  if data.all (·.toNat < 128) then .ok ('$' :: data ++ '#' :: hex2 (checksum data))
  else .error .unicodeEncodeError

/-- A packet handler: the state at its first suspension, and the outcome or the exception. -/
abbrev Result := Gdb × Except PyError Outcome

def answer (g : Gdb) (response : Text) : Result := (g, .ok (.reply (some response)))

def await (g : Gdb) (w : Wait) : Result := (g, .ok (.wait w))

/-- The answer for a packet that cannot be served. -/
def e01 (g : Gdb) : Result := g.answer "E01".toList

/-- `send_raw`. -/
def sendRaw (g : Gdb) (line : Text) : Except PyError Gdb :=
  if g.connected then do
    let bytes ← Protocol.encode line
    return { g with sent := g.sent ++ [bytes] }
  else .error .runtimeError

/-- `send`. -/
def send (g : Gdb) (cmd : Protocol.Command) : Except PyError Gdb := do
  let bytes ← Protocol.send g.connected cmd
  return { g with sent := g.sent ++ [bytes] }

/-- Go on when the line was sent; otherwise the exception leaves the handler. -/
def andThen (g : Gdb) (x : Except PyError Gdb) (next : Gdb → Result) : Result :=
  match x with
  | .ok g' => next g'
  | .error e => (g, .error e)

/-- The registers in GDB's order: SR stands before PC. -/
def gdbOrder : List (Fin 18) := [0, 1, 2, 3, 4, 5, 6, 7, 8, 9, 10, 11, 12, 13, 14, 15, 17, 16]

/-- The cached registers as `_read_all_regs` joins them. -/
def regsText (dbg : DebuggerState) : Text := gdbOrder.flatMap fun r => Py.hex32 (dbg.regs r)

/-- `_read_all_regs` up to its wait. -/
def readAllRegs (g : Gdb) : Result :=
  if g.dbg.stopped then g.answer (regsText g.dbg)
  else g.andThen (g.sendRaw "DBGREGS".toList) (·.await .regs)

/-- The name of a register for DBGSETREG. -/
def regName (r : Fin 18) : Text :=
  if r.val < 8 then 'D' :: Py.str r.val
  else if r.val < 16 then 'A' :: Py.str (r.val - 8 : Nat)
  else if r.val = 16 then "PC".toList
  else "SR".toList

def setReg (g : Gdb) (r : Fin 18) (value : Int) : Gdb :=
  { g with dbg := { g.dbg with regs := Function.update g.dbg.regs r value } }

/-- `f"DBGSETREG|{name}|{value:08x}"`. -/
def setRegLine (name : Text) (value : Int) : Text :=
  "DBGSETREG|".toList ++ name ++ '|' :: Py.hex32 value

/-- The loop of `_write_all_regs`: an exception leaves the registers before it written. -/
def writeRegs (g : Gdb) : List (Fin 18) → Text → Result
  | [], _ => g.answer "OK".toList
  | r :: rs, hexData =>
    match Py.int 16 (hexData.take 8) with
    | .error e => (g, .error e)
    | .ok val =>
      g.andThen (g.sendRaw (setRegLine (regName r) val)) fun g' =>
        writeRegs (g'.setReg r val) rs (hexData.drop 8)

/-- `_write_all_regs`. -/
def writeAllRegs (g : Gdb) (hexData : Text) : Result :=
  if hexData.length < 18 * 4 * 2 then g.e01 else g.writeRegs gdbOrder hexData

/-- `_read_reg`: a negative number indexes the list of registers from its end. -/
def readReg (g : Gdb) (data : Text) : Result :=
  match Py.int 16 data with
  | .error _ => g.e01
  | .ok regnum =>
    if regnum < 16 then
      match Py.index 18 regnum with
      | .ok r => g.answer (Py.hex32 (g.dbg.regs r))
      | .error e => (g, .error e)
    else if regnum = 16 then g.answer (Py.hex32 (g.dbg.regs 17))
    else if regnum = 17 then g.answer (Py.hex32 (g.dbg.regs 16))
    else g.e01

/-- The name and the index of a register that P writes. -/
def regTarget (regnum : Int) : Option (Text × Int) :=
  if regnum < 8 then some ('D' :: Py.str regnum, regnum)
  else if regnum < 16 then some ('A' :: Py.str (regnum - 8), regnum)
  else if regnum = 16 then some ("SR".toList, 17)
  else if regnum = 17 then some ("PC".toList, 16)
  else none

/-- `_write_reg`. The line is sent before the register is stored. -/
def writeReg (g : Gdb) (data : Text) : Result :=
  match data.splitOn '=' with
  | [num, val] =>
    match Py.int 16 num, Py.int 16 val with
    | .ok regnum, .ok value =>
      if regnum < 8 ∧ ¬ Py.writable regnum then (g, .error .valueError)
      else match regTarget regnum with
        | none => g.e01
        | some (name, idx) =>
          g.andThen (g.sendRaw (setRegLine name value)) fun g' =>
            match Py.index 18 idx with
            | .ok r => (g'.setReg r value).answer "OK".toList
            | .error e => (g', .error e)
    | _, _ => g.e01
  | _ => g.e01

/-- `_read_memory` up to its wait. -/
def readMemory (g : Gdb) (data : Text) : Result :=
  match data.splitOn ',' with
  | [a, l] =>
    match Py.int 16 a, Py.int 16 l with
    | .ok addr, .ok length =>
      if g.connected ∧ ¬ Py.writable (min length 4096) then (g, .error .valueError)
      else g.andThen (g.send [("type", .str "INSPECT".toList), ("address", .str (Py.hex32 addr)),
        ("size", .int (min length 4096))]) (·.await (.memory (min length 4096)))
    | _, _ => g.e01
  | _ => g.e01

/-- `_write_memory` up to its wait. The length in the header is not looked at. -/
def writeMemory (g : Gdb) (data : Text) : Result :=
  match Text.after? ':' data with
  | none => g.e01
  | some hexData =>
    match (Text.before ':' data).splitOn ',' with
    | [a, _] =>
      match Py.int 16 a with
      | .ok addr =>
        g.andThen (g.send [("type", .str "WRITEMEM".toList), ("address", .str (Py.hex32 addr)),
          ("hexData", .str hexData)]) (·.await (.ok "WRITEMEM".toList))
      | .error _ => g.e01
    | _ => g.e01

/-- The optional address of `s` and `c`. -/
def sendPc (g : Gdb) (data : Text) (next : Gdb → Result) : Result :=
  if data = [] then next g
  else match Py.int 16 data with
    | .ok addr => g.andThen (g.sendRaw (setRegLine "PC".toList addr)) next
    | .error _ => next g

/-- `_step` up to its wait. -/
def stepPacket (g : Gdb) (data : Text) : Result :=
  g.sendPc data fun g => g.andThen (g.sendRaw "DBGSTEP".toList) (·.await .stop)

/-- `_continue`: the stop reply is left to the event forwarder. -/
def continuePacket (g : Gdb) (data : Text) : Result :=
  g.sendPc data fun g => g.andThen (g.sendRaw "DBGCONT".toList) fun g' => (g', .ok (.reply none))

/-- `_set_breakpoint` and `_clear_breakpoint` up to their waits. -/
def breakpointPacket (command : String) (w : Wait) (g : Gdb) (data : Text) : Result :=
  match data.splitOn ',' with
  | kind :: a :: _ =>
    if kind ≠ ['0'] then g.answer []
    else match Py.int 16 a with
      | .ok addr => g.andThen (g.sendRaw (command.toList ++ '|' :: Py.hex32 addr)) (·.await w)
      | .error _ => g.e01
  | _ => g.e01

def setBreakpoint : Gdb → Text → Result := breakpointPacket "BPSET" .bpinfo

def clearBreakpoint : Gdb → Text → Result := breakpointPacket "BPCLEAR" (.ok "BPCLEAR".toList)

/-- `_monitor_command` up to its wait. -/
def monitorCommand (g : Gdb) (cmd : Text) : Result :=
  if Py.strip cmd = "status".toList then
    g.andThen (g.sendRaw "DBGSTATUS".toList) (·.await .status)
  else if Py.strip cmd = "bt".toList then
    g.andThen (g.sendRaw "DBGBT".toList) (·.await .backtrace)
  else g.answer []

/-- The command of a qRcmd packet, if its digits are those of an ASCII text. -/
def monitorText (hexCmd : Text) : Option Text :=
  match Py.fromhex hexCmd with
  | .ok bytes => if bytes.all (·.toNat < 128) then some (Bytes.latin1 bytes) else none
  | .error _ => none

/-- The packets that are recognised by more than their first character. -/
def query (g : Gdb) (data : Text) : Result :=
  if "qSupported".toList.isPrefixOf data then g.answer "PacketSize=1024".toList
  else if data = "qAttached".toList then g.answer (if g.dbg.attached then ['1'] else ['0'])
  else if data = "qC".toList then g.answer "QC1".toList
  else if "qfThreadInfo".toList.isPrefixOf data then g.answer "m1".toList
  else if "qsThreadInfo".toList.isPrefixOf data then g.answer ['l']
  else if data = "qTStatus".toList then g.answer []
  else if "qRcmd,".toList.isPrefixOf data then
    match monitorText (data.drop 6) with
    | some cmd => g.monitorCommand cmd
    | none => g.e01
  else g.answer []

/-- `_process_packet` up to its first suspension. -/
def processPacket (g : Gdb) : Text → Result
  | [] => g.answer []
  | '?' :: _ => g.answer (if g.dbg.stopped then "S05".toList else "S00".toList)
  | 'g' :: _ => g.readAllRegs
  | 'G' :: data => g.writeAllRegs data
  | 'm' :: data => g.readMemory data
  | 'M' :: data => g.writeMemory data
  | 's' :: data => g.stepPacket data
  | 'c' :: data => g.continuePacket data
  | 'Z' :: data => g.setBreakpoint data
  | 'z' :: data => g.clearBreakpoint data
  | 'k' :: _ => g.andThen (g.sendRaw "DBGDETACH".toList) fun g' => (g', .ok (.reply none))
  | 'D' :: _ => g.andThen (g.sendRaw "DBGDETACH".toList) (·.answer "OK".toList)
  | 'p' :: data => g.readReg data
  | 'P' :: data => g.writeReg data
  | data => g.query data

end Gdb

namespace Wait

/-- The events that a wait subscribes to. -/
def events : Wait → List String
  | regs => ["dbg_regs"]
  | memory _ => ["mem", "err"]
  | ok _ => ["ok"]
  | bpinfo => ["dbg_bpinfo"]
  | stop => ["dbg_stop"]
  | status => ["dbg_state"]
  | backtrace => ["dbg_bt"]

/-- The loop of `_read_memory`: the data collected until the length is reached, nothing on an
error. -/
def collect (length : Int) : Int → List Event → Option (List Text)
  | _, [] => some []
  | received, e :: queue =>
    if received < length then
      if e.name = "err" then none
      else (collect length (received + e.data.getInt "size" 0) queue).map
        (e.data.getText "hexData" [] :: ·)
    else some []

/-- The reply of `_read_memory`. -/
def memoryReply (length : Int) (queue : List Event) : Text :=
  match collect length 0 queue with
  | none | some [] => "E01".toList
  | some chunks => (Py.lower chunks.flatten).take (length * 2).toNat

/-- `text.encode("ascii").hex()`, where an exception is answered with E01. -/
def asciiHex (text : Text) : Text :=
  if text.all (·.toNat < 128) then Bytes.hex (text.map fun c => UInt8.ofNat c.toNat)
  else "E01".toList

/-- `str(b)`. -/
def boolText (b : Bool) : Text := if b then "True".toList else "False".toList

def statusReply (msg : Dict) : Text :=
  asciiHex ("attached=".toList ++ boolText (msg.getBool "attached") ++ ", stopped=".toList ++
    boolText (msg.getBool "stopped") ++ ", target=".toList ++ msg.getText "targetName" ['?'])

/-- The frames of a backtrace, from the `i`-th on. -/
def frameTexts : Nat → List Val → List Text
  | _, [] => []
  | i, frame :: frames =>
    let pc := match frame with
      | .dict f => Dict.getInt f "pc" 0
      | _ => 0
    ('#' :: Py.str i ++ " 0x".toList ++ Py.hex32 pc) :: frameTexts (i + 1) frames

def backtraceReply (msg : Dict) : Text :=
  match msg.get? "frames" with
  | some (.list frames) => asciiHex (['\n'].intercalate (frameTexts 0 frames))
  | _ => []

/-- The end of a packet handler behind its wait, from the events it took off its queue before
the deadline. -/
def finish (dbg : DebuggerState) (queue : List Event) : Wait → Text
  | regs => Gdb.regsText dbg
  | memory length => memoryReply length queue
  | ok context =>
    match waitFor "ok" (fun m => (Text.beforeStr? context (m.getText "context" [])).isSome)
      queue with
    | some _ => "OK".toList
    | none => "E01".toList
  | bpinfo =>
    match waitFor "dbg_bpinfo" (fun _ => true) queue with
    | some _ => "OK".toList
    | none => "E01".toList
  | stop => "S05".toList
  | status =>
    match waitFor "dbg_state" (fun _ => true) queue with
    | some msg => statusReply msg
    | none => "4e6f20726573706f6e7365".toList
  | backtrace =>
    match waitFor "dbg_bt" (fun _ => true) queue with
    | some msg => backtraceReply msg
    | none => []

end Wait

/-- What reaches the server from outside the two tasks: updates of the cache by the connection
and by the listener of debugger events, and published events. -/
inductive Arrival where
  | stop (msg : Dict)
  | state (msg : Dict)
  | running
  | reset
  | event (e : Event)

/-- What the handler takes off the front of its buffer. -/
inductive Token where
  | ack
  | nak
  | interrupt
  | noise
  | packet (data : Text)
  deriving DecidableEq, Repr

/-- The points at which the event loop switches. -/
inductive GdbLabel where
  /-- The client sent data. -/
  | read (data : Bytes)
  /-- The handler takes the next token. -/
  | handle
  /-- The wait of the handler ends after the given number of queued events. -/
  | resume (taken : Nat)
  /-- The forwarder takes an event. -/
  | forward
  | arrive (a : Arrival)
  | link (up : Bool)

namespace Gdb

/-- The next token of the buffer and the rest; nothing while a packet is incomplete. The
checksum is skipped. -/
def nextToken : Text → Option (Token × Text)
  | [] => none
  | '+' :: buf => some (.ack, buf)
  | '-' :: buf => some (.nak, buf)
  | '\x03' :: buf => some (.interrupt, buf)
  | buf =>
    match Text.after? '$' buf with
    | none => some (.noise, [])
    | some body =>
      match Text.after? '#' body with
      | none => none
      | some tail => if 2 ≤ tail.length then some (.packet (Text.before '#' body), tail.drop 2)
          else none

/-- `put_nowait`, dropping the oldest event when the queue is full. -/
def enqueue (queue : List Event) (e : Event) : List Event :=
  if queue.length < 1000 then queue ++ [e] else queue.tail ++ [e]

/-- Something reaches the server: the cache is updated, or an event is queued for those who
subscribe to it. -/
def arrive (g : Gdb) : Arrival → Gdb
  | .stop msg => { g with dbg := g.dbg.updateFromStop msg }
  | .state msg => { g with dbg := g.dbg.updateFromState msg }
  | .running => { g with dbg := { g.dbg with stopped := false } }
  | .reset => { g with dbg := .reset }
  | .event e =>
    { g with
      waiting := g.waiting.map fun wait =>
        (wait.1, if e.name ∈ wait.1.events then enqueue wait.2 e else wait.2)
      stops := if e.name = "dbg_stop" then enqueue g.stops e else g.stops }

/-- Frame a response and write it. -/
def respond (g : Gdb) : Option Text → Gdb
  | none => g
  | some response =>
    match makePacket response with
    | .ok packet => { g with out := g.out ++ [packet] }
    | .error e => { g with fate := .unframed e }

/-- The packet loop behind `_process_packet`. -/
def settle : Result → Gdb
  | (g, .error e) => { g with fate := .raised e }
  | (g, .ok (.reply response)) => g.respond response
  | (g, .ok (.wait w)) => { g with waiting := some (w, []) }

/-- What the loop of `_handle_client` does with a token. -/
def take (g : Gdb) : Token → Gdb
  | .ack | .nak | .noise => g
  | .interrupt => if g.dbg.stopped then g.respond (some "S05".toList) else g
  | .packet data => settle ({ g with out := g.out ++ [['+']] }.processPacket data)

/-- One step of the server. -/
def step (g : Gdb) : GdbLabel → Option Gdb
  | .read data =>
    if g.fate = .running ∧ g.waiting = none ∧ nextToken g.buf = none then
      some { g with buf := g.buf ++ Py.decodeAscii data }
    else none
  | .handle =>
    if g.fate = .running ∧ g.waiting = none then
      (nextToken g.buf).map fun next => { g with buf := next.2 }.take next.1
    else none
  | .resume taken =>
    match g.waiting with
    | some (w, queue) =>
      if taken ≤ queue.length then
        some ({ g with waiting := none }.respond (some (w.finish g.dbg (queue.take taken))))
      else none
    | none => none
  | .forward =>
    match g.stops with
    | _ :: stops =>
      if g.fate = .running then some ({ g with stops := stops }.respond (some "S05".toList))
      else none
    | [] => none
  | .arrive a => some (g.arrive a)
  | .link up => some { g with connected := up }

end Gdb

end AmigaDevbench
