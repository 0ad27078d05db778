import AmigaDevbench.Core.Crc32
import AmigaDevbench.Host.EventBus

/-!
# Transferring files

Every request of a transfer is followed by one wait, and what the transfer does depends only on
the events that arrive during its waits. A pull gets them as an argument: `arrivals i` are the
events of the `i`-th wait for a piece. A push is a machine that takes one event, or the end of a
wait, at a time, and sends commands.
-/

namespace AmigaDevbench.FileTransfer

/-- `MAX_RETRIES`. -/
def maxRetries : Nat := 6

/-- `crc_match`: no result without a remote CRC or with one that is no number. -/
def crcMatch (remote : Text) (localCrc : BitVec 32) : Option Bool :=
  if remote = [] then none
  else match Py.int 16 remote with
    | .ok n => some (n = localCrc.toNat)
    | .error _ => none

section Pull

/-- How a pull ended: with the data it wrote to the local file, or with the data of its
message. -/
inductive Pulled where
  | unreadable (message : Text)
  | empty
  | failedChunk (chunk offset : Nat)
  | mismatch (localCrc : BitVec 32) (received : Nat)
  | done (data : Bytes) (crcMatch : Option Bool)

variable (path : Text) (chunkSize size : Nat) (arrivals : Nat → List Event)

/-- The tries for one piece, and the number of waits so far. A reply with an odd number of digits
or of another length than requested is dropped. -/
def readChunk (reqSize : Nat) : Nat → Nat → Option Bytes × Nat
  | 0, i => (none, i)
  | tries + 1, i =>
    match waitFor "file" (·.hasText "path" path) (arrivals i) with
    | none => readChunk reqSize tries (i + 1)
    | some msg =>
      match Py.fromhex (msg.getText "hexData" []) with
      | .error _ => readChunk reqSize tries (i + 1)
      | .ok cb => if cb.length ≠ reqSize then readChunk reqSize tries (i + 1) else (some cb, i + 1)

/-- The loop over the pieces: the assembled bytes, or the piece that failed with its offset.
`rounds` bounds the number of pieces; a piece of a positive size advances the loop. -/
def readChunks : Nat → Nat → Nat → Bytes → Option (Except (Nat × Nat) Bytes × Nat)
  | rounds, i, chunkNum, collected =>
    if size ≤ collected.length then some (.ok collected, i)
    else match rounds with
      | 0 => none
      | rounds + 1 =>
        match readChunk path arrivals (min chunkSize (size - collected.length)) maxRetries i with
        | (none, i) => some (.error (chunkNum, collected.length), i)
        | (some chunk, i) => readChunks rounds i (chunkNum + 1) (collected ++ chunk)

/-- The loop over the whole file, started again while the CRC does not match. -/
def readAttempts (remoteCrc : Text) : Nat → Nat → Option Pulled
  | attempts, i =>
    match readChunks path chunkSize size arrivals size i 0 [] with
    | none => none
    | some (.error (chunk, offset), _) => some (.failedChunk chunk offset)
    | some (.ok collected, i) =>
      let localCrc := Crc32.crc32 collected
      let crcMatch := crcMatch remoteCrc localCrc
      if crcMatch ≠ some false then some (.done collected crcMatch)
      else match attempts with
        | 0 => some (.mismatch localCrc collected.length)
        | attempts + 1 => readAttempts remoteCrc attempts i

/-- `pull_file`: the events of the wait for the checksum, of the wait for an error after it, and
of the waits for the pieces. It does not return when the pieces have size zero. -/
def pullFile (checksum err : List Event) : Option Pulled :=
  match waitFor "checksum" (·.hasText "path" path) checksum with
  | none =>
    some (.unreadable (match waitFor "err" (·.hasText "context" "CHECKSUM".toList) err with
      | some e => e.getText "message" "timeout".toList
      | none => "No response".toList))
  | some msg =>
    let remoteSize := msg.getInt "size" 0
    if remoteSize = 0 then some .empty
    else readAttempts path chunkSize remoteSize.toNat arrivals (msg.getText "crc32" []) 2 0

end Pull

section Push

/-- The local file and its destination. -/
structure Transfer where
  path : Text
  data : Bytes
  chunkSize : Nat

/-- `data[offset:offset + chunk_size]`. -/
def Transfer.chunk (t : Transfer) (offset : Nat) : Bytes := (t.data.drop offset).take t.chunkSize

/-- The commands of a push. -/
inductive Command where
  | write (offset : Nat) (hexData : Text)
  | checksum
  deriving DecidableEq, Repr

/-- How a push ended. -/
inductive Pushed where
  | empty
  | gaveUp (offset : Nat)
  | notReconnected (offset : Nat)
  | mismatch
  | done (crcMatch : Option Bool)
  deriving DecidableEq, Repr

/-- Where a push stands: it waits for the OK to a chunk with some tries left, waits for the
connection to come back, waits for the checksum, or has ended. -/
inductive Phase where
  | writing (offset resumes tries : Nat)
  | dropped (offset resumes : Nat)
  | checking
  | finished (result : Pushed)
  deriving DecidableEq, Repr

/-- What a push reacts to: an event while it waits, the end of the wait, and the outcome of
waiting for the connection. -/
inductive Input where
  | event (e : Event)
  | timeout
  | reconnect (connected : Bool)

/-- `MAX_RESUMES`. -/
def maxResumes : Nat := 5

/-- The number of bytes that an OK reports, `-1` if it is no number. -/
def wrote (ok : Dict) : Int :=
  match Py.int 10 (((ok.getText "message" []).splitOn '|').headD []) with
  | .ok n => n
  | .error _ => -1

/-- The event ends the wait of `_push_chunk`. -/
def isWriteOk (e : Event) : Bool :=
  e.name = "ok" && e.data.hasText "context" "WRITEFILE".toList

namespace Transfer

variable (t : Transfer)

/-- Send a chunk, with so many tries left. -/
def sendChunk (offset resumes tries : Nat) : Phase × List Command :=
  (.writing offset resumes tries, [.write offset (t.chunk offset).hex])

/-- The head of the loop over the chunks. -/
def nextChunk (offset resumes : Nat) : Phase × List Command :=
  if offset < t.data.length then t.sendChunk offset resumes (maxRetries - 1)
  else (.checking, [.checksum])

/-- The start of `push_file`. -/
def start : Phase × List Command :=
  if t.data.length = 0 then (.finished .empty, []) else t.nextChunk 0 0

/-- The end of a try that did not succeed. -/
def retry (offset resumes : Nat) : Nat → Phase × List Command
  | 0 => (.dropped offset resumes, [])
  | tries + 1 => t.sendChunk offset resumes tries

/-- The end of the verification. -/
def finish (crcMatch : Option Bool) : Phase :=
  if crcMatch = some false then .finished .mismatch else .finished (.done crcMatch)

/-- `push_file` and `_push_chunk`, one input at a time. -/
def react : Phase → Input → Phase × List Command
  | .writing offset resumes tries, .event e =>
    if isWriteOk e then
      if wrote e.data = (t.chunk offset).length then
        t.nextChunk (offset + (t.chunk offset).length) resumes
      else t.retry offset resumes tries
    else (.writing offset resumes tries, [])
  | .writing offset resumes tries, .timeout => t.retry offset resumes tries
  | .dropped offset resumes, .reconnect connected =>
    if maxResumes ≤ resumes then (.finished (.gaveUp offset), [])
    else if connected then t.nextChunk offset (resumes + 1)
    else (.finished (.notReconnected offset), [])
  | .checking, .event e =>
    if e.name = "checksum" && e.data.hasText "path" t.path then
      (finish (crcMatch (e.data.getText "crc32" []) (Crc32.crc32 t.data)), [])
    else (.checking, [])
  | .checking, .timeout => (finish none, [])
  | phase, _ => (phase, [])

end Transfer

end Push

end AmigaDevbench.FileTransfer
