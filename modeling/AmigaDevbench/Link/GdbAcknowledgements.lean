import AmigaDevbench.Daemon.Debugger.Lines
import AmigaDevbench.Daemon.HexPayload
import AmigaDevbench.Link.GdbMemory
import AmigaDevbench.Link.GdbStops

/-!
# Acknowledged packets of a remote debugger

P and G are answered as soon as their lines are sent, M and Z0 when an event arrives that looks like
the daemon's answer, whoever caused it. So an acknowledgement says little about the target: that a
register is set holds only if it had the value, and that bytes are written only if the daemon's
handler takes all of them. The effects are those of the daemon's own handlers on the lines that the
packet puts on the link.
-/

namespace AmigaDevbench.GdbAcknowledgements

open Daemon CNumber Debugger Gdb DebuggerState GdbStops

/-- What a handler answers, if these events are queued for its wait. -/
def answerOf (queue : List Event) : Result → Option Text
  | (_, .ok (.reply response)) => response
  | (g, .ok (.wait w)) => some (w.finish g.dbg queue)
  | (_, .error _) => none

/-- The packet is acknowledged. -/
def Acknowledged (g : Gdb) (packet : Text) (queue : List Event) : Prop :=
  answerOf queue (g.processPacket packet) = some "OK".toList

/-- The bytes that a packet puts on the link, one write after the other. -/
def writesFor (g : Gdb) (packet : Text) : List Text :=
  (g.processPacket packet).1.sent.drop g.sent.length

/-! ### The target -/

section Target

variable {Data : Type*} (p : Platform Data) (s : Debugger.Machine Data)

/-- The commands that P, G and Z0 are translated to. Nothing is taken during the `Delay` of a
detach. -/
def takeLine (s : Debugger.Machine Data) (line : Text) : Debugger.Machine Data :=
  if s.detaching then s
  else if commandOf line = "DBGSETREG".toList then s.dbgHandleSetreg
  else (s.handleLine p line).getD s

/-- The debugger of the daemon behind the lines of a packet. -/
def takeLines (lines : List Text) : Debugger.Machine Data := lines.foldl (takeLine p) s

/-- The registers of the target, in the host's order: those that it stopped with, or its own. -/
def register (r : Fin 18) : Nat :=
  let regs := if s.stopped then s.savedRegs else s.regs
  if h : r.val < 8 then (regs.d ⟨r.val, h⟩).toNat
  else if h : r.val < 15 then (regs.a ⟨r.val - 8, by omega⟩).toNat
  else if r.val = 15 then regs.usp.toNat
  else if r.val = 16 then regs.pc.toNat
  else regs.sr.toNat

/-- DBGSETREG is answered with an error and nothing else. -/
theorem register_takeLines {lines : List Text}
    (h : ∀ line ∈ lines, commandOf line = "DBGSETREG".toList) :
    register (takeLines p s lines) = register s := by
  refine List.foldlRecOn (motive := fun t => register t = register s) lines _ rfl
    fun t ht line hline => ?_
  rw [takeLine]
  split
  · exact ht
  · rw [if_pos (h line hline)]
    exact ht

end Target

/-! ### Registers -/

/-- The register of a number in a P packet. -/
def registerOf (regnum : Int) : Option (Fin 18) :=
  if 0 ≤ regnum then gdbOrder[regnum.toNat]? else none

/-- The fields of a G packet. -/
def regFields : Nat → Text → Option (List Int)
  | 0, _ => some []
  | n + 1, hexData =>
    match Py.int 16 (hexData.take 8) with
    | .ok value => (regFields n (hexData.drop 8)).map (value :: ·)
    | .error _ => none

section Registers

variable {g : Gdb} {data : Text} {queue : List Event}

theorem not_acknowledged_e01 : some "E01".toList ≠ some "OK".toList := by decide

/-- P is acknowledged whenever its line is sent and its number indexes the cache. -/
theorem acknowledged_writeReg : Acknowledged g ('P' :: data) queue ↔ g.connected = true ∧
    ∃ regnum value, writeRegArgs data = some (regnum, value) ∧ -18 ≤ regnum ∧ regnum < 18 := by
  rw [Acknowledged, processPacket, writeReg_eq]
  cases hargs : writeRegArgs data with
  | none =>
    refine iff_of_false not_acknowledged_e01 ?_
    rintro ⟨-, regnum, value, habs, -⟩
    cases habs
  | some args =>
    obtain ⟨regnum, value⟩ := args
    have hinj : (∃ regnum' value', some (regnum, value) = some (regnum', value') ∧
        -18 ≤ regnum' ∧ regnum' < 18) ↔ -18 ≤ regnum ∧ regnum < 18 := by
      constructor
      · rintro ⟨regnum', value', heq, h⟩
        cases heq
        exact h
      · exact fun h => ⟨regnum, value, rfl, h⟩
    rw [hinj]
    simp only
    by_cases hwritable : regnum < 8 ∧ ¬ Py.writable regnum
    · rw [if_pos hwritable]
      refine iff_of_false (by rintro ⟨⟩) ?_
      rintro ⟨-, hlow, -⟩
      exact hwritable.2 (writable_of_small hlow hwritable.1)
    · rw [if_neg hwritable]
      by_cases hhigh : 18 ≤ regnum
      · rw [regTarget_none hhigh]
        exact iff_of_false not_acknowledged_e01 fun h => absurd h.2.2 (by omega)
      · obtain ⟨name, idx, htarget, hname, -, hidx, hindex⟩ := regTarget_some (not_le.mp hhigh)
        rw [htarget]
        simp only
        rw [andThen_sendRaw (latin_setRegLine hname value)]
        by_cases hconn : g.connected = true
        · rw [if_pos hconn, and_iff_right hconn, and_iff_left (not_le.mp hhigh), ← hindex]
          by_cases hlow : -18 ≤ idx
          · obtain ⟨r, hr⟩ := (index_ok_iff idx).mpr ⟨hlow, hidx⟩
            rw [hr]
            exact iff_of_true rfl hlow
          · rw [index_error fun h => hlow h.1]
            exact iff_of_false (by rintro ⟨⟩) hlow
        · rw [if_neg hconn]
          exact iff_of_false (by rintro ⟨⟩) fun h => hconn h.1

/-- The lines of a packet whose handler sends nothing but these. -/
theorem writesFor_frame {P : Text → Prop} {packet : Text}
    (h : Frame P g (g.processPacket packet).1) :
    ∃ lines : List Text, (∀ line ∈ lines, P line) ∧
      writesFor g packet = lines.map (· ++ ['\n']) := by
  obtain ⟨regs, lines, hlines, hg⟩ := h
  refine ⟨lines, hlines, ?_⟩
  rw [writesFor, hg, List.drop_left]

/-- What the daemon reads of lines that all name one command. -/
theorem commands_of_named {name : String} (hname : PlainName name) {lines : List Text}
    (h : ∀ line ∈ lines, Named [name] line) :
    (lines.map (· ++ ['\n'])).flatMap linesOf = lines ∧
      ∀ line ∈ lines, commandOf line = name.toList := by
  have hcommand : ∀ line ∈ lines, commandOf line = name.toList ∧ '\n' ∉ line := by
    intro line hline
    obtain ⟨⟨name', hmem, hcommand⟩, hnewline⟩ :=
      commandOf_named (fun n hn => List.mem_singleton.mp hn ▸ hname) (h line hline)
    exact ⟨List.mem_singleton.mp hmem ▸ hcommand, hnewline⟩
  refine ⟨?_, fun line hline => (hcommand line hline).1⟩
  rw [List.flatMap_map]
  induction lines with
  | nil => rfl
  | cons line lines ih =>
    rw [List.flatMap_cons, linesOf_line (hcommand line List.mem_cons_self).2,
      ih (fun l hl => h l (List.mem_cons_of_mem _ hl))
        fun l hl => hcommand l (List.mem_cons_of_mem _ hl)]
    rfl

/-- G is acknowledged whenever its lines are sent and its first fields are numbers. -/
theorem acknowledged_writeRegs (rs : List (Fin 18)) : ∀ {g : Gdb} {hexData : Text},
    answerOf queue (g.writeRegs rs hexData) = some "OK".toList ↔
      (rs = [] ∨ g.connected = true) ∧ ∃ values, regFields rs.length hexData = some values := by
  induction rs with
  | nil => exact fun {_ _} => iff_of_true rfl ⟨.inl rfl, [], rfl⟩
  | cons r rs ih =>
    intro g hexData
    rw [writeRegs, List.length_cons, regFields]
    cases hvalue : Py.int 16 (hexData.take 8) with
    | error e =>
      refine iff_of_false (by rintro ⟨⟩) ?_
      rintro ⟨-, values, habs⟩
      cases habs
    | ok value =>
      simp only
      rw [andThen_sendRaw (latin_setRegLine (latin_regName r) value)]
      by_cases hconn : g.connected = true
      · have hconn' : ((g.logged (setRegLine (regName r) value)).setReg r value).connected = true :=
          hconn
        rw [if_pos hconn, ih, and_iff_right (.inr hconn'), and_iff_right (.inr hconn)]
        simp only [Option.map_eq_some_iff]
        constructor
        · rintro ⟨values, hvalues⟩
          exact ⟨_, values, hvalues, rfl⟩
        · rintro ⟨_, values, hvalues, -⟩
          exact ⟨values, hvalues⟩
      · rw [if_neg hconn]
        refine iff_of_false (by rintro ⟨⟩) ?_
        rintro ⟨habs | habs, -⟩
        · cases habs
        · exact hconn habs

theorem acknowledged_writeAllRegs : Acknowledged g ('G' :: data) queue ↔ g.connected = true ∧
    144 ≤ data.length ∧ ∃ values, regFields 18 data = some values := by
  have hshort : 18 * 4 * 2 = 144 := rfl
  rw [Acknowledged, processPacket, writeAllRegs, hshort]
  by_cases hlength : data.length < 144
  · rw [if_pos hlength]
    exact iff_of_false not_acknowledged_e01 fun h => absurd h.2.1 (by omega)
  · rw [if_neg hlength, and_iff_right (not_lt.mp hlength)]
    have hne : gdbOrder ≠ [] := List.cons_ne_nil _ _
    rw [acknowledged_writeRegs, or_iff_right hne]
    rfl

/-! ### What P and G set -/

section Effects

variable {Data : Type*} (p : Platform Data) (s : Debugger.Machine Data)

/-- The debugger of the daemon behind a packet. -/
def behind (g : Gdb) (packet : Text) : Debugger.Machine Data :=
  takeLines p s ((writesFor g packet).flatMap linesOf)

/-- The register that P names has the value that it gives, and no other register has changed. -/
def SetsReg (g : Gdb) (data : Text) : Prop :=
  ∃ regnum value r, writeRegArgs data = some (regnum, value) ∧ registerOf regnum = some r ∧
    ∀ r', (register (behind p s g ('P' :: data)) r' : Int) = if r' = r then value else register s r'

/-- The registers have the values of the fields of G. -/
def SetsRegs (g : Gdb) (data : Text) : Prop :=
  regFields 18 data =
    some (gdbOrder.map fun r => (register (behind p s g ('G' :: data)) r : Int))

variable {p s}

theorem register_behind {packet : Text}
    (h : Frame (Named ["DBGSETREG"]) g (g.processPacket packet).1) :
    register (behind p s g packet) = register s := by
  obtain ⟨lines, hlines, hwrites⟩ := writesFor_frame h
  obtain ⟨hlinesOf, hcommands⟩ := commands_of_named (by unfold PlainName; decide) hlines
  rw [behind, hwrites, hlinesOf]
  exact register_takeLines p s hcommands

theorem register_behind_writeReg : register (behind p s g ('P' :: data)) = register s :=
  register_behind (frame_writeReg (fun _ value hname =>
    named_setRegLine List.mem_cons_self hname value) g data)

theorem register_behind_writeAllRegs : register (behind p s g ('G' :: data)) = register s := by
  refine register_behind ?_
  rw [processPacket, writeAllRegs]
  split
  · exact Frame.refl g
  · exact frame_writeRegs (fun r value =>
      named_setRegLine List.mem_cons_self (newline_notMem_regName r) value) _ _ _

theorem setsReg_iff : SetsReg p s g data ↔ ∃ regnum value r,
    writeRegArgs data = some (regnum, value) ∧ registerOf regnum = some r ∧
      (register s r : Int) = value := by
  rw [SetsReg, register_behind_writeReg]
  constructor
  · rintro ⟨regnum, value, r, hargs, hr, hall⟩
    exact ⟨regnum, value, r, hargs, hr, (hall r).trans (if_pos rfl)⟩
  · rintro ⟨regnum, value, r, hargs, hr, hvalue⟩
    refine ⟨regnum, value, r, hargs, hr, fun r' => ?_⟩
    split
    · next heq => rw [heq, hvalue]
    · rfl

/-- When an acknowledged P says what happened: its register has the value already. -/
def RegHolds (s : Debugger.Machine Data) (g : Gdb) (data : Text) : Prop :=
  g.connected = true → ∀ regnum value, writeRegArgs data = some (regnum, value) →
    -18 ≤ regnum → regnum < 18 → ∃ r, registerOf regnum = some r ∧ (register s r : Int) = value

theorem writeReg_truthful_iff :
    (Acknowledged g ('P' :: data) queue → SetsReg p s g data) ↔ RegHolds s g data := by
  rw [acknowledged_writeReg, setsReg_iff, RegHolds]
  constructor
  · intro h hconn regnum value hargs hlow hhigh
    obtain ⟨regnum', value', r, hargs', hr, hvalue⟩ := h ⟨hconn, regnum, value, hargs, hlow, hhigh⟩
    cases hargs.symm.trans hargs'
    exact ⟨r, hr, hvalue⟩
  · rintro h ⟨hconn, regnum, value, hargs, hlow, hhigh⟩
    obtain ⟨r, hr, hvalue⟩ := h hconn regnum value hargs hlow hhigh
    exact ⟨regnum, value, r, hargs, hr, hvalue⟩

/-- When an acknowledged G says what happened: the registers have its values already. -/
def RegsHold (s : Debugger.Machine Data) (g : Gdb) (data : Text) : Prop :=
  g.connected = true → 144 ≤ data.length → ∀ values, regFields 18 data = some values →
    values = gdbOrder.map fun r => (register s r : Int)

theorem writeAllRegs_truthful_iff :
    (Acknowledged g ('G' :: data) queue → SetsRegs p s g data) ↔ RegsHold s g data := by
  rw [acknowledged_writeAllRegs, SetsRegs, register_behind_writeAllRegs, RegsHold]
  constructor
  · intro h hconn hlength values hvalues
    exact Option.some.inj (hvalues.symm.trans (h ⟨hconn, hlength, values, hvalues⟩))
  · rintro h ⟨hconn, hlength, values, hvalues⟩
    rw [hvalues, h hconn hlength values hvalues]

end Effects

end Registers

/-! ### Memory -/

/-- The bytes of a packet are in the memory from an address on, and nothing else has changed. -/
structure Wrote (before after : Memory) (address : Nat) (bs : Bytes) : Prop where
  written : ∀ i (h : i < bs.length), after (wrap address i) = bs[i]
  same : ∀ a, (∀ i < bs.length, wrap address i ≠ a) → after a = before a

/-- What a write puts at an offset, where the offsets are counted modulo the address space. -/
theorem writeBytes_wrap (memory : Memory) (address : Nat) {data : Bytes}
    (hlength : data.length ≤ 2 ^ 32) (i : Nat) :
    writeBytes memory address data (wrap address i) =
      if i % 2 ^ 32 < data.length then data.getD (i % 2 ^ 32) 0 else memory (wrap address i) := by
  have hwrap : wrap address (i % 2 ^ 32) = wrap address i := by
    unfold wrap
    omega
  rw [writeBytes]
  by_cases hi : i % 2 ^ 32 < data.length
  · have hfind : (List.range data.length).find? (fun j => wrap address j = wrap address i) =
        some (i % 2 ^ 32) := by
      rw [List.find?_range_eq_some]
      refine ⟨decide_eq_true hwrap, List.mem_range.mpr hi, fun j hj => ?_⟩
      have hne : wrap address j ≠ wrap address i := fun heq => by
        have hj' := wrap_inj (by omega) (by omega) (heq.trans hwrap.symm)
        omega
      simpa using hne
    rw [hfind, if_pos hi]
  · have hfind : (List.range data.length).find? (fun j => wrap address j = wrap address i) =
        none := by
      rw [List.find?_eq_none]
      intro j hj heq
      have hj' := wrap_inj (by have := List.mem_range.mp hj; omega) (by omega)
        ((of_decide_eq_true heq).trans hwrap.symm)
      exact hi (hj' ▸ List.mem_range.mp hj)
    rw [hfind, if_neg hi]

theorem writeBytes_of_ne (memory : Memory) {address : Nat} {data : Bytes} {a : Nat}
    (h : ∀ i < data.length, wrap address i ≠ a) : writeBytes memory address data a = memory a := by
  have hfind : (List.range data.length).find? (fun j => wrap address j = a) = none := by
    rw [List.find?_eq_none]
    exact fun j hj heq => h j (List.mem_range.mp hj) (of_decide_eq_true heq)
  rw [writeBytes, hfind]

/-- A write of the first `k` bytes only is one of all bytes exactly if the memory has the others
already. -/
theorem wrote_take_iff (memory : Memory) (address : Nat) (bs : Bytes) {k : Nat} (hk : k ≤ 2 ^ 32) :
    Wrote memory (writeBytes memory address (bs.take k)) address bs ↔
      ∀ i (h : i < bs.length),
        bs[i] = if i % 2 ^ 32 < k then bs.getD (i % 2 ^ 32) 0 else memory (wrap address i) := by
  have hlength : (bs.take k).length ≤ 2 ^ 32 := by
    rw [List.length_take]
    omega
  have hvalue : ∀ i < bs.length, writeBytes memory address (bs.take k) (wrap address i) =
      if i % 2 ^ 32 < k then bs.getD (i % 2 ^ 32) 0 else memory (wrap address i) := by
    intro i hi
    have hmod := Nat.mod_le i (2 ^ 32)
    rw [writeBytes_wrap memory address hlength, List.length_take]
    by_cases hbelow : i % 2 ^ 32 < k
    · rw [if_pos hbelow, if_pos (by omega), List.getD_eq_getElem?_getD,
        List.getElem?_take_of_lt hbelow, ← List.getD_eq_getElem?_getD]
    · rw [if_neg hbelow, if_neg (by omega)]
  constructor
  · exact fun h i hi => (h.written i hi).symm.trans (hvalue i hi)
  · intro h
    refine ⟨fun i hi => (hvalue i hi).trans (h i hi).symm, fun a ha => ?_⟩
    refine writeBytes_of_ne memory fun i hi => ha i ?_
    rw [List.length_take] at hi
    omega

section Lines

/-- A character that comes when the buffer is full is dropped. -/
theorem receive_full {rest : Text} (hrest : ∀ c ∈ rest, c ≠ '\n' ∧ c ≠ '\r') (bytes : Text)
    {buf : Text} (hbuf : ¬ buf.length < maxLine - 1) :
    receive buf (rest ++ bytes) = receive buf bytes := by
  induction rest with
  | nil => rfl
  | cons c rest ih =>
    obtain ⟨hnewline, hreturn⟩ := hrest c List.mem_cons_self
    have hnext := ih fun d hd => hrest d (List.mem_cons_of_mem c hd)
    simp only [List.cons_append, receive, handleSerialByte, hnewline, hreturn, if_false, hbuf,
      List.nil_append, hnext]

/-- A line of any length is cut to the buffer. -/
theorem receive_cut {line : Text} (hline : ∀ c ∈ line, c ≠ '\n' ∧ c ≠ '\r' ∧ c ≠ CText.nul)
    (hne : line ≠ []) :
    receive [] (line ++ ['\n']) = ([], protocolParseLine (line.take (maxLine - 1))) := by
  have hmax : maxLine = 8192 := rfl
  have hclean : ∀ c ∈ line.take (maxLine - 1), c ≠ '\n' ∧ c ≠ '\r' ∧ c ≠ CText.nul :=
    fun c hc => hline c (List.mem_of_mem_take hc)
  have hcut : (line.take (maxLine - 1)).length < maxLine := by
    rw [List.length_take, hmax]
    omega
  have hne' : line.take (maxLine - 1) ≠ [] := by
    rw [Ne, List.take_eq_nil_iff, not_or]
    exact ⟨by rw [hmax]; omega, hne⟩
  rw [← receive_line hclean hne' hcut]
  by_cases hfits : line.length < maxLine
  · rw [List.take_of_length_le (by omega)]
  · conv_lhs => rw [← List.take_append_drop (maxLine - 1) line, List.append_assoc]
    have hfull : ¬ ([] ++ line.take (maxLine - 1)).length < maxLine - 1 := by
      rw [List.nil_append, List.length_take]
      omega
    have hbegin : ∀ c ∈ line.take (maxLine - 1), c ≠ '\n' ∧ c ≠ '\r' := fun c hc =>
      ⟨(hclean c hc).1, (hclean c hc).2.1⟩
    have hrest : ∀ c ∈ line.drop (maxLine - 1), c ≠ '\n' ∧ c ≠ '\r' := fun c hc =>
      ⟨(hline c (List.mem_of_mem_drop hc)).1, (hline c (List.mem_of_mem_drop hc)).2.1⟩
    rw [receive_append hbegin _ [] (by rw [List.nil_append]; exact hcut),
      receive_full hrest _ hfull, receive_append hbegin _ [] (by rw [List.nil_append]; exact hcut)]

/-- The first pairs of digits do not depend on the rest. -/
theorem take_hexBytes (k : Nat) : ∀ {n : Nat} (hex : Text), 2 * k ≤ n →
    (hexBytes (hex.take n)).take k = (hexBytes hex).take k := by
  induction k with
  | zero => exact fun _ _ => rfl
  | succ k ih =>
    intro n hex hn
    obtain ⟨m, rfl⟩ : ∃ m, n = m + 2 := ⟨n - 2, by omega⟩
    rcases hex with _ | ⟨hi, _ | ⟨lo, hex⟩⟩
    · rfl
    · rfl
    · rw [List.take_succ_cons, List.take_succ_cons, hexBytes, hexBytes, List.take_succ_cons,
        List.take_succ_cons, ih hex (by omega)]

end Lines

section Memory

variable {g : Gdb} {data : Text} {queue : List Event}

/-- What a WRITEMEM does to the memory. -/
def writeOf (memory : Memory) : Daemon.Outcome → Memory
  | .executed "WRITEMEM" [.num address, .bytes bs] =>
    (handleWritemem memory address.toNat (bs.map UInt8.ofNat)).1
  | _ => memory

/-- The memory behind the lines of a packet. -/
def memoryBehind (memory : Memory) (g : Gdb) (packet : Text) : Memory :=
  ((writesFor g packet).flatMap fun bytes => (receive [] bytes).2).foldl writeOf memory

/-- Every byte of an M packet is written at its address. -/
def WritesMemory (memory : Memory) (g : Gdb) (data : Text) : Prop :=
  ∃ addr hex bs, writeArgs data = some (addr, hex) ∧ InWord addr ∧ encoded? hex = some bs ∧
    Wrote memory (memoryBehind memory g ('M' :: data)) addr.toNat bs

/-- An event that the wait of M takes for the daemon's answer. -/
def Confirms (e : Event) : Prop :=
  e.name = "ok" ∧ (Text.beforeStr? "WRITEMEM".toList (e.data.getText "context" [])).isSome = true

/-- How many bytes the daemon writes at an address. -/
def writable (address : Nat) : Nat := if writeRefused address = none then 256 else 0

/-- The bytes that the daemon does not write are in the memory already. -/
def Landed (memory : Memory) (address : Nat) (bs : Bytes) : Prop :=
  ∀ i (h : i < bs.length), bs[i] =
    if i % 2 ^ 32 < writable address then bs.getD (i % 2 ^ 32) 0 else memory (wrap address i)

/-- A digit is an ASCII character, and none that the daemon cuts at. -/
theorem plain_of_digit {c : Char} {d : Nat} (h : digit? 16 c = some d) :
    c.toNat < 256 ∧ c ≠ '\n' ∧ c ≠ '\r' ∧ c ≠ CText.nul := by
  refine ⟨?_, ?_, ?_, ?_⟩
  · by_contra hbig
    have hnot : ∀ e : Char, e.toNat < 256 → ¬ c ≤ e := fun e he hle => by
      have hle' : c.toNat ≤ e.toNat := UInt32.le_iff_toNat_le.mp hle
      omega
    simp only [digit?, hnot '9' (by decide), hnot 'f' (by decide), hnot 'F' (by decide), and_false,
      if_false, Nat.lt_irrefl] at h
    cases h
  all_goals
    rintro rfl
    exact absurd h (by decide +revert)

/-- The characters of a well-formed text are digits. -/
theorem digits_of_encoded {hex : Text} {bs : Bytes} (h : encoded? hex = some bs) :
    ∀ c ∈ hex, ∃ d, digit? 16 c = some d := by
  fun_induction encoded? hex generalizing bs with
  | case1 => exact fun c hc => (List.not_mem_nil hc).elim
  | case2 => cases h
  | case3 hi lo s x y hlo hhi ih =>
    obtain ⟨rest, hrest, -⟩ := Option.map_eq_some_iff.mp h
    intro c hc
    rcases List.mem_cons.mp hc with rfl | hc
    · exact ⟨x, hhi⟩
    · rcases List.mem_cons.mp hc with rfl | hc
      · exact ⟨y, hlo⟩
      · exact ih hrest c hc
  | case4 => cases h

theorem latin_of_encoded {hex : Text} {bs : Bytes} (h : encoded? hex = some bs) : Latin hex :=
  fun c hc => by
    obtain ⟨d, hd⟩ := digits_of_encoded h c hc
    exact (plain_of_digit hd).1

/-- The line of an M packet. -/
def writememLine (addr : Int) (hex : Text) : Text :=
  "WRITEMEM|".toList ++ Py.hex32 addr ++ '|' :: hex

theorem latin_writememLine (addr : Int) (hex : Text) :
    Latin (writememLine addr hex) ↔ Latin hex := by
  have hname : Latin "WRITEMEM|".toList := by decide
  unfold writememLine
  rw [latin_append, latin_append, latin_cons]
  exact ⟨fun h => h.2.2, fun h => ⟨⟨hname, latin_hex32 addr⟩, by decide, h⟩⟩

/-- The daemon writes what fits into its buffer. -/
theorem outcome_writememLine {addr : Int} (haddr : InWord addr) {hex : Text} {bs : Bytes}
    (h : encoded? hex = some bs) :
    (receive [] (writememLine addr hex ++ ['\n'])).2 =
      [.executed "WRITEMEM" [.num addr.toNat, .bytes ((hexBytes hex).take 256)]] := by
  have hmax : maxLine = 8192 := rfl
  have hline : writememLine addr hex =
      "WRITEMEM".toList ++ '|' :: (Py.hex32 addr ++ '|' :: hex) := by
    have hbar : "WRITEMEM|".toList = "WRITEMEM".toList ++ ['|'] := rfl
    unfold writememLine
    simp only [hbar, List.append_assoc, List.cons_append, List.nil_append]
  have hclean : ∀ c ∈ writememLine addr hex, c ≠ '\n' ∧ c ≠ '\r' ∧ c ≠ CText.nul := by
    intro c hc
    rw [hline, List.mem_append, List.mem_cons, List.mem_append, List.mem_cons] at hc
    rcases hc with hc | rfl | hc | rfl | hc
    · exact (by decide : ∀ c ∈ "WRITEMEM".toList, c ≠ '\n' ∧ c ≠ '\r' ∧ c ≠ CText.nul) c hc
    · decide
    · exact GdbMemory.clean_of_isDigitOf (List.all_eq_true.mp (isDigitOf_hex32 haddr) c hc)
    · decide
    · obtain ⟨d, hd⟩ := digits_of_encoded h c hc
      exact (plain_of_digit hd).2
  have hne : writememLine addr hex ≠ [] := by
    rw [hline]
    exact List.append_ne_nil_of_left_ne_nil (by decide) _
  have hlength := length_hex32 haddr
  have htake : (writememLine addr hex).take (maxLine - 1) =
      "WRITEMEM".toList ++ '|' :: (Py.hex32 addr ++ '|' :: hex.take 8173) := by
    have hname : "WRITEMEM".toList.length = 8 := rfl
    rw [hline, hmax, List.take_append, hname, List.take_of_length_le (by rw [hname]; omega),
      List.take_succ_cons, List.take_append, hlength,
      List.take_of_length_le (by rw [hlength]; omega), List.take_succ_cons]
  have hbar : '|' ∉ Py.hex32 addr := fun hmem =>
    absurd (List.all_eq_true.mp (isDigitOf_hex32 haddr) _ hmem) (by decide)
  have haddrLt : addr.toNat < 2 ^ 32 := by
    have hlt := haddr.2
    omega
  have hhandler : handlerOf "WRITEMEM".toList = some ("WRITEMEM", 2, [.num 16 32, .hex 256]) := rfl
  have hcount : ¬ (Py.hex32 addr ++ '|' :: hex.take 8173).count '|' + 1 < 2 := by
    rw [List.count_append, List.count_cons_self]
    omega
  have hfields : readFields [.num 16 32, .hex 256] (Py.hex32 addr ++ '|' :: hex.take 8173) =
      some [.num addr.toNat, .bytes ((hexBytes hex).take 256)] := by
    simp only [readFields, Cut.read, Cut.isLast, Bool.false_eq_true, if_false, if_true,
      strtoul_append_bar (Or.inr rfl), GdbMemory.strtoul_hex32 haddr, Text.after?_append hbar,
      Nat.mod_eq_of_lt haddrLt, Option.map_some,
      take_hexBytes 256 hex (show 2 * 256 ≤ 8173 by omega)]
  rw [receive_cut hclean hne, htake]
  simp only
  rw [protocolParseLine_append (by decide) (by decide), dispatch, hhandler]
  simp only [hcount, if_false, hfields]

theorem writesFor_writeMemory {addr : Int} {hex : Text} (hargs : writeArgs data = some (addr, hex))
    (hconn : g.connected = true) (hlatin : Latin hex) :
    writesFor g ('M' :: data) = [writememLine addr hex ++ ['\n']] := by
  have hline := (latin_writememLine addr hex).mpr hlatin
  rw [writesFor, processPacket, writeMemory_eq, hargs]
  simp only
  rw [andThen_send (formatCommand_writemem _ _), if_pos hconn]
  change (if Latin (writememLine addr hex) then _ else _ : Result).1.sent.drop _ = _
  rw [if_pos hline]
  exact List.drop_left

/-- The memory behind an M packet has the first bytes of the packet, or none of a refused one. -/
theorem memoryBehind_writeMemory {memory : Memory} {addr : Int} {hex : Text} {bs : Bytes}
    (hargs : writeArgs data = some (addr, hex)) (hconn : g.connected = true) (haddr : InWord addr)
    (h : encoded? hex = some bs) : memoryBehind memory g ('M' :: data) =
      writeBytes memory addr.toNat (bs.take (writable addr.toNat)) := by
  have hround : (UInt8.ofNat ∘ UInt8.toNat) = id := funext fun b => UInt8.ofNat_toNat
  have hbytes : ((hexBytes hex).take 256).map UInt8.ofNat = bs.take 256 := by
    rw [(hexBytes_of_encoded h).1, ← List.map_take, List.map_map, hround, List.map_id]
  have hnat : ((addr.toNat : Int)).toNat = addr.toNat := Int.toNat_natCast _
  rw [memoryBehind, writesFor_writeMemory hargs hconn (latin_of_encoded h), List.flatMap_singleton,
    outcome_writememLine haddr h, List.foldl_cons, List.foldl_nil, writeOf, hbytes, hnat,
    handleWritemem, writable]
  cases writeRefused addr.toNat with
  | none => rfl
  | some detail =>
    have hnil : bs.take (if some detail = none then 256 else 0) = [] := rfl
    rw [hnil]
    rfl

theorem waitFor_ne_none_iff (queue : List Event) (name : String) (predicate : Dict → Bool) :
    waitFor name predicate queue ≠ none ↔
      ∃ e ∈ queue, e.name = name ∧ predicate e.data = true := by
  rw [waitFor, Ne, Option.map_eq_none_iff, List.find?_eq_none]
  simp

/-- M is acknowledged whenever its line is sent and some WRITEMEM is confirmed. -/
theorem acknowledged_writeMemory : Acknowledged g ('M' :: data) queue ↔ g.connected = true ∧
    ∃ addr hex, writeArgs data = some (addr, hex) ∧ Latin hex ∧ ∃ e ∈ queue, Confirms e := by
  rw [Acknowledged, processPacket, writeMemory_eq]
  cases hargs : writeArgs data with
  | none =>
    refine iff_of_false not_acknowledged_e01 ?_
    rintro ⟨-, addr, hex, habs, -⟩
    cases habs
  | some args =>
    obtain ⟨addr, hex⟩ := args
    have hinj : (∃ addr' hex', some (addr, hex) = some (addr', hex') ∧ Latin hex' ∧
        ∃ e ∈ queue, Confirms e) ↔ Latin hex ∧ ∃ e ∈ queue, Confirms e := by
      constructor
      · rintro ⟨addr', hex', heq, h⟩
        cases heq
        exact h
      · exact fun h => ⟨addr, hex, rfl, h⟩
    rw [hinj]
    simp only
    rw [andThen_send (formatCommand_writemem _ _)]
    by_cases hconn : g.connected = true
    · rw [if_pos hconn, and_iff_right hconn]
      by_cases hlatin : Latin hex
      · have hline : Latin ("WRITEMEM|".toList ++ Py.hex32 addr ++ '|' :: hex) :=
          (latin_writememLine addr hex).mpr hlatin
        rw [if_pos hline, and_iff_right hlatin]
        have hwait : (∃ e ∈ queue, Confirms e) ↔ waitFor "ok"
            (fun m => (Text.beforeStr? "WRITEMEM".toList (m.getText "context" [])).isSome) queue ≠
              none :=
          (waitFor_ne_none_iff queue "ok" fun m =>
            (Text.beforeStr? "WRITEMEM".toList (m.getText "context" [])).isSome).symm
        rw [hwait]
        change some (Wait.finish g.dbg queue (.ok "WRITEMEM".toList)) = some "OK".toList ↔ _
        rw [Wait.finish]
        cases waitFor "ok" (fun m =>
            (Text.beforeStr? "WRITEMEM".toList (m.getText "context" [])).isSome) queue with
        | none => exact iff_of_false not_acknowledged_e01 fun h => h rfl
        | some msg => exact iff_of_true rfl (Option.some_ne_none msg)
      · have hline : ¬ Latin ("WRITEMEM|".toList ++ Py.hex32 addr ++ '|' :: hex) :=
          fun h => hlatin ((latin_writememLine addr hex).mp h)
        rw [if_neg hline]
        exact iff_of_false (by rintro ⟨⟩) fun h => hlatin h.1
    · rw [if_neg hconn]
      exact iff_of_false (by rintro ⟨⟩) fun h => hconn h.1

/-- When an acknowledged M says what happened: the data are bytes for an address of 32 bits, and
those that the daemon does not write are there already. -/
def MemoryHolds (memory : Memory) (g : Gdb) (data : Text) (queue : List Event) : Prop :=
  g.connected = true → (∃ e ∈ queue, Confirms e) → ∀ addr hex, writeArgs data = some (addr, hex) →
    Latin hex → InWord addr ∧ ∃ bs, encoded? hex = some bs ∧ Landed memory addr.toNat bs

theorem writesMemory_iff {memory : Memory} {addr : Int} {hex : Text}
    (hargs : writeArgs data = some (addr, hex)) (hconn : g.connected = true) :
    WritesMemory memory g data ↔
      InWord addr ∧ ∃ bs, encoded? hex = some bs ∧ Landed memory addr.toNat bs := by
  have hle : writable addr.toNat ≤ 2 ^ 32 := by
    rw [writable]
    split <;> decide
  constructor
  · rintro ⟨addr', hex', bs, hargs', haddr, hbs, hwrote⟩
    cases hargs.symm.trans hargs'
    rw [memoryBehind_writeMemory hargs hconn haddr hbs] at hwrote
    exact ⟨haddr, bs, hbs, (wrote_take_iff memory _ bs hle).mp hwrote⟩
  · rintro ⟨haddr, bs, hbs, hlanded⟩
    refine ⟨addr, hex, bs, hargs, haddr, hbs, ?_⟩
    rw [memoryBehind_writeMemory hargs hconn haddr hbs]
    exact (wrote_take_iff memory _ bs hle).mpr hlanded

theorem writeMemory_truthful_iff (memory : Memory) :
    (Acknowledged g ('M' :: data) queue → WritesMemory memory g data) ↔
      MemoryHolds memory g data queue := by
  rw [acknowledged_writeMemory, MemoryHolds]
  constructor
  · intro h hconn hconfirmed addr hex hargs hlatin
    exact (writesMemory_iff hargs hconn).mp (h ⟨hconn, addr, hex, hargs, hlatin, hconfirmed⟩)
  · rintro h ⟨hconn, addr, hex, hargs, hlatin, hconfirmed⟩
    exact (writesMemory_iff hargs hconn).mpr (h hconn hconfirmed addr hex hargs hlatin)

end Memory

/-! ### Breakpoints -/

section Points

variable {Data : Type*} {p : Platform Data} {s : Debugger.Machine Data} {g : Gdb} {data : Text}
  {queue : List Event}

/-- A breakpoint of the table is in the code at an address. -/
def Armed (b : Breakpoints) (address : UInt32) : Prop :=
  ∃ i, (b.table i).used = true ∧ (b.table i).enabled = true ∧ (b.table i).address = address ∧
    b.code address = trap15Opcode

/-- A BPSET adds a breakpoint. -/
structure Accepts (p : Platform Data) (s : Debugger.Machine Data) (address : UInt32) : Prop where
  taken : s.detaching = false
  attached : s.attached = true
  inRam : p.inRam address = true
  even : address &&& 1 = 0
  fresh : s.bps.findBpByAddr address = none
  free : s.bps.findFreeBp ≠ none

/-- A Z0 packet leaves a breakpoint in the code at its address. -/
def SetsBreakpoint (p : Platform Data) (s : Debugger.Machine Data) (g : Gdb) (data : Text) : Prop :=
  ∃ addr, breakpointArg data = some addr ∧ InWord addr ∧
    Armed (behind p s g ('Z' :: data)).bps (UInt32.ofNat addr.toNat)

/-- What BPSET does at an address. -/
theorem armed_dbgHandleBpset {args : Text} (hargs : args ≠ []) (htaken : s.detaching = false) :
    Armed (s.dbgHandleBpset p args).bps (UInt32.ofNat (strtoul 16 args)) ↔
      Armed s.bps (UInt32.ofNat (strtoul 16 args)) ∨
        Accepts p s (UInt32.ofNat (strtoul 16 args)) := by
  unfold Machine.dbgHandleBpset
  dsimp only
  generalize UInt32.ofNat (strtoul 16 args) = address
  have hkept : ∀ line, ¬ Accepts p s address →
      (Armed (s.send line).bps address ↔ Armed s.bps address ∨ Accepts p s address) :=
    fun line hnot => (or_iff_left hnot).symm
  split_ifs with hattached hram heven
  · refine hkept _ fun h => ?_
    rw [h.attached] at hattached
    cases hattached
  · refine hkept _ fun h => ?_
    rw [h.inRam] at hram
    cases hram
  · exact hkept _ fun h => heven h.even
  · cases hfind : s.bps.findBpByAddr address with
    | some i => exact hkept _ fun h => by cases hfind.symm.trans h.fresh
    | none =>
      cases hfree : s.bps.findFreeBp with
      | none => exact hkept _ fun h => h.free hfree
      | some i =>
        refine iff_of_true ⟨i, ?_⟩ (.inr ⟨htaken, ?_, ?_, not_not.mp heven, hfind, ?_⟩)
        · have hself : (s.bps.insertBp i address).table i =
              ⟨address, s.bps.code address, false, false, true⟩ := Function.update_self ..
          have hpatch : (s.bps.insertBp i address).patchBp i =
              (s.bps.insertBp i address).write i trap15Opcode true := by
            rw [Breakpoints.patchBp, hself]
            rfl
          have hentry : ((s.bps.insertBp i address).patchBp i).table i =
              ⟨address, s.bps.code address, true, false, true⟩ := by
            rw [hpatch, Breakpoints.table_write_self, hself]
          have hcode : ((s.bps.insertBp i address).patchBp i).code address = trap15Opcode := by
            rw [hpatch, Breakpoints.write, hself]
            exact Function.update_self ..
          exact ⟨congrArg Breakpoint.used hentry, congrArg Breakpoint.enabled hentry,
            congrArg Breakpoint.address hentry, hcode⟩
        · exact Bool.eq_true_of_not_eq_false fun h => hattached (by rw [h]; rfl)
        · exact Bool.eq_true_of_not_eq_false fun h => hram (by rw [h]; rfl)
        · exact fun hnone => by cases hnone.symm.trans hfree

/-- The line of a Z0 packet. -/
def bpsetLine (addr : Int) : Text := "BPSET".toList ++ '|' :: Py.hex32 addr

theorem writesFor_setBreakpoint {addr : Int} (hargs : breakpointArg data = some addr)
    (hconn : g.connected = true) :
    writesFor g ('Z' :: data) = [bpsetLine addr ++ ['\n']] := by
  have hline : Latin ("BPSET".toList ++ '|' :: Py.hex32 addr) :=
    latin_append.mpr ⟨by decide, latin_cons.mpr ⟨by decide, latin_hex32 addr⟩⟩
  rw [writesFor, processPacket, setBreakpoint]
  rcases breakpointPacket_cases "BPSET" .bpinfo g data with ⟨hnone, -⟩ | ⟨addr', hargs', heq⟩
  · cases hargs.symm.trans hnone
  · cases hargs.symm.trans hargs'
    rw [heq, andThen_sendRaw hline, if_pos hconn]
    exact List.drop_left

theorem behind_setBreakpoint {addr : Int} (hargs : breakpointArg data = some addr)
    (hconn : g.connected = true) : behind p s g ('Z' :: data) =
      if s.detaching then s else s.dbgHandleBpset p (Py.hex32 addr) := by
  have hlines : linesOf (bpsetLine addr ++ ['\n']) = [bpsetLine addr] := by
    refine linesOf_line ?_
    unfold bpsetLine
    simp only [List.mem_append, List.mem_cons, not_or]
    exact ⟨by decide, by decide, newline_notMem_hex32 addr⟩
  have hcommand : commandOf (bpsetLine addr) = "BPSET".toList :=
    commandOf_fields (by decide) (by decide) (by decide) _
  have hne : commandOf (bpsetLine addr) ≠ "DBGSETREG".toList := by
    rw [hcommand]
    decide
  rw [behind, writesFor_setBreakpoint hargs hconn, List.flatMap_singleton, hlines, takeLines,
    List.foldl_cons, List.foldl_nil, takeLine, if_neg hne]
  split
  · rfl
  · next hdetaching =>
    have hhandle : s.handleLine p (bpsetLine addr) =
        if s.detaching then none else some (s.dbgHandleBpset p (Py.hex32 addr)) :=
      Machine.handleLine_bpset _
    rw [hhandle, if_neg hdetaching]
    rfl

theorem setsBreakpoint_iff {addr : Int} (hargs : breakpointArg data = some addr)
    (hconn : g.connected = true) : SetsBreakpoint p s g data ↔ InWord addr ∧
      (Armed s.bps (UInt32.ofNat addr.toNat) ∨ Accepts p s (UInt32.ofNat addr.toNat)) := by
  have hinj : SetsBreakpoint p s g data ↔ InWord addr ∧
      Armed (behind p s g ('Z' :: data)).bps (UInt32.ofNat addr.toNat) := by
    constructor
    · rintro ⟨addr', hargs', h⟩
      cases hargs.symm.trans hargs'
      exact h
    · exact fun h => ⟨addr, hargs, h⟩
  rw [hinj, behind_setBreakpoint hargs hconn]
  refine and_congr_right fun haddr => ?_
  by_cases hdetaching : s.detaching = true
  · rw [if_pos hdetaching]
    refine (or_iff_left fun h => ?_).symm
    cases hdetaching.symm.trans h.taken
  · have hne : Py.hex32 addr ≠ [] := by
      intro hnil
      have hlength := length_hex32 haddr
      rw [hnil] at hlength
      cases hlength
    rw [if_neg hdetaching, ← GdbMemory.strtoul_hex32 haddr]
    exact armed_dbgHandleBpset hne (Bool.eq_false_of_not_eq_true hdetaching)

/-- Z0 is acknowledged whenever its line is sent and some BPINFO arrives. -/
theorem acknowledged_setBreakpoint : Acknowledged g ('Z' :: data) queue ↔ g.connected = true ∧
    (∃ e ∈ queue, e.name = "dbg_bpinfo") ∧ ∃ addr, breakpointArg data = some addr := by
  have hempty : ¬ some ([] : Text) = some "OK".toList := by decide
  rw [Acknowledged, processPacket, setBreakpoint, breakpointPacket, breakpointArg]
  rcases data.splitOn ',' with _ | ⟨kind, _ | ⟨a, rest⟩⟩
  · exact iff_of_false not_acknowledged_e01 (by rintro ⟨-, -, _, habs⟩; cases habs)
  · exact iff_of_false not_acknowledged_e01 (by rintro ⟨-, -, _, habs⟩; cases habs)
  · simp only
    by_cases hkind : kind ≠ ['0']
    · rw [if_pos hkind, if_pos hkind]
      exact iff_of_false hempty (by rintro ⟨-, -, _, habs⟩; cases habs)
    · rw [if_neg hkind, if_neg hkind]
      cases Py.int 16 a with
      | error e => exact iff_of_false not_acknowledged_e01 (by rintro ⟨-, -, _, habs⟩; cases habs)
      | ok addr =>
        have hline : Latin ("BPSET".toList ++ '|' :: Py.hex32 addr) :=
          latin_append.mpr ⟨by decide, latin_cons.mpr ⟨by decide, latin_hex32 addr⟩⟩
        simp only
        rw [andThen_sendRaw hline]
        by_cases hconn : g.connected = true
        · have hwait := waitFor_ne_none_iff queue "dbg_bpinfo" fun _ => true
          simp only [and_true] at hwait
          rw [if_pos hconn, and_iff_right hconn, and_iff_left ⟨addr, rfl⟩, ← hwait]
          change some (Wait.finish g.dbg queue .bpinfo) = some "OK".toList ↔ _
          rw [Wait.finish]
          cases waitFor "dbg_bpinfo" (fun _ => true) queue with
          | none => exact iff_of_false not_acknowledged_e01 fun h => h rfl
          | some msg => exact iff_of_true rfl (Option.some_ne_none msg)
        · rw [if_neg hconn]
          exact iff_of_false (by rintro ⟨⟩) fun h => hconn h.1

/-- When an acknowledged Z0 says what happened: its address has 32 bits, and a breakpoint is there
already or can be added. -/
def BreakpointHolds (p : Platform Data) (s : Debugger.Machine Data) (g : Gdb) (data : Text)
    (queue : List Event) : Prop :=
  g.connected = true → (∃ e ∈ queue, e.name = "dbg_bpinfo") →
    ∀ addr, breakpointArg data = some addr → InWord addr ∧
      (Armed s.bps (UInt32.ofNat addr.toNat) ∨ Accepts p s (UInt32.ofNat addr.toNat))

theorem setBreakpoint_truthful_iff :
    (Acknowledged g ('Z' :: data) queue → SetsBreakpoint p s g data) ↔
      BreakpointHolds p s g data queue := by
  rw [acknowledged_setBreakpoint, BreakpointHolds]
  constructor
  · intro h hconn hinfo addr hargs
    exact (setsBreakpoint_iff hargs hconn).mp (h ⟨hconn, hinfo, addr, hargs⟩)
  · rintro h ⟨hconn, hinfo, addr, hargs⟩
    exact (setsBreakpoint_iff hargs hconn).mpr (h hconn hinfo addr hargs)

end Points

/-- Exactly when the acknowledgement of a packet is true, whatever else is queued: for P and G if
the registers have the values already, for M if the memory takes every byte or has it, for Z0 if
the breakpoint is there or can be added. -/
theorem acknowledgements_truthful_iff {Data : Type*} (p : Platform Data) (s : Debugger.Machine Data)
    (memory : Memory) (g : Gdb) (data : Text) (queue : List Event) :
    ((Acknowledged g ('P' :: data) queue → SetsReg p s g data) ↔ RegHolds s g data) ∧
    ((Acknowledged g ('G' :: data) queue → SetsRegs p s g data) ↔ RegsHold s g data) ∧
    ((Acknowledged g ('M' :: data) queue → WritesMemory memory g data) ↔
      MemoryHolds memory g data queue) ∧
    ((Acknowledged g ('Z' :: data) queue → SetsBreakpoint p s g data) ↔
      BreakpointHolds p s g data queue) :=
  ⟨writeReg_truthful_iff, writeAllRegs_truthful_iff, writeMemory_truthful_iff memory,
    setBreakpoint_truthful_iff⟩

/-- A register of an untouched target is not set, but the packet is acknowledged. -/
example : Acknowledged (.initial true) "P0=1".toList [] :=
  acknowledged_writeReg.mpr ⟨rfl, 0, 1, by decide, by decide, by decide⟩

end AmigaDevbench.GdbAcknowledgements
