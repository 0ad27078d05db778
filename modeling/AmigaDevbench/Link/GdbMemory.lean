import AmigaDevbench.Daemon.Memory
import AmigaDevbench.Host.GdbRegisters
import AmigaDevbench.Link.CommandFraming
import AmigaDevbench.Link.Replies

/-!
# Memory reads of a remote debugger

An m packet becomes one INSPECT, which the daemon answers with one line of at most 256 bytes. The
handler collects the data of whatever MEM lines arrive until their sizes reach the length it
asked for, and stops at any ERR. A schedule says in which order the answer to this request and
the lines of other requests arrive; the reply is exact for all contents of the memory and of the
other lines precisely when no other MEM line is taken before the reading is complete.
-/

namespace AmigaDevbench.GdbMemory

open Daemon Protocol Replies CNumber Gdb DebuggerState

/-- The request that the daemon reads off the bytes of an INSPECT: its address and its size,
which is 16 when the field is missing. -/
def requestOf (bytes : Text) : Nat × Nat :=
  match (receive [] bytes).2 with
  | [.executed "INSPECT" [.num a, .num n]] => (a.toNat, n.toNat)
  | [.executed "INSPECT" [.num a]] => (a.toNat, 16)
  | _ => (0, 0)

/-- A line that arrives while the handler waits, by what it contributes: the answer to this
request, up to 256 bytes for another one, or an error. -/
inductive Slot where
  | own
  | other (extra : Fin 256)
  | err
  deriving DecidableEq, Repr

/-- The order in which lines arrive. A request is answered once. -/
structure Schedule where
  slots : List Slot
  once : slots.count .own ≤ 1

/-- A line with its contents. -/
inductive Arrived where
  | own
  | other (address : Nat) (extra : Fin 256) (byte : Nat → UInt8)
  | err (text : Text)

namespace Arrived

def slot : Arrived → Slot
  | own => .own
  | other _ extra _ => .other extra
  | err _ => .err

/-- The line that the daemon sends. -/
def line (memory : Memory) (request : Nat × Nat) : Arrived → Text
  | own => handleInspect memory request.1 request.2
  | other address extra byte => memLine address ((List.range (extra.val + 1)).map byte)
  | err text => "ERR|".toList ++ text

end Arrived

/-- The reply to an m packet, from the lines that arrive before the deadline. -/
def exchange (hasDbg : Bool) (now : Text) (g : Gdb) (data : Text) (memory : Memory)
    (arrived : List Arrived) : Option Text :=
  match g.processPacket ('m' :: data) with
  | (_, .ok (.reply response)) => response
  | (g', .ok (.wait w)) =>
    some (w.finish g'.dbg (arrived.flatMap fun x =>
      published hasDbg now (x.line memory (requestOf (g'.sent.getLastD [])))))
  | (_, .error _) => none

/-- The reply is an error, or begins the digits of the bytes that the daemon reads for this
request at the address that the packet names. -/
def Exact (hasDbg : Bool) (now : Text) (g : Gdb) (data : Text) (memory : Memory)
    (arrived : List Arrived) : Prop :=
  ∀ reply, exchange hasDbg now g data memory arrived = some reply →
    reply = "E01".toList ∨ ∃ addr length, readArgs data = some (addr, length) ∧ InWord addr ∧
      reply <+: Bytes.hex (readBytes memory addr.toNat (min (min length 4096).toNat inspectLimit))

/-- The items taken until their sizes reach what is missing; one without size is the last. -/
def needed {α : Type*} (size : α → Option Nat) : Int → List α → List α
  | _, [] => []
  | missing, x :: xs =>
    if 0 < missing then
      x :: match size x with
        | none => []
        | some k => needed size (missing - k) xs
    else []

/-- The bytes that a line contributes, `none` for an error. -/
def slotSize (request : Nat × Nat) : Slot → Option Nat
  | .own => if request.2 = 0 ∨ inspectRefused request.1 then none
      else some (min request.2 inspectLimit)
  | .other extra => some (extra.val + 1)
  | .err => none

/-- The bytes sent for an m packet. -/
def inspectBytes (addr length : Int) : Text :=
  "INSPECT|".toList ++ Py.hex32 addr ++ '|' :: Py.str (min length 4096) ++ ['\n']

/-- What may arrive: an error before the reading is complete, or nothing else than the answer to
this request, for an address of 32 bits. -/
def Clean (addr length : Int) (slots : List Slot) : Prop :=
  let size := slotSize (requestOf (inspectBytes addr length))
  let taken := needed size (min length 4096) slots
  (∃ s ∈ taken, size s = none) ∨ ∀ s ∈ taken, s = .own ∧ InWord addr

section Needed

variable {α β : Type*} {size : α → Option Nat} {missing : Int}

theorem needed_of_nonpos (h : missing ≤ 0) (xs : List α) : needed size missing xs = [] := by
  cases xs with
  | nil => rfl
  | cons x xs => rw [needed, if_neg (by omega)]

theorem needed_cons_none {x : α} (h : 0 < missing) (hx : size x = none) (xs : List α) :
    needed size missing (x :: xs) = [x] := by
  rw [needed, if_pos h, hx]

theorem needed_cons_some {x : α} {k : Nat} (h : 0 < missing) (hx : size x = some k) (xs : List α) :
    needed size missing (x :: xs) = x :: needed size (missing - k) xs := by
  rw [needed, if_pos h, hx]

/-- Which items are taken depends on their sizes only. -/
theorem needed_map (f : β → α) (xs : List β) : ∀ missing,
    needed size missing (xs.map f) = (needed (size ∘ f) missing xs).map f := by
  induction xs with
  | nil => intro missing; rfl
  | cons x xs ih =>
    intro missing
    simp only [List.map_cons, needed, Function.comp_apply]
    split
    · cases size (f x) with
      | none => rfl
      | some k => exact congrArg (f x :: ·) (ih _)
    · rfl

theorem needed_sublist (xs : List α) : ∀ missing, (needed size missing xs).Sublist xs := by
  induction xs with
  | nil => intro missing; exact List.Sublist.refl _
  | cons x xs ih =>
    intro missing
    rw [needed]
    split
    · cases size x with
      | none => exact List.Sublist.cons_cons _ (List.nil_sublist _)
      | some k => exact List.Sublist.cons_cons _ (ih _)
    · exact List.nil_sublist _

end Needed

section Collected

variable (hasDbg : Bool) (now : Text) (memory : Memory) (request : Nat × Nat)

/-- The bytes that a line carries. -/
def dataOf : Arrived → Bytes
  | .own => readBytes memory request.1 (min request.2 inspectLimit)
  | .other _ extra byte => (List.range (extra.val + 1)).map byte
  | .err _ => []

/-- A line is published as an error, or with the number of its bytes and their digits. -/
theorem published_line (x : Arrived) :
    (slotSize request x.slot = none ∧
      ∃ msg, published hasDbg now (x.line memory request) = [⟨"err", msg⟩]) ∨
    (slotSize request x.slot = some (dataOf memory request x).length ∧ ∃ address,
      published hasDbg now (x.line memory request) =
        [⟨"mem", memMsg address (dataOf memory request x)⟩]) := by
  cases x with
  | own =>
    simp only [Arrived.slot, Arrived.line, slotSize, handleInspect, dataOf, length_readBytes]
    by_cases hzero : request.2 = 0
    · refine Or.inl ⟨if_pos (Or.inl hzero), ?_⟩
      rw [if_pos hzero]
      exact published_err hasDbg now "INSPECT|size is 0".toList
    · rw [if_neg hzero]
      by_cases hrefused : inspectRefused request.1 = true
      · refine Or.inl ⟨if_pos (Or.inr hrefused), ?_⟩
        rw [if_pos hrefused]
        exact published_err hasDbg now
          ("INSPECT|address ".toList ++ hex8 request.1 ++ " not accessible".toList)
      · rw [if_neg hrefused]
        refine Or.inr ⟨if_neg (not_or.mpr ⟨hzero, hrefused⟩), request.1, ?_⟩
        apply published_mem
        rw [length_readBytes]
        exact (Nat.min_le_right _ _).trans_lt (by decide)
  | other address extra byte =>
    have hlen : ((List.range (extra.val + 1)).map byte).length = extra.val + 1 := by
      rw [List.length_map, List.length_range]
    refine Or.inr ⟨by rw [dataOf, hlen]; rfl, address, published_mem hasDbg now address ?_⟩
    rw [hlen]
    omega
  | err text => exact Or.inl ⟨rfl, published_err hasDbg now text⟩

/-- What the loop collects of the lines that arrive: nothing behind an error, and otherwise the
digits of the lines it needs. -/
theorem collect_eq (length : Int) (xs : List Arrived) : ∀ received,
    Wait.collect length received
        (xs.flatMap fun x => published hasDbg now (x.line memory request)) =
      let taken := needed (slotSize request ∘ Arrived.slot) (length - received) xs
      if ∃ x ∈ taken, slotSize request x.slot = none then none
      else some (taken.map fun x => (dataOf memory request x).hex) := by
  induction xs with
  | nil => intro received; simp [Wait.collect, needed]
  | cons x xs ih =>
    intro received
    simp only
    rw [List.flatMap_cons]
    by_cases hmissing : received < length
    · have hpos : 0 < length - received := by omega
      rcases published_line hasDbg now memory request x with ⟨hsize, msg, hpub⟩ |
        ⟨hsize, address, hpub⟩
      · rw [hpub, needed_cons_none hpos (show (slotSize request ∘ Arrived.slot) x = none from hsize),
          if_pos ⟨x, List.mem_singleton_self x, hsize⟩]
        simp only [List.cons_append, List.nil_append, Wait.collect, if_pos hmissing, if_true]
      · have hnext := ih (received + (dataOf memory request x).length)
        rw [hpub, needed_cons_some hpos (show (slotSize request ∘ Arrived.slot) x = some _ from hsize)]
        have hget : (memMsg address (dataOf memory request x)).getInt "size" 0 =
            (dataOf memory request x).length := rfl
        have htext : (memMsg address (dataOf memory request x)).getText "hexData" [] =
            (dataOf memory request x).hex := rfl
        have hname : ¬ "mem" = "err" := by decide
        simp only [List.cons_append, List.nil_append, Wait.collect, if_pos hmissing, if_neg hname,
          hget, htext, hnext, Int.sub_sub]
        simp only [List.mem_cons, exists_eq_or_imp, hsize, reduceCtorEq, false_or]
        split
        · rfl
        · rfl
    · rw [needed_of_nonpos (by omega)]
      simp only [List.not_mem_nil, false_and, exists_false, if_false, List.map_nil]
      cases hev : published hasDbg now (x.line memory request) ++
          xs.flatMap fun x => published hasDbg now (x.line memory request) with
      | nil => rfl
      | cons e es => rw [Wait.collect, if_neg hmissing]

end Collected

section Numbers

/-- The C library and Python agree on the digits of base sixteen. -/
theorem digit?_sixteen {c : Char} {d : Nat} (h : Py.digitVal c = some d) (hd : d < 16) :
    digit? 16 c = some d := by
  unfold Py.digitVal at h
  unfold digit?
  split at h
  · next hc => simp only [if_pos hc, Option.some.injEq] at h ⊢; rw [if_pos (by omega), h]
  · next hc =>
    simp only [if_neg hc]
    split at h
    · next hl => simp only [if_pos hl, Option.some.injEq] at h ⊢; rw [if_pos (by omega), h]
    · next hl =>
      simp only [if_neg hl]
      split at h
      · next hu => simp only [if_pos hu, Option.some.injEq] at h ⊢; rw [if_pos (by omega), h]
      · cases h

/-- The daemon reads a sequence of hexadecimal digits as the number it denotes. -/
theorem strtoul_digits {s : Text} (hne : s ≠ []) (hall : s.all (Py.isDigitOf 16) = true)
    (hlt : Py.digitsVal 16 s < 2 ^ 32) : strtoul 16 s = Py.digitsVal 16 s := by
  have hdigit : ∀ c ∈ s, ∃ d, Py.digitVal c = some d ∧ digit? 16 c = some d := by
    intro c hc
    have hof := List.all_eq_true.mp hall c hc
    cases hval : Py.digitVal c with
    | none => simp [Py.isDigitOf, hval] at hof
    | some d =>
      have hd : d < 16 := by simpa [Py.isDigitOf, hval] using hof
      exact ⟨d, rfl, digit?_sixteen hval hd⟩
  have hscan : scan 16 s = (false, s) := by
    obtain ⟨c, cs, rfl⟩ := List.exists_cons_of_ne_nil hne
    obtain ⟨d, hd, _⟩ := hdigit c List.mem_cons_self
    obtain ⟨hspace, hplus, hminus, _, _, _⟩ := Py.digitVal_eq_some hd
    have hblank : isSpace c = false := by
      simp only [Py.intSpace, isSpace, List.mem_cons, List.not_mem_nil, or_false,
        decide_eq_false_iff_not] at hspace ⊢
      omega
    have hsign : CNumber.splitSign (c :: cs) = (false, c :: cs) := by
      unfold CNumber.splitSign
      split
      · next h => exact absurd (List.cons.inj h).1 hminus
      · next h => exact absurd (List.cons.inj h).1 hplus
      · rfl
    have hx : ∀ c' ∈ c :: cs, c' ≠ 'x' ∧ c' ≠ 'X' := by
      intro c' hc'
      obtain ⟨d', hd', _⟩ := hdigit c' hc'
      exact ⟨(Py.digitVal_eq_some hd').2.2.2.2.1, (Py.digitVal_eq_some hd').2.2.2.2.2⟩
    have hfront : CNumber.dropBasePrefix 16 (c :: cs) = c :: cs := by
      unfold CNumber.dropBasePrefix
      split
      · next h => exact absurd rfl (hx 'x' (by rw [h]; simp)).1
      · next h => exact absurd rfl (hx 'X' (by rw [h]; simp)).2
      · rfl
    simp only [scan, List.dropWhile_cons, hblank, Bool.false_eq_true, if_false, hsign, hfront]
  have hmagnitude : magnitude 16 s = Py.digitsVal 16 s := by
    have htake : s.takeWhile (isDigit 16) = s := by
      rw [List.takeWhile_eq_self_iff]
      intro c hc
      obtain ⟨d, _, hd⟩ := hdigit c hc
      rw [isDigit, hd, Option.isSome_some]
    rw [magnitude, htake, Py.digitsVal]
    apply List.foldl_ext
    intro m c hc
    obtain ⟨d, hval, hd⟩ := hdigit c hc
    rw [hval, hd]
  rw [strtoul, hscan, hmagnitude, if_neg (by omega)]
  rfl

/-- A word in hexadecimal is read back by the daemon. -/
theorem strtoul_hex32 {n : Int} (hn : InWord n) : strtoul 16 (Py.hex32 n) = n.toNat := by
  have hval : Py.digitsVal 16 (Py.hex32 n) = n.toNat := by
    rw [hex32_eq hn, Py.digitsVal_zeros, Py.digitsVal_toDigits (by decide) (by decide)]
  have hlt : n.toNat < 2 ^ 32 := by
    have h := hn.2
    omega
  have hne : Py.hex32 n ≠ [] := by
    intro h
    have hlen := length_hex32 hn
    rw [h] at hlen
    exact absurd hlen (by decide)
  rw [strtoul_digits hne (isDigitOf_hex32 hn) (by omega), hval]

/-- Digits do not disturb a line. -/
theorem clean_of_isDigitOf {c : Char} (h : Py.isDigitOf 16 c = true) :
    c ≠ '\n' ∧ c ≠ '\r' ∧ c ≠ CText.nul := by
  refine ⟨?_, ?_, ?_⟩ <;> rintro rfl <;> exact absurd h (by decide)

/-- The daemon reads the requested address and size off the bytes that were sent. -/
theorem requestOf_inspectBytes {addr length : Int} (haddr : InWord addr)
    (hlength : 0 < length) :
    requestOf (inspectBytes addr length) = (addr.toNat, (min length 4096).toNat) := by
  have hlow : 0 ≤ min length 4096 := by omega
  have hhigh : min length 4096 < 2 ^ 32 := by omega
  have hline : inspectBytes addr length = ("INSPECT".toList ++ '|' ::
      (Py.hex32 addr ++ '|' :: Py.str (min length 4096))) ++ ['\n'] := by
    have hbar : "INSPECT|".toList = "INSPECT".toList ++ ['|'] := rfl
    change "INSPECT|".toList ++ Py.hex32 addr ++ '|' :: Py.str (min length 4096) ++ ['\n'] = _
    simp only [hbar, List.append_assoc, List.cons_append, List.nil_append]
  have hclean : ∀ c ∈ "INSPECT".toList ++ '|' :: (Py.hex32 addr ++ '|' ::
      Py.str (min length 4096)), c ≠ '\n' ∧ c ≠ '\r' ∧ c ≠ CText.nul := by
    intro c hc
    rw [List.mem_append, List.mem_cons, List.mem_append, List.mem_cons] at hc
    rcases hc with hc | rfl | hc | rfl | hc
    · exact (by decide : ∀ c ∈ "INSPECT".toList, c ≠ '\n' ∧ c ≠ '\r' ∧ c ≠ CText.nul) c hc
    · decide
    · exact clean_of_isDigitOf (List.all_eq_true.mp (isDigitOf_hex32 haddr) c hc)
    · decide
    · rcases CommandFraming.mem_str hc with hdigit | rfl
      · refine ⟨?_, ?_, ?_⟩ <;> rintro rfl <;> exact absurd hdigit (by decide)
      · decide
  have hlen : ("INSPECT".toList ++ '|' :: (Py.hex32 addr ++ '|' ::
      Py.str (min length 4096))).length < maxLine := by
    have hstr : (Py.str (min length 4096)).length ≤ 10 := by
      rw [Py.str_eq, if_pos hlow, Nat.length_toDigits_le_iff (by decide) (by decide)]
      omega
    have hname : "INSPECT".toList.length = 7 := rfl
    have hmax : maxLine = 8192 := rfl
    simp only [List.length_append, List.length_cons, length_hex32 haddr, hname, hmax]
    omega
  have hhandler : handlerOf "INSPECT".toList =
      some ("INSPECT", 0, [.num 16 32, .num 10 32]) := rfl
  have hfields : readFields [.num 16 32, .num 10 32]
      (Py.hex32 addr ++ '|' :: Py.str (min length 4096)) =
      some [.num addr.toNat, .num (min length 4096).toNat] := by
    have haddrLt : addr.toNat < 2 ^ 32 := by
      have h := haddr.2
      omega
    have hsize : strtoul 10 (Py.str (min length 4096)) = (min length 4096).toNat := by
      have h := CommandFraming.strtoul_str hlow hhigh
      omega
    have hnobar := Text.after?_eq_none (CommandFraming.bar_notMem_str (min length 4096))
    have hbar : '|' ∉ Py.hex32 addr := fun h =>
      absurd (List.all_eq_true.mp (isDigitOf_hex32 haddr) _ h) (by decide)
    simp only [readFields, Cut.read, Cut.isLast, Bool.false_eq_true, if_false,
      strtoul_append_bar (Or.inr rfl), strtoul_hex32 haddr, Text.after?_append hbar, hnobar, hsize,
      Nat.mod_eq_of_lt haddrLt, Nat.mod_eq_of_lt (by omega : (min length 4096).toNat < 2 ^ 32),
      Option.map_some]
  have hrun : (receive [] (inspectBytes addr length)).2 =
      [.executed "INSPECT" [.num addr.toNat, .num (min length 4096).toNat]] := by
    rw [hline, receive_line hclean (by simp) hlen]
    simp only
    rw [protocolParseLine_append (by decide) (by decide), dispatch, hhandler]
    simp only [Nat.not_lt_zero, if_false, hfields]
  rw [requestOf, hrun]
  rfl

end Numbers

/-- The digits of bytes are in lower case already. -/
theorem lower_hex (bs : Bytes) : Py.lower bs.hex = bs.hex := by
  have hdigit : ∀ n < 16, ¬ (65 ≤ (Nat.digitChar n).toNat ∧ (Nat.digitChar n).toNat ≤ 90 ∨
      192 ≤ (Nat.digitChar n).toNat ∧ (Nat.digitChar n).toNat ≤ 222 ∧
        (Nat.digitChar n).toNat ≠ 215) := by decide
  refine (List.map_congr_left ?_).trans (List.map_id _)
  intro c hc
  obtain ⟨n, hn, rfl⟩ := Bytes.mem_hex hc
  exact if_neg (hdigit n hn)

section Reply

variable (hasDbg : Bool) (now : Text) (memory : Memory) (request : Nat × Nat) (n : Int)
  (arrived : List Arrived)

/-- The lines that the handler needs. -/
def taken : List Arrived := needed (slotSize request ∘ Arrived.slot) n arrived

theorem collect_start :
    Wait.collect n 0 (arrived.flatMap fun x => published hasDbg now (x.line memory request)) =
      if ∃ x ∈ taken request n arrived, slotSize request x.slot = none then none
      else some ((taken request n arrived).map fun x => (dataOf memory request x).hex) := by
  rw [collect_eq]
  simp only [Int.sub_zero]
  rfl

/-- An error, or nothing at all, is answered with an error. -/
theorem memoryReply_error (h : (∃ x ∈ taken request n arrived, slotSize request x.slot = none) ∨
    taken request n arrived = []) :
    Wait.memoryReply n (arrived.flatMap fun x => published hasDbg now (x.line memory request)) =
      "E01".toList := by
  unfold Wait.memoryReply
  rw [collect_start]
  by_cases herr : ∃ x ∈ taken request n arrived, slotSize request x.slot = none
  · rw [if_pos herr]
  · rw [if_neg herr, h.resolve_left herr]
    rfl

/-- The other replies are the digits of the lines taken, cut to the length. -/
theorem memoryReply_data (h : ∀ x ∈ taken request n arrived, slotSize request x.slot ≠ none)
    (hne : taken request n arrived ≠ []) :
    Wait.memoryReply n (arrived.flatMap fun x => published hasDbg now (x.line memory request)) =
      (Bytes.hex ((taken request n arrived).flatMap (dataOf memory request))).take
        (n * 2).toNat := by
  unfold Wait.memoryReply
  rw [collect_start]
  have herr : ¬ ∃ x ∈ taken request n arrived, slotSize request x.slot = none := by
    rintro ⟨x, hx, hnone⟩
    exact h x hx hnone
  rw [if_neg herr, ← lower_hex, Bytes.hex_flatMap]
  obtain ⟨x, xs, hxs⟩ := List.exists_cons_of_ne_nil hne
  rw [hxs]
  rfl

end Reply

/-- An m packet that names its address and length is sent as an INSPECT, if the link is up and
the length can be written. -/
theorem exchange_eq (hasDbg : Bool) (now : Text) {g : Gdb} {data : Text} {addr length : Int}
    (hargs : readArgs data = some (addr, length)) (hconn : g.connected = true)
    (hwritable : Py.writable (min length 4096) = true) (memory : Memory) (arrived : List Arrived) :
    exchange hasDbg now g data memory arrived =
      some (Wait.memoryReply (min length 4096) (arrived.flatMap fun x =>
        published hasDbg now (x.line memory (requestOf (inspectBytes addr length))))) := by
  have hline : Latin ("INSPECT|".toList ++ Py.hex32 addr ++ '|' :: Py.str (min length 4096)) :=
    latin_inspect addr length
  have hprocess : g.processPacket ('m' :: data) =
      (g.logged ("INSPECT|".toList ++ Py.hex32 addr ++ '|' :: Py.str (min length 4096))).await
        (.memory (min length 4096)) := by
    change g.readMemory data = _
    rw [readMemory_eq, hargs]
    simp only
    rw [if_neg (fun hand => hand.2 hwritable), andThen_send (formatCommand_inspect _ _),
      if_pos hconn, if_pos hline]
  have hsent : (g.logged ("INSPECT|".toList ++ Py.hex32 addr ++
      '|' :: Py.str (min length 4096))).sent.getLastD [] = inspectBytes addr length := by
    unfold logged inspectBytes
    rw [List.getLastD_concat]
  unfold exchange
  rw [hprocess]
  simp only [Gdb.await, hsent]
  rfl

section Exactness

variable (hasDbg : Bool) (now : Text) (g : Gdb) (data : Text)

/-- The slots taken are those of the lines taken. -/
theorem needed_slots (request : Nat × Nat) (n : Int) (arrived : List Arrived) :
    needed (slotSize request) n (arrived.map Arrived.slot) =
      (taken request n arrived).map Arrived.slot :=
  needed_map Arrived.slot arrived n

/-- A request is answered once, so the lines taken for it alone are one line. -/
theorem taken_eq_own {request : Nat × Nat} {n : Int} {slots : List Slot} {arrived : List Arrived}
    (honce : slots.count .own ≤ 1) (hslots : arrived.map Arrived.slot = slots)
    (hown : ∀ x ∈ taken request n arrived, x.slot = .own) (hne : taken request n arrived ≠ []) :
    taken request n arrived = [.own] := by
  have hsub : ((taken request n arrived).map Arrived.slot).Sublist slots := by
    rw [← hslots]
    exact (needed_sublist arrived n).map _
  have hcount := hsub.count_le .own
  have hall : ((taken request n arrived).map Arrived.slot).count .own =
      ((taken request n arrived).map Arrived.slot).length := by
    rw [List.count_eq_length]
    intro slot hslot
    obtain ⟨x, hx, rfl⟩ := List.mem_map.mp hslot
    exact (hown x hx).symm
  obtain ⟨x, xs, hxs⟩ := List.exists_cons_of_ne_nil hne
  rw [hall, List.length_map, hxs, List.length_cons] at hcount
  have hnil : xs = [] := List.length_eq_zero_iff.mp (by omega)
  have hslot := hown x (by rw [hxs]; exact List.mem_cons_self)
  rw [hxs, hnil]
  cases x with
  | own => rfl
  | other _ _ _ => cases hslot
  | err _ => cases hslot

/-- A clean schedule gives an exact reply, whatever the lines contain. -/
theorem exact_of_clean {schedule : Schedule}
    (hclean : ∀ addr length, readArgs data = some (addr, length) → g.connected = true →
      Clean addr length schedule.slots)
    {memory : Memory} {arrived : List Arrived} (hslots : arrived.map Arrived.slot = schedule.slots) :
    Exact hasDbg now g data memory arrived := by
  intro reply hreply
  cases hargs : readArgs data with
  | none =>
    have hprocess : g.processPacket ('m' :: data) = g.e01 := by
      change g.readMemory data = _
      rw [readMemory_eq, hargs]
    rw [exchange, hprocess] at hreply
    exact Or.inl (Option.some.inj hreply).symm
  | some args =>
    obtain ⟨addr, length⟩ := args
    have hsound : g.connected = true ∧ Py.writable (min length 4096) = true := by
      by_contra hnot
      obtain ⟨g', e, herror⟩ : ∃ g' e, g.processPacket ('m' :: data) = (g', .error e) := by
        change ∃ g' e, g.readMemory data = (g', .error e)
        rw [readMemory_eq, hargs]
        simp only
        by_cases hconn : g.connected = true
        · exact ⟨_, _, if_pos ⟨hconn, fun hw => hnot ⟨hconn, hw⟩⟩⟩
        · rw [if_neg (fun hand => hconn hand.1), andThen_send (formatCommand_inspect _ _),
            if_neg hconn]
          exact ⟨_, _, rfl⟩
      rw [exchange, herror] at hreply
      cases hreply
    rw [exchange_eq hasDbg now hargs hsound.1 hsound.2] at hreply
    have hreply := (Option.some.inj hreply).symm
    have hclean := hclean addr length hargs hsound.1
    simp only [Clean, ← hslots, needed_slots, List.mem_map, forall_exists_index, and_imp,
      forall_apply_eq_imp_iff₂, exists_exists_and_eq_and] at hclean
    by_cases herror : (∃ x ∈ taken (requestOf (inspectBytes addr length)) (min length 4096) arrived,
        slotSize (requestOf (inspectBytes addr length)) x.slot = none) ∨
        taken (requestOf (inspectBytes addr length)) (min length 4096) arrived = []
    · rw [memoryReply_error _ _ _ _ _ _ herror] at hreply
      exact Or.inl hreply
    · obtain ⟨hsome, hne⟩ := not_or.mp herror
      have hown := hclean.resolve_left hsome
      have hsingle := taken_eq_own schedule.once hslots (fun x hx => (hown x hx).1) hne
      have hword := (hown .own (by rw [hsingle]; exact List.mem_singleton_self _)).2
      have hpos : 0 < length := by
        by_contra hnot
        exact hne (needed_of_nonpos (by omega) arrived)
      have hdata := memoryReply_data hasDbg now memory _ _ arrived
        (fun x hx hnone => hsome ⟨x, hx, hnone⟩) hne
      rw [hdata, hsingle, requestOf_inspectBytes hword hpos] at hreply
      refine Or.inr ⟨addr, length, rfl, hword, ?_⟩
      rw [hreply, List.flatMap_singleton]
      exact List.take_prefix _ _

/-- Contents that tell the lines apart: the memory is zero, and every other line carries ones. -/
def filled : Slot → Arrived
  | .own => .own
  | .other extra => .other 0 extra fun _ => 0xFF
  | .err => .err []

theorem slot_filled (slot : Slot) : (filled slot).slot = slot := by
  cases slot <;> rfl

/-- The first digit of another line that is taken stands in the reply. -/
theorem digit_mem_of_other (request : Nat × Nat) {extra : Fin 256} (slots : List Slot) :
    ∀ {n : Int}, Slot.other extra ∈ needed (slotSize request) n slots →
      'f' ∈ (Bytes.hex ((needed (slotSize request) n slots).flatMap fun slot =>
        dataOf (fun _ => 0) request (filled slot))).take (n * 2).toNat := by
  induction slots with
  | nil => intro n h; cases h
  | cons slot slots ih =>
    intro n h
    by_cases hpos : 0 < n
    · cases hsize : slotSize request slot with
      | none =>
        rw [needed_cons_none hpos hsize, List.mem_singleton] at h
        subst h
        cases hsize
      | some k =>
        rw [needed_cons_some hpos hsize] at h ⊢
        rw [List.flatMap_cons, Bytes.hex_append, List.take_append]
        rcases List.mem_cons.mp h with rfl | hrest
        · apply List.mem_append_left
          have hfirst : ∃ rest, Bytes.hex (dataOf (fun _ => 0) request
              (filled (.other extra))) = 'f' :: rest := by
            rw [filled, dataOf, List.range_succ_eq_map]
            exact ⟨_, rfl⟩
          obtain ⟨rest, hrest⟩ := hfirst
          obtain ⟨m, hm⟩ : ∃ m, (n * 2).toNat = m + 1 := ⟨(n * 2).toNat - 1, by omega⟩
          rw [hrest, hm, List.take_succ_cons]
          exact List.mem_cons_self
        · apply List.mem_append_right
          have hlen : (dataOf (fun _ => 0) request (filled slot)).length = k := by
            rcases published_line false [] (fun _ => 0) request (filled slot) with
              ⟨hnone, _⟩ | ⟨hsome, _⟩
            · rw [slot_filled, hsize] at hnone
              cases hnone
            · rw [slot_filled, hsize] at hsome
              exact (Option.some.inj hsome).symm
          have hcut : (n * 2).toNat - (Bytes.hex (dataOf (fun _ => 0) request
              (filled slot))).length = ((n - k) * 2).toNat := by
            rw [Bytes.length_hex, hlen]
            omega
          rw [hcut]
          exact ih hrest
    · rw [needed_of_nonpos (by omega)] at h
      cases h

/-- Zero bytes have only the digit zero. -/
theorem notMem_hex_zeros {address size : Nat} :
    'f' ∉ Bytes.hex (readBytes (fun _ => 0) address size) := by
  intro h
  obtain ⟨b, hb, hc⟩ := List.mem_flatMap.mp h
  obtain ⟨_, _, hzero⟩ := List.mem_map.mp hb
  have hb : b = 0 := hzero.symm
  subst hb
  exact absurd hc (by decide)

/-- Only a clean schedule gives an exact reply for all contents. -/
theorem clean_of_exact {schedule : Schedule}
    (hexact : ∀ (memory : Memory) (arrived : List Arrived),
      arrived.map Arrived.slot = schedule.slots → Exact hasDbg now g data memory arrived)
    {addr length : Int} (hargs : readArgs data = some (addr, length)) (hconn : g.connected = true) :
    Clean addr length schedule.slots := by
  by_contra hunclean
  simp only [Clean, not_or, not_exists, not_and, not_forall] at hunclean
  obtain ⟨hsome, slot, hslot, hother⟩ := hunclean
  let request := requestOf (inspectBytes addr length)
  let n := min length 4096
  have hpos : 0 < n := by
    by_contra hnot
    rw [needed_of_nonpos (by omega)] at hslot
    cases hslot
  have hwritable : Py.writable n = true := by
    have hlen : (Nat.toDigits 10 n.natAbs).length ≤ 4 := by
      rw [Nat.length_toDigits_le_iff (by decide) (by decide)]
      omega
    exact decide_eq_true (hlen.trans (by decide))
  have hslots : (schedule.slots.map filled).map Arrived.slot = schedule.slots := by
    simp only [List.map_map, Function.comp_def, slot_filled, List.map_id']
  have htaken : taken request n (schedule.slots.map filled) =
      (needed (slotSize request) n schedule.slots).map filled := by
    unfold taken
    rw [needed_map]
    simp only [Function.comp_def, slot_filled]
  have hne : taken request n (schedule.slots.map filled) ≠ [] := by
    rw [htaken]
    intro hnil
    rw [List.map_eq_nil_iff.mp hnil] at hslot
    cases hslot
  have hdata : ∀ x ∈ taken request n (schedule.slots.map filled),
      slotSize request x.slot ≠ none := by
    rw [htaken]
    intro x hx
    obtain ⟨s, hs, rfl⟩ := List.mem_map.mp hx
    rw [slot_filled]
    exact hsome s hs
  have hreply := exchange_eq hasDbg now hargs hconn hwritable (fun _ => 0)
    (schedule.slots.map filled)
  rw [memoryReply_data _ _ _ request n _ hdata hne, htaken, List.flatMap_map] at hreply
  rcases hexact (fun _ => 0) (schedule.slots.map filled) hslots _ hreply with
    herror | ⟨addr', length', hargs', hword, hfront⟩
  · -- the reply consists of digits in lower case, so it is no error
    have hE : 'E' ∈ "E01".toList := by decide
    rw [← herror] at hE
    obtain ⟨m, hm, hc⟩ := Bytes.mem_hex (List.mem_of_mem_take hE)
    exact absurd hc (by decide +revert)
  · rw [hargs] at hargs'
    cases hargs'
    have hf : ∃ extra, slot = .other extra := by
      cases slot with
      | own => exact absurd hword (hother rfl)
      | other extra => exact ⟨extra, rfl⟩
      | err => exact absurd rfl (hsome .err hslot)
    obtain ⟨extra, rfl⟩ := hf
    exact notMem_hex_zeros (hfront.subset (digit_mem_of_other request schedule.slots hslot))

/-- For every m packet and every order of arrival: the reply is exact for all contents of the
memory and of the other lines if and only if the schedule is clean, whenever the packet makes a
request at all. -/
theorem read_memory_exact_iff (schedule : Schedule) :
    (∀ (memory : Memory) (arrived : List Arrived),
      arrived.map Arrived.slot = schedule.slots → Exact hasDbg now g data memory arrived) ↔
    ∀ addr length, readArgs data = some (addr, length) → g.connected = true →
      Clean addr length schedule.slots :=
  ⟨fun hexact _ _ hargs hconn => clean_of_exact hasDbg now g data hexact hargs hconn,
    fun hclean _ _ hslots => exact_of_clean hasDbg now g data hclean hslots⟩

end Exactness

/-- Another user's reading of one byte arrives before the answer to `m1000,1` and is taken for
it. -/
theorem read_memory_not_exact :
    ¬ ∀ (g : Gdb) (data : Text) (schedule : Schedule) (memory : Memory) (arrived : List Arrived),
      arrived.map Arrived.slot = schedule.slots → Exact true [] g data memory arrived := by
  intro hall
  have hexact := hall (.initial true) "1000,1".toList ⟨[.other 0, .own], by decide⟩
    (fun _ => 0) [.other 0x2000 0 fun _ => 0xFF, .own] rfl
  have hreply : exchange true [] (.initial true) "1000,1".toList (fun _ => 0)
      [.other 0x2000 0 fun _ => 0xFF, .own] = some "ff".toList := by decide
  rcases hexact _ hreply with herror | ⟨addr, length, _, _, hfront⟩
  · exact absurd herror (by decide)
  · have hf : 'f' ∈ "ff".toList := by decide
    exact notMem_hex_zeros (hfront.subset hf)

end AmigaDevbench.GdbMemory
