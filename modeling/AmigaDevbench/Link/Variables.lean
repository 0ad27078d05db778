import AmigaDevbench.Daemon.Variables
import AmigaDevbench.Link.GdbMemory

/-!
# Setting a variable over the link

The reply of a client to a request for a value has the grammar that the daemon reads, name, type
and value with two bars. The reply to a request to set a value is the request itself, with one bar
and the value behind it, which the daemon takes for a bad reply although the value is stored.
-/

namespace AmigaDevbench.Variables

open CText CNumber Daemon Client VarState

/-- The line gives a value. -/
def Carries (line value : Text) : Prop :=
  ∃ name type, '|' ∉ name ∧ '|' ∉ type ∧ line = varLine name type value

/-- The line is an error. -/
def IsErr (line : Text) : Prop := "ERR|".toList <+: line

/-- The ways in which a command can name a variable of a client. -/
inductive Addressed (s : VarState) (name : Text) (ce : ClientEntry) : Text → Prop where
  | plain (hdot : '.' ∉ name) (hfound : s.findClientWithVar name = some ce) :
    Addressed s name ce name
  | ofClient (cname : Text) (hdot : '.' ∉ cname) (hbar : '|' ∉ cname) (hlen : cname.length ≤ 33)
    (hfound : s.clientNamed cname = some ce) : Addressed s name ce (cname ++ '.' :: name)

/-- A variable is set to the value of a text and read again. -/
structure RoundTrip (s : VarState) (port : Port) (ve : VarEntry) (target text : Text)
    (e e' : Exchange) : Prop where
  /-- The variable of the client has the value. -/
  changed : formatVarValue
    ((s.handleSetvar (target ++ '|' :: text) e).1.settle port).memory ve = text
  /-- The answer is a VAR line with it. -/
  answered : ∃ line ∈ (s.handleSetvar (target ++ '|' :: text) e).2, Carries line text
  /-- If the answer is an error, the variable keeps its value. -/
  refused : (∃ line ∈ (s.handleSetvar (target ++ '|' :: text) e).2, IsErr line) →
    formatVarValue ((s.handleSetvar (target ++ '|' :: text) e).1.settle port).memory ve =
      formatVarValue (s.settle port).memory ve
  /-- Reading it gives the value. -/
  returned : ∃ line ∈ ((s.handleSetvar (target ++ '|' :: text) e).1.handleGetvar target e').2,
    Carries line text

/-! ### Lines -/

/-- A line gives one value. -/
theorem varLine_inj {name name' type type' value value' : Text} (hname : '|' ∉ name)
    (hname' : '|' ∉ name') (htype : '|' ∉ type) (htype' : '|' ∉ type')
    (h : varLine name type value = varLine name' type' value') : value = value' := by
  have htail : name ++ '|' :: (type ++ '|' :: value) = name' ++ '|' :: (type' ++ '|' :: value') :=
    (List.cons.inj (List.append_cancel_left h)).2
  have hname₂ := congrArg (Text.after? '|') htail
  rw [Text.after?_append hname, Text.after?_append hname', Option.some.injEq] at hname₂
  have htype₂ := congrArg (Text.after? '|') hname₂
  rwa [Text.after?_append htype, Text.after?_append htype', Option.some.injEq] at htype₂

theorem bar_notMem_typeName (type : Int) : '|' ∉ typeName type := by
  unfold typeName
  repeat' split
  all_goals decide

/-- An error line gives no value. -/
theorem not_carries_sendErr (context detail value : Text) :
    ¬ Carries (sendErr context detail) value := by
  rintro ⟨name, type, -, -, h⟩
  have hhead : some 'E' = some 'V' := congrArg List.head? h
  exact absurd hhead (by decide)

theorem isErr_sendErr (context detail : Text) : IsErr (sendErr context detail) := by
  rw [IsErr, sendErr, List.append_assoc]
  exact List.prefix_append ..

/-- The log line of an exchange is neither. -/
theorem exchangeLog_plain (address retries : Nat) (value : Text) :
    ¬ Carries (exchangeLog address retries) value ∧ ¬ IsErr (exchangeLog address retries) := by
  constructor
  · rintro ⟨name, type, -, -, h⟩
    have hhead : some 'L' = some 'V' := congrArg List.head? h
    exact absurd hhead (by decide)
  · rintro ⟨rest, h⟩
    have hhead : some 'E' = some 'L' := congrArg List.head? h
    exact absurd hhead (by decide)

/-- What the daemon reads off a reply: the text behind the second bar, or an error. -/
theorem carries_readReply {data value : Text} (h : Carries (readReply data) value) :
    ∃ rest, data.after? '|' = some rest ∧ rest.after? '|' = some value := by
  unfold readReply at h
  split at h
  · next rest hrest =>
    split at h
    · next value' hvalue =>
      obtain ⟨name, type, hname, htype, hline⟩ := h
      have hbar : '|' ∉ (data.before '|').take 33 := fun hmem =>
        Text.notMem_before '|' data (List.mem_of_mem_take hmem)
      have heq := varLine_inj hbar hname (bar_notMem_typeName _) htype hline
      exact ⟨rest, hrest, heq ▸ hvalue⟩
    · exact absurd h (not_carries_sendErr _ _ _)
  · exact absurd h (not_carries_sendErr _ _ _)

/-- The text behind a bar is shorter. -/
theorem length_after?_lt {c : Char} {s t : Text} (h : s.after? c = some t) :
    t.length < s.length := by
  have hs := congrArg List.length (Text.eq_of_after? h)
  simp only [List.length_append, List.length_cons] at hs
  omega

/-! ### Setting -/

/-- The request for a new value that a command leads to, whatever its client. -/
theorem carries_varSendAndWait {s : VarState} {port : Port} {data value : Text} {e : Exchange}
    {line : Text} (hline : line ∈ (s.varSendAndWait port (.varSet data) e).2)
    (h : Carries line value) :
    ∃ rest, Text.after? '|' (data.take maxData) = some rest ∧
      Text.after? '|' rest = some value := by
  have hsame : ∀ (table : VarTable) (memory : Memory),
      (processDaemonMsg table memory (.varSet (data.take maxData))).2.data =
        data.take maxData := by
    intro table memory
    unfold processDaemonMsg
    simp only
    split
    · split <;> rfl
    · rfl
  cases e with
  | noMemory =>
    rw [List.mem_singleton.mp hline] at h
    exact absurd h (not_carries_sendErr _ _ _)
  | noPort =>
    rw [List.mem_singleton.mp hline] at h
    exact absurd h (not_carries_sendErr _ _ _)
  | timeout =>
    simp only [varSendAndWait, List.mem_cons, List.not_mem_nil, or_false] at hline
    rcases hline with rfl | rfl
    · exact absurd h (exchangeLog_plain 0 0 value).1
    · exact absurd h (not_carries_sendErr _ _ _)
  | replied address retries =>
    simp only [varSendAndWait, List.mem_cons, List.not_mem_nil, or_false] at hline
    rcases hline with rfl | rfl
    · exact absurd h (exchangeLog_plain address retries value).1
    · split at h
      · have hrest := carries_readReply h
        rwa [cutData, hsame] at hrest
      · exact absurd h (not_carries_sendErr _ _ _)

/-- What stands behind the first bar of a shortened text is the beginning of what stood there. -/
theorem length_after?_take_le {n : Nat} {s rest value : Text}
    (h : Text.after? '|' (s.take n) = some rest) (hs : s.after? '|' = some value) :
    rest.length ≤ value.length := by
  have hcut := Text.eq_of_after? h
  have hbar := Text.notMem_before '|' (s.take n)
  have hwhole : s = Text.before '|' (s.take n) ++ '|' :: (rest ++ s.drop n) := by
    rw [← List.cons_append, ← List.append_assoc, ← hcut, List.take_append_drop]
  rw [hwhole, Text.after?_append hbar, Option.some.injEq] at hs
  rw [← hs, List.length_append]
  exact Nat.le_add_right _ _

/-- No answer to a SETVAR gives the value that was sent. -/
theorem not_carries_setvar (s : VarState) {args value : Text} (e : Exchange)
    (hvalue : args.after? '|' = some value) :
    ∀ line ∈ (s.handleSetvar args e).2, ¬ Carries line value := by
  have hshorter : ∀ {port : Port} {data line : Text}, data.after? '|' = some value →
      line ∈ (s.varSendAndWait port (.varSet data) e).2 → ¬ Carries line value := by
    intro port data line hdata hline h
    obtain ⟨rest, hrest, hinner⟩ := carries_varSendAndWait hline h
    have hle := length_after?_take_le hrest hdata
    have hlt := length_after?_lt hinner
    omega
  intro line hline h
  unfold handleSetvar at hline
  split at hline
  · split at hline
    · next inner hdot =>
      have htarget := Text.eq_of_after? hdot
      have hargs : args = args.before '|' ++ '|' :: value := Text.eq_of_after? hvalue
      have hname : '.' ∉ (args.before '|').before '.' := Text.notMem_before '.' _
      have hwhole : args = (args.before '|').before '.' ++ '.' :: (inner ++ '|' :: value) := by
        rw [← List.cons_append, ← List.append_assoc, ← htarget, ← hargs]
      have hafter : args.after? '.' = some (inner ++ '|' :: value) := by
        nth_rewrite 1 [hwhole]
        exact Text.after?_append hname _
      have hinner : '|' ∉ inner := by
        intro hmem
        apply Text.notMem_before '|' args
        rw [htarget]
        exact List.mem_append_right _ (List.mem_cons_of_mem _ hmem)
      simp only [hafter, Option.getD_some] at hline
      split at hline
      · exact hshorter (Text.after?_append hinner value) hline h
      · rw [List.mem_singleton.mp hline] at h
        exact not_carries_sendErr _ _ _ h
    · split at hline
      · exact hshorter hvalue hline h
      · rw [List.mem_singleton.mp hline] at h
        exact not_carries_sendErr _ _ _ h
  · rw [List.mem_singleton.mp hline] at h
    exact not_carries_sendErr _ _ _ h

/-! ### Values -/

/-- The client reads eight digits back. -/
theorem strtoul_hex8 {n : Nat} (h : n < 2 ^ 32) : strtoul 16 (hex8 n) = n := by
  have hword : DebuggerState.InWord (n : Int) := ⟨by omega, by omega⟩
  have heq : hex8 n = Py.hex32 n := (Gdb.hex32_eq hword).symm
  rw [heq, GdbMemory.strtoul_hex32 hword, Int.toNat_natCast]

/-- A client reads a signed number back. -/
theorem strtol_longText {n : Int} (hlow : -2 ^ 31 ≤ n) (hhigh : n < 2 ^ 31) :
    strtol (longText n) = n := by
  unfold longText decimal
  split
  · rw [strtol_neg_toDigits (by omega)]
    omega
  · rw [strtol_toDigits (by omega)]
    omega

/-- A value that is stored is written in the same way again, except that no value of type `f32`
is stored. -/
theorem value_storeValue {t : VarType} {ve : VarEntry} {text : Text} (memory : Memory)
    (htype : ve.type = t.code) (hrep : Represents t text) (ht : t ≠ .f32) :
    formatVarValue (storeValue memory ve text) ve = text := by
  unfold formatVarValue storeValue
  rw [htype]
  cases t with
  | i32 =>
    obtain ⟨n, hlow, hhigh, rfl⟩ := hrep
    simp only [VarType.code, if_true]
    rw [strtol_longText hlow hhigh, readLong_storeLong_int memory ve.ptr hlow hhigh]
  | u32 =>
    obtain ⟨n, hn, rfl⟩ := hrep
    have hread : strtoul 10 (decimal n) = n := strtoul_toDigits hn
    simp only [VarType.code, Int.reduceEq, if_false, if_true]
    rw [hread, readLong_storeLong _ _ hn]
  | str =>
    simp only [VarType.code, Int.reduceEq, if_false, if_true]
    exact readText_textBytes memory ve.ptr hrep.1 hrep.2
  | f32 => exact absurd rfl ht
  | ptr =>
    obtain ⟨n, hn, rfl⟩ := hrep
    simp only [VarType.code, Int.reduceEq, if_false, if_true]
    rw [strtoul_hex8 hn, readLong_storeLong _ _ hn]

theorem storeValue_f32 {ve : VarEntry} (memory : Memory) (text : Text)
    (htype : ve.type = VarType.f32.code) : storeValue memory ve text = memory := by
  unfold storeValue
  rw [htype]
  rfl

theorem length_represents {t : VarType} {text : Text} (h : Represents t text) :
    text.length ≤ 127 := by
  have hdecimal : ∀ {n : Nat}, n < 2 ^ 32 → (decimal n).length ≤ 10 := by
    intro n hn
    rw [decimal, Nat.length_toDigits_le_iff (by decide) (by decide)]
    omega
  have hhex : ∀ {n : Nat}, n < 2 ^ 32 → (hex8 n).length ≤ 8 := by
    intro n hn
    have hlen : (Nat.toDigits 16 n).length ≤ 8 := by
      rw [Nat.length_toDigits_le_iff (by decide) (by decide)]
      omega
    rw [hex8, List.length_append, List.length_replicate]
    omega
  cases t with
  | i32 =>
    obtain ⟨n, hlow, hhigh, rfl⟩ := h
    unfold longText
    split
    · have habs := hdecimal (n := n.natAbs) (by omega)
      rw [List.length_cons]
      omega
    · have hnat := hdecimal (n := n.toNat) (by omega)
      omega
  | u32 =>
    obtain ⟨n, hn, rfl⟩ := h
    have hlen := hdecimal hn
    omega
  | str => exact h.1
  | f32 =>
    obtain ⟨n, hn, rfl⟩ := h
    have hlen := hhex hn
    have htwo : "0x".toList.length = 2 := rfl
    rw [List.length_append, htwo]
    omega
  | ptr =>
    obtain ⟨n, hn, rfl⟩ := h
    have hlen := hhex hn
    omega

/-! ### The exchange -/

section Exchange

variable {s : VarState} {name : Text} {ce : ClientEntry} {target : Text}

theorem bar_notMem_target (h : Addressed s name ce target) (hbar : '|' ∉ name) :
    '|' ∉ target := by
  cases h with
  | plain => exact hbar
  | ofClient cname _ hcname =>
    intro hmem
    rcases List.mem_append.mp hmem with hmem | hmem
    · exact hcname hmem
    · rcases List.mem_cons.mp hmem with heq | hmem
      · exact absurd heq (by decide)
      · exact hbar hmem

/-- A SETVAR reaches the client with the name alone in front of the bar. -/
theorem handleSetvar_eq (h : Addressed s name ce target) (hbar : '|' ∉ name)
    (hlen : name.length ≤ 33) (text : Text) (e : Exchange) :
    s.handleSetvar (target ++ '|' :: text) e =
      s.varSendAndWait ce.replyPort (.varSet (name ++ '|' :: text)) e := by
  have htarget := bar_notMem_target h hbar
  unfold handleSetvar
  rw [if_pos (by simp), Text.before_append htarget]
  cases h with
  | plain hdot hfound =>
    rw [Text.after?_eq_none hdot, List.take_of_length_le hlen, hfound]
  | ofClient cname hdot hcname hcut hfound =>
    rw [Text.after?_append hdot, List.append_assoc, List.cons_append, Text.before_append hdot,
      Text.after?_append hdot, List.take_of_length_le hcut]
    simp only [hfound, Option.getD_some]

theorem handleGetvar_eq (h : Addressed s name ce target) (e : Exchange) :
    s.handleGetvar target e = s.varSendAndWait ce.replyPort (.varGet name) e := by
  unfold handleGetvar
  cases h with
  | plain hdot hfound =>
    rw [Text.after?_eq_none hdot]
    simp only [hfound]
  | ofClient cname hdot hcname hcut hfound =>
    rw [Text.after?_append hdot, Text.before_append hdot, List.take_of_length_le hcut]
    simp only [hfound]

/-- Only the registry matters for how a command names a variable. -/
theorem Addressed.congr {s' : VarState} (h : Addressed s name ce target)
    (hregistry : s'.registry = s.registry) : Addressed s' name ce target := by
  cases h with
  | plain hdot hfound =>
    exact .plain hdot (by rwa [findClientWithVar, hregistry])
  | ofClient cname hdot hbar hlen hfound =>
    exact .ofClient cname hdot hbar hlen (by rwa [clientNamed, hregistry])

variable {ve : VarEntry} {t : VarType}

theorem name_of_findVar {table : VarTable} (h : findVar table name = some ve) :
    ve.name = name := by
  obtain ⟨i, hi, hve⟩ := Option.bind_eq_some_iff.mp h
  obtain ⟨found, hfound, hname⟩ := Slots.find_eq_some hi
  rw [hve] at hfound
  cases hfound
  exact of_decide_eq_true hname

/-- Setting a variable stores the value and sends the request back. -/
theorem varSendAndWait_set {port : Port} {text : Text}
    (hfind : findVar (s.tables port) name = some ve) (hbar : '|' ∉ name)
    (hlen : name.length ≤ 33) (htext : text.length ≤ 127) (address retries : Nat) :
    s.varSendAndWait port (.varSet (name ++ '|' :: text)) (.replied address retries) =
      ({ s.settle port with memory := storeValue (s.settle port).memory ve text },
        [exchangeLog address retries, readReply (name ++ '|' :: text)]) := by
  have hcut : (name ++ '|' :: text).take maxData = name ++ '|' :: text := by
    apply List.take_of_length_le
    simp only [List.length_append, List.length_cons, maxData]
    omega
  have hhandled : processDaemonMsg (s.tables port) (s.settle port).memory
      (cutData (.varSet (name ++ '|' :: text))) =
        (storeValue (s.settle port).memory ve text, ⟨0, name ++ '|' :: text⟩) := by
    rw [cutData, hcut, processDaemonMsg, Text.after?_append hbar, Text.before_append hbar,
      List.take_of_length_le hlen]
    simp only [hfind]
  simp only [varSendAndWait, hhandled, if_true]

/-- Reading a variable answers with its value. -/
theorem varSendAndWait_get {port : Port} (hfind : findVar (s.tables port) name = some ve)
    (htype : ve.type = t.code) (hbar : '|' ∉ name) (hlen : name.length ≤ 33)
    (address retries : Nat) :
    (s.varSendAndWait port (.varGet name) (.replied address retries)).2 =
      [exchangeLog address retries,
        varLine name (typeName t.code) (formatVarValue (s.settle port).memory ve)] := by
  have hcut : name.take maxData = name := by
    apply List.take_of_length_le
    simp only [maxData]
    omega
  have hcode : '|' ∉ longText t.code ∧ strtol (longText t.code) = t.code := by
    cases t <;> decide
  have hhandled : processDaemonMsg (s.tables port) (s.settle port).memory
      (cutData (.varGet name)) = ((s.settle port).memory, ⟨0, name ++ '|' :: (longText t.code ++
        '|' :: formatVarValue (s.settle port).memory ve)⟩) := by
    rw [cutData, hcut, processDaemonMsg]
    simp only [hfind, name_of_findVar hfind, htype]
  have hread : readReply (name ++ '|' :: (longText t.code ++ '|' ::
      formatVarValue (s.settle port).memory ve)) =
        varLine name (typeName t.code) (formatVarValue (s.settle port).memory ve) := by
    rw [readReply, Text.after?_append hbar, Text.before_append hbar, List.take_of_length_le hlen]
    simp only [Text.after?_append hcode.1, strtol_append_bar, hcode.2]
  simp only [varSendAndWait, hhandled, if_true, hread]

/-- The reply to setting a variable counts as an error exactly when the value has no bar. -/
theorem isErr_readReply_iff (hbar : '|' ∉ name) (text : Text) :
    IsErr (readReply (name ++ '|' :: text)) ↔ '|' ∉ text := by
  rw [readReply, Text.after?_append hbar]
  constructor
  · intro herr hmem
    obtain ⟨value, hvalue⟩ : ∃ value, Text.after? '|' text = some value := by
      cases hafter : Text.after? '|' text with
      | some value => exact ⟨value, rfl⟩
      | none =>
        obtain ⟨front, back, rfl, hfront⟩ := List.eq_append_cons_of_mem hmem
        rw [Text.after?_append hfront] at hafter
        cases hafter
    simp only [hvalue] at herr
    obtain ⟨rest, hrest⟩ := herr
    have hhead : some 'E' = some 'V' := congrArg List.head? hrest
    exact absurd hhead (by decide)
  · intro hno
    simp only [Text.after?_eq_none hno]
    exact isErr_sendErr _ _

end Exchange

/-- No variable makes the round trip: whatever its type and the value, and however the exchanges
go, no answer to the SETVAR gives the value. If the client replies, the variable has the value
afterwards, and a GETVAR gives it, exactly when the type is not `f32` or it had the value before;
the answer to the SETVAR is an error exactly when the value has no bar, and then the variable is
unchanged exactly when its type is `f32` or it had the value before. -/
theorem variable_round_trip {s : VarState} {name target text : Text} {ce : ClientEntry}
    {ve : VarEntry} {t : VarType} (haddressed : Addressed s name ce target) (hbar : '|' ∉ name)
    (hlen : name.length ≤ 33) (hfind : findVar (s.tables ce.replyPort) name = some ve)
    (htype : ve.type = t.code) (hrep : Represents t text) :
    (∀ e e', ¬ RoundTrip s ce.replyPort ve target text e e') ∧
    ∀ address retries address' retries' : Nat,
      let before := formatVarValue (s.settle ce.replyPort).memory ve
      let set := s.handleSetvar (target ++ '|' :: text) (.replied address retries)
      let get := set.1.handleGetvar target (.replied address' retries')
      (formatVarValue set.1.memory ve = text ↔ t ≠ .f32 ∨ before = text) ∧
      ((∃ line ∈ get.2, Carries line text) ↔ t ≠ .f32 ∨ before = text) ∧
      ((∃ line ∈ set.2, IsErr line) ↔ '|' ∉ text) ∧
      (((∃ line ∈ set.2, IsErr line) → formatVarValue set.1.memory ve = before) ↔
        '|' ∈ text ∨ t = .f32 ∨ before = text) := by
  refine ⟨fun e e' h => ?_, fun address retries address' retries' => ?_⟩
  · obtain ⟨line, hline, hcarries⟩ := h.answered
    have hafter := Text.after?_append (bar_notMem_target haddressed hbar) text
    exact not_carries_setvar s e hafter line hline hcarries
  · intro before set get
    have hset : set = ({ s.settle ce.replyPort with
          memory := storeValue (s.settle ce.replyPort).memory ve text },
        [exchangeLog address retries, readReply (name ++ '|' :: text)]) := by
      rw [← varSendAndWait_set hfind hbar hlen (length_represents hrep),
        ← handleSetvar_eq haddressed hbar hlen]
    have hstored : formatVarValue set.1.memory ve = text ↔ t ≠ .f32 ∨ before = text := by
      rw [hset]
      change formatVarValue (storeValue _ ve text) ve = text ↔ _
      by_cases hf : t = .f32
      · rw [storeValue_f32 _ _ (hf ▸ htype)]
        simp [hf, before]
      · exact iff_of_true (value_storeValue _ htype hrep hf) (Or.inl hf)
    have hget : get.2 = [exchangeLog address' retries',
        varLine name (typeName t.code) (formatVarValue set.1.memory ve)] := by
      have hregistry : set.1.registry = s.registry := by rw [hset]; rfl
      have hfind' : findVar (set.1.tables ce.replyPort) name = some ve := by
        rw [hset]
        exact hfind
      have hsettled : (set.1.settle ce.replyPort).memory = set.1.memory := by
        have hnone : set.1.abandoned ce.replyPort = [] := by
          rw [hset]
          exact Function.update_self ..
        rw [settle, hnone]
        rfl
      rw [← hsettled, ← varSendAndWait_get hfind' htype hbar hlen address' retries',
        ← handleGetvar_eq (haddressed.congr hregistry)]
    have herr : (∃ line ∈ set.2, IsErr line) ↔ '|' ∉ text := by
      rw [hset, ← isErr_readReply_iff hbar text]
      simp only [List.mem_cons, List.not_mem_nil, or_false, exists_eq_or_imp, exists_eq_left,
        (exchangeLog_plain address retries []).2, false_or]
    refine ⟨hstored, ?_, herr, ?_⟩
    · rw [← hstored, hget]
      constructor
      · rintro ⟨line, hline, hcarries⟩
        rcases List.mem_cons.mp hline with rfl | hline
        · exact absurd hcarries (exchangeLog_plain address' retries' text).1
        · rw [List.mem_singleton.mp hline] at hcarries
          obtain ⟨name', type', hname', htype', heq⟩ := hcarries
          exact varLine_inj hbar hname' (bar_notMem_typeName _) htype' heq
      · intro heq
        refine ⟨_, List.mem_cons_of_mem _ List.mem_cons_self, name, typeName t.code, hbar,
          bar_notMem_typeName _, ?_⟩
        rw [heq]
    · rw [herr]
      by_cases hmem : '|' ∈ text
      · exact iff_of_true (fun hno => absurd hmem hno) (Or.inl hmem)
      · simp only [hmem, not_false_eq_true, true_implies, false_or]
        by_cases hf : t = .f32
        · have hkept : formatVarValue set.1.memory ve = before := by
            rw [hset]
            change formatVarValue (storeValue _ ve text) ve = _
            rw [storeValue_f32 _ _ (hf ▸ htype)]
          exact iff_of_true hkept (Or.inl hf)
        · have hnow := hstored.mpr (Or.inl hf)
          rw [hnow]
          simp only [hf, false_or]
          exact eq_comm

/-- A program with one variable of type `i32`, which is zero. -/
def counter : VarState where
  registry := ⟨Slots.empty.put 0 ⟨1, .register "app".toList, 1, [⟨['x'], 0⟩], [], []⟩, 2⟩
  tables := fun _ => Slots.empty.put 0 ⟨['x'], 0, 0x1000⟩
  memory := fun _ => 0
  abandoned := fun _ => []

/-- Set to five, the variable has the value five and reads as five. -/
theorem variable_round_trip_five :
    formatVarValue (counter.handleSetvar "x|5".toList (.replied 8 30)).1.memory ⟨['x'], 0, 0x1000⟩ =
      ['5'] :=
  ((@variable_round_trip counter ['x'] ['x'] ['5']
    ⟨1, .register "app".toList, 1, [⟨['x'], 0⟩], [], []⟩ ⟨['x'], 0, 0x1000⟩ .i32
    (.plain (by decide) rfl) (by decide) (by decide) (by decide) rfl
    ⟨5, by decide, by decide, rfl⟩).2 8 30 8 30).1.mpr (Or.inl (by decide))

/-- The answer to it is an error. -/
theorem variable_no_round_trip :
    ¬ RoundTrip counter 1 ⟨['x'], 0, 0x1000⟩ ['x'] ['5'] (.replied 8 30) (.replied 8 30) ∧
    "ERR|VAR|bad reply format".toList ∈
      (counter.handleSetvar "x|5".toList (.replied 8 30)).2 ∧
    formatVarValue (counter.handleSetvar "x|5".toList (.replied 8 30)).1.memory
      ⟨['x'], 0, 0x1000⟩ = ['5'] := by
  refine ⟨fun h => ?_, by decide, by decide⟩
  obtain ⟨line, hline, hcarries⟩ := h.answered
  exact not_carries_setvar counter (.replied 8 30) (Text.after?_append (by decide) ['5']) line
    hline hcarries

end AmigaDevbench.Variables
