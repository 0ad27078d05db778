import AmigaDevbench.Daemon.Memory

/-!
# The payloads of WRITEFILE, APPEND and WRITEMEM

The three handlers decode as many pairs of characters as their buffers hold, whatever the
characters are, and answer OK when these bytes are written. So an OK says that the text was
exactly what was written only for an even number of digits that fit into the buffer.
-/

namespace AmigaDevbench.Daemon

open CNumber

/-- The bytes that a well-formed text encodes: two digits for each. -/
def encoded? : Text → Option Bytes
  | [] => some []
  | [_] => none
  | hi :: lo :: s =>
    match digit? 16 hi, digit? 16 lo with
    | some h, some l => (encoded? s).map (UInt8.ofNat (16 * h + l) :: ·)
    | _, _ => none

/-- What a handler has in its buffer of `cap` bytes. -/
def payload (cap : Nat) (hex : Text) : Bytes := ((hexBytes hex).take cap).map UInt8.ofNat

section Digits

/-- A digit is no blank, no sign and no part of a base prefix. -/
theorem digit?_eq_some {c : Char} {d : Nat} (h : digit? 16 c = some d) :
    isSpace c = false ∧ c ≠ '-' ∧ c ≠ '+' ∧ c ≠ 'x' ∧ c ≠ 'X' ∧ d < 16 := by
  have hlt : d < 16 := by
    have hvalue : ∀ v : Nat, (if v < 16 then some v else none) = some d → d < 16 := by
      intro v hv
      split at hv
      · next hlow =>
        cases hv
        exact hlow
      · cases hv
    exact hvalue _ h
  refine ⟨?_, ?_, ?_, ?_, ?_, hlt⟩
  · cases hspace : isSpace c with
    | false => rfl
    | true =>
      have hmem : c.toNat ∈ [0x09, 0x0a, 0x0b, 0x0c, 0x0d, 0x20] := of_decide_eq_true hspace
      have hblank : ∀ n ∈ [0x09, 0x0a, 0x0b, 0x0c, 0x0d, 0x20],
          digit? 16 (Char.ofNat n) = none := by
        decide
      have hnone := hblank _ hmem
      rw [Char.ofNat_toNat, h] at hnone
      cases hnone
  all_goals
    rintro rfl
    exact absurd h (by decide +revert)

/-- Two digits are read as they are written. -/
theorem strtoul_pair {hi lo : Char} {h l : Nat} (hh : digit? 16 hi = some h)
    (hl : digit? 16 lo = some l) : strtoul 16 [hi, lo] = 16 * h + l := by
  obtain ⟨hspace, hminus, hplus, _, _, hlt⟩ := digit?_eq_some hh
  obtain ⟨_, _, _, hx, hX, hlt'⟩ := digit?_eq_some hl
  have hsign : splitSign [hi, lo] = (false, [hi, lo]) := by
    rw [splitSign.eq_def]
    split
    · next heq => exact absurd (List.cons.inj heq).1 hminus
    · next heq => exact absurd (List.cons.inj heq).1 hplus
    · rfl
  have hbase : dropBasePrefix 16 [hi, lo] = [hi, lo] := by
    rw [dropBasePrefix.eq_def]
    split
    · next heq => exact absurd (List.cons.inj (List.cons.inj heq).2).1 hx
    · next heq => exact absurd (List.cons.inj (List.cons.inj heq).2).1 hX
    · rfl
  have hscan : scan 16 [hi, lo] = (false, [hi, lo]) := by
    rw [scan, List.dropWhile_cons_of_neg (by simp [hspace]), hsign]
    simp only [hbase]
  have hmagnitude : magnitude 16 [hi, lo] = 16 * h + l := by
    rw [magnitude, List.takeWhile_cons_of_pos (by rw [isDigit, hh]; rfl),
      List.takeWhile_cons_of_pos (by rw [isDigit, hl]; rfl)]
    simp only [List.takeWhile_nil, List.foldl_cons, List.foldl_nil, hh, hl, Option.getD_some]
    omega
  rw [strtoul, hscan]
  simp only [hmagnitude, Bool.false_eq_true, if_false]
  exact if_neg (by omega)

theorem length_hexBytes (s : Text) : (hexBytes s).length = s.length / 2 := by
  fun_induction hexBytes s with
  | case1 hi lo s ih =>
    rw [List.length_cons, ih, List.length_cons, List.length_cons]
    omega
  | case2 s hs =>
    match s with
    | [] => rfl
    | [_] => simp
    | hi :: lo :: s => exact absurd rfl (hs hi lo s)

theorem length_payload (cap : Nat) (hex : Text) :
    (payload cap hex).length = min cap (hex.length / 2) := by
  rw [payload, List.length_map, List.length_take, length_hexBytes]

/-- The digits of a well-formed text are decoded to its bytes. -/
theorem hexBytes_of_encoded {hex : Text} {bs : Bytes} (h : encoded? hex = some bs) :
    hexBytes hex = bs.map UInt8.toNat ∧ hex.length = 2 * bs.length := by
  fun_induction encoded? hex generalizing bs with
  | case1 =>
    cases h
    exact ⟨rfl, rfl⟩
  | case2 => cases h
  | case3 hi lo s x y hlo hhi ih =>
    obtain ⟨rest, hrest, rfl⟩ := Option.map_eq_some_iff.mp h
    obtain ⟨hbytes, hlen⟩ := ih hrest
    have hx := (digit?_eq_some hhi).2.2.2.2.2
    have hy := (digit?_eq_some hlo).2.2.2.2.2
    have hvalue : (UInt8.ofNat (16 * x + y)).toNat = 16 * x + y := by
      rw [UInt8.toNat_ofNat']
      omega
    refine ⟨?_, ?_⟩
    · rw [hexBytes, strtoul_pair hhi hlo, hbytes, List.map_cons, hvalue,
        Nat.mod_eq_of_lt (by omega)]
    · simp only [List.length_cons, hlen]
      omega
  | case4 => cases h

/-- Within the buffer the payload is what the text encodes. -/
theorem payload_of_encoded {cap : Nat} {hex : Text} {bs : Bytes} (h : encoded? hex = some bs)
    (hcap : hex.length ≤ 2 * cap) : payload cap hex = bs := by
  obtain ⟨hbytes, hlen⟩ := hexBytes_of_encoded h
  have hround : (UInt8.ofNat ∘ UInt8.toNat) = id := by
    funext b
    exact UInt8.ofNat_toNat
  rw [payload, hbytes, List.take_of_length_le (by rw [List.length_map]; omega), List.map_map,
    hround, List.map_id]

end Digits

/-! ### The files -/

/-- A file and what the file system does with it: whether it lets the file be opened, and how many
bytes of a `Write` it stores. -/
structure Volume where
  file : Option Bytes
  opens : Bool
  stored : Nat

/-- `fs_write_file` opens the file: a new one at offset zero, else one that reaches the offset. -/
def Volume.openFor (v : Volume) (offset : Nat) : Option Bytes :=
  if !v.opens then none
  else if offset = 0 then some []
  else v.file.filter fun file => offset ≤ file.length

/-- `fs_write_file`: the file afterwards, and whether it was written. -/
def Volume.write (v : Volume) (offset : Nat) (data : Bytes) : Option Bytes × Bool :=
  match v.openFor offset with
  | none => (v.file, false)
  | some file =>
    (some (file.take offset ++ data.take v.stored ++
      file.drop (offset + (data.take v.stored).length)), data.length ≤ v.stored)

/-- `fs_append`. -/
def Volume.append (v : Volume) (data : Bytes) : Option Bytes × Bool :=
  match v.file with
  | none => (none, false)
  | some file =>
    if !v.opens then (some file, false)
    else (some (file ++ data.take v.stored), data.length ≤ v.stored)

/-- On a disk with room a file that can be opened is written as `fsWriteFile` writes it. -/
theorem write_eq_fsWriteFile {v : Volume} (hopens : v.opens = true) {offset : Nat} {data : Bytes}
    (hroom : data.length ≤ v.stored) :
    v.write offset data = match fsWriteFile v.file offset data with
      | some file => (some file, true)
      | none => (v.file, false) := by
  simp only [Volume.write, Volume.openFor, hopens, fsWriteFile, List.take_of_length_le hroom]
  by_cases hzero : offset = 0
  · subst hzero
    simp [hroom]
  · cases v.file with
    | none => simp [hzero]
    | some file =>
      by_cases hlt : file.length < offset
      · simp [hzero, hlt, Nat.not_le.mpr hlt, Option.filter]
      · simp [hzero, hlt, Nat.not_lt.mp hlt, hroom, Option.filter]

/-- `handle_writefile` behind the reading of its fields. -/
def handleWritefileOn (v : Volume) (path : Text) (offset : Nat) (hex : Text) :
    Option Bytes × Text :=
  let (file, written) := v.write offset (payload 4096 hex)
  (file, if written then "OK|WRITEFILE|".toList ++ decimal (payload 4096 hex).length
    else "ERR|WRITEFILE failed|".toList ++ path)

/-- `handle_append` behind the reading of its fields. -/
def handleAppend (v : Volume) (hex : Text) : Option Bytes × Text :=
  let (file, written) := v.append (payload 4096 hex)
  (file, if written then "OK|APPEND|".toList ++ decimal (payload 4096 hex).length
    else "ERR|APPEND|failed".toList)

/-- `handle_writemem` behind the reading of its fields. -/
def handleWritememHex (memory : Memory) (address : Nat) (hex : Text) : Memory × Text :=
  handleWritemem memory address (payload 256 hex)

/-- Where the file can be opened and written, this is the handler of a disk with room. -/
theorem handleWritefileOn_eq {v : Volume} (hopens : v.opens = true) (path : Text) (offset : Nat)
    {hex : Text} (hroom : (payload 4096 hex).length ≤ v.stored) :
    handleWritefileOn v path offset hex = handleWritefile path offset hex v.file := by
  rw [handleWritefileOn, handleWritefile, write_eq_fsWriteFile hopens hroom, payload]
  cases fsWriteFile v.file offset (((hexBytes hex).take 4096).map UInt8.ofNat) with
  | none => rfl
  | some file => rfl

/-! ### What an answer says -/

section Answers

variable {σ : Type*} {err hex : Text} {cap : Nat}

/-- The answer is an OK with the number of bytes that the text encodes, and these have been
written, or it is an error, and nothing has changed. -/
def ExactAnswer (ok hex : Text) (before : σ) (write : Bytes → σ) (after : σ × Text) : Prop :=
  (∃ bs, encoded? hex = some bs ∧ after = (write bs, ok ++ decimal bs.length)) ∨
    ("ERR|".toList <+: after.2 ∧ after.1 = before)

/-- An even number of digits that fit into the buffer. -/
def Fits (cap : Nat) (hex : Text) : Prop := encoded? hex ≠ none ∧ hex.length ≤ 2 * cap

theorem decimal_inj {m n : Nat} (h : decimal m = decimal n) : m = n := by
  rw [← magnitude_toDigits m, ← magnitude_toDigits n]
  exact congrArg (magnitude 10) h

/-- The OK for the bytes in the buffer is exact if they are all that the text encodes. -/
theorem exactAnswer_ok_iff (ok : Text) (before : σ) (write : Bytes → σ)
    (hok : ok.head? = some 'O') : ExactAnswer ok hex before write
        (write (payload cap hex), ok ++ decimal (payload cap hex).length) ↔ Fits cap hex := by
  constructor
  · rintro (⟨bs, hbs, heq⟩ | ⟨herr, _⟩)
    · have hcount := decimal_inj (List.append_cancel_left (Prod.mk.inj heq).2)
      have hlen := (hexBytes_of_encoded hbs).2
      rw [length_payload, hlen] at hcount
      refine ⟨?_, by omega⟩
      rw [hbs]
      exact Option.some_ne_none bs
    · obtain ⟨t, ht⟩ := herr
      have hhead : some 'E' = ok.head?.or (decimal (payload cap hex).length).head? := by
        rw [← List.head?_append]
        exact congrArg List.head? ht
      rw [hok] at hhead
      cases hhead
  · rintro ⟨hencoded, hcap⟩
    obtain ⟨bs, hbs⟩ := Option.ne_none_iff_exists'.mp hencoded
    exact .inl ⟨bs, hbs, by rw [payload_of_encoded hbs hcap]⟩

/-- An error is exact if nothing has changed. -/
theorem exactAnswer_err_iff (ok : Text) {before after : σ} (write : Bytes → σ)
    (hok : ok.head? = some 'O') (herr : "ERR|".toList <+: err) :
    ExactAnswer ok hex before write (after, err) ↔ after = before := by
  constructor
  · rintro (⟨bs, _, heq⟩ | ⟨_, hafter⟩)
    · obtain ⟨t, ht⟩ := herr
      have hhead : some 'E' = ok.head?.or (decimal bs.length).head? := by
        rw [← List.head?_append, ← (Prod.mk.inj heq).2, ← ht]
        rfl
      rw [hok] at hhead
      cases hhead
    · exact hafter
  · exact fun hafter => .inr ⟨herr, hafter⟩

end Answers

/-- The answer to a WRITEFILE is exact. -/
def WritefileExact (v : Volume) (path : Text) (offset : Nat) (hex : Text) : Prop :=
  ExactAnswer "OK|WRITEFILE|".toList hex v.file
    (fun bs => (v.openFor offset).map fun file =>
      file.take offset ++ bs ++ file.drop (offset + bs.length))
    (handleWritefileOn v path offset hex)

/-- The answer to an APPEND is exact. -/
def AppendExact (v : Volume) (hex : Text) : Prop :=
  ExactAnswer "OK|APPEND|".toList hex v.file (fun bs => v.file.map (· ++ bs)) (handleAppend v hex)

/-- The answer to a WRITEMEM is exact. -/
def WritememExact (memory : Memory) (address : Nat) (hex : Text) : Prop :=
  ExactAnswer ("OK|WRITEMEM|".toList ++ hex8 address ++ ['|']) hex memory
    (writeBytes memory address) (handleWritememHex memory address hex)

/-- A WRITEFILE is exact where the file cannot be opened, where the text is an even number of
digits that fit and all of them are stored, and where what is stored of them was there already. -/
theorem writefileExact_iff (v : Volume) (path : Text) (offset : Nat) (hex : Text) :
    WritefileExact v path offset hex ↔ ∀ file, v.openFor offset = some file →
      if min 4096 (hex.length / 2) ≤ v.stored then Fits 4096 hex
      else v.file = some (file.take offset ++ (payload 4096 hex).take v.stored ++
        file.drop (offset + v.stored)) := by
  rw [WritefileExact, handleWritefileOn, Volume.write, ← length_payload]
  cases hopen : v.openFor offset with
  | none =>
    refine iff_of_true ?_ fun file h => by cases h
    exact (exactAnswer_err_iff _ _ rfl ⟨_, rfl⟩).mpr rfl
  | some file =>
    simp only [Option.some.injEq, forall_eq', Option.map_some]
    by_cases hroom : (payload 4096 hex).length ≤ v.stored
    · simp only [decide_eq_true hroom, if_true, if_pos hroom, List.take_of_length_le hroom]
      exact exactAnswer_ok_iff _ _ (fun bs =>
        some (file.take offset ++ bs ++ file.drop (offset + bs.length))) rfl
    · have hlen : ((payload 4096 hex).take v.stored).length = v.stored :=
        List.length_take_of_le (by omega)
      simp only [decide_eq_false hroom, Bool.false_eq_true, if_false, if_neg hroom, hlen]
      exact (exactAnswer_err_iff _ _ rfl ⟨_, rfl⟩).trans eq_comm

/-- An APPEND is exact where there is no file to open, where the text is an even number of digits
that fit and all of them are stored, and where nothing is. -/
theorem appendExact_iff (v : Volume) (hex : Text) :
    AppendExact v hex ↔ (v.opens = true → v.file ≠ none →
      if min 4096 (hex.length / 2) ≤ v.stored then Fits 4096 hex else v.stored = 0) := by
  rw [AppendExact, handleAppend, Volume.append, ← length_payload]
  cases v.file with
  | none =>
    refine iff_of_true ?_ fun _ h => absurd rfl h
    exact (exactAnswer_err_iff _ _ rfl ⟨_, rfl⟩).mpr rfl
  | some file =>
    cases v.opens with
    | false =>
      refine iff_of_true ?_ fun h => by cases h
      exact (exactAnswer_err_iff _ _ rfl ⟨_, rfl⟩).mpr rfl
    | true =>
      simp only [true_implies, ne_eq, reduceCtorEq, not_false_eq_true, Bool.not_true,
        Bool.false_eq_true, if_false]
      by_cases hroom : (payload 4096 hex).length ≤ v.stored
      · simp only [decide_eq_true hroom, if_true, if_pos hroom, List.take_of_length_le hroom]
        exact exactAnswer_ok_iff _ _ (fun bs => (some file).map (· ++ bs)) rfl
      · simp only [decide_eq_false hroom, Bool.false_eq_true, if_false, if_neg hroom]
        refine (exactAnswer_err_iff _ _ rfl ⟨_, rfl⟩).trans ?_
        rw [Option.some.injEq, List.append_right_eq_self, List.take_eq_nil_iff]
        refine or_iff_left fun hnil => ?_
        rw [hnil] at hroom
        exact hroom (Nat.zero_le _)

/-- A WRITEMEM is exact where it is refused and where the text is an even number of digits that
fit. -/
theorem writememExact_iff (memory : Memory) (address : Nat) (hex : Text) :
    WritememExact memory address hex ↔ (writeRefused address = none → Fits 256 hex) := by
  rw [WritememExact, handleWritememHex, handleWritemem]
  cases writeRefused address with
  | some detail =>
    refine iff_of_true ?_ fun h => by cases h
    exact (exactAnswer_err_iff _ _ rfl ⟨_, rfl⟩).mpr rfl
  | none =>
    simp only [true_implies]
    rw [← exactAnswer_ok_iff ("OK|WRITEMEM|".toList ++ hex8 address ++ ['|']) memory
      (writeBytes memory address) rfl]
    simp only [List.append_assoc, List.singleton_append]

/-- Each of the three answers is exact under its condition and under no other. -/
theorem hexPayload_exact_iff (v : Volume) (memory : Memory) (path : Text) (offset address : Nat)
    (hex : Text) :
    (WritefileExact v path offset hex ↔ ∀ file, v.openFor offset = some file →
      if min 4096 (hex.length / 2) ≤ v.stored then Fits 4096 hex
      else v.file = some (file.take offset ++ (payload 4096 hex).take v.stored ++
        file.drop (offset + v.stored))) ∧
    (AppendExact v hex ↔ (v.opens = true → v.file ≠ none →
      if min 4096 (hex.length / 2) ≤ v.stored then Fits 4096 hex else v.stored = 0)) ∧
    (WritememExact memory address hex ↔ (writeRefused address = none → Fits 256 hex)) :=
  ⟨writefileExact_iff v path offset hex, appendExact_iff v hex,
    writememExact_iff memory address hex⟩

/-- An odd digit is dropped and answered with OK. -/
theorem writefile_not_exact : ¬ WritefileExact ⟨none, true, 0⟩ "RAM:t".toList 0 "4".toList := by
  rintro (⟨bs, hbs, _⟩ | ⟨herr, _⟩)
  · cases hbs
  · exact absurd herr (by decide)

end AmigaDevbench.Daemon
