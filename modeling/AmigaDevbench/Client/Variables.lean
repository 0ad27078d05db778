import AmigaDevbench.Client.Log
import AmigaDevbench.Daemon.Clients
import AmigaDevbench.Daemon.Memory

/-!
# Variables of a client

A client lists its variables in a table of names, types and pointers. The daemon asks for a value,
which the client formats by the variable's type, or sends one, which the client converts by the
type and stores. Both answers go back in the data field of the request.
-/

namespace AmigaDevbench.Client

open CText CNumber Daemon

/-- The declared types, `AB_TYPE_I32` and so on. -/
inductive VarType where
  | i32
  | u32
  | str
  | f32
  | ptr
  deriving DecidableEq, Repr

/-- The number of a type. -/
def VarType.code : VarType → Int
  | i32 => 0
  | u32 => 1
  | str => 2
  | f32 => 3
  | ptr => 4

/-- `struct VarEntry` of an active entry. -/
structure VarEntry where
  name : Text
  type : Int
  ptr : Nat
  deriving DecidableEq, Repr

/-- `var_table`. -/
abbrev VarTable := Slots maxVars VarEntry

/-- `find_var`. -/
def findVar (table : VarTable) (name : Text) : Option VarEntry :=
  (table.find (·.name = name)).bind table

/-! ### Values in memory -/

/-- The bytes of a longword. -/
def longBytes (n : Nat) : Bytes :=
  [UInt8.ofNat (n / 2 ^ 24), UInt8.ofNat (n / 2 ^ 16), UInt8.ofNat (n / 2 ^ 8), UInt8.ofNat n]

/-- `*(ULONG *)ptr`. -/
def readLong (memory : Memory) (ptr : Nat) : Nat :=
  (readBytes memory ptr 4).foldl (fun n b => n * 256 + b.toNat) 0

/-- `*(ULONG *)ptr = n`. -/
def storeLong (memory : Memory) (ptr : Nat) (n : Int) : Memory :=
  writeBytes memory ptr (longBytes (n % 2 ^ 32).toNat)

/-- The string at `ptr`, of which `format_var_value` copies at most 127 characters. -/
def readText (memory : Memory) (ptr : Nat) : Text :=
  Bytes.latin1 ((readBytes memory ptr 127).takeWhile (· ≠ 0))

/-- What `strncpy(ptr, val, 127)` and the terminator behind it write. -/
def textBytes (val : Text) : Bytes :=
  let bytes : Bytes := (fit 127 val).map fun c => UInt8.ofNat c.toNat
  bytes ++ List.replicate (128 - bytes.length) 0

/-- `"%ld"`. -/
def longText (n : Int) : Text := if n < 0 then '-' :: decimal n.natAbs else decimal n.toNat

/-- `format_var_value`. -/
def formatVarValue (memory : Memory) (ve : VarEntry) : Text :=
  if ve.type = 0 then longText (toSigned 32 (readLong memory ve.ptr))
  else if ve.type = 1 then decimal (readLong memory ve.ptr)
  else if ve.type = 2 then readText memory ve.ptr
  else if ve.type = 3 then "0x".toList ++ hex8 (readLong memory ve.ptr)
  else if ve.type = 4 then hex8 (readLong memory ve.ptr)
  else ['?']

/-- The conversion of an ABMSG_VAR_SET: a type without a branch is left alone. -/
def storeValue (memory : Memory) (ve : VarEntry) (val : Text) : Memory :=
  if ve.type = 0 then storeLong memory ve.ptr (strtol val)
  else if ve.type = 1 then storeLong memory ve.ptr (strtoul 10 val)
  else if ve.type = 2 then writeBytes memory ve.ptr (textBytes val)
  else if ve.type = 4 then storeLong memory ve.ptr (strtoul 16 val)
  else memory

/-! ### Requests -/

/-- A request of the daemon about a variable, with its data field. -/
inductive Request where
  | varGet (data : Text)
  | varSet (data : Text)
  deriving DecidableEq, Repr

/-- The result and the data field of a request when it is replied. -/
structure Reply where
  result : Int
  data : Text
  deriving DecidableEq, Repr

/-- `process_daemon_msg` for these requests. -/
def processDaemonMsg (table : VarTable) (memory : Memory) : Request → Memory × Reply
  | .varGet data =>
    match findVar table data with
    | some ve =>
      (memory, ⟨0, ve.name ++ '|' :: (longText ve.type ++ '|' :: formatVarValue memory ve)⟩)
    | none => (memory, ⟨-1, data⟩)
  | .varSet data =>
    match data.after? '|' with
    | some val =>
      match findVar table ((data.before '|').take 33) with
      | some ve => (storeValue memory ve val, ⟨0, data⟩)
      | none => (memory, ⟨-1, data⟩)
    | none => (memory, ⟨-1, data⟩)

/-! ### Reading back -/

/-- The texts that stand for a value of a type: what the type's format writes. -/
def Represents : VarType → Text → Prop
  | .i32, text => ∃ n : Int, -2 ^ 31 ≤ n ∧ n < 2 ^ 31 ∧ text = longText n
  | .u32, text => ∃ n < 2 ^ 32, text = decimal n
  | .str, text => text.length ≤ 127 ∧ ∀ c ∈ text, c ≠ nul ∧ c.toNat < 256
  | .f32, text => ∃ n < 2 ^ 32, text = "0x".toList ++ hex8 n
  | .ptr, text => ∃ n < 2 ^ 32, text = hex8 n

theorem readLong_storeLong (memory : Memory) (ptr : Nat) {n : Nat} (h : n < 2 ^ 32) :
    readLong (storeLong memory ptr n) ptr = n := by
  have hmod : ((n : Int) % 2 ^ 32).toNat = n := by omega
  have hfit : (longBytes n).length ≤ 2 ^ 32 := by simp [longBytes]
  have hread := readBytes_writeBytes memory ptr hfit
  have hlen : (longBytes n).length = 4 := rfl
  rw [hlen] at hread
  rw [readLong, storeLong, hmod, hread, longBytes]
  simp only [List.foldl_cons, List.foldl_nil, UInt8.toNat_ofNat']
  omega

theorem readLong_storeLong_int (memory : Memory) (ptr : Nat) {n : Int} (hlow : -2 ^ 31 ≤ n)
    (hhigh : n < 2 ^ 31) : toSigned 32 (readLong (storeLong memory ptr n) ptr) = n := by
  have hstore : storeLong memory ptr n = storeLong memory ptr (n % 2 ^ 32).toNat := by
    have hmod : (((n % 2 ^ 32).toNat : Int) % 2 ^ 32).toNat = (n % 2 ^ 32).toNat := by omega
    rw [storeLong, storeLong, hmod]
  have hlt : (n % 2 ^ 32).toNat < 2 ^ 32 := by omega
  rw [hstore, readLong_storeLong memory ptr hlt, toSigned]
  omega

theorem length_textBytes (val : Text) : (textBytes val).length = 128 := by
  have hfit := length_fit_le 127 val
  simp only [textBytes, List.length_append, List.length_map, List.length_replicate]
  omega

/-- A string that fits is read back. -/
theorem readText_textBytes (memory : Memory) (ptr : Nat) {val : Text} (hlen : val.length ≤ 127)
    (hchars : ∀ c ∈ val, c ≠ nul ∧ c.toNat < 256) :
    readText (writeBytes memory ptr (textBytes val)) ptr = val := by
  have hnul : nul ∉ val := fun hmem => (hchars nul hmem).1 rfl
  have hfit : fit 127 val = val := fit_eq_self hnul hlen
  have hroom : (textBytes val).length ≤ 2 ^ 32 := by rw [length_textBytes]; omega
  have hread := readBytes_writeBytes memory ptr hroom
  rw [length_textBytes] at hread
  have hbytes : ∀ c ∈ val, UInt8.ofNat c.toNat ≠ 0 ∧ Char.ofNat (UInt8.ofNat c.toNat).toNat = c := by
    intro c hc
    obtain ⟨hne, hlt⟩ := hchars c hc
    have hto : (UInt8.ofNat c.toNat).toNat = c.toNat := by
      rw [UInt8.toNat_ofNat']
      exact Nat.mod_eq_of_lt hlt
    refine ⟨fun hzero => hne ?_, by rw [hto, Char.ofNat_toNat]⟩
    rw [hzero] at hto
    rw [← Char.ofNat_toNat c, ← hto]
    rfl
  have hwritten : (textBytes val).take 127 = val.map (fun c => UInt8.ofNat c.toNat) ++
      List.replicate (127 - val.length) 0 := by
    rw [textBytes, hfit]
    simp only [List.take_append, List.take_replicate, List.length_map]
    rw [List.take_of_length_le (by simpa using hlen)]
    congr 2
    omega
  have hfront : ((textBytes val).take 127).takeWhile (· ≠ 0) =
      val.map fun c => UInt8.ofNat c.toNat := by
    rw [hwritten, List.takeWhile_append_of_pos]
    · cases hrest : 127 - val.length with
      | zero => rw [List.replicate_zero, List.takeWhile_nil, List.append_nil]
      | succ n => simp [List.replicate_succ]
    · intro b hb
      obtain ⟨c, hc, rfl⟩ := List.mem_map.mp hb
      simpa using (hbytes c hc).1
  rw [readText, ← take_readBytes _ _ (show 127 ≤ 128 by decide), hread, hfront, Bytes.latin1,
    List.map_map]
  exact (List.map_congr_left fun c hc => (hbytes c hc).2).trans (List.map_id val)

end AmigaDevbench.Client
