import AmigaDevbench.Core.BitFields
import AmigaDevbench.Host.Disasm.Instructions
import AmigaDevbench.Host.Winuae.MemorySearch

/-!
# Return addresses on the stack

The `stack` action reads the longwords from `A7` on and tags a value as a return address by the six
bytes in front of it. These end in the bytes of a call exactly if `call_before` says so.
-/

namespace AmigaDevbench.Winuae

open Raises HunkLoad MemorySearch M68000

namespace CallSites

/-- `call_before`. -/
def callBefore (before : Bytes) : Bool :=
  let word (i : Nat) := Bytes.fromBigEndian ((before.drop i).take 2)
  let last := word 4
  let middle := word 2
  let first := word 0
  let short := (last &&& 0xFF00 == 0x6100 && !(last &&& 0xFF == 0 || last &&& 0xFF == 0xFF)) ||
    (0x4E90 ≤ last && last ≤ 0x4E97)
  let wordSized := middle == 0x6100 || (0x4EA8 ≤ middle && middle ≤ 0x4EB8) ||
    (middle == 0x4EBA || middle == 0x4EBB)
  short || wordSized || (first == 0x61FF || first == 0x4EB9)

/-! ### Calls -/

/-- The instructions of the 68000 that push a return address and go on elsewhere. -/
def Calls : Instruction → Prop
  | .jsr _ => True
  | .branchShort cc _ _ | .branchWord cc _ => cc = 1
  | _ => False

/-- The bytes of a call. Later processors have `BSR.L` as well. -/
inductive IsCall : Bytes → Prop where
  | instruction (i : Instruction) (h : Calls i) : IsCall i.bytes
  | branchLong (hi lo : Word) : IsCall (wordBytes [0x61FF, hi, lo])

/-- An operation word that is a call alone. -/
def Short (w : Word) : Prop :=
  w.toNat / 256 = 0x61 ∧ w.toNat % 256 ≠ 0 ∧ w.toNat % 256 ≠ 255 ∨
    0x4E90 ≤ w.toNat ∧ w.toNat ≤ 0x4E97

/-- An operation word that is a call with one word behind it. -/
def WordSized (w : Word) : Prop :=
  w.toNat = 0x6100 ∨ 0x4EA8 ≤ w.toNat ∧ w.toNat ≤ 0x4EB8 ∨ w.toNat = 0x4EBA ∨ w.toNat = 0x4EBB

/-- An operation word that is a call with two words behind it. -/
def LongSized (w : Word) : Prop := w.toNat = 0x61FF ∨ w.toNat = 0x4EB9

theorem bytes_eq {i : Instruction} {w : Word} (h : i.opword = w.toNat) :
    i.bytes = wordBytes (w :: i.extension) := by
  rw [Instruction.bytes, h]
  rfl

theorem isCall_of_opword {i : Instruction} {w : Word} (hcalls : Calls i)
    (h : i.opword = w.toNat) : IsCall (wordBytes (w :: i.extension)) :=
  bytes_eq h ▸ .instruction i hcalls

/-- The words of a `JSR`, from the parts of its address field. -/
theorem isCall_jsr {w : Word} (ea : Ea) (mode reg : Nat) (hfits : ea.fits .long = true)
    (hallowed : ea.control = true) (hmode : ea.mode = mode) (hreg : ea.reg = reg)
    (h : 0x4E80 + (8 * mode + reg) = w.toNat) : IsCall (wordBytes (w :: ea.extension)) := by
  refine isCall_of_opword (i := .jsr ⟨ea, hfits, hallowed⟩) trivial ?_
  rw [Instruction.opword, Ea.field, hmode, hreg]
  exact h

/-- A number in a range of eight is a register's. -/
theorem exists_reg {n k : Nat} (hlow : k ≤ n) (hhigh : n < k + 8) : ∃ r : Reg, n = k + r.val :=
  ⟨⟨n - k, by omega⟩, (Nat.add_sub_of_le hlow).symm⟩

theorem isCall_short {w : Word} (h : Short w) : IsCall (wordBytes [w]) := by
  rcases h with ⟨hbranch, hzero, hlong⟩ | ⟨hlow, hhigh⟩
  · refine isCall_of_opword (i := .branchShort 1 ⟨w.toNat % 256, by omega⟩ ⟨hzero, hlong⟩) rfl ?_
    simp only [Instruction.opword, Fin.val_one]
    omega
  · obtain ⟨r, hr⟩ := exists_reg hlow (by omega)
    exact isCall_jsr (.indirect r) 2 r rfl rfl rfl rfl (by omega)

theorem isCall_wordSized {w : Word} (h : WordSized w) (d : Word) : IsCall (wordBytes [w, d]) := by
  rcases h with hbranch | ⟨hlow, hhigh⟩ | hpc | hpc
  · refine isCall_of_opword (i := .branchWord 1 d) rfl ?_
    simp only [Instruction.opword, Fin.val_one]
    omega
  · rcases Nat.lt_or_ge w.toNat 0x4EB0 with hdisp | hge
    · obtain ⟨r, hr⟩ := exists_reg hlow (by omega)
      exact isCall_jsr (.displacement r d) 5 r rfl rfl rfl rfl (by omega)
    · rcases Nat.lt_or_ge w.toNat 0x4EB8 with hindex | habs
      · obtain ⟨r, hr⟩ := exists_reg hge (by omega)
        exact isCall_jsr (.index r d) 6 r rfl rfl rfl rfl (by omega)
      · exact isCall_jsr (.absShort d) 7 0 rfl rfl rfl rfl (by omega)
  · exact isCall_jsr (.pcDisplacement d) 7 2 rfl rfl rfl rfl (by omega)
  · exact isCall_jsr (.pcIndex d) 7 3 rfl rfl rfl rfl (by omega)

theorem isCall_longSized {w : Word} (h : LongSized w) (hi lo : Word) :
    IsCall (wordBytes [w, hi, lo]) := by
  rcases h with hbranch | habs
  · have heq : w = 0x61FF := BitVec.eq_of_toNat_eq hbranch
    rw [heq]
    exact .branchLong hi lo
  · exact isCall_jsr (.absLong hi lo) 7 1 rfl rfl rfl rfl (by omega)

/-- An operation word that fits is a word. -/
theorem exists_word {i : Instruction} (h : i.opword < 65536) :
    ∃ w : Word, w.toNat = i.opword ∧ i.bytes = wordBytes (w :: i.extension) := by
  have hnat : (BitVec.ofNat 16 i.opword).toNat = i.opword := by
    rw [BitVec.toNat_ofNat]
    exact Nat.mod_eq_of_lt h
  exact ⟨_, hnat, bytes_eq hnat.symm⟩

/-- The words of a `JSR`, by its addressing mode. -/
theorem words_jsr (target : Operand .long Ea.control) :
    ∃ w : Word, w.toNat = 0x4E80 + target.ea.field ∧
      (Instruction.jsr target).bytes = wordBytes (w :: target.ea.extension) := by
  have hfield : target.ea.field < 64 := by
    cases target.ea <;> simp only [Ea.field, Ea.mode, Ea.reg] <;> omega
  have hop : (Instruction.jsr target).opword = 0x4E80 + target.ea.field := by
    rw [Instruction.opword]
  obtain ⟨w, hw, hbytes⟩ := exists_word (i := .jsr target) (by omega)
  exact ⟨w, hw.trans hop, hbytes⟩

/-- The number of words of a call follows from its operation word. -/
theorem isCall_iff (bs : Bytes) :
    IsCall bs ↔ (∃ w, Short w ∧ bs = wordBytes [w]) ∨
      (∃ w d, WordSized w ∧ bs = wordBytes [w, d]) ∨
      ∃ w hi lo, LongSized w ∧ bs = wordBytes [w, hi, lo] := by
  constructor
  · rintro (⟨i, hcalls⟩ | ⟨hi, lo⟩)
    · cases i with
      | jsr target =>
        obtain ⟨w, hw, hbytes⟩ := words_jsr target
        obtain ⟨ea, hfits, hallowed⟩ := target
        rw [hbytes]
        cases ea with
        | indirect r =>
          simp only [Ea.field, Ea.mode, Ea.reg] at hw
          exact .inl ⟨w, .inr (by omega), rfl⟩
        | displacement r d =>
          simp only [Ea.field, Ea.mode, Ea.reg] at hw
          exact .inr (.inl ⟨w, d, .inr (.inl (by omega)), rfl⟩)
        | index r x =>
          simp only [Ea.field, Ea.mode, Ea.reg] at hw
          exact .inr (.inl ⟨w, x, .inr (.inl (by omega)), rfl⟩)
        | absShort a =>
          simp only [Ea.field, Ea.mode, Ea.reg] at hw
          exact .inr (.inl ⟨w, a, .inr (.inl (by omega)), rfl⟩)
        | absLong hi lo =>
          simp only [Ea.field, Ea.mode, Ea.reg] at hw
          exact .inr (.inr ⟨w, hi, lo, .inr hw, rfl⟩)
        | pcDisplacement d =>
          simp only [Ea.field, Ea.mode, Ea.reg] at hw
          exact .inr (.inl ⟨w, d, .inr (.inr (.inl hw)), rfl⟩)
        | pcIndex x =>
          simp only [Ea.field, Ea.mode, Ea.reg] at hw
          exact .inr (.inl ⟨w, x, .inr (.inr (.inr hw)), rfl⟩)
        | _ => cases hallowed
      | branchShort cc disp h =>
        cases hcalls
        have hop : (Instruction.branchShort 1 disp h).opword = 0x6100 + disp.val := by
          simp only [Instruction.opword, Fin.val_one]
        have hdisp := disp.isLt
        obtain ⟨w, hw, hbytes⟩ := exists_word (i := .branchShort 1 disp h) (by omega)
        exact .inl ⟨w, .inl (by omega), hbytes⟩
      | branchWord cc d =>
        cases hcalls
        have hop : (Instruction.branchWord 1 d).opword = 0x6100 := by
          simp only [Instruction.opword, Fin.val_one]
        obtain ⟨w, hw, hbytes⟩ := exists_word (i := .branchWord 1 d) (by omega)
        exact .inr (.inl ⟨w, d, .inl (hw.trans hop), hbytes⟩)
      | _ => exact hcalls.elim
    · exact .inr (.inr ⟨_, hi, lo, .inl rfl, rfl⟩)
  · rintro (⟨w, hw, rfl⟩ | ⟨w, d, hw, rfl⟩ | ⟨w, hi, lo, hw, rfl⟩)
    · exact isCall_short hw
    · exact isCall_wordSized hw d
    · exact isCall_longSized hw hi lo

/-! ### The bytes in front of an address -/

theorem length_wordBytes (ws : List Word) : (wordBytes ws).length = 2 * ws.length := by
  induction ws with
  | nil => rfl
  | cons w ws ih =>
    rw [wordBytes, List.flatMap_cons, List.length_append, Bytes.length_bigEndian, ← wordBytes, ih,
      List.length_cons]
    omega

theorem wordBytes_inj {ws vs : List Word} (h : wordBytes ws = wordBytes vs) : ws = vs := by
  induction ws generalizing vs with
  | nil =>
    have hlength := congrArg List.length h
    rw [length_wordBytes, length_wordBytes] at hlength
    exact (List.eq_nil_of_length_eq_zero (by rw [List.length_nil] at hlength; omega)).symm
  | cons w ws ih =>
    cases vs with
    | nil =>
      have hlength := congrArg List.length h
      rw [length_wordBytes, length_wordBytes, List.length_cons] at hlength
      exact absurd hlength (by rw [List.length_nil]; omega)
    | cons v vs =>
      obtain ⟨hhead, htail⟩ := List.append_inj h (by simp)
      have hnat := congrArg Bytes.fromBigEndian hhead
      rw [Bytes.fromBigEndian_bigEndian w.isLt, Bytes.fromBigEndian_bigEndian v.isLt] at hnat
      rw [BitVec.eq_of_toNat_eq hnat, ih htail]

/-- Words end in words exactly if their bytes do. -/
theorem wordBytes_suffix (ws vs : List Word) : wordBytes ws <:+ wordBytes vs ↔ ws <:+ vs := by
  constructor
  · rintro ⟨front, h⟩
    have hlength := congrArg List.length h
    rw [List.length_append, length_wordBytes, length_wordBytes] at hlength
    have hdrop : wordBytes vs = wordBytes (vs.take (vs.length - ws.length)) ++
        wordBytes (vs.drop (vs.length - ws.length)) := by
      rw [wordBytes, wordBytes, wordBytes, ← List.flatMap_append, List.take_append_drop]
    have htail := (List.append_inj' (h.trans hdrop)
      (by rw [length_wordBytes, length_wordBytes, List.length_drop]; omega)).2
    rw [wordBytes_inj htail]
    exact List.drop_suffix ..
  · rintro ⟨front, rfl⟩
    rw [wordBytes, wordBytes, List.flatMap_append]
    exact List.suffix_append ..

/-- Six bytes are three words. -/
theorem exists_words {before : Bytes} (h : before.length = 6) :
    ∃ x y z : Word, before = wordBytes [x, y, z] := by
  have hword (bs : Bytes) (hbs : bs.length = 2) : ∃ w : Word, bs = Bytes.bigEndian 2 w.toNat := by
    have hlt : Bytes.fromBigEndian bs < 2 ^ 16 := by
      have hbytes := Bytes.fromBigEndian_lt bs
      rw [hbs] at hbytes
      exact hbytes
    refine ⟨BitVec.ofNat 16 (Bytes.fromBigEndian bs), ?_⟩
    rw [BitVec.toNat_ofNat, Nat.mod_eq_of_lt hlt, ← hbs, Bytes.bigEndian_fromBigEndian]
  obtain ⟨x, hx⟩ := hword (before.take 2) (by rw [List.length_take]; omega)
  obtain ⟨y, hy⟩ := hword ((before.drop 2).take 2) (by simp; omega)
  obtain ⟨z, hz⟩ := hword ((before.drop 2).drop 2) (by simp; omega)
  refine ⟨x, y, z, ?_⟩
  rw [wordBytes, List.flatMap_cons, List.flatMap_cons, List.flatMap_singleton, ← hx, ← hy, ← hz,
    List.take_append_drop, List.take_append_drop]

/-- What `call_before` tests, one word after the other. -/
theorem callBefore_wordBytes (x y z : Word) :
    callBefore (wordBytes [x, y, z]) = true ↔ Short z ∨ WordSized y ∨ LongSized x := by
  have hvalue (w : Word) : Bytes.fromBigEndian (Bytes.bigEndian 2 w.toNat) = w.toNat :=
    Bytes.fromBigEndian_bigEndian w.isLt
  have hfirst : Bytes.fromBigEndian (((wordBytes [x, y, z]).drop 0).take 2) = x.toNat := hvalue x
  have hmiddle : Bytes.fromBigEndian (((wordBytes [x, y, z]).drop 2).take 2) = y.toNat := hvalue y
  have hlast : Bytes.fromBigEndian (((wordBytes [x, y, z]).drop 4).take 2) = z.toNat := hvalue z
  have hhigh : z.toNat &&& 0xFF00 = z.toNat / 256 * 256 := by
    have hlt : z.toNat / 2 ^ 8 < 2 ^ 8 := Nat.div_lt_of_lt_mul z.isLt
    calc z.toNat &&& 0xFF00 = z.toNat / 2 ^ 8 % 2 ^ 8 * 2 ^ 8 := Bits.land_field z.toNat 8 8
      _ = z.toNat / 256 * 256 := congrArg (· * 2 ^ 8) (Nat.mod_eq_of_lt hlt)
  have hlow : z.toNat &&& 0xFF = z.toNat % 256 := Bits.land_255 _
  simp only [callBefore, hfirst, hmiddle, hlast, hhigh, hlow, Bool.or_eq_true, Bool.and_eq_true,
    Bool.not_eq_true', Bool.or_eq_false_iff, beq_iff_eq, beq_eq_false_iff_ne, decide_eq_true_eq,
    Short, WordSized, LongSized]
  omega

/-- Six bytes end in a call exactly if `call_before` says so. -/
theorem callBefore_iff {before : Bytes} (h : before.length = 6) :
    callBefore before = true ↔ ∃ bs, IsCall bs ∧ bs <:+ before := by
  obtain ⟨x, y, z, rfl⟩ := exists_words h
  rw [callBefore_wordBytes]
  constructor
  · rintro (hshort | hword | hlong)
    · exact ⟨_, isCall_short hshort, (wordBytes_suffix _ _).mpr ⟨[x, y], rfl⟩⟩
    · exact ⟨_, isCall_wordSized hword z, (wordBytes_suffix _ _).mpr ⟨[x], rfl⟩⟩
    · exact ⟨_, isCall_longSized hlong y z, List.suffix_refl _⟩
  · rintro ⟨bs, hcall, hsuffix⟩
    rcases (isCall_iff bs).mp hcall with ⟨w, hw, rfl⟩ | ⟨w, d, hw, rfl⟩ | ⟨w, hi, lo, hw, rfl⟩
    · have heq := List.suffix_iff_eq_drop.mp ((wordBytes_suffix _ _).mp hsuffix)
      cases heq
      exact .inl hw
    · have heq := List.suffix_iff_eq_drop.mp ((wordBytes_suffix _ _).mp hsuffix)
      cases heq
      exact .inr (.inl hw)
    · have heq := List.suffix_iff_eq_drop.mp ((wordBytes_suffix _ _).mp hsuffix)
      cases heq
      exact .inr (.inr hw)

/-- A call is two, four or six bytes long. -/
theorem length_le_of_isCall {bs : Bytes} (h : IsCall bs) : bs.length ≤ 6 := by
  rcases (isCall_iff bs).mp h with ⟨w, _, rfl⟩ | ⟨w, d, _, rfl⟩ | ⟨w, hi, lo, _, rfl⟩
  all_goals
    rw [length_wordBytes]
    simp only [List.length_cons, List.length_nil]
    omega

/-! ### The action -/

inductive Kind where
  | data | returnAddress | code
  deriving DecidableEq

/-- An entry of `words`. -/
structure StackWord where
  offset : Nat
  address : Nat
  value : Nat
  kind : Kind
  deriving DecidableEq

/-- An entry of the `memory-map` reply, whose keys may be missing. -/
structure RegionReport where
  type : Option Text
  address : Option Nat
  size : Option Nat

/-- `_regions`, as pairs of a type and the range from the address to its end. -/
def regions (report : Except DebugError (List RegionReport)) : List (Option Text × Nat × Nat) :=
  match report with
  | .error _ => []
  | .ok reports => reports.filterMap fun r =>
    match r.address, r.size with
    | some address, some size => some (r.type, address, address + size)
    | _, _ => none

/-- The regions of some types. -/
def ofType (types : List Text) (report : Except DebugError (List RegionReport)) :
    List (Nat × Nat) :=
  ((regions report).filter fun r => r.1.any (· ∈ types)).map (·.2)

/-- What the other requests of the action reply: the register `A7`, the map and the segments, these
as ranges. -/
structure Replies where
  sp : Nat
  memoryMap : Except DebugError (List RegionReport)
  segments : Except DebugError (List (Nat × Nat))

/-- `mapped` -/
def Replies.mapped (r : Replies) : List (Nat × Nat) :=
  ofType ["ram".toList, "rom".toList] r.memoryMap

/-- `code` -/
def Replies.code (r : Replies) : List (Nat × Nat) :=
  ofType ["rom".toList] r.memoryMap ++ match r.segments with
    | .ok segments => segments
    | .error _ => []

section Action

variable (target : Target) (replies : Replies)

/-- The kind of a value that is not behind a call. -/
def otherKind (value : Nat) : Kind :=
  if value % 2 = 0 ∧ replies.code.any (fun r => r.1 ≤ value ∧ value < r.2) then .code else .data

/-- The kind of a value, for which the bytes in front of it are read. -/
def kindOf (value : Nat) : Load Kind :=
  if value % 2 = 0 ∧ replies.mapped.any (fun r => r.1 + 6 ≤ value ∧ value < r.2) then do
    let before ← readBytes target (value - 6) 6
    return if callBefore before then .returnAddress else otherKind replies value
  else return otherKind replies value

/-- The loop of the action. -/
def stackWords (data : Bytes) : List Nat → Load (List StackWord)
  | [] => return []
  | i :: rest => do
    let value := Bytes.fromBigEndian ((data.drop (i * 4)).take 4)
    let kind ← kindOf target replies value
    let words ← stackWords data rest
    return ⟨i * 4, replies.sp + i * 4, value, kind⟩ :: words

/-- `_stack`. -/
def stack (depth : Val) : Load (Nat × List StackWord) := do
  let depth ← liftExcept (integer depth "depth" 1024 1)
  let data ← readBytes target replies.sp (depth.toNat * 4)
  let words ← stackWords target replies data (List.range depth.toNat)
  return (replies.sp, words)

end Action

/-! ### The tags -/

/-- The bytes of a call end at an address. -/
def CallEndsAt (memory : Nat → UInt8) (a : Nat) : Prop :=
  ∃ bs, IsCall bs ∧ bs.length ≤ a ∧ readMemory memory (a - bs.length) bs.length = bs

/-- The value is even and in one of the ranges, `room` bytes from its beginning. -/
def Inside (ranges : List (Nat × Nat)) (room value : Nat) : Prop :=
  value % 2 = 0 ∧ ∃ r ∈ ranges, r.1 + room ≤ value ∧ value < r.2

/-- What the kind of a value says. -/
structure Tagged (memory : Nat → UInt8) (replies : Replies) (value : Nat) (kind : Kind) : Prop where
  returnAddress : kind = .returnAddress ↔ Inside replies.mapped 6 value ∧ CallEndsAt memory value
  code : kind = .code ↔ kind ≠ .returnAddress ∧ Inside replies.code 0 value

/-- An entry of the stack. -/
structure Listed (memory : Nat → UInt8) (replies : Replies) (i : Nat) (w : StackWord) : Prop where
  offset : w.offset = i * 4
  address : w.address = replies.sp + i * 4
  value : w.value = Bytes.fromBigEndian (readMemory memory w.address 4)
  tagged : Tagged memory replies w.value w.kind

section Tags

variable {target : Target} {replies : Replies} {memory : Nat → UInt8} {P E : Guest → Prop}

theorem take_readMemory (m : Nat → UInt8) (a n k : Nat) (h : k ≤ n) :
    (readMemory m a n).take k = readMemory m a k := by
  obtain ⟨d, rfl⟩ : ∃ d, n = k + d := ⟨n - k, by omega⟩
  rw [readMemory_add, List.take_left' (length_readMemory m a k)]

/-- The six bytes in front of an address end in the bytes of a call. -/
theorem callBefore_readMemory {a : Nat} (h : 6 ≤ a) :
    callBefore (readMemory memory (a - 6) 6) = true ↔ CallEndsAt memory a := by
  rw [callBefore_iff (length_readMemory ..)]
  refine exists_congr fun bs => and_congr_right fun hcall => ?_
  have hlength := length_le_of_isCall hcall
  have hplace : a - 6 + (6 - bs.length) = a - bs.length := by omega
  have hsize : 6 - (6 - bs.length) = bs.length := by omega
  rw [List.suffix_iff_eq_drop, length_readMemory, drop_readMemory _ _ _ _ (by omega), hplace, hsize]
  exact ⟨fun heq => ⟨by omega, heq.symm⟩, fun hends => hends.2.symm⟩

theorem inside_iff (ranges : List (Nat × Nat)) (room value : Nat) :
    (value % 2 = 0 ∧ ranges.any (fun r => r.1 + room ≤ value ∧ value < r.2) = true) ↔
      Inside ranges room value := by
  simp only [Inside, List.any_eq_true, decide_eq_true_eq]

theorem otherKind_ne (value : Nat) : otherKind replies value ≠ .returnAddress := by
  unfold otherKind
  split
  · exact Kind.noConfusion
  · exact Kind.noConfusion

theorem otherKind_code (value : Nat) :
    otherKind replies value = .code ↔ Inside replies.code 0 value := by
  rw [← inside_iff]
  unfold otherKind
  split
  · rename_i hcode
    exact iff_of_true rfl hcode
  · rename_i hcode
    exact iff_of_false Kind.noConfusion hcode

/-- A value that is not a return address is tagged by the code ranges alone. -/
theorem tagged_otherKind {value : Nat}
    (h : ¬ (Inside replies.mapped 6 value ∧ CallEndsAt memory value)) :
    Tagged memory replies value (otherKind replies value) where
  returnAddress := iff_of_false (otherKind_ne value) h
  code := by
    rw [otherKind_code]
    exact ⟨fun hcode => ⟨otherKind_ne value, hcode⟩, fun hcode => hcode.2⟩

theorem triple_kindOf (hread : Reads target memory P E) {value : Nat} (hvalue : value < 2 ^ 32) :
    Triple P (kindOf target replies value) (fun kind s => Tagged memory replies value kind ∧ P s)
      E := by
  unfold kindOf
  split
  · rename_i hinside
    have hmapped := (inside_iff ..).mp hinside
    obtain ⟨_, r, _, hroom, _⟩ := hmapped
    refine triple_bind (hread (value - 6) 6 (by omega)) fun before => triple_pure ?_
    rintro s ⟨rfl, hs⟩
    refine ⟨?_, hs⟩
    split
    · rename_i hcall
      have hends := (callBefore_readMemory (by omega)).mp hcall
      exact ⟨iff_of_true rfl ⟨(inside_iff ..).mp hinside, hends⟩,
        iff_of_false Kind.noConfusion fun h => h.1 rfl⟩
    · rename_i hcall
      exact tagged_otherKind fun h => hcall ((callBefore_readMemory (by omega)).mpr h.2)
  · rename_i hinside
    refine triple_pure fun s hs => ⟨tagged_otherKind fun h => hinside ?_, hs⟩
    exact (inside_iff ..).mpr h.1

/-- The entries of a part of the data. -/
theorem triple_stackWords (hread : Reads target memory P E) (n : Nat) (is : List Nat)
    (his : ∀ i ∈ is, i < n) :
    Triple P (stackWords target replies (readMemory memory replies.sp (n * 4)) is)
      (fun words s => List.Forall₂ (Listed memory replies) is words ∧ P s) E := by
  induction is with
  | nil => exact triple_pure fun s hs => ⟨.nil, hs⟩
  | cons i is ih =>
    rw [stackWords]
    have hi := his i List.mem_cons_self
    have hword : ((readMemory memory replies.sp (n * 4)).drop (i * 4)).take 4 =
        readMemory memory (replies.sp + i * 4) 4 := by
      rw [drop_readMemory _ _ _ _ (by omega)]
      exact take_readMemory _ _ _ _ (by omega)
    have hvalue := Bytes.fromBigEndian_lt (readMemory memory (replies.sp + i * 4) 4)
    rw [length_readMemory] at hvalue
    simp only [hword]
    refine triple_bind (triple_kindOf hread hvalue) fun kind => triple_of_and fun htagged =>
      triple_bind (ih fun j hj => his j (List.mem_cons_of_mem _ hj)) fun words => triple_pure ?_
    rintro s ⟨hwords, hs⟩
    exact ⟨.cons ⟨rfl, rfl, rfl, htagged⟩ hwords, hs⟩

theorem triple_stack (hread : Reads target memory P E) {depth : Val} {n : Int}
    (hdepth : integer depth "depth" 1024 1 = .ok n) (hsp : replies.sp + n.toNat * 4 ≤ 2 ^ 32) :
    Triple P (stack target replies depth)
      (fun reply s => (reply.1 = replies.sp ∧
        List.Forall₂ (Listed memory replies) (List.range n.toNat) reply.2) ∧ P s) E := by
  rw [stack]
  intro s hs
  rw [outcome_bind, Raises.outcome_liftExcept, hdepth]
  refine triple_bind (hread replies.sp (n.toNat * 4) hsp) (fun data => triple_of_and ?_) s hs
  rintro rfl
  refine triple_bind (triple_stackWords hread n.toNat (List.range n.toNat) fun i hi =>
    List.mem_range.mp hi) fun words => triple_pure ?_
  rintro s ⟨hwords, hs⟩
  exact ⟨⟨rfl, hwords⟩, hs⟩

/-- A stack that is listed lies in the address space. -/
theorem ok_of_stack {depth : Val} {s s' : Guest} {reply : Nat × List StackWord}
    (h : (stack target replies depth).outcome s = (.ok reply, s')) :
    ∃ n, integer depth "depth" 1024 1 = .ok n ∧ replies.sp + n.toNat * 4 ≤ 2 ^ 32 := by
  rw [stack] at h
  obtain ⟨n, t, hn, hrest⟩ := outcome_bind_eq_ok.mp h
  rw [Raises.outcome_liftExcept] at hn
  obtain ⟨data, t', hdata, _⟩ := outcome_bind_eq_ok.mp hrest
  refine ⟨n, (Prod.mk.inj hn).1, ?_⟩
  by_contra hwrap
  rw [readBytes, if_pos (by omega), outcome_bind, outcome_throw] at hdata
  cases hdata

end Tags

/-- The action lists the longwords from the stack pointer on. It tags as return addresses the even
values in mapped memory, six bytes from its beginning, that lie behind a call; and it returns while
the target answers. -/
theorem stack_listed (target : Target) (replies : Replies) (depth : Val) (s : Guest) :
    (∀ reply s', (stack target replies depth).outcome s = (.ok reply, s') →
      reply.1 = replies.sp ∧ s'.memory = s.memory ∧
        ∃ n, integer depth "depth" 1024 1 = .ok n ∧
          List.Forall₂ (Listed s.memory replies) (List.range n.toNat) reply.2) ∧
    (s.connected = true → (∀ k, target.fate k = .answered) →
      ∀ n, integer depth "depth" 1024 1 = .ok n → replies.sp + n.toNat * 4 ≤ 2 ^ 32 →
        ∃ reply s', (stack target replies depth).outcome s = (.ok reply, s')) := by
  refine ⟨fun reply s' h => ?_, fun hup hanswered n hdepth hsp => ?_⟩
  · obtain ⟨n, hdepth, hsp⟩ := ok_of_stack h
    have hlisted := triple_stack (reads_memory target s.memory) hdepth hsp s rfl
    rw [h] at hlisted
    obtain ⟨⟨hfirst, hwords⟩, hmemory⟩ := hlisted
    exact ⟨hfirst, hmemory, n, hdepth, hwords⟩
  · exact returns_of_triple (triple_stack (reads_answered hanswered s.memory) hdepth hsp)
      ⟨rfl, hup⟩

/-- `JSR (A0)` ends at an address. -/
example : callBefore [0x4E, 0x71, 0x4E, 0x71, 0x4E, 0x90] = true := by decide

end CallSites

end AmigaDevbench.Winuae
