import AmigaDevbench.Core.BigEndian
import AmigaDevbench.Host.Winuae.HunkLoad

/-!
# DWARF expressions

The helper evaluates an expression on Python integers, which do not wrap. The machine that DWARF
describes computes on 32-bit words. Whenever the helper returns, its number stands for the word
of the machine and the kinds agree; whenever the machine neither runs out of operands nor leaves
one value, the helper raises `ValueError`.
-/

namespace AmigaDevbench.Winuae

namespace Dwarf

open Raises HunkLoad Bytes

/-- An exception with its message. -/
structure Raised where
  error : PyError
  message : String
  deriving DecidableEq

def valueError (message : String) : Raised := ⟨.valueError, message⟩

def indexError (message : String) : Raised := ⟨.indexError, message⟩

/-- `checked`, with `0xffffffff` for the maximum unless another is given. -/
def checked (value : Int) (maximum : Int) : Except Raised Int :=
  if 0 ≤ value ∧ value ≤ maximum then .ok value
  else .error (valueError "Invalid address, size or DWARF constant")

/-- A section mapping of the request. -/
structure Mapping where
  linked : Nat
  address : Nat
  size : Nat

/-- The side of a mapping that an address is looked up on, and the other one. -/
def Mapping.ends (m : Mapping) (runtime : Bool) : Nat × Nat :=
  if runtime then (m.address, m.linked) else (m.linked, m.address)

/-- `translate`. -/
def translate (maps : List Mapping) (address : Int) (runtime : Bool) : Except Raised Int :=
  let found := maps.filterMap fun m =>
    let (src, dst) := m.ends runtime
    if src ≤ address ∧ address < src + m.size then some (dst + address - src) else none
  match found with
  | [target] => checked target 0xffffffff
  | _ => .error (valueError "Address has no unique explicit section mapping")

/-- The guest behind the host. A request that is not answered in full has a message for it. -/
structure Guest where
  memory : Nat → UInt8
  refusal : Nat → Option String

/-- `read_bytes`, and the number of requests sent. -/
structure Budget where
  readBytes : Int
  requests : Nat

abbrev Helper := Raises Raised Budget

/-- `read`. -/
def read (guest : Guest) (address size : Int) : Helper Bytes := do
  let _ ← liftExcept (checked address 0xffffffff)
  let _ ← liftExcept (checked size 4096)
  modify fun s => { s with readBytes := s.readBytes + size }
  let s ← get
  if address + size > 0x100000000 ∨ s.readBytes > 65536 then
    throw (valueError "Guest read budget exceeded")
  else if size = 0 then return []
  else do
    modify fun s => { s with requests := s.requests + 1 }
    match guest.refusal s.requests with
    | some message => throw (valueError message)
    | none => return readMemory guest.memory address.toNat size.toNat

/-- `int.from_bytes(self.read(checked(address), 4), 'big')`. -/
def readLong (guest : Guest) (address : Int) : Helper Int := do
  let address ← liftExcept (checked address 0xffffffff)
  let bytes ← read guest address 4
  return fromBigEndian bytes

/-- A register file: the keys of a dictionary and their values. -/
abbrev Registers := Nat → Option Int

/-- What a location is. -/
inductive Kind where
  | address | register | value
  deriving DecidableEq, Repr

/-- A decoded operation. -/
inductive Operation where
  /-- `DW_OP_addr` -/
  | addr (address : Nat)
  /-- `DW_OP_breg0` to `DW_OP_breg31`, and `DW_OP_bregx` -/
  | breg (reg : Nat) (offset : Int)
  /-- `DW_OP_reg0` to `DW_OP_reg31`, and `DW_OP_regx` -/
  | reg (reg : Nat)
  /-- `DW_OP_regval_type` -/
  | regvalType (reg type : Nat)
  /-- `DW_OP_fbreg` -/
  | fbreg (offset : Int)
  /-- `DW_OP_call_frame_cfa` -/
  | callFrameCfa
  /-- `DW_OP_plus_uconst` -/
  | plusUconst (n : Nat)
  /-- `DW_OP_const1u` to `DW_OP_const8s`, `DW_OP_constu` and `DW_OP_consts` -/
  | const (value : Int)
  /-- `DW_OP_constx`, an index into the addresses, and `DW_OP_const_type`, the place of a type -/
  | constx (place : Nat)
  /-- `DW_OP_lit0` to `DW_OP_lit31` -/
  | lit (n : Nat)
  /-- `DW_OP_plus` -/
  | plus
  /-- `DW_OP_minus` -/
  | minus
  /-- `DW_OP_deref` -/
  | deref
  /-- `DW_OP_stack_value` -/
  | stackValue
  /-- `DW_OP_nop` -/
  | nop
  /-- Any other name. -/
  | other (name : String)
  deriving DecidableEq

/-- What `parse_expr` makes of an expression: the operations, or the message of its error. -/
abbrev Expression := Except String (List Operation)

/-- What an expression is evaluated in. -/
structure Context where
  maps : List Mapping
  guest : Guest
  regs : Registers
  cfa : Option Int
  frameBase : Option Int

/-- `stack.pop()`. The end of the list is the head here. -/
def pop : List Int → Helper (Int × List Int)
  | [] => throw (indexError "pop from empty list")
  | top :: stack => return (top, stack)

/-- `stack[-1] = f(stack[-1])`. -/
def update (f : Int → Int) : List Int → Helper (List Int)
  | [] => throw (indexError "list index out of range")
  | top :: stack => return f top :: stack

/-- The loop body of `evaluate` on the stack and `kind`. `count` is the number of operations.
The name of a typed register value is read as a register number, and the two operations that
begin like a constant push their operand as one. -/
def execute (context : Context) (count : Nat) (stack : List Int) (kind : Kind) :
    Operation → Helper (List Int × Kind)
  | .addr address => do
    let target ← liftExcept (translate context.maps address false)
    return (target :: stack, kind)
  | .breg reg offset =>
    match context.regs reg with
    | none => throw (valueError "Unavailable DWARF register")
    | some value => return ((value + offset) :: stack, kind)
  | .reg reg =>
    match context.regs reg with
    | none => throw (valueError "Unavailable DWARF register")
    | some value =>
      if count ≠ 1 then throw (valueError "Compound register locations are unsupported")
      else return (value :: stack, .register)
  | .regvalType _ _ => throw (valueError "invalid literal for int() with base 10: 'val_type'")
  | .fbreg offset =>
    match context.frameBase with
    | none => throw (valueError "Unavailable frame base")
    | some base => return ((base + offset) :: stack, kind)
  | .callFrameCfa =>
    match context.cfa with
    | none => throw (valueError "Unavailable CFA")
    | some cfa => return (cfa :: stack, kind)
  | .plusUconst n => do return (← update (· + n) stack, kind)
  | .const value => return (value :: stack, kind)
  | .constx place => return ((place : Int) :: stack, kind)
  | .lit n => return ((n : Int) :: stack, kind)
  | .plus => do
    let (first, stack) ← pop stack
    let (second, stack) ← pop stack
    return ((first + second) :: stack, kind)
  | .minus => do
    let (right, stack) ← pop stack
    return (← update (· - right) stack, kind)
  | .deref => do
    let (address, stack) ← pop stack
    let value ← readLong context.guest address
    return (value :: stack, kind)
  | .stackValue => return (stack, .value)
  | .nop => return (stack, kind)
  | .other name => throw (valueError ("Unsupported DWARF operation: " ++ name))

/-- The loop of `evaluate`. -/
def executeAll (context : Context) (count : Nat) :
    List Operation → List Int → Kind → Helper (List Int × Kind)
  | [], stack, kind => return (stack, kind)
  | operation :: operations, stack, kind => do
    let (stack, kind) ← execute context count stack kind operation
    if stack.length > 32 then throw (valueError "DWARF stack budget exceeded")
    else executeAll context count operations stack kind

/-- `evaluate`. -/
def evaluate (context : Context) (expression : Expression) : Helper (Int × Kind) := do
  let operations ← liftExcept (expression.mapError valueError)
  if operations.length > 128 then throw (valueError "DWARF expression budget exceeded")
  else do
    let (stack, kind) ← executeAll context operations.length operations [] .address
    match stack with
    | [value] => return (value, kind)
    | _ => throw (valueError "Invalid DWARF expression result")

/-! ### The machine -/

abbrev Word := BitVec 32

/-- Why an expression has no value: an operation finds too few operands, asks for something that
is not there, or there is not one value in the end. -/
inductive Fault where
  | underflow | undefined | notSingle
  deriving DecidableEq, Repr

/-- What an operation of the machine refers to. -/
structure Machine where
  /-- The section mapping of `DW_OP_addr`. -/
  sections : Nat → Option Word
  registers : Nat → Option Word
  cfa : Option Word
  frameBase : Option Word
  memory : Word → UInt8

namespace Machine

/-- The longword at an address. -/
def load (m : Machine) (w : Word) : Word :=
  BitVec.ofNat 32 (fromBigEndian ((List.range 4).map fun i => m.memory (w + BitVec.ofNat 32 i)))

/-- A value that is there or not. -/
def pushed (value : Option Word) (stack : List Word) (kind : Kind) :
    Except Fault (List Word × Kind) :=
  match value with
  | none => .error .undefined
  | some w => .ok (w :: stack, kind)

/-- One operation. A register is a location of its own only if it is the whole expression. -/
def step (m : Machine) (count : Nat) (stack : List Word) (kind : Kind) :
    Operation → Except Fault (List Word × Kind)
  | .addr address => pushed (m.sections address) stack kind
  | .breg reg offset => pushed ((m.registers reg).map (· + BitVec.ofInt 32 offset)) stack kind
  | .reg reg => if count = 1 then pushed (m.registers reg) stack .register else .error .undefined
  | .fbreg offset => pushed (m.frameBase.map (· + BitVec.ofInt 32 offset)) stack kind
  | .callFrameCfa => pushed m.cfa stack kind
  | .const value => .ok (BitVec.ofInt 32 value :: stack, kind)
  | .lit n => .ok (BitVec.ofNat 32 n :: stack, kind)
  | .plusUconst n =>
    match stack with
    | top :: stack => .ok ((top + BitVec.ofNat 32 n) :: stack, kind)
    | [] => .error .underflow
  | .plus =>
    match stack with
    | top :: second :: stack => .ok ((second + top) :: stack, kind)
    | _ => .error .underflow
  | .minus =>
    match stack with
    | top :: second :: stack => .ok ((second - top) :: stack, kind)
    | _ => .error .underflow
  | .deref =>
    match stack with
    | top :: stack => .ok (m.load top :: stack, kind)
    | [] => .error .underflow
  | .stackValue => .ok (stack, .value)
  | .nop => .ok (stack, kind)
  | .regvalType _ _ | .constx _ | .other _ => .error .undefined

/-- The operations one after the other. -/
def run (m : Machine) (count : Nat) :
    List Operation → List Word → Kind → Except Fault (List Word × Kind)
  | [], stack, kind => .ok (stack, kind)
  | operation :: operations, stack, kind =>
    match m.step count stack kind operation with
    | .ok (stack, kind) => m.run count operations stack kind
    | .error fault => .error fault

/-- The value of an expression. -/
def result (m : Machine) (operations : List Operation) : Except Fault (Word × Kind) :=
  match m.run operations.length operations [] .address with
  | .ok ([value], kind) => .ok (value, kind)
  | .ok _ => .error .notSingle
  | .error fault => .error fault

end Machine

/-- The address that the mappings give to a linked address that just one of them covers. -/
def mapped (maps : List Mapping) (address : Nat) : Option Nat :=
  match maps.filter fun m => m.linked ≤ address ∧ address < m.linked + m.size with
  | [m] => some (m.address + (address - m.linked))
  | _ => none

/-- The machine of a context. -/
def Context.machine (context : Context) : Machine where
  sections address := (mapped context.maps address).map (BitVec.ofNat 32)
  registers reg := (context.regs reg).map (BitVec.ofInt 32)
  cfa := context.cfa.map (BitVec.ofInt 32)
  frameBase := context.frameBase.map (BitVec.ofInt 32)
  memory w := context.guest.memory w.toNat

/-- The operations that the helper implements. -/
def Operation.Supported : Operation → Prop
  | .regvalType _ _ | .constx _ | .other _ => False
  | .addr _ | .breg _ _ | .reg _ | .fbreg _ | .callFrameCfa | .plusUconst _ | .const _ | .lit _
  | .plus | .minus | .deref | .stackValue | .nop => True

/-! ### One operation -/

section Simulation

/-- The numbers as words. -/
def words (stack : List Int) : List Word := stack.map (BitVec.ofInt 32)

@[simp] theorem words_nil : words [] = [] := rfl

@[simp] theorem words_cons (n : Int) (stack : List Int) :
    words (n :: stack) = BitVec.ofInt 32 n :: words stack := rfl

theorem length_words (stack : List Int) : (words stack).length = stack.length :=
  List.length_map _

theorem ofInt_sub (x y : Int) :
    BitVec.ofInt 32 (x - y) = BitVec.ofInt 32 x - BitVec.ofInt 32 y := by
  rw [Int.sub_eq_add_neg, BitVec.ofInt_add, BitVec.ofInt_neg, BitVec.sub_eq_add_neg]

/-- An exception is a `ValueError` unless the machine runs out of operands. -/
def Contained {α : Type} (r : Except Fault α) (e : Raised) : Prop :=
  e.error = .valueError ∨ r = .error .underflow

theorem contained_valueError {α : Type} {r : Except Fault α} {message : String} :
    Contained r (valueError message) := .inl rfl

theorem checked_ok {value maximum n : Int} (h : checked value maximum = .ok n) :
    n = value ∧ 0 ≤ value ∧ value ≤ maximum := by
  rw [checked] at h
  split at h
  · next hbounds =>
    cases h
    exact ⟨rfl, hbounds⟩
  · cases h

theorem checked_error {value maximum : Int} {e : Raised} (h : checked value maximum = .error e) :
    e.error = .valueError := by
  rw [checked] at h
  split at h
  · cases h
  · cases h
    rfl

/-- The mappings that cover an address, and where they put it. -/
theorem filterMap_ends (maps : List Mapping) (address : Nat) :
    (maps.filterMap fun m =>
      if ((m.ends false).1 : Int) ≤ address ∧ (address : Int) < (m.ends false).1 + m.size then
        some (((m.ends false).2 : Int) + address - (m.ends false).1) else none) =
      (maps.filter fun m => m.linked ≤ address ∧ address < m.linked + m.size).map
        fun m => ((m.address + (address - m.linked) : Nat) : Int) := by
  induction maps with
  | nil => rfl
  | cons m maps ih =>
    rw [List.filterMap_cons, List.filter_cons, ih]
    by_cases hm : m.linked ≤ address ∧ address < m.linked + m.size
    · have hm' : ((m.ends false).1 : Int) ≤ address ∧
          (address : Int) < (m.ends false).1 + m.size := by
        simp only [Mapping.ends, Bool.false_eq_true, if_false]
        omega
      rw [if_pos hm', if_pos (decide_eq_true hm), List.map_cons]
      simp only [Mapping.ends, Bool.false_eq_true, if_false]
      congr 1
      omega
    · have hm' : ¬ (((m.ends false).1 : Int) ≤ address ∧
          (address : Int) < (m.ends false).1 + m.size) := by
        simp only [Mapping.ends, Bool.false_eq_true, if_false]
        omega
      rw [if_neg hm', decide_eq_false hm]
      rfl

/-- An address that is translated has one mapping. -/
theorem translate_ok {maps : List Mapping} {address : Nat} {target : Int}
    (h : translate maps address false = .ok target) :
    ∃ n, mapped maps address = some n ∧ target = n := by
  rw [translate] at h
  simp only at h
  rw [filterMap_ends] at h
  rw [mapped]
  generalize (maps.filter fun m =>
    decide (m.linked ≤ address ∧ address < m.linked + m.size)) = found at h ⊢
  match found with
  | [] => cases h
  | [m] => exact ⟨_, rfl, (checked_ok h).1⟩
  | _ :: _ :: _ => cases h

theorem translate_error {maps : List Mapping} {address : Int} {runtime : Bool} {e : Raised}
    (h : translate maps address runtime = .error e) : e.error = .valueError := by
  rw [translate] at h
  simp only at h
  split at h
  · exact checked_error h
  · cases h
    rfl

/-- A read returns the bytes in memory, of addresses that do not wrap. -/
theorem yields_read (guest : Guest) (address size : Int) :
    Yields (fun bytes => bytes = readMemory guest.memory address.toNat size.toNat ∧
        0 ≤ address ∧ address + size ≤ 0x100000000)
      (fun e => e.error = .valueError) (read guest address size) := by
  rw [read]
  refine yields_bind (R := fun _ => 0 ≤ address)
    (yields_liftExcept (fun n h => (checked_ok h).2.1) fun e h => checked_error h) fun _ hpos => ?_
  refine yields_bind (R := fun _ => True)
    (yields_liftExcept (fun _ _ => trivial) fun e h => checked_error h) fun _ _ => ?_
  refine yields_bind (yields_modify _) fun _ _ => yields_bind yields_get fun s _ => ?_
  split
  · exact yields_throw rfl
  · next hroom =>
    have hwrap : address + size ≤ 0x100000000 := by omega
    split
    · next hnone =>
      subst hnone
      exact yields_pure ⟨rfl, hpos, hwrap⟩
    · refine yields_bind (yields_modify _) fun _ _ => ?_
      split
      · exact yields_throw rfl
      · exact yields_pure ⟨rfl, hpos, hwrap⟩

theorem yields_readLong (guest : Guest) (address : Int) :
    Yields (fun n : Int => n = fromBigEndian (readMemory guest.memory address.toNat 4) ∧
        0 ≤ address ∧ address + 4 ≤ 0x100000000)
      (fun e => e.error = .valueError) (readLong guest address) := by
  rw [readLong]
  refine yields_bind (R := fun n => n = address)
    (yields_liftExcept (fun n h => (checked_ok h).1) fun e h => checked_error h) ?_
  rintro n rfl
  refine yields_bind (yields_read guest n 4) ?_
  rintro bytes ⟨rfl, hwrap⟩
  exact yields_pure ⟨rfl, hwrap⟩

/-- The machine loads the same bytes. -/
theorem load_ofInt {context : Context} {address : Int} (h : 0 ≤ address)
    (hwrap : address + 4 ≤ 0x100000000) :
    context.machine.load (BitVec.ofInt 32 address) =
      BitVec.ofNat 32 (fromBigEndian (readMemory context.guest.memory address.toNat 4)) := by
  have hbytes : ((List.range 4).map fun i =>
      context.machine.memory (BitVec.ofInt 32 address + BitVec.ofNat 32 i)) =
        readMemory context.guest.memory address.toNat 4 := by
    refine List.map_congr_left fun i hi => ?_
    have hi := List.mem_range.mp hi
    have hplace : (BitVec.ofInt 32 address + BitVec.ofNat 32 i).toNat = address.toNat + i := by
      rw [BitVec.toNat_add, BitVec.toNat_ofInt, BitVec.toNat_ofNat]
      omega
    exact congrArg context.guest.memory hplace
  rw [Machine.load, hbytes]

variable {context : Context} {count : Nat} {kind : Kind}

/-- Taking the top: on an empty stack the machine runs out of operands. -/
theorem yields_pop {r : Except Fault (List Word × Kind)} {stack : List Int}
    (h : stack = [] → r = .error .underflow) :
    Yields (fun p => stack = p.1 :: p.2) (Contained r) (pop stack) := by
  cases stack with
  | nil => exact yields_throw (.inr (h rfl))
  | cons top rest => exact yields_pure rfl

theorem yields_update {r : Except Fault (List Word × Kind)} {f : Int → Int} {stack : List Int}
    (h : stack = [] → r = .error .underflow) :
    Yields (fun stack' => ∃ top rest, stack = top :: rest ∧ stack' = f top :: rest) (Contained r)
      (update f stack) := by
  cases stack with
  | nil => exact yields_throw (.inr (h rfl))
  | cons top rest => exact yields_pure ⟨top, rest, rfl, rfl⟩

/-- The helper pushes what the machine pushes. -/
theorem yields_pushed {value : Option Int} {stack : List Int} {kind : Kind} {message : String}
    {f : Int → Int} {g : Word → Word} (hfg : ∀ n, BitVec.ofInt 32 (f n) = g (BitVec.ofInt 32 n)) :
    Yields (fun p => Machine.pushed ((value.map (BitVec.ofInt 32)).map g) (words stack) kind =
        .ok (words p.1, p.2))
      (Contained (Machine.pushed ((value.map (BitVec.ofInt 32)).map g) (words stack) kind))
      (match value with
        | none => throw (valueError message)
        | some n => return (f n :: stack, kind) : Helper (List Int × Kind)) := by
  cases value with
  | none => exact yields_throw contained_valueError
  | some n => exact yields_pure (by rw [words_cons, hfg]; rfl)

/-- One operation does to the numbers what the machine does to the words. -/
theorem yields_execute {op : Operation} (hop : op.Supported) (stack : List Int) :
    Yields (fun p => context.machine.step count (words stack) kind op = .ok (words p.1, p.2))
      (Contained (context.machine.step count (words stack) kind op))
      (execute context count stack kind op) := by
  cases op with
  | addr address =>
    refine yields_bind (R := fun n : Int => ∃ k, mapped context.maps address = some k ∧ n = k)
      (yields_liftExcept (r := translate context.maps address false) (fun n h => translate_ok h)
        fun e h => .inl (translate_error h)) ?_
    rintro n ⟨k, hk, rfl⟩
    refine yields_pure ?_
    simp only [Machine.step, Context.machine, hk, Option.map_some, Machine.pushed, words_cons,
      BitVec.ofInt_natCast]
  | breg reg offset =>
    exact yields_pushed (f := (· + offset)) fun n => BitVec.ofInt_add n offset
  | reg reg =>
    simp only [execute, Machine.step, Context.machine]
    cases context.regs reg with
    | none => exact yields_throw contained_valueError
    | some n =>
      simp only [ne_eq, ite_not]
      split
      · exact yields_pure rfl
      · exact yields_throw contained_valueError
  | fbreg offset =>
    exact yields_pushed (f := (· + offset)) fun n => BitVec.ofInt_add n offset
  | callFrameCfa =>
    simp only [execute, Machine.step, Context.machine]
    cases context.cfa with
    | none => exact yields_throw contained_valueError
    | some n => exact yields_pure rfl
  | plusUconst n =>
    refine yields_bind (yields_update ?_) ?_
    · rintro rfl
      rfl
    · rintro _ ⟨top, rest, rfl, rfl⟩
      refine yields_pure ?_
      rw [words_cons, words_cons, BitVec.ofInt_add, BitVec.ofInt_natCast]
      rfl
  | const value => exact yields_pure rfl
  | lit n => exact yields_pure (by rw [words_cons, BitVec.ofInt_natCast]; rfl)
  | plus =>
    refine yields_bind (yields_pop ?_) ?_
    · rintro rfl
      rfl
    · rintro ⟨first, stack⟩ rfl
      refine yields_bind (yields_pop ?_) ?_
      · rintro rfl
        rfl
      · rintro ⟨second, stack⟩ rfl
        refine yields_pure ?_
        rw [words_cons, words_cons, words_cons, Int.add_comm, BitVec.ofInt_add]
        rfl
  | minus =>
    refine yields_bind (yields_pop ?_) ?_
    · rintro rfl
      rfl
    · rintro ⟨right, stack⟩ rfl
      refine yields_bind (yields_update ?_) ?_
      · rintro rfl
        rfl
      · rintro _ ⟨left, rest, rfl, rfl⟩
        refine yields_pure ?_
        rw [words_cons, words_cons, words_cons, ofInt_sub]
        rfl
  | deref =>
    refine yields_bind (yields_pop ?_) ?_
    · rintro rfl
      rfl
    · rintro ⟨address, stack⟩ rfl
      refine yields_bind ((yields_readLong context.guest address).mono (fun _ h => h)
        fun e h => .inl h) ?_
      rintro n ⟨rfl, hpos, hwrap⟩
      refine yields_pure ?_
      rw [words_cons, words_cons, BitVec.ofInt_natCast, ← load_ofInt hpos hwrap]
      rfl
  | stackValue => exact yields_pure rfl
  | nop => exact yields_pure rfl
  | regvalType _ _ | constx _ | other _ => exact hop.elim

/-- The operations one after the other, as far as the helper goes. -/
theorem yields_executeAll {ops : List Operation} (hops : ∀ op ∈ ops, op.Supported)
    (stack : List Int) (kind : Kind) :
    Yields (fun p => context.machine.run count ops (words stack) kind = .ok (words p.1, p.2))
      (Contained (context.machine.run count ops (words stack) kind))
      (executeAll context count ops stack kind) := by
  induction ops generalizing stack kind with
  | nil => exact yields_pure rfl
  | cons op ops ih =>
    obtain ⟨hop, hops⟩ := List.forall_mem_cons.mp hops
    rw [executeAll]
    refine yields_bind ((yields_execute hop stack).mono (fun _ h => h) fun e he => ?_) ?_
    · rcases he with he | he
      · exact .inl he
      · exact .inr (by rw [Machine.run, he])
    · rintro ⟨stack', kind'⟩ hstep
      simp only
      split
      · exact yields_throw contained_valueError
      · rw [Machine.run, hstep]
        exact ih hops stack' kind'

/-- The number returned stands for the word of the machine. -/
theorem yields_evaluate {ops : List Operation} (hops : ∀ op ∈ ops, op.Supported) :
    Yields (fun p => context.machine.result ops = .ok (BitVec.ofInt 32 p.1, p.2))
      (Contained (context.machine.result ops)) (evaluate context (.ok ops)) := by
  rw [evaluate]
  refine yields_bind (R := fun operations => operations = ops)
    (yields_liftExcept (fun _ h => by cases h; rfl) fun _ h => by cases h) ?_
  rintro _ rfl
  split
  · exact yields_throw contained_valueError
  · rw [Machine.result]
    refine yields_bind ((yields_executeAll hops [] .address).mono (fun _ h => h) fun e he => ?_) ?_
    · rcases he with he | he
      · exact .inl he
      · exact .inr (by rw [← words_nil, he])
    · rintro ⟨stack, kind⟩ hrun
      rw [← words_nil, hrun]
      match stack with
      | [] => exact yields_throw contained_valueError
      | [n] => exact yields_pure rfl
      | _ :: _ :: _ => exact yields_throw contained_valueError

end Simulation

/-- What the helper returns for supported operations stands for the result of the machine: the
kind is the same, and the number is congruent to the word, hence equal to it if it is one. An
expression with which the machine does not run out of operands and that leaves other than one
value is rejected with `ValueError`. -/
theorem evaluate_congruent (context : Context) (ops : List Operation)
    (hops : ∀ op ∈ ops, op.Supported) (s : Budget) :
    (∀ value kind s', (evaluate context (.ok ops)).outcome s = (.ok (value, kind), s') →
      ∃ w : Word, context.machine.result ops = .ok (w, kind) ∧ value % 2 ^ 32 = w.toNat) ∧
    (context.machine.result ops ≠ .error .underflow →
      (∀ w kind, context.machine.result ops ≠ .ok (w, kind)) →
        ∃ message s',
          (evaluate context (.ok ops)).outcome s = (.error (valueError message), s')) := by
  refine ⟨fun value kind s' h => ?_, fun hunderflow hvalue => ?_⟩
  · refine ⟨_, (yields_evaluate hops).of_ok h, ?_⟩
    rw [BitVec.toNat_ofInt]
    omega
  · rcases h : (evaluate context (.ok ops)).outcome s with ⟨r, s'⟩
    cases r with
    | ok p => exact absurd ((yields_evaluate hops).of_ok h) (hvalue _ _)
    | error e =>
      rcases (yields_evaluate hops).of_error h with he | he
      · exact ⟨e.message, s', by rw [valueError, ← he]⟩
      · exact absurd he hunderflow

/-- D0 = 2 over an empty memory. -/
def twoContext : Context where
  maps := []
  guest := ⟨fun _ => 0, fun _ => none⟩
  regs reg := if reg = 0 then some 2 else none
  cfa := none
  frameBase := none

/-- D0 - 4 is -2 to the helper. -/
theorem evaluate_congruent_breg :
    ∃ w : Word, twoContext.machine.result [.breg 0 (-4)] = .ok (w, .address) ∧
      (-2 : Int) % 2 ^ 32 = w.toNat :=
  (evaluate_congruent twoContext [.breg 0 (-4)] (fun op h => by
    rw [List.mem_singleton.mp h]
    exact trivial) ⟨0, 0⟩).1 (-2) .address ⟨0, 0⟩ rfl

/-- The value returned need not be the word of the machine. -/
theorem evaluate_ne_machine : ¬ ∀ (context : Context) (ops : List Operation) (s : Budget),
    (∀ op ∈ ops, op.Supported) → ∀ value kind s',
      (evaluate context (.ok ops)).outcome s = (.ok (value, kind), s') →
        ∃ w : Word, context.machine.result ops = .ok (w, kind) ∧ value = w.toNat := by
  intro h
  obtain ⟨w, _, hw⟩ := h twoContext [.breg 0 (-4)] ⟨0, 0⟩ (fun op hop => by
    rw [List.mem_singleton.mp hop]
    exact trivial) (-2) .address ⟨0, 0⟩ rfl
  omega

end Dwarf

end AmigaDevbench.Winuae
