import AmigaDevbench.Host.Disasm.Stream

/-!
# The instruction decoder

One function for each group of operation words, by their top four bits. A decoder tests the groups'
patterns in the order of the source. `none` stands for a word that is not recognised.
-/

namespace AmigaDevbench.Disasm

open Decoder

/-- The result of a pattern: an instruction's text. -/
abbrev Decoded := Reader (Option Text)

section Groups

variable (base : Int)

/-- The data of an immediate operation. -/
def immediateData (sizeBits : Nat) : Reader Text :=
  match sizeBits with
  | 0 => do
    let imm ← word
    return "#$".toList ++ formatX 2 (imm &&& 0xFF : Nat)
  | 1 => do
    let imm ← word
    return "#$".toList ++ formatX 4 imm
  | _ => do
    let imm ← long
    return "#$".toList ++ formatX 8 imm

def decodeImmOp (op : Nat) (name : Text) (sizeBits : Nat) : Decoded := do
  let imm ← immediateData sizeBits
  let ea ← decodeEaFromWord base op sizeBits
  return some (name ++ ljust 4 (sizeName sizeBits) ++ ' ' :: imm ++ ',' :: ea)

/-- An instruction on the condition codes. -/
def decodeToCcr (name : Text) : Decoded := do
  let val ← word
  return some (ljust 9 name ++ "#$".toList ++ formatX 2 (val &&& 0xFF : Nat) ++ ",CCR".toList)

/-- An instruction on the status register. -/
def decodeToSr (name : Text) : Decoded := do
  let val ← word
  return some (ljust 9 name ++ "#$".toList ++ formatX 4 val ++ ",SR".toList)

/-- An immediate operation of three sizes. -/
def decodeSized (op : Nat) (name : Text) : Decoded :=
  if (op >>> 6) &&& 3 = 3 then return none else decodeImmOp base op name ((op >>> 6) &&& 3)

/-- A bit operation whose bit number is in a register. -/
def decodeBitRegister (op : Nat) : Decoded := do
  let ea ← decodeEaFromWord base op 0
  return some (ljust 9 (bitNames.getD ((op >>> 6) &&& 3) []) ++ 'D' :: dec ((op >>> 9) &&& 7) ++
    ',' :: ea)

/-- `MOVEP`, where the operation mode has one; the displacement is read first in any case. -/
def decodeMovep (op : Nat) : Decoded := do
  let disp ← sword
  let mem := Py.str disp ++ "(A".toList ++ dec (op &&& 7) ++ ")".toList
  let dreg := 'D' :: dec ((op >>> 9) &&& 7)
  match (op >>> 6) &&& 7 with
  | 4 => return some ("MOVEP.W  ".toList ++ mem ++ ',' :: dreg)
  | 5 => return some ("MOVEP.L  ".toList ++ mem ++ ',' :: dreg)
  | 6 => return some ("MOVEP.W  ".toList ++ dreg ++ ',' :: mem)
  | 7 => return some ("MOVEP.L  ".toList ++ dreg ++ ',' :: mem)
  | _ => decodeBitRegister base op

def decodeBitImmediate (op : Nat) : Decoded := do
  let num ← word
  let ea ← decodeEaFromWord base op 0
  return some (ljust 9 (bitNames.getD ((op >>> 6) &&& 3) []) ++ '#' :: dec (num &&& 0xFF) ++
    ',' :: ea)

/-- Bit manipulation, `MOVEP` and immediate operations. -/
def decode0000 (op : Nat) : Decoded :=
  if op &&& 0x0100 ≠ 0 then
    if (op >>> 3) &&& 7 = 1 then decodeMovep base op else decodeBitRegister base op
  else
    match (op >>> 9) &&& 7 with
    | 0 =>
      if (op >>> 6) &&& 3 = 3 then return none
      else if op = 0x003C then decodeToCcr "ORI".toList
      else if op = 0x007C then decodeToSr "ORI".toList
      else decodeImmOp base op "ORI".toList ((op >>> 6) &&& 3)
    | 1 =>
      if (op >>> 6) &&& 3 = 3 then return none
      else if op = 0x023C then decodeToCcr "ANDI".toList
      else if op = 0x027C then decodeToSr "ANDI".toList
      else decodeImmOp base op "ANDI".toList ((op >>> 6) &&& 3)
    | 2 => decodeSized base op "SUBI".toList
    | 3 => decodeSized base op "ADDI".toList
    | 4 => decodeBitImmediate base op
    | 5 =>
      if (op >>> 6) &&& 3 = 3 then return none
      else if op = 0x0A3C then decodeToCcr "EORI".toList
      else if op = 0x0A7C then decodeToSr "EORI".toList
      else decodeImmOp base op "EORI".toList ((op >>> 6) &&& 3)
    | 6 => decodeSized base op "CMPI".toList
    | _ => return none

/-- `MOVE` and `MOVEA`, of the size that the top four bits stand for. -/
def decodeMove (op size : Nat) : Decoded := do
  let pcAddr ← addr base
  let src ← decodeEa ((op >>> 3) &&& 7) (op &&& 7) size pcAddr
  if (op >>> 6) &&& 7 = 1 then
    if size = 0 then return none
    else return some ("MOVEA".toList ++ ljust 3 (sizeName size) ++ ' ' :: src ++ ",A".toList ++
      dec ((op >>> 9) &&& 7))
  else
    let pcAddr ← addr base
    let dst ← decodeEa ((op >>> 6) &&& 7) ((op >>> 9) &&& 7) size pcAddr
    return some ("MOVE".toList ++ ljust 4 (sizeName size) ++ ' ' :: src ++ ',' :: dst)

/-- An instruction with one effective address, between the texts before and behind it. -/
def decodeUnary (op size : Nat) (head tail : Text) : Decoded := do
  let ea ← decodeEaFromWord base op size
  return some (head ++ ea ++ tail)

def decodeMovem (op : Nat) : Decoded := do
  let mask ← word
  let ea ← decodeEaFromWord base op (1 + ((op >>> 6) &&& 1))
  let sz := if (op >>> 6) &&& 1 = 0 then ".W".toList else ".L".toList
  let reglist := movemReglist mask ((op >>> 3) &&& 7 = 4)
  return some ("MOVEM".toList ++ ljust 3 sz ++ ' ' ::
    (if (op >>> 10) &&& 1 = 0 then reglist ++ ',' :: ea else ea ++ ',' :: reglist))

def decodeStop : Decoded := do
  let val ← word
  return some ("STOP     #$".toList ++ formatX 4 val)

def decodeLink (op : Nat) : Decoded := do
  let disp ← sword
  return some ("LINK     A".toList ++ dec (op &&& 7) ++ ",#$".toList ++ formatX 4 (disp % 0x10000))

/-- Operations on one operand: the last tests of the group. -/
def decodeSingle (op : Nat) : Decoded :=
  let sizeBits := (op >>> 6) &&& 3
  if op &&& 0xFF00 = 0x4A00 then
    if sizeBits = 3 then decodeUnary base op 0 "TAS      ".toList []
    else decodeUnary base op sizeBits ("TST".toList ++ ljust 5 (sizeName sizeBits)) []
  else if op &&& 0xFF00 = 0x4400 then
    if sizeBits = 3 then return none
    else decodeUnary base op sizeBits ("NEG".toList ++ ljust 5 (sizeName sizeBits)) []
  else if op &&& 0xFF00 = 0x4000 then
    if sizeBits = 3 then decodeUnary base op 1 "MOVE     SR,".toList []
    else decodeUnary base op sizeBits ("NEGX".toList ++ ljust 4 (sizeName sizeBits) ++ [' ']) []
  else if op &&& 0xFF00 = 0x4200 then
    if sizeBits = 3 then return none
    else decodeUnary base op sizeBits ("CLR".toList ++ ljust 5 (sizeName sizeBits)) []
  else if op &&& 0xFF00 = 0x4600 then
    if sizeBits = 3 then decodeUnary base op 1 "MOVE     ".toList ",SR".toList
    else decodeUnary base op sizeBits ("NOT".toList ++ ljust 5 (sizeName sizeBits)) []
  else if op &&& 0xFFC0 = 0x4800 then decodeUnary base op 0 "NBCD     ".toList []
  else if op &&& 0xFFC0 = 0x44C0 then decodeUnary base op 1 "MOVE     ".toList ",CCR".toList
  else if op &&& 0xFFC0 = 0x46C0 then decodeUnary base op 1 "MOVE     ".toList ",SR".toList
  else if op &&& 0xFFC0 = 0x40C0 then decodeUnary base op 1 "MOVE     SR,".toList []
  else return none

/-- From `SWAP` to `JMP`. -/
def decodeMovement (op : Nat) : Decoded :=
  let reg := dec (op &&& 7)
  let reg9 := dec ((op >>> 9) &&& 7)
  if op &&& 0xFFF8 = 0x4840 then return some ("SWAP     D".toList ++ reg)
  else if op &&& 0xFFC0 = 0x4840 then decodeUnary base op 2 "PEA      ".toList []
  else if op &&& 0xFFF8 = 0x4880 then return some ("EXT.W    D".toList ++ reg)
  else if op &&& 0xFFF8 = 0x48C0 then return some ("EXT.L    D".toList ++ reg)
  else if op &&& 0xFFF8 = 0x49C0 then return some ("EXTB.L   D".toList ++ reg)
  else if op &&& 0xFB80 = 0x4880 then decodeMovem base op
  else if op &&& 0xF1C0 = 0x41C0 then
    decodeUnary base op 2 "LEA      ".toList (",A".toList ++ reg9)
  else if op &&& 0xF1C0 = 0x4180 then
    decodeUnary base op 1 "CHK.W    ".toList (",D".toList ++ reg9)
  else if op &&& 0xFFC0 = 0x4E80 then decodeUnary base op 2 "JSR      ".toList []
  else if op &&& 0xFFC0 = 0x4EC0 then decodeUnary base op 2 "JMP      ".toList []
  else decodeSingle base op

/-- Miscellaneous instructions: one chain of tests, cut into three functions. -/
def decode0100 (op : Nat) : Decoded :=
  let reg := dec (op &&& 7)
  if op = 0x4E70 then return some "RESET".toList
  else if op = 0x4E71 then return some "NOP".toList
  else if op = 0x4E72 then decodeStop
  else if op = 0x4E73 then return some "RTE".toList
  else if op = 0x4E75 then return some "RTS".toList
  else if op = 0x4E76 then return some "TRAPV".toList
  else if op = 0x4E77 then return some "RTR".toList
  else if op = 0x4AFC then return some "ILLEGAL".toList
  else if op &&& 0xFFF0 = 0x4E40 then return some ("TRAP     #".toList ++ dec (op &&& 0xF))
  else if op &&& 0xFFF8 = 0x4E50 then decodeLink op
  else if op &&& 0xFFF8 = 0x4E58 then return some ("UNLK     A".toList ++ reg)
  else if op &&& 0xFFF0 = 0x4E60 then
    if op &&& 8 ≠ 0 then return some ("MOVE     USP,A".toList ++ reg)
    else return some ("MOVE     A".toList ++ reg ++ ",USP".toList)
  else decodeMovement base op

def decodeDbcc (op : Nat) : Decoded := do
  let disp ← sword
  let target := (← addr base) - 2 + disp
  return some ("DB".toList ++ ljust 6 (ccNames.getD ((op >>> 8) &&& 0xF) []) ++ " D".toList ++
    dec (op &&& 7) ++ ",$".toList ++ formatX 8 target)

/-- `ADDQ`, `SUBQ`, `Scc` and `DBcc`. -/
def decode0101 (op : Nat) : Decoded :=
  let sizeBits := (op >>> 6) &&& 3
  if sizeBits = 3 then
    if (op >>> 3) &&& 7 = 1 then decodeDbcc base op
    else
      decodeUnary base op 0
        ('S' :: ljust 7 (ccNames.getD ((op >>> 8) &&& 0xF) []) ++ [' ']) []
  else
    let data := if (op >>> 9) &&& 7 = 0 then 8 else (op >>> 9) &&& 7
    let name := if op &&& 0x0100 ≠ 0 then "SUBQ".toList else "ADDQ".toList
    decodeUnary base op sizeBits
      (name ++ ljust 4 (sizeName sizeBits) ++ " #".toList ++ dec data ++ [',']) []

/-- The text of a branch, by its condition. -/
def branchText (cond : Nat) (sz : Text) (target : Int) : Text :=
  match cond with
  | 0 => "BRA".toList ++ ljust 5 sz ++ " $".toList ++ formatX 8 target
  | 1 => "BSR".toList ++ ljust 5 sz ++ " $".toList ++ formatX 8 target
  | _ => 'B' :: ccNames.getD cond [] ++ ljust 5 sz ++ '$' :: formatX 8 target

/-- `BRA`, `BSR` and `Bcc`. -/
def decodeBranch (op : Nat) : Decoded := do
  let cond := (op >>> 8) &&& 0xF
  let disp8 := op &&& 0xFF
  let pcOfExt ← addr base
  if disp8 = 0 then
    let disp ← sword
    return some (branchText cond ".W".toList (pcOfExt + disp))
  else if disp8 = 0xFF then
    let disp ← slong
    return some (branchText cond ".L".toList (pcOfExt + disp))
  else
    let disp : Int := if disp8 ≥ 0x80 then disp8 - 0x100 else disp8
    return some (branchText cond ".S".toList (pcOfExt + disp))

def decodeMoveq (op : Nat) : Decoded :=
  if op &&& 0x0100 ≠ 0 then return none
  else
    let low : Int := (op &&& 0xFF : Nat)
    let data := if low ≥ 0x80 then low - 0x100 else low
    return some ("MOVEQ    #".toList ++ Py.str data ++ ",D".toList ++ dec ((op >>> 9) &&& 7))

/-- The operation mode chooses the size, and whether the register is the destination. -/
def decodeDyadic (op : Nat) (name : Text) (width : Nat) : Decoded :=
  let opmode := (op >>> 6) &&& 7
  let sizeBits := opmode &&& 3
  let dreg := 'D' :: dec ((op >>> 9) &&& 7)
  if sizeBits = 3 then return none
  else if opmode < 3 then
    decodeUnary base op sizeBits (name ++ ljust width (sizeName sizeBits)) (',' :: dreg)
  else decodeUnary base op sizeBits (name ++ ljust width (sizeName sizeBits) ++ dreg ++ [',']) []

/-- Two data registers or two predecremented addresses. -/
def registerPair (op : Nat) (head : Text) (memory : Bool) : Text :=
  let ry := dec (op &&& 7)
  let rx := dec ((op >>> 9) &&& 7)
  if memory then head ++ "-(A".toList ++ ry ++ "),-(A".toList ++ rx ++ ")".toList
  else head ++ 'D' :: ry ++ ",D".toList ++ rx

/-- `OR`, `DIVU`, `DIVS` and `SBCD`. -/
def decode1000 (op : Nat) : Decoded :=
  let opmode := (op >>> 6) &&& 7
  let tail := ",D".toList ++ dec ((op >>> 9) &&& 7)
  if opmode = 3 then decodeUnary base op 1 "DIVU.W   ".toList tail
  else if opmode = 7 then decodeUnary base op 1 "DIVS.W   ".toList tail
  else if opmode = 4 ∧ ((op >>> 3) &&& 7 = 0 ∨ (op >>> 3) &&& 7 = 1) then
    return some (registerPair op "SBCD     ".toList ((op >>> 3) &&& 1 ≠ 0))
  else decodeDyadic base op "OR".toList 6

/-- `SUB` or `ADD`, with their variants for addresses and for extended numbers. -/
def decodeAddsub (op : Nat) (name : Text) : Decoded :=
  let opmode := (op >>> 6) &&& 7
  let mode := (op >>> 3) &&& 7
  let tail := ",A".toList ++ dec ((op >>> 9) &&& 7)
  if opmode = 3 then decodeUnary base op 1 (name ++ "A.W   ".toList) tail
  else if opmode = 7 then decodeUnary base op 2 (name ++ "A.L   ".toList) tail
  else if (opmode = 4 ∨ opmode = 5 ∨ opmode = 6) ∧ (mode = 0 ∨ mode = 1) then
    let head := name ++ 'X' :: ljust 4 (sizeName (opmode &&& 3)) ++ [' ']
    return some (registerPair op head (mode = 1))
  else decodeDyadic base op name 6

/-- `CMP`, `CMPA`, `CMPM` and `EOR`. -/
def decode1011 (op : Nat) : Decoded :=
  let opmode := (op >>> 6) &&& 7
  let reg9 := dec ((op >>> 9) &&& 7)
  if opmode = 3 then decodeUnary base op 1 "CMPA.W   ".toList (",A".toList ++ reg9)
  else if opmode = 7 then decodeUnary base op 2 "CMPA.L   ".toList (",A".toList ++ reg9)
  else if opmode < 3 then
    decodeUnary base op opmode ("CMP".toList ++ ljust 5 (sizeName opmode)) (",D".toList ++ reg9)
  else
    let sizeBits := opmode - 4
    if sizeBits > 2 then return none
    else if (op >>> 3) &&& 7 = 1 then
      return some ("CMPM".toList ++ ljust 4 (sizeName sizeBits) ++ " (A".toList ++
        dec (op &&& 7) ++ ")+,(A".toList ++ reg9 ++ ")+".toList)
    else
      decodeUnary base op sizeBits
        ("EOR".toList ++ ljust 5 (sizeName sizeBits) ++ 'D' :: reg9 ++ [',']) []

/-- `AND`, `MULU`, `MULS`, `ABCD` and `EXG`. -/
def decode1100 (op : Nat) : Decoded :=
  let opmode := (op >>> 6) &&& 7
  let mode := (op >>> 3) &&& 7
  let ry := dec (op &&& 7)
  let reg9 := dec ((op >>> 9) &&& 7)
  if opmode = 3 then decodeUnary base op 1 "MULU.W   ".toList (",D".toList ++ reg9)
  else if opmode = 7 then decodeUnary base op 1 "MULS.W   ".toList (",D".toList ++ reg9)
  else if opmode = 4 ∧ (mode = 0 ∨ mode = 1) then
    return some (registerPair op "ABCD     ".toList ((op >>> 3) &&& 1 ≠ 0))
  else if opmode = 5 ∧ mode = 0 then
    return some ("EXG      D".toList ++ reg9 ++ ",D".toList ++ ry)
  else if opmode = 5 ∧ mode = 1 then
    return some ("EXG      A".toList ++ reg9 ++ ",A".toList ++ ry)
  else if opmode = 6 ∧ mode = 1 then
    return some ("EXG      D".toList ++ reg9 ++ ",A".toList ++ ry)
  else decodeDyadic base op "AND".toList 5

/-- Shifts and rotates, of a word in memory or of a register. -/
def decodeShift (op : Nat) : Decoded :=
  let sizeBits := (op >>> 6) &&& 3
  let direction := if op &&& 0x0100 ≠ 0 then 'L' else 'R'
  if sizeBits = 3 then
    let name := shiftNames.getD ((op >>> 9) &&& 3) [] ++ [direction]
    decodeUnary base op 1 (ljust 9 name) []
  else
    let name := shiftNames.getD ((op >>> 3) &&& 3) [] ++ [direction]
    let head := name ++ ljust 5 (sizeName sizeBits)
    let dreg := ",D".toList ++ dec (op &&& 7)
    let count := (op >>> 9) &&& 7
    if op &&& 0x0020 ≠ 0 then return some (head ++ 'D' :: dec count ++ dreg)
    else return some (head ++ '#' :: dec (if count = 0 then 8 else count) ++ dreg)

/-- A word that no instruction begins with. -/
def dcW (w : Nat) : Text := "DC.W     $".toList ++ formatX 4 w

/-- The dispatch on the top four bits. -/
def decodeGroup (top4 op : Nat) : Decoded :=
  match top4 with
  | 0x0 => decode0000 base op
  | 0x1 => decodeMove base op 0
  | 0x2 => decodeMove base op 2
  | 0x3 => decodeMove base op 1
  | 0x4 => decode0100 base op
  | 0x5 => decode0101 base op
  | 0x6 => decodeBranch base op
  | 0x7 => decodeMoveq op
  | 0x8 => decode1000 base op
  | 0x9 => decodeAddsub base op "SUB".toList
  | 0xA => return some (dcW op ++ "  ; A-line trap".toList)
  | 0xB => decode1011 base op
  | 0xC => decode1100 base op
  | 0xD => decodeAddsub base op "ADD".toList
  | 0xE => decodeShift base op
  | _ => return some (dcW op ++ "  ; F-line trap".toList)

def decodeOne : Decoded := do
  let op ← word
  decodeGroup base ((op >>> 12) &&& 0xF) op

end Groups

/-! ### The listing -/

/-- An entry: its address, the digits of its bytes and its text. -/
structure Entry where
  address : Int
  hex : Text
  text : Text
  deriving DecidableEq

namespace Entry

/-- The number of bytes shown. -/
def length (e : Entry) : Nat := e.hex.length / 2

/-- The text before the operands. -/
def mnemonic (e : Entry) : Text := e.text.before ' '

end Entry

/-- The entry of a single word. -/
def wordEntry (address : Int) (w : Nat) : Entry := ⟨address, formatX 4 w, dcW w⟩

/-- At most `count` entries. Data that ends within an instruction ends the listing with a word. -/
def entries (base : Int) : Nat → Input → List Entry
  | 0, _ => []
  | count + 1, s =>
    match word s with
    | .error _ => []
    | .ok (w, behind) =>
      let address := base + s.cursor
      match decodeOne base s with
      | .error _ => [wordEntry address w]
      | .ok (none, _) => wordEntry address w :: entries base count behind
      | .ok (some mnemonic, t) =>
        ⟨address, hexUpper (s.rest.take (t.cursor - s.cursor)), mnemonic⟩ :: entries base count t

/-- `disassemble`. -/
def disassemble (data : Bytes) (baseAddr count : Int) : List Entry :=
  entries baseAddr count.toNat ⟨0, data⟩

end AmigaDevbench.Disasm
