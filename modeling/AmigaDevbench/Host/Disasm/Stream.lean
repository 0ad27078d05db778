import AmigaDevbench.Core.BigEndian
import AmigaDevbench.Core.Decoding
import AmigaDevbench.Host.Disasm.LibraryVectors
import AmigaDevbench.Host.Python

/-!
# The instruction stream

The disassembler reads words behind a cursor and writes operands as text. A word that is not there
ends the data. Sizes are `0`, `1` and `2` for bytes, words and longwords.
-/

namespace AmigaDevbench.Disasm

open Decoder

/-- `_EndOfData`. -/
inductive EndOfData where
  | endOfData

abbrev Reader := Decoder EndOfData

/-- `f"{n:0{width}X}"`: the sign counts in the width. -/
def formatX (width : Nat) (n : Int) : Text :=
  let digits := (Nat.toDigits 16 n.natAbs).map Char.toUpper
  let sign := if n < 0 then ['-'] else []
  sign ++ List.replicate (width - sign.length - digits.length) '0' ++ digits

/-- `f"{s:{width}s}"`. -/
def ljust (width : Nat) (s : Text) : Text := s ++ List.replicate (width - s.length) ' '

/-- `f"{n}"` of a register number or a count. -/
def dec (n : Nat) : Text := Py.str n

/-- The next word, most significant byte first. -/
def word : Reader Nat := do
  let bs ← take (fun _ => .endOfData) 2
  return Bytes.fromBigEndian bs

def sword : Reader Int := do
  let w ← word
  return if w ≥ 0x8000 then w - 0x10000 else w

def long : Reader Nat := do
  let hi ← word
  let lo ← word
  return hi <<< 16 ||| lo

def slong : Reader Int := do
  let v ← long
  return if v ≥ 0x80000000 then v - 0x100000000 else v

/-- The address of the next word, where the data is at `base`. -/
def addr (base : Int) : Reader Int := do
  let pos ← position
  return base + pos

/-- `hex_between`, of the bytes themselves. -/
def hexUpper (bs : Bytes) : Text := bs.hex.map Char.toUpper

/-! ### Names -/

def sizeName : Nat → Text
  | 0 => ".B".toList
  | 1 => ".W".toList
  | _ => ".L".toList

def ccNames : List Text :=
  ["T".toList, "F".toList, "HI".toList, "LS".toList, "CC".toList, "CS".toList, "NE".toList,
    "EQ".toList, "VC".toList, "VS".toList, "PL".toList, "MI".toList, "GE".toList, "LT".toList,
    "GT".toList, "LE".toList]

def bitNames : List Text := ["BTST".toList, "BCHG".toList, "BCLR".toList, "BSET".toList]

def shiftNames : List Text := ["AS".toList, "LS".toList, "ROX".toList, "RO".toList]

/-! ### Effective addresses -/

/-- The extension word of an indexed address. Relative to the program counter, `refAddr` is what
the displacement is added to. -/
def decodeBriefExt (name : Text) (refAddr : Option Int) : Reader Text := do
  let ext ← word
  let da := if ext &&& 0x8000 ≠ 0 then 'A' else 'D'
  let xreg := (ext >>> 12) &&& 7
  let wl := if ext &&& 0x0800 ≠ 0 then ".L".toList else ".W".toList
  let low : Int := (ext &&& 0xFF : Nat)
  let disp := if low ≥ 0x80 then low - 0x100 else low
  let tail := '(' :: name ++ ',' :: da :: dec xreg ++ wl ++ ")".toList
  return match refAddr with
    | some target => '$' :: formatX 8 (target + disp) ++ tail
    | none => Py.str disp ++ tail

/-- An effective address, where `pcAddr` is the address of its extension words. -/
def decodeEa (mode reg size : Nat) (pcAddr : Int) : Reader Text :=
  match mode with
  | 0 => return 'D' :: dec reg
  | 1 => return 'A' :: dec reg
  | 2 => return "(A".toList ++ dec reg ++ ")".toList
  | 3 => return "(A".toList ++ dec reg ++ ")+".toList
  | 4 => return "-(A".toList ++ dec reg ++ ")".toList
  | 5 => do
    let d16 ← sword
    let text := Py.str d16 ++ "(A".toList ++ dec reg ++ ")".toList
    return match (if reg = 6 ∧ d16 < 0 then lvoName d16 else none) with
      | some lvo => text ++ "  ; ".toList ++ lvo
      | none => text
  | 6 => decodeBriefExt ('A' :: dec reg) none
  | 7 =>
    match reg with
    | 0 => do
      let a ← sword
      return '$' :: formatX 4 (a % 0x10000) ++ ".W".toList
    | 1 => do
      let a ← long
      return '$' :: formatX 8 a
    | 2 => do
      let d16 ← sword
      return '$' :: formatX 8 (pcAddr + d16) ++ "(PC)".toList
    | 3 => decodeBriefExt "PC".toList (some pcAddr)
    | 4 =>
      match size with
      | 0 => do
        let val ← word
        return "#$".toList ++ formatX 2 (val &&& 0xFF : Nat)
      | 1 => do
        let val ← word
        return "#$".toList ++ formatX 4 val
      | _ => do
        let val ← long
        return "#$".toList ++ formatX 8 val
    | _ => return "???".toList
  | _ => return "???".toList

/-- The address in the lower six bits of an operation word. -/
def decodeEaFromWord (base : Int) (opword size : Nat) : Reader Text := do
  let pcAddr ← addr base
  decodeEa ((opword >>> 3) &&& 7) (opword &&& 7) size pcAddr

/-! ### Register lists -/

/-- The last register of a run that has begun at `i`. -/
def runEnd (mask baseBit : Nat) : Nat → Nat → Nat
  | 0, i => i
  | turns + 1, i =>
    if i < 7 ∧ mask.testBit (baseBit + i + 1) then runEnd mask baseBit turns (i + 1) else i

/-- The runs of registers from `i` on. -/
def registerRuns (letter : Char) (mask baseBit : Nat) : Nat → Nat → List Text
  | 0, _ => []
  | turns + 1, i =>
    if mask.testBit (baseBit + i) then
      let stop := runEnd mask baseBit 7 i
      let run := if stop > i then letter :: dec i ++ '-' :: letter :: dec stop else letter :: dec i
      run :: registerRuns letter mask baseBit (turns - (stop - i)) (stop + 1)
    else registerRuns letter mask baseBit turns (i + 1)

/-- The registers of a mask, which a predecrement address reverses. -/
def movemReglist (mask : Nat) (reverse : Bool) : Text :=
  let mask := if reverse then
      (List.range 16).foldl (fun m i => if mask.testBit i then m ||| 1 <<< (15 - i) else m) 0
    else mask
  let regs := registerRuns 'D' mask 0 8 0 ++ registerRuns 'A' mask 8 8 0
  if regs.isEmpty then "0".toList else ['/'].intercalate regs

end AmigaDevbench.Disasm
