import AmigaDevbench.Core.BigEndian

/-!
# The instructions of the 68000

What an assembler may write: every instruction with its operands, its operation word, the words
behind it and its mnemonic. An operand carries the proof that the instruction allows its addressing
mode, so only valid instructions can be written down. Nothing here refers to the disassembler.
-/

namespace AmigaDevbench.M68000

abbrev Word := BitVec 16

abbrev Reg := Fin 8

inductive Size where
  | byte
  | word
  | long

namespace Size

/-- The size field of most operation words. -/
def code : Size → Nat
  | byte => 0
  | word => 1
  | long => 2

/-- The size field of `MOVE`. -/
def moveCode : Size → Nat
  | byte => 1
  | word => 3
  | long => 2

def suffix : Size → Text
  | byte => ".B".toList
  | word => ".W".toList
  | long => ".L".toList

/-- The number of words that immediate data takes. -/
def words : Size → Nat
  | long => 2
  | _ => 1

def ofLong (long : Bool) : Size := if long then .long else .word

end Size

/-! ### Operands -/

/-- An effective address with its extension words. -/
inductive Ea where
  | dataReg (r : Reg)
  | addrReg (r : Reg)
  | indirect (r : Reg)
  | postincrement (r : Reg)
  | predecrement (r : Reg)
  | displacement (r : Reg) (d : Word)
  | index (r : Reg) (x : Word)
  | absShort (a : Word)
  | absLong (hi lo : Word)
  | pcDisplacement (d : Word)
  | pcIndex (x : Word)
  | immediate (data : List Word)

namespace Ea

def mode : Ea → Nat
  | dataReg _ => 0
  | addrReg _ => 1
  | indirect _ => 2
  | postincrement _ => 3
  | predecrement _ => 4
  | displacement _ _ => 5
  | index _ _ => 6
  | _ => 7

def reg : Ea → Nat
  | dataReg r | addrReg r | indirect r | postincrement r | predecrement r => r
  | displacement r _ | index r _ => r
  | absShort _ => 0
  | absLong _ _ => 1
  | pcDisplacement _ => 2
  | pcIndex _ => 3
  | immediate _ => 4

/-- The lower six bits of an operation word. -/
def field (ea : Ea) : Nat := 8 * ea.mode + ea.reg

def extension : Ea → List Word
  | displacement _ d | pcDisplacement d => [d]
  | index _ x | pcIndex x => [x]
  | absShort a => [a]
  | absLong hi lo => [hi, lo]
  | immediate data => data
  | _ => []

/-- Address registers have no bytes, and immediate data is of the size of the operation. -/
def fits (size : Size) : Ea → Bool
  | addrReg _ => match size with
    | .byte => false
    | _ => true
  | immediate data => data.length = size.words
  | _ => true

/-! The categories of addressing modes. -/

def any : Ea → Bool := fun _ => true

def data : Ea → Bool
  | addrReg _ => false
  | _ => true

def memory : Ea → Bool
  | dataReg _ | addrReg _ => false
  | _ => true

def control : Ea → Bool
  | indirect _ | displacement _ _ | index _ _ | absShort _ | absLong _ _ => true
  | pcDisplacement _ | pcIndex _ => true
  | _ => false

def alterable : Ea → Bool
  | pcDisplacement _ | pcIndex _ | immediate _ => false
  | _ => true

def dataAlterable (ea : Ea) : Bool := ea.data && ea.alterable

def memoryAlterable (ea : Ea) : Bool := ea.memory && ea.alterable

/-- What a bit can be tested in, where the bit number takes the place of immediate data. -/
def bitSource : Ea → Bool
  | addrReg _ | immediate _ => false
  | _ => true

/-- Where registers can be stored to. -/
def storable : Ea → Bool
  | predecrement _ => true
  | ea => ea.control && ea.alterable

/-- Where registers can be loaded from. -/
def loadable : Ea → Bool
  | postincrement _ => true
  | ea => ea.control

end Ea

/-- An operand of a size, of one of the addressing modes that are allowed. -/
structure Operand (size : Size) (allowed : Ea → Bool) where
  ea : Ea
  fits : ea.fits size = true
  allowed : allowed ea = true

/-- Immediate data of a size. -/
structure Literal (size : Size) where
  data : List Word
  fits : data.length = size.words

/-! ### Operations -/

inductive ImmediateOp where
  | ori | andi | subi | addi | eori | cmpi

namespace ImmediateOp

def code : ImmediateOp → Nat
  | ori => 0
  | andi => 1
  | subi => 2
  | addi => 3
  | eori => 5
  | cmpi => 6

def name : ImmediateOp → Text
  | ori => "ORI".toList
  | andi => "ANDI".toList
  | subi => "SUBI".toList
  | addi => "ADDI".toList
  | eori => "EORI".toList
  | cmpi => "CMPI".toList

end ImmediateOp

/-- The immediate operations on the status register. -/
inductive LogicOp where
  | ori | andi | eori

namespace LogicOp

def code : LogicOp → Nat
  | ori => 0
  | andi => 1
  | eori => 5

def name : LogicOp → Text
  | ori => "ORI".toList
  | andi => "ANDI".toList
  | eori => "EORI".toList

end LogicOp

inductive BitOp where
  | btst | bchg | bclr | bset

namespace BitOp

def code : BitOp → Nat
  | btst => 0
  | bchg => 1
  | bclr => 2
  | bset => 3

def name : BitOp → Text
  | btst => "BTST".toList
  | bchg => "BCHG".toList
  | bclr => "BCLR".toList
  | bset => "BSET".toList

/-- With the bit number in a register, immediate data can be tested as well. -/
def dynamicTarget : BitOp → Ea → Bool
  | btst => Ea.data
  | _ => Ea.dataAlterable

def staticTarget : BitOp → Ea → Bool
  | btst => Ea.bitSource
  | _ => Ea.dataAlterable

end BitOp

inductive UnaryOp where
  | negx | clr | neg | not | tst

namespace UnaryOp

def opword : UnaryOp → Nat
  | negx => 0x4000
  | clr => 0x4200
  | neg => 0x4400
  | not => 0x4600
  | tst => 0x4A00

def name : UnaryOp → Text
  | negx => "NEGX".toList
  | clr => "CLR".toList
  | neg => "NEG".toList
  | not => "NOT".toList
  | tst => "TST".toList

end UnaryOp

/-- Instructions without operands. -/
inductive SimpleOp where
  | reset | nop | rte | rts | trapv | rtr | illegal

namespace SimpleOp

def opword : SimpleOp → Nat
  | reset => 0x4E70
  | nop => 0x4E71
  | rte => 0x4E73
  | rts => 0x4E75
  | trapv => 0x4E76
  | rtr => 0x4E77
  | illegal => 0x4AFC

def name : SimpleOp → Text
  | reset => "RESET".toList
  | nop => "NOP".toList
  | rte => "RTE".toList
  | rts => "RTS".toList
  | trapv => "TRAPV".toList
  | rtr => "RTR".toList
  | illegal => "ILLEGAL".toList

end SimpleOp

/-- Operations on an effective address and a data register. -/
inductive RegisterOp where
  | or | sub | cmp | and | add

namespace RegisterOp

def code : RegisterOp → Nat
  | or => 0x8
  | sub => 0x9
  | cmp => 0xB
  | and => 0xC
  | add => 0xD

def name : RegisterOp → Text
  | or => "OR".toList
  | sub => "SUB".toList
  | cmp => "CMP".toList
  | and => "AND".toList
  | add => "ADD".toList

def source : RegisterOp → Ea → Bool
  | or | and => Ea.data
  | _ => Ea.any

end RegisterOp

/-- Operations of a data register on an effective address. -/
inductive MemoryOp where
  | or | sub | eor | and | add

namespace MemoryOp

def code : MemoryOp → Nat
  | or => 0x8
  | sub => 0x9
  | eor => 0xB
  | and => 0xC
  | add => 0xD

def name : MemoryOp → Text
  | or => "OR".toList
  | sub => "SUB".toList
  | eor => "EOR".toList
  | and => "AND".toList
  | add => "ADD".toList

def target : MemoryOp → Ea → Bool
  | eor => Ea.dataAlterable
  | _ => Ea.memoryAlterable

end MemoryOp

/-- Operations on an address register. -/
inductive AddressOp where
  | suba | cmpa | adda

namespace AddressOp

def code : AddressOp → Nat
  | suba => 0x9
  | cmpa => 0xB
  | adda => 0xD

def name : AddressOp → Text
  | suba => "SUBA".toList
  | cmpa => "CMPA".toList
  | adda => "ADDA".toList

end AddressOp

inductive MulDivOp where
  | divu | divs | mulu | muls

namespace MulDivOp

def opword : MulDivOp → Nat
  | divu => 0x80C0
  | divs => 0x81C0
  | mulu => 0xC0C0
  | muls => 0xC1C0

def name : MulDivOp → Text
  | divu => "DIVU.W".toList
  | divs => "DIVS.W".toList
  | mulu => "MULU.W".toList
  | muls => "MULS.W".toList

end MulDivOp

/-- Decimal operations. -/
inductive DecimalOp where
  | sbcd | abcd

namespace DecimalOp

def opword : DecimalOp → Nat
  | sbcd => 0x8100
  | abcd => 0xC100

def name : DecimalOp → Text
  | sbcd => "SBCD".toList
  | abcd => "ABCD".toList

end DecimalOp

inductive ExtendedOp where
  | subx | addx

namespace ExtendedOp

def opword : ExtendedOp → Nat
  | subx => 0x9100
  | addx => 0xD100

def name : ExtendedOp → Text
  | subx => "SUBX".toList
  | addx => "ADDX".toList

end ExtendedOp

/-- Two data registers, two address registers, or one of each. -/
inductive Exchange where
  | data | address | mixed

def Exchange.opword : Exchange → Nat
  | data => 0xC140
  | address => 0xC148
  | mixed => 0xC188

inductive ShiftOp where
  | arithmetic | logical | rotateExtended | rotate

namespace ShiftOp

def code : ShiftOp → Nat
  | arithmetic => 0
  | logical => 1
  | rotateExtended => 2
  | rotate => 3

def name (op : ShiftOp) (left : Bool) : Text :=
  let stem := match op with
    | arithmetic => "AS".toList
    | logical => "LS".toList
    | rotateExtended => "ROX".toList
    | rotate => "RO".toList
  stem ++ [if left then 'L' else 'R']

end ShiftOp

/-- The conditions in the order of their codes. -/
def conditions : List Text :=
  ["T".toList, "F".toList, "HI".toList, "LS".toList, "CC".toList, "CS".toList, "NE".toList,
    "EQ".toList, "VC".toList, "VS".toList, "PL".toList, "MI".toList, "GE".toList, "LT".toList,
    "GT".toList, "LE".toList]

def conditionName (cc : Fin 16) : Text := conditions.getD cc []

/-- A branch has its own names for the conditions that are always and never true. -/
def branchName (cc : Fin 16) : Text :=
  if cc.val = 0 then "BRA".toList
  else if cc.val = 1 then "BSR".toList
  else 'B' :: conditionName cc

/-! ### Instructions -/

/-- The instructions. The distance of a short branch is neither `00`, which announces a word, nor
`FF`, which announces a longword on later processors and would lead to an odd address on this
one. -/
inductive Instruction where
  | immediate (op : ImmediateOp) (size : Size) (imm : Literal size)
      (dst : Operand size Ea.dataAlterable)
  | logicCcr (op : LogicOp) (imm : Word)
  | logicSr (op : LogicOp) (imm : Word)
  | bitDynamic (op : BitOp) (d : Reg) (dst : Operand .byte op.dynamicTarget)
  | bitStatic (op : BitOp) (n : Word) (dst : Operand .byte op.staticTarget)
  | movep (store long : Bool) (d a : Reg) (disp : Word)
  | move (size : Size) (src : Operand size Ea.any) (dst : Operand size Ea.dataAlterable)
  | movea (long : Bool) (src : Operand (.ofLong long) Ea.any) (a : Reg)
  | unary (op : UnaryOp) (size : Size) (dst : Operand size Ea.dataAlterable)
  | moveFromSr (dst : Operand .word Ea.dataAlterable)
  | moveToCcr (src : Operand .word Ea.data)
  | moveToSr (src : Operand .word Ea.data)
  | nbcd (dst : Operand .byte Ea.dataAlterable)
  | tas (dst : Operand .byte Ea.dataAlterable)
  | swap (d : Reg)
  | ext (long : Bool) (d : Reg)
  | pea (src : Operand .long Ea.control)
  | lea (a : Reg) (src : Operand .long Ea.control)
  | jsr (target : Operand .long Ea.control)
  | jmp (target : Operand .long Ea.control)
  | chk (d : Reg) (src : Operand .word Ea.data)
  | movemStore (long : Bool) (mask : Word) (dst : Operand (.ofLong long) Ea.storable)
  | movemLoad (long : Bool) (mask : Word) (src : Operand (.ofLong long) Ea.loadable)
  | trap (vector : Fin 16)
  | link (a : Reg) (disp : Word)
  | unlk (a : Reg)
  | moveUsp (fromUsp : Bool) (a : Reg)
  | simple (op : SimpleOp)
  | stop (imm : Word)
  | quick (subtract : Bool) (n : Fin 8) (size : Size) (dst : Operand size Ea.alterable)
  | scc (cc : Fin 16) (dst : Operand .byte Ea.dataAlterable)
  | dbcc (cc : Fin 16) (d : Reg) (disp : Word)
  | branchShort (cc : Fin 16) (disp : Fin 256) (h : disp.val ≠ 0 ∧ disp.val ≠ 255)
  | branchWord (cc : Fin 16) (disp : Word)
  | moveq (d : Reg) (n : Fin 256)
  | toRegister (op : RegisterOp) (size : Size) (d : Reg) (src : Operand size op.source)
  | toMemory (op : MemoryOp) (size : Size) (d : Reg) (dst : Operand size op.target)
  | address (op : AddressOp) (long : Bool) (a : Reg) (src : Operand (.ofLong long) Ea.any)
  | mulDiv (op : MulDivOp) (d : Reg) (src : Operand .word Ea.data)
  | decimal (op : DecimalOp) (memory : Bool) (y x : Reg)
  | extended (op : ExtendedOp) (size : Size) (memory : Bool) (y x : Reg)
  | cmpm (size : Size) (y x : Reg)
  | exg (kind : Exchange) (x y : Reg)
  | shiftRegister (op : ShiftOp) (left : Bool) (size : Size) (byRegister : Bool) (count : Fin 8)
      (d : Reg)
  | shiftMemory (op : ShiftOp) (left : Bool) (dst : Operand .word Ea.memoryAlterable)

namespace Instruction

def opword : Instruction → Nat
  | immediate op size _ dst => 0x200 * op.code + 0x40 * size.code + dst.ea.field
  | logicCcr op _ => 0x003C + 0x200 * op.code
  | logicSr op _ => 0x007C + 0x200 * op.code
  | bitDynamic op d dst => 0x0100 + 0x200 * d + 0x40 * op.code + dst.ea.field
  | bitStatic op _ dst => 0x0800 + 0x40 * op.code + dst.ea.field
  | movep store long d a _ => 0x0108 + 0x200 * d + 0x80 * store.toNat + 0x40 * long.toNat + a
  | move size src dst =>
    0x1000 * size.moveCode + 0x200 * dst.ea.reg + 0x40 * dst.ea.mode + src.ea.field
  | movea long src a => 0x0040 + 0x1000 * (Size.ofLong long).moveCode + 0x200 * a + src.ea.field
  | unary op size dst => op.opword + 0x40 * size.code + dst.ea.field
  | moveFromSr dst => 0x40C0 + dst.ea.field
  | moveToCcr src => 0x44C0 + src.ea.field
  | moveToSr src => 0x46C0 + src.ea.field
  | nbcd dst => 0x4800 + dst.ea.field
  | tas dst => 0x4AC0 + dst.ea.field
  | swap d => 0x4840 + d
  | ext long d => 0x4880 + 0x40 * long.toNat + d
  | pea src => 0x4840 + src.ea.field
  | lea a src => 0x41C0 + 0x200 * a + src.ea.field
  | jsr target => 0x4E80 + target.ea.field
  | jmp target => 0x4EC0 + target.ea.field
  | chk d src => 0x4180 + 0x200 * d + src.ea.field
  | movemStore long _ dst => 0x4880 + 0x40 * long.toNat + dst.ea.field
  | movemLoad long _ src => 0x4C80 + 0x40 * long.toNat + src.ea.field
  | trap vector => 0x4E40 + vector
  | link a _ => 0x4E50 + a
  | unlk a => 0x4E58 + a
  | moveUsp fromUsp a => 0x4E60 + 8 * fromUsp.toNat + a
  | simple op => op.opword
  | stop _ => 0x4E72
  | quick subtract n size dst =>
    0x5000 + 0x200 * n + 0x100 * subtract.toNat + 0x40 * size.code + dst.ea.field
  | scc cc dst => 0x50C0 + 0x100 * cc + dst.ea.field
  | dbcc cc d _ => 0x50C8 + 0x100 * cc + d
  | branchShort cc disp _ => 0x6000 + 0x100 * cc + disp
  | branchWord cc _ => 0x6000 + 0x100 * cc
  | moveq d n => 0x7000 + 0x200 * d + n
  | toRegister op size d src => 0x1000 * op.code + 0x200 * d + 0x40 * size.code + src.ea.field
  | toMemory op size d dst =>
    0x0100 + 0x1000 * op.code + 0x200 * d + 0x40 * size.code + dst.ea.field
  | address op long a src =>
    0x00C0 + 0x1000 * op.code + 0x200 * a + 0x100 * long.toNat + src.ea.field
  | mulDiv op d src => op.opword + 0x200 * d + src.ea.field
  | decimal op memory y x => op.opword + 0x200 * x + 8 * memory.toNat + y
  | extended op size memory y x => op.opword + 0x200 * x + 0x40 * size.code + 8 * memory.toNat + y
  | cmpm size y x => 0xB108 + 0x200 * x + 0x40 * size.code + y
  | exg kind x y => kind.opword + 0x200 * x + y
  | shiftRegister op left size byRegister count d =>
    0xE000 + 0x200 * count + 0x100 * left.toNat + 0x40 * size.code + 0x20 * byRegister.toNat +
      8 * op.code + d
  | shiftMemory op left dst => 0xE0C0 + 0x200 * op.code + 0x100 * left.toNat + dst.ea.field

/-- `MOVEQ #1,D2` -/
example : (moveq 2 1).opword = 0x7401 := by
  rw [opword]
  rfl

/-- The words behind the operation word. -/
def extension : Instruction → List Word
  | immediate _ _ imm dst => imm.data ++ dst.ea.extension
  | logicCcr _ imm | logicSr _ imm | stop imm => [imm]
  | bitDynamic _ _ dst => dst.ea.extension
  | bitStatic _ n dst => n :: dst.ea.extension
  | movep _ _ _ _ disp | link _ disp | dbcc _ _ disp | branchWord _ disp => [disp]
  | move _ src dst => src.ea.extension ++ dst.ea.extension
  | movea _ src _ => src.ea.extension
  | unary _ _ dst => dst.ea.extension
  | moveFromSr dst => dst.ea.extension
  | moveToCcr src | moveToSr src | chk _ src | mulDiv _ _ src => src.ea.extension
  | nbcd dst | tas dst | scc _ dst => dst.ea.extension
  | pea ea | lea _ ea | jsr ea | jmp ea => ea.ea.extension
  | movemStore _ mask dst => mask :: dst.ea.extension
  | movemLoad _ mask src => mask :: src.ea.extension
  | quick _ _ _ dst => dst.ea.extension
  | toRegister _ _ _ src => src.ea.extension
  | toMemory _ _ _ dst => dst.ea.extension
  | address _ _ _ src => src.ea.extension
  | shiftMemory _ _ dst => dst.ea.extension
  | _ => []

/-- The name, with the size where the name alone leaves it open. -/
def mnemonic : Instruction → Text
  | immediate op size _ _ => op.name ++ size.suffix
  | logicCcr op _ | logicSr op _ => op.name
  | bitDynamic op _ _ => op.name
  | bitStatic op _ _ => op.name
  | movep _ long _ _ _ => "MOVEP".toList ++ (Size.ofLong long).suffix
  | move size _ _ => "MOVE".toList ++ size.suffix
  | movea long _ _ => "MOVEA".toList ++ (Size.ofLong long).suffix
  | unary op size _ => op.name ++ size.suffix
  | moveFromSr _ | moveToCcr _ | moveToSr _ | moveUsp _ _ => "MOVE".toList
  | nbcd _ => "NBCD".toList
  | tas _ => "TAS".toList
  | swap _ => "SWAP".toList
  | ext long _ => "EXT".toList ++ (Size.ofLong long).suffix
  | pea _ => "PEA".toList
  | lea _ _ => "LEA".toList
  | jsr _ => "JSR".toList
  | jmp _ => "JMP".toList
  | chk _ _ => "CHK.W".toList
  | movemStore long _ _ => "MOVEM".toList ++ (Size.ofLong long).suffix
  | movemLoad long _ _ => "MOVEM".toList ++ (Size.ofLong long).suffix
  | trap _ => "TRAP".toList
  | link _ _ => "LINK".toList
  | unlk _ => "UNLK".toList
  | simple op => op.name
  | stop _ => "STOP".toList
  | quick subtract _ size _ => (if subtract then "SUBQ".toList else "ADDQ".toList) ++ size.suffix
  | scc cc _ => 'S' :: conditionName cc
  | dbcc cc _ _ => "DB".toList ++ conditionName cc
  | branchShort cc _ _ => branchName cc ++ ".S".toList
  | branchWord cc _ => branchName cc ++ ".W".toList
  | moveq _ _ => "MOVEQ".toList
  | toRegister op size _ _ => op.name ++ size.suffix
  | toMemory op size _ _ => op.name ++ size.suffix
  | address op long _ _ => op.name ++ (Size.ofLong long).suffix
  | mulDiv op _ _ => op.name
  | decimal op _ _ _ => op.name
  | extended op size _ _ _ => op.name ++ size.suffix
  | cmpm size _ _ => "CMPM".toList ++ size.suffix
  | exg _ _ _ => "EXG".toList
  | shiftRegister op left size _ _ _ => op.name left ++ size.suffix
  | shiftMemory op left _ => op.name left

end Instruction

/-- Words as they lie in memory. -/
def wordBytes (ws : List Word) : Bytes := ws.flatMap fun w => Bytes.bigEndian 2 w.toNat

/-- An instruction as it lies in memory. -/
def Instruction.bytes (i : Instruction) : Bytes :=
  Bytes.bigEndian 2 i.opword ++ wordBytes i.extension

/-- Instructions one behind the other. -/
def layout (is : List Instruction) : Bytes := is.flatMap Instruction.bytes

/-- Where each instruction begins, its length and its mnemonic. -/
def boundaries : Int → List Instruction → List (Int × Nat × Text)
  | _, [] => []
  | address, i :: is =>
    (address, i.bytes.length, i.mnemonic) :: boundaries (address + i.bytes.length) is

end AmigaDevbench.M68000
