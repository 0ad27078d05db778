import AmigaDevbench.Core.Returns
import AmigaDevbench.Host.Winuae.Dwarf.Expression

/-!
# DWARF types

The debug data are a graph of entries that refer to each other. The helper follows the references
under budgets of its own; what it returns is compared with relations that have none.
-/

namespace AmigaDevbench.Winuae

namespace Dwarf

open Raises Bytes

/-- The tags that the helper tells apart, without `DW_TAG_`. -/
inductive Tag where
  | typedef | constType | volatileType | restrictType | atomicType
  | pointerType | arrayType | subrangeType | structureType | unionType | member
  | baseType | enumerationType | variable | formalParameter
  | subprogram | inlinedSubroutine | lexicalBlock
  | other (name : String)
  deriving DecidableEq

def Tag.name : Tag → String
  | .typedef => "DW_TAG_typedef"
  | .constType => "DW_TAG_const_type"
  | .volatileType => "DW_TAG_volatile_type"
  | .restrictType => "DW_TAG_restrict_type"
  | .atomicType => "DW_TAG_atomic_type"
  | .pointerType => "DW_TAG_pointer_type"
  | .arrayType => "DW_TAG_array_type"
  | .subrangeType => "DW_TAG_subrange_type"
  | .structureType => "DW_TAG_structure_type"
  | .unionType => "DW_TAG_union_type"
  | .member => "DW_TAG_member"
  | .baseType => "DW_TAG_base_type"
  | .enumerationType => "DW_TAG_enumeration_type"
  | .variable => "DW_TAG_variable"
  | .formalParameter => "DW_TAG_formal_parameter"
  | .subprogram => "DW_TAG_subprogram"
  | .inlinedSubroutine => "DW_TAG_inlined_subroutine"
  | .lexicalBlock => "DW_TAG_lexical_block"
  | .other name => name

/-- The tags that `canonical` looks through. -/
def Tag.isQualifier (tag : Tag) : Bool :=
  tag ∈ [.typedef, .constType, .volatileType, .restrictType, .atomicType]

/-- The value of an attribute: an integer, a Boolean, or anything else. -/
inductive Number where
  | int (n : Int)
  | flag
  | other

/-- An attribute that has a form of the class `constant`, or another one. -/
inductive Constant where
  | value (n : Int)
  | dynamic

/-- The attribute `DW_AT_high_pc`, by the class of its form. -/
inductive HighPc where
  | address (n : Int)
  | offset (n : Int)

/-- A debugging information entry. Location, frame base and ranges are places in the debug data. -/
structure Die (ι : Type) where
  tag : Tag
  name : Option Text
  type : Option ι
  abstractOrigin : Option ι
  specification : Option ι
  byteSize : Option Number
  byteStride : Option Constant
  /-- There is a `DW_AT_bit_stride`. -/
  bitStride : Bool
  lowerBound : Option Constant
  upperBound : Option Constant
  count : Option Constant
  encoding : Option Int
  dataMemberLocation : Option Number
  /-- There is a `DW_AT_bit_size`, `DW_AT_bit_offset` or `DW_AT_data_bit_offset`. -/
  bitfield : Bool
  /-- There is a `DW_AT_declaration`. -/
  declaration : Bool
  lowPc : Option Int
  highPc : Option HighPc
  ranges : Option Nat
  location : Option Nat
  frameBase : Option Nat
  parent : Option ι
  children : List ι

/-- The entries under their offsets. -/
structure Graph (ι : Type) where
  die : ι → Die ι

namespace Graph

variable {ι : Type} (g : Graph ι)

/-- An entry without attributes and relations. -/
def blank (tag : Tag) : Die ι where
  tag := tag
  name := none
  type := none
  abstractOrigin := none
  specification := none
  byteSize := none
  byteStride := none
  bitStride := false
  lowerBound := none
  upperBound := none
  count := none
  encoding := none
  dataMemberLocation := none
  bitfield := false
  declaration := false
  lowPc := none
  highPc := none
  ranges := none
  location := none
  frameBase := none
  parent := none
  children := []

/-- The step of the loop in `attribute`. -/
def follow {α : Type} (search : ι → Except Raised (Option α)) (reference : Option ι) :
    Except Raised (Option α) :=
  match reference with
  | some die => search die
  | none => .ok none

/-- `attribute` for the attribute that `own` takes of an entry. The second argument is
`17 - depth`. -/
def attributeIn {α : Type} (own : Die ι → Option α) : Nat → ι → Except Raised (Option α)
  | 0, _ => .error (valueError "Cyclic abstract origin or specification")
  | left + 1, die =>
    match own (g.die die) with
    | some value => .ok (some value)
    | none => do
      match ← follow (attributeIn own left) (g.die die).abstractOrigin with
      | some value => return some value
      | none => follow (attributeIn own left) (g.die die).specification

def attributeOf {α : Type} (die : ι) (own : Die ι → Option α) : Except Raised (Option α) :=
  g.attributeIn own 17 die

/-- `name`. -/
def name (die : ι) : Except Raised (Option Text) := g.attributeOf die Die.name

/-- `type_of`. The first argument is `17 - depth`. -/
def typeOfIn : Nat → ι → Except Raised ι
  | 0, _ => .error (valueError "Cyclic type reference")
  | left + 1, die =>
    match (g.die die).type with
    | some type => .ok type
    | none =>
      match (g.die die).abstractOrigin with
      | some next => typeOfIn left next
      | none =>
        match (g.die die).specification with
        | some next => typeOfIn left next
        | none => .error (valueError "Missing type information")

def typeOf (die : ι) : Except Raised ι := g.typeOfIn 17 die

/-- The loop of `canonical`. The first argument is `17 - len(seen)`. -/
def canonicalIn [DecidableEq ι] : Nat → List ι → ι → Except Raised ι
  | 0, _, die =>
    if (g.die die).tag.isQualifier then .error (valueError "Cyclic type") else .ok die
  | left + 1, seen, die =>
    if (g.die die).tag.isQualifier then
      if die ∈ seen then .error (valueError "Cyclic type")
      else do
        let next ← g.typeOf die
        canonicalIn left (die :: seen) next
    else .ok die

/-- `canonical`. -/
def canonical [DecidableEq ι] (die : ι) : Except Raised ι := g.canonicalIn 17 [] die

/-- `constant`, without its default. -/
def constant (attr : Option Constant) : Except Raised (Option Int) :=
  match attr with
  | none => .ok none
  | some (.value n) => .ok (some n)
  | some .dynamic => .error (valueError "Dynamic array bound or stride is unsupported")

/-- The count of a subrange in `array`. -/
def countOf (sub : Die ι) (low : Int) : Except Raised Int := do
  match ← constant sub.count with
  | some count => return count
  | none =>
    match ← constant sub.upperBound with
    | some high => return high - low + 1
    | none => throw (valueError "Unknown array bound")

/-- `array` up to the stride: the element, the lower bound, the count and the stride if it is
given. -/
def arrayBounds (die : ι) : Except Raised (ι × Int × Int × Option Int) := do
  let element ← g.typeOf die
  match (g.die die).children.filter fun d => (g.die d).tag = .subrangeType with
  | [sub] =>
    let low := (← constant (g.die sub).lowerBound).getD 0
    let count ← countOf (g.die sub) low
    let _ ← checked count 1048576
    let stride ← constant (g.die die).byteStride
    if (g.die die).bitStride then throw (valueError "Bit-strided arrays are unsupported")
    else return (element, low, count, stride)
  | _ => throw (valueError "Only one-dimensional array types are supported")

/-- The stride in `array`. -/
def strideOf (size : ι → Except Raised Int) (element : ι) (given : Option Int) :
    Except Raised Int :=
  match given with
  | some stride => .ok stride
  | none => size element

/-- `array`. The first argument is what it calls for `self.size`. -/
def arrayWith (size : ι → Except Raised Int) (die : ι) :
    Except Raised (ι × Int × Int × Int) := do
  let (element, low, count, given) ← g.arrayBounds die
  let stride ← strideOf size element given
  if stride < (← size element) then throw (valueError "Invalid array stride")
  else return (element, low, count, stride)

/-- `size` within a call stack that takes `frames` calls of it inside each other. -/
def size [DecidableEq ι] (frames : Nat) (die : ι) (depth : Nat) : Except Raised Int :=
  match frames with
  | 0 => .error ⟨.runtimeError, "maximum recursion depth exceeded"⟩
  | frames + 1 =>
    if depth > 16 then .error (valueError "Type nesting budget exceeded")
    else do
      let die ← g.canonical die
      match (g.die die).byteSize with
      | some (.int n) => checked n (16 * 1024 * 1024)
      | some _ => throw (valueError "Invalid address, size or DWARF constant")
      | none =>
        if (g.die die).tag = .pointerType then return 4
        else if (g.die die).tag = .arrayType then do
          let (_, _, count, stride) ← g.arrayWith (fun element => size frames element 0) die
          checked (count * stride) (16 * 1024 * 1024)
        else throw (valueError "Unknown type size")

section Calls

variable [DecidableEq ι] (frames : Nat)

/-- `size` as its callers call it. -/
def sizeOf (die : ι) : Except Raised Int := g.size frames die 0

/-- `array`. -/
def array (die : ι) : Except Raised (ι × Int × Int × Int) := g.arrayWith (g.sizeOf frames) die

/-- The members of a type with their names. -/
def namedMembers (die : ι) : Except Raised (List (ι × Option Text)) :=
  ((g.die die).children.filter fun d => (g.die d).tag = .member).mapM fun d => do
    return (d, ← g.name d)

/-- The offset of a member in `member`. -/
def memberOffset (die member : ι) : Except Raised Int :=
  match (g.die member).dataMemberLocation with
  | some (.int n) => checked n 0xffffffff
  | some .flag => .error (valueError "Invalid address, size or DWARF constant")
  | some .other => .error (valueError "Nonconstant member location is unsupported")
  | none =>
    if (g.die die).tag = .unionType then .ok 0
    else .error (valueError "Nonconstant member location is unsupported")

/-- `member`. -/
def member (die : ι) (name : Text) : Except Raised (ι × Int) := do
  match (← g.namedMembers die).filter fun d => d.2 = some name with
  | [(member, _)] =>
    if (g.die member).bitfield then throw (valueError "Bitfield inspection is unsupported")
    else do
      let offset ← g.memberOffset die member
      let child ← g.typeOf member
      if offset + (← g.sizeOf frames child) > (← g.sizeOf frames die) then
        throw (valueError "Member exceeds containing type")
      else return (child, offset)
  | _ => throw (valueError ("No unique named member: " ++ String.ofList name))

end Calls

end Graph

/-- A decoded value. A float is given by its IEEE writing. -/
inductive Decoded where
  | int (n : Int)
  | text (s : Text)
  | float (writing : Bytes)
  | address (n : Nat)
  | array (lowerBound : Int) (elements : List Decoded)
  | record (fields : List (Text × Decoded))

/-- `int.from_bytes(data, 'big', signed=signed)`. -/
def fromBytes (data : Bytes) (signed : Bool) : Int :=
  let n := fromBigEndian data
  if signed ∧ 256 ^ data.length ≤ 2 * n then (n : Int) - 256 ^ data.length else n

/-- A number of a base type in `decode`. -/
def decodeNumber (encoding : Option Int) (data : Bytes) : Except Raised Decoded :=
  match encoding with
  | none => .error (valueError "Unsupported base-type encoding")
  | some encoding =>
    if encoding ∈ [2, 5, 6, 7, 8] then
      let value := fromBytes data (encoding ∈ [5, 6])
      .ok (if data.length > 4 then .text (Py.str value) else .int value)
    else if encoding = 4 ∧ (data.length = 4 ∨ data.length = 8) then .ok (.float data)
    else .error (valueError "Unsupported base-type encoding")

/-- Code that counts `value_nodes`. -/
abbrev Expansion := Raises Raised Nat

namespace Graph

variable {ι : Type} (g : Graph ι) [DecidableEq ι] (frames : Nat)

/-- `data[start:start + size]`. -/
def part (data : Bytes) (start size : Int) : Bytes := (data.drop start.toNat).take size.toNat

/-- The elements of an array in `decode`, with what it calls for `self.decode`. -/
def decodeElements (decode : ι → Bytes → Expansion Decoded) (die : ι) (data : Bytes) :
    Expansion Decoded := do
  let (element, low, count, stride) ← liftExcept (g.array frames die)
  if count > 64 then throw (valueError "Array exceeds 64 elements; select an index")
  else do
    let elements ← (List.range count.toNat).mapM fun (i : Nat) => do
      let size ← liftExcept (g.sizeOf frames element)
      decode element (part data (i * stride) size)
    return .array low elements

/-- A member in `decode`. -/
def decodeMember (decode : ι → Bytes → Expansion Decoded) (die : ι) (data : Bytes) (d : ι) :
    Expansion (Text × Decoded) := do
  match ← liftExcept (g.name d) with
  | none | some [] => throw (valueError "Anonymous member expansion is unsupported")
  | some name =>
    let (child, offset) ← liftExcept (g.member frames die name)
    let size ← liftExcept (g.sizeOf frames child)
    return (name, ← decode child (part data offset size))

/-- The members of a structure or union in `decode`. -/
def decodeMembers (decode : ι → Bytes → Expansion Decoded) (die : ι) (data : Bytes) :
    Expansion Decoded := do
  let members := (g.die die).children.filter fun d => (g.die d).tag = .member
  if members.length > 64 then throw (valueError "Too many members; select a member")
  else do
    let fields ← members.mapM (g.decodeMember frames decode die data)
    return .record fields

/-- `decode`. The second argument is `17 - depth`. -/
def decodeIn : Nat → ι → Bytes → Expansion Decoded
  | 0, _, _ => do
    modify (· + 1)
    throw (valueError "Value expansion budget exceeded")
  | left + 1, die, data => do
    modify (· + 1)
    let nodes ← get
    if nodes > 256 then throw (valueError "Value expansion budget exceeded")
    else do
      let die ← liftExcept (g.canonical die)
      let size ← liftExcept (g.sizeOf frames die)
      if data.length ≠ size then throw (valueError "Type size disagrees with value bytes")
      else match (g.die die).tag with
        | .baseType => liftExcept (decodeNumber (g.die die).encoding data)
        | .enumerationType =>
          match (g.die die).encoding with
          | some encoding => liftExcept (decodeNumber (some encoding) data)
          | none =>
            if (g.die die).type.isSome then do
              let type ← liftExcept (g.typeOf die)
              decodeIn left type data
            else throw (valueError "Enumeration signedness is unavailable")
        | .pointerType => return .address (fromBigEndian data)
        | .arrayType => g.decodeElements frames (decodeIn left) die data
        | .structureType => g.decodeMembers frames (decodeIn left) die data
        | .unionType => g.decodeMembers frames (decodeIn left) die data
        | tag => throw (valueError ("Unsupported type: " ++ tag.name))

/-- `decode`. -/
def decode (die : ι) (data : Bytes) : Expansion Decoded := g.decodeIn frames 17 die data

end Graph

end Dwarf

end AmigaDevbench.Winuae
