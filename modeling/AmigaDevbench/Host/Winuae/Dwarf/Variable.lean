import AmigaDevbench.Host.Winuae.Dwarf.SubObjects
import AmigaDevbench.Host.Winuae.Dwarf.Unwind

/-!
# Variables

The helper finds a variable by its name and the scope of the program counter, evaluates its
location and follows the selectors behind the name. The bytes that it reads are the part of the
variable that they name if every element of an array with a size of its own ends within that size.
-/

namespace AmigaDevbench.Winuae

namespace Dwarf

open Raises HunkLoad Bytes

/-- An entry of a location list. -/
inductive LocationEntry where
  | base (address : Int)
  | span (start stop : Int) (absolute : Bool) (expr : Expression)
  | other

/-- What `parse_from_attribute` makes of a location. -/
inductive Location where
  | expression (expr : Expression)
  | list (entries : List LocationEntry)

/-- An entry of a range list. -/
inductive RangeEntry where
  | base (address : Int)
  | span (start stop : Int) (absolute : Bool)

/-- What the helper works on for a variable. -/
structure Inspection (ι : Type) extends Graph ι where
  analysis : Analysis
  /-- All entries in the order of the debug data. -/
  dies : List ι
  /-- `DW_AT_low_pc` of the unit of an entry. -/
  unitLowPc : ι → Option Int
  /-- The location at a place, read for an entry, or the message of its error. -/
  parseLocation : Nat → ι → Except String Location
  /-- The range list at a place, read for an entry, or the message of its error. -/
  rangeList : Nat → ι → Except String (List RangeEntry)
  /-- `\w` -/
  isWord : Char → Bool
  /-- The calls of `size` that the call stack takes inside each other. -/
  frames : Nat

def Operation.isFbreg : Operation → Bool
  | .fbreg _ => true
  | _ => false

/-- `[A-Za-z_]` -/
def isLetter (c : Char) : Bool := c.isAlpha || c == '_'

/-- `[A-Za-z_]\w*` and what is behind it. -/
def identifier (isWord : Char → Bool) : Text → Option (Text × Text)
  | [] => none
  | c :: s => if isLetter c then some (c :: s.takeWhile isWord, s.dropWhile isWord) else none

/-- The selectors of a text of at most so many characters. -/
def selectorsIn (isWord : Char → Bool) : Nat → Text → Option (List Selector)
  | _, [] => some []
  | 0, _ :: _ => none
  | left + 1, '.' :: s =>
    (identifier isWord s).bind fun found =>
      (selectorsIn isWord left found.2).map (Selector.member found.1 :: ·)
  | left + 1, '-' :: '>' :: s =>
    (identifier isWord s).bind fun found =>
      (selectorsIn isWord left found.2).map (Selector.arrow found.1 :: ·)
  | left + 1, '[' :: s =>
    if s.takeWhile Char.isDigit = [] then none
    else match s.dropWhile Char.isDigit with
      | ']' :: rest =>
        (selectorsIn isWord left rest).map
          (Selector.index (Py.digitsVal 10 (s.takeWhile Char.isDigit)) :: ·)
      | _ => none
  | _ + 1, _ :: _ => none

namespace Inspection

variable {ι : Type} (p : Inspection ι)

/-- The pattern of `variable`: the name and the selectors behind it. -/
def parse (expression : Text) : Option (Text × List Selector) :=
  (identifier p.isWord expression).bind fun found =>
    (selectorsIn p.isWord found.2.length found.2).map (found.1, ·)

/-- The loop over the ranges in `contains`. -/
def covers (pc : Int) : Int → List RangeEntry → Bool
  | _, [] => false
  | _, .base address :: entries => covers pc address entries
  | base, .span start stop absolute :: entries =>
    let offset := if absolute then 0 else base
    if start + offset ≤ pc ∧ pc < stop + offset then true else covers pc base entries

/-- `contains`. -/
def contains (die : ι) (pc : Int) : Except Raised (Option Bool) := do
  let lo ← p.attributeOf die Die.lowPc
  let hi ← p.attributeOf die Die.highPc
  match lo, hi with
  | some lo, some (.address stop) => return some (decide (lo ≤ pc ∧ pc < stop))
  | some lo, some (.offset size) => return some (decide (lo ≤ pc ∧ pc < lo + size))
  | _, _ =>
    match ← p.attributeOf die Die.ranges with
    | none => return none
    | some place =>
      let entries ← (p.rangeList place die).mapError valueError
      if entries.length > 65536 then throw (valueError "Range-list budget exceeded")
      else return some (covers pc ((p.unitLowPc die).getD 0) entries)

/-- The expressions of a location list for a program counter. -/
def locationsAt (pc : Int) : Int → List LocationEntry → List Expression
  | _, [] => []
  | _, .base address :: entries => locationsAt pc address entries
  | base, .span start stop absolute expr :: entries =>
    let offset := if absolute then 0 else base
    if start + offset ≤ pc ∧ pc < stop + offset then expr :: locationsAt pc base entries
    else locationsAt pc base entries
  | base, .other :: entries => locationsAt pc base entries

/-- `expression` for the attribute that `own` takes of an entry. -/
def expression (die : ι) (own : Die ι → Option Nat) (name : String) (pc : Int) :
    Except Raised Expression := do
  match ← p.attributeOf die own with
  | none => throw (valueError ("Variable is optimized out or has no " ++ name))
  | some place =>
    match ← (p.parseLocation place die).mapError valueError with
    | .expression expr => return expr
    | .list entries =>
      if entries.length > 65536 then throw (valueError "Location-list budget exceeded")
      else match locationsAt pc ((p.unitLowPc die).getD 0) entries with
        | [expr] => return expr
        | _ => throw (valueError "No unique variable location at this PC")

/-- What the loop over the parents of an entry finds: the function, the depth and whether the
program counter is in every scope. -/
structure Scope (ι : Type) where
  function : Option ι
  depth : Nat
  valid : Bool

/-- The loop over the parents in `variable`. The first argument is `128 - depth`. -/
def scopeOf (pc : Int) : Nat → Option ι → Scope ι → Except Raised (Scope ι)
  | _, none, scope => .ok scope
  | 0, some _, _ => .error (valueError "Scope nesting budget exceeded")
  | left + 1, some parent, scope =>
    let tag := (p.die parent).tag
    if tag = .subprogram ∨ tag = .inlinedSubroutine ∨ tag = .lexicalBlock then do
      let inside ← p.contains parent pc
      scopeOf pc left (p.die parent).parent
        ⟨if tag = .subprogram then some parent else scope.function, scope.depth + 1,
          scope.valid && inside != some false⟩
    else scopeOf pc left (p.die parent).parent { scope with depth := scope.depth + 1 }

/-- The loop over the entries in `variable`. -/
def candidates (name : Text) (pc : Int) : List ι → Except Raised (List (Nat × ι × Option ι))
  | [] => .ok []
  | die :: dies =>
    if (p.die die).tag = .variable ∨ (p.die die).tag = .formalParameter then do
      if (← p.name die) = some name then do
        let scope ← p.scopeOf pc 128 (p.die die).parent ⟨none, 0, true⟩
        let rest ← candidates name pc dies
        if scope.valid ∧ (p.die die).declaration = false then
          return (scope.depth, die, scope.function) :: rest
        else return rest
      else candidates name pc dies
    else candidates name pc dies

/-- The variable of the innermost scope. -/
def find (name : Text) (pc : Int) : Except Raised (ι × Option ι) := do
  let found ← p.candidates name pc p.dies
  match (found.map Prod.fst).max? with
  | none => throw (valueError "Variable not found in the current scope")
  | some deepest =>
    match found.filter fun c => c.1 = deepest with
    | [(_, die, function)] => return (die, function)
    | _ => throw (valueError "Ambiguous variable name")

/-- `frame_rule` in `variable`: a frame without rules has no CFA. -/
def frameCfa : Helper (Option Int) :=
  tryCatch (do
    let (_, cfa, _) ← p.analysis.frameRule p.analysis.pc p.analysis.regs
    return some cfa)
    fun e => if e.error = .valueError then return none else throw e

/-- The CFA and the frame base of a function in `variable`. -/
def frameOf (pc : Int) (needsFrameBase : Bool) : Option ι → Helper (Option Int × Option Int)
  | none => return (none, none)
  | some function => do
    let cfa ← p.frameCfa
    if needsFrameBase then do
      let expr ← liftExcept (p.expression function Die.frameBase "DW_AT_frame_base" pc)
      let (base, _) ← evaluate ⟨p.analysis.maps, p.analysis.guest, p.analysis.regs, cfa, none⟩ expr
      return (cfa, some base)
    else return (cfa, none)

/-- `variable` up to the selectors: the entry of the variable and its location. -/
def locate (name : Text) : Helper (ι × Int × Kind) := do
  let pc ← liftExcept (translate p.analysis.maps p.analysis.pc true)
  let (die, function) ← liftExcept (p.find name pc)
  let expr ← liftExcept (p.expression die Die.location "DW_AT_location" pc)
  let operations ← liftExcept (expr.mapError valueError)
  let (cfa, frameBase) ← p.frameOf pc (operations.any Operation.isFbreg) function
  let (location, kind) ←
    evaluate ⟨p.analysis.maps, p.analysis.guest, p.analysis.regs, cfa, frameBase⟩ expr
  return (die, location, kind)

section Calls

variable [DecidableEq ι]

/-- The step of the loop over the selectors for a member of an aggregate. -/
def selectMember (type : ι) (location : Int) (name : Text) : Except Raised (ι × Int) := do
  if (p.die type).tag = .structureType ∨ (p.die type).tag = .unionType then do
    let (child, offset) ← p.member p.frames type name
    return (child, location + offset)
  else throw (valueError "Expected aggregate type")

/-- The pointer type and the pointer behind `->`: what is pointed to, and where. -/
def dereference (type : ι) (location : Int) : Helper (ι × Int) := do
  if (p.die type).tag ≠ .pointerType then throw (valueError "Expected a 32-bit pointer")
  else if (← liftExcept (p.sizeOf p.frames type)) ≠ 4 then
    throw (valueError "Expected a 32-bit pointer")
  else do
    let target ← readLong p.analysis.guest location
    if target = 0 then throw (valueError "Null pointer")
    else do
      let pointee ← liftExcept (p.typeOf type)
      let pointee ← liftExcept (p.canonical pointee)
      return (pointee, target)

/-- The loop body over the selectors. -/
def follow (type : ι) (location : Int) (selector : Selector) : Helper (ι × Int) := do
  let type ← liftExcept (p.canonical type)
  match selector with
  | .member name => liftExcept (p.selectMember type location name)
  | .arrow name => do
    let (type, location) ← p.dereference type location
    liftExcept (p.selectMember type location name)
  | .index n =>
    if (p.die type).tag ≠ .arrayType then throw (valueError "Expected array type")
    else do
      let (element, low, count, stride) ← liftExcept (p.array p.frames type)
      if low ≤ n ∧ (n : Int) < low + count then return (element, location + (n - low) * stride)
      else throw (valueError "Array index out of bounds")

/-- The loop over the selectors. -/
def followAll : ι → Int → List Selector → Helper (ι × Int)
  | type, location, [] => return (type, location)
  | type, location, selector :: selectors => do
    let (type, location) ← p.follow type location selector
    followAll type location selectors

/-- The reply of `variable`. -/
structure Reply where
  expression : Text
  address : Option Int
  locationKind : Kind
  type : Text
  size : Int
  hex : Bytes
  value : Decoded

/-- The name of a type, or the tag of what is behind its qualifiers. -/
def typeName (type : ι) : Except Raised Text := do
  match ← p.name type with
  | some (c :: s) => return c :: s
  | _ => return (p.die (← p.canonical type)).tag.name.toList

/-- The bytes of a value. -/
def valueBytes (location : Int) (kind : Kind) (size : Int) : Helper Bytes :=
  match kind with
  | .address => do
    let address ← liftExcept (checked location 0xffffffff)
    read p.analysis.guest address size
  | .register | .value => return bigEndian size.toNat (location % 256 ^ size.toNat).toNat

/-- `variable` behind the selectors. -/
def reply (expression : Text) (type : ι) (location : Int) (kind : Kind) : Helper Reply := do
  let size ← liftExcept (p.sizeOf p.frames type)
  let _ ← liftExcept (checked size 4096)
  if kind = .register ∧ size > 4 then throw (valueError "Value exceeds the register width")
  else do
    let data ← p.valueBytes location kind size
    let name ← liftExcept (p.typeName type)
    let value ← liftExcept ((p.decode p.frames type data).outcome 0).1
    return ⟨expression, if kind = .address then some location else none, kind, name, size, data,
      value⟩

/-- `variable`. -/
def readVariable (expression : Text) : Helper Reply :=
  if expression.length > 256 then
    throw (valueError "Use a variable name with .member, ->member or [index] selectors")
  else match p.parse expression with
    | none => throw (valueError "Use a variable name with .member, ->member or [index] selectors")
    | some (name, selectors) => do
      let (die, location, kind) ← p.locate name
      let type ← liftExcept (p.typeOf die)
      if selectors ≠ [] ∧ kind ≠ .address then
        throw (valueError "Selectors on register values are unsupported")
      else do
        let (type, location) ← p.followAll type location selectors
        p.reply expression type location kind

/-! ### The part that is read -/

/-- The expression stands for a variable in memory: its type, its address and the selectors. -/
def StandsFor (s : Budget) (expression : Text) (type : ι) (address : Int)
    (selectors : List Selector) : Prop :=
  ∃ name die s', p.parse expression = some (name, selectors) ∧
    (p.locate name).outcome s = (.ok (die, address, .address), s') ∧ p.typeOf die = .ok type

/-- The reply has the bytes of the part of an object that the selectors name, inside of it. -/
def ReadsPart (type : ι) (address : Int) (selectors : List Selector) (r : Reply) : Prop :=
  ∃ last offset n, p.SubObject type selectors last offset ∧ p.TypeSize last r.size ∧
    p.TypeSize type n ∧ 0 ≤ offset ∧ offset + r.size ≤ n ∧ r.address = some (address + offset) ∧
    r.hex = readMemory p.analysis.guest.memory (address + offset).toNat r.size.toNat

variable {p}

/-- What is followed without a pointer is a part of the object. -/
theorem yields_follow {type : ι} {location : Int} {selector : Selector}
    (harrow : ∀ name, selector ≠ .arrow name) :
    Yields (fun r => ∃ offset, p.Followed type selector r.1 offset ∧ r.2 = location + offset)
      (fun _ => True) (p.follow type location selector) := by
  refine yields_bind (R := fun c => p.Unqualified type c)
    (yields_liftExcept (fun c hc => Graph.canonical_sound hc) fun _ _ => trivial) fun c hc => ?_
  cases selector with
  | arrow name => exact (harrow name rfl).elim
  | member name =>
    refine yields_liftExcept (fun r hr => ?_) fun _ _ => trivial
    rw [selectMember] at hr
    split at hr
    · next htag =>
      obtain ⟨⟨child, offset⟩, hmember, hr⟩ := bind_eq_ok_iff.mp hr
      cases hr
      exact ⟨offset, Graph.member_followed hc htag hmember, rfl⟩
    · cases hr
  | index n =>
    dsimp only
    split
    · exact yields_throw trivial
    · next htag =>
      refine yields_bind (R := fun a => p.array p.frames c = .ok a)
        (yields_liftExcept (fun _ ha => ha) fun _ _ => trivial) fun a ha => ?_
      obtain ⟨element, low, count, stride⟩ := a
      dsimp only
      split
      · next hbounds =>
        exact yields_pure ⟨_, Graph.array_followed hc (not_not.mp htag) ha hbounds.1 hbounds.2, rfl⟩
      · exact yields_throw trivial

theorem yields_followAll {selectors : List Selector}
    (harrow : ∀ name, Selector.arrow name ∉ selectors) : ∀ {type : ι} {location : Int},
      Yields (fun r => ∃ offset, p.AllFollowed type selectors r.1 offset ∧ r.2 = location + offset)
        (fun _ => True) (p.followAll type location selectors) := by
  induction selectors with
  | nil =>
    intro type location
    exact yields_pure ⟨0, .nil, (Int.add_zero _).symm⟩
  | cons selector selectors ih =>
    intro type location
    refine yields_bind (yields_follow fun name heq => harrow name (heq ▸ List.mem_cons_self))
      fun part hpart => ?_
    obtain ⟨offset, hfollowed, hlocation⟩ := hpart
    refine (ih fun name hmem => harrow name (List.mem_cons_of_mem _ hmem)).mono
      (fun last hlast => ?_) fun _ h => h
    obtain ⟨rest, hrest, hend⟩ := hlast
    exact ⟨offset + rest, .cons hfollowed hrest, by rw [hend, hlocation, Int.add_assoc]⟩

omit [DecidableEq ι] in
theorem identifier_suffix {isWord : Char → Bool} {s : Text} {found : Text × Text}
    (h : identifier isWord s = some found) : found.2 <:+ s := by
  cases s with
  | nil => cases h
  | cons c s =>
    rw [identifier] at h
    split at h
    · cases h
      exact (List.dropWhile_suffix _).trans (List.suffix_cons c s)
    · cases h

omit [DecidableEq ι] in
/-- A text without an arrow has no selector through a pointer. -/
theorem arrow_not_mem {isWord : Char → Bool} {left : Nat} {s : Text} {selectors : List Selector}
    (h : selectorsIn isWord left s = some selectors) (harrow : ¬ ['-', '>'] <:+: s) (name : Text) :
    Selector.arrow name ∉ selectors := by
  fun_induction selectorsIn isWord left s generalizing selectors with
  | case1 =>
    cases h
    exact List.not_mem_nil
  | case2 | case5 | case7 | case8 => cases h
  | case3 left s ih =>
    obtain ⟨found, hfound, h⟩ := Option.bind_eq_some_iff.mp h
    obtain ⟨rest, hrest, rfl⟩ := Option.map_eq_some_iff.mp h
    have hsuffix : found.2 <:+ '.' :: s :=
      (identifier_suffix hfound).trans (List.suffix_cons _ _)
    have htail := ih found hrest fun hin => harrow (hin.trans hsuffix.isInfix)
    simpa using htail
  | case4 left s ih => exact (harrow ⟨[], s, rfl⟩).elim
  | case6 left s hdigits rest hrest ih =>
    obtain ⟨selectors, hselectors, rfl⟩ := Option.map_eq_some_iff.mp h
    have hsuffix : rest <:+ '[' :: s := by
      have hcons : rest <:+ s.dropWhile Char.isDigit := hrest ▸ List.suffix_cons _ _
      exact (hcons.trans (List.dropWhile_suffix _)).trans (List.suffix_cons _ _)
    have htail := ih hselectors fun hin => harrow (hin.trans hsuffix.isInfix)
    simpa using htail

omit [DecidableEq ι] in
theorem arrow_not_mem_parse {expression name : Text} {selectors : List Selector}
    (h : p.parse expression = some (name, selectors)) (harrow : ¬ ['-', '>'] <:+: expression)
    (field : Text) : Selector.arrow field ∉ selectors := by
  obtain ⟨found, hfound, h⟩ := Option.bind_eq_some_iff.mp h
  obtain ⟨rest, hrest, h⟩ := Option.map_eq_some_iff.mp h
  cases h
  exact arrow_not_mem hrest (fun hin => harrow (hin.trans (identifier_suffix hfound).isInfix)) field

/-- What is replied about a location in memory: the bytes there. -/
theorem yields_reply {expression : Text} {type : ι} {location : Int} {kind : Kind} :
    Yields (fun r => r.locationKind = kind ∧ (kind = .address → p.TypeSize type r.size ∧
        r.address = some location ∧
        r.hex = readMemory p.analysis.guest.memory location.toNat r.size.toNat))
      (fun _ => True) (p.reply expression type location kind) := by
  refine yields_bind (R := fun n => p.TypeSize type n)
    (yields_liftExcept (fun n hn => (Graph.sizeOf_sound hn).1) fun _ _ => trivial) fun n hn => ?_
  refine yields_bind (R := fun _ => True)
    (yields_liftExcept (fun _ _ => trivial) fun _ _ => trivial) fun _ _ => ?_
  split
  · exact yields_throw trivial
  · refine yields_bind (R := fun data => kind = .address →
      data = readMemory p.analysis.guest.memory location.toNat n.toNat) ?_ fun data hdata => ?_
    · cases kind with
      | register => exact yields_pure fun h => by cases h
      | value => exact yields_pure fun h => by cases h
      | address =>
        refine yields_bind (R := fun address => address = location)
          (yields_liftExcept (fun a ha => (checked_ok ha).1) fun _ _ => trivial) ?_
        rintro address rfl
        exact (yields_read p.analysis.guest address n).mono (fun _ h _ => h.1) fun _ _ => trivial
    · refine yields_bind (R := fun _ => True)
        (yields_liftExcept (fun _ _ => trivial) fun _ _ => trivial) fun name _ => ?_
      refine yields_bind (R := fun _ => True)
        (yields_liftExcept (fun _ _ => trivial) fun _ _ => trivial) fun value _ => ?_
      exact yields_pure ⟨rfl, fun hkind => ⟨hn, if_pos hkind, hdata hkind⟩⟩

/-- Where a variable in memory is returned without following a pointer, the bytes read are the part
of it that the selectors name if and only if every element that they name of an array with a size of
its own ends within that size. -/
theorem readVariable_part_iff (p : Inspection ι) {expression : Text} {s s' : Budget} {r : Reply}
    (hreturn : (p.readVariable expression).outcome s = (.ok r, s'))
    (hkind : r.locationKind = .address) (harrow : ¬ ['-', '>'] <:+: expression) :
    ∃ type address selectors, p.StandsFor s expression type address selectors ∧
      (p.ReadsPart type address selectors r ↔ p.ElementsFit type selectors) := by
  rw [readVariable] at hreturn
  split at hreturn
  · cases hreturn
  split at hreturn
  · cases hreturn
  next name selectors hparse =>
  obtain ⟨⟨die, address, kind⟩, s₁, hlocate, hreturn⟩ := outcome_bind_eq_ok.mp hreturn
  obtain ⟨type, s₂, htype, hreturn⟩ := outcome_bind_eq_ok.mp hreturn
  rw [outcome_liftExcept] at htype
  injection htype with htype _
  dsimp only at hreturn
  split at hreturn
  · cases hreturn
  obtain ⟨⟨last, location⟩, s₃, hfollow, hreturn⟩ := outcome_bind_eq_ok.mp hreturn
  obtain ⟨offset, hfollowed, hlocation⟩ :=
    (yields_followAll (arrow_not_mem_parse hparse harrow)).of_ok hfollow
  obtain ⟨hsame, hreply⟩ := yields_reply.of_ok hreturn
  obtain rfl : kind = .address := hsame.symm.trans hkind
  obtain ⟨hsize, haddress, hdata⟩ := hreply rfl
  dsimp only at hlocation
  subst hlocation
  refine ⟨type, address, selectors, ⟨name, die, s₁, hparse, hlocate, htype⟩, ?_, fun hfit => ?_⟩
  · rintro ⟨last, offset, n, hpart, _⟩
    exact hpart.elementsFit
  · have hpart := hfollowed.subObject_iff.mpr hfit
    obtain ⟨n, hn, hstart, hend⟩ := hpart.inside hsize
    exact ⟨last, offset, n, hpart, hsize, hn, hstart, hend, haddress, hdata⟩

end Calls

/-- A variable `a` at linked address 0: an array of ten longwords, with this size of its own. -/
def longs (byteSize : Option Number) : Nat → Die Nat
  | 0 => { (Graph.blank .variable : Die Nat) with
      name := some ['a'], type := some 1, location := some 0 }
  | 1 => { (Graph.blank .arrayType : Die Nat) with
      type := some 3, byteSize := byteSize, children := [2] }
  | 2 => { (Graph.blank .subrangeType : Die Nat) with count := some (.value 10) }
  | _ => { (Graph.blank .baseType : Die Nat) with
      name := some ['i', 'n', 't'], byteSize := some (.int 4), encoding := some 5 }

/-- The array in a section mapped to 4096, with the program counter there. -/
def longsAt (byteSize : Option Number) : Inspection Nat where
  die := longs byteSize
  analysis :=
    { maps := [⟨0, 4096, 256⟩]
      guest := ⟨fun _ => 0, fun _ => none⟩
      cfi := []
      pc := 4096
      regs := fun _ => none
      lines := fun _ => .error "No line table" }
  dies := [0, 1, 2, 3]
  unitLowPc := fun _ => none
  parseLocation := fun _ _ => .ok (.expression (.ok [.addr 0]))
  rangeList := fun _ _ => .ok []
  isWord := fun c => c.isAlphanum || c == '_'
  frames := 17

/-- The reply for `a[5]`. -/
def fifthLong : Reply := ⟨['a', '[', '5', ']'], some 4116, .address, ['i', 'n', 't'], 4,
  [0, 0, 0, 0], .int 0⟩

set_option maxRecDepth 4000 in
theorem readVariable_part_iff_longs :
    ((longsAt none).readVariable ['a', '[', '5', ']']).outcome ⟨0, 0⟩ =
        (.ok fifthLong, ⟨4, 1⟩) ∧
      ∃ type address selectors,
        (longsAt none).StandsFor ⟨0, 0⟩ ['a', '[', '5', ']'] type address selectors ∧
        ((longsAt none).ReadsPart type address selectors fifthLong ↔
          (longsAt none).ElementsFit type selectors) :=
  have hreturn : ((longsAt none).readVariable ['a', '[', '5', ']']).outcome ⟨0, 0⟩ =
      (.ok fifthLong, ⟨4, 1⟩) := rfl
  ⟨hreturn, readVariable_part_iff (longsAt none) hreturn rfl (by decide)⟩

set_option maxRecDepth 4000 in
/-- If the array has a size of four bytes of its own, `a[5]` is read sixteen bytes behind its
end. -/
theorem readVariable_outside :
    ((longsAt (some (.int 4))).readVariable ['a', '[', '5', ']']).outcome ⟨0, 0⟩ =
        (.ok fifthLong, ⟨4, 1⟩) ∧
      (longsAt (some (.int 4))).StandsFor ⟨0, 0⟩ ['a', '[', '5', ']'] 1 4096 [.index 5] ∧
      (longsAt (some (.int 4))).TypeSize 1 4 ∧
      ¬ (longsAt (some (.int 4))).ReadsPart 1 4096 [.index 5] fifthLong := by
  have harray : (longsAt (some (.int 4))).Unqualified 1 1 := .self rfl
  have hsize : (longsAt (some (.int 4))).TypeSize 1 4 := .declared harray rfl
  refine ⟨rfl, ⟨['a'], 0, ⟨0, 0⟩, rfl, rfl, rfl⟩, hsize, ?_⟩
  rintro ⟨last, offset, n, -, -, hn, -, hend, haddress, -⟩
  have hstart : (4116 : Int) = 4096 + offset := Option.some.inj haddress
  have hlength : fifthLong.size = 4 := rfl
  have htotal := hn.unique hsize
  omega

end Inspection

end Dwarf

end AmigaDevbench.Winuae
