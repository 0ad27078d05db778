import AmigaDevbench.Host.Winuae.Dwarf.Types

/-!
# The budgets of the types

Each function that follows references counts its steps, but the size of an array asks for the size
of its element with a count of zero. What settles within the budget of sixteen nested calls is what
has no deeper arrays without a size of their own.
-/

namespace AmigaDevbench.Winuae

namespace Dwarf

open Raises

/-- The computation ends with a value or with `ValueError`. -/
def Settles {α : Type} : Except Raised α → Prop :=
  Ends (fun _ => True) fun e => e.error = .valueError

theorem settles_ok {α : Type} {a : α} : Settles (.ok a) := trivial

theorem settles_valueError {α : Type} {message : String} :
    Settles (.error (valueError message) : Except Raised α) :=
  show (valueError message).error = .valueError from rfl

theorem settles_checked (value maximum : Int) : Settles (checked value maximum) := by
  rw [checked]
  split
  · exact settles_ok
  · exact settles_valueError

theorem settles_bind {α β : Type} {x : Except Raised α} {f : α → Except Raised β}
    (hx : Settles x) (hf : ∀ a, Settles (f a)) : Settles (x >>= f) :=
  ends_bind hx fun a _ => hf a

theorem settles_bind_iff {α β : Type} {x : Except Raised α} {f : α → Except Raised β}
    (hf : ∀ a, Settles (f a)) : Settles (x >>= f) ↔ Settles x :=
  ends_bind_iff hf

theorem settles_mapM {α β : Type} {f : α → Except Raised β} {xs : List α}
    (hf : ∀ a, Settles (f a)) : Settles (xs.mapM f) :=
  (ends_mapM fun a _ => hf a).mono fun _ _ => trivial

/-- Code that counts settles likewise, from every count. -/
def Expansion.Settles {α : Type} : Expansion α → Prop :=
  Yields (fun _ => True) fun e => e.error = .valueError

theorem expansion_settles_lift {α : Type} {x : Except Raised α} (hx : Settles x) :
    Expansion.Settles (liftExcept x) :=
  yields_liftExcept (fun _ _ => trivial) fun _ h => hx.of_error h

theorem expansion_settles_throw {α : Type} {message : String} :
    Expansion.Settles (throw (valueError message) : Expansion α) := yields_throw rfl

theorem expansion_settles_bind {α β : Type} {x : Expansion α} {f : α → Expansion β}
    (hx : x.Settles) (hf : ∀ a, (f a).Settles) : Expansion.Settles (x >>= f) :=
  yields_bind hx fun a _ => hf a

theorem expansion_settles_mapM {α β : Type} {f : α → Expansion β} {xs : List α}
    (hf : ∀ a, (f a).Settles) : Expansion.Settles (xs.mapM f) :=
  (yields_mapM hf).mono (fun _ _ => trivial) fun _ h => h

namespace Graph

variable {ι : Type} (g : Graph ι)

/-! ### What has a budget -/

theorem settles_follow {α : Type} {f : ι → Except Raised (Option α)} (hf : ∀ die, Settles (f die))
    (reference : Option ι) : Settles (follow f reference) := by
  cases reference with
  | none => exact settles_ok
  | some die => exact hf die

theorem settles_attributeIn {α : Type} (own : Die ι → Option α) (left : Nat) :
    ∀ die, Settles (g.attributeIn own left die) := by
  induction left with
  | zero => exact fun _ => settles_valueError
  | succ left ih =>
    intro die
    rw [attributeIn]
    split
    · exact settles_ok
    · refine settles_bind (settles_follow ih _) fun inherited => ?_
      split
      · exact settles_ok
      · exact settles_follow ih _

theorem settles_typeOfIn (left : Nat) : ∀ die, Settles (g.typeOfIn left die) := by
  induction left with
  | zero => exact fun _ => settles_valueError
  | succ left ih =>
    intro die
    rw [typeOfIn]
    split
    · exact settles_ok
    split
    · exact ih _
    split
    · exact ih _
    · exact settles_valueError

theorem settles_typeOf (die : ι) : Settles (g.typeOf die) := g.settles_typeOfIn 17 die

theorem settles_canonicalIn [DecidableEq ι] (left : Nat) :
    ∀ seen die, Settles (g.canonicalIn left seen die) := by
  induction left with
  | zero =>
    intro seen die
    rw [canonicalIn]
    split
    · exact settles_valueError
    · exact settles_ok
  | succ left ih =>
    intro seen die
    rw [canonicalIn]
    split
    · split
      · exact settles_valueError
      · exact settles_bind (g.settles_typeOf die) fun _ => ih _ _
    · exact settles_ok

theorem settles_canonical [DecidableEq ι] (die : ι) : Settles (g.canonical die) :=
  g.settles_canonicalIn 17 [] die

theorem settles_constant (attr : Option Constant) : Settles (constant attr) := by
  cases attr with
  | none => exact settles_ok
  | some attr =>
    cases attr with
    | value n => exact settles_ok
    | dynamic => exact settles_valueError

theorem settles_countOf (sub : Die ι) (low : Int) : Settles (countOf sub low) := by
  refine settles_bind (settles_constant _) fun count => ?_
  split
  · exact settles_ok
  · refine settles_bind (settles_constant _) fun high => ?_
    split
    · exact settles_ok
    · exact settles_valueError

theorem settles_arrayBounds (die : ι) : Settles (g.arrayBounds die) := by
  refine settles_bind (g.settles_typeOf die) fun element => ?_
  split
  · refine settles_bind (settles_constant _) fun low => settles_bind (settles_countOf _ _)
      fun count => settles_bind (settles_checked _ _) fun _ => settles_bind (settles_constant _)
      fun stride => ?_
    split
    · exact settles_valueError
    · exact settles_ok
  · exact settles_valueError

/-! ### Sizes -/

/-- An array settles if the size of its element does. -/
theorem settles_arrayWith_iff (size : ι → Except Raised Int) (die : ι) :
    Settles (g.arrayWith size die) ↔
      ∀ element low count stride, g.arrayBounds die = .ok (element, low, count, stride) →
        Settles (size element) := by
  have hbounds := g.settles_arrayBounds die
  rw [arrayWith]
  cases hcase : g.arrayBounds die with
  | error e =>
    rw [hcase] at hbounds
    refine iff_of_true hbounds fun element low count stride h => ?_
    cases h
  | ok bounds =>
    obtain ⟨element, low, count, stride⟩ := bounds
    have hlast : ∀ stride, Settles (do
        if stride < (← size element) then throw (valueError "Invalid array stride")
        else return (element, low, count, stride)) ↔ Settles (size element) := by
      intro stride
      refine settles_bind_iff fun n => ?_
      split
      · exact settles_valueError
      · exact settles_ok
    have hsize : Settles (size element) ↔ ∀ element' low' count' stride',
        (.ok (element, low, count, stride) : Except Raised (ι × Int × Int × Option Int)) =
          .ok (element', low', count', stride') → Settles (size element') := by
      constructor
      · intro h element' low' count' stride' heq
        cases heq
        exact h
      · exact fun h => h element low count stride rfl
    rw [← hsize, ok_bind]
    cases stride with
    | some stride => exact hlast stride
    | none =>
      simp only [strideOf]
      cases hn : size element with
      | error e => rfl
      | ok n =>
        rw [ok_bind, ← hn]
        exact hlast n

variable [DecidableEq ι]

/-- The entry whose size is asked for by the size of an entry: the element of an array that has no
size of its own. -/
def inner (die : ι) : Option ι :=
  match g.canonical die with
  | .error _ => none
  | .ok die =>
    if (g.die die).byteSize.isNone ∧ (g.die die).tag = .arrayType then
      match g.arrayBounds die with
      | .error _ => none
      | .ok (element, _) => some element
    else none

/-- The entry behind so many arrays. -/
def nested : Nat → ι → Option ι
  | 0, die => some die
  | n + 1, die => (g.inner die).bind (nested n)

theorem inner_of_canonical {die c : ι} (h : g.canonical die = .ok c) (hsize : (g.die c).byteSize = none)
    (htag : (g.die c).tag = .arrayType) {element : ι} :
    g.inner die = some element ↔
      ∃ low count stride, g.arrayBounds c = .ok (element, low, count, stride) := by
  rw [inner, h]
  simp only [hsize, htag, Option.isNone_none, and_self, if_true]
  cases hbounds : g.arrayBounds c with
  | error e => simp
  | ok bounds =>
    obtain ⟨element', low, count, stride⟩ := bounds
    simp

/-- The size of an entry settles on a call stack exactly if the arrays inside each other are not
deeper than the stack. -/
theorem settles_size_iff (frames : Nat) : ∀ die,
    Settles (g.size frames die 0) ↔ g.nested frames die = none := by
  induction frames with
  | zero =>
    intro die
    refine iff_of_false (fun h => ?_) fun h => ?_
    · have hkind : PyError.runtimeError = PyError.valueError := h
      cases hkind
    · cases h
  | succ frames ih =>
    intro die
    have hcanonical := g.settles_canonical die
    rw [size, if_neg (by omega), nested]
    cases hcase : g.canonical die with
    | error e =>
      rw [hcase] at hcanonical
      refine iff_of_true hcanonical ?_
      rw [inner, hcase]
      rfl
    | ok c =>
      rw [ok_bind]
      cases hsize : (g.die c).byteSize with
      | some n =>
        have hinner : g.inner die = none := by
          rw [inner, hcase]
          simp [hsize]
        rw [hinner]
        refine iff_of_true ?_ rfl
        cases n with
        | int n => exact settles_checked _ _
        | flag => exact settles_valueError
        | other => exact settles_valueError
      | none =>
        by_cases htag : (g.die c).tag = .arrayType
        · have hpointer : (g.die c).tag ≠ .pointerType := by
            rw [htag]
            exact fun h => by cases h
          simp only [if_neg hpointer, if_pos htag]
          rw [settles_bind_iff fun a => settles_checked _ _, settles_arrayWith_iff]
          cases hinner : g.inner die with
          | none =>
            refine iff_of_true (fun element low count stride h => ?_) rfl
            have hsome := (g.inner_of_canonical hcase hsize htag).mpr ⟨low, count, stride, h⟩
            rw [hinner] at hsome
            cases hsome
          | some element =>
            obtain ⟨low, count, stride, hbounds⟩ :=
              (g.inner_of_canonical hcase hsize htag).mp hinner
            rw [Option.bind_some, ← ih element, hbounds]
            constructor
            · exact fun h => h element low count stride rfl
            · intro h element' low' count' stride' heq
              cases heq
              exact h
        · have hinner : g.inner die = none := by
            rw [inner, hcase]
            simp [htag]
          rw [hinner]
          refine iff_of_true ?_ rfl
          simp only [if_neg htag]
          split
          · exact settles_ok
          · exact settles_valueError

variable {g} {frames : Nat}

theorem settles_array (hsize : ∀ die, Settles (g.sizeOf frames die)) (die : ι) :
    Settles (g.array frames die) :=
  (g.settles_arrayWith_iff _ die).mpr fun element _ _ _ _ => hsize element

omit [DecidableEq ι] in
theorem settles_namedMembers (die : ι) : Settles (g.namedMembers die) :=
  settles_mapM fun d => settles_bind (g.settles_attributeIn _ _ d) fun _ => settles_ok

omit [DecidableEq ι] in
theorem settles_memberOffset (die member : ι) : Settles (g.memberOffset die member) := by
  rw [memberOffset]
  split
  · exact settles_checked _ _
  · exact settles_valueError
  · exact settles_valueError
  · split
    · exact settles_ok
    · exact settles_valueError

theorem settles_member (hsize : ∀ die, Settles (g.sizeOf frames die)) (die : ι) (name : Text) :
    Settles (g.member frames die name) := by
  refine settles_bind (settles_namedMembers die) fun members => ?_
  split
  · split
    · exact settles_valueError
    · refine settles_bind (settles_memberOffset _ _) fun offset =>
        settles_bind (g.settles_typeOf _) fun child => settles_bind (hsize _) fun n =>
        settles_bind (hsize _) fun m => ?_
      split
      · exact settles_valueError
      · exact settles_ok
  · exact settles_valueError

theorem settles_decodeNumber (encoding : Option Int) (data : Bytes) :
    Settles (decodeNumber encoding data) := by
  cases encoding with
  | none => exact settles_valueError
  | some encoding =>
    simp only [decodeNumber]
    split
    · exact settles_ok
    split
    · exact settles_ok
    · exact settles_valueError

theorem settles_decodeElements (hsize : ∀ die, Settles (g.sizeOf frames die))
    {decode : ι → Bytes → Expansion Decoded} (hdecode : ∀ die data, (decode die data).Settles)
    (die : ι) (data : Bytes) : (g.decodeElements frames decode die data).Settles := by
  refine expansion_settles_bind (expansion_settles_lift (settles_array hsize die)) fun a => ?_
  obtain ⟨element, low, count, stride⟩ := a
  dsimp only
  split
  · exact expansion_settles_throw
  · refine expansion_settles_bind (expansion_settles_mapM fun i => ?_) fun _ => yields_pure trivial
    exact expansion_settles_bind (expansion_settles_lift (hsize _)) fun _ => hdecode _ _

theorem settles_decodeMembers (hsize : ∀ die, Settles (g.sizeOf frames die))
    {decode : ι → Bytes → Expansion Decoded} (hdecode : ∀ die data, (decode die data).Settles)
    (die : ι) (data : Bytes) : (g.decodeMembers frames decode die data).Settles := by
  simp only [decodeMembers]
  split
  · exact expansion_settles_throw
  refine expansion_settles_bind (expansion_settles_mapM fun d => ?_) fun _ => yields_pure trivial
  refine expansion_settles_bind (expansion_settles_lift (g.settles_attributeIn _ _ d))
    fun name => ?_
  split
  · exact expansion_settles_throw
  · exact expansion_settles_throw
  · refine expansion_settles_bind (expansion_settles_lift (settles_member hsize die _)) fun a =>
      expansion_settles_bind (expansion_settles_lift (hsize _)) fun n =>
      expansion_settles_bind (hdecode _ _) fun _ => yields_pure trivial

/-- `decode` has a budget of its own, and settles where the sizes do. -/
theorem settles_decodeIn (hsize : ∀ die, Settles (g.sizeOf frames die)) (left : Nat) :
    ∀ die data, (g.decodeIn frames left die data).Settles := by
  induction left with
  | zero =>
    intro die data
    exact expansion_settles_bind (yields_modify _) fun _ => expansion_settles_throw
  | succ left ih =>
    intro die data
    refine expansion_settles_bind (yields_modify _) fun _ =>
      expansion_settles_bind yields_get fun nodes => ?_
    split
    · exact expansion_settles_throw
    refine expansion_settles_bind (expansion_settles_lift (g.settles_canonical die)) fun c =>
      expansion_settles_bind (expansion_settles_lift (hsize c)) fun n => ?_
    split
    · exact expansion_settles_throw
    split
    · exact expansion_settles_lift (settles_decodeNumber _ _)
    · split
      · exact expansion_settles_lift (settles_decodeNumber _ _)
      · split
        · exact expansion_settles_bind (expansion_settles_lift (g.settles_typeOf c))
            fun type => ih _ _
        · exact expansion_settles_throw
    · exact yields_pure trivial
    · exact settles_decodeElements hsize ih c data
    · exact settles_decodeMembers hsize ih c data
    · exact settles_decodeMembers hsize ih c data
    · exact expansion_settles_throw

/-! ### The budget of sixteen -/

variable (g) (frames)

/-- On a call stack that takes `frames` calls of `size` inside each other, every function ends with
a value or `ValueError`. -/
structure AllSettle : Prop where
  size : ∀ die, Settles (g.sizeOf frames die)
  canonical : ∀ die, Settles (g.canonical die)
  typeOf : ∀ die, Settles (g.typeOf die)
  array : ∀ die, Settles (g.array frames die)
  member : ∀ die name, Settles (g.member frames die name)
  decode : ∀ die data, (g.decode frames die data).Settles

theorem allSettle_of_size {g : Graph ι} {frames : Nat}
    (hsize : ∀ die, Settles (g.sizeOf frames die)) : g.AllSettle frames where
  size := hsize
  canonical := g.settles_canonical
  typeOf := g.settles_typeOf
  array := settles_array hsize
  member := settles_member hsize
  decode := settles_decodeIn hsize 17

/-- With the seventeen calls inside each other that a budget of sixteen allows, every function
settles on a graph if and only if no entry has seventeen arrays inside each other that take their
size from the next one. -/
theorem allSettle_iff : g.AllSettle 17 ↔ ∀ die, g.nested 17 die = none := by
  constructor
  · intro h die
    exact (g.settles_size_iff 17 die).mp (h.size die)
  · intro h
    exact allSettle_of_size fun die => (g.settles_size_iff 17 die).mpr (h die)

/-- An array of one element, the array itself, and its subrange. -/
def selfArray : Graph Bool where
  die := fun b =>
    if b then { (blank .arrayType : Die Bool) with type := some true, children := [false] }
    else { (blank .subrangeType : Die Bool) with count := some (.value 1) }

/-- However deep the call stack is, it is not deep enough for an array of itself. -/
theorem selfArray_not_settles :
    (∀ frames, ¬ Settles (selfArray.sizeOf frames true)) ∧ ¬ selfArray.AllSettle 17 := by
  have hinner : selfArray.inner true = some true := rfl
  have hnested : ∀ frames, selfArray.nested frames true = some true := by
    intro frames
    induction frames with
    | zero => rfl
    | succ frames ih =>
      rw [nested, hinner]
      exact ih
  have hdeep : ∀ frames, ¬ Settles (selfArray.sizeOf frames true) := by
    intro frames h
    have hnone := (selfArray.settles_size_iff frames true).mp h
    rw [hnested] at hnone
    cases hnone
  exact ⟨hdeep, fun h => hdeep 17 (h.size true)⟩

end Graph

end Dwarf

end AmigaDevbench.Winuae
