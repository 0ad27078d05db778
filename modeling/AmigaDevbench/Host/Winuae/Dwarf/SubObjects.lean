import AmigaDevbench.Host.Winuae.Dwarf.Types

/-!
# Sizes and sub-objects

The size of a type, and the part of an object that a selector names, as the entries define them
without a budget. The helper computes these, and its check of a member keeps the member inside. An
element of an array is inside the array as long as the array has no smaller size of its own.
-/

namespace AmigaDevbench.Winuae

namespace Dwarf

/-- A selector behind the name of a variable. -/
inductive Selector where
  /-- `.name` -/
  | member (name : Text)
  /-- `->name` -/
  | arrow (name : Text)
  /-- `[n]` -/
  | index (n : Nat)
  deriving DecidableEq

namespace Graph

variable {ι : Type} (g : Graph ι)

/-- The type that an entry refers to, itself or through the entry that it completes. -/
inductive TypeRef : ι → ι → Prop
  | own {die type : ι} : (g.die die).type = some type → TypeRef die type
  | origin {die next type : ι} : (g.die die).type = none →
      (g.die die).abstractOrigin = some next → TypeRef next type → TypeRef die type
  | specification {die next type : ι} : (g.die die).type = none →
      (g.die die).abstractOrigin = none → (g.die die).specification = some next →
      TypeRef next type → TypeRef die type

/-- The type behind typedefs and qualifiers. -/
inductive Unqualified : ι → ι → Prop
  | self {die : ι} : (g.die die).tag.isQualifier = false → Unqualified die die
  | step {die next c : ι} : (g.die die).tag.isQualifier = true → g.TypeRef die next →
      Unqualified next c → Unqualified die c

/-- The lower bound of a subrange. -/
def LowerBound (sub : Die ι) (low : Int) : Prop :=
  sub.lowerBound = some (.value low) ∨ sub.lowerBound = none ∧ low = 0

/-- The number of elements of a subrange. -/
def Extent (sub : Die ι) (low count : Int) : Prop :=
  sub.count = some (.value count) ∨
    sub.count = none ∧ sub.upperBound = some (.value (count - 1 + low))

/-- The array types, with the element type, the lower bound and the number of elements. -/
structure ArrayOf (c element : ι) (low count : Int) : Prop where
  tag : (g.die c).tag = .arrayType
  element : g.TypeRef c element
  bounds : ∃ sub, ((g.die c).children.filter fun d => (g.die d).tag = .subrangeType) = [sub] ∧
    LowerBound (g.die sub) low ∧ Extent (g.die sub) low count

/-- The size of a type. -/
inductive TypeSize : ι → Int → Prop
  | declared {die c : ι} {n : Int} : g.Unqualified die c → (g.die c).byteSize = some (.int n) →
      TypeSize die n
  | pointer {die c : ι} : g.Unqualified die c → (g.die c).byteSize = none →
      (g.die c).tag = .pointerType → TypeSize die 4
  | strided {die c element : ι} {low count stride : Int} : g.Unqualified die c →
      (g.die c).byteSize = none → g.ArrayOf c element low count →
      (g.die c).byteStride = some (.value stride) → TypeSize die (count * stride)
  | packed {die c element : ι} {low count n : Int} : g.Unqualified die c →
      (g.die c).byteSize = none → g.ArrayOf c element low count →
      (g.die c).byteStride = none → TypeSize element n → TypeSize die (count * n)

/-- The distance between the elements of an array. -/
def ArrayStride (c element : ι) (stride : Int) : Prop :=
  (g.die c).byteStride = some (.value stride) ∨
    (g.die c).byteStride = none ∧ g.TypeSize element stride

/-- The only member of a structure or union that has a name. -/
def IsMember (c : ι) (name : Text) (m : ι) : Prop :=
  ((g.die c).tag = .structureType ∨ (g.die c).tag = .unionType) ∧
    ((g.die c).children.filter fun d =>
      (g.die d).tag = .member ∧ g.name d = .ok (some name)) = [m]

/-- Where a member lies. -/
def MemberAt (c m : ι) (offset : Int) : Prop :=
  (g.die m).dataMemberLocation = some (.int offset) ∨
    (g.die m).dataMemberLocation = none ∧ (g.die c).tag = .unionType ∧ offset = 0

/-- What a selector names in an object of a type: the type of the part and its offset. -/
inductive Select (type : ι) : Selector → ι → Int → Prop
  | member {c m child : ι} {name : Text} {offset : Int} : g.Unqualified type c →
      g.IsMember c name m → g.MemberAt c m offset → g.TypeRef m child →
      Select type (.member name) child offset
  | index {c element : ι} {low count stride : Int} {n : Nat} : g.Unqualified type c →
      g.ArrayOf c element low count → g.ArrayStride c element stride → low ≤ n →
      n < low + count → Select type (.index n) element ((n - low) * stride)

/-- What selectors name one after the other, with the offsets added up. -/
inductive Selects : ι → List Selector → ι → Int → Prop
  | nil {type : ι} : Selects type [] type 0
  | cons {type part last : ι} {selector : Selector} {selectors : List Selector}
      {offset rest : Int} : g.Select type selector part offset →
      Selects part selectors last rest →
      Selects type (selector :: selectors) last (offset + rest)

/-- The part at an offset lies inside the object. -/
def Inside (type part : ι) (offset : Int) : Prop :=
  ∃ n m, g.TypeSize type n ∧ g.TypeSize part m ∧ 0 ≤ m ∧ 0 ≤ offset ∧ offset + m ≤ n

/-- What selectors name, where every part lies inside the object it is a part of. -/
inductive SubObject : ι → List Selector → ι → Int → Prop
  | nil {type : ι} : SubObject type [] type 0
  | cons {type part last : ι} {selector : Selector} {selectors : List Selector}
      {offset rest : Int} : g.Select type selector part offset → g.Inside type part offset →
      SubObject part selectors last rest →
      SubObject type (selector :: selectors) last (offset + rest)

/-- Every element that the selectors name of an array with a size of its own ends within it. -/
def ElementsFit (type : ι) (selectors : List Selector) : Prop :=
  ∀ before n after, selectors = before ++ .index n :: after →
    ∀ array offset, g.Selects type before array offset →
      ∀ c size, g.Unqualified array c → (g.die c).byteSize = some size →
        ∀ element start m, g.Select array (.index n) element start → g.TypeSize element m →
          ∃ total, size = .int total ∧ start + m ≤ total

variable {g}

/-! ### The definitions name one thing -/

theorem TypeRef.unique {die t u : ι} (ht : g.TypeRef die t) (hu : g.TypeRef die u) : t = u := by
  induction ht with
  | own h =>
    cases hu with
    | own h' => exact Option.some.inj (h.symm.trans h')
    | origin hnone | specification hnone =>
      rw [h] at hnone
      cases hnone
  | origin hnone hnext _ ih =>
    cases hu with
    | own h =>
      rw [hnone] at h
      cases h
    | origin _ hnext' htype =>
      rw [hnext] at hnext'
      cases hnext'
      exact ih htype
    | specification _ hnone' =>
      rw [hnext] at hnone'
      cases hnone'
  | specification hnone horigin hnext _ ih =>
    cases hu with
    | own h =>
      rw [hnone] at h
      cases h
    | origin _ hnext' =>
      rw [horigin] at hnext'
      cases hnext'
    | specification _ _ hnext' htype =>
      rw [hnext] at hnext'
      cases hnext'
      exact ih htype

theorem Unqualified.not_qualifier {die c : ι} (h : g.Unqualified die c) :
    (g.die c).tag.isQualifier = false := by
  induction h with
  | self h => exact h
  | step _ _ _ ih => exact ih

theorem Unqualified.unique {die c c' : ι} (h : g.Unqualified die c) (h' : g.Unqualified die c') :
    c = c' := by
  induction h with
  | self hplain =>
    cases h' with
    | self => rfl
    | step hqualifier =>
      rw [hplain] at hqualifier
      cases hqualifier
  | step hqualifier href _ ih =>
    cases h' with
    | self hplain =>
      rw [hplain] at hqualifier
      cases hqualifier
    | step _ href' hrest =>
      cases href.unique href'
      exact ih hrest

/-- Behind the qualifiers there are no more of them. -/
theorem Unqualified.again {die c c' : ι} (h : g.Unqualified die c) (h' : g.Unqualified c c') :
    g.Unqualified die c' :=
  h'.unique (.self h.not_qualifier) ▸ h

theorem LowerBound.unique {sub : Die ι} {low low' : Int} (h : LowerBound sub low)
    (h' : LowerBound sub low') : low = low' := by
  rcases h with h | ⟨h, rfl⟩ <;> rcases h' with h' | ⟨h', rfl⟩ <;> rw [h] at h'
  · cases h'
    rfl
  · cases h'
  · cases h'

theorem Extent.unique {sub : Die ι} {low count count' : Int} (h : Extent sub low count)
    (h' : Extent sub low count') : count = count' := by
  rcases h with h | ⟨h, hhigh⟩ <;> rcases h' with h' | ⟨h', hhigh'⟩ <;> rw [h] at h'
  · cases h'
    rfl
  · cases h'
  · cases h'
  · rw [hhigh] at hhigh'
    have hsame : count - 1 + low = count' - 1 + low := by
      injection hhigh' with hvalue
      injection hvalue
    omega

theorem ArrayOf.unique {c e e' : ι} {low low' count count' : Int} (h : g.ArrayOf c e low count)
    (h' : g.ArrayOf c e' low' count') : e = e' ∧ low = low' ∧ count = count' := by
  obtain ⟨sub, hsub, hlow, hcount⟩ := h.bounds
  obtain ⟨sub', hsub', hlow', hcount'⟩ := h'.bounds
  rw [hsub] at hsub'
  cases hsub'
  cases hlow.unique hlow'
  exact ⟨h.element.unique h'.element, rfl, hcount.unique hcount'⟩

theorem ArrayOf.not_pointer {c e : ι} {low count : Int} (h : g.ArrayOf c e low count) :
    (g.die c).tag ≠ .pointerType := by
  rw [h.tag]
  exact fun h => by cases h

theorem TypeSize.unique {die : ι} {n m : Int} (hn : g.TypeSize die n) (hm : g.TypeSize die m) :
    n = m := by
  induction hn generalizing m with
  | declared hc hsize =>
    cases hm with
    | declared hc' hsize' =>
      cases hc.unique hc'
      rw [hsize] at hsize'
      cases hsize'
      rfl
    | pointer hc' hnone | strided hc' hnone | packed hc' hnone =>
      cases hc.unique hc'
      rw [hsize] at hnone
      cases hnone
  | pointer hc hnone htag =>
    cases hm with
    | declared hc' hsize =>
      cases hc.unique hc'
      rw [hnone] at hsize
      cases hsize
    | pointer => rfl
    | strided hc' _ harray | packed hc' _ harray =>
      cases hc.unique hc'
      exact (harray.not_pointer htag).elim
  | strided hc hnone harray hstride =>
    cases hm with
    | declared hc' hsize =>
      cases hc.unique hc'
      rw [hnone] at hsize
      cases hsize
    | pointer hc' _ htag =>
      cases hc.unique hc'
      exact (harray.not_pointer htag).elim
    | strided hc' _ harray' hstride' =>
      cases hc.unique hc'
      obtain ⟨-, -, rfl⟩ := harray.unique harray'
      rw [hstride] at hstride'
      cases hstride'
      rfl
    | packed hc' _ _ hpacked =>
      cases hc.unique hc'
      rw [hstride] at hpacked
      cases hpacked
  | packed hc hnone harray hpacked _ ih =>
    cases hm with
    | declared hc' hsize =>
      cases hc.unique hc'
      rw [hnone] at hsize
      cases hsize
    | pointer hc' _ htag =>
      cases hc.unique hc'
      exact (harray.not_pointer htag).elim
    | strided hc' _ _ hstride =>
      cases hc.unique hc'
      rw [hpacked] at hstride
      cases hstride
    | packed hc' _ harray' _ helement =>
      cases hc.unique hc'
      obtain ⟨rfl, -, rfl⟩ := harray.unique harray'
      rw [ih helement]

/-- A type has the size of what is behind its qualifiers. -/
theorem TypeSize.of_unqualified {die c : ι} {n : Int} (hn : g.TypeSize c n)
    (h : g.Unqualified die c) : g.TypeSize die n := by
  cases hn with
  | declared hc hsize => exact .declared (h.again hc) hsize
  | pointer hc hnone htag => exact .pointer (h.again hc) hnone htag
  | strided hc hnone harray hstride => exact .strided (h.again hc) hnone harray hstride
  | packed hc hnone harray hpacked hn => exact .packed (h.again hc) hnone harray hpacked hn

theorem ArrayStride.unique {c e : ι} {s s' : Int} (h : g.ArrayStride c e s)
    (h' : g.ArrayStride c e s') : s = s' := by
  rcases h with h | ⟨h, hsize⟩ <;> rcases h' with h' | ⟨h', hsize'⟩ <;> rw [h] at h'
  · cases h'
    rfl
  · cases h'
  · cases h'
  · exact hsize.unique hsize'

theorem MemberAt.unique {c m : ι} {d d' : Int} (h : g.MemberAt c m d) (h' : g.MemberAt c m d') :
    d = d' := by
  rcases h with h | ⟨h, -, rfl⟩ <;> rcases h' with h' | ⟨h', -, rfl⟩ <;> rw [h] at h'
  · cases h'
    rfl
  · cases h'
  · cases h'

theorem Select.unique {type part part' : ι} {selector : Selector} {d d' : Int}
    (h : g.Select type selector part d) (h' : g.Select type selector part' d') :
    part = part' ∧ d = d' := by
  cases h with
  | member hc hmember hat href =>
    cases h' with
    | member hc' hmember' hat' href' =>
      cases hc.unique hc'
      have hsame := hmember.2.symm.trans hmember'.2
      cases hsame
      exact ⟨href.unique href', hat.unique hat'⟩
  | index hc harray hstride _ _ =>
    cases h' with
    | index hc' harray' hstride' _ _ =>
      cases hc.unique hc'
      obtain ⟨rfl, rfl, -⟩ := harray.unique harray'
      cases hstride.unique hstride'
      exact ⟨rfl, rfl⟩

/-! ### Parts of parts -/

/-- The parts of a part lie inside the object. -/
theorem SubObject.inside {type last : ι} {selectors : List Selector} {offset m : Int}
    (h : g.SubObject type selectors last offset) (hm : g.TypeSize last m) :
    ∃ n, g.TypeSize type n ∧ 0 ≤ offset ∧ offset + m ≤ n := by
  induction h with
  | nil => exact ⟨m, hm, Int.le_refl _, by omega⟩
  | cons _ hinside _ ih =>
    obtain ⟨n, k, hn, hk, -, hstart, hend⟩ := hinside
    obtain ⟨k', hk', hrest, hfits⟩ := ih hm
    cases hk.unique hk'
    exact ⟨n, hn, by omega, by omega⟩

/-- An object with a size of its own has no other one. -/
theorem TypeSize.of_byteSize {die c : ι} {n : Int} {size : Number} (h : g.TypeSize die n)
    (hc : g.Unqualified die c) (hsize : (g.die c).byteSize = some size) : size = .int n := by
  cases h with
  | declared hc' hsize' =>
    cases hc.unique hc'
    rw [hsize] at hsize'
    exact Option.some.inj hsize'
  | pointer hc' hnone | strided hc' hnone | packed hc' hnone =>
    cases hc.unique hc'
    rw [hsize] at hnone
    cases hnone

/-- In a chain of parts that lie inside each other the elements fit into their arrays. -/
theorem SubObject.elementsFit {type last : ι} {selectors : List Selector} {offset : Int}
    (h : g.SubObject type selectors last offset) : g.ElementsFit type selectors := by
  induction h with
  | nil =>
    intro before n after heq
    exact absurd heq.symm (by simp)
  | @cons type part last selector selectors offset rest hselect hinside _ ih =>
    intro before n after heq array start hbefore c size hc hsize element d m helement hm
    cases before with
    | nil =>
      cases heq
      cases hbefore
      obtain ⟨rfl, rfl⟩ := hselect.unique helement
      obtain ⟨total, k, htotal, hk, -, -, hend⟩ := hinside
      cases hk.unique hm
      exact ⟨total, htotal.of_byteSize hc hsize, hend⟩
    | cons first before =>
      cases heq
      cases hbefore with
      | cons hfirst hbefore =>
        obtain ⟨rfl, rfl⟩ := hfirst.unique hselect
        exact ih before n after rfl array _ hbefore c size hc hsize element d m helement hm

variable (g) in
/-- What the helper makes sure of when it follows a selector: the part lies inside the object, or
it is an element of an array with a size of its own. -/
structure Followed (type : ι) (selector : Selector) (part : ι) (offset : Int) : Prop where
  select : g.Select type selector part offset
  inside : g.Inside type part offset ∨
    ∃ n c size m, selector = .index n ∧ g.Unqualified type c ∧ (g.die c).byteSize = some size ∧
      g.TypeSize part m ∧ 0 ≤ m ∧ 0 ≤ offset

variable (g) in
/-- One selector followed after the other. -/
inductive AllFollowed : ι → List Selector → ι → Int → Prop
  | nil {type : ι} : AllFollowed type [] type 0
  | cons {type part last : ι} {selector : Selector} {selectors : List Selector}
      {offset rest : Int} : g.Followed type selector part offset →
      AllFollowed part selectors last rest →
      AllFollowed type (selector :: selectors) last (offset + rest)

theorem ElementsFit.tail {type part : ι} {selector : Selector} {selectors : List Selector}
    {offset : Int} (h : g.ElementsFit type (selector :: selectors))
    (hselect : g.Select type selector part offset) : g.ElementsFit part selectors := by
  intro before n after heq array start hbefore
  exact h (selector :: before) n after (congrArg _ heq) array _ (.cons hselect hbefore)

/-- What the helper has followed is a chain of parts if and only if the elements fit. -/
theorem AllFollowed.subObject_iff {type last : ι} {selectors : List Selector} {offset : Int}
    (h : g.AllFollowed type selectors last offset) :
    g.SubObject type selectors last offset ↔ g.ElementsFit type selectors := by
  refine ⟨SubObject.elementsFit, fun hfit => ?_⟩
  induction h with
  | nil => exact .nil
  | cons hfollowed _ ih =>
    refine .cons hfollowed.select ?_ (ih (hfit.tail hfollowed.select))
    rcases hfollowed.inside with hinside | ⟨n, c, size, m, rfl, hc, hsize, hm, hnonneg, hstart⟩
    · exact hinside
    · obtain ⟨total, rfl, hend⟩ :=
        hfit [] n _ rfl _ _ .nil c size hc hsize _ _ m hfollowed.select hm
      exact ⟨total, m, .declared hc hsize, hm, hnonneg, hstart, hend⟩

/-! ### What the helper computes -/

theorem typeOfIn_sound (left : Nat) : ∀ {die type : ι}, g.typeOfIn left die = .ok type →
    g.TypeRef die type := by
  induction left with
  | zero =>
    intro die type h
    cases h
  | succ left ih =>
    intro die type h
    rw [typeOfIn] at h
    cases htype : (g.die die).type with
    | some found =>
      rw [htype] at h
      cases h
      exact .own htype
    | none =>
      rw [htype] at h
      cases horigin : (g.die die).abstractOrigin with
      | some next =>
        rw [horigin] at h
        exact .origin htype horigin (ih h)
      | none =>
        rw [horigin] at h
        cases hnext : (g.die die).specification with
        | some next =>
          rw [hnext] at h
          exact .specification htype horigin hnext (ih h)
        | none =>
          rw [hnext] at h
          cases h

theorem typeOf_sound {die type : ι} (h : g.typeOf die = .ok type) : g.TypeRef die type :=
  typeOfIn_sound 17 h

theorem canonicalIn_sound [DecidableEq ι] (left : Nat) : ∀ {seen : List ι} {die c : ι},
    g.canonicalIn left seen die = .ok c → g.Unqualified die c := by
  induction left with
  | zero =>
    intro seen die c h
    rw [canonicalIn] at h
    split at h
    · cases h
    · next hplain =>
      cases h
      exact .self (Bool.eq_false_iff.mpr hplain)
  | succ left ih =>
    intro seen die c h
    rw [canonicalIn] at h
    split at h
    · next hqualifier =>
      split at h
      · cases h
      · obtain ⟨next, htype, hrest⟩ := bind_eq_ok_iff.mp h
        exact .step hqualifier (typeOf_sound htype) (ih hrest)
    · next hplain =>
      cases h
      exact .self (Bool.eq_false_iff.mpr hplain)

theorem canonical_sound [DecidableEq ι] {die c : ι} (h : g.canonical die = .ok c) :
    g.Unqualified die c :=
  canonicalIn_sound 17 h

theorem constant_eq_ok {attr : Option Constant} {value : Option Int} :
    constant attr = .ok value ↔ attr = value.map .value := by
  cases attr with
  | none =>
    cases value with
    | none => exact iff_of_true rfl rfl
    | some n => exact iff_of_false (fun h => by cases h) fun h => by cases h
  | some attr =>
    cases attr with
    | value n =>
      cases value with
      | none => exact iff_of_false (fun h => by cases h) fun h => by cases h
      | some m =>
        constructor
        · intro h
          cases h
          rfl
        · intro h
          cases h
          rfl
    | dynamic =>
      refine iff_of_false (fun h => by cases h) fun h => ?_
      cases value <;> cases h

theorem countOf_sound {sub : Die ι} {low count : Int} (h : countOf sub low = .ok count) :
    Extent sub low count := by
  obtain ⟨given, hgiven, h⟩ := bind_eq_ok_iff.mp h
  have hcount := constant_eq_ok.mp hgiven
  cases given with
  | some n =>
    cases h
    exact .inl hcount
  | none =>
    obtain ⟨high, hhigh, h⟩ := bind_eq_ok_iff.mp h
    have hupper := constant_eq_ok.mp hhigh
    cases high with
    | none => cases h
    | some high =>
      cases h
      have hvalue : high - low + 1 - 1 + low = high := by omega
      refine .inr ⟨hcount, ?_⟩
      rw [hvalue]
      exact hupper

theorem arrayBounds_sound {die element : ι} {low count : Int} {given : Option Int}
    (h : g.arrayBounds die = .ok (element, low, count, given))
    (htag : (g.die die).tag = .arrayType) :
    g.ArrayOf die element low count ∧ 0 ≤ count ∧
      (g.die die).byteStride = given.map .value := by
  obtain ⟨found, htype, h⟩ := bind_eq_ok_iff.mp h
  split at h
  · next sub hsub =>
    obtain ⟨lower, hlower, h⟩ := bind_eq_ok_iff.mp h
    obtain ⟨n, hcount, h⟩ := bind_eq_ok_iff.mp h
    obtain ⟨n', hchecked, h⟩ := bind_eq_ok_iff.mp h
    obtain ⟨stride, hstride, h⟩ := bind_eq_ok_iff.mp h
    have hlow : LowerBound (g.die sub) (lower.getD 0) := by
      have hattr := constant_eq_ok.mp hlower
      cases lower with
      | none => exact .inr ⟨hattr, rfl⟩
      | some low => exact .inl hattr
    split at h
    · cases h
    · cases h
      exact ⟨⟨htag, typeOf_sound htype, sub, hsub, hlow, countOf_sound hcount⟩,
        (checked_ok hchecked).2.1, constant_eq_ok.mp hstride⟩
  · cases h

/-- What `array` returns of an array type, if the sizes it asks for are right. -/
theorem arrayWith_sound {size : ι → Except Raised Int}
    (hsize : ∀ {die n}, size die = .ok n → g.TypeSize die n ∧ 0 ≤ n) {die element : ι}
    {low count stride : Int} (h : g.arrayWith size die = .ok (element, low, count, stride))
    (htag : (g.die die).tag = .arrayType) :
    g.ArrayOf die element low count ∧ 0 ≤ count ∧ g.ArrayStride die element stride ∧
      ∃ m, g.TypeSize element m ∧ 0 ≤ m ∧ m ≤ stride := by
  obtain ⟨⟨element', low', count', given⟩, hbounds, h⟩ := bind_eq_ok_iff.mp h
  obtain ⟨stride', hstride, h⟩ := bind_eq_ok_iff.mp h
  obtain ⟨m, hm, h⟩ := bind_eq_ok_iff.mp h
  split at h
  · cases h
  · next hle =>
    cases h
    obtain ⟨harray, hcount, hgiven⟩ := arrayBounds_sound hbounds htag
    obtain ⟨helement, hnonneg⟩ := hsize hm
    refine ⟨harray, hcount, ?_, m, helement, hnonneg, Int.not_lt.mp hle⟩
    cases given with
    | some n =>
      cases hstride
      exact .inl hgiven
    | none => exact .inr ⟨hgiven, (hsize hstride).1⟩

/-- The size of an array type that has none of its own. -/
theorem ArrayOf.typeSize {die c element : ι} {low count stride : Int} (hc : g.Unqualified die c)
    (hnone : (g.die c).byteSize = none) (harray : g.ArrayOf c element low count)
    (hstride : g.ArrayStride c element stride) : g.TypeSize die (count * stride) := by
  rcases hstride with hgiven | ⟨hpacked, helement⟩
  · exact .strided hc hnone harray hgiven
  · exact .packed hc hnone harray hpacked helement

section Calls

variable [DecidableEq ι]

theorem size_sound (frames : Nat) : ∀ {die : ι} {depth : Nat} {n : Int},
    g.size frames die depth = .ok n → g.TypeSize die n ∧ 0 ≤ n := by
  induction frames with
  | zero =>
    intro die depth n h
    cases h
  | succ frames ih =>
    intro die depth n h
    rw [size] at h
    split at h
    · cases h
    obtain ⟨c, hcanonical, h⟩ := bind_eq_ok_iff.mp h
    have hc := canonical_sound hcanonical
    cases hsize : (g.die c).byteSize with
    | some given =>
      simp only [hsize] at h
      cases given with
      | int m =>
        obtain ⟨rfl, hnonneg, -⟩ := checked_ok h
        exact ⟨.declared hc hsize, hnonneg⟩
      | flag => cases h
      | other => cases h
    | none =>
      simp only [hsize] at h
      split at h
      · next htag =>
        cases h
        exact ⟨.pointer hc hsize htag, by decide⟩
      split at h
      · next htag =>
        obtain ⟨⟨element, low, count, stride⟩, harray, h⟩ := bind_eq_ok_iff.mp h
        obtain ⟨hshape, -, hstride, -⟩ := arrayWith_sound ih harray htag
        obtain ⟨rfl, hnonneg, -⟩ := checked_ok h
        exact ⟨hshape.typeSize hc hsize hstride, hnonneg⟩
      · cases h

variable {frames : Nat}

theorem sizeOf_sound {die : ι} {n : Int} (h : g.sizeOf frames die = .ok n) :
    g.TypeSize die n ∧ 0 ≤ n :=
  size_sound frames h

omit [DecidableEq ι] in
theorem memberOffset_sound {c m : ι} {offset : Int} (h : g.memberOffset c m = .ok offset) :
    g.MemberAt c m offset ∧ 0 ≤ offset := by
  rw [memberOffset] at h
  split at h
  · next n hlocation =>
    obtain ⟨rfl, hnonneg, -⟩ := checked_ok h
    exact ⟨.inl hlocation, hnonneg⟩
  · cases h
  · cases h
  · next hnone =>
    split at h
    · next htag =>
      cases h
      exact ⟨.inr ⟨hnone, htag, rfl⟩, Int.le_refl _⟩
    · cases h

omit [DecidableEq ι] in
/-- The members under a name are those whose name it is. -/
theorem filter_namedMembers {c : ι} {members : List (ι × Option Text)} {name : Text}
    (h : g.namedMembers c = .ok members) :
    (members.filter fun d => d.2 = some name).map Prod.fst =
      (g.die c).children.filter fun d => (g.die d).tag = .member ∧ g.name d = .ok (some name) := by
  have hnames : ∀ (ds : List ι) {found : List (ι × Option Text)},
      (ds.mapM fun d => do return (d, ← g.name d)) = .ok found →
        (found.filter fun d => d.2 = some name).map Prod.fst =
          ds.filter fun d => g.name d = .ok (some name) := by
    intro ds
    induction ds with
    | nil =>
      intro found hfound
      cases hfound
      rfl
    | cons d ds ih =>
      intro found hfound
      rw [List.mapM_cons] at hfound
      obtain ⟨first, hfirst, hfound⟩ := bind_eq_ok_iff.mp hfound
      obtain ⟨rest, hrest, hfound⟩ := bind_eq_ok_iff.mp hfound
      obtain ⟨label, hlabel, hfirst⟩ := bind_eq_ok_iff.mp hfirst
      cases hfirst
      cases hfound
      have hrest' := ih hrest
      by_cases hsame : label = some name
      · simp only [List.filter_cons, hsame, hlabel, decide_true, if_true, List.map_cons, hrest']
      · have hother : ¬ (.ok label : Except Raised (Option Text)) = .ok (some name) := by
          intro heq
          cases heq
          exact hsame rfl
        simp only [List.filter_cons, hsame, hlabel, hother, decide_false, Bool.false_eq_true,
          if_false, hrest']
  rw [hnames _ h, List.filter_filter]
  refine List.filter_congr fun d _ => ?_
  rw [Bool.decide_and, Bool.and_comm]

/-- The member that `member` returns lies inside the type. -/
theorem member_followed {type c child : ι} {name : Text} {offset : Int} (hc : g.Unqualified type c)
    (htag : (g.die c).tag = .structureType ∨ (g.die c).tag = .unionType)
    (h : g.member frames c name = .ok (child, offset)) :
    g.Followed type (.member name) child offset := by
  obtain ⟨members, hmembers, h⟩ := bind_eq_ok_iff.mp h
  have hfilter : (members.filter fun d => d.2 = some name).map Prod.fst =
      (g.die c).children.filter fun d => (g.die d).tag = .member ∧ g.name d = .ok (some name) :=
    filter_namedMembers hmembers
  split at h
  · next m label hfound =>
    rw [hfound] at hfilter
    split at h
    · cases h
    obtain ⟨offset', hoffset, h⟩ := bind_eq_ok_iff.mp h
    obtain ⟨child', htype, h⟩ := bind_eq_ok_iff.mp h
    obtain ⟨k, hk, h⟩ := bind_eq_ok_iff.mp h
    obtain ⟨n, hn, h⟩ := bind_eq_ok_iff.mp h
    split at h
    · cases h
    · next hle =>
      cases h
      obtain ⟨hat, hnonneg⟩ := memberOffset_sound hoffset
      obtain ⟨hchild, hk⟩ := sizeOf_sound hk
      obtain ⟨htotal, -⟩ := sizeOf_sound hn
      exact ⟨.member hc ⟨htag, hfilter.symm⟩ hat (typeOf_sound htype),
        .inl ⟨n, k, htotal.of_unqualified hc, hchild, hk, hnonneg, Int.not_lt.mp hle⟩⟩
  · cases h

/-- The element that an index selects lies inside an array without a size of its own. -/
theorem array_followed {type c element : ι} {low count stride : Int} {i : Nat}
    (hc : g.Unqualified type c) (htag : (g.die c).tag = .arrayType)
    (h : g.array frames c = .ok (element, low, count, stride)) (hlow : low ≤ i)
    (hhigh : i < low + count) : g.Followed type (.index i) element ((i - low) * stride) := by
  obtain ⟨harray, hcount, hstride, m, hm, hnonneg, hle⟩ := arrayWith_sound sizeOf_sound h htag
  have hoffset : 0 ≤ ((i : Int) - low) * stride :=
    Int.mul_nonneg (by omega) (Int.le_trans hnonneg hle)
  refine ⟨.index hc harray hstride hlow hhigh, ?_⟩
  cases hsize : (g.die c).byteSize with
  | some size => exact .inr ⟨i, c, size, m, rfl, hc, hsize, hm, hnonneg, hoffset⟩
  | none =>
    have hlast : ((i : Int) - low + 1) * stride ≤ count * stride :=
      Int.mul_le_mul_of_nonneg_right (by omega) (Int.le_trans hnonneg hle)
    rw [Int.add_mul, Int.one_mul] at hlast
    exact .inl ⟨count * stride, m, harray.typeSize hc hsize hstride, hm, hnonneg, hoffset,
      by omega⟩

end Calls

end Graph

end Dwarf

end AmigaDevbench.Winuae
