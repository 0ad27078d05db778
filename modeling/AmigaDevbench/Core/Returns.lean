import Mathlib.Data.List.Basic

/-!
# Computations that return

`Returns x` says that a computation in `Except` ends without an exception. Sequencing returns
when every stage does, so the totality of a function written in `Except` is read off its
conversions, one after the other. `Ensures P x` is the matching statement about the value.
-/

namespace AmigaDevbench

universe u

variable {ε : Type*} {α β : Type u}

/-- The computation ends with a value. -/
def Returns (x : Except ε α) : Prop := ∃ a, x = .ok a

@[simp] theorem returns_ok (a : α) : Returns (.ok a : Except ε α) := ⟨a, rfl⟩

@[simp] theorem returns_pure (a : α) : Returns (pure a : Except ε α) := ⟨a, rfl⟩

@[simp] theorem not_returns_error (e : ε) : ¬ Returns (.error e : Except ε α) := by
  rintro ⟨a, ha⟩
  cases ha

theorem ok_bind (a : α) (f : α → Except ε β) : (.ok a : Except ε α) >>= f = f a := rfl

/-- A sequence ends with a value exactly when its stages do. -/
theorem bind_eq_ok_iff {x : Except ε α} {f : α → Except ε β} {b : β} :
    x >>= f = .ok b ↔ ∃ a, x = .ok a ∧ f a = .ok b := by
  cases x with
  | ok a => exact ⟨fun h => ⟨a, rfl, h⟩, fun ⟨_, ha, h⟩ => by cases ha; exact h⟩
  | error e => exact ⟨fun h => (nomatch h), fun ⟨_, ha, _⟩ => (nomatch ha)⟩

/-- A sequence returns exactly when its first stage does and the rest returns on that value. -/
theorem returns_bind_iff {x : Except ε α} {f : α → Except ε β} :
    Returns (x >>= f) ↔ ∃ a, x = .ok a ∧ Returns (f a) := by
  cases x with
  | ok a =>
    constructor
    · intro h
      exact ⟨a, rfl, h⟩
    · rintro ⟨b, hb, h⟩
      cases hb
      exact h
  | error e =>
    constructor
    · intro h
      exact absurd h (not_returns_error e)
    · rintro ⟨b, hb, _⟩
      cases hb

/-- When what follows returns or not independently of the value, the two stages separate. -/
theorem returns_bind_of_const {x : Except ε α} {f : α → Except ε β} {p : Prop}
    (hf : ∀ a, Returns (f a) ↔ p) : Returns (x >>= f) ↔ Returns x ∧ p := by
  rw [returns_bind_iff]
  constructor
  · rintro ⟨a, ha, h⟩
    exact ⟨⟨a, ha⟩, (hf a).mp h⟩
  · rintro ⟨⟨a, ha⟩, h⟩
    exact ⟨a, ha, (hf a).mpr h⟩

/-- Mapping a computation over a list returns exactly when it returns on every element. -/
theorem returns_mapM_iff (f : α → Except ε β) (xs : List α) :
    Returns (xs.mapM f) ↔ ∀ x ∈ xs, Returns (f x) := by
  induction xs with
  | nil => simp
  | cons x xs ih =>
    rw [List.mapM_cons, returns_bind_of_const (p := ∀ y ∈ xs, Returns (f y))]
    · simp only [List.forall_mem_cons]
    · intro a
      rw [returns_bind_of_const (p := True) (fun _ => by simp), ih, and_true]

/-- Each element of the result is what the computation yields for its element. -/
theorem forall₂_of_mapM {f : α → Except ε β} {xs : List α} : ∀ {ys : List β},
    xs.mapM f = .ok ys → List.Forall₂ (fun x y => f x = .ok y) xs ys := by
  induction xs with
  | nil =>
    intro ys h
    cases h
    exact .nil
  | cons x xs ih =>
    intro ys h
    rw [List.mapM_cons] at h
    obtain ⟨y, hy, hrest⟩ := bind_eq_ok_iff.mp h
    obtain ⟨rest, hmap, hys⟩ := bind_eq_ok_iff.mp hrest
    cases hys
    exact .cons hy (ih hmap)

/-- A computation that returns on every element is mapped like a function. -/
theorem mapM_eq_map {f : α → Except ε β} {g : α → β} {xs : List α}
    (h : ∀ x ∈ xs, f x = .ok (g x)) : xs.mapM f = .ok (xs.map g) := by
  induction xs with
  | nil => rfl
  | cons x xs ih =>
    rw [List.mapM_cons, h x List.mem_cons_self, ok_bind,
      ih fun y hy => h y (List.mem_cons_of_mem _ hy), ok_bind]
    rfl

/-- An element that is mapped to a result. -/
theorem exists_of_forall₂ {R : α → β → Prop} {xs : List α} {ys : List β}
    (h : List.Forall₂ R xs ys) {x : α} (hx : x ∈ xs) : ∃ y ∈ ys, R x y := by
  induction h with
  | nil => cases hx
  | cons hxy _ ih =>
    rcases List.mem_cons.mp hx with rfl | hx
    · exact ⟨_, List.mem_cons_self, hxy⟩
    · obtain ⟨y, hy, hR⟩ := ih hx
      exact ⟨y, List.mem_cons_of_mem _ hy, hR⟩

/-- What each step of a fold keeps holds of its result. -/
theorem foldlM_keeps {f : β → α → Except ε β} {P : β → Prop} {xs : List α}
    (hstep : ∀ x ∈ xs, ∀ a b, P a → f a x = .ok b → P b) : ∀ {a b : β},
    P a → xs.foldlM f a = .ok b → P b := by
  induction xs with
  | nil =>
    intro a b ha h
    cases h
    exact ha
  | cons x xs ih =>
    intro a b ha h
    rw [List.foldlM_cons] at h
    obtain ⟨c, hc, hrest⟩ := bind_eq_ok_iff.mp h
    exact ih (fun y hy => hstep y (List.mem_cons_of_mem _ hy))
      (hstep x List.mem_cons_self a c ha hc) hrest

/-- Every value the computation can end with satisfies `P`. -/
def Ensures (P : α → Prop) (x : Except ε α) : Prop := ∀ a, x = .ok a → P a

theorem ensures_ok {P : α → Prop} {a : α} (h : P a) : Ensures P (.ok a : Except ε α) := by
  intro b hb
  cases hb
  exact h

theorem ensures_pure {P : α → Prop} {a : α} (h : P a) : Ensures P (pure a : Except ε α) :=
  ensures_ok h

theorem ensures_bind {P : β → Prop} {x : Except ε α} {f : α → Except ε β}
    (h : ∀ a, Ensures P (f a)) : Ensures P (x >>= f) := by
  cases x with
  | ok a => exact h a
  | error e =>
    intro b hb
    cases hb

/-! ### Values and exceptions -/

/-- The computation ends with a value with `R` or with an exception with `F`. -/
def Ends (R : α → Prop) (F : ε → Prop) : Except ε α → Prop
  | .ok a => R a
  | .error e => F e

section Ends

variable {R R' : α → Prop} {S : β → Prop} {F : ε → Prop} {x : Except ε α}

theorem ends_bind {f : α → Except ε β} (hx : Ends R F x) (hf : ∀ a, R a → Ends S F (f a)) :
    Ends S F (x >>= f) := by
  cases x with
  | ok a => exact hf a hx
  | error e => exact hx

/-- Where what follows always ends so, the first stage decides. -/
theorem ends_bind_iff {f : α → Except ε β} (hf : ∀ a, Ends S F (f a)) :
    Ends S F (x >>= f) ↔ Ends (fun _ => True) F x := by
  cases x with
  | ok a => exact iff_of_true (hf a) trivial
  | error e => exact Iff.rfl

theorem Ends.mono (hx : Ends R F x) (hR : ∀ a, R a → R' a) : Ends R' F x := by
  cases x with
  | ok a => exact hR a hx
  | error e => exact hx

theorem Ends.of_ok {a : α} (hx : Ends R F x) (h : x = .ok a) : R a := by
  rw [h] at hx
  exact hx

theorem Ends.of_error {e : ε} (hx : Ends R F x) (h : x = .error e) : F e := by
  rw [h] at hx
  exact hx

theorem ends_mapM {f : β → Except ε α} {ys : List β} (h : ∀ y ∈ ys, Ends R F (f y)) :
    Ends (fun xs => ∀ x ∈ xs, R x) F (ys.mapM f) := by
  induction ys with
  | nil => exact fun x hx => (List.not_mem_nil hx).elim
  | cons y ys ih =>
    rw [List.mapM_cons]
    refine ends_bind (h y List.mem_cons_self) fun a ha => ?_
    refine ends_bind (ih fun z hz => h z (List.mem_cons_of_mem _ hz)) fun as has => ?_
    exact List.forall_mem_cons.mpr ⟨ha, has⟩

theorem ends_foldlM {f : β → α → Except ε β} {xs : List α} {b : β}
    (h : ∀ x ∈ xs, ∀ b, S b → Ends S F (f b x)) (hb : S b) : Ends S F (xs.foldlM f b) := by
  induction xs generalizing b with
  | nil => exact hb
  | cons x xs ih =>
    rw [List.foldlM_cons]
    refine ends_bind (h x List.mem_cons_self b hb) fun c hc => ?_
    exact ih (fun y hy => h y (List.mem_cons_of_mem _ hy)) hc

end Ends

end AmigaDevbench
