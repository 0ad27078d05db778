import Mathlib.Data.List.Basic

/-!
# Code that changes a state and may raise

An action runs on a state and either returns or raises; in both cases the changes it has made
stay. A triple speaks about the two exits separately, so a `finally` clause has a rule of its own.
-/

namespace AmigaDevbench

universe u

/-- Actions on states of type `σ` that raise exceptions of type `ε`. -/
abbrev Raises (ε σ : Type u) := ExceptT ε (StateM σ)

namespace Raises

variable {ε σ α β : Type u}

/-- How an action ends and the state it leaves. -/
def outcome (x : Raises ε σ α) (s : σ) : Except ε α × σ := x.run.run s

@[simp] theorem outcome_pure (a : α) (s : σ) :
    (pure a : Raises ε σ α).outcome s = (.ok a, s) := rfl

@[simp] theorem outcome_throw (e : ε) (s : σ) :
    (throw e : Raises ε σ α).outcome s = (.error e, s) := rfl

@[simp] theorem outcome_liftExcept (r : Except ε α) (s : σ) :
    (liftExcept r : Raises ε σ α).outcome s = (r, s) := by
  cases r with
  | ok a => rfl
  | error e => rfl

@[simp] theorem outcome_modify (f : σ → σ) (s : σ) :
    (modify f : Raises ε σ PUnit).outcome s = (.ok ⟨⟩, f s) := rfl

@[simp] theorem outcome_get (s : σ) : (get : Raises ε σ σ).outcome s = (.ok s, s) := rfl

/-- What holds of the state behind a return and behind an exception. -/
def Exits (Q : α → σ → Prop) (E : σ → Prop) : Except ε α × σ → Prop
  | (.ok a, s) => Q a s
  | (.error _, s) => E s

/-- From a state with `P` the action returns a value with `Q`, or raises in a state with `E`. -/
def Triple (P : σ → Prop) (x : Raises ε σ α) (Q : α → σ → Prop) (E : σ → Prop) : Prop :=
  ∀ s, P s → Exits Q E (x.outcome s)

/-- The action keeps `P`, whether it returns or raises. -/
def Keeps (P : σ → Prop) (x : Raises ε σ α) : Prop := Triple P x (fun _ => P) P

variable {P P' : σ → Prop} {Q Q' : α → σ → Prop} {E E' : σ → Prop} {x : Raises ε σ α}

theorem triple_pure {a : α} (h : ∀ s, P s → Q a s) : Triple P (pure a : Raises ε σ α) Q E :=
  fun s hs => h s hs

theorem triple_throw {e : ε} (h : ∀ s, P s → E s) : Triple P (throw e : Raises ε σ α) Q E :=
  fun s hs => h s hs

theorem triple_modify {f : σ → σ} {R : PUnit → σ → Prop} (h : ∀ s, P s → R ⟨⟩ (f s)) :
    Triple P (modify f : Raises ε σ PUnit) R E :=
  fun s hs => h s hs

/-- The value read is the state itself. -/
theorem triple_get {R : σ → σ → Prop} (h : ∀ s, P s → R s s) :
    Triple P (get : Raises ε σ σ) R E :=
  fun s hs => h s hs

/-- An outcome that does not depend on the state. -/
theorem triple_liftExcept {r : Except ε α} (hreturn : ∀ a s, r = .ok a → P s → Q a s)
    (hraise : ∀ s, P s → E s) : Triple P (liftExcept r : Raises ε σ α) Q E := by
  cases r with
  | ok a => exact fun s hs => hreturn a s rfl hs
  | error e => exact fun s hs => hraise s hs

theorem Triple.conseq (h : Triple P x Q E) (hpre : ∀ s, P' s → P s)
    (hpost : ∀ a s, Q a s → Q' a s) (hraise : ∀ s, E s → E' s) : Triple P' x Q' E' := by
  intro s hs
  have hx := h s (hpre s hs)
  revert hx
  rcases x.outcome s with ⟨r, s'⟩
  cases r with
  | ok a => exact hpost a s'
  | error e => exact hraise s'

/-- A precondition that does not depend on the state. -/
theorem triple_of_and {p : Prop} (h : p → Triple P x Q E) :
    Triple (fun s => p ∧ P s) x Q E := fun s hs => h hs.1 s hs.2

/-- Two triples about one action. -/
theorem Triple.and {R : α → σ → Prop} {F : σ → Prop} (h : Triple P x Q E)
    (h' : Triple P' x R F) :
    Triple (fun s => P s ∧ P' s) x (fun a s => Q a s ∧ R a s) (fun s => E s ∧ F s) := by
  rintro s ⟨hs, hs'⟩
  have hx := h s hs
  have hx' := h' s hs'
  revert hx hx'
  rcases x.outcome s with ⟨r, s'⟩
  cases r with
  | ok a => exact fun hq hr => ⟨hq, hr⟩
  | error e => exact fun he hf => ⟨he, hf⟩

/-- An action with no exit by an exception returns. -/
theorem returns_of_triple (h : Triple P x Q fun _ => False) {s : σ} (hs : P s) :
    ∃ a s', x.outcome s = (.ok a, s') := by
  have hx := h s hs
  revert hx
  rcases x.outcome s with ⟨r, s'⟩
  cases r with
  | ok a => exact fun _ => ⟨a, s', rfl⟩
  | error e => exact fun hfalse => hfalse.elim

/-- The second action runs on the state of the first if that returns. -/
theorem outcome_bind (x : Raises ε σ α) (f : α → Raises ε σ β) (s : σ) :
    (x >>= f).outcome s = match x.outcome s with
      | (.ok a, s') => (f a).outcome s'
      | (.error e, s') => (.error e, s') := by
  simp only [outcome, ExceptT.run_bind, StateT.run_bind]
  change (match x.run.run s with
    | (r, s') => StateT.run (match r with
      | .ok a => (f a).run
      | .error e => pure (.error e)) s') = _
  rcases x.run.run s with ⟨r, s'⟩
  cases r with
  | ok a => rfl
  | error e => rfl

/-- A sequence returns exactly where its stages do. -/
theorem outcome_bind_eq_ok {x : Raises ε σ α} {f : α → Raises ε σ β} {s t : σ} {b : β} :
    (x >>= f).outcome s = (.ok b, t) ↔
      ∃ a s', x.outcome s = (.ok a, s') ∧ (f a).outcome s' = (.ok b, t) := by
  rw [outcome_bind]
  rcases x.outcome s with ⟨r, s'⟩
  cases r with
  | ok a =>
    constructor
    · exact fun h => ⟨a, s', rfl, h⟩
    · rintro ⟨a', s'', heq, h⟩
      cases heq
      exact h
  | error e =>
    constructor
    · intro h
      cases h
    · rintro ⟨a', s'', heq, _⟩
      cases heq

theorem triple_bind {f : α → Raises ε σ β} {R : β → σ → Prop} (hx : Triple P x Q E)
    (hf : ∀ a, Triple (Q a) (f a) R E) : Triple P (x >>= f) R E := by
  intro s hs
  have hfirst := hx s hs
  rw [outcome_bind]
  revert hfirst
  rcases x.outcome s with ⟨r, s'⟩
  cases r with
  | ok a => exact hf a s'
  | error e => exact id

/-- An exception of the first action is answered by the handler. -/
theorem outcome_tryCatch (x : Raises ε σ α) (handler : ε → Raises ε σ α) (s : σ) :
    (tryCatch x handler : Raises ε σ α).outcome s = match x.outcome s with
      | (.ok a, s') => (.ok a, s')
      | (.error e, s') => (handler e).outcome s' := by
  change ExceptT.run (ExceptT.tryCatch x handler) s = _
  simp only [outcome, ExceptT.tryCatch]
  change (match x.run.run s with
    | (r, s') => StateT.run (match r with
      | Except.ok a => pure (Except.ok a)
      | Except.error e => (handler e).run) s') = _
  rcases x.run.run s with ⟨r, s'⟩
  cases r with
  | ok a => rfl
  | error e => rfl

theorem triple_tryCatch {handler : ε → Raises ε σ α} (hx : Triple P x Q E)
    (hhandler : ∀ e, Triple E (handler e) Q E') :
    Triple P (tryCatch x handler : Raises ε σ α) Q E' := by
  intro s hs
  have hfirst := hx s hs
  rw [outcome_tryCatch]
  revert hfirst
  rcases x.outcome s with ⟨r, s'⟩
  cases r with
  | ok a => exact id
  | error e => exact hhandler e s'

/-- The `finally` clause runs on either exit, and its own exception wins. -/
theorem outcome_tryFinally (x : Raises ε σ α) (y : Raises ε σ β) (s : σ) :
    (tryFinally x y : Raises ε σ α).outcome s = match x.outcome s with
      | (r, s') => match y.outcome s' with
        | (.ok _, s'') => (r, s'')
        | (.error e, s'') => (.error e, s'') := by
  rcases hx : x.outcome s with ⟨r, s'⟩
  rcases hy : y.outcome s' with ⟨r', s''⟩
  have hfirst : x s = (r, s') := hx
  have hsecond : y s' = (r', s'') := hy
  change (tryFinally x y : Raises ε σ α) s = _
  cases r <;> cases r' <;>
    simp only [tryFinally, tryFinally', ExceptT.mk, hfirst, hsecond, hy, bind, StateT.bind,
      Functor.map, ExceptT.map] <;> rfl

theorem triple_tryFinally {y : Raises ε σ β} {R : α → σ → Prop} (hx : Triple P x Q E)
    (hreturned : ∀ a, Triple (Q a) y (fun _ => R a) E') (hraised : Triple E y (fun _ => E') E') :
    Triple P (tryFinally x y : Raises ε σ α) R E' := by
  intro s hs
  have hfirst := hx s hs
  rw [outcome_tryFinally]
  revert hfirst
  rcases x.outcome s with ⟨r, s'⟩
  cases r with
  | ok a =>
    intro hq
    have hsecond := hreturned a s' hq
    revert hsecond
    simp only
    rcases y.outcome s' with ⟨r', s''⟩
    cases r' with
    | ok b => exact id
    | error e => exact id
  | error e =>
    intro he
    have hsecond := hraised s' he
    revert hsecond
    simp only
    rcases y.outcome s' with ⟨r', s''⟩
    cases r' with
    | ok b => exact id
    | error e => exact id

/-! ### Values and exceptions without the state -/

section Yields

variable {R : α → Prop} {S : β → Prop} {F : ε → Prop}

/-- From every state the action returns a value with `R` or raises an exception with `F`. -/
def Yields (R : α → Prop) (F : ε → Prop) (x : Raises ε σ α) : Prop :=
  ∀ s, match (x.outcome s).1 with
    | .ok a => R a
    | .error e => F e

theorem yields_pure {a : α} (h : R a) : Yields R F (pure a : Raises ε σ α) := fun _ => h

theorem yields_throw {e : ε} (h : F e) : Yields R F (throw e : Raises ε σ α) := fun _ => h

theorem yields_modify (f : σ → σ) :
    Yields (fun _ => True) F (modify f : Raises ε σ PUnit) := fun _ => trivial

theorem yields_get : Yields (fun _ => True) F (get : Raises ε σ σ) := fun _ => trivial

theorem yields_liftExcept {r : Except ε α} (hreturn : ∀ a, r = .ok a → R a)
    (hraise : ∀ e, r = .error e → F e) : Yields R F (liftExcept r : Raises ε σ α) := by
  cases r with
  | ok a => exact fun _ => hreturn a rfl
  | error e => exact fun _ => hraise e rfl

theorem yields_bind {f : α → Raises ε σ β} (hx : Yields R F x)
    (hf : ∀ a, R a → Yields S F (f a)) : Yields S F (x >>= f) := by
  intro s
  have hfirst := hx s
  rw [outcome_bind]
  revert hfirst
  rcases x.outcome s with ⟨r, s'⟩
  cases r with
  | ok a => exact fun ha => hf a ha s'
  | error e => exact fun he => he

theorem yields_mapM {f : β → Raises ε σ α} {ys : List β} (h : ∀ y, Yields R F (f y)) :
    Yields (fun xs => ∀ x ∈ xs, R x) F (ys.mapM f) := by
  induction ys with
  | nil => exact yields_pure fun x hx => (List.not_mem_nil hx).elim
  | cons y ys ih =>
    rw [List.mapM_cons]
    refine yields_bind (h y) fun a ha => yields_bind ih fun as has => ?_
    exact yields_pure (List.forall_mem_cons.mpr ⟨ha, has⟩)

theorem Yields.mono {R' : α → Prop} {F' : ε → Prop} (hx : Yields R F x) (hR : ∀ a, R a → R' a)
    (hF : ∀ e, F e → F' e) : Yields R' F' x := by
  intro s
  have h := hx s
  revert h
  rcases x.outcome s with ⟨r, s'⟩
  cases r with
  | ok a => exact hR a
  | error e => exact hF e

/-- A value returned has the property. -/
theorem Yields.of_ok (hx : Yields R F x) {s s' : σ} {a : α} (h : x.outcome s = (.ok a, s')) :
    R a := by
  have hs := hx s
  rwa [h] at hs

/-- An exception raised has the property. -/
theorem Yields.of_error (hx : Yields R F x) {s s' : σ} {e : ε}
    (h : x.outcome s = (.error e, s')) : F e := by
  have hs := hx s
  rwa [h] at hs

/-- What is returned is returned from some state. -/
theorem yields_outcome (x : Raises ε σ α) :
    Yields (fun a => ∃ s s', x.outcome s = (.ok a, s')) (fun _ => True) x := by
  intro s
  rcases h : x.outcome s with ⟨r, s'⟩
  cases r with
  | ok a => exact ⟨s, s', h⟩
  | error e => exact trivial

/-- From this state an exception outside of `F` leaves the action. -/
def Escapes (F : ε → Prop) (x : Raises ε σ α) (s : σ) : Prop :=
  ∃ e s', x.outcome s = (.error e, s') ∧ ¬ F e

theorem Yields.not_escapes (hx : Yields R F x) (s : σ) : ¬ Escapes F x s := by
  rintro ⟨e, s', h, he⟩
  exact he (hx.of_error h)

@[simp] theorem escapes_pure {a : α} {s : σ} : ¬ Escapes F (pure a : Raises ε σ α) s := by
  rintro ⟨e, s', h, _⟩
  cases h

@[simp] theorem escapes_throw {e : ε} {s : σ} :
    Escapes F (throw e : Raises ε σ α) s ↔ ¬ F e := by
  refine ⟨?_, fun h => ⟨e, s, rfl, h⟩⟩
  rintro ⟨e', s', h, he⟩
  cases h
  exact he

theorem not_escapes_of_ok {s s' : σ} {a : α} (h : x.outcome s = (.ok a, s')) :
    ¬ Escapes F x s := by
  rintro ⟨e, s'', he, _⟩
  rw [h] at he
  cases he

theorem escapes_of_error {s s' : σ} {e : ε} (h : x.outcome s = (.error e, s')) :
    Escapes F x s ↔ ¬ F e := by
  refine ⟨?_, fun he => ⟨e, s', h, he⟩⟩
  rintro ⟨e', s'', h', he⟩
  rw [h] at h'
  cases h'
  exact he

/-- Behind a value the rest decides. -/
theorem escapes_bind_of_ok {f : α → Raises ε σ β} {s s' : σ} {a : α}
    (h : x.outcome s = (.ok a, s')) : Escapes F (x >>= f) s ↔ Escapes F (f a) s' := by
  rw [Escapes, outcome_bind, h]
  rfl

/-- An exception of the first action is that of the whole. -/
theorem escapes_bind_of_error {f : α → Raises ε σ β} {s s' : σ} {e : ε}
    (h : x.outcome s = (.error e, s')) : Escapes F (x >>= f) s ↔ ¬ F e :=
  by
  have hbind : (x >>= f).outcome s = (.error e, s') := by rw [outcome_bind, h]
  exact escapes_of_error hbind

/-- If nothing escapes from what follows, it escapes from the first action. -/
theorem escapes_bind_iff {f : α → Raises ε σ β} (hf : ∀ a s, ¬ Escapes F (f a) s) {s : σ} :
    Escapes F (x >>= f) s ↔ Escapes F x s := by
  rcases h : x.outcome s with ⟨r, s'⟩
  cases r with
  | ok a => exact iff_of_false (mt (escapes_bind_of_ok h).mp (hf a s')) (not_escapes_of_ok h)
  | error e => rw [escapes_bind_of_error h, escapes_of_error h]

end Yields

end Raises

end AmigaDevbench
