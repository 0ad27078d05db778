import Mathlib.Data.List.Basic
import Mathlib.Logic.Function.Iterate

/-!
# Runs of a step function

A system is a partial step function on states and labels. `permit` restricts the labels that are
taken, so a run is a run under a condition on its steps; an invariant that every permitted step
preserves holds in every state of such a run.
-/

namespace AmigaDevbench

variable {State Label : Type*}

/-- The states reached from `start` by permitted steps. -/
inductive Reaches (step : State → Label → Option State) (permit : State → Label → Prop)
    (start : State) : State → Prop where
  | refl : Reaches step permit start start
  | tail {s s' : State} {a : Label} (hrun : Reaches step permit start s) (hpermit : permit s a)
      (hstep : step s a = some s') : Reaches step permit start s'

variable {step : State → Label → Option State} {permit : State → Label → Prop}

/-- What holds at the start and is kept by every permitted step holds along the run. -/
theorem Reaches.invariant (Inv : State → Prop) {start s : State}
    (h : Reaches step permit start s) (hstart : Inv start)
    (hkeep : ∀ s a s', Inv s → permit s a → step s a = some s' → Inv s') : Inv s := by
  induction h with
  | refl => exact hstart
  | tail _ hpermit hstep ih => exact hkeep _ _ _ ih hpermit hstep

/-- A run may be begun one step earlier. -/
theorem Reaches.head {start t s : State} {a : Label} (hpermit : permit start a)
    (hstep : step start a = some t) (h : Reaches step permit t s) :
    Reaches step permit start s := by
  induction h with
  | refl => exact Reaches.refl.tail hpermit hstep
  | tail _ hpermit' hstep' ih => exact ih.tail hpermit' hstep'

/-- A run is empty or has a first step. -/
theorem Reaches.eq_or_head {start s : State} (h : Reaches step permit start s) :
    s = start ∨ ∃ a t, permit start a ∧ step start a = some t ∧ Reaches step permit t s := by
  induction h with
  | refl => exact .inl rfl
  | tail _ hpermit hstep ih =>
    refine .inr ?_
    rcases ih with rfl | ⟨b, t, hb, ht, hrest⟩
    · exact ⟨_, _, hpermit, hstep, .refl⟩
    · exact ⟨b, t, hb, ht, hrest.tail hpermit hstep⟩

/-- The state behind a sequence of labels. -/
def runLabels (step : State → Label → Option State) : State → List Label → Option State
  | s, [] => some s
  | s, a :: as => (step s a).bind (runLabels step · as)

/-- Every label of the sequence is permitted where it is taken. -/
def AllPermitted (step : State → Label → Option State) (permit : State → Label → Prop) :
    State → List Label → Prop
  | _, [] => True
  | s, a :: as => permit s a ∧ ∀ s' ∈ step s a, AllPermitted step permit s' as

/-- Whether a sequence is permitted is decided along the run. -/
def decideAllPermitted [∀ s a, Decidable (permit s a)] :
    ∀ (labels : List Label) (s : State), Decidable (AllPermitted step permit s labels)
  | [], _ => isTrue trivial
  | a :: labels, s =>
    match h : step s a with
    | none => decidable_of_iff (permit s a) (by simp [AllPermitted, h])
    | some t =>
      have := decideAllPermitted labels t
      decidable_of_iff (permit s a ∧ AllPermitted step permit t labels) (by simp [AllPermitted, h])

instance [∀ s a, Decidable (permit s a)] (s : State) (labels : List Label) :
    Decidable (AllPermitted step permit s labels) :=
  decideAllPermitted labels s

/-- A permitted sequence of labels is a run. -/
theorem Reaches.of_labels {start : State} {labels : List Label} :
    ∀ {s s' : State}, Reaches step permit start s → runLabels step s labels = some s' →
      AllPermitted step permit s labels → Reaches step permit start s' := by
  induction labels with
  | nil =>
    intro s s' hs hrun _
    cases hrun
    exact hs
  | cons a labels ih =>
    intro s s' hs hrun hpermitted
    obtain ⟨t, hstep, hrest⟩ := Option.bind_eq_some_iff.mp hrun
    exact ih (hs.tail hpermitted.1 hstep) hrest (hpermitted.2 t hstep)

theorem allPermitted_true (s : State) (labels : List Label) :
    AllPermitted step (fun _ _ => True) s labels := by
  induction labels generalizing s with
  | nil => trivial
  | cons a labels ih => exact ⟨trivial, fun s' _ => ih s'⟩

/-- The property holds in every state the labels lead through. -/
def Always (step : State → Label → Option State) (P : State → Prop) : State → List Label → Prop
  | s, [] => P s
  | s, a :: as => P s ∧ ∀ s' ∈ step s a, Always step P s' as

/-- In particular it holds in the last state. -/
theorem Always.last {P : State → Prop} {labels : List Label} :
    ∀ {s t : State}, Always step P s labels → runLabels step s labels = some t → P t := by
  induction labels with
  | nil =>
    intro s t hall hrun
    cases hrun
    exact hall
  | cons a labels ih =>
    intro s t hall hrun
    obtain ⟨s', hstep, hrest⟩ := Option.bind_eq_some_iff.mp hrun
    exact ih (hall.2 s' hstep) hrest

/-- What holds at the start and is kept by every step holds throughout. -/
theorem Always.of_inv {P : State → Prop}
    (hkeep : ∀ s a s', P s → step s a = some s' → P s') (labels : List Label) :
    ∀ s, P s → Always step P s labels := by
  induction labels with
  | nil => exact fun _ h => h
  | cons a labels ih => exact fun s h => ⟨h, fun s' hstep => ih s' (hkeep s a s' h hstep)⟩

/-- Where the condition says exactly which steps keep a property, a sequence of labels keeps it
throughout if and only if it is permitted. -/
theorem always_iff_allPermitted {Inv P : State → Prop}
    (hinv : ∀ s a s', Inv s → step s a = some s' → Inv s')
    (hexact : ∀ s a s', Inv s → P s → step s a = some s' → (P s' ↔ permit s a))
    (hdisabled : ∀ s a, step s a = none → permit s a) (labels : List Label) :
    ∀ s, Inv s → P s → (Always step P s labels ↔ AllPermitted step permit s labels) := by
  induction labels with
  | nil => exact fun s _ hP => iff_of_true hP trivial
  | cons a labels ih =>
    intro s hs hP
    cases hstep : step s a with
    | none =>
      simp only [Always, AllPermitted, hstep, Option.mem_def, reduceCtorEq, false_implies,
        implies_true, and_true]
      exact iff_of_true hP (hdisabled s a hstep)
    | some t =>
      simp only [Always, AllPermitted, hstep, Option.mem_def, Option.some.injEq, forall_eq']
      have ht := hexact s a t hs hP hstep
      constructor
      · intro hall
        have hnow : P t := by
          cases labels with
          | nil => exact hall.2
          | cons b rest => exact hall.2.1
        exact ⟨ht.mp hnow, (ih t (hinv s a t hs hstep) hnow).mp hall.2⟩
      · intro hall
        have hnow := ht.mpr hall.1
        exact ⟨hP, (ih t (hinv s a t hs hstep) hnow).mpr hall.2⟩

/-! ### Runs with a record -/

section Watch

variable {Record : Type*} {note : State → Label → Record → Record}

/-- A system whose runs are recorded: the record depends on the states and labels and has no
effect on them. -/
def watch (step : State → Label → Option State) (note : State → Label → Record → Record) :
    State × Record → Label → Option (State × Record)
  | (s, record), a => (step s a).map (·, note s a record)

theorem watch_eq_some {x y : State × Record} {a : Label} :
    watch step note x a = some y ↔ step x.1 a = some y.1 ∧ y.2 = note x.1 a x.2 := by
  obtain ⟨s, record⟩ := x
  obtain ⟨s', record'⟩ := y
  simp only [watch, Option.map_eq_some_iff, Prod.mk.injEq]
  constructor
  · rintro ⟨t, hstep, rfl, rfl⟩
    exact ⟨hstep, rfl⟩
  · rintro ⟨hstep, rfl⟩
    exact ⟨s', hstep, rfl, rfl⟩

end Watch

/-! ### Refinement with stuttering -/

section Stuttering

variable {Abs Out : Type*}

/-- What a run puts out: at most one item a step, in order. -/
def emit (visible : State → Label → Option Out) (s : State) (a : Label) (outs : List Out) :
    List Out := outs ++ (visible s a).toList

/-- If every permitted step is invisible and keeps the abstract state, or shows what the abstract
state shows and executes one abstract step, then a run shows a beginning of the abstract run. -/
theorem Reaches.refines {visible : State → Label → Option Out} (abs : State → Abs)
    (exec : Abs → Abs) (out : Abs → Out) {start : State} {x : State × List Out}
    (h : Reaches (watch step (emit visible)) (fun x a => permit x.1 a) (start, []) x)
    (hstep : ∀ s a s', permit s a → step s a = some s' →
      visible s a = none ∧ abs s' = abs s ∨
        visible s a = some (out (abs s)) ∧ abs s' = exec (abs s)) :
    x.2 = (List.range x.2.length).map (fun k => out (exec^[k] (abs start))) ∧
      abs x.1 = exec^[x.2.length] (abs start) := by
  induction h with
  | refl => exact ⟨rfl, rfl⟩
  | @tail x y a _ hpermit hnext ih =>
    obtain ⟨hshown, habs⟩ := ih
    obtain ⟨hstep', houts⟩ := watch_eq_some.mp hnext
    rcases hstep x.1 a y.1 hpermit hstep' with ⟨hsilent, hsame⟩ | ⟨hvisible, hexec⟩
    · have hkeep : y.2 = x.2 := by
        rw [houts, emit, hsilent, Option.toList_none, List.append_nil]
      rw [hkeep]
      exact ⟨hshown, hsame.trans habs⟩
    · have hgrow : y.2 = x.2 ++ [out (abs x.1)] := by
        rw [houts, emit, hvisible, Option.toList_some]
      rw [hgrow, List.length_append, List.length_singleton, List.range_succ, List.map_append,
        ← hshown, habs, hexec, habs, Function.iterate_succ_apply']
      exact ⟨rfl, rfl⟩

end Stuttering

end AmigaDevbench
