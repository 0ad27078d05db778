import Mathlib.Data.List.Nodup
import Mathlib.Data.Set.Basic
import Mathlib.Logic.Relation

/-!
# Flood fill

A stack of places to look at, and the places visited. Filling from a place visits the component of
it among the open places, so a sweep over all places finds every component once.
-/

namespace AmigaDevbench

namespace FloodFill

variable {α β : Type*} [DecidableEq α] (isOpen : α → Bool) (next : α → List α)

/-- The loop over the stack, for so many turns. What has been visited last is the head. -/
def fill (add : α → β → β) : Nat → List α → List α → β → List α × β
  | 0, _, visited, acc => (visited, acc)
  | _ + 1, [], visited, acc => (visited, acc)
  | n + 1, c :: stack, visited, acc =>
    if isOpen c ∧ c ∉ visited then fill add n (next c ++ stack) (c :: visited) (add c acc)
    else fill add n stack visited acc

/-- The loop over the places: what each filling has gathered. -/
def sweep (add : α → β → β) (single : α → β) (n : Nat) : List α → List α → List β
  | [], _ => []
  | c :: cells, visited =>
    if isOpen c ∧ c ∉ visited then
      (fill isOpen next add n [c] visited (single c)).2 ::
        sweep add single n cells (fill isOpen next add n [c] visited (single c)).1
    else sweep add single n cells visited

/-- Two open places, one next to the other. -/
def Adjacent (a b : α) : Prop := isOpen a = true ∧ isOpen b = true ∧ b ∈ next a

/-- The places that are linked to one by open places. -/
def component (a : α) : Set α := {b | Relation.ReflTransGen (Adjacent isOpen next) a b}

/-- No open place is next to a visited one and has not been visited. -/
def Closed (visited : List α) : Prop :=
  ∀ a ∈ visited, ∀ b ∈ next a, isOpen b = true → b ∈ visited

/-- The open places that have not been visited. -/
def unvisited (cells visited : List α) : Nat :=
  cells.countP fun a => isOpen a ∧ a ∉ visited

variable {isOpen next} {add : α → β → β} {cells : List α} {degree : Nat}

omit [DecidableEq α] in
theorem mem_component_self (a : α) : a ∈ component isOpen next a := .refl

omit [DecidableEq α] in
/-- What is next to the component of an open place belongs to it. -/
theorem mem_component_of_next {a b c : α} (ha : isOpen a = true) (hb : b ∈ component isOpen next a)
    (hc : c ∈ next b) (hopen : isOpen c = true) : c ∈ component isOpen next a := by
  have hb' : isOpen b = true := by
    cases hb with
    | refl => exact ha
    | tail _ hlast => exact hlast.2.1
  exact .tail hb ⟨hb', hopen, hc⟩

omit [DecidableEq α] in
theorem mem_component_symm (hsymm : ∀ a b, b ∈ next a → a ∈ next b) {a b : α}
    (h : b ∈ component isOpen next a) : a ∈ component isOpen next b := by
  induction h with
  | refl => exact .refl
  | tail _ hlast ih => exact .head ⟨hlast.2.1, hlast.1, hsymm _ _ hlast.2.2⟩ ih

omit [DecidableEq α] in
theorem component_eq (hsymm : ∀ a b, b ∈ next a → a ∈ next b) {a b : α}
    (h : b ∈ component isOpen next a) : component isOpen next b = component isOpen next a := by
  ext c
  constructor
  · exact fun hc => h.trans hc
  · exact fun hc => (mem_component_symm hsymm h).trans hc

theorem unvisited_cons_lt {visited : List α} {c : α} (hc : c ∈ cells) (hopen : isOpen c = true)
    (hnew : c ∉ visited) :
    unvisited isOpen cells (c :: visited) < unvisited isOpen cells visited := by
  induction cells with
  | nil => cases hc
  | cons a cells ih =>
    have hle : unvisited isOpen cells (c :: visited) ≤ unvisited isOpen cells visited := by
      refine List.countP_mono_left fun b _ hb => ?_
      simp only [decide_eq_true_eq, List.mem_cons, not_or] at hb ⊢
      exact ⟨hb.1, hb.2.2⟩
    by_cases hsame : a = c
    · subst hsame
      simp only [unvisited, List.countP_cons] at hle ⊢
      simp only [hopen, hnew, List.mem_cons_self, not_true_eq_false, and_false, decide_false,
        Bool.false_eq_true, if_false, not_false_eq_true, and_self, decide_true, if_true]
      omega
    · have hrest := ih ((List.mem_cons.mp hc).resolve_left (Ne.symm hsame))
      have hhead : (isOpen a ∧ a ∉ c :: visited) ↔ (isOpen a ∧ a ∉ visited) := by
        simp only [List.mem_cons, hsame, false_or]
      simp only [unvisited, List.countP_cons, hhead] at hrest ⊢
      omega

/-! ### One filling -/

/-- What a filling from a stack has visited. -/
structure Filled (isOpen : α → Bool) (next : α → List α) (stack visited result : List α) :
    Prop where
  old : ∀ a ∈ visited, a ∈ result
  found : ∀ a ∈ stack, isOpen a = true → a ∈ result
  sound : ∀ a ∈ result, a ∈ visited ∨ ∃ s ∈ stack, isOpen s = true ∧ a ∈ component isOpen next s
  closed : ∀ a ∈ result, a ∉ visited → ∀ b ∈ next a, isOpen b = true → b ∈ result

omit [DecidableEq α] in
/-- An open place that has not been visited is visited, and what is next to it put on the stack. -/
theorem Filled.visit {c : α} {stack visited result : List α} (hopen : isOpen c = true)
    (h : Filled isOpen next (next c ++ stack) (c :: visited) result) :
    Filled isOpen next (c :: stack) visited result where
  old a ha := h.old a (List.mem_cons_of_mem _ ha)
  found a ha hopen := by
    rcases List.mem_cons.mp ha with rfl | ha
    · exact h.old a List.mem_cons_self
    · exact h.found a (List.mem_append_right _ ha) hopen
  sound a ha := by
    rcases h.sound a ha with hvisited | ⟨s, hs, hsopen, hlinked⟩
    · rcases List.mem_cons.mp hvisited with rfl | hvisited
      · exact .inr ⟨a, List.mem_cons_self, hopen, mem_component_self a⟩
      · exact .inl hvisited
    · rcases List.mem_append.mp hs with hnext | hstack
      · exact .inr ⟨c, List.mem_cons_self, hopen, .head ⟨hopen, hsopen, hnext⟩ hlinked⟩
      · exact .inr ⟨s, List.mem_cons_of_mem _ hstack, hsopen, hlinked⟩
  closed a ha hnew b hb hbopen := by
    by_cases hsame : a = c
    · subst hsame
      exact h.found b (List.mem_append_left _ hb) hbopen
    · exact h.closed a ha (fun hmem => (List.mem_cons.mp hmem).elim hsame hnew) b hb hbopen

omit [DecidableEq α] in
/-- A place that is not open or has been visited is passed over. -/
theorem Filled.skip {c : α} {stack visited result : List α} (hskip : ¬ (isOpen c ∧ c ∉ visited))
    (h : Filled isOpen next stack visited result) :
    Filled isOpen next (c :: stack) visited result where
  old := h.old
  found a ha hopen := by
    rcases List.mem_cons.mp ha with rfl | ha
    · exact h.old a (by_contra fun hnew => hskip ⟨hopen, hnew⟩)
    · exact h.found a ha hopen
  sound a ha := (h.sound a ha).imp_right fun ⟨s, hs, hlinked⟩ =>
    ⟨s, List.mem_cons_of_mem _ hs, hlinked⟩
  closed := h.closed

/-- With a turn for every place on the stack and for everything next to an unvisited place, the
stack is emptied. -/
theorem filled_fill (hcells : ∀ a, isOpen a = true → a ∈ cells)
    (hdegree : ∀ a, (next a).length ≤ degree) (n : Nat) :
    ∀ {stack visited : List α} {acc : β},
      stack.length + (degree + 1) * unvisited isOpen cells visited ≤ n →
        Filled isOpen next stack visited (fill isOpen next add n stack visited acc).1 := by
  have hempty : ∀ visited : List α, Filled isOpen next [] visited visited := fun visited =>
    { old := fun _ h => h
      found := fun _ h => (List.not_mem_nil h).elim
      sound := fun _ h => .inl h
      closed := fun _ h hnew => (hnew h).elim }
  induction n with
  | zero =>
    intro stack visited acc hn
    have hstack : stack = [] := List.length_eq_zero_iff.mp (by omega)
    rw [hstack, fill]
    exact hempty visited
  | succ n ih =>
    intro stack visited acc hn
    cases stack with
    | nil =>
      rw [fill]
      exact hempty visited
    | cons c stack =>
      rw [fill]
      split
      · next hvisit =>
        refine .visit hvisit.1 (ih ?_)
        have hfewer := unvisited_cons_lt (hcells c hvisit.1) hvisit.1 hvisit.2
        have hmul := Nat.mul_le_mul_left (degree + 1) hfewer
        have hnext := hdegree c
        rw [Nat.mul_succ] at hmul
        rw [List.length_cons] at hn
        rw [List.length_append]
        omega
      · next hskip =>
        refine .skip hskip (ih ?_)
        rw [List.length_cons] at hn
        omega

/-- From a closed set, a filling adds the component of an open place. -/
theorem mem_fill_iff (hcells : ∀ a, isOpen a = true → a ∈ cells)
    (hdegree : ∀ a, (next a).length ≤ degree) {n : Nat} {c : α} {visited : List α} {acc : β}
    (hn : 1 + (degree + 1) * cells.length ≤ n) (hclosed : Closed isOpen next visited)
    (hopen : isOpen c = true) {a : α} :
    a ∈ (fill isOpen next add n [c] visited acc).1 ↔
      a ∈ visited ∨ a ∈ component isOpen next c := by
  have hfuel : [c].length + (degree + 1) * unvisited isOpen cells visited ≤ n := by
    have hmul := Nat.mul_le_mul_left (degree + 1)
      (List.countP_le_length (p := fun a => decide (isOpen a ∧ a ∉ visited)) (l := cells))
    rw [List.length_singleton]
    exact Nat.le_trans (Nat.add_le_add_left hmul 1) hn
  have hfilled : Filled isOpen next [c] visited (fill isOpen next add n [c] visited acc).1 :=
    filled_fill hcells hdegree n hfuel
  constructor
  · intro ha
    refine (hfilled.sound a ha).imp_right fun ⟨s, hs, _, hlinked⟩ => ?_
    rwa [List.mem_singleton.mp hs] at hlinked
  · rintro (ha | ha)
    · exact hfilled.old a ha
    · induction ha with
      | refl => exact hfilled.found c List.mem_cons_self hopen
      | @tail a b _ hlast ih =>
        by_cases hvisited : a ∈ visited
        · exact hfilled.old b (hclosed a hvisited b hlast.2.2 hlast.2.1)
        · exact hfilled.closed a ih hvisited b hlast.2.2 hlast.2.1

omit [DecidableEq α] in
/-- A closed set with an open place of a component has all of it. -/
theorem Closed.component {visited : List α} (hclosed : Closed isOpen next visited) {a b : α}
    (ha : a ∈ visited) (hb : b ∈ FloodFill.component isOpen next a) : b ∈ visited := by
  induction hb with
  | refl => exact ha
  | tail _ hlast ih => exact hclosed _ ih _ hlast.2.2 hlast.2.1

theorem closed_fill (hcells : ∀ a, isOpen a = true → a ∈ cells)
    (hdegree : ∀ a, (next a).length ≤ degree) {n : Nat} {c : α} {visited : List α} {acc : β}
    (hn : 1 + (degree + 1) * cells.length ≤ n) (hclosed : Closed isOpen next visited)
    (hopen : isOpen c = true) :
    Closed isOpen next (fill isOpen next add n [c] visited acc).1 := by
  intro a ha b hb hbopen
  rw [mem_fill_iff hcells hdegree hn hclosed hopen] at ha ⊢
  rcases ha with ha | ha
  · exact .inl (hclosed a ha b hb hbopen)
  · exact .inr (mem_component_of_next hopen ha hb hbopen)

variable (isOpen next add) in
/-- What is gathered is gathered along the places that are new. -/
theorem fill_eq_append (n : Nat) : ∀ (stack visited : List α) (acc : β),
    ∃ new, (fill isOpen next add n stack visited acc).1 = new ++ visited ∧
      (∀ a ∈ new, a ∉ visited) ∧ (fill isOpen next add n stack visited acc).2 = new.foldr add acc := by
  induction n with
  | zero => exact fun stack visited acc => ⟨[], rfl, fun a ha => (List.not_mem_nil ha).elim, rfl⟩
  | succ n ih =>
    intro stack visited acc
    cases stack with
    | nil => exact ⟨[], rfl, fun a ha => (List.not_mem_nil ha).elim, rfl⟩
    | cons c stack =>
      rw [fill]
      split
      · next hvisit =>
        obtain ⟨new, hresult, hnew, hacc⟩ := ih (next c ++ stack) (c :: visited) (add c acc)
        refine ⟨new ++ [c], ?_, fun a ha => ?_, ?_⟩
        · rw [hresult, List.append_assoc, List.singleton_append]
        · rcases List.mem_append.mp ha with ha | ha
          · exact fun hvisited => hnew a ha (List.mem_cons_of_mem _ hvisited)
          · rw [List.mem_singleton.mp ha]
            exact hvisit.2
        · rw [hacc, List.foldr_append]
          rfl
      · exact ih stack visited acc

/-! ### The sweep -/

/-- What has been gathered over a component: its places in some order, added to the first. -/
def Gathered (add : α → β → β) (single : α → β) (C : Set α) (acc : β) : Prop :=
  ∃ (first : α) (new : List α), first ∈ new ∧ (∀ a, a ∈ new ↔ a ∈ C) ∧ acc = new.foldr add (single first)

/-- The sweep finds each component of the open places once, and gathers along it. -/
theorem sweep_components (hcells : ∀ a, isOpen a = true → a ∈ cells)
    (hdegree : ∀ a, (next a).length ≤ degree) (hsymm : ∀ a b, b ∈ next a → a ∈ next b) {n : Nat}
    (hn : 1 + (degree + 1) * cells.length ≤ n) (add : α → β → β) (single : α → β)
    (places : List α) :
    ∀ {visited : List α}, Closed isOpen next visited →
      ∃ components : List (Set α), components.Nodup ∧
        (∀ C, C ∈ components ↔
          ∃ a ∈ places, isOpen a = true ∧ a ∉ visited ∧ C = component isOpen next a) ∧
        List.Forall₂ (Gathered add single) components
          (sweep isOpen next add single n places visited) := by
  induction places with
  | nil => exact fun _ => ⟨[], List.nodup_nil, by simp, .nil⟩
  | cons c places ih =>
    intro visited hclosed
    rw [sweep]
    split
    · next hvisit =>
      have hmem : ∀ a, a ∈ (fill isOpen next add n [c] visited (single c)).1 ↔
          a ∈ visited ∨ a ∈ component isOpen next c :=
        fun a => mem_fill_iff hcells hdegree hn hclosed hvisit.1
      have hfilled : Closed isOpen next (fill isOpen next add n [c] visited (single c)).1 :=
        closed_fill hcells hdegree hn hclosed hvisit.1
      obtain ⟨components, hnodup, hall, hgathered⟩ := ih hfilled
      obtain ⟨new, hresult, hnew, hacc⟩ := fill_eq_append isOpen next add n [c] visited (single c)
      -- The component has no place that was visited before.
      have hfresh : ∀ a ∈ component isOpen next c, a ∉ visited := fun a ha hvisited =>
        hvisit.2 (hclosed.component hvisited (mem_component_symm hsymm ha))
      have hmemnew : ∀ a, a ∈ new ↔ a ∈ component isOpen next c := by
        intro a
        have ha := hmem a
        rw [hresult, List.mem_append] at ha
        constructor
        · exact fun h => (ha.mp (.inl h)).resolve_left (hnew a h)
        · exact fun h => (ha.mpr (.inr h)).resolve_right (hfresh a h)
      refine ⟨component isOpen next c :: components, ?_, fun C => ?_, .cons ?_ hgathered⟩
      · refine List.nodup_cons.mpr ⟨fun hin => ?_, hnodup⟩
        obtain ⟨a, -, -, hanew, heq⟩ := (hall _).mp hin
        exact hanew ((hmem a).mpr (.inr (heq ▸ mem_component_self a)))
      · rw [List.mem_cons, hall]
        constructor
        · rintro (rfl | ⟨a, ha, hopen, hanew, rfl⟩)
          · exact ⟨c, List.mem_cons_self, hvisit.1, hvisit.2, rfl⟩
          · exact ⟨a, List.mem_cons_of_mem _ ha, hopen,
              fun hvisited => hanew ((hmem a).mpr (.inl hvisited)), rfl⟩
        · rintro ⟨a, ha, hopen, hanew, rfl⟩
          by_cases hin : a ∈ component isOpen next c
          · exact .inl (component_eq hsymm hin)
          · rcases List.mem_cons.mp ha with rfl | ha
            · exact (hin (mem_component_self a)).elim
            · exact .inr ⟨a, ha, hopen,
                fun hvisited => ((hmem a).mp hvisited).elim hanew hin, rfl⟩
      · exact ⟨c, new, (hmemnew c).mpr (mem_component_self c), hmemnew, hacc⟩
    · next hskip =>
      obtain ⟨components, hnodup, hall, hgathered⟩ := ih hclosed
      refine ⟨components, hnodup, fun C => ?_, hgathered⟩
      rw [hall]
      constructor
      · rintro ⟨a, ha, h⟩
        exact ⟨a, List.mem_cons_of_mem _ ha, h⟩
      · rintro ⟨a, ha, hopen, hanew, rfl⟩
        rcases List.mem_cons.mp ha with rfl | ha
        · exact (hskip ⟨hopen, hanew⟩).elim
        · exact ⟨a, ha, hopen, hanew, rfl⟩

end FloodFill

end AmigaDevbench
