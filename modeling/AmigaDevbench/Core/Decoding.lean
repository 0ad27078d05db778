import AmigaDevbench.Core.Bytes

/-!
# Decoders of byte strings

A decoder reads bytes behind a cursor and returns a value or raises. A grammar relates a value to
the bytes that stand for it, which may depend on where they begin. A decoder is exact for a grammar
if it returns a value precisely where bytes of the grammar come next, and takes those bytes. The
grammar of a sequence, a choice or a loop of decoders is made from those of its parts.
-/

namespace AmigaDevbench

/-- The number of bytes read, and the bytes ahead. -/
structure Input where
  cursor : Nat
  rest : Bytes

/-- An exception of the decoder, or a loop that has been given too few turns. -/
inductive Failure (ε : Type) where
  | raised (e : ε)
  | stuck

/-- A decoder with exceptions of type `ε`. -/
abbrev Decoder (ε : Type) := StateT Input (Except (Failure ε))

namespace Decoder

variable {ε α β σ : Type}

def raise (e : ε) : Decoder ε α := throw (.raised e)

/-- Raises unless the condition holds. -/
def require (p : Prop) [Decidable p] (e : ε) : Decoder ε Unit := if p then pure () else raise e

/-- The next `n` bytes; `error` is raised at the cursor if there are not as many. -/
def take (error : Nat → ε) (n : Nat) : Decoder ε Bytes := fun i =>
  if n ≤ i.rest.length then .ok (i.rest.take n, ⟨i.cursor + n, i.rest.drop n⟩)
  else .error (.raised (error i.cursor))

def position : Decoder ε Nat := fun i => .ok (i.cursor, i)

/-- A loop, left by a value on the right. -/
def loop (body : σ → Decoder ε (σ ⊕ α)) : Nat → σ → Decoder ε α
  | 0, _ => throw .stuck
  | turns + 1, s => do
    match ← body s with
    | .inl s => loop body turns s
    | .inr a => return a

/-- A loop of which each turn reads something. -/
def iterate (body : σ → Decoder ε (σ ⊕ α)) (s : σ) : Decoder ε α := fun i =>
  loop body (i.rest.length + 1) s i

/-! ### Exactness -/

/-- A grammar: where, what, and the bytes that stand for it. -/
abbrev Grammar (α : Type) := Nat → α → Bytes → Prop

/-- The decoder returns exactly what the grammar derives. -/
def Exact (p : Decoder ε α) (G : Grammar α) : Prop :=
  ∀ i a j, p i = .ok (a, j) ↔
    ∃ b, i.rest = b ++ j.rest ∧ j.cursor = i.cursor + b.length ∧ G i.cursor a b

/-- What a loop reads: turns that go on, and one that leaves it. -/
inductive Chain (G : σ → Grammar (σ ⊕ α)) : σ → Grammar α where
  | stop {s : σ} {c : Nat} {a : α} {b : Bytes} (h : G s c (.inr a) b) : Chain G s c a b
  | next {s t : σ} {c : Nat} {a : α} {b b' : Bytes} (h : G s c (.inl t) b)
      (hrest : Chain G t (c + b.length) a b') : Chain G s c a (b ++ b')

section Rules

variable {p : Decoder ε α} {G : Grammar α}

theorem Exact.congr {G' : Grammar α} (h : Exact p G) (hG : ∀ c a b, G c a b ↔ G' c a b) :
    Exact p G' := by
  intro i a j
  rw [h i a j]
  simp only [hG]

theorem exact_pure (x : α) : Exact (pure x : Decoder ε α) fun _ a b => a = x ∧ b = [] := by
  intro i a j
  change Except.ok (x, i) = Except.ok (a, j) ↔ _
  constructor
  · intro h
    cases h
    exact ⟨[], rfl, rfl, rfl, rfl⟩
  · rintro ⟨b, hrest, hcursor, rfl, rfl⟩
    obtain ⟨cursor, rest⟩ := i
    obtain ⟨cursor', rest'⟩ := j
    simp only [List.nil_append, List.length_nil, Nat.add_zero] at hrest hcursor
    rw [hrest, hcursor]

theorem exact_raise (e : ε) : Exact (raise e : Decoder ε α) fun _ _ _ => False := by
  intro i a j
  constructor
  · intro h
    cases h
  · rintro ⟨_, _, _, h⟩
    exact h.elim

theorem exact_take (error : Nat → ε) (n : Nat) :
    Exact (take error n) fun _ a b => a = b ∧ b.length = n := by
  intro i a j
  simp only [take]
  constructor
  · intro h
    split at h
    · rename_i hle
      cases h
      exact ⟨i.rest.take n, (List.take_append_drop n i.rest).symm,
        by rw [List.length_take_of_le hle], rfl, List.length_take_of_le hle⟩
    · cases h
  · rintro ⟨b, hrest, hcursor, rfl, rfl⟩
    obtain ⟨cursor, rest⟩ := i
    obtain ⟨cursor', rest'⟩ := j
    simp only at hrest hcursor
    subst hrest hcursor
    rw [if_pos (by rw [List.length_append]; exact Nat.le_add_right _ _), List.take_left,
      List.drop_left]

theorem exact_position : Exact (position : Decoder ε Nat) fun c a b => a = c ∧ b = [] := by
  intro i a j
  change Except.ok (i.cursor, i) = Except.ok (a, j) ↔ _
  constructor
  · intro h
    cases h
    exact ⟨[], rfl, rfl, rfl, rfl⟩
  · rintro ⟨b, hrest, hcursor, rfl, rfl⟩
    obtain ⟨cursor, rest⟩ := i
    obtain ⟨cursor', rest'⟩ := j
    simp only [List.nil_append, List.length_nil, Nat.add_zero] at hrest hcursor
    rw [hrest, hcursor]

theorem bind_eq_ok {f : α → Decoder ε β} {i k : Input} {x : β} :
    (p >>= f) i = .ok (x, k) ↔ ∃ a j, p i = .ok (a, j) ∧ f a j = .ok (x, k) := by
  change (p i >>= fun r => f r.1 r.2) = _ ↔ _
  cases hp : p i with
  | error e =>
    constructor
    · intro h
      cases h
    · rintro ⟨a, j, h, -⟩
      cases h
  | ok r =>
    constructor
    · intro h
      exact ⟨r.1, r.2, rfl, h⟩
    · rintro ⟨a, j, h, hf⟩
      cases h
      exact hf

/-- A sequence reads what its parts read, one behind the other. -/
theorem exact_bind {f : α → Decoder ε β} {H : α → Grammar β} (hp : Exact p G)
    (hf : ∀ a, Exact (f a) (H a)) :
    Exact (p >>= f) fun c x b =>
      ∃ a b₁ b₂, b = b₁ ++ b₂ ∧ G c a b₁ ∧ H a (c + b₁.length) x b₂ := by
  intro i x k
  rw [bind_eq_ok]
  constructor
  · rintro ⟨a, j, hpi, hfa⟩
    obtain ⟨b₁, hrest, hcursor, hG⟩ := (hp i a j).mp hpi
    obtain ⟨b₂, hrest', hcursor', hH⟩ := (hf a j x k).mp hfa
    refine ⟨b₁ ++ b₂, by rw [hrest, hrest', List.append_assoc], ?_, a, b₁, b₂, rfl, hG, ?_⟩
    · rw [hcursor', hcursor, List.length_append, Nat.add_assoc]
    · rw [← hcursor]
      exact hH
  · rintro ⟨b, hrest, hcursor, a, b₁, b₂, rfl, hG, hH⟩
    refine ⟨a, ⟨i.cursor + b₁.length, b₂ ++ k.rest⟩, (hp _ _ _).mpr ⟨b₁, ?_, rfl, hG⟩,
      (hf _ _ _ _).mpr ⟨b₂, rfl, ?_, hH⟩⟩
    · rw [hrest, List.append_assoc]
    · rw [hcursor, List.length_append, Nat.add_assoc]

theorem exact_ite {c : Prop} [Decidable c] {q : Decoder ε α} {H : Grammar α}
    (hp : c → Exact p G) (hq : ¬ c → Exact q H) :
    Exact (if c then p else q) fun n a b => if c then G n a b else H n a b := by
  by_cases h : c
  · simp only [if_pos h]
    exact hp h
  · simp only [if_neg h]
    exact hq h

/-- A condition that is required reads nothing. -/
theorem exact_require_bind {c : Prop} [Decidable c] {e : ε} (hp : c → Exact p G) :
    Exact (require c e >>= fun _ => p) fun n a b => c ∧ G n a b := by
  by_cases h : c
  · unfold require
    rw [if_pos h]
    exact (hp h).congr fun _ _ _ => by simp [h]
  · unfold require
    rw [if_neg h]
    exact (exact_raise e).congr fun _ _ _ => by simp [h]

section Loops

variable {body : σ → Decoder ε (σ ⊕ α)} {G : σ → Grammar (σ ⊕ α)}

theorem loop_succ (turns : Nat) (s : σ) (i : Input) (a : α) (k : Input) :
    loop body (turns + 1) s i = .ok (a, k) ↔
      body s i = .ok (.inr a, k) ∨
        ∃ t j, body s i = .ok (.inl t, j) ∧ loop body turns t j = .ok (a, k) := by
  rw [loop, bind_eq_ok]
  constructor
  · rintro ⟨t | x, j, hturn, hrest⟩
    · exact .inr ⟨t, j, hturn, hrest⟩
    · cases hrest
      exact .inl hturn
  · rintro (hturn | ⟨t, j, hturn, hrest⟩)
    · exact ⟨.inr a, k, hturn, rfl⟩
    · exact ⟨.inl t, j, hturn, hrest⟩

/-- With a turn for each byte ahead, and one more, the loop reads a chain. -/
theorem exact_loop (hbody : ∀ s, Exact (body s) (G s))
    (hgrow : ∀ s c t b, G s c (.inl t) b → b ≠ []) (turns : Nat) :
    ∀ s i a k, i.rest.length < turns → (loop body turns s i = .ok (a, k) ↔
      ∃ b, i.rest = b ++ k.rest ∧ k.cursor = i.cursor + b.length ∧ Chain G s i.cursor a b) := by
  induction turns with
  | zero => intro s i a k h; omega
  | succ turns ih =>
    intro s i a k hturns
    rw [loop_succ]
    constructor
    · rintro (hturn | ⟨t, j, hturn, hrest⟩)
      · obtain ⟨b, hb, hcursor, hG⟩ := (hbody s i _ k).mp hturn
        exact ⟨b, hb, hcursor, .stop hG⟩
      · obtain ⟨b, hb, hcursor, hG⟩ := (hbody s i _ j).mp hturn
        have hpos := List.length_pos_of_ne_nil (hgrow _ _ _ _ hG)
        have hshorter : j.rest.length < turns := by
          rw [hb, List.length_append] at hturns
          omega
        obtain ⟨b', hb', hcursor', hchain⟩ := (ih t j a k hshorter).mp hrest
        refine ⟨b ++ b', by rw [hb, hb', List.append_assoc], ?_, .next hG ?_⟩
        · rw [hcursor', hcursor, List.length_append, Nat.add_assoc]
        · rw [← hcursor]
          exact hchain
    · rintro ⟨b, hb, hcursor, hchain⟩
      cases hchain with
      | stop hG => exact .inl ((hbody s i _ k).mpr ⟨b, hb, hcursor, hG⟩)
      | @next _ t _ _ b₁ b₂ hG hchain =>
        have hpos := List.length_pos_of_ne_nil (hgrow _ _ _ _ hG)
        have hshorter : (b₂ ++ k.rest).length < turns := by
          rw [hb, List.length_append, List.length_append] at hturns
          rw [List.length_append]
          omega
        refine .inr ⟨t, ⟨i.cursor + b₁.length, b₂ ++ k.rest⟩, (hbody s i _ _).mpr
          ⟨b₁, by rw [hb, List.append_assoc], rfl, hG⟩, (ih _ _ _ _ hshorter).mpr
          ⟨b₂, rfl, ?_, hchain⟩⟩
        rw [hcursor, List.length_append, Nat.add_assoc]

theorem exact_iterate (hbody : ∀ s, Exact (body s) (G s))
    (hgrow : ∀ s c t b, G s c (.inl t) b → b ≠ []) (s : σ) : Exact (iterate body s) (Chain G s) :=
  fun i a k => exact_loop hbody hgrow _ s i a k (Nat.lt_succ_self _)

end Loops

end Rules

/-! ### Loops over items -/

section Items

variable {ι : Type}

/-- Every item meets the condition in the state it is applied to. -/
def AllAlong (apply : σ → ι → σ) (P : σ → ι → Prop) : σ → List ι → Prop
  | _, [] => True
  | s, item :: items => P s item ∧ AllAlong apply P (apply s item) items

/-- A turn that reads an item, or the end of the items. -/
def Turn (apply : σ → ι → σ) (P : σ → ι → Prop) (bytes : ι → Bytes) (last : σ → Bytes → Prop)
    (s : σ) : Grammar (σ ⊕ σ) :=
  fun _ x b => x = .inr s ∧ last s b ∨ ∃ item, P s item ∧ x = .inl (apply s item) ∧ b = bytes item

variable {apply : σ → ι → σ} {P Q : σ → ι → Prop} {bytes : ι → Bytes} {last : σ → Bytes → Prop}

theorem turn_ne_nil (hbytes : ∀ item, bytes item ≠ []) (s : σ) (c : Nat) (t : σ) (b : Bytes)
    (h : Turn apply P bytes last s c (.inl t) b) : b ≠ [] := by
  rcases h with ⟨h, -⟩ | ⟨item, -, -, rfl⟩
  · cases h
  · exact hbytes item

/-- Where a turn reads one item or the end, a loop reads a list of items. A turn need only be as
described at the places where one begins. -/
theorem chain_iff {G : σ → Grammar (σ ⊕ σ)} (Here : Nat → Prop)
    (hturn : ∀ s c x b, Here c → (G s c x b ↔ Turn apply P bytes last s c x b))
    (hhere : ∀ s c item, Here c → P s item → Here (c + (bytes item).length)) {s t : σ} {c : Nat}
    {b : Bytes} (hc : Here c) :
    Chain G s c t b ↔ ∃ items ending, AllAlong apply P s items ∧ t = items.foldl apply s ∧
      last t ending ∧ b = items.flatMap bytes ++ ending := by
  constructor
  · intro h
    induction h with
    | stop hG =>
      rcases (hturn _ _ _ _ hc).mp hG with ⟨ht, hlast⟩ | ⟨item, _, ht, _⟩
      · cases ht
        exact ⟨[], _, trivial, rfl, hlast, rfl⟩
      · cases ht
    | next hG _ ih =>
      rcases (hturn _ _ _ _ hc).mp hG with ⟨ht, _⟩ | ⟨item, hitem, ht, rfl⟩
      · cases ht
      · cases ht
        obtain ⟨items, ending, hitems, ht, hlast, rfl⟩ := ih (hhere _ _ _ hc hitem)
        exact ⟨item :: items, ending, ⟨hitem, hitems⟩, ht, hlast, (List.append_assoc ..).symm⟩
  · rintro ⟨items, ending, hitems, ht, hlast, rfl⟩
    induction items generalizing s c with
    | nil =>
      cases ht
      exact .stop ((hturn _ _ _ _ hc).mpr (.inl ⟨rfl, hlast⟩))
    | cons item items ih =>
      rw [List.flatMap_cons, List.append_assoc]
      exact .next ((hturn _ _ _ _ hc).mpr (.inr ⟨item, hitems.1, rfl, rfl⟩))
        (ih (hhere _ _ _ hc hitems.1) hitems.2 ht)

/-- A loop over items that are read alike everywhere. -/
theorem exact_items {body : σ → Decoder ε (σ ⊕ σ)}
    (hbody : ∀ s, Exact (body s) (Turn apply P bytes last s)) (hbytes : ∀ item, bytes item ≠ [])
    (s : σ) : Exact (iterate body s) fun _ t b =>
      ∃ items ending, AllAlong apply P s items ∧ t = items.foldl apply s ∧ last t ending ∧
        b = items.flatMap bytes ++ ending :=
  (exact_iterate hbody (turn_ne_nil hbytes) s).congr fun _ _ _ =>
    chain_iff (fun _ => True) (fun _ _ _ _ _ => Iff.rfl) (fun _ _ _ _ _ => trivial) trivial

/-- A property of the state that a condition on an item secures, and that secures the condition,
need only hold at the end. -/
theorem allAlong_and_iff {Inv : σ → Prop}
    (h : ∀ s item, P s item ∧ Inv s ↔ Q s item ∧ Inv (apply s item)) (items : List ι) :
    ∀ s, AllAlong apply P s items ∧ Inv s ↔ AllAlong apply Q s items ∧
      Inv (items.foldl apply s) := by
  induction items with
  | nil => exact fun s => Iff.rfl
  | cons item items ih =>
    intro s
    have hitem := h s item
    have hitems := ih (apply s item)
    simp only [AllAlong, List.foldl_cons]
    constructor
    · rintro ⟨⟨hp, hps⟩, hs⟩
      obtain ⟨hq, hs'⟩ := hitem.mp ⟨hp, hs⟩
      obtain ⟨hqs, hend⟩ := hitems.mp ⟨hps, hs'⟩
      exact ⟨⟨hq, hqs⟩, hend⟩
    · rintro ⟨⟨hq, hqs⟩, hend⟩
      obtain ⟨hps, hs'⟩ := hitems.mpr ⟨hqs, hend⟩
      obtain ⟨hp, hs⟩ := hitem.mpr ⟨hq, hs'⟩
      exact ⟨⟨hp, hps⟩, hs⟩

/-- A condition on the items alone. -/
theorem allAlong_const {R : ι → Prop} (items : List ι) :
    ∀ s, AllAlong apply (fun _ => R) s items ↔ ∀ item ∈ items, R item := by
  induction items with
  | nil => exact fun s => iff_of_true trivial nofun
  | cons item items ih =>
    intro s
    rw [AllAlong, ih, List.forall_mem_cons]

theorem allAlong_true (items : List ι) (s : σ) : AllAlong apply (fun _ _ => True) s items :=
  (allAlong_const items s).mpr fun _ _ => trivial

/-- A condition on the item and on a part of the state that stays can be taken out. -/
theorem allAlong_and {κ : Type} (part : σ → κ) (hpart : ∀ s item, part (apply s item) = part s)
    {R : κ → ι → Prop} (items : List ι) :
    ∀ s, AllAlong apply (fun s item => R (part s) item ∧ P s item) s items ↔
      (∀ item ∈ items, R (part s) item) ∧ AllAlong apply P s items := by
  induction items with
  | nil => exact fun s => ⟨fun _ => ⟨nofun, trivial⟩, fun _ => trivial⟩
  | cons item items ih =>
    intro s
    rw [AllAlong, ih, hpart, List.forall_mem_cons, AllAlong]
    exact ⟨fun ⟨⟨h₁, h₂⟩, h₃, h₄⟩ => ⟨⟨h₁, h₃⟩, h₂, h₄⟩,
      fun ⟨⟨h₁, h₃⟩, h₂, h₄⟩ => ⟨⟨h₁, h₂⟩, h₃, h₄⟩⟩

theorem allAlong_and_const {R : ι → Prop} (items : List ι) (s : σ) :
    AllAlong apply (fun s item => R item ∧ P s item) s items ↔
      (∀ item ∈ items, R item) ∧ AllAlong apply P s items :=
  allAlong_and (R := fun _ => R) (fun _ => ()) (fun _ _ => rfl) items s

end Items

/-! ### Loops end -/

/-- No loop is given too few turns. -/
def Live (p : Decoder ε α) : Prop := ∀ i, p i ≠ .error .stuck

section Liveness

variable {p : Decoder ε α}

theorem live_pure (a : α) : Live (pure a : Decoder ε α) := fun _ h => by cases h

theorem live_raise (e : ε) : Live (raise e : Decoder ε α) := fun _ h => by cases h

theorem live_take (error : Nat → ε) (n : Nat) : Live (take error n) := by
  intro i h
  simp only [take] at h
  split at h <;> cases h

theorem live_position : Live (position : Decoder ε Nat) := fun _ h => by cases h

theorem live_require (c : Prop) [Decidable c] (e : ε) : Live (require c e) := by
  unfold require
  split
  · exact live_pure ()
  · exact live_raise e

theorem live_bind {f : α → Decoder ε β} (hp : Live p) (hf : ∀ a, Live (f a)) :
    Live (p >>= f) := by
  intro i h
  change (p i >>= fun r => f r.1 r.2) = _ at h
  cases hpi : p i with
  | error e =>
    rw [hpi] at h
    have he : Except.error e = (Except.error .stuck : Except (Failure ε) (β × Input)) := h
    cases he
    exact hp i hpi
  | ok r =>
    rw [hpi] at h
    exact hf r.1 r.2 h

theorem live_ite {c : Prop} [Decidable c] {q : Decoder ε α} (hp : Live p) (hq : Live q) :
    Live (if c then p else q) := by
  split
  · exact hp
  · exact hq

theorem live_iterate {body : σ → Decoder ε (σ ⊕ α)} {G : σ → Grammar (σ ⊕ α)}
    (hlive : ∀ s, Live (body s)) (hbody : ∀ s, Exact (body s) (G s))
    (hgrow : ∀ s c t b, G s c (.inl t) b → b ≠ []) (s : σ) : Live (iterate body s) := by
  have hloop (turns : Nat) : ∀ s i, i.rest.length < turns →
      loop body turns s i ≠ .error .stuck := by
    induction turns with
    | zero => intro s i h; omega
    | succ turns ih =>
      intro s i hturns h
      rw [loop] at h
      change (body s i >>= fun r => _) = _ at h
      cases hturn : body s i with
      | error e =>
        rw [hturn] at h
        have he : Except.error e = (Except.error .stuck : Except (Failure ε) (α × Input)) := h
        cases he
        exact hlive s i hturn
      | ok r =>
        rw [hturn] at h
        obtain ⟨t | a, j⟩ := r
        · obtain ⟨b, hb, -, hG⟩ := (hbody s i _ j).mp hturn
          have hpos := List.length_pos_of_ne_nil (hgrow _ _ _ _ hG)
          rw [hb, List.length_append] at hturns
          exact ih t j (by omega) h
        · cases h
  exact fun i => hloop _ s i (Nat.lt_succ_self _)

end Liveness

end Decoder

end AmigaDevbench
