import Mathlib.Algebra.Group.Submonoid.Defs
import AmigaDevbench.Core.Decoding

/-!
# How much a decoder reads

Two questions about a decoder that is not exact for a grammar worth writing down: of which lengths
are the bytes it may read, and which bytes does it read for certain whatever stands behind them.
-/

namespace AmigaDevbench.Decoder

variable {ε α β : Type}

/-! ### The lengths that may be read -/

/-- What the decoder has read when it returns is of a length in `S`. -/
def Advances (S : AddSubmonoid Nat) (p : Decoder ε α) : Prop :=
  ∀ i a j, p i = .ok (a, j) →
    ∃ b, i.rest = b ++ j.rest ∧ j.cursor = i.cursor + b.length ∧ b.length ∈ S

section Advances

variable {S : AddSubmonoid Nat} {p q : Decoder ε α}

theorem advances_of_exact {G : Grammar α} (h : Exact p G)
    (hlength : ∀ c a b, G c a b → b.length ∈ S) : Advances S p := by
  intro i a j hrun
  obtain ⟨b, hrest, hcursor, hG⟩ := (h i a j).mp hrun
  exact ⟨b, hrest, hcursor, hlength _ _ _ hG⟩

theorem advances_pure (x : α) : Advances S (pure x : Decoder ε α) :=
  advances_of_exact (exact_pure x) fun _ _ _ h => by
    rw [h.2]
    exact S.zero_mem

theorem advances_position : Advances S (position : Decoder ε Nat) :=
  advances_of_exact exact_position fun _ _ _ h => by
    rw [h.2]
    exact S.zero_mem

theorem advances_take {n : Nat} (error : Nat → ε) (hn : n ∈ S) : Advances S (take error n) :=
  advances_of_exact (exact_take error n) fun _ _ _ h => by
    rw [h.2]
    exact hn

theorem advances_bind {f : α → Decoder ε β} (hp : Advances S p) (hf : ∀ a, Advances S (f a)) :
    Advances S (p >>= f) := by
  intro i x k h
  obtain ⟨a, j, hpi, hfa⟩ := bind_eq_ok.mp h
  obtain ⟨b, hrest, hcursor, hb⟩ := hp i a j hpi
  obtain ⟨b', hrest', hcursor', hb'⟩ := hf a j x k hfa
  refine ⟨b ++ b', by rw [hrest, hrest', List.append_assoc], ?_, ?_⟩
  · rw [hcursor', hcursor, List.length_append, Nat.add_assoc]
  · rw [List.length_append]
    exact S.add_mem hb hb'

theorem advances_ite {c : Prop} [Decidable c] (hp : Advances S p) (hq : Advances S q) :
    Advances S (if c then p else q) := by
  split
  · exact hp
  · exact hq

end Advances

/-! ### Bytes that are read for certain -/

/-- The decoder takes these bytes, whatever stands behind them, and returns a value as described. -/
def Accepts (p : Decoder ε α) (bs : Bytes) (P : α → Prop) : Prop :=
  ∀ c rest, ∃ a, p ⟨c, bs ++ rest⟩ = .ok (a, ⟨c + bs.length, rest⟩) ∧ P a

section Accepts

variable {p : Decoder ε α} {bs bs' : Bytes} {P Q : α → Prop} {f : α → Decoder ε β} {R : β → Prop}

theorem accepts_of_exact {G : Grammar α} (h : Exact p G) (hG : ∀ c, ∃ a, G c a bs ∧ P a) :
    Accepts p bs P := by
  intro c rest
  obtain ⟨a, ha, hP⟩ := hG c
  exact ⟨a, (h _ _ _).mpr ⟨bs, rfl, rfl, ha⟩, hP⟩

theorem accepts_pure {x : α} (h : P x) : Accepts (pure x : Decoder ε α) [] P :=
  accepts_of_exact (exact_pure x) fun _ => ⟨x, ⟨rfl, rfl⟩, h⟩

theorem Accepts.mono (h : Accepts p bs P) (hPQ : ∀ a, P a → Q a) : Accepts p bs Q := by
  intro c rest
  obtain ⟨a, ha, hP⟩ := h c rest
  exact ⟨a, ha, hPQ a hP⟩

/-- A sequence takes the bytes of its parts. -/
theorem accepts_bind (hp : Accepts p bs P) (hf : ∀ a, P a → Accepts (f a) bs' R) :
    Accepts (p >>= f) (bs ++ bs') R := by
  intro c rest
  obtain ⟨a, ha, hP⟩ := hp c (bs' ++ rest)
  obtain ⟨x, hx, hR⟩ := hf a hP (c + bs.length) rest
  rw [← List.append_assoc] at ha
  rw [Nat.add_assoc, ← List.length_append] at hx
  exact ⟨x, bind_eq_ok.mpr ⟨a, _, ha, hx⟩, hR⟩

theorem accepts_position_bind {f : Nat → Decoder ε β} (hf : ∀ c, Accepts (f c) bs R) :
    Accepts (position >>= f) bs R := by
  have hposition : Accepts (position : Decoder ε Nat) [] fun _ => True :=
    accepts_of_exact exact_position fun c => ⟨c, ⟨rfl, rfl⟩, trivial⟩
  exact accepts_bind hposition fun c _ => hf c

theorem accepts_map {g : α → β} (h : Accepts p bs fun a => R (g a)) :
    Accepts (p >>= fun a => pure (g a)) bs R := by
  rw [← List.append_nil bs]
  exact accepts_bind h fun a ha => accepts_pure ha

theorem accepts_ite {c : Prop} [Decidable c] {q : Decoder ε α} (hp : c → Accepts p bs P)
    (hq : ¬ c → Accepts q bs P) : Accepts (if c then p else q) bs P := by
  split
  · next h => exact hp h
  · next h => exact hq h

end Accepts

end AmigaDevbench.Decoder
