import AmigaDevbench.Core.Text

/-!
# Bytes and their texts

File contents travel as hexadecimal digits, two for each byte, and a text read from a file is
its bytes in Latin-1.
-/

namespace AmigaDevbench

/-- The contents of a file. -/
abbrev Bytes := List UInt8

namespace Bytes

/-- `"%02lx"` of each byte; `bytes.hex()` writes the same digits. -/
def hex (bs : Bytes) : Text :=
  bs.flatMap fun b => [Nat.digitChar (b.toNat / 16), Nat.digitChar (b.toNat % 16)]

/-- `bytes.decode("latin-1")`. -/
def latin1 (bs : Bytes) : Text := bs.map fun b => Char.ofNat b.toNat

@[simp] theorem hex_nil : hex [] = [] := rfl

@[simp] theorem hex_cons (b : UInt8) (bs : Bytes) :
    hex (b :: bs) = Nat.digitChar (b.toNat / 16) :: Nat.digitChar (b.toNat % 16) :: hex bs := rfl

@[simp] theorem hex_append (bs cs : Bytes) : hex (bs ++ cs) = hex bs ++ hex cs :=
  List.flatMap_append

theorem hex_flatMap {α : Type*} (f : α → Bytes) (xs : List α) :
    hex (xs.flatMap f) = (xs.map fun x => hex (f x)).flatten := by
  rw [hex, List.flatMap_assoc, List.flatMap_def]
  rfl

@[simp] theorem length_hex (bs : Bytes) : (hex bs).length = 2 * bs.length := by
  induction bs with
  | nil => rfl
  | cons b bs ih =>
    simp only [hex_cons, List.length_cons, ih]
    omega

/-- The digits are those below sixteen. -/
theorem mem_hex {bs : Bytes} {c : Char} (h : c ∈ hex bs) : ∃ n < 16, c = Nat.digitChar n := by
  obtain ⟨b, _, hc⟩ := List.mem_flatMap.mp h
  have hb := b.toNat_lt
  simp only [List.mem_cons, List.not_mem_nil, or_false] at hc
  rcases hc with rfl | rfl
  · exact ⟨_, by omega, rfl⟩
  · exact ⟨_, by omega, rfl⟩

@[simp] theorem hex_eq_nil (bs : Bytes) : hex bs = [] ↔ bs = [] := by
  cases bs <;> simp

@[simp] theorem latin1_append (bs cs : Bytes) : latin1 (bs ++ cs) = latin1 bs ++ latin1 cs :=
  List.map_append

@[simp] theorem length_latin1 (bs : Bytes) : (latin1 bs).length = bs.length := List.length_map _

theorem latin1_prefix {bs cs : Bytes} (h : bs <+: cs) : latin1 bs <+: latin1 cs := h.map _

end Bytes

end AmigaDevbench
