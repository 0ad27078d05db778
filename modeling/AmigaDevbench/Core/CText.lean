import AmigaDevbench.Core.Text

/-!
# C strings

A C string is the text before its first NUL. Copies into a fixed array keep what fits in
front of the terminator.
-/

namespace AmigaDevbench

namespace CText

/-- The terminator. -/
def nul : Char := Char.ofNat 0

/-- The string that a character buffer holds. -/
def cut (s : Text) : Text := s.before nul

/-- A string that a function takes as an argument. -/
abbrev CString := { s : Text // nul ∉ s }

/-- A string copied into an array of `n + 1` characters: `strncpy(dst, s, n); dst[n] = 0`. -/
def fit (n : Nat) (s : Text) : Text := (cut s).take n

/-- `strncat(dst, src, n)`. -/
def strncat (dst src : Text) (n : Nat) : Text := dst ++ (cut src).take n

/-- A `char` read as a signed number. -/
def signed (c : Char) : Int := if c.toNat < 128 then c.toNat else (c.toNat : Int) - 256

/-- A number stored into a `char`. -/
def ofInt (n : Int) : Char := Char.ofNat (n % 256).toNat

/-- A text without terminator is a C string as it stands. -/
theorem cut_eq_self {s : Text} (h : nul ∉ s) : cut s = s := Text.before_eq_self h

theorem nul_notMem_cut (s : Text) : nul ∉ cut s := by
  intro hmem
  have hne := List.mem_takeWhile_imp hmem
  simp at hne

theorem length_fit_le (n : Nat) (s : Text) : (fit n s).length ≤ n :=
  List.length_take_le n (cut s)

theorem nul_notMem_fit (n : Nat) (s : Text) : nul ∉ fit n s :=
  fun hmem => nul_notMem_cut s (List.mem_of_mem_take hmem)

/-- A string that fits is copied whole. -/
theorem fit_eq_self {n : Nat} {s : Text} (hnul : nul ∉ s) (hlen : s.length ≤ n) :
    fit n s = s := by
  rw [fit, cut_eq_self hnul, List.take_of_length_le hlen]

/-- A string that fits is appended whole. -/
theorem strncat_eq_append {dst src : Text} {n : Nat} (hnul : nul ∉ src)
    (hlen : src.length ≤ n) : strncat dst src n = dst ++ src := by
  rw [strncat, cut_eq_self hnul, List.take_of_length_le hlen]

end CText

end AmigaDevbench
