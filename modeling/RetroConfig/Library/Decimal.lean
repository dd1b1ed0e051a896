import Mathlib.Tactic.Common

/-!
# Decimal numbers in bytes

The digits of a number, as the bytes of a text. They come from those of its tenth and the last one
(`decimal_eq`), which is how loops write and read them.
-/

namespace Decimal

/-- The bytes of a number in decimal. -/
def decimal (n : Nat) : List UInt8 := (Nat.toDigits 10 n).map fun c => UInt8.ofNat c.toNat

theorem digitChar_eq {n : Nat} (h : n < 10) :
    UInt8.ofNat (Nat.digitChar n).toNat = UInt8.ofNat (n + 48) := by
  have hAll : ∀ n < 10, UInt8.ofNat (Nat.digitChar n).toNat = UInt8.ofNat (n + 48) := by decide
  exact hAll n h

theorem decimal_eq (n : Nat) :
    decimal n = if n < 10 then [UInt8.ofNat (n + 48)]
      else decimal (n / 10) ++ [UInt8.ofNat (n % 10 + 48)] := by
  rw [decimal, Nat.toDigits_eq_if (by decide)]
  split
  · next h => rw [List.map_singleton, digitChar_eq h]
  · next h => rw [List.map_append, List.map_singleton, digitChar_eq (Nat.mod_lt n (by decide)), decimal]

/-- Induction along the digits. -/
theorem digits_induction {P : Nat → Prop} (one : ∀ n < 10, P n)
    (more : ∀ n, 10 ≤ n → P (n / 10) → P n) (n : Nat) : P n := by
  induction n using Nat.strongRecOn with
  | ind n ih =>
    rcases Nat.lt_or_ge n 10 with h | h
    · exact one n h
    · exact more n h (ih (n / 10) (Nat.div_lt_self (by omega) (by decide)))

theorem digit_toNat {n : Nat} (h : n < 10) : (UInt8.ofNat (n + 48)).toNat = n + 48 :=
  UInt8.toNat_ofNat_of_lt' (by
    show n + 48 < 2 ^ 8
    omega)

theorem decimal_ne_nil (n : Nat) : decimal n ≠ [] := by
  rw [decimal_eq]
  split <;> simp

/-- The bytes are digits. -/
theorem mem_decimal {n : Nat} {c : UInt8} (h : c ∈ decimal n) : ∃ d < 10, c = UInt8.ofNat (d + 48) := by
  induction n using digits_induction with
  | one n hn =>
    rw [decimal_eq, if_pos hn, List.mem_singleton] at h
    exact ⟨n, hn, h⟩
  | more n hn ih =>
    rw [decimal_eq, if_neg (by omega), List.mem_append, List.mem_singleton] at h
    rcases h with h | h
    · exact ih h
    · exact ⟨n % 10, Nat.mod_lt n (by decide), h⟩

end Decimal
