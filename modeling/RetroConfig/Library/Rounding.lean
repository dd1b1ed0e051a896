import Mathlib.Algebra.Group.Nat.Defs
import Mathlib.Data.Nat.Basic
import Mathlib.Tactic.Common

/-!
# Rounding to a number of bits

A binary floating point format with `p` bits holds the natural numbers that are less than 2^p times
a power of two. Any other one is rounded to the nearest of these, and to the one with the even
significand if it lies in the middle.
-/

namespace Rounding

/-- The distance of the numbers of `p` bits around `n`. -/
def unit (p n : Nat) : Nat := 2 ^ (n.log2 + 1 - p)

/-- Round to the nearest, ties to even. -/
def nearestEven (p n : Nat) : Nat :=
  if unit p n < 2 * (n % unit p n) ∨ 2 * (n % unit p n) = unit p n ∧ n / unit p n % 2 = 1 then
    (n / unit p n + 1) * unit p n
  else n / unit p n * unit p n

variable {p n : Nat}

theorem unit_of_lt (hp : 0 < p) (h : n < 2 ^ p) : unit p n = 1 := by
  have hExponent : n.log2 + 1 - p = 0 := by
    by_cases hZero : n = 0
    · rw [hZero, Nat.log2_zero]
      omega
    · have hLog := (Nat.log2_lt hZero).mpr h
      omega
  rw [unit, hExponent, Nat.pow_zero]

/-- Small numbers are not rounded. -/
theorem nearestEven_of_lt (hp : 0 < p) (h : n < 2 ^ p) : nearestEven p n = n := by
  have hTie : ¬ (1 < 2 * (n % 1) ∨ 2 * (n % 1) = 1 ∧ n / 1 % 2 = 1) := by omega
  rw [nearestEven, unit_of_lt hp h, if_neg hTie, Nat.div_one, Nat.mul_one]

theorem unit_le (hp : 0 < p) (hn : 0 < n) : unit p n ≤ n := by
  calc unit p n ≤ 2 ^ n.log2 := Nat.pow_le_pow_right (by decide) (by omega)
    _ ≤ n := Nat.log2_self_le (Nat.ne_of_gt hn)

/-- A number loses less than half of it. -/
theorem le_two_mul_nearestEven (hp : 0 < p) (n : Nat) : n ≤ 2 * nearestEven p n := by
  rcases Nat.eq_zero_or_pos n with rfl | hn
  · exact Nat.zero_le _
  · have hUnit := unit_le hp hn
    have hPos : 0 < unit p n := Nat.two_pow_pos _
    have hQuotient : 1 ≤ n / unit p n := (Nat.one_le_div_iff hPos).mpr hUnit
    have hMod := Nat.mod_lt n hPos
    have hDiv := Nat.div_add_mod n (unit p n)
    have hLe : unit p n ≤ n / unit p n * unit p n := Nat.le_mul_of_pos_left _ hQuotient
    have hDown : n ≤ 2 * (n / unit p n * unit p n) := by
      rw [Nat.mul_comm] at hDiv
      omega
    unfold nearestEven
    split
    · have hUp : n / unit p n * unit p n ≤ (n / unit p n + 1) * unit p n :=
        Nat.mul_le_mul_right _ (Nat.le_succ _)
      omega
    · exact hDown

end Rounding
