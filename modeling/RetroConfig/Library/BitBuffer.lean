import Mathlib.Data.Nat.Digits.Defs
import Mathlib.Tactic.Ring

/-!
# Digits that pass through a bit buffer

A codec that turns digits of `w` bits into digits of `v` bits, lowest bits first, keeps the bits
that do not fill a digit yet in a buffer. `Holds` is the invariant of such a codec: the digits taken
in and the digits given out, with the buffer behind them, are the same number. It is kept when a
digit is taken in (`push`) and when one is given out (`emit`).
-/

namespace BitBuffer

open Nat (ofDigits)

variable {w v acc bits : Nat} {ds out : List Nat}

/-- The digits `ds` of `w` bits have been taken in, the digits `out` of `v` bits have been given out,
and the `bits` bits of `acc` wait. -/
structure Holds (w v : Nat) (ds out : List Nat) (acc bits : Nat) : Prop where
  value : ofDigits (2 ^ v) out + 2 ^ (v * out.length) * acc = ofDigits (2 ^ w) ds
  count : v * out.length + bits = w * ds.length
  acc_lt : acc < 2 ^ bits
  out_lt : ∀ d ∈ out, d < 2 ^ v

theorem holds_empty (w v : Nat) : Holds w v [] [] 0 0 where
  value := rfl
  count := rfl
  acc_lt := Nat.one_pos
  out_lt := fun _ hd => by cases hd

theorem ofDigits_concat (b : Nat) (ds : List Nat) (d : Nat) :
    ofDigits b (ds ++ [d]) = ofDigits b ds + b ^ ds.length * d := by
  rw [Nat.ofDigits_append, Nat.ofDigits_singleton]

/-- Bits added on top of a number that has fewer. -/
theorem add_lt_two_pow {n k d m : Nat} (hn : n < 2 ^ k) (hd : d < 2 ^ m) :
    n + 2 ^ k * d < 2 ^ (k + m) := by
  calc n + 2 ^ k * d < 2 ^ k + 2 ^ k * d := Nat.add_lt_add_right hn _
    _ = 2 ^ k * (d + 1) := by ring
    _ ≤ 2 ^ k * 2 ^ m := Nat.mul_le_mul_left _ hd
    _ = 2 ^ (k + m) := (pow_add 2 k m).symm

/-- A number below `2 ^ (k + m)` stays below `2 ^ k` exactly if nothing was added on top of it. -/
theorem add_lt_two_pow_iff {n k d m : Nat} (hn : n < 2 ^ k) :
    n + 2 ^ k * d < 2 ^ (k + m) ↔ d < 2 ^ m := by
  refine ⟨fun h => ?_, add_lt_two_pow hn⟩
  have hMul : 2 ^ k * d < 2 ^ k * 2 ^ m := by
    rw [← pow_add]
    omega
  exact Nat.lt_of_mul_lt_mul_left hMul

theorem ofDigits_lt (h : ∀ d ∈ ds, d < 2 ^ w) : ofDigits (2 ^ w) ds < 2 ^ (w * ds.length) := by
  induction ds with
  | nil => exact Nat.one_pos
  | cons d ds ih =>
    obtain ⟨hHead, hTail⟩ := List.forall_mem_cons.mp h
    rw [Nat.ofDigits_cons, List.length_cons, Nat.mul_succ, Nat.add_comm _ w]
    exact add_lt_two_pow hHead (ih hTail)

/-- Digits are determined by their number. -/
theorem ofDigits_inj (hw : 0 < w) {es : List Nat} (hLength : ds.length = es.length)
    (hds : ∀ d ∈ ds, d < 2 ^ w) (hes : ∀ d ∈ es, d < 2 ^ w)
    (hValue : ofDigits (2 ^ w) ds = ofDigits (2 ^ w) es) : ds = es :=
  Nat.ofDigits_inj_of_len_eq (Nat.one_lt_two_pow hw.ne') hLength hds hes hValue

namespace Holds

/-- A digit is taken in. -/
theorem push (h : Holds w v ds out acc bits) {d : Nat} (hd : d < 2 ^ w) :
    Holds w v (ds ++ [d]) out (acc + 2 ^ bits * d) (bits + w) where
  value := by
    rw [ofDigits_concat, ← h.value, ← pow_mul, ← h.count, pow_add]
    ring
  count := by
    rw [List.length_append, List.length_singleton, ← Nat.add_assoc, h.count]
    ring
  acc_lt := add_lt_two_pow h.acc_lt hd
  out_lt := h.out_lt

/-- A full digit is given out. -/
theorem emit (h : Holds w v ds out acc bits) (hBits : v ≤ bits) :
    Holds w v ds (out ++ [acc % 2 ^ v]) (acc / 2 ^ v) (bits - v) where
  value := by
    rw [ofDigits_concat, ← h.value, List.length_append, List.length_singleton, Nat.mul_add,
      Nat.mul_one, pow_add, ← pow_mul, Nat.add_assoc, Nat.mul_assoc, ← Nat.mul_add, Nat.mod_add_div]
  count := by
    rw [List.length_append, List.length_singleton, ← h.count, Nat.mul_add, Nat.mul_one]
    omega
  acc_lt := by
    rw [Nat.div_lt_iff_lt_mul (Nat.two_pow_pos v), ← pow_add, Nat.sub_add_cancel hBits]
    exact h.acc_lt
  out_lt := by
    intro d hd
    rcases List.mem_append.mp hd with hOld | hNew
    · exact h.out_lt d hOld
    · rw [List.mem_singleton.mp hNew]
      exact Nat.mod_lt _ (Nat.two_pow_pos v)

/-- The bits that wait are what the number has above the digits given out. -/
theorem acc_eq (h : Holds w v ds out acc bits) :
    acc = ofDigits (2 ^ w) ds / 2 ^ (v * out.length) := by
  rw [← h.value, Nat.add_mul_div_left _ _ (Nat.two_pow_pos _),
    Nat.div_eq_of_lt (ofDigits_lt h.out_lt), Nat.zero_add]

/-- Nothing but zero bits wait exactly if the digits given out carry the whole number. -/
theorem acc_eq_zero_iff (h : Holds w v ds out acc bits) :
    acc = 0 ↔ ofDigits (2 ^ w) ds < 2 ^ (v * out.length) := by
  rw [h.acc_eq, Nat.div_eq_zero_iff_lt (Nat.two_pow_pos _)]

/-- The bits that wait, given out as one more digit, complete the number. -/
theorem finish (h : Holds w v ds out acc bits) :
    ofDigits (2 ^ v) (out ++ [acc]) = ofDigits (2 ^ w) ds := by
  rw [ofDigits_concat, ← pow_mul, h.value]

end Holds

end BitBuffer
