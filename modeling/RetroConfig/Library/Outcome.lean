import Mathlib.Tactic.Common

/-!
# Postconditions of computations that throw

`Ensures x P E` says that a result of `x` satisfies `P` and an exception `E`. It is proved along the
steps of a computation. `Extends stuck x y` says that `y` is `x`, or that `x` is stuck; this is how a
computation with few steps is related to one with more. `Yields f a` says that `f` gives `a` as soon
as it may take enough steps.
-/

namespace Outcome

variable {ε α β : Type} {x : Except ε α} {P Q : α → Prop} {E F : ε → Prop}

/-- What holds of the result, or of the exception. -/
def Ensures (x : Except ε α) (P : α → Prop) (E : ε → Prop) : Prop :=
  match x with
  | .ok a => P a
  | .error e => E e

theorem ensures_error {e : ε} (h : E e) : Ensures (.error e) P E := h

theorem Ensures.of_ok (h : Ensures x P E) {a : α} (hx : x = .ok a) : P a := by
  subst hx
  exact h

theorem Ensures.of_error (h : Ensures x P E) {e : ε} (hx : x = .error e) : E e := by
  subst hx
  exact h

theorem Ensures.imp (h : Ensures x P E) (hP : ∀ a, P a → Q a) (hE : ∀ e, E e → F e) :
    Ensures x Q F := by
  cases x with
  | ok a => exact hP a h
  | error e => exact hE e h

/-- The first step, and what follows it. -/
theorem Ensures.bind {f : α → Except ε β} {R : β → Prop} (h : Ensures x P E)
    (hf : ∀ a, P a → Ensures (f a) R E) : Ensures (x >>= f) R E := by
  cases x with
  | ok a => exact hf a h
  | error e => exact h

theorem ensures_ite {c : Prop} [Decidable c] {y : Except ε α} (hx : c → Ensures x P E)
    (hy : ¬ c → Ensures y P E) : Ensures (if c then x else y) P E := by
  split
  · next h => exact hx h
  · next h => exact hy h

/-! ## More steps -/

/-- `y` does what `x` does, unless `x` is stuck. -/
def Extends (stuck : ε) (x y : Except ε α) : Prop := x = .error stuck ∨ y = x

theorem extends_self (stuck : ε) (x : Except ε α) : Extends stuck x x := .inr rfl

theorem Extends.bind {stuck : ε} {x y : Except ε α} {f g : α → Except ε β} (h : Extends stuck x y)
    (hf : ∀ a, Extends stuck (f a) (g a)) : Extends stuck (x >>= f) (y >>= g) := by
  rcases h with rfl | rfl
  · exact .inl rfl
  · cases y with
    | ok a => exact hf a
    | error e => exact .inr rfl

theorem Extends.trans {stuck : ε} {x y z : Except ε α} (h : Extends stuck x y)
    (h' : Extends stuck y z) : Extends stuck x z := by
  rcases h with rfl | rfl
  · exact .inl rfl
  · exact h'

/-- What is not stuck stays. -/
theorem Extends.eq {stuck : ε} {x y : Except ε α} (h : Extends stuck x y)
    (hNot : x ≠ .error stuck) : y = x :=
  h.resolve_left hNot

/-! ## Enough steps -/

/-- The result, for every number of steps that is large enough. -/
def Yields (f : Nat → Except ε α) (a : α) : Prop := ∃ least, ∀ n, least ≤ n → f n = .ok a

theorem Yields.succ {f g : Nat → Except ε α} {a : α} (h : Yields g a)
    (hStep : ∀ n, f (n + 1) = g n) : Yields f a := by
  obtain ⟨least, hLeast⟩ := h
  refine ⟨least + 1, fun n hn => ?_⟩
  obtain ⟨m, rfl⟩ := Nat.exists_eq_add_of_le' (Nat.le_trans (Nat.le_add_left 1 least) hn)
  rw [hStep, hLeast m (by omega)]

theorem Yields.bind {f : Nat → Except ε α} {g : α → Nat → Except ε β} {a : α} {b : β}
    (hf : Yields f a) (hg : Yields (g a) b) : Yields (fun n => f n >>= fun a => g a n) b := by
  obtain ⟨least, hLeast⟩ := hf
  obtain ⟨least', hLeast'⟩ := hg
  refine ⟨max least least', fun n hn => ?_⟩
  show (f n >>= fun a => g a n) = _
  rw [hLeast n (by omega), ← hLeast' n (by omega)]
  rfl

theorem yields_const {f : Nat → Except ε α} {a : α} (h : ∀ n, f n = .ok a) : Yields f a :=
  ⟨0, fun n _ => h n⟩

end Outcome
