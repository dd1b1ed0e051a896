import Mathlib.Data.List.Nodup

/-!
# The most recent elements

A list without repetitions, the most recent element first, and a bound on its length. `push` puts an
element at the head, wherever it was before; if the list gets too long, the last element goes.
-/

namespace Recent

variable {α : Type} [BEq α]

/-- Put an element at the head of the list, and keep `n` elements. -/
def push (n : Nat) (x : α) (l : List α) : List α := (x :: l.erase x).take n

theorem length_push_le (n : Nat) (x : α) (l : List α) : (push n x l).length ≤ n :=
  List.length_take_le n _

theorem head?_push {n : Nat} (hn : 0 < n) (x : α) (l : List α) : (push n x l).head? = some x := by
  cases n with
  | zero => exact absurd hn (Nat.lt_irrefl 0)
  | succ n => rfl

/-- The other elements keep their order. -/
theorem tail_push_sublist (n : Nat) (x : α) (l : List α) : (push n x l).tail.Sublist (l.erase x) := by
  cases n with
  | zero => exact List.nil_sublist _
  | succ n => exact List.take_sublist n _

variable [LawfulBEq α]

/-- An element that was there moves to the head, and no element goes. -/
theorem push_of_mem {n : Nat} {x : α} {l : List α} (hx : x ∈ l) (hLength : l.length ≤ n) :
    push n x l = x :: l.erase x := by
  refine List.take_of_length_le ?_
  have hErase := List.length_erase_of_mem hx
  have hPos := List.length_pos_of_mem hx
  rw [List.length_cons]
  omega

/-- If there is room for a new element, no element goes. -/
theorem push_of_lt {n : Nat} {x : α} {l : List α} (hx : x ∉ l) (hLength : l.length < n) :
    push n x l = x :: l := by
  rw [push, List.erase_of_not_mem hx]
  exact List.take_of_length_le hLength

/-- If there is none, the last one goes. -/
theorem push_of_full {n : Nat} {x : α} {l : List α} (hx : x ∉ l) (hPos : 0 < n)
    (hLength : l.length = n) : push n x l = x :: l.dropLast := by
  obtain ⟨m, rfl⟩ := Nat.exists_eq_succ_of_ne_zero (Nat.pos_iff_ne_zero.mp hPos)
  rw [push, List.erase_of_not_mem hx, List.take_succ_cons, List.dropLast_eq_take, hLength]
  rfl

/-- What pushing `x` does to a list of at most `n` elements: `x` is at the head, the others keep their
order, and an element goes only if it is the last one of a full list. -/
structure Pushed (n : Nat) (x : α) (old new : List α) : Prop where
  head : new.head? = some x
  order : new.tail.Sublist (old.erase x)
  evicted : ∀ y ∈ old, y ∉ new → old.getLast? = some y ∧ old.length = n ∧ x ∉ old

theorem pushed {n : Nat} (hPos : 0 < n) (x : α) {l : List α} (hLength : l.length ≤ n) :
    Pushed n x l (push n x l) := by
  refine ⟨head?_push hPos x l, tail_push_sublist n x l, fun y hy hGone => ?_⟩
  by_cases hx : x ∈ l
  · rw [push_of_mem hx hLength, List.mem_cons, not_or] at hGone
    exact absurd ((List.mem_erase_of_ne hGone.1).mpr hy) hGone.2
  · rcases Nat.lt_or_eq_of_le hLength with hRoom | hFull
    · rw [push_of_lt hx hRoom] at hGone
      exact absurd (List.mem_cons_of_mem x hy) hGone
    · rw [push_of_full hx hPos hFull, List.mem_cons, not_or] at hGone
      have hNe : l ≠ [] := List.ne_nil_of_mem hy
      have hSplit := List.dropLast_append_getLast hNe
      rw [← hSplit, List.mem_append, List.mem_singleton] at hy
      rw [List.getLast?_eq_some_getLast hNe, hy.resolve_left hGone.2]
      exact ⟨rfl, hFull, hx⟩

end Recent
