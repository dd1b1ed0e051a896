import Mathlib.Data.List.Nodup
import Mathlib.Data.List.TakeWhile
import Mathlib.Tactic.Common

/-!
# The preferred elements of a list, and others up to a quota

`prefer p n l` are the first elements of `l` that satisfy `p`, and if these are less than `n` the first
of the others. To find the others it is enough to look at the first `n` elements of `l`
(`take_filter_take`): those of them that are preferred are not more than the preferred ones.
-/

namespace Quota

variable {α : Type}

/-- If at most `k` elements fail `p`, the first `n` elements have the first `n - k` that satisfy it. -/
theorem take_filter_take {p : α → Bool} {k n : Nat} {l : List α}
    (hCount : l.countP (fun x => !p x) ≤ k) :
    ((l.take n).filter p).take (n - k) = (l.filter p).take (n - k) := by
  by_cases hShort : l.length ≤ n
  · rw [List.take_of_length_le hShort]
  · have hSplit : l.filter p = (l.take n).filter p ++ (l.drop n).filter p := by
      rw [← List.filter_append, List.take_append_drop]
    have hLength := List.length_eq_countP_add_countP p (l := l.take n)
    have hFew : (l.take n).countP (fun x => decide ¬ p x = true) ≤ k := by
      refine Nat.le_trans (Nat.le_trans ((List.take_sublist n l).countP_le) (Nat.le_of_eq ?_)) hCount
      apply List.countP_congr
      intro x _
      simp
    rw [List.length_take, List.countP_eq_length_filter] at hLength
    rw [hSplit, List.take_append_of_le_length]
    omega

variable [DecidableEq α]

/-- The first elements of `l` that are not in `xs`. -/
def others (xs : List α) (n : Nat) (l : List α) : List α :=
  (l.filter fun x => decide (x ∉ xs)).take n

/-- The first `n` elements that satisfy `p`, followed by the first of the remaining ones, `n` together. -/
def prefer (p : α → Bool) (n : Nat) (l : List α) : List α :=
  (l.filter p).take n ++ others ((l.filter p).take n) (n - ((l.filter p).take n).length) l

section Nodup

variable {l xs : List α} {n : Nat}

theorem countP_mem_le (hNodup : l.Nodup) : l.countP (fun x => !decide (x ∉ xs)) ≤ xs.length := by
  rw [List.countP_eq_length_filter]
  apply List.Nodup.length_le_of_subset (hNodup.filter _)
  intro x hx
  have hMem := (List.mem_filter.mp hx).2
  rwa [Bool.not_eq_true', decide_eq_false_iff_not, not_not] at hMem

/-- It does not matter whether the others are looked for among all elements or the first `n`. -/
theorem others_take (hNodup : l.Nodup) :
    others xs (n - xs.length) (l.take n) = others xs (n - xs.length) l :=
  take_filter_take (countP_mem_le hNodup)

theorem length_others (hNodup : l.Nodup) (hXs : xs.Nodup) (hSub : xs ⊆ l) :
    (others xs n l).length = min n (l.length - xs.length) := by
  have hSplit := List.length_eq_countP_add_countP (fun x => decide (x ∉ xs)) (l := l)
  have hIn : l.countP (fun x => decide ¬ decide (x ∉ xs) = true) = xs.length := by
    rw [List.countP_eq_length_filter]
    apply List.Perm.length_eq
    rw [List.perm_ext_iff_of_nodup (hNodup.filter _) hXs]
    intro x
    rw [List.mem_filter]
    constructor
    · rintro ⟨-, hx⟩
      simpa using hx
    · intro hx
      exact ⟨hSub hx, by simpa using hx⟩
  rw [List.countP_eq_length_filter] at hSplit
  rw [others, List.length_take]
  omega

theorem prefer_nodup (hNodup : l.Nodup) (p : α → Bool) : (prefer p n l).Nodup := by
  refine List.Nodup.append ?_ ?_ ?_
  · exact (hNodup.filter p).sublist (List.take_sublist _ _)
  · exact (hNodup.filter _).sublist (List.take_sublist _ _)
  · intro x hx hOther
    have hMem := (List.mem_filter.mp (List.mem_of_mem_take hOther)).2
    exact of_decide_eq_true hMem hx

theorem length_prefer (hNodup : l.Nodup) (p : α → Bool) : (prefer p n l).length = min n l.length := by
  have hSub : (l.filter p).take n ⊆ l :=
    ((List.take_sublist _ _).trans List.filter_sublist).subset
  have hTake : ((l.filter p).take n).Nodup := (hNodup.filter p).sublist (List.take_sublist _ _)
  have hLe : ((l.filter p).take n).length ≤ min n l.length := by
    have hFilter := List.length_filter_le p l
    rw [List.length_take]
    omega
  rw [prefer, List.length_append, length_others hNodup hTake hSub]
  omega

theorem prefer_subset (p : α → Bool) : prefer p n l ⊆ l := by
  intro x hx
  rcases List.mem_append.mp hx with hx | hx
  · exact List.mem_of_mem_filter (List.mem_of_mem_take hx)
  · exact List.mem_of_mem_filter (List.mem_of_mem_take hx)

/-- If all elements are preferred, there are no others. -/
theorem prefer_of_forall (hNodup : l.Nodup) {p : α → Bool} (h : ∀ x ∈ l, p x = true) :
    prefer p n l = l.take n := by
  have hAll : l.filter p = l := List.filter_eq_self.mpr h
  have hLength := length_prefer (n := n) hNodup p
  rw [prefer, hAll, List.length_append, List.length_take] at hLength
  have hNone : others (l.take n) (n - (l.take n).length) l = [] := by
    apply List.eq_nil_of_length_eq_zero
    rw [List.length_take]
    omega
  rw [prefer, hAll, hNone, List.append_nil]

end Nodup

end Quota
