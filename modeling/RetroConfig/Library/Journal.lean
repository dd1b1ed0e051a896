import Mathlib.Data.List.Basic

/-!
# Journals

A system that writes down what it does leaves a list of events, the last one at its end. `Each`
says of every event that it was in order when it was written, given the events before it; `Since`
that some event was written and that nothing forbidden has been written after it. Both are decided
by the last event and the journal before it, which is what an induction over a run needs.
-/

namespace Journal

variable {ε : Type}

/-- Every event of the journal was in order after the events before it. -/
def Each (P : List ε → ε → Prop) (log : List ε) : Prop :=
  ∀ front e back, log = front ++ e :: back → P front e

/-- An event of the first kind was written, and only events of the second kind after it. -/
def Since (p q : ε → Prop) (log : List ε) : Prop :=
  ∃ front e back, log = front ++ e :: back ∧ p e ∧ ∀ x ∈ back, q x

variable {P : List ε → ε → Prop} {p q : ε → Prop} {log : List ε} {e : ε}

theorem each_nil : Each P [] := by
  intro front e back h
  simp at h

theorem each_concat : Each P (log ++ [e]) ↔ Each P log ∧ P log e := by
  constructor
  · intro h
    refine ⟨fun front e' back hLog => ?_, h log e [] rfl⟩
    apply h front e' (back ++ [e])
    rw [hLog, List.append_assoc, List.cons_append]
  · rintro ⟨hEach, hLast⟩ front e' back hLog
    rcases List.eq_nil_or_concat back with rfl | ⟨back, last, rfl⟩
    · obtain ⟨rfl, hEq⟩ := List.append_inj' hLog rfl
      rwa [← List.head_eq_of_cons_eq hEq]
    · have hSplit : log ++ [e] = (front ++ e' :: back) ++ [last] := by
        rw [hLog, List.append_assoc, List.cons_append, List.concat_eq_append]
      exact hEach front e' back (List.append_inj' hSplit rfl).1

theorem not_since_nil : ¬ Since p q [] := by
  rintro ⟨front, e, back, h, -⟩
  simp at h

theorem since_concat : Since p q (log ++ [e]) ↔ p e ∨ (q e ∧ Since p q log) := by
  constructor
  · rintro ⟨front, x, back, hLog, hx, hBack⟩
    rcases List.eq_nil_or_concat back with rfl | ⟨back, last, rfl⟩
    · obtain ⟨-, hEq⟩ := List.append_inj' hLog rfl
      rw [List.head_eq_of_cons_eq hEq]
      exact Or.inl hx
    · have hSplit : log ++ [e] = (front ++ x :: back) ++ [last] := by
        rw [hLog, List.append_assoc, List.cons_append, List.concat_eq_append]
      obtain ⟨hFront, hEq⟩ := List.append_inj' hSplit rfl
      rw [List.concat_eq_append] at hBack
      rw [List.head_eq_of_cons_eq hEq]
      refine Or.inr ⟨hBack last List.mem_concat_self, front, x, back, hFront, hx, ?_⟩
      exact fun y hy => hBack y (List.mem_append_left _ hy)
  · rintro (he | ⟨hq, front, x, back, rfl, hx, hBack⟩)
    · exact ⟨log, e, [], rfl, he, fun _ hMem => absurd hMem List.not_mem_nil⟩
    · refine ⟨front, x, back ++ [e], by rw [List.append_assoc, List.cons_append], hx, ?_⟩
      intro y hy
      rcases List.mem_append.mp hy with hOld | hNew
      · exact hBack y hOld
      · rwa [List.mem_singleton.mp hNew]

/-- An event of the first kind starts anew. -/
theorem since_self (he : p e) : Since p q (log ++ [e]) := since_concat.mpr (Or.inl he)

/-- An event of neither kind changes nothing. -/
theorem since_other (hp : ¬ p e) (hq : q e) : Since p q (log ++ [e]) ↔ Since p q log := by
  rw [since_concat, or_iff_right hp, and_iff_right hq]

/-- An event that is forbidden ends it. -/
theorem not_since_of (hp : ¬ p e) (hq : ¬ q e) : ¬ Since p q (log ++ [e]) := by
  rw [since_concat]
  exact fun h => h.elim hp fun h => hq h.1

theorem Since.exists_mem (h : Since p q log) : ∃ e ∈ log, p e := by
  obtain ⟨front, e, back, rfl, he, -⟩ := h
  exact ⟨e, List.mem_append_right _ List.mem_cons_self, he⟩

end Journal
