import Mathlib.Data.List.Infix
import Mathlib.Tactic.Common

/-!
# Words in a text

A word stands in a text where it occurs with no other character of a word before or after it. A search
for it may go on behind an occurrence that is part of a longer word: none that stands alone
overlaps that one (`exists_stands_skip`).
-/

namespace Words

variable {α : Type} [DecidableEq α]

/-- The first place from an offset on at which the key occurs. -/
def find (key text : List α) (off : Nat) : Option Nat :=
  (List.range' off (text.length - off)).find? fun i => key.isPrefixOf (text.drop i)

/-- The characters around an occurrence are not those of a word. -/
def bounded (isWord : α → Bool) (key text : List α) (idx : Nat) : Bool :=
  (idx = 0 || !(text[idx - 1]?).any isWord) &&
    (idx + key.length = text.length || !(text[idx + key.length]?).any isWord)

/-- The key occurs as a word. -/
def Stands (isWord : α → Bool) (key text : List α) (i : Nat) : Prop :=
  key <+: text.drop i ∧ bounded isWord key text i = true

variable {isWord : α → Bool} {key text : List α} {off idx : Nat}

theorem find_eq_some : find key text off = some idx ↔
    off ≤ idx ∧ idx < text.length ∧ key <+: text.drop idx ∧
      ∀ j, off ≤ j → j < idx → ¬ key <+: text.drop j := by
  rw [find, List.find?_range'_eq_some]
  simp only [List.isPrefixOf_iff_prefix, List.mem_range'_1, Bool.not_eq_true', ← Bool.not_eq_true]
  constructor
  · rintro ⟨hPrefix, ⟨hOff, hLt⟩, hFirst⟩
    exact ⟨hOff, by omega, hPrefix, fun j hj hlt => hFirst j hj hlt⟩
  · rintro ⟨hOff, hLt, hPrefix, hFirst⟩
    exact ⟨hPrefix, ⟨hOff, by omega⟩, fun j hj hlt => hFirst j hj hlt⟩

omit [DecidableEq α] in
theorem lt_length_of_prefix_drop (hKey : key ≠ []) (h : key <+: text.drop idx) :
    idx < text.length := by
  by_contra hNot
  rw [List.drop_eq_nil_of_le (by omega), List.prefix_nil] at h
  exact hKey h

theorem find_eq_none (hKey : key ≠ []) :
    find key text off = none ↔ ∀ i, off ≤ i → ¬ key <+: text.drop i := by
  rw [find, List.find?_range'_eq_none]
  constructor
  · intro h i hi hPrefix
    have hLt := lt_length_of_prefix_drop hKey hPrefix
    simpa [List.isPrefixOf_iff_prefix.mpr hPrefix] using h i hi (by omega)
  · intro h i hi _
    rw [Bool.not_eq_true', ← Bool.not_eq_true, List.isPrefixOf_iff_prefix]
    exact h i hi

omit [DecidableEq α] in
/-- What stands behind an occurrence stands behind its last character. -/
theorem Stands.not_overlaps {i : Nat} (h : Stands isWord key text i)
    (hWord : ∀ c ∈ key, isWord c = true) (hOccurs : key <+: text.drop idx) (hLt : idx < i) :
    idx + key.length ≤ i := by
  by_contra hNot
  have hInside : i - 1 - idx < key.length := by omega
  have hBefore : text[i - 1]? = some (key[i - 1 - idx]) := by
    have hGet := List.prefix_iff_getElem?.mp hOccurs _ hInside
    rw [List.getElem?_drop] at hGet
    rwa [show idx + (i - 1 - idx) = i - 1 by omega] at hGet
  have hIsWord := hWord _ (List.getElem_mem hInside)
  have hBounded := h.2
  simp only [bounded, hBefore, Option.any_some, hIsWord, Bool.and_eq_true, Bool.or_eq_true] at hBounded
  have hZero : i = 0 := by simpa using hBounded.1
  omega

omit [DecidableEq α] in
/-- A search may go on behind an occurrence that does not stand. -/
theorem exists_stands_skip (hWord : ∀ c ∈ key, isWord c = true) (hOff : off ≤ idx)
    (hOccurs : key <+: text.drop idx) (hFirst : ∀ j, off ≤ j → j < idx → ¬ key <+: text.drop j)
    (hNot : bounded isWord key text idx = false) :
    (∃ i, off ≤ i ∧ Stands isWord key text i) ↔
      ∃ i, idx + key.length ≤ i ∧ Stands isWord key text i := by
  constructor
  · rintro ⟨i, hi, hStands⟩
    have hNotBefore : ¬ i < idx := fun hLt => hFirst i hi hLt hStands.1
    have hNe : i ≠ idx := by
      rintro rfl
      rw [hStands.2] at hNot
      cases hNot
    exact ⟨i, hStands.not_overlaps hWord hOccurs (by omega), hStands⟩
  · rintro ⟨i, hi, hStands⟩
    exact ⟨i, by omega, hStands⟩

omit [DecidableEq α] in
theorem bounded_front (front back : List α) :
    bounded isWord key (front ++ key ++ back) front.length = true ↔
      (∀ c ∈ front.getLast?, isWord c = false) ∧ ∀ c ∈ back.head?, isWord c = false := by
  rw [bounded, Bool.and_eq_true]
  apply and_congr
  · cases front using List.reverseRecOn with
    | nil => simp
    | append_singleton front c =>
      have hLast : (front ++ [c] ++ key ++ back)[(front ++ [c]).length - 1]? = some c := by simp
      rw [hLast]
      simp
  · cases back with
    | nil => simp
    | cons c back =>
      have hNext : (front ++ key ++ c :: back)[front.length + key.length]? = some c := by
        rw [← List.length_append, List.getElem?_append_right (Nat.le_refl _)]
        simp
      rw [hNext]
      simp

omit [DecidableEq α] in
/-- The text around a word that stands in it. -/
theorem exists_stands_iff (hKey : key ≠ []) : (∃ i, Stands isWord key text i) ↔
    ∃ front back, text = front ++ key ++ back ∧ (∀ c ∈ front.getLast?, isWord c = false) ∧
      ∀ c ∈ back.head?, isWord c = false := by
  constructor
  · rintro ⟨i, hOccurs, hStands⟩
    have hLt := lt_length_of_prefix_drop hKey hOccurs
    obtain ⟨back, hBack⟩ := hOccurs
    have hText : text = text.take i ++ key ++ back := by
      rw [List.append_assoc, hBack, List.take_append_drop]
    have hLength : (text.take i).length = i := List.length_take_of_le (Nat.le_of_lt hLt)
    refine ⟨text.take i, back, hText, ?_⟩
    rwa [← bounded_front, ← hText, hLength]
  · rintro ⟨front, back, rfl, hAround⟩
    refine ⟨front.length, ?_, (bounded_front front back).mpr hAround⟩
    rw [List.append_assoc, List.drop_left]
    exact List.prefix_append key back

end Words
