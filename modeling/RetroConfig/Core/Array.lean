import RetroConfig.Library.CString
import Mathlib.Data.List.Basic
import Mathlib.Tactic.Common

/-!
# `_Array::remove`

`_Array::remove` (`gcore/core/IMP.cpp`) erases while it iterates. It saves the end of the array before
it starts, and advances its iterator in the body of the loop and in its head: by two places where an
element stays, by one where it is erased. So every other element is not looked at, and the iterator
has to meet the saved end.

`remove_iff_removable` says when it removes what it should. `Variant::operator==`, by which the
elements are compared, calls all booleans equal, and all numbers of type `long long`; it compares a
`long` as an `int` and a `double` as a `float`.
-/

namespace RetroConfig.VariantArray

/-! ## Variants -/

/-- A `Variant`. An object is its class and its address; a string has its text. -/
inductive Variant where
  | null
  | bool (v : Bool)
  | char (v : Int8)
  | short (v : Int16)
  | int (v : Int32)
  | long (v : Int64)
  | longLong (v : Int64)
  | float (bits : UInt32)
  | double (bits : UInt64)
  | string (text : String)
  | stringName (id : Nat)
  | pointer (address : Nat)
  | memory (cls : String) (address : Nat)
  | object (cls : String) (address : Nat)
  deriving DecidableEq

/-- `==` of IEEE numbers: `exponent` are the bits of the exponent, `sign` is the bit of the sign. -/
def floatEq (exponent sign x y : Nat) : Bool :=
  let nan (x : Nat) := exponent < x % sign
  !nan x && !nan y && (x == y || x % sign == 0 && y % sign == 0)

namespace Variant

def floatEq32 (x y : UInt32) : Bool := floatEq 0x7f800000 0x80000000 x.toNat y.toNat

def floatEq64 (x y : UInt64) : Bool := floatEq 0x7ff0000000000000 0x8000000000000000 x.toNat y.toNat

/-- `Variant::operator==`. `toFloat` is the conversion of a `double`. -/
def equals (toFloat : UInt64 → UInt32) : Variant → Variant → Bool
  | .null, .null => true
  | .bool _, .bool _ => true
  | .char v, .char w => v == w
  | .short v, .short w => v == w
  | .int v, .int w => v == w
  | .long v, .long w => v.toInt32 == w.toInt32
  | .longLong _, .longLong _ => true
  | .float x, .float y => floatEq32 x y
  | .double x, .double y => floatEq32 (toFloat x) (toFloat y)
  | .string s, .string t => Text.cString s == Text.cString t
  | .stringName i, .stringName j => i == j
  | .pointer a, .pointer b => a == b
  | .memory c a, .memory d b => c == d && a == b
  | .object c a, .object d b => c == d && a == b
  | _, _ => false

/-- The two have the same type and the same value. -/
def same : Variant → Variant → Bool
  | .float x, .float y => floatEq32 x y
  | .double x, .double y => floatEq64 x y
  | v, w => v == w

end Variant

/-! ## The loop -/

variable {α : Type}

/-- The loop of `_Array::remove` at the place `it`, where `e` was the end of the array. It is `none`
where it dereferences a place behind the last element. -/
def removeFrom (eq : α → Bool) (e : Nat) (variants : List α) (it : Nat) : Option (List α) :=
  if it = e then some variants
  else if h : it < variants.length then
    if eq variants[it] then removeFrom eq e (variants.eraseIdx it) (it + 1)
    else removeFrom eq e variants (it + 1 + 1)
  else none
termination_by variants.length - it
decreasing_by
  · rw [List.length_eraseIdx_of_lt h]
    omega
  · omega

/-- `_Array::remove` of what `eq` calls equal. -/
def remove (eq : α → Bool) (variants : List α) : Option (List α) :=
  removeFrom eq variants.length variants 0

/-- None of the elements that are looked at from `it` on is equal. -/
def Skips (eq : α → Bool) (variants : List α) (it : Nat) : Prop :=
  ∀ j x, variants[j]? = some x → it ≤ j → (j - it) % 2 = 0 → eq x = false

section Loop

variable {eq : α → Bool} {e it : Nat} {xs ys : List α}

theorem Skips.step (h : Skips eq xs (it + 2)) (hHere : ∀ x, xs[it]? = some x → eq x = false) :
    Skips eq xs it := by
  intro j x hx hLe hEven
  by_cases hj : j = it
  · exact hHere x (hj ▸ hx)
  · exact h j x hx (by omega) (by omega)

/-- With one element gone, the loop looks at the places behind those it would have looked at. -/
theorem skips_eraseIdx : Skips eq (xs.eraseIdx it) (it + 1) ↔ Skips eq xs (it + 2) := by
  have hShift (j : Nat) (hLe : it ≤ j) : (xs.eraseIdx it)[j]? = xs[j + 1]? :=
    List.getElem?_eraseIdx_of_ge hLe
  constructor
  · intro h j x hx hLe hEven
    obtain ⟨i, rfl⟩ : ∃ i, j = i + 1 := ⟨j - 1, by omega⟩
    exact h i x ((hShift i (by omega)).trans hx) (by omega) (by omega)
  · intro h j x hx hLe hEven
    exact h (j + 1) x ((hShift j (by omega)).symm.trans hx) (by omega) (by omega)

/-- Where no element is equal that it looks at, the loop ends with the array as it is. -/
theorem removeFrom_of_skips (hLength : e ≤ xs.length + 1) (hLe : it ≤ e) (hEven : (e - it) % 2 = 0)
    (h : Skips eq xs it) : removeFrom eq e xs it = some xs := by
  induction hGap : (e - it) / 2 generalizing it with
  | zero =>
    rw [removeFrom, if_pos (by omega)]
  | succ gap ih =>
    have hLt : it < xs.length := by omega
    have hHere : eq xs[it] = false := h it _ (List.getElem?_eq_getElem hLt) (Nat.le_refl _) (by omega)
    rw [removeFrom, if_neg (by omega), dif_pos hLt, hHere, if_neg Bool.false_ne_true]
    apply ih (by omega) (by omega) _ (by omega)
    intro j x hx hj hEvenJ
    exact h j x hx (by omega) (by omega)

/-- With two elements gone, the loop cannot meet the end. -/
theorem removeFrom_eq_none (hLength : xs.length + 2 ≤ e) (hLt : it < e) :
    removeFrom eq e xs it = none := by
  fun_induction removeFrom eq e xs it with
  | case1 => omega
  | case2 xs it hEnd h hEq ih => exact ih (by rw [List.length_eraseIdx_of_lt h]; omega) (by omega)
  | case3 xs it hEnd h hEq ih => exact ih hLength (by omega)
  | case4 => rfl

/-- With one element gone, the loop ends only if it looks at no equal one any more. -/
theorem of_removeFrom_one (hLength : xs.length + 1 = e) (hLe : it ≤ e)
    (h : removeFrom eq e xs it = some ys) : (e - it) % 2 = 0 ∧ Skips eq xs it ∧ ys = xs := by
  fun_induction removeFrom eq e xs it with
  | case1 xs =>
    refine ⟨by omega, fun j x hx hj _ => ?_, (Option.some.inj h).symm⟩
    rw [List.getElem?_eq_none (by omega)] at hx
    cases hx
  | case2 xs it hEnd hLt hEq ih =>
    rw [removeFrom_eq_none (by rw [List.length_eraseIdx_of_lt hLt]; omega) (by omega)] at h
    cases h
  | case3 xs it hEnd hLt hEq ih =>
    obtain ⟨hEven, hSkips, hSame⟩ := ih hLength (by omega) h
    refine ⟨by omega, hSkips.step fun x hx => ?_, hSame⟩
    rw [List.getElem?_eq_getElem hLt] at hx
    rw [← Option.some.inj hx]
    exact Bool.eq_false_iff.mpr hEq
  | case4 => cases h

/-- The place where the loop erased, if it ends: an equal element, an even number of places on, which
leaves an odd number to the end. -/
structure ErasedAt (eq : α → Bool) (e : Nat) (xs : List α) (it q : Nat) : Prop where
  le : it ≤ q
  lt : q < e
  even : (q - it) % 2 = 0
  odd : (e - q) % 2 = 1
  equal : ∃ x, xs[q]? = some x ∧ eq x = true
  before : ∀ j x, xs[j]? = some x → it ≤ j → j < q → (j - it) % 2 = 0 → eq x = false
  after : Skips eq xs (q + 2)

/-- The loop from the beginning ends with the array as it is or without one element. -/
theorem of_removeFrom (hLength : xs.length = e) (h : removeFrom eq e xs it = some ys) :
    (it ≤ e ∧ (e - it) % 2 = 0 ∧ Skips eq xs it ∧ ys = xs) ∨
      ∃ q, ErasedAt eq e xs it q ∧ ys = xs.eraseIdx q := by
  fun_induction removeFrom eq e xs it with
  | case1 xs =>
    refine .inl ⟨Nat.le_refl _, by omega, fun j x hx hj _ => ?_, (Option.some.inj h).symm⟩
    rw [List.getElem?_eq_none (by omega)] at hx
    cases hx
  | case2 xs it hEnd hLt hEq ih =>
    have hErased : (xs.eraseIdx it).length + 1 = e := by
      rw [List.length_eraseIdx_of_lt hLt]
      omega
    obtain ⟨hEven, hSkips, hSame⟩ := of_removeFrom_one hErased (by omega) h
    refine .inr ⟨it, ⟨Nat.le_refl _, by omega, by omega, by omega, ?_, ?_, ?_⟩, hSame⟩
    · exact ⟨xs[it], List.getElem?_eq_getElem hLt, hEq⟩
    · intro j x _ hLe hj
      omega
    · exact skips_eraseIdx.mp hSkips
  | case3 xs it hEnd hLt hEq ih =>
    have hHere : ∀ x, xs[it]? = some x → eq x = false := fun x hx => by
      rw [List.getElem?_eq_getElem hLt] at hx
      rw [← Option.some.inj hx]
      exact Bool.eq_false_iff.mpr hEq
    rcases ih hLength h with ⟨hLe, hEven, hSkips, hSame⟩ | ⟨q, hErased, hSame⟩
    · exact .inl ⟨by omega, by omega, hSkips.step hHere, hSame⟩
    · have hBound := hErased.le
      have hParity := hErased.even
      refine .inr ⟨q, ⟨by omega, hErased.lt, by omega, hErased.odd, hErased.equal, ?_,
        hErased.after⟩, hSame⟩
      intro j x hx hLe hj hEven
      by_cases hIt : j = it
      · exact hHere x (hIt ▸ hx)
      · exact hErased.before j x hx (by omega) hj (by omega)
  | case4 => cases h

theorem removeFrom_of_erasedAt (hLength : xs.length = e) {q : Nat} (h : ErasedAt eq e xs it q) :
    removeFrom eq e xs it = some (xs.eraseIdx q) := by
  have hLe := h.le
  have hLt := h.lt
  have hOdd := h.odd
  have hEven := h.even
  induction hGap : (q - it) / 2 generalizing it with
  | zero =>
    obtain rfl : it = q := by omega
    obtain ⟨x, hx, hEq⟩ := h.equal
    have hIt : it < xs.length := by omega
    rw [List.getElem?_eq_getElem hIt] at hx
    obtain rfl := Option.some.inj hx
    rw [removeFrom, if_neg (by omega), dif_pos hIt, if_pos hEq]
    apply removeFrom_of_skips _ (by omega) (by omega) (skips_eraseIdx.mpr h.after)
    rw [List.length_eraseIdx_of_lt hIt]
    omega
  | succ gap ih =>
    have hIt : it < xs.length := by omega
    have hHere : eq xs[it] = false :=
      h.before it _ (List.getElem?_eq_getElem hIt) (Nat.le_refl _) (by omega) (by omega)
    rw [removeFrom, if_neg (by omega), dif_pos hIt, hHere, if_neg Bool.false_ne_true]
    refine ih ⟨by omega, hLt, by omega, hOdd, h.equal, ?_, h.after⟩ (by omega) (by omega) (by omega)
    intro j x hx hj hjq hEvenJ
    exact h.before j x hx (by omega) hjq (by omega)

end Loop

/-! ## What should be left -/

/-- The elements that are looked at are told apart as `same` tells them. -/
def Tells (eq same : α → Bool) (xs : List α) : Prop :=
  ∀ j x, xs[j]? = some x → j % 2 = 0 → eq x = same x

/-- No element is the same and the length is even, or one is, at an even place, and the length is
odd. -/
def Removable (same : α → Bool) (xs : List α) : Prop :=
  xs.length % 2 = 0 ∧ (∀ x ∈ xs, same x = false) ∨
    xs.length % 2 = 1 ∧ ∃ q x, xs[q]? = some x ∧ q % 2 = 0 ∧ same x = true ∧
      ∀ j y, xs[j]? = some y → j ≠ q → same y = false

section Remove

variable {eq same : α → Bool} {xs : List α}

/-- An array without its only element that is the same. -/
theorem filter_eq_eraseIdx {q : Nat} {x : α} (hx : xs[q]? = some x) (hSame : same x = true)
    (hOthers : ∀ j y, xs[j]? = some y → j ≠ q → same y = false) :
    xs.filter (fun x => !same x) = xs.eraseIdx q := by
  obtain ⟨hq, rfl⟩ := List.getElem?_eq_some_iff.mp hx
  have hSplit : xs = xs.take q ++ xs[q] :: xs.drop (q + 1) := by
    rw [← List.drop_eq_getElem_cons hq, List.take_append_drop]
  have hFront : ∀ y ∈ xs.take q, same y = false := by
    intro y hy
    obtain ⟨j, hj, rfl⟩ := List.getElem_of_mem hy
    rw [List.length_take] at hj
    rw [List.getElem_take]
    exact hOthers j _ (List.getElem?_eq_getElem (by omega)) (by omega)
  have hBack : ∀ y ∈ xs.drop (q + 1), same y = false := by
    intro y hy
    obtain ⟨j, hj, rfl⟩ := List.getElem_of_mem hy
    rw [List.length_drop] at hj
    rw [List.getElem_drop]
    exact hOthers (q + 1 + j) _ (List.getElem?_eq_getElem (by omega)) (by omega)
  rw [List.eraseIdx_eq_take_drop_succ]
  conv =>
    lhs
    rw [hSplit]
  rw [List.filter_append, List.filter_cons_of_neg (by simp [hSame]),
    List.filter_eq_self.mpr fun y hy => by simp [hFront y hy],
    List.filter_eq_self.mpr fun y hy => by simp [hBack y hy]]

/-- The array without the elements that are the same, if they are all gone. -/
theorem none_same_of_filter (h : xs.filter (fun x => !same x) = xs) {j : Nat} {x : α}
    (hx : xs[j]? = some x) : same x = false := by
  have hKept := List.filter_eq_self.mp h x (List.mem_of_getElem? hx)
  rwa [Bool.not_eq_true'] at hKept

/-- An array without one element has lost the same element, and no other is the same. -/
theorem of_filter_eq_eraseIdx {q : Nat} {x : α} (hx : xs[q]? = some x)
    (h : xs.filter (fun x => !same x) = xs.eraseIdx q) :
    same x = true ∧ ∀ j y, xs[j]? = some y → j ≠ q → same y = false := by
  have hOthers : ∀ j y, xs[j]? = some y → j ≠ q → same y = false := by
    intro j y hy hne
    have hMem : y ∈ xs.eraseIdx q := List.mem_eraseIdx_iff_getElem?.mpr ⟨j, hne, hy⟩
    rw [← h, List.mem_filter, Bool.not_eq_true'] at hMem
    exact hMem.2
  refine ⟨?_, hOthers⟩
  by_contra hNot
  have hAll : xs.filter (fun x => !same x) = xs := by
    apply List.filter_eq_self.mpr
    intro y hy
    obtain ⟨j, hj⟩ := List.getElem?_of_mem hy
    rw [Bool.not_eq_true']
    by_cases hEq : j = q
    · rw [hEq, hx] at hj
      rw [← Option.some.inj hj]
      exact Bool.eq_false_iff.mpr hNot
    · exact hOthers j y hj hEq
  have hLt := (List.getElem?_eq_some_iff.mp hx).1
  have hLength := congrArg List.length (hAll.symm.trans h)
  rw [List.length_eraseIdx_of_lt hLt] at hLength
  omega

/-- `remove` takes away exactly the elements that are the same. -/
theorem remove_iff_removable :
    remove eq xs = some (xs.filter fun x => !same x) ↔ Tells eq same xs ∧ Removable same xs := by
  constructor
  · intro h
    rcases of_removeFrom rfl h with ⟨-, hEven, hSkips, hAll⟩ | ⟨q, hErased, hAll⟩
    · have hNone : ∀ j x, xs[j]? = some x → same x = false := fun _ _ => none_same_of_filter hAll
      refine ⟨?_, .inl ⟨by omega, ?_⟩⟩
      · intro j x hx hj
        rw [hNone j x hx, hSkips j x hx (Nat.zero_le _) hj]
      · intro x hx
        obtain ⟨j, hj⟩ := List.getElem?_of_mem hx
        exact hNone j x hj
    · obtain ⟨x, hx, hEqual⟩ := hErased.equal
      obtain ⟨hSame, hOthers⟩ := of_filter_eq_eraseIdx hx hAll
      have hLt := hErased.lt
      have hOdd := hErased.odd
      have hPlace := hErased.even
      refine ⟨?_, .inr ⟨by omega, q, x, hx, hPlace, hSame, hOthers⟩⟩
      intro j y hy hj
      rcases Nat.lt_trichotomy j q with hBefore | rfl | hAfter
      · rw [hOthers j y hy (by omega), hErased.before j y hy (Nat.zero_le _) hBefore hj]
      · obtain rfl := Option.some.inj (hx.symm.trans hy)
        rw [hSame, hEqual]
      · rw [hOthers j y hy (by omega), hErased.after j y hy (by omega) (by omega)]
  · rintro ⟨hTells, ⟨hEven, hNone⟩ | ⟨hOdd, q, x, hx, hq, hSame, hOthers⟩⟩
    · have hSkips : Skips eq xs 0 := fun j x hx _ hj =>
        (hTells j x hx hj).trans (hNone x (List.mem_of_getElem? hx))
      rw [List.filter_eq_self.mpr fun x hx => by rw [hNone x hx]; rfl]
      exact removeFrom_of_skips (Nat.le_succ _) (Nat.zero_le _) hEven hSkips
    · have hLt := (List.getElem?_eq_some_iff.mp hx).1
      have hSkipped : ∀ j y, xs[j]? = some y → j ≠ q → j % 2 = 0 → eq y = false :=
        fun j y hy hne hj => (hTells j y hy hj).trans (hOthers j y hy hne)
      rw [filter_eq_eraseIdx hx hSame hOthers]
      refine removeFrom_of_erasedAt rfl ⟨Nat.zero_le _, hLt, hq, by omega, ?_, ?_, ?_⟩
      · exact ⟨x, hx, (hTells q x hx hq).trans hSame⟩
      · intro j y hy _ hBefore hj
        exact hSkipped j y hy (by omega) (by omega)
      · intro j y hy hAfter hj
        exact hSkipped j y hy (by omega) (by omega)

end Remove

end RetroConfig.VariantArray
