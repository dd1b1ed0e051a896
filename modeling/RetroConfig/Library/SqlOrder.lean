import RetroConfig.Library.Sql
import Mathlib.Data.Prod.Lex

/-!
# The order of the rows of a query

SQLite's order of cells is the order of a key, so `ORDER BY` compares rows lexicographically by
the keys of its columns, each in its own direction. `select_cut` says what a `SELECT` delivers:
a piece of the rows that satisfy the conditions, in an order that respects `ORDER BY`.
-/

namespace Sql

/-- The text of a text; empty for the other classes. -/
def Cell.string : Cell → String
  | text s => s
  | _ => ""

/-- What cells are compared by. -/
def Cell.key (a : Cell) : Nat ×ₗ Rat ×ₗ String := toLex (a.rank, toLex (a.number, a.string))

theorem Cell.lt_iff (a b : Cell) : a.lt b = true ↔ a.key < b.key := by
  have hNumber : decide (a.number < b.number) = true ↔ a.number < b.number := decide_eq_true_iff
  cases a <;> cases b <;>
    simp [lt, key, rank, number, string, Prod.Lex.toLex_lt_toLex] <;> exact hNumber

namespace Table

theorem precedes_cons (t : Table) (column : String) (asc : Bool) (rest : List (String × Bool))
    (r q : Row) :
    t.precedes ((column, asc) :: rest) r q = true ↔
      ((t.cell r column).key < (t.cell q column).key ∧ asc = true) ∨
      ((t.cell q column).key < (t.cell r column).key ∧ asc = false) ∨
      ((t.cell r column).key = (t.cell q column).key ∧ t.precedes rest r q = true) := by
  rw [precedes]
  rcases lt_trichotomy (t.cell r column).key (t.cell q column).key with hLt | hEq | hGt
  · simp [Cell.lt_iff, hLt, hLt.ne, not_lt_of_gt hLt]
  · simp [Cell.lt_iff, hEq]
  · simp [Cell.lt_iff, hGt, hGt.ne', not_lt_of_gt hGt]

theorem precedes_trans (t : Table) (orderBy : List (String × Bool)) (r q s : Row)
    (hrq : t.precedes orderBy r q = true) (hqs : t.precedes orderBy q s = true) :
    t.precedes orderBy r s = true := by
  induction orderBy with
  | nil => rfl
  | cons o rest ih =>
    obtain ⟨column, asc⟩ := o
    rw [precedes_cons] at hrq hqs ⊢
    rcases hrq with ⟨hLt, hAsc⟩ | ⟨hGt, hDesc⟩ | ⟨hEq, hRest⟩
    · rcases hqs with ⟨hLt', -⟩ | ⟨-, hDesc⟩ | ⟨hEq', -⟩
      · exact Or.inl ⟨hLt.trans hLt', hAsc⟩
      · rw [hAsc] at hDesc
        cases hDesc
      · exact Or.inl ⟨hEq' ▸ hLt, hAsc⟩
    · rcases hqs with ⟨-, hAsc⟩ | ⟨hGt', -⟩ | ⟨hEq', -⟩
      · rw [hAsc] at hDesc
        cases hDesc
      · exact Or.inr (Or.inl ⟨hGt'.trans hGt, hDesc⟩)
      · exact Or.inr (Or.inl ⟨hEq' ▸ hGt, hDesc⟩)
    · rw [hEq]
      rcases hqs with hLt' | hGt' | ⟨hEq', hRest'⟩
      · exact Or.inl hLt'
      · exact Or.inr (Or.inl hGt')
      · exact Or.inr (Or.inr ⟨hEq', ih hRest hRest'⟩)

theorem precedes_total (t : Table) (orderBy : List (String × Bool)) (r q : Row) :
    (t.precedes orderBy r q || t.precedes orderBy q r) = true := by
  induction orderBy with
  | nil => rfl
  | cons o rest ih =>
    obtain ⟨column, asc⟩ := o
    rw [Bool.or_eq_true] at ih ⊢
    rw [precedes_cons, precedes_cons]
    rcases lt_trichotomy (t.cell r column).key (t.cell q column).key with hLt | hEq | hGt
    · cases asc with
      | true => exact Or.inl (Or.inl ⟨hLt, rfl⟩)
      | false => exact Or.inr (Or.inr (Or.inl ⟨hLt, rfl⟩))
    · rcases ih with hFirst | hSecond
      · exact Or.inl (Or.inr (Or.inr ⟨hEq, hFirst⟩))
      · exact Or.inr (Or.inr (Or.inr ⟨hEq.symm, hSecond⟩))
    · cases asc with
      | true => exact Or.inr (Or.inl ⟨hGt, rfl⟩)
      | false => exact Or.inl (Or.inr (Or.inl ⟨hGt, rfl⟩))

/-- The piece of a list that `LIMIT` and `OFFSET` leave. -/
def cut (limit offset : Option Nat) (rows : List Row) : List Row :=
  match limit with
  | some n => (rows.drop (offset.getD 0)).take n
  | none => rows.drop (offset.getD 0)

theorem select_cut (t : Table) (p : Row → Bool) (orderBy : List (String × Bool))
    (limit offset : Option Nat) :
    ∃ rows : List Row, rows.Perm (t.rows.filter p) ∧
      rows.Pairwise (fun r q => t.precedes orderBy r q = true) ∧
      t.select p orderBy limit offset = cut limit offset rows := by
  cases orderBy with
  | nil =>
    refine ⟨t.rows.filter p, .refl _, ?_, by cases limit <;> rfl⟩
    exact List.pairwise_of_forall fun r q => rfl
  | cons o rest =>
    refine ⟨(t.rows.filter p).mergeSort (t.precedes (o :: rest)), List.mergeSort_perm _ _, ?_,
      by cases limit <;> rfl⟩
    exact List.pairwise_mergeSort (t.precedes_trans _) (t.precedes_total _) _

/-- In a list where whatever comes before an element with `P` has `P` too, the elements with `P`
come first. -/
theorem getElem?_of_pairwise {α : Type} {P : α → Bool} {l : List α}
    (h : l.Pairwise fun x y => P y = true → P x = true) {k : Nat} (hk : k < l.countP P) :
    ∃ x, l[k]? = some x ∧ P x = true := by
  induction l generalizing k with
  | nil => exact absurd hk (by simp)
  | cons x l ih =>
    obtain ⟨hHead, hTail⟩ := List.pairwise_cons.mp h
    by_cases hx : P x = true
    · cases k with
      | zero => exact ⟨x, rfl, hx⟩
      | succ k =>
        rw [List.countP_cons_of_pos hx] at hk
        exact ih hTail (by omega)
    · have hNone : l.countP P = 0 :=
        List.countP_eq_zero.mpr fun y hy hP => hx (hHead y hy hP)
      rw [List.countP_cons_of_neg hx, hNone] at hk
      exact absurd hk (by omega)

end Table

end Sql
