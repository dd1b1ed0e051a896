import RetroConfig.Html.Denotation
import Mathlib.Data.Int.ModEq
import Mathlib.Tactic.Ring

/-!
# Places among siblings

What `:nth-child(an+b)` and the selectors that go by the type of an element select. The parser hands
over `int`s, and the code subtracts and divides `unsigned int`s (`nthChild_iff`): a positive `a`
never selects the child at `b` itself, but selects children before it whose distance divides after
the wrap-around, and a negative `a` selects one child only.

The loops over the siblings pass over those of the type of the node where they should pass over the
other ones (`ofType_iff`).
-/

namespace RetroConfig.Html

open Rose (Position)

/-- An `int` that is handed over as an `unsigned int`. -/
def ofInt (n : Int) : UInt32 := UInt32.ofInt n

/-- The places of `an+b`. -/
def Progression (a b : Int) (place : Nat) : Prop := ∃ n : Nat, (place : Int) = a * n + b

theorem toNat_ofInt (n : Int) : ((ofInt n).toNat : Int) = n % 2 ^ 32 := by
  rw [ofInt, UInt32.ofInt, UInt32.toNat_ofNat']
  omega

/-- The difference that the code divides. -/
theorem difference_eq (b : Int) (place : Nat) :
    (((place + 2 ^ 32 - (ofInt b).toNat) % 2 ^ 32 : Nat) : Int) = (place - b) % 2 ^ 32 := by
  have hb := toNat_ofInt b
  have hLt := (ofInt b).toNat_lt
  omega

section Arithmetic

variable {a b : Int} {place : Nat}

theorem ofInt_eq_zero_iff (hLow : -2 ^ 31 < a) (hHigh : a < 2 ^ 31) : ofInt a = 0 ↔ a = 0 := by
  have ha := toNat_ofInt a
  rw [← UInt32.toNat_inj, UInt32.toNat_zero]
  omega

theorem nth_zero_iff (hPlace : place ≤ 2 ^ 31) (hLow : -2 ^ 31 < b) (hHigh : b < 2 ^ 31) :
    Nth (ofInt 0) (ofInt b) place ↔ (place : Int) = b := by
  have hDifference := difference_eq b place
  have hZero : ofInt 0 = 0 := rfl
  rw [Nth, if_pos hZero]
  omega

theorem nth_pos_iff (hPlace : place ≤ 2 ^ 31) (ha : 0 < a) (hHigh : a < 2 ^ 31) (hb : 0 ≤ b)
    (hbHigh : b < 2 ^ 31) :
    Nth (ofInt a) (ofInt b) place ↔
      (b < place ∧ a ∣ place - b) ∨ ((place : Int) < b ∧ a ∣ 2 ^ 32 - (b - place)) := by
  have hDifference := difference_eq b place
  have hNat : ((ofInt a).toNat : Int) = a := by
    rw [toNat_ofInt]
    exact Int.emod_eq_of_lt (by omega) (by omega)
  have hNonzero : ofInt a ≠ 0 := by
    rw [Ne, ofInt_eq_zero_iff (by omega) hHigh]
    omega
  rw [Nth, if_neg hNonzero]
  have hMultiple : (∃ k, 0 < k ∧ (place + 2 ^ 32 - (ofInt b).toNat) % 2 ^ 32 = k * (ofInt a).toNat) ↔
      0 < ((place : Int) - b) % 2 ^ 32 ∧ a ∣ ((place : Int) - b) % 2 ^ 32 := by
    rw [← hDifference]
    constructor
    · rintro ⟨k, hk, hEq⟩
      have hPos : 0 < k * (ofInt a).toNat := Nat.mul_pos hk (by omega)
      refine ⟨by omega, k, ?_⟩
      rw [hEq, Nat.cast_mul, hNat, mul_comm]
    · rintro ⟨hPos, k, hEq⟩
      have hk : 0 < k := by
        by_contra hNot
        have := Int.mul_nonpos_of_nonneg_of_nonpos (Int.le_of_lt ha) (Int.not_lt.mp hNot)
        omega
      refine ⟨k.toNat, by omega, ?_⟩
      have hCast : ((k.toNat : Nat) : Int) = k := Int.toNat_of_nonneg (Int.le_of_lt hk)
      rw [← Int.natCast_inj, Nat.cast_mul, hCast, hNat, mul_comm]
      exact hEq
  rw [hMultiple]
  rcases lt_trichotomy (place : Int) b with hLt | hEq | hGt
  · have hMod : ((place : Int) - b) % 2 ^ 32 = 2 ^ 32 - (b - place) := by omega
    rw [hMod]
    constructor
    · exact fun h => .inr ⟨hLt, h.2⟩
    · rintro (h | h)
      · omega
      · exact ⟨by omega, h.2⟩
  · rw [hEq, sub_self]
    constructor
    · rintro ⟨h, -⟩
      exact absurd h (by decide)
    · rintro (h | h) <;> omega
  · have hMod : ((place : Int) - b) % 2 ^ 32 = place - b := by omega
    rw [hMod]
    constructor
    · exact fun h => .inl ⟨hGt, h.2⟩
    · rintro (h | h)
      · exact ⟨by omega, h.2⟩
      · omega

theorem nth_neg_iff (hPlace : place ≤ 2 ^ 31) (ha : a < 0) (hLow : -2 ^ 31 < a) (hb : 0 ≤ b)
    (hbHigh : b < 2 ^ 31) : Nth (ofInt a) (ofInt b) place ↔ (place : Int) = a + b := by
  have hDifference := difference_eq b place
  have hNat : ((ofInt a).toNat : Int) = a + 2 ^ 32 := by
    rw [toNat_ofInt]
    omega
  have hNonzero : ofInt a ≠ 0 := by
    rw [Ne, ofInt_eq_zero_iff hLow (by omega)]
    omega
  rw [Nth, if_neg hNonzero]
  constructor
  · rintro ⟨k, hk, hEq⟩
    -- twice as much does not fit into an `unsigned int`
    obtain rfl : k = 1 := by
      by_contra hNot
      have hTwo : 2 * (ofInt a).toNat ≤ k * (ofInt a).toNat := Nat.mul_le_mul_right _ (by omega)
      omega
    omega
  · intro hEq
    exact ⟨1, Nat.one_pos, by omega⟩

/-- A positive `a` misses the start of the progression. -/
theorem progression_pos_iff (ha : 0 < a) :
    (Progression a b place ∧ (place : Int) ≠ b) ↔ b < place ∧ a ∣ place - b := by
  constructor
  · rintro ⟨⟨n, hn⟩, hNe⟩
    have hNonneg : 0 ≤ a * n := Int.mul_nonneg (Int.le_of_lt ha) (Int.natCast_nonneg n)
    exact ⟨by omega, n, by omega⟩
  · rintro ⟨hLt, k, hk⟩
    have hPos : 0 < k := by
      by_contra hNot
      have := Int.mul_nonpos_of_nonneg_of_nonpos (Int.le_of_lt ha) (Int.not_lt.mp hNot)
      omega
    refine ⟨⟨k.toNat, ?_⟩, by omega⟩
    rw [Int.toNat_of_nonneg (Int.le_of_lt hPos)]
    omega

end Arithmetic

section Children

variable {d : Document} {self : Nat} {parent : Position} {tag : GumboTag}

theorem place_le (h : (childrenOf d.root parent).length ≤ 2 ^ 31) (last : Bool) :
    place (childrenOf d.root parent) tag self last false ≤ 2 ^ 31 := by
  cases last with
  | false =>
    refine Nat.le_trans List.countP_le_length (Nat.le_trans ?_ h)
    exact List.length_take_le' ..
  | true =>
    refine Nat.le_trans List.countP_le_length (Nat.le_trans ?_ h)
    rw [List.length_drop]
    exact Nat.sub_le _ _

/-- What `:nth-child(an+b)` and `:nth-last-child(an+b)` select among the children of a node, for the
`a` and `b` that the parser can hand over. With `a = 0` it is the child at `b`. A positive `a` selects
the progression without its first place `b`, and in addition the places before `b` whose distance
from it divides after the wrap-around. A negative `a` selects the one place `a + b`. -/
theorem nthChild_iff (hElement : ElementAt d.root (self :: parent) tag) (last : Bool) {a b : Int}
    (ha : -2 ^ 31 < a ∧ a < 2 ^ 31) (hb : -2 ^ 31 < b ∧ b < 2 ^ 31) (hSign : a = 0 ∨ 0 ≤ b) :
    (Selector.nthChild (ofInt a) (ofInt b) last false).matchNode d.root (self :: parent) = true ↔
      let r := place (childrenOf d.root parent) tag self last false
      if a = 0 then (r : Int) = b
      else if 0 < a then
        (Progression a b r ∧ (r : Int) ≠ b) ∨ ((r : Int) < b ∧ a ∣ 2 ^ 32 - (b - r))
      else (r : Int) = a + b := by
  have hPlace : place (childrenOf d.root parent) tag self last false ≤ 2 ^ 31 :=
    place_le (d.length_children_le parent) last
  have hNth : (Selector.nthChild (ofInt a) (ofInt b) last false).matchNode d.root (self :: parent) =
      true ↔ Nth (ofInt a) (ofInt b) (place (childrenOf d.root parent) tag self last false) := by
    rw [matchNode_iff]
    constructor
    · rintro ⟨self', parent', tag', hp, hElement', hNth⟩
      obtain ⟨rfl, rfl⟩ := List.cons.inj hp
      obtain rfl := elementAt_unique hElement hElement'
      exact hNth
    · exact fun hNth => ⟨self, parent, tag, rfl, hElement, hNth⟩
  rw [hNth]
  dsimp only
  split
  · next hZero =>
    subst hZero
    exact nth_zero_iff hPlace hb.1 hb.2
  · next hNonzero =>
    have hNonneg := hSign.resolve_left hNonzero
    split
    · next hPos => rw [nth_pos_iff hPlace hPos ha.2 hNonneg hb.2, progression_pos_iff hPos]
    · exact nth_neg_iff hPlace (by omega) ha.1 hNonneg hb.2

/-- `<body><p></p><b></b><p></p></body>`. -/
def paragraphs : Node :=
  .node (.element (gumbo_tag_enum (ascii "body")) [])
    [.node (.element (gumbo_tag_enum (ascii "p")) []) [],
      .node (.element (gumbo_tag_enum (ascii "b")) []) [],
      .node (.element (gumbo_tag_enum (ascii "p")) []) []]

theorem length_paragraphs (p : Position) : (childrenOf paragraphs p).length ≤ 2 ^ 31 := by
  have hNodes : ∀ p s, paragraphs.at? p = some s → s = paragraphs ∨ s.children = [] := by
    intro p
    induction p with
    | nil => exact fun s h => .inl (Option.some.inj h).symm
    | cons i p ih =>
      intro s h
      obtain ⟨parent, hParent, hChild⟩ := Rose.exists_at?_parent h
      rcases ih parent hParent with rfl | hLeaf
      · have hMem := List.mem_of_getElem? hChild
        simp only [paragraphs, Rose.children, List.mem_cons, List.not_mem_nil, or_false] at hMem
        rcases hMem with rfl | rfl | rfl <;> exact .inr rfl
      · rw [hLeaf] at hChild
        cases hChild
  unfold childrenOf
  cases h : paragraphs.at? p with
  | none => exact Nat.zero_le _
  | some s =>
    rcases hNodes p s h with rfl | hLeaf
    · decide
    · simp [hLeaf]

def sample : Document := .ofBounded paragraphs length_paragraphs

theorem elementAt_sample :
    ElementAt sample.root [0] (gumbo_tag_enum (ascii "p")) ∧
      ElementAt sample.root [2] (gumbo_tag_enum (ascii "p")) := ⟨⟨[], rfl⟩, ⟨[], rfl⟩⟩

/-- `:nth-child(2n+1)` passes over the first paragraph and selects the second one. -/
theorem nthChild_odd :
    (Selector.nthChild (ofInt 2) (ofInt 1) false false).matchNode sample.root [0] = false ∧
      (Selector.nthChild (ofInt 2) (ofInt 1) false false).matchNode sample.root [2] = true := by
  obtain ⟨hFirst, hThird⟩ := elementAt_sample
  constructor
  · rw [← Bool.not_eq_true,
      nthChild_iff hFirst false (a := 2) (b := 1) (by decide) (by decide) (by decide)]
    have hPlace : place (childrenOf sample.root []) (gumbo_tag_enum (ascii "p")) 0 false false = 1 :=
      rfl
    simp [hPlace]
  · rw [nthChild_iff hThird false (a := 2) (b := 1) (by decide) (by decide) (by decide)]
    have hPlace : place (childrenOf sample.root []) (gumbo_tag_enum (ascii "p")) 2 false false = 3 :=
      rfl
    simp only [hPlace]
    exact .inl ⟨⟨1, by decide⟩, by decide⟩

/-! ## Of a type -/

theorem counts_eq_true_iff {child : Node} :
    counts true tag child = true ↔ ∃ other attributes, child.label = .element other attributes ∧
      other ≠ tag := by
  rw [counts, skips, Bool.not_eq_true']
  cases child.label with
  | element other attributes =>
    constructor
    · intro h
      refine ⟨other, attributes, rfl, fun hEq => ?_⟩
      simp [hEq] at h
    · rintro ⟨other', attributes', hEq, hNe⟩
      obtain ⟨rfl, -⟩ := Content.element.inj hEq
      exact beq_false_of_ne (Ne.symm hNe)
  | _ => simp

/-- The elements of another type among the children. -/
def OtherAt (d : Node) (parent : Position) (tag : GumboTag) (j : Nat) : Prop :=
  ∃ other, ElementAt d (j :: parent) other ∧ other ≠ tag

theorem otherAt_iff {d : Node} {j : Nat} :
    OtherAt d parent tag j ↔
      ∃ child, (childrenOf d parent)[j]? = some child ∧ counts true tag child = true := by
  simp only [OtherAt, ElementAt, counts_eq_true_iff]
  constructor
  · rintro ⟨other, ⟨attributes, hContent⟩, hNe⟩
    obtain ⟨child, hChild, hLabel⟩ := exists_child hContent
    exact ⟨child, hChild, other, attributes, hLabel, hNe⟩
  · rintro ⟨child, hChild, other, attributes, hLabel, hNe⟩
    exact ⟨other, ⟨attributes, by rw [content_cons, hChild, Option.map_some, hLabel]⟩, hNe⟩

theorem countP_eq_one_iff {α : Type} {p : α → Bool} {l : List α} :
    l.countP p = 1 ↔ ∃! i : Nat, ∃ a, l[i]? = some a ∧ p a = true := by
  induction l with
  | nil => simp [ExistsUnique]
  | cons a l ih =>
    cases hp : p a with
    | false =>
      rw [List.countP_cons_of_neg (by simp [hp]), ih]
      constructor
      · rintro ⟨i, hi, hUnique⟩
        refine ⟨i + 1, hi, fun j hj => ?_⟩
        cases j with
        | zero => simp [hp] at hj
        | succ j => rw [hUnique j hj]
      · rintro ⟨i, hi, hUnique⟩
        cases i with
        | zero => simp [hp] at hi
        | succ i => exact ⟨i, hi, fun j hj => Nat.succ.inj (hUnique (j + 1) hj)⟩
    | true =>
      rw [List.countP_cons_of_pos hp, Nat.add_eq_right, List.countP_eq_zero]
      constructor
      · intro hNone
        refine ⟨0, ⟨a, rfl, hp⟩, fun j hj => ?_⟩
        cases j with
        | zero => rfl
        | succ j =>
          obtain ⟨b, hb, hpb⟩ := hj
          exact absurd hpb (hNone b (List.mem_of_getElem? hb))
      · rintro ⟨i, -, hUnique⟩ b hb hpb
        obtain ⟨j, hj⟩ := List.getElem?_of_mem hb
        have hFirst : i = 0 := (hUnique 0 ⟨a, rfl, hp⟩).symm
        have hSecond : i = j + 1 := (hUnique (j + 1) ⟨b, hj, hpb⟩).symm
        omega

theorem ofType_matchNode_iff (hElement : ElementAt d.root (self :: parent) tag) (a b : UInt32)
    (last : Bool) :
    (Selector.nthChild a b last true).matchNode d.root (self :: parent) = true ↔
      Nth a b (if last then (childrenOf d.root parent).countP (counts true tag) + 1 else 0) := by
  rw [matchNode_iff]
  constructor
  · rintro ⟨self', parent', tag', hp, hElement', hNth⟩
    obtain ⟨rfl, rfl⟩ := List.cons.inj hp
    obtain rfl := elementAt_unique hElement hElement'
    cases last <;> exact hNth
  · intro hNth
    refine ⟨self, parent, tag, rfl, hElement, ?_⟩
    cases last <;> exact hNth

/-- The selectors that go by the type do not see where an element stands among those of its type.
`:first-of-type` selects no element, `:last-of-type` those that have no sibling of another type, and
`:only-of-type` those that have exactly one. -/
theorem ofType_iff (hElement : ElementAt d.root (self :: parent) tag) :
    (∀ a b last other, ElementAt d.root (other :: parent) tag →
      (Selector.nthChild a b last true).matchNode d.root (self :: parent) =
        (Selector.nthChild a b last true).matchNode d.root (other :: parent)) ∧
    (Selector.nthChild 0 1 false true).matchNode d.root (self :: parent) = false ∧
    ((Selector.nthChild 0 1 true true).matchNode d.root (self :: parent) = true ↔
      ∀ j, ¬ OtherAt d.root parent tag j) ∧
    ((Selector.onlyChild true).matchNode d.root (self :: parent) = true ↔
      ∃! j, OtherAt d.root parent tag j) := by
  refine ⟨?_, ?_, ?_, ?_⟩
  · intro a b last other hOther
    rw [Bool.eq_iff_iff, ofType_matchNode_iff hElement, ofType_matchNode_iff hOther]
  · rw [← Bool.not_eq_true, ofType_matchNode_iff hElement, if_neg Bool.false_ne_true]
    rw [Nth, if_pos rfl]
    decide
  · rw [ofType_matchNode_iff hElement, if_pos rfl, Nth, if_pos rfl]
    have hLe := List.countP_le_length (p := counts true tag) (l := childrenOf d.root parent)
    have hLength := d.length_children_le parent
    have hOne : (1 : UInt32).toNat = 1 := rfl
    rw [hOne]
    have hNone : (∀ j, ¬ OtherAt d.root parent tag j) ↔
        (childrenOf d.root parent).countP (counts true tag) = 0 := by
      simp only [otherAt_iff, List.countP_eq_zero, not_exists, not_and]
      constructor
      · intro h child hMem
        obtain ⟨j, hj⟩ := List.getElem?_of_mem hMem
        exact h j child hj
      · exact fun h j child hj => h child (List.mem_of_getElem? hj)
    rw [hNone]
    omega
  · rw [matchNode_iff]
    simp only [otherAt_iff, ← countP_eq_one_iff]
    constructor
    · rintro ⟨self', parent', tag', hp, hElement', hCount⟩
      obtain ⟨rfl, rfl⟩ := List.cons.inj hp
      obtain rfl := elementAt_unique hElement hElement'
      exact hCount
    · exact fun hCount => ⟨self, parent, tag, rfl, hElement, hCount⟩

/-- Each of the two paragraphs is the only one of its type, as `<b>` is the only other element. -/
theorem ofType_sample :
    (Selector.onlyChild true).matchNode sample.root [0] = true ∧
      (Selector.nthChild 0 1 true true).matchNode sample.root [0] = false := by
  have hType := ofType_iff elementAt_sample.1
  have hOther : OtherAt sample.root [] (gumbo_tag_enum (ascii "p")) 1 :=
    ⟨gumbo_tag_enum (ascii "b"), ⟨[], rfl⟩, by decide⟩
  constructor
  · refine hType.2.2.2.mpr ⟨1, hOther, ?_⟩
    rintro j ⟨other, ⟨attributes, hContent⟩, hNe⟩
    match j with
    | 0 =>
      obtain ⟨rfl, -⟩ := Content.element.inj (Option.some.inj hContent)
      exact absurd rfl hNe
    | 1 => rfl
    | 2 =>
      obtain ⟨rfl, -⟩ := Content.element.inj (Option.some.inj hContent)
      exact absurd rfl hNe
    | j + 3 => cases hContent
  · rw [← Bool.not_eq_true, hType.2.2.1]
    exact fun h => h 1 hOther

end Children

end RetroConfig.Html
