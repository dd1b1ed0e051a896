import RetroConfig.Html.Selector
import RetroConfig.Utils.GumboParser
import Mathlib.Data.Set.Basic
import Mathlib.Data.List.Infix

/-!
# What a selector selects

`Denotes` is the set of positions that a selector selects, in terms of the tree: unions,
intersections, complements, parents, siblings before a node, and numbers of siblings.
`matchNode_iff` says that `match` decides membership in it.
-/

namespace RetroConfig.Html

open Rose (Position)

/-- A parsed document: the children of its nodes are in vectors of the parser. -/
structure Document where
  root : Node
  made : ∀ p, ∃ v : GumboVector Node, v.Made ∧ v.data = childrenOf root p

theorem Document.length_children_le (d : Document) (p : Position) :
    (childrenOf d.root p).length ≤ 2 ^ 31 := by
  obtain ⟨v, hMade, hData⟩ := d.made p
  exact hData ▸ hMade.length_le

/-- Every list that is not too long can be built by the parser. -/
theorem exists_made {α : Type} (l : List α) (h : l.length ≤ 2 ^ 31) :
    ∃ v : GumboVector α, v.Made ∧ v.data = l := by
  induction l using List.reverseRecOn with
  | nil => exact ⟨_, .init, rfl⟩
  | append_singleton l a ih =>
    rw [List.length_append, List.length_singleton] at h
    obtain ⟨v, hMade, rfl⟩ := ih (by omega)
    obtain ⟨hLength, k, hk, hCapacity⟩ := hMade.bounded
    have hRoom : v.data.length < v.enlargeIfFull.capacity := by
      unfold GumboVector.enlargeIfFull
      split
      · next hFull =>
        have hPos : 0 < v.capacity := hCapacity ▸ Nat.two_pow_pos k
        simp only [if_neg (Nat.ne_of_gt hPos)]
        omega
      · next hFree => exact Nat.lt_of_not_le hFree
    have hAdd : v.add a = some { v.enlargeIfFull with data := v.data ++ [a] } := if_pos hRoom
    exact ⟨_, hMade.add hAdd, rfl⟩

/-- A tree is a document as soon as no node of it has too many children. -/
def Document.ofBounded (root : Node) (h : ∀ p, (childrenOf root p).length ≤ 2 ^ 31) : Document :=
  ⟨root, fun p => exists_made _ (h p)⟩

/-! ## Meaning -/

/-- There is an element with this tag at the position. -/
def ElementAt (d : Node) (p : Position) (tag : GumboTag) : Prop :=
  ∃ attributes, content d p = some (.element tag attributes)

/-- A child that is counted for a node with the tag `tag`: an element, and where the type matters one
of another type. -/
def counts (ofType : Bool) (tag : GumboTag) (child : Node) : Bool := !skips ofType tag child

/-- Which place `ENthChild` gives to the child at `self` whose tag is `tag`. Where the type matters
the node itself is not counted: its place is 0, and from the end one more than there are elements
of other types. -/
def place (children : List Node) (tag : GumboTag) (self : Nat) : (last ofType : Bool) → Nat
  | false, false => (children.take (self + 1)).countP (counts false tag)
  | true, false => (children.drop self).countP (counts false tag)
  | false, true => 0
  | true, true => children.countP (counts true tag) + 1

/-- `an+b` for a place, as the code has it: in `unsigned int`s, and with a positive `n`. -/
def Nth (a b : UInt32) (place : Nat) : Prop :=
  let n := (place + 2 ^ 32 - b.toNat) % 2 ^ 32
  if a = 0 then n = 0 else ∃ k, 0 < k ∧ n = k * a.toNat

/-- `word` is one of the segments of a value: it starts at the start or after a blank, and it ends
before a blank that is not the last byte, or it is what remains at the end, the last byte of which
may be a blank. -/
def Segment (word value : Bytes) : Prop :=
  ∃ x y, value = x ++ word ++ y ∧ (x = [] ∨ ∃ x' c, x = x' ++ [c] ∧ isBlank c = true) ∧
    ((y = [] ∧ word ≠ [] ∧ ∀ c ∈ word.dropLast, isBlank c = false) ∨
      (∃ c y', y = c :: y' ∧ isBlank c = true ∧ y' ≠ [] ∧ ∀ c ∈ word, isBlank c = false))

/-- What an operator says about the value of an attribute. -/
def AttributeOperator.Holds (mValue value : Bytes) : AttributeOperator → Prop
  | .exists => True
  | .equals => value = mValue
  | .includes => Segment mValue value
  | .dashMatch => value = mValue ∨ mValue ++ [45] <+: value
  | .prefixed => mValue <+: value
  | .suffixed => mValue <:+ value
  | .subString => mValue <:+: value

/-- The text that an operator looks into. -/
def TextOperator.of (node : Node) : TextOperator → Bytes
  | .contains => nodeText node
  | .ownContains => nodeOwnText node

/-- The positions that a selector selects. -/
def Selector.Denotes (d : Node) : Selector → Set Position
  | .dummy => Set.univ
  | .empty => {p | (∃ tag, ElementAt d p tag) ∧
      ∀ child ∈ childrenOf d p, child.label.isTextOrElement = false}
  | .onlyChild ofType => {p | ∃ self parent tag, p = self :: parent ∧ ElementAt d p tag ∧
      (childrenOf d parent).countP (counts ofType tag) = 1}
  | .nthChild a b last ofType => {p | ∃ self parent tag, p = self :: parent ∧ ElementAt d p tag ∧
      Nth a b (place (childrenOf d parent) tag self last ofType)}
  | .tag mTag => {p | ElementAt d p mTag}
  | .unary .not s => (s.Denotes d)ᶜ
  | .unary .hasDescendant s => {p | ∃ node, d.at? p = some node ∧
      ∃ q, q ≠ [] ∧ Rose.Reaches Content.isElement node q ∧ q ++ p ∈ s.Denotes d}
  | .unary .hasChild s => {p | (∃ tag, ElementAt d p tag) ∧
      ∃ i < (childrenOf d p).length, i :: p ∈ s.Denotes d}
  | .binary .union s1 s2 => s1.Denotes d ∪ s2.Denotes d
  | .binary .intersection s1 s2 => s1.Denotes d ∩ s2.Denotes d
  | .binary .child s1 s2 => s2.Denotes d ∩ {p | ∃ i parent, p = i :: parent ∧ parent ∈ s1.Denotes d}
  | .binary .descendant s1 s2 =>
    s2.Denotes d ∩ {p | ∃ q above, q ≠ [] ∧ p = q ++ above ∧ above ∈ s1.Denotes d}
  | .binary (.adjacent adjacent) s1 s2 => s2.Denotes d ∩ {p | (∃ tag, ElementAt d p tag) ∧
      ∃ i j parent, p = i :: parent ∧ j < i ∧ j :: parent ∈ s1.Denotes d ∧
        (adjacent = true → (∀ c, content d (j :: parent) = some c → c.isFiller = false) ∧
          ∀ k, j < k → k < i → ∃ c, content d (k :: parent) = some c ∧ c.isFiller = true)}
  | .ofAttribute op key value => {p | ∃ tag attributes attr,
      content d p = some (.element tag attributes) ∧
        attributes.find? (fun attr => attr.name = key) = some attr ∧ op.Holds value attr.value}
  | .ofText op value => {p | ∃ node, d.at? p = some node ∧ value <:+: tolower (op.of node)}

/-! ## Counting siblings -/

section Counting

variable {skip : Node → Bool}

theorem onlyChildLoop_eq (children : List Node) {count : UInt32} (h : count = 0 ∨ count = 1) :
    onlyChildLoop skip children count =
      decide (count.toNat + children.countP (fun child => !skip child) = 1) := by
  induction children generalizing count with
  | nil => rcases h with rfl | rfl <;> rfl
  | cons child rest ih =>
    rw [onlyChildLoop]
    cases hSkip : skip child with
    | true => rw [if_pos rfl, ih h, List.countP_cons_of_neg (by simp [hSkip])]
    | false =>
      rw [if_neg Bool.false_ne_true, List.countP_cons_of_pos (by simp [hSkip])]
      rcases h with rfl | rfl
      · rw [if_neg (by decide), ih (by decide)]
        have hOne : (0 + 1 : UInt32).toNat = 1 := rfl
        have hZero : (0 : UInt32).toNat = 0 := rfl
        rw [hOne, hZero]
        exact decide_eq_decide.mpr (by omega)
      · rw [if_pos (by decide), eq_comm, decide_eq_false_iff_not]
        have hOne : (1 : UInt32).toNat = 1 := rfl
        omega

variable {last : Bool} {self : Nat}

/-- The children before the node itself. -/
theorem nthChildLoop_before (before rest : List Node) {j : Nat} (i count : UInt32)
    (h : j + before.length ≤ self) :
    nthChildLoop skip last self (before ++ rest) j i count =
      nthChildLoop skip last self rest (j + before.length) i
        (count + UInt32.ofNat (before.countP fun child => !skip child)) := by
  induction before generalizing j count with
  | nil =>
    have hZero : UInt32.ofNat 0 = 0 := rfl
    rw [List.nil_append, List.length_nil, Nat.add_zero, List.countP_nil, hZero, UInt32.add_zero]
  | cons child before ih =>
    rw [List.length_cons] at h ⊢
    rw [List.cons_append, nthChildLoop]
    have hNext : j + 1 + before.length = j + (before.length + 1) := by omega
    cases hSkip : skip child with
    | true =>
      rw [if_pos rfl, ih _ (by omega), List.countP_cons_of_neg (by simp [hSkip]), hNext]
    | false =>
      have hOne : UInt32.ofNat 1 = 1 := rfl
      rw [if_neg Bool.false_ne_true, if_neg (by omega), ih _ (by omega),
        List.countP_cons_of_pos (by simp [hSkip]), hNext, UInt32.ofNat_add, hOne, UInt32.add_assoc,
        UInt32.add_comm 1]

/-- The children after it. -/
theorem nthChildLoop_after (after : List Node) {j : Nat} (i count : UInt32) (h : self < j) :
    nthChildLoop skip last self after j i count =
      (i, count + UInt32.ofNat (after.countP fun child => !skip child)) := by
  induction after generalizing j count with
  | nil =>
    have hZero : UInt32.ofNat 0 = 0 := rfl
    rw [nthChildLoop, List.countP_nil, hZero, UInt32.add_zero]
  | cons child after ih =>
    rw [nthChildLoop]
    cases hSkip : skip child with
    | true => rw [if_pos rfl, ih _ (by omega), List.countP_cons_of_neg (by simp [hSkip])]
    | false =>
      have hOne : UInt32.ofNat 1 = 1 := rfl
      rw [if_neg Bool.false_ne_true, if_neg (by omega), ih _ (by omega),
        List.countP_cons_of_pos (by simp [hSkip]), UInt32.ofNat_add, hOne, UInt32.add_assoc,
        UInt32.add_comm 1]

/-- A node that is passed over is not found. -/
theorem nthChildLoop_skipped {before : List Node} {child : Node} (last : Bool) (after : List Node)
    (hLength : before.length = self) (hSkip : skip child = true) :
    nthChildLoop skip last self (before ++ child :: after) 0 0 0 =
      (0, UInt32.ofNat ((before ++ child :: after).countP fun child => !skip child)) := by
  rw [nthChildLoop_before before _ 0 0 (by omega), nthChildLoop, if_pos hSkip,
    nthChildLoop_after after _ _ (by omega), List.countP_append,
    List.countP_cons_of_neg (by simp [hSkip]), UInt32.zero_add, ← UInt32.ofNat_add]

/-- A node that is counted is found at its place. -/
theorem nthChildLoop_counted {before : List Node} {child : Node} (last : Bool) (after : List Node)
    (hLength : before.length = self) (hSkip : skip child = false) :
    nthChildLoop skip last self (before ++ child :: after) 0 0 0 =
      (UInt32.ofNat ((before ++ [child]).countP fun child => !skip child),
        UInt32.ofNat ((if last then before ++ child :: after else before ++ [child]).countP
          fun child => !skip child)) := by
  have hOne : UInt32.ofNat 1 = 1 := rfl
  have hFound : ∀ n : Nat, (0 : UInt32) + UInt32.ofNat n + 1 = UInt32.ofNat (n + 1) := by
    intro n
    rw [UInt32.zero_add, UInt32.ofNat_add, hOne]
  rw [nthChildLoop_before before _ 0 0 (by omega), nthChildLoop, if_neg (by simp [hSkip]),
    if_pos (by omega), List.countP_append, List.countP_cons_of_pos (by simp [hSkip]),
    List.countP_nil, hFound]
  cases last with
  | true =>
    rw [if_pos rfl, if_pos rfl, nthChildLoop_after after _ _ (by omega), List.countP_append,
      List.countP_cons_of_pos (by simp [hSkip]), ← UInt32.ofNat_add, Nat.zero_add, Nat.add_assoc,
      Nat.add_comm 1]
  | false =>
    rw [if_neg Bool.false_ne_true, if_neg Bool.false_ne_true, List.countP_append,
      List.countP_cons_of_pos (by simp [hSkip]), List.countP_nil]

end Counting

/-- The place that the code computes. -/
def computedPlace (children : List Node) (tag : GumboTag) (self : Nat) (last ofType : Bool) :
    UInt32 :=
  let (i, count) := nthChildLoop (skips ofType tag) last self children 0 0 0
  if last then count - i + 1 else i

theorem computedPlace_eq {children : List Node} {tag : GumboTag} {self : Nat}
    {attributes : List GumboAttribute} {child : Node} (hChild : children[self]? = some child)
    (hLabel : child.label = .element tag attributes) (hLength : children.length ≤ 2 ^ 31)
    (last ofType : Bool) :
    (computedPlace children tag self last ofType).toNat = place children tag self last ofType := by
  obtain ⟨hSelf, hGet⟩ := List.getElem?_eq_some_iff.mp hChild
  have hBefore : (children.take self).length = self := List.length_take_of_le (Nat.le_of_lt hSelf)
  have hSplit : children = children.take self ++ child :: children.drop (self + 1) := by
    rw [← hGet, List.getElem_cons_drop, List.take_append_drop]
  have hSkip : skips ofType tag child = ofType := by
    rw [skips, hLabel]
    simp
  have hCount : ∀ l : List Node, l.length ≤ 2 ^ 31 →
      (UInt32.ofNat (l.countP fun child => !skips ofType tag child)).toNat =
        l.countP (counts ofType tag) := by
    intro l hl
    have hLe := List.countP_le_length (p := counts ofType tag) (l := l)
    exact UInt32.toNat_ofNat_of_lt' (by
      show List.countP (counts ofType tag) l < 2 ^ 32
      omega)
  have hTotal := hCount children hLength
  have hLe := List.countP_le_length (p := counts ofType tag) (l := children)
  have hOne : (1 : UInt32).toNat = 1 := rfl
  unfold computedPlace
  cases ofType with
  | true =>
    have hLoop := nthChildLoop_skipped last (children.drop (self + 1)) hBefore hSkip
    rw [← hSplit] at hLoop
    rw [hLoop]
    cases last with
    | false => rfl
    | true =>
      simp only [if_true, UInt32.sub_zero, place]
      rw [UInt32.toNat_add, hTotal, hOne]
      exact Nat.mod_eq_of_lt (by omega)
  | false =>
    have hLoop := nthChildLoop_counted last (children.drop (self + 1)) hBefore hSkip
    rw [← hSplit] at hLoop
    have hTake : children.take self ++ [child] = children.take (self + 1) := by
      rw [List.take_succ_eq_append_getElem hSelf, hGet]
    have hUpTo := hCount (children.take (self + 1))
      (Nat.le_trans (List.length_take_le' _ _) hLength)
    rw [hLoop, hTake]
    cases last with
    | false => exact hUpTo
    | true =>
      -- the child is counted on both sides
      have hParts : children.countP (counts false tag) + 1 =
          (children.take (self + 1)).countP (counts false tag) +
            (children.drop self).countP (counts false tag) := by
        have hFirst : counts false tag child = true := by rw [counts, hSkip]; rfl
        rw [← hTake, ← List.getElem_cons_drop hSelf, hGet, List.countP_append,
          List.countP_cons_of_pos hFirst, List.countP_cons_of_pos hFirst, List.countP_nil]
        conv => lhs; rw [hSplit, List.countP_append, List.countP_cons_of_pos hFirst]
        omega
      have hPos : 0 < (children.drop self).countP (counts false tag) := by
        have hFirst : counts false tag child = true := by rw [counts, hSkip]; rfl
        rw [← List.getElem_cons_drop hSelf, hGet, List.countP_cons_of_pos hFirst]
        exact Nat.succ_pos _
      simp only [if_true, place]
      rw [UInt32.toNat_add, UInt32.toNat_sub, hTotal, hUpTo, hOne]
      omega

/-! ## The test -/

theorem nthChildTest_iff (a b i : UInt32) : nthChildTest a b i = true ↔ Nth a b i.toNat := by
  have hSub : (i - b).toNat = (i.toNat + 2 ^ 32 - b.toNat) % 2 ^ 32 := by
    rw [UInt32.toNat_sub]
    have hb := b.toNat_lt
    omega
  unfold nthChildTest Nth
  rw [← hSub]
  by_cases ha : a = 0
  · rw [if_pos ha, if_pos ha, beq_iff_eq, ← UInt32.toNat_inj]
    rfl
  · have hPos : 0 < a.toNat := by
      rw [Nat.pos_iff_ne_zero]
      intro hZero
      exact ha (UInt32.toNat_inj.mp hZero)
    rw [if_neg ha, if_neg ha, Bool.and_eq_true, beq_iff_eq, decide_eq_true_iff, gt_iff_lt,
      UInt32.lt_iff_toNat_lt, ← UInt32.toNat_inj, UInt32.toNat_mod, UInt32.toNat_div]
    constructor
    · rintro ⟨hMod, hDiv⟩
      exact ⟨(i - b).toNat / a.toNat, hDiv, (Nat.div_mul_cancel (Nat.dvd_of_mod_eq_zero hMod)).symm⟩
    · rintro ⟨k, hk, hMul⟩
      rw [hMul]
      exact ⟨Nat.mul_mod_left k a.toNat, (Nat.mul_div_cancel k hPos).symm ▸ hk⟩

/-! ## Attributes -/

/-- The segments that the loop of `EIncludes` finds in a value, `current` being the start of the next
one. -/
def segmentsOf (current : Bytes) : Bytes → List Bytes
  | [] => []
  | [c] => [current ++ [c]]
  | c :: rest =>
    if isBlank c then current :: segmentsOf [] rest else segmentsOf (current ++ [c]) rest

theorem includesLoop_iff (word before current rest : Bytes) :
    includesLoop word (before ++ current ++ rest) rest (before ++ current).length before.length =
      true ↔ word ∈ segmentsOf current rest := by
  induction rest generalizing before current with
  | nil => simp [includesLoop, segmentsOf]
  | cons c rest ih =>
    have hDrop : (before ++ current ++ c :: rest).drop before.length = current ++ c :: rest := by
      rw [List.append_assoc, List.drop_left]
    have hDifference : (before ++ current).length - before.length = current.length := by
      rw [List.length_append, Nat.add_sub_cancel_left]
    rw [includesLoop, hDrop, hDifference]
    cases rest with
    | nil =>
      have hEnd : (before ++ current).length = (before ++ current ++ [c]).length - 1 := by
        simp only [List.length_append, List.length_singleton, Nat.add_sub_cancel]
      rw [if_pos (by rw [← hEnd]; simp), if_pos hEnd]
      dsimp only
      rw [List.take_of_length_le (by simp), includesLoop, segmentsOf, List.mem_singleton]
      split
      · next hWord => exact iff_of_true rfl hWord.symm
      · next hWord => exact iff_of_false Bool.false_ne_true (Ne.symm hWord)
    | cons d rest =>
      have hInner : (before ++ current).length ≠ (before ++ current ++ c :: d :: rest).length - 1 := by
        simp only [List.length_append, List.length_cons]
        omega
      have hSegments : segmentsOf current (c :: d :: rest) =
          if isBlank c then current :: segmentsOf [] (d :: rest)
          else segmentsOf (current ++ [c]) (d :: rest) := rfl
      rw [if_neg hInner, hSegments]
      cases hBlank : isBlank c with
      | true =>
        have hNext := ih (before ++ current ++ [c]) []
        rw [List.append_nil, List.append_assoc _ [c], List.singleton_append,
          List.length_append, List.length_singleton] at hNext
        rw [if_pos (by simp), if_pos rfl]
        dsimp only
        rw [List.take_left, List.mem_cons, ← hNext]
        split
        · next hWord => exact iff_of_true rfl (.inl hWord.symm)
        · next hWord => exact (or_iff_right (Ne.symm hWord)).symm
      | false =>
        have hNext := ih before (current ++ [c])
        rw [List.append_assoc before (current ++ [c]), List.append_assoc current [c],
          List.singleton_append, ← List.append_assoc before current, ← List.append_assoc before,
          List.length_append, List.length_singleton] at hNext
        rw [if_neg (by simpa using hInner), if_neg Bool.false_ne_true, hNext]

/-- Where a first part without blanks ends. -/
theorem append_blank_inj {u v : Bytes} {b c : UInt8} {r w : Bytes}
    (hu : ∀ a ∈ u, isBlank a = false) (hv : ∀ a ∈ v, isBlank a = false) (hb : isBlank b = true)
    (hc : isBlank c = true) (h : u ++ b :: r = v ++ c :: w) : u = v ∧ r = w := by
  induction u generalizing v with
  | nil =>
    cases v with
    | nil => exact ⟨rfl, (List.cons.inj h).2⟩
    | cons a v =>
      obtain rfl : b = a := (List.cons.inj h).1
      rw [hv b List.mem_cons_self] at hb
      cases hb
  | cons a u ih =>
    cases v with
    | nil =>
      obtain rfl : a = c := (List.cons.inj h).1
      rw [hu a List.mem_cons_self] at hc
      cases hc
    | cons a' v =>
      obtain ⟨rfl, hRest⟩ := List.cons.inj h
      obtain ⟨rfl, rfl⟩ := ih (fun x hx => hu x (List.mem_cons_of_mem _ hx))
        (fun x hx => hv x (List.mem_cons_of_mem _ hx)) hRest
      exact ⟨rfl, rfl⟩

/-- A value that ends with its only blank, or has none, is one segment. -/
theorem segment_singleton_iff {current word : Bytes} {c : UInt8}
    (hCurrent : ∀ a ∈ current, isBlank a = false) :
    Segment word (current ++ [c]) ↔ word = current ++ [c] := by
  constructor
  · rintro ⟨x, y, hValue, hStart, hEnd⟩
    have hInner : ∀ x' b r, current ++ [c] = x' ++ b :: r → r ≠ [] → isBlank b = false := by
      intro x' b r hEq hr
      obtain ⟨r', a, rfl⟩ := (List.eq_nil_or_concat r).resolve_left hr
      rw [List.concat_eq_append, ← List.cons_append, ← List.append_assoc] at hEq
      obtain ⟨rfl, -⟩ := List.append_inj' hEq rfl
      exact hCurrent b (by simp)
    rcases hStart with rfl | ⟨x', b, rfl, hb⟩
    · rcases hEnd with ⟨rfl, -, -⟩ | ⟨b, y', rfl, hb, hy, -⟩
      · rw [hValue, List.nil_append, List.append_nil]
      · rw [hInner word b y' hValue hy] at hb
        cases hb
    · have hRest : word ++ y ≠ [] := by
        rcases hEnd with ⟨-, hWord, -⟩ | ⟨b, y', rfl, -⟩ <;> simp_all
      rw [List.append_assoc, List.append_assoc, List.singleton_append] at hValue
      rw [hInner x' b (word ++ y) hValue hRest] at hb
      cases hb
  · rintro rfl
    refine ⟨[], [], by simp, .inl rfl, .inl ⟨rfl, by simp, ?_⟩⟩
    rwa [List.dropLast_concat]

/-- The first segment ends before a blank that is not the last byte. -/
theorem segment_append_iff {current word rest : Bytes} {c : UInt8}
    (hCurrent : ∀ a ∈ current, isBlank a = false) (hc : isBlank c = true) (hRest : rest ≠ []) :
    Segment word (current ++ c :: rest) ↔ word = current ∨ Segment word rest := by
  constructor
  · rintro ⟨x, y, hValue, hStart, hEnd⟩
    rcases hStart with rfl | ⟨x', b, rfl, hb⟩
    · rw [List.nil_append] at hValue
      rcases hEnd with ⟨rfl, -, hBlank⟩ | ⟨b, y', rfl, hb, -, hWord⟩
      · rw [List.append_nil] at hValue
        rw [← hValue, List.dropLast_append_of_ne_nil (List.cons_ne_nil _ _),
          List.dropLast_cons_of_ne_nil hRest] at hBlank
        rw [hBlank c (by simp)] at hc
        cases hc
      · exact .inl (append_blank_inj hCurrent hWord hc hb hValue).1.symm
    · rw [List.append_assoc, List.append_assoc, List.singleton_append] at hValue
      rcases List.append_eq_append_iff.mp hValue with ⟨z, rfl, hTail⟩ | ⟨z, rfl, hTail⟩
      · cases z with
        | nil =>
          obtain ⟨-, rfl⟩ := List.cons.inj hTail
          exact .inr ⟨[], y, by simp, .inl rfl, hEnd⟩
        | cons a z =>
          obtain ⟨rfl, rfl⟩ := List.cons.inj hTail
          exact .inr ⟨z ++ [b], y, by simp, .inr ⟨z, b, rfl, hb⟩, hEnd⟩
      · cases z with
        | nil =>
          obtain ⟨-, rfl⟩ := List.cons.inj hTail
          exact .inr ⟨[], y, by simp, .inl rfl, hEnd⟩
        | cons a z =>
          obtain ⟨rfl, -⟩ := List.cons.inj hTail
          rw [hCurrent b (by simp)] at hb
          cases hb
  · rintro (rfl | ⟨x, y, rfl, hStart, hEnd⟩)
    · exact ⟨[], c :: rest, rfl, .inl rfl, .inr ⟨c, rest, rfl, hc, hRest, hCurrent⟩⟩
    · refine ⟨current ++ c :: x, y, by simp, .inr ?_, hEnd⟩
      rcases hStart with rfl | ⟨x', b, rfl, hb⟩
      · exact ⟨current, c, rfl, hc⟩
      · exact ⟨current ++ c :: x', b, by simp, hb⟩

theorem mem_segmentsOf_iff {word current rest : Bytes} (hCurrent : ∀ a ∈ current, isBlank a = false)
    (h : rest = [] → current = []) :
    word ∈ segmentsOf current rest ↔ Segment word (current ++ rest) := by
  induction rest generalizing current with
  | nil =>
    obtain rfl := h rfl
    refine iff_of_false (by simp [segmentsOf]) ?_
    rintro ⟨x, y, hValue, -, hEnd⟩
    rcases hEnd with ⟨-, hWord, -⟩ | ⟨c, y', rfl, -⟩ <;> simp_all
  | cons c rest ih =>
    cases rest with
    | nil => rw [segmentsOf, List.mem_singleton, segment_singleton_iff hCurrent]
    | cons d rest =>
      have hSegments : segmentsOf current (c :: d :: rest) =
          if isBlank c then current :: segmentsOf [] (d :: rest)
          else segmentsOf (current ++ [c]) (d :: rest) := rfl
      rw [hSegments]
      cases hBlank : isBlank c with
      | true =>
        rw [if_pos rfl, List.mem_cons, segment_append_iff hCurrent hBlank (List.cons_ne_nil _ _),
          ih (List.forall_mem_nil _) (fun _ => rfl), List.nil_append]
      | false =>
        have hNext : ∀ a ∈ current ++ [c], isBlank a = false := by
          intro a ha
          rcases List.mem_append.mp ha with ha | ha
          · exact hCurrent a ha
          · obtain rfl := List.mem_singleton.mp ha
            exact hBlank
        rw [if_neg Bool.false_ne_true, ih hNext (fun hNil => absurd hNil (List.cons_ne_nil _ _)),
          List.append_assoc, List.singleton_append]

theorem dashMatch_iff {mValue value : Bytes} :
    (value.take mValue.length = mValue ∧ value[mValue.length]? = some 45) ↔
      mValue ++ [45] <+: value := by
  constructor
  · rintro ⟨hTake, hDash⟩
    obtain ⟨hLt, hGet⟩ := List.getElem?_eq_some_iff.mp hDash
    refine ⟨value.drop (mValue.length + 1), ?_⟩
    conv => rhs; rw [← List.take_append_drop mValue.length value, hTake, ← List.getElem_cons_drop hLt,
      hGet]
    rw [List.append_assoc, List.singleton_append]
  · rintro ⟨rest, rfl⟩
    constructor
    · rw [List.append_assoc, List.take_left]
    · rw [List.append_assoc, List.getElem?_append_right (Nat.le_refl _), Nat.sub_self]
      rfl

theorem attributeTest_iff (mValue value : Bytes) (op : AttributeOperator) :
    attributeTest mValue value op = true ↔ op.Holds mValue value := by
  match op with
  | .exists => exact iff_of_true rfl trivial
  | .equals =>
    rw [attributeTest, beq_iff_eq]
    exact eq_comm
  | .includes =>
    have hLoop := includesLoop_iff mValue [] [] value
    rw [mem_segmentsOf_iff (by simp) (fun _ => rfl)] at hLoop
    exact hLoop
  | .dashMatch =>
    have hLength : ∀ h : value.take mValue.length = mValue, ¬ value.length < mValue.length := by
      intro h hLt
      rw [List.take_of_length_le (Nat.le_of_lt hLt)] at h
      exact absurd (congrArg List.length h) (Nat.ne_of_lt hLt)
    rw [attributeTest, AttributeOperator.Holds, ← dashMatch_iff]
    split
    · next hEq => exact iff_of_true rfl (.inl hEq.symm)
    · next hNe =>
      rw [or_iff_right (Ne.symm hNe)]
      split
      · next hLt => exact iff_of_false Bool.false_ne_true fun h => hLength h.1 hLt
      · rw [Bool.and_eq_true, beq_iff_eq, beq_iff_eq]
  | .prefixed =>
    rw [attributeTest, AttributeOperator.Holds, Bool.and_eq_true, beq_iff_eq, decide_eq_true_iff,
      List.prefix_iff_eq_take, eq_comm (b := mValue), and_iff_right_iff_imp]
    intro h
    have hLength := congrArg List.length h
    rw [List.length_take] at hLength
    omega
  | .suffixed =>
    rw [attributeTest, AttributeOperator.Holds, Bool.and_eq_true, beq_iff_eq, decide_eq_true_iff,
      List.suffix_iff_eq_drop, eq_comm (b := mValue), and_iff_right_iff_imp]
    intro h
    have hLength := congrArg List.length h
    rw [List.length_drop] at hLength
    omega
  | .subString => simp [attributeTest, AttributeOperator.Holds]

theorem attributeLoop_iff {op : AttributeOperator} {mKey mValue : Bytes}
    {attributes : List GumboAttribute} :
    attributeLoop op mKey mValue attributes = true ↔
      ∃ attr, attributes.find? (fun attr => attr.name = mKey) = some attr ∧
        op.Holds mValue attr.value := by
  induction attributes with
  | nil => simp [attributeLoop]
  | cons attr rest ih =>
    rw [attributeLoop, List.find?_cons]
    split
    · next hNe => rw [ih, decide_eq_false (Ne.symm hNe)]
    · next hEq =>
      rw [decide_eq_true (Decidable.not_not.mp hEq).symm, attributeTest_iff]
      simp

/-! ## Siblings, parents and descendants -/

section Around

variable {matches1 : Position → Bool}

theorem ancestorLoop_iff {p : Position} :
    ancestorLoop matches1 p = true ↔
      ∃ q above, q ≠ [] ∧ p = q ++ above ∧ matches1 above = true := by
  induction p with
  | nil =>
    refine iff_of_false Bool.false_ne_true ?_
    rintro ⟨q, above, hq, hp, -⟩
    exact hq (List.append_eq_nil_iff.mp hp.symm).1
  | cons i parent ih =>
    rw [ancestorLoop, Bool.or_eq_true, ih]
    constructor
    · rintro (h | ⟨q, above, -, rfl, h⟩)
      · exact ⟨[i], parent, List.cons_ne_nil _ _, rfl, h⟩
      · exact ⟨i :: q, above, List.cons_ne_nil _ _, rfl, h⟩
    · rintro ⟨q, above, hq, hp, h⟩
      obtain ⟨j, q, rfl⟩ := List.exists_cons_of_ne_nil hq
      obtain ⟨rfl, rfl⟩ := List.cons.inj hp
      cases q with
      | nil => exact .inl h
      | cons k q => exact .inr ⟨k :: q, above, List.cons_ne_nil _ _, rfl, h⟩

theorem siblingLoop_iff {matchesAt : Nat → Bool} {i : Nat} :
    siblingLoop matchesAt i = true ↔ ∃ j, j < i ∧ matchesAt j = true := by
  induction i with
  | zero => simp [siblingLoop]
  | succ i ih =>
    rw [siblingLoop, Bool.or_eq_true, ih]
    constructor
    · rintro (h | ⟨j, hj, h⟩)
      · exact ⟨i, Nat.lt_succ_self i, h⟩
      · exact ⟨j, Nat.lt_succ_of_lt hj, h⟩
    · rintro ⟨j, hj, h⟩
      rcases Nat.lt_succ_iff_lt_or_eq.mp hj with hj | rfl
      · exact .inr ⟨j, hj, h⟩
      · exact .inl h

theorem adjacentLoop_iff {children : List Node} {matchesAt : Nat → Bool} {i : Nat}
    (hi : i ≤ children.length) :
    adjacentLoop children matchesAt i = true ↔ ∃ j, j < i ∧ matchesAt j = true ∧
      (∀ child, children[j]? = some child → child.label.isFiller = false) ∧
        ∀ k, j < k → k < i → ∃ child, children[k]? = some child ∧ child.label.isFiller = true := by
  induction i with
  | zero => simp [adjacentLoop]
  | succ i ih =>
    have hGet := List.getElem?_eq_getElem (Nat.lt_of_succ_le hi)
    rw [adjacentLoop, hGet]
    dsimp only
    cases hFiller : (children[i]).label.isFiller with
    | true =>
      rw [if_pos rfl, ih (Nat.le_of_succ_le hi)]
      constructor
      · rintro ⟨j, hj, h, hStop, hBetween⟩
        refine ⟨j, Nat.lt_succ_of_lt hj, h, hStop, fun k hk hki => ?_⟩
        rcases Nat.lt_succ_iff_lt_or_eq.mp hki with hki | rfl
        · exact hBetween k hk hki
        · exact ⟨_, hGet, hFiller⟩
      · rintro ⟨j, hj, h, hStop, hBetween⟩
        rcases Nat.lt_succ_iff_lt_or_eq.mp hj with hj | rfl
        · exact ⟨j, hj, h, hStop, fun k hk hki => hBetween k hk (Nat.lt_succ_of_lt hki)⟩
        · rw [hStop _ hGet] at hFiller
          cases hFiller
    | false =>
      rw [if_neg Bool.false_ne_true]
      constructor
      · intro h
        refine ⟨i, Nat.lt_succ_self i, h, fun child hChild => ?_, fun k hk hki => by omega⟩
        obtain rfl := Option.some.inj (hGet.symm.trans hChild)
        exact hFiller
      · rintro ⟨j, hj, h, -, hBetween⟩
        rcases Nat.lt_succ_iff_lt_or_eq.mp hj with hj | rfl
        · obtain ⟨child, hChild, hTrue⟩ := hBetween i hj (Nat.lt_succ_self i)
          obtain rfl := Option.some.inj (hGet.symm.trans hChild)
          rw [hTrue] at hFiller
          cases hFiller
        · exact h

theorem hasChildMatch_iff (children : List Node) (i : Nat) (p : Position) :
    hasChildMatch matches1 children i p = true ↔
      ∃ k < children.length, matches1 ((i + k) :: p) = true := by
  induction children generalizing i with
  | nil => simp [hasChildMatch]
  | cons child rest ih =>
    rw [hasChildMatch, Bool.or_eq_true, ih]
    constructor
    · rintro (h | ⟨k, hk, h⟩)
      · exact ⟨0, Nat.succ_pos _, h⟩
      · exact ⟨k + 1, Nat.succ_lt_succ hk, by rwa [Nat.add_right_comm] at h⟩
    · rintro ⟨k, hk, h⟩
      cases k with
      | zero => exact .inl h
      | succ k => exact .inr ⟨k, Nat.lt_of_succ_lt_succ hk, by rwa [Nat.add_right_comm]⟩

mutual

/-- `hasDescendantMatch` looks for a match on the walk through the elements below a node. -/
theorem any_walk_eq (node : Node) (p : Position) :
    (Rose.walk Content.isElement node p).any matches1 =
      (matches1 p || (node.label.isElement && hasDescendantMatch matches1 node p)) := by
  match node with
  | .node label children =>
    rw [Rose.walk, List.any_cons, hasDescendantMatch, Rose.label]
    cases label.isElement with
    | true => rw [if_pos rfl, Bool.true_and, any_walkAll_eq]
    | false => rw [if_neg Bool.false_ne_true, Bool.false_and, List.any_nil]

theorem any_walkAll_eq (children : List Node) (i : Nat) (p : Position) :
    (Rose.walkAll Content.isElement children i p).any matches1 =
      hasDescendantMatchFrom matches1 children i p := by
  match children with
  | [] => rfl
  | child :: rest =>
    rw [Rose.walkAll, List.any_append, any_walk_eq, any_walkAll_eq, hasDescendantMatchFrom]

end

theorem hasDescendantMatch_iff (node : Node) (p : Position) :
    (node.label.isElement && hasDescendantMatch matches1 node p) = true ↔
      ∃ q, q ≠ [] ∧ Rose.Reaches Content.isElement node q ∧ matches1 (q ++ p) = true := by
  obtain ⟨label, children⟩ := node
  rw [Bool.and_eq_true, hasDescendantMatch, ← any_walkAll_eq, List.any_eq_true]
  constructor
  · rintro ⟨hEnter, q, hq, h⟩
    obtain ⟨k, u, s, hu, rfl, hReach⟩ := (Rose.mem_walkAll_iff children 0 p q).mp hq
    refine ⟨s ++ [k], by simp, (Rose.reaches_append_singleton _ s k).mpr ⟨hEnter, u, hu, hReach⟩, ?_⟩
    rw [List.append_assoc, List.singleton_append]
    rwa [Nat.zero_add] at h
  · rintro ⟨q, hq, hReach, h⟩
    obtain ⟨s, k, rfl⟩ := (List.eq_nil_or_concat q).resolve_left hq
    rw [List.concat_eq_append] at hReach h
    obtain ⟨hEnter, u, hu, hReach⟩ := (Rose.reaches_append_singleton _ s k).mp hReach
    refine ⟨hEnter, s ++ k :: p, (Rose.mem_walkAll_iff children 0 p _).mpr
      ⟨k, u, s, hu, by rw [Nat.zero_add], hReach⟩, ?_⟩
    rwa [List.append_assoc, List.singleton_append] at h

end Around

/-! ## Matching -/

section Positions

variable {d : Node} {p : Position} {i : Nat}

theorem content_cons (d : Node) (i : Nat) (p : Position) :
    content d (i :: p) = ((childrenOf d p)[i]?).map Rose.label := by
  rw [content, childrenOf, Rose.at?_cons]
  cases d.at? p <;> rfl

theorem exists_child {c : Content} (h : content d (i :: p) = some c) :
    ∃ child, (childrenOf d p)[i]? = some child ∧ child.label = c := by
  rw [content_cons] at h
  exact Option.map_eq_some_iff.mp h

theorem elementAt_iff (d : Node) (p : Position) :
    (∃ tag, ElementAt d p tag) ↔ ∃ node, d.at? p = some node ∧ node.label.isElement = true := by
  constructor
  · rintro ⟨tag, attributes, h⟩
    obtain ⟨node, hNode, hLabel⟩ := Option.map_eq_some_iff.mp h
    exact ⟨node, hNode, hLabel ▸ rfl⟩
  · rintro ⟨node, hNode, hElement⟩
    have hContent : content d p = some node.label := by rw [content, hNode]; rfl
    cases hLabel : node.label <;> rw [hLabel] at hElement hContent <;> cases hElement
    exact ⟨_, _, hContent⟩

theorem elementAt_unique {tag tag' : GumboTag} (h : ElementAt d p tag) (h' : ElementAt d p tag') :
    tag = tag' := by
  obtain ⟨attributes, h⟩ := h
  obtain ⟨attributes', h'⟩ := h'
  rw [h] at h'
  cases h'
  rfl

theorem childrenOf_eq {node : Node} (h : d.at? p = some node) : childrenOf d p = node.children := by
  rw [childrenOf, h]
  rfl

theorem onElement_iff {test : GumboTag → List GumboAttribute → Bool} :
    onElement d p test = true ↔
      ∃ tag attributes, content d p = some (.element tag attributes) ∧ test tag attributes = true := by
  unfold onElement
  split
  · next tag attributes hContent =>
    constructor
    · exact fun h => ⟨tag, attributes, hContent, h⟩
    · rintro ⟨tag', attributes', hContent', h⟩
      rw [hContent] at hContent'
      cases hContent'
      exact h
  · next hNot =>
    refine iff_of_false Bool.false_ne_true ?_
    rintro ⟨tag, attributes, hContent, -⟩
    exact hNot tag attributes hContent

theorem onChild_iff {test : GumboTag → Nat → Position → Bool} :
    onChild d p test = true ↔
      ∃ self parent tag, p = self :: parent ∧ ElementAt d p tag ∧ test tag self parent = true := by
  rw [onChild, onElement_iff]
  cases p with
  | nil => simp
  | cons self parent =>
    constructor
    · rintro ⟨tag, attributes, hContent, h⟩
      exact ⟨self, parent, tag, rfl, ⟨attributes, hContent⟩, h⟩
    · rintro ⟨self', parent', tag, hp, ⟨attributes, hContent⟩, h⟩
      obtain ⟨rfl, rfl⟩ := List.cons.inj hp
      exact ⟨tag, attributes, hContent, h⟩

theorem onNode_iff {test : Node → Bool} :
    onNode d p test = true ↔ ∃ node, d.at? p = some node ∧ test node = true := by
  unfold onNode
  cases d.at? p <;> simp

theorem onParent_iff {test : Position → Bool} :
    onParent p test = true ↔ ∃ i parent, p = i :: parent ∧ test parent = true := by
  cases p <;> simp [onParent]

/-- Both loops of `EAdjacent`. -/
theorem adjacent_iff {tag : GumboTag} {adjacent : Bool} {matchesAt : Nat → Bool}
    (h : ElementAt d (i :: p) tag) :
    (if adjacent then adjacentLoop (childrenOf d p) matchesAt i else siblingLoop matchesAt i) = true ↔
      ∃ j, j < i ∧ matchesAt j = true ∧
        (adjacent = true → (∀ c, content d (j :: p) = some c → c.isFiller = false) ∧
          ∀ k, j < k → k < i → ∃ c, content d (k :: p) = some c ∧ c.isFiller = true) := by
  cases adjacent with
  | false => simp [siblingLoop_iff]
  | true =>
    obtain ⟨attributes, hContent⟩ := h
    obtain ⟨child, hChild, -⟩ := exists_child hContent
    have hi : i ≤ (childrenOf d p).length := Nat.le_of_lt (List.getElem?_eq_some_iff.mp hChild).1
    rw [if_pos rfl, adjacentLoop_iff hi]
    simp only [content_cons, Option.map_eq_some_iff, forall_exists_index, and_imp,
      forall_apply_eq_imp_iff₂, forall_const, exists_exists_and_eq_and]

end Positions

/-- Matching decides what a selector selects, at every node of every document. -/
theorem matchNode_iff (d : Document) (s : Selector) (p : Position) :
    s.matchNode d.root p = true ↔ p ∈ s.Denotes d.root := by
  induction s generalizing p with
  | dummy => exact iff_of_true rfl trivial
  | empty =>
    rw [Selector.matchNode, onElement_iff]
    constructor
    · rintro ⟨tag, attributes, hContent, h⟩
      exact ⟨⟨tag, attributes, hContent⟩, by simpa using h⟩
    · rintro ⟨⟨tag, attributes, hContent⟩, h⟩
      exact ⟨tag, attributes, hContent, by simpa using h⟩
  | onlyChild ofType =>
    rw [Selector.matchNode, onChild_iff]
    simp only [onlyChildLoop_eq _ (Or.inl rfl), decide_eq_true_iff, UInt32.toNat_zero, Nat.zero_add]
    rfl
  | nthChild a b last ofType =>
    rw [Selector.matchNode, onChild_iff]
    refine exists_congr fun self => exists_congr fun parent => exists_congr fun tag =>
      and_congr_right fun hp => and_congr_right fun hElement => ?_
    obtain ⟨attributes, hContent⟩ := hElement
    rw [hp] at hContent
    obtain ⟨child, hChild, hLabel⟩ := exists_child hContent
    rw [← computedPlace_eq hChild hLabel (d.length_children_le parent) last ofType,
      ← nthChildTest_iff]
    rfl
  | tag mTag =>
    rw [Selector.matchNode, onElement_iff]
    simp only [beq_iff_eq]
    constructor
    · rintro ⟨tag, attributes, hContent, rfl⟩
      exact ⟨attributes, hContent⟩
    · rintro ⟨attributes, hContent⟩
      exact ⟨mTag, attributes, hContent, rfl⟩
  | unary op s ih =>
    cases op with
    | not =>
      rw [Selector.matchNode, Bool.not_eq_true', ← Bool.not_eq_true, ih]
      rfl
    | hasDescendant =>
      rw [Selector.matchNode, onNode_iff]
      simp only [hasDescendantMatch_iff, ih]
      rfl
    | hasChild =>
      rw [Selector.matchNode, onNode_iff]
      simp only [Bool.and_eq_true, hasChildMatch_iff, ih, Nat.zero_add]
      constructor
      · rintro ⟨node, hNode, hElement, i, hi, h⟩
        exact ⟨(elementAt_iff ..).mpr ⟨node, hNode, hElement⟩, i, (childrenOf_eq hNode).symm ▸ hi, h⟩
      · rintro ⟨hElement, i, hi, h⟩
        obtain ⟨node, hNode, hElement⟩ := (elementAt_iff ..).mp hElement
        exact ⟨node, hNode, hElement, i, childrenOf_eq hNode ▸ hi, h⟩
  | binary op s1 s2 ih1 ih2 =>
    cases op with
    | union =>
      rw [Selector.matchNode, Bool.or_eq_true, ih1, ih2]
      rfl
    | intersection =>
      rw [Selector.matchNode, Bool.and_eq_true, ih1, ih2]
      rfl
    | child =>
      rw [Selector.matchNode, Bool.and_eq_true, ih2, onParent_iff]
      simp only [ih1]
      rfl
    | descendant =>
      rw [Selector.matchNode, Bool.and_eq_true, ih2, ancestorLoop_iff]
      simp only [ih1]
      rfl
    | adjacent adjacent =>
      rw [Selector.matchNode, Bool.and_eq_true, ih2, onChild_iff]
      refine and_congr_right fun _ => ?_
      constructor
      · rintro ⟨i, parent, tag, rfl, hElement, h⟩
        rw [adjacent_iff hElement] at h
        obtain ⟨j, hj, hMatch, hBetween⟩ := h
        exact ⟨⟨tag, hElement⟩, i, j, parent, rfl, hj, (ih1 _).mp hMatch, hBetween⟩
      · rintro ⟨⟨tag, hElement⟩, i, j, parent, rfl, hj, hMatch, hBetween⟩
        exact ⟨i, parent, tag, rfl, hElement,
          (adjacent_iff hElement).mpr ⟨j, hj, (ih1 _).mpr hMatch, hBetween⟩⟩
  | ofAttribute op key value =>
    rw [Selector.matchNode, onElement_iff]
    simp only [attributeLoop_iff, ← exists_and_left]
    rfl
  | ofText op value =>
    rw [Selector.matchNode, onNode_iff]
    simp only [decide_eq_true_iff]
    cases op <;> rfl

end RetroConfig.Html
