import RetroConfig.Html.SelectorShape

/-!
# Reading written selectors

The parser reads every selector of the right shape back from its text (`reads_of_shape`), whatever
follows, as long as it does not go on with the selector; and every selector that it makes is of that
shape (`shape_of_create`). So these are the selectors that it makes (`exists_create_iff`), and reading
the text of a selector that was read gives the same selector again (`create_write_of_create`).
-/

namespace RetroConfig.Html.CParser

open Outcome

/-! ## What is written is read -/

/-- What a sequence has assigned to `ret` so far. -/
def assigned (sel : Selector) : Option Selector := if sel = .dummy then none else some sel

/-- After the text of a selector, the function or the loop of its level goes on with it. -/
def Reads (level : Level) (sel : Selector) : Prop :=
  ∀ (s : CParser) (tail : Bytes) (r : Selector × CParser), s.rest = sel.write ++ tail →
    match level with
    | .part => NameEnd tail → ∀ ret,
      Yields (fun n => sequenceLoop n (some (intersect ret sel)) (s.advance sel.write.length)) r →
        Yields (fun n => sequenceLoop n ret s) r
    | .sequence => NameEnd tail →
      Yields (fun n => sequenceLoop n (assigned sel) (s.advance sel.write.length)) r →
        Yields (fun n => parseSimpleSelectorSequence n s) r
    | .selector => SequenceEnd tail →
      Yields (fun n => selectorLoop n sel (s.advance sel.write.length)) r →
        Yields (fun n => parseSelector n s) r
    | .group => SelectorEnd tail →
      Yields (fun n => groupLoop n sel (s.advance sel.write.length)) r →
        Yields (fun n => parseSelectorGroup n s) r

/-- The byte that the text of a selector starts with. -/
def StartsLike (level : Level) (c : UInt8) : Prop :=
  match level with
  | .part => c = 91 ∨ c = 58
  | _ => c = 91 ∨ c = 58 ∨ c = 42 ∨ startByte c = true ∨ c = 92

theorem exists_head_write {level : Level} {sel : Selector} (h : Shape level sel) :
    ∃ c rest, sel.write = c :: rest ∧ StartsLike level c := by
  induction h with
  | existing => exact ⟨91, _, rfl, .inl rfl⟩
  | @ofAttribute op key value hOp =>
    refine ⟨91, writeIdentifier key ++ op.sign ++ writeString value ++ [93], ?_, .inl rfl⟩
    rw [Selector.write, writeAttribute]
    · rfl
    · exact hOp
  | ofText | nthChild | onlyChild | empty | unary => exact ⟨58, _, rfl, .inr rfl⟩
  | dummy => exact ⟨42, _, rfl, .inr (.inr (.inl rfl))⟩
  | @tag mTag =>
    obtain ⟨a, rest, hHead, hStart⟩ := exists_head_writeIdentifier (tagName_ne_nil mTag) []
    rw [List.append_nil] at hHead
    exact ⟨a, rest, hHead, .inr (.inr (.inr hStart))⟩
  | ofPart _ ih =>
    obtain ⟨c, rest, hHead, hStart⟩ := ih
    exact ⟨c, rest, hHead, hStart.imp_right .inl⟩
  | intersection _ _ _ ih | combined _ _ _ _ ih | union _ _ ih =>
    obtain ⟨c, rest, hHead, hStart⟩ := ih
    exact ⟨c, _, by rw [Selector.write, hHead]; rfl, hStart⟩
  | ofSequence _ ih | ofSelector _ ih => exact ih

theorem startsLike_facts {level : Level} {c : UInt8} (h : StartsLike level c) :
    blank c = false ∧ c ≠ 47 ∧ c ≠ 43 ∧ c ≠ 62 ∧ c ≠ 126 ∧ c ≠ 44 ∧ c ≠ 41 := by
  have hStart : c = 91 ∨ c = 58 ∨ c = 42 ∨ startByte c = true ∨ c = 92 := by
    cases level with
    | part => exact Or.imp_right .inl h
    | sequence => exact h
    | selector => exact h
    | group => exact h
  have hAll : ∀ n < 256, (UInt8.ofNat n = 91 ∨ UInt8.ofNat n = 58 ∨ UInt8.ofNat n = 42 ∨
      startByte (UInt8.ofNat n) = true ∨ UInt8.ofNat n = 92) →
      blank (UInt8.ofNat n) = false ∧ UInt8.ofNat n ≠ 47 ∧ UInt8.ofNat n ≠ 43 ∧ UInt8.ofNat n ≠ 62 ∧
        UInt8.ofNat n ≠ 126 ∧ UInt8.ofNat n ≠ 44 ∧ UInt8.ofNat n ≠ 41 := by decide +kernel
  have hFacts := hAll c.toNat c.toNat_lt
  rw [UInt8.ofNat_toNat] at hFacts
  exact hFacts hStart

section Reads

variable {s : CParser} {tail : Bytes} {sel s1 s2 : Selector} {r : Selector × CParser}

/-! ### Parts -/

theorem yields_attribute (hHead : s.rest.head? = some 91) {s' : CParser}
    (hParse : s.parseAttributeSelector = .ok (sel, s')) (ret : Option Selector)
    (h : Yields (fun n => sequenceLoop n (some (intersect ret sel)) s') r) :
    Yields (fun n => sequenceLoop n ret s) r := by
  refine h.succ fun n => ?_
  cases hRest : s.rest with
  | nil => rw [hRest] at hHead; cases hHead
  | cons c rest =>
    rw [hRest] at hHead
    obtain rfl := Option.some.inj hHead
    rw [sequenceLoop, hRest]
    show (s.parseAttributeSelector >>= _) = _
    rw [hParse]
    rfl

theorem yields_pseudoclass (hHead : s.rest.head? = some 58) {s' : CParser}
    (hParse : Yields (fun n => parsePseudoclassSelector n s) (sel, s')) (ret : Option Selector)
    (h : Yields (fun n => sequenceLoop n (some (intersect ret sel)) s') r) :
    Yields (fun n => sequenceLoop n ret s) r := by
  refine (hParse.bind (g := fun r n => sequenceLoop n (some (intersect ret r.1)) r.2) h).succ
    fun n => ?_
  cases hRest : s.rest with
  | nil => rw [hRest] at hHead; cases hHead
  | cons c rest =>
    rw [hRest] at hHead
    obtain rfl := Option.some.inj hHead
    rw [sequenceLoop, hRest]
    rfl

theorem reads_attribute {op : AttributeOperator} {key value : Bytes} (hKey : key ≠ [])
    (hValue : op = .exists → value = []) : Reads .part (.ofAttribute op key value) := by
  intro s tail r hRest _ ret h
  have hHead : s.rest.head? = some 91 := by
    rw [hRest]
    cases op <;> rfl
  exact yields_attribute hHead (parseAttributeSelector_eq hKey hValue hRest) ret h

theorem reads_pseudoclass (hColon : ∃ rest, sel.write = 58 :: rest)
    (hParse : ∀ (s : CParser) (tail : Bytes), s.rest = sel.write ++ tail → NameEnd tail → ∀ n,
      parsePseudoclassSelector (n + 1) s = .ok (sel, s.advance sel.write.length)) :
    Reads .part sel := by
  intro s tail r hRest hTail ret h
  obtain ⟨rest, hWrite⟩ := hColon
  have hHead : s.rest.head? = some 58 := by rw [hRest, hWrite]; rfl
  refine yields_pseudoclass hHead ?_ ret h
  exact (yields_const (fun _ => rfl)).succ (g := fun _ => .ok (sel, s.advance sel.write.length))
    (hParse s tail hRest hTail)

/-- A part that contains a group. -/
theorem reads_unary (op : UnaryOperator) (hShape : Shape .group sel) (ih : Reads .group sel) :
    Reads .part (.unary op sel) := by
  intro s tail r hRest _ ret h
  have hHead : s.rest.head? = some 58 := by rw [hRest]; rfl
  refine yields_pseudoclass hHead ?_ ret h
  have hFull : s.rest = 58 :: op.name ++ (40 :: sel.write ++ 41 :: tail) := by
    rw [hRest, Selector.write]
    simp
  have hNext : (s.advance (op.name.length + 1)).rest = 40 :: sel.write ++ 41 :: tail :=
    rest_advance (w := 58 :: op.name) hFull
  obtain ⟨c, rest, hStart, hLike⟩ := exists_head_write hShape
  obtain ⟨hBlank, hSlash, -⟩ := startsLike_facts hLike
  have hOpen : (s.advance (op.name.length + 1)).consumeParenthesis =
      some ((s.advance (op.name.length + 1)).advance 1) :=
    consumeParenthesis_eq (c := c) (by rw [hNext, hStart]; rfl) hBlank hSlash
  have hGroup : ((s.advance (op.name.length + 1)).advance 1).rest = sel.write ++ 41 :: tail :=
    rest_advance (w := [40]) hNext
  have hClose := rest_advance hGroup
  have hName : op.name ≠ [] ∧ writeIdentifier op.name = op.name ∧
      unaryOperator (tolower op.name) = some op := by cases op <;> decide
  have hEnd : SelectorEnd (41 :: tail) := by
    refine ⟨⟨nameEnd_cons tail (by decide) (by decide) (by decide), ?_⟩, ?_⟩
    · intro c hc
      obtain rfl := Option.some.inj hc
      decide
    · intro c hc
      obtain rfl := Option.some.inj hc
      decide
  -- the loop of the group stops at the parenthesis
  have hStop : Yields (fun n => groupLoop n sel
      (((s.advance (op.name.length + 1)).advance 1).advance sel.write.length))
      (sel, ((s.advance (op.name.length + 1)).advance 1).advance sel.write.length) := by
    refine (yields_const (fun _ => rfl)).succ fun n => ?_
    rw [groupLoop, hClose, if_neg (by simp)]
  have hLength : op.name.length + 1 + (1 + (sel.write.length + 1)) =
      (Selector.unary op sel).write.length := by
    simp only [Selector.write, List.length_append, List.length_cons, List.length_nil]
    omega
  refine ((ih _ (41 :: tail) _ hGroup hEnd hStop).bind
    (g := fun r _ => r.2.closed (Selector.unary op r.1)) (yields_const fun _ => ?_)).succ fun n => ?_
  · dsimp only
    rw [closed_eq _ hClose, advance_advance, advance_advance, advance_advance, hLength]
  rw [parsePseudoclassSelector_eq hName.1 hName.2.1 hFull (nameEnd_open _), hName.2.2]
  dsimp only
  rw [hOpen]

/-! ### Sequences -/

theorem assigned_of_ne (h : sel ≠ .dummy) : assigned sel = some sel := if_neg h

theorem nameEnd_of_part {c : UInt8} {rest : Bytes} (h : StartsLike .part c) : NameEnd (c :: rest) := by
  rcases h with rfl | rfl <;> exact nameEnd_cons _ (by decide) (by decide) (by decide)

theorem reads_dummy : Reads .sequence .dummy := by
  intro s tail r hRest _ h
  refine h.succ fun n => ?_
  have hStart : s.parseStart = .ok (none, s.advance 1) := by
    rw [parseStart, hRest]
    rfl
  rw [parseSimpleSelectorSequence, hStart]
  rfl

theorem reads_tag {mTag : GumboTag} (hTag : mTag ≤ GumboTag.unknown) :
    Reads .sequence (.tag mTag) := by
  intro s tail r hRest hTail h
  refine h.succ fun n => ?_
  have hName := tagName_ne_nil mTag
  obtain ⟨a, rest, hHead, hStart⟩ := exists_head_writeIdentifier hName tail
  obtain ⟨-, -, hStar, hId, hClass, hAttribute, hPseudoclass, -⟩ := startByte_facts hStart
  have hParse : s.parseTypeSelector =
      .ok (.tag mTag, s.advance (Selector.tag mTag).write.length) := by
    rw [parseTypeSelector, parseIdentifier_eq hName hRest hTail]
    show Except.ok (Selector.tag (gumbo_tag_enum (tagName mTag)), _) = _
    rw [gumbo_tag_enum_tagName hTag]
    rfl
  have hParseStart : s.parseStart =
      .ok (some (.tag mTag), s.advance (Selector.tag mTag).write.length) := by
    have hFull : s.rest = a :: rest := hRest.trans hHead
    rw [parseStart, hFull]
    dsimp only
    rw [if_neg hStar, if_neg (by simp [*]), hParse]
    rfl
  rw [parseSimpleSelectorSequence, hParseStart]
  rfl

theorem reads_ofPart (hShape : Shape .part sel) (ih : Reads .part sel) : Reads .sequence sel := by
  intro s tail r hRest hTail h
  rw [assigned_of_ne hShape.ne_dummy] at h
  refine (ih s tail r hRest hTail none h).succ fun n => ?_
  obtain ⟨c, rest, hHead, hLike⟩ := exists_head_write hShape
  have hStart : s.parseStart = .ok (none, s) := by
    have hFull : s.rest = c :: (rest ++ tail) := by rw [hRest, hHead]; rfl
    rw [parseStart, hFull]
    rcases hLike with rfl | rfl <;> rfl
  rw [parseSimpleSelectorSequence, hStart]
  rfl

theorem reads_intersection (hDummy : s1 ≠ .dummy) (hShape : Shape .part s2)
    (ih1 : Reads .sequence s1) (ih2 : Reads .part s2) :
    Reads .sequence (.binary .intersection s1 s2) := by
  intro s tail r hRest hTail h
  have hFull : s.rest = s1.write ++ (s2.write ++ tail) := by
    rw [hRest, Selector.write]
    simp [BinaryOperator.sign]
  have hLength : s1.write.length + s2.write.length =
      (Selector.binary .intersection s1 s2).write.length := by
    simp [Selector.write, BinaryOperator.sign]
  obtain ⟨c, rest, hHead, hLike⟩ := exists_head_write hShape
  have hEnd : NameEnd (s2.write ++ tail) := by
    rw [hHead]
    exact nameEnd_of_part hLike
  refine ih1 s _ r hFull hEnd ?_
  rw [assigned_of_ne hDummy]
  refine ih2 _ tail r (rest_advance hFull) hTail (some s1) ?_
  rw [advance_advance, hLength]
  exact h

/-- A sequence ends where no part follows. -/
theorem yields_sequence (ih : Reads .sequence sel) (hRest : s.rest = sel.write ++ tail)
    (hEnd : SequenceEnd tail) :
    Yields (fun n => parseSimpleSelectorSequence n s) (sel, s.advance sel.write.length) := by
  have hNext := rest_advance hRest
  have hValue : (assigned sel).getD .dummy = sel := by
    unfold assigned
    split
    · next h => rw [h]; rfl
    · rfl
  refine ih s tail _ hRest hEnd.1 ((yields_const fun _ => rfl).succ fun n => ?_)
  rw [sequenceLoop, hNext]
  cases tail with
  | nil => exact congrArg (fun x => Except.ok (x, _)) hValue
  | cons c tail =>
    obtain ⟨hId, hClass, hAttribute, hPseudoclass⟩ := hEnd.2 c rfl
    dsimp only
    rw [if_neg hId, if_neg hClass, if_neg hAttribute, if_neg hPseudoclass, hValue]

/-! ### Selectors -/

theorem skipWhitespace_write {level : Level} (hShape : Shape level sel)
    (hRest : s.rest = sel.write ++ tail) : s.skipWhitespace.1 = s := by
  obtain ⟨c, rest, hHead, hLike⟩ := exists_head_write hShape
  obtain ⟨hBlank, hSlash, -⟩ := startsLike_facts hLike
  have hFull : s.rest = c :: (rest ++ tail) := by rw [hRest, hHead]; rfl
  exact skipWhitespace_cons hFull hBlank hSlash

theorem reads_ofSequence (hShape : Shape .sequence sel) (ih : Reads .sequence sel) :
    Reads .selector sel := by
  intro s tail r hRest hEnd h
  have hSequence := yields_sequence ih hRest hEnd
  refine (hSequence.bind (g := fun r n => selectorLoop n r.1 r.2) h).succ fun n => ?_
  rw [parseSelector, skipWhitespace_write hShape hRest]

/-- One blank is passed over, if nothing else is there to be. -/
theorem skipWhitespace_blank {c : UInt8} {rest : Bytes} (hRest : s.rest = 32 :: c :: rest)
    (hBlank : blank c = false) (hSlash : c ≠ 47) : s.skipWhitespace = (s.advance 1, true) := by
  have hNext : (s.advance 1).rest = c :: rest := rest_advance (w := [32]) hRest
  have hStop : ∀ fuel, skipLoop fuel (s.advance 1) = s.advance 1 := by
    intro fuel
    cases fuel with
    | zero => rfl
    | succ fuel =>
      rw [skipLoop, hNext]
      split
      · next h => exact absurd (List.cons.inj h).1 hSlash
      · next h =>
        obtain ⟨rfl, -⟩ := List.cons.inj h
        rw [if_neg (by simp [hBlank])]
      · rfl
  have hLoop : skipLoop s.rest.length s = s.advance 1 := by
    have hLength : s.rest.length = rest.length + 1 + 1 := by rw [hRest]; rfl
    rw [hLength, skipLoop, hRest]
    exact hStop _
  have hFirst : s.skipWhitespace.1 = s.advance 1 := hLoop
  have hSecond : s.skipWhitespace.2 = true := by
    rw [skipped_iff, hFirst, hNext, hRest]
    exact Nat.lt_succ_self _
  exact Prod.ext hFirst hSecond

/-- The byte of a combinator. -/
theorem parseCombinator_eq {op : BinaryOperator} (hUnion : op ≠ .union)
    (hIntersection : op ≠ .intersection) {c : UInt8} {rest : Bytes}
    (hRest : s.rest = op.sign ++ c :: rest) (hLike : StartsLike .sequence c) :
    ∃ combinator, s.parseCombinator = (some combinator, s.advance 1) ∧
      ∀ s1 s2, combine combinator s1 s2 = .binary op s1 s2 := by
  obtain ⟨hBlank, hSlash, hPlus, hGreater, hTilde, hComma, hClose⟩ := startsLike_facts hLike
  -- the combinators that are written
  have hWritten : ∀ a : UInt8, s.rest = a :: c :: rest → a = 43 ∨ a = 62 ∨ a = 126 →
      s.parseCombinator = (some a, s.advance 1) := by
    intro a hRest ha
    have hNext : (s.advance 1).rest = c :: rest := rest_advance (w := [a]) hRest
    have hHead : s.rest.head? = some a := by rw [hRest]; rfl
    have hSkip : s.skipWhitespace = (s, false) := by
      rcases ha with rfl | rfl | rfl <;> exact skipWhitespace_eq hHead (by decide) (by decide)
    rw [parseCombinator, hSkip]
    dsimp only
    rw [hRest]
    dsimp only
    rw [if_pos ha, skipWhitespace_cons hNext hBlank hSlash]
  match op with
  | .union => exact absurd rfl hUnion
  | .intersection => exact absurd rfl hIntersection
  | .child => exact ⟨62, hWritten 62 hRest (by decide), fun _ _ => rfl⟩
  | .adjacent true => exact ⟨43, hWritten 43 hRest (by decide), fun _ _ => rfl⟩
  | .adjacent false => exact ⟨126, hWritten 126 hRest (by decide), fun _ _ => rfl⟩
  | .descendant =>
    have hNext : (s.advance 1).rest = c :: rest := rest_advance (w := [32]) hRest
    refine ⟨32, ?_, fun _ _ => rfl⟩
    rw [parseCombinator, skipWhitespace_blank hRest hBlank hSlash]
    dsimp only
    rw [hNext]
    dsimp only
    rw [if_neg (by simp [*]), if_neg (by simp [*]), if_pos rfl]

theorem sign_end {op : BinaryOperator} (hUnion : op ≠ .union) (hIntersection : op ≠ .intersection)
    (rest : Bytes) : op.sign.length = 1 ∧ SequenceEnd (op.sign ++ rest) := by
  have hByte : ∀ a : UInt8, a = 43 ∨ a = 62 ∨ a = 126 ∨ a = 32 → SequenceEnd (a :: rest) := by
    intro a ha
    refine ⟨?_, ?_⟩
    · rcases ha with rfl | rfl | rfl | rfl <;>
        exact nameEnd_cons _ (by decide) (by decide) (by decide)
    · intro c hc
      obtain rfl := Option.some.inj hc
      rcases ha with rfl | rfl | rfl | rfl <;> decide
  match op with
  | .union => exact absurd rfl hUnion
  | .intersection => exact absurd rfl hIntersection
  | .child => exact ⟨rfl, hByte 62 (by decide)⟩
  | .descendant => exact ⟨rfl, hByte 32 (by decide)⟩
  | .adjacent true => exact ⟨rfl, hByte 43 (by decide)⟩
  | .adjacent false => exact ⟨rfl, hByte 126 (by decide)⟩

theorem reads_combined {op : BinaryOperator} (hUnion : op ≠ .union)
    (hIntersection : op ≠ .intersection) (hShape : Shape .sequence s2) (ih1 : Reads .selector s1)
    (ih2 : Reads .sequence s2) : Reads .selector (.binary op s1 s2) := by
  intro s tail r hRest hEnd h
  have hFull : s.rest = s1.write ++ (op.sign ++ (s2.write ++ tail)) := by
    rw [hRest, Selector.write]
    simp
  obtain ⟨hOne, hSignEnd⟩ := sign_end hUnion hIntersection (s2.write ++ tail)
  have hLength : s1.write.length + 1 + s2.write.length =
      (Selector.binary op s1 s2).write.length := by
    rw [Selector.write, List.length_append, List.length_append, hOne]
  have hNext := rest_advance hFull
  obtain ⟨c, rest, hHead, hLike⟩ := exists_head_write hShape
  have hSign : (s.advance s1.write.length).rest = op.sign ++ c :: (rest ++ tail) := by
    rw [hNext, hHead]
    rfl
  obtain ⟨combinator, hCombinator, hCombine⟩ := parseCombinator_eq hUnion hIntersection hSign hLike
  have hSecond : ((s.advance s1.write.length).advance 1).rest = s2.write ++ tail := by
    rw [← hOne]
    exact rest_advance hNext
  have hSequence := yields_sequence ih2 hSecond hEnd
  rw [advance_advance, advance_advance, hLength] at hSequence
  refine ih1 s _ r hFull hSignEnd ((hSequence.bind
    (g := fun r n => selectorLoop n (combine combinator s1 r.1) r.2) ?_).succ fun n => ?_)
  · rw [hCombine]
    exact h
  · rw [selectorLoop, hCombinator, advance_advance]

/-- A selector ends where no combinator follows. -/
theorem yields_selector (ih : Reads .selector sel) (hRest : s.rest = sel.write ++ tail)
    (hEnd : SelectorEnd tail) :
    Yields (fun n => parseSelector n s) (sel, s.advance sel.write.length) := by
  have hNext := rest_advance hRest
  refine ih s tail _ hRest hEnd.1 ((yields_const fun _ => rfl).succ fun n => ?_)
  have hCombinator : (s.advance sel.write.length).parseCombinator =
      (none, s.advance sel.write.length) := by
    cases tail with
    | nil =>
      have hSkip : (s.advance sel.write.length).skipWhitespace =
          (s.advance sel.write.length, false) := by
        simp [skipWhitespace, hNext, skipLoop]
      rw [parseCombinator, hSkip]
      dsimp only
      rw [hNext]
    | cons c tail =>
      obtain ⟨hBlank, hSlash, hPlus, hGreater, hTilde⟩ := hEnd.2 c rfl
      have hSkip : (s.advance sel.write.length).skipWhitespace =
          (s.advance sel.write.length, false) :=
        skipWhitespace_eq (c := c) (by rw [hNext]; rfl) hBlank hSlash
      rw [parseCombinator, hSkip]
      dsimp only
      rw [hNext]
      dsimp only
      rw [if_neg (by simp [*])]
      split
      · rfl
      · rfl
  rw [selectorLoop, hCombinator]

/-! ### Groups -/

theorem reads_ofSelector (ih : Reads .selector sel) : Reads .group sel := by
  intro s tail r hRest hEnd h
  exact ((yields_selector ih hRest hEnd).bind (g := fun r n => groupLoop n r.1 r.2) h).succ
    fun n => rfl

theorem reads_union (ih1 : Reads .group s1) (ih2 : Reads .selector s2) :
    Reads .group (.binary .union s1 s2) := by
  intro s tail r hRest hEnd h
  have hFull : s.rest = s1.write ++ (44 :: (s2.write ++ tail)) := by
    rw [hRest, Selector.write]
    simp [BinaryOperator.sign, ascii]
  have hComma : SelectorEnd (44 :: (s2.write ++ tail)) := by
    refine ⟨⟨nameEnd_cons _ (by decide) (by decide) (by decide), ?_⟩, ?_⟩
    · intro c hc
      obtain rfl := Option.some.inj hc
      decide
    · intro c hc
      obtain rfl := Option.some.inj hc
      decide
  have hNext := rest_advance hFull
  have hSecond : ((s.advance s1.write.length).advance 1).rest = s2.write ++ tail :=
    rest_advance (w := [44]) hNext
  have hLength : s1.write.length + 1 + s2.write.length =
      (Selector.binary .union s1 s2).write.length := by
    simp only [Selector.write, List.length_append]
    rfl
  have hSelector := yields_selector ih2 hSecond hEnd
  rw [advance_advance, advance_advance, hLength] at hSelector
  refine ih1 s _ r hFull hComma ((hSelector.bind
    (g := fun r n => groupLoop n (.binary .union s1 r.1) r.2) h).succ fun n => ?_)
  rw [groupLoop, hNext, List.head?_cons, if_pos rfl, advance_advance]

end Reads

/-- The parser reads what is written. -/
theorem reads_of_shape {level : Level} {sel : Selector} (h : Shape level sel) : Reads level sel := by
  induction h with
  | existing hKey => exact reads_attribute hKey fun _ => rfl
  | ofAttribute value hOp hKey => exact reads_attribute hKey fun h => absurd h hOp
  | ofText op hLower =>
    exact reads_pseudoclass ⟨_, rfl⟩ fun s tail hRest _ n =>
      parsePseudoclassSelector_text op hLower hRest n
  | nthChild last ofType h =>
    exact reads_pseudoclass ⟨_, rfl⟩ fun s tail hRest _ n =>
      parsePseudoclassSelector_nth h last ofType hRest n
  | onlyChild ofType =>
    refine reads_pseudoclass ⟨_, rfl⟩ fun s tail hRest hTail n => ?_
    have hName : onlyName ofType ≠ [] ∧ writeIdentifier (onlyName ofType) = onlyName ofType ∧
        unaryOperator (tolower (onlyName ofType)) = none := by cases ofType <;> decide
    refine parsePseudoclassSelector_name hName.1 hName.2.1 hName.2.2 (fun s => ?_) hRest hTail n
    cases ofType <;> rfl
  | empty =>
    exact reads_pseudoclass ⟨_, rfl⟩ fun s tail hRest hTail n =>
      parsePseudoclassSelector_name (by decide) (by decide) (by decide) (fun _ => rfl) hRest hTail n
  | unary op hShape ih => exact reads_unary op hShape ih
  | dummy => exact reads_dummy
  | tag hTag => exact reads_tag hTag
  | ofPart hShape ih => exact reads_ofPart hShape ih
  | intersection _ hDummy hShape ih1 ih2 => exact reads_intersection hDummy hShape ih1 ih2
  | ofSequence hShape ih => exact reads_ofSequence hShape ih
  | combined hUnion hIntersection _ hShape ih1 ih2 =>
    exact reads_combined hUnion hIntersection hShape ih1 ih2
  | ofSelector _ ih => exact reads_ofSelector ih
  | union _ _ ih1 ih2 => exact reads_union ih1 ih2

/-- What may follow a group. -/
def GroupEnd (tail : Bytes) : Prop := SelectorEnd tail ∧ tail.head? ≠ some 44

theorem create_write {sel : Selector} (h : Shape .group sel) (unsignedChar : Bool) {tail : Bytes}
    (hEnd : GroupEnd tail) : create unsignedChar (sel.write ++ tail) = .ok sel := by
  have hStop : Yields (fun n => groupLoop n sel
      ((⟨unsignedChar, [], sel.write ++ tail⟩ : CParser).advance sel.write.length))
      (sel, (⟨unsignedChar, [], sel.write ++ tail⟩ : CParser).advance sel.write.length) := by
    refine (yields_const fun _ => rfl).succ fun n => ?_
    rw [groupLoop, rest_advance rfl, if_neg hEnd.2]
  obtain ⟨least, hLeast⟩ := reads_of_shape h _ tail _ rfl hEnd.1 hStop
  have hEnough := hLeast (max least (7 * (sel.write ++ tail).length + 7)) (Nat.le_max_left ..)
  dsimp only at hEnough
  rw [← createWithin_eq (Nat.le_max_right least _), createWithin, hEnough]
  rfl

/-- The selectors that the parser makes. -/
theorem exists_create_iff (unsignedChar : Bool) (sel : Selector) :
    (∃ aInput, create unsignedChar aInput = .ok sel) ↔ Shape .group sel := by
  constructor
  · rintro ⟨aInput, h⟩
    exact shape_of_create h
  · intro h
    have hNil : GroupEnd [] := ⟨⟨⟨nofun, nofun⟩, nofun⟩, nofun⟩
    refine ⟨sel.write, ?_⟩
    rw [← List.append_nil sel.write]
    exact create_write h unsignedChar hNil

/-- Whatever selector was read, its text is read as that selector again, on every platform, and
whatever follows it that does not go on with it. -/
theorem create_write_of_create {unsignedChar : Bool} {aInput : Bytes} {sel : Selector}
    (h : create unsignedChar aInput = .ok sel) (unsignedChar' : Bool) {tail : Bytes}
    (hEnd : GroupEnd tail) : create unsignedChar' (sel.write ++ tail) = .ok sel :=
  create_write (shape_of_create h) unsignedChar' hEnd

theorem create_write_adjacent :
    create false ((Selector.binary (.adjacent true) (.tag (gumbo_tag_enum (ascii "p")))
      (.unary .not .empty)).write ++ ascii ")") =
        .ok (.binary (.adjacent true) (.tag (gumbo_tag_enum (ascii "p"))) (.unary .not .empty)) := by
  have hRead : create true (ascii "P + :NOT( :empty )") =
      .ok (.binary (.adjacent true) (.tag (gumbo_tag_enum (ascii "p"))) (.unary .not .empty)) := rfl
  refine create_write_of_create hRead false ⟨⟨⟨?_, ?_⟩, ?_⟩, by decide⟩
  · exact nameEnd_cons [] (by decide) (by decide) (by decide)
  · rintro c h
    obtain rfl := Option.some.inj h
    decide
  · rintro c h
    obtain rfl := Option.some.inj h
    decide

end RetroConfig.Html.CParser
