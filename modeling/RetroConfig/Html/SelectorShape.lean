import Mathlib.Data.List.TakeWhile
import RetroConfig.Html.SelectorWriting

/-!
# The selectors that are read

Every selector that the parser makes is of the shape that `Shape` describes (`shape_of_create`). The
names in it are not empty, a tag is one that `gumbo_tag_enum` gives, the text of `:contains` is in
lower case, and the numbers of `an+b` are those that an `int` can hold; a `-` before `b` is never
read, as `readN` steps back before it.
-/

namespace RetroConfig.Html.CParser

open Outcome

/-- What holds of the value that was read. -/
def Gives {α : Type} (P : α → Prop) (x : Except Stop (α × CParser)) : Prop :=
  Ensures x (fun r => P r.1) fun _ => True

section Gives

variable {α β : Type} {P : α → Prop} {Q : β → Prop}

theorem gives_ok {a : α} (h : P a) (s : CParser) : Gives P (.ok (a, s)) := h

theorem gives_fail (s : CParser) (message : String) : Gives P (s.fail message) := trivial

theorem Gives.bind {x : Except Stop (α × CParser)} {f : α × CParser → Except Stop (β × CParser)}
    (h : Gives P x) (hf : ∀ a s, P a → Gives Q (f (a, s))) : Gives Q (x >>= f) :=
  Ensures.bind h fun r hr => hf r.1 r.2 hr

end Gives

/-! ## Names -/

theorem gives_parseName (s : CParser) : Gives (· ≠ []) s.parseName := by
  unfold parseName
  cases nameLoop (s.rest.length + 1) s s [] with
  | error e => trivial
  | ok r =>
    obtain ⟨ret, s', o⟩ := r
    show Gives (· ≠ []) (if ret = [] then s'.fail _ else .ok (ret, o))
    split
    · exact gives_fail s' _
    · next hName => exact gives_ok hName o

theorem gives_parseIdentifier (s : CParser) : Gives (· ≠ []) s.parseIdentifier := by
  have hFrom : ∀ s : CParser, Gives (· ≠ []) s.parseIdentifierFrom := by
    intro s
    unfold parseIdentifierFrom
    split
    · exact gives_fail s _
    · split
      · exact gives_fail s _
      · exact gives_parseName s
  unfold parseIdentifier
  split
  · exact (hFrom _).bind fun name s _ => gives_ok (List.cons_ne_nil 45 name) s
  · exact hFrom s

/-! ## Numbers -/

section Numbers

variable {s : CParser} {c : UInt8}

theorem ensures_integerLoop_lt {digits : Bytes} (hDigits : ∀ c ∈ digits, digit c = true) {i : Nat}
    (h : i + 48 < 2 ^ 31) : Ensures (integerLoop digits i) (· + 48 < 2 ^ 31) fun _ => True := by
  induction digits generalizing i with
  | nil => exact h
  | cons c digits ih =>
    have hDigit := hDigits c List.mem_cons_self
    unfold integerLoop
    split
    · trivial
    · next hLt =>
      refine ih (fun a ha => hDigits a (List.mem_cons_of_mem _ ha)) ?_
      have hLow : 48 ≤ c.toNat := by
        simp only [digit, Bool.and_eq_true, decide_eq_true_eq] at hDigit
        exact hDigit.1
      omega

theorem gives_parseInteger (s : CParser) : Gives (fun i => 0 ≤ i ∧ Readable i) s.parseInteger := by
  have hDigits : ∀ c ∈ s.rest.takeWhile digit, digit c = true := fun c hc =>
    List.mem_takeWhile_imp hc
  unfold parseInteger
  refine Ensures.bind (ensures_integerLoop_lt hDigits (by decide)) fun i hi => ?_
  split
  · trivial
  · exact ⟨Int.natCast_nonneg i, hi⟩

/-- The byte that was read last is no digit. -/
def Behind (s : CParser) : Prop := ∀ c, s.before.head? = some c → digit c = false

theorem behind_advance_one {rest : Bytes} (hRest : s.rest = c :: rest) (h : digit c = false) :
    (s.advance 1).Behind := by
  intro a ha
  simp only [advance, hRest, List.take_succ_cons, List.take_zero, List.reverse_singleton,
    List.singleton_append, List.head?_cons, Option.some.injEq] at ha
  exact ha ▸ h

theorem digit_blank (h : blank c = true) : digit c = false := by
  simp only [blank, Bool.or_eq_true, beq_iff_eq] at h
  rcases h with (((rfl | rfl) | rfl) | rfl) | rfl <;> decide

/-- A comment ends with a slash. -/
theorem take_commentEnd {rest : Bytes} {pos : Nat} (h : commentEnd rest = some pos) :
    ∃ comment, rest.take (pos + 2) = comment ++ [47] := by
  induction rest using commentEnd.induct generalizing pos with
  | case1 rest =>
    obtain rfl := Option.some.inj h
    exact ⟨[42], rfl⟩
  | case2 c rest hNot ih =>
    rw [commentEnd] at h
    · obtain ⟨pos', hEnd, rfl⟩ := Option.map_eq_some_iff.mp h
      obtain ⟨comment, hTake⟩ := ih hEnd
      exact ⟨c :: comment, congrArg (c :: ·) hTake⟩
    · exact hNot
  | case3 => cases h

theorem behind_skipLoop (fuel : Nat) (h : s.Behind) : (skipLoop fuel s).Behind := by
  induction fuel generalizing s with
  | zero => exact h
  | succ fuel ih =>
    unfold skipLoop
    split
    · next rest hRest =>
      split
      · next pos hEnd =>
        refine ih fun a ha => ?_
        obtain ⟨comment, hTake⟩ := take_commentEnd hEnd
        have hLast : s.rest.take (pos + 4) = (47 :: 42 :: comment) ++ [47] := by
          rw [hRest, List.take_succ_cons, List.take_succ_cons, hTake]
          rfl
        have hBefore : (s.advance (pos + 4)).before =
            47 :: ((47 :: 42 :: comment).reverse ++ s.before) := by
          rw [advance, hLast, List.reverse_append]
          rfl
        rw [hBefore] at ha
        obtain rfl := Option.some.inj ha
        decide
      · exact h
    · next c rest _ hRest =>
      split
      · next hBlank => exact ih (behind_advance_one hRest (digit_blank hBlank))
      · exact h
    · exact h

/-- No number starts where the byte is no digit. -/
theorem gives_parseInteger_of_head {P : Int → Prop}
    (h : ∀ c, s.rest.head? = some c → digit c = false) : Gives P s.parseInteger := by
  have hNil : s.rest.takeWhile digit = [] := by
    cases hRest : s.rest with
    | nil => rfl
    | cons c rest => rw [List.takeWhile_cons_of_neg (by simp [h c (by rw [hRest]; rfl)])]
  rw [parseInteger, hNil]
  exact gives_fail s _

/-- After the step back, `readN` reads no number. -/
theorem gives_after_back {P : Int → Prop} {rest : Bytes} (hRest : s.rest = 45 :: rest)
    (h : s.Behind) : Gives P s.back.skipWhitespace.1.parseInteger := by
  have hMinus : ∀ {s : CParser} {rest : Bytes}, s.rest = 45 :: rest →
      Gives P s.skipWhitespace.1.parseInteger := by
    intro s rest hRest
    rw [skipWhitespace_cons hRest (by decide) (by decide)]
    refine gives_parseInteger_of_head fun c hc => ?_
    rw [hRest] at hc
    obtain rfl := Option.some.inj hc
    decide
  cases hBefore : s.before with
  | nil =>
    have hBack : s.back = s := by rw [back, hBefore]
    rw [hBack]
    exact hMinus hRest
  | cons c before =>
    have hBack : s.back.rest = c :: 45 :: rest := by rw [back, hBefore, ← hRest]
    have hDigit : digit c = false := h c (by rw [hBefore]; rfl)
    by_cases hBlank : blank c = true
    · -- the blank is passed over again
      have hNext : (s.back.advance 1).rest = 45 :: rest := rest_advance (w := [c]) hBack
      have hSkip : s.back.skipWhitespace.1 = (s.back.advance 1).skipWhitespace.1 := by
        have hStop : ∀ fuel, skipLoop fuel (s.back.advance 1) = s.back.advance 1 := by
          intro fuel
          cases fuel with
          | zero => rfl
          | succ fuel =>
            rw [skipLoop, hNext]
            rfl
        have hSlash : c ≠ 47 := by
          rintro rfl
          cases hBlank
        have hLength : s.back.rest.length = rest.length + 1 + 1 := by rw [hBack]; rfl
        rw [skipWhitespace_cons hNext (by decide) (by decide)]
        show skipLoop s.back.rest.length s.back = _
        rw [hLength, skipLoop, hBack]
        split
        · next hEq => exact absurd (List.cons.inj hEq).1 hSlash
        · next hEq =>
          obtain ⟨rfl, -⟩ := List.cons.inj hEq
          rw [if_pos hBlank, hStop]
        · next hEq => cases hEq
      rw [hSkip]
      exact hMinus hNext
    · -- a slash before a dash opens no comment
      have hSkip : s.back.skipWhitespace.1 = s.back := by
        show skipLoop s.back.rest.length s.back = _
        have hLength : s.back.rest.length = rest.length + 1 + 1 := by rw [hBack]; rfl
        rw [hLength, skipLoop, hBack]
        split
        · next hEq => cases hEq
        · next hEq =>
          obtain ⟨rfl, -⟩ := List.cons.inj hEq
          rw [if_neg hBlank]
        · rfl
      rw [hSkip]
      refine gives_parseInteger_of_head fun a ha => ?_
      rw [hBack] at ha
      exact Option.some.inj ha ▸ hDigit

/-! ## `an+b` -/

theorem readable_neg {n : Int} (h : Readable n) : Readable (-n) := by
  unfold Readable at h ⊢
  rwa [Int.natAbs_neg]

theorem gives_readN (aA : Option Int) (h : s.Behind) :
    Gives (fun r => r.1 = aA ∧ 0 ≤ r.2 ∧ Readable r.2) (s.readN aA) := by
  have hBehind : s.skipWhitespace.1.Behind := behind_skipLoop _ h
  unfold readN
  dsimp only
  split
  · exact gives_fail _ _
  · next c rest hRest =>
    split
    · exact (gives_parseInteger _).bind fun aB s hB => gives_ok ⟨rfl, hB⟩ s
    · split
      · next hMinus =>
        subst hMinus
        exact (gives_after_back (P := fun _ => False) hRest hBehind).bind fun _ _ h => h.elim
      · exact gives_ok ⟨rfl, Int.le_refl 0, (by decide : Readable 0)⟩ _

/-- What `parseNth` assigns. -/
def NthAssigned (r : CParser.Nth) : Prop := ∀ a, r.1 = some a → NthReadable a r.2

theorem gives_readN_some {a : Int} (ha : Readable a) (h : s.Behind) :
    Gives NthAssigned (s.readN (some a)) := by
  refine (gives_readN (some a) h).imp ?_ fun _ h => h
  intro r hr x hx
  obtain rfl := Option.some.inj (hr.1.symm.trans hx)
  exact ⟨ha, hr.2.2, .inr hr.2.1⟩

/-- The byte before `mOffset` is the `n` that was read. -/
theorem behind_advance_n {rest : Bytes} (hRest : s.rest = c :: rest) (hN : c = 110 ∨ c = 78) :
    (s.advance 1).Behind :=
  behind_advance_one hRest (by rcases hN with rfl | rfl <;> decide)

theorem gives_signedA {sign : Int} (hSign : sign = 1 ∨ sign = -1) (s : CParser) :
    Gives NthAssigned (s.signedA sign) := by
  have hProduct : ∀ {i : Int}, Readable i → Readable (sign * i) := by
    intro i hi
    rcases hSign with rfl | rfl
    · rwa [one_mul]
    · rw [neg_one_mul]
      exact readable_neg hi
  unfold signedA
  split
  · exact gives_fail s _
  · next c rest hRest =>
    split
    · refine (gives_parseInteger s).bind fun i s' hi => ?_
      dsimp only
      unfold readA
      split
      · exact gives_fail s' _
      · next c' rest' hRest' =>
        split
        · next hN => exact gives_readN_some (hProduct hi.2) (behind_advance_n hRest' hN)
        · refine gives_ok (fun a ha => ?_) s'
          obtain rfl := Option.some.inj ha
          exact ⟨by decide, hProduct hi.2, .inl rfl⟩
    · split
      · next hN =>
        have hReadable : Readable sign := by rcases hSign with rfl | rfl <;> decide
        exact gives_readN_some hReadable (behind_advance_n hRest hN)
      · exact gives_fail s _

theorem gives_parseNth (s : CParser) : Gives NthAssigned s.parseNth := by
  unfold parseNth
  split
  · exact gives_fail s _
  · next c rest hRest =>
    split
    · exact gives_signedA (.inr rfl) _
    · split
      · exact gives_signedA (.inl rfl) _
      · split
        · exact gives_signedA (.inl rfl) s
        · split
          · refine (ensures_readN s none).imp ?_ fun _ h => h
            intro r hr a ha
            cases hr.symm.trans ha
          · split
            · refine (gives_parseName s).bind fun id s' _ => ?_
              have hKnown : ∀ b : Int, 0 ≤ b → Readable b → NthAssigned (some 2, b) := by
                intro b hb hReadable a ha
                obtain rfl := Option.some.inj ha
                exact ⟨by decide, hReadable, .inr hb⟩
              dsimp only
              split
              · exact gives_ok (hKnown 1 (by decide) (by decide)) s'
              · split
                · exact gives_ok (hKnown 0 (by decide) (by decide)) s'
                · exact gives_fail s' _
            · exact gives_fail s _

end Numbers

/-! ## Parts -/

theorem gives_parseTypeSelector (s : CParser) : Gives (Shape .sequence) s.parseTypeSelector :=
  (gives_parseIdentifier s).bind fun _ s _ => gives_ok (Shape.tag (gumbo_tagn_enum_le _ _)) s

theorem gives_parseIDSelector (s : CParser) : Gives (Shape .part) s.parseIDSelector := by
  unfold parseIDSelector
  split
  · exact gives_fail s _
  · exact (gives_parseName _).bind fun id s _ =>
      gives_ok (Shape.ofAttribute id (by decide) (by decide)) s

theorem gives_parseClassSelector (s : CParser) : Gives (Shape .part) s.parseClassSelector := by
  unfold parseClassSelector
  split
  · exact gives_fail s _
  · exact (gives_parseIdentifier _).bind fun clazz s _ =>
      gives_ok (Shape.ofAttribute clazz (by decide) (by decide)) s

theorem ensures_attributeOperator_ne (s : CParser) (op : Bytes) :
    Ensures (s.attributeOperator op) (· ≠ .exists) fun _ => True := by
  unfold attributeOperator
  repeat' split
  all_goals first | trivial | exact fun h => by cases h

theorem gives_parseAttributeValue {key : Bytes} (hKey : key ≠ []) (s : CParser) :
    Gives (Shape .part) (s.parseAttributeValue key) := by
  unfold parseAttributeValue
  cases s.parseOperator with
  | error e => trivial
  | ok r =>
    obtain ⟨op, s₁⟩ := r
    show Gives _ (if s₁.skipWhitespace.1.rest = [] then s₁.skipWhitespace.1.fail _ else _)
    split
    · exact gives_fail _ _
    · split
      · exact gives_fail _ _
      · cases s₁.skipWhitespace.1.parseValue with
        | error e => trivial
        | ok r =>
          obtain ⟨value, s₂⟩ := r
          show Gives _ (if s₂.skipWhitespace.1.rest.head? ≠ some 93 then
            s₂.skipWhitespace.1.fail _ else _)
          split
          · exact gives_fail _ _
          · exact Ensures.bind (ensures_attributeOperator_ne _ op) fun aop hOp =>
              gives_ok (Shape.ofAttribute value hOp hKey) _

theorem gives_parseAttributeSelector (s : CParser) :
    Gives (Shape .part) s.parseAttributeSelector := by
  unfold parseAttributeSelector
  split
  · exact gives_fail s _
  · refine (gives_parseIdentifier _).bind fun key s₁ hKey => ?_
    dsimp only
    split
    · exact gives_fail _ _
    · split
      · exact gives_ok (Shape.existing hKey) _
      · exact gives_parseAttributeValue hKey _

/-! ## Pseudoclasses -/

theorem gives_closed {α : Type} {P : α → Prop} {a : α} (h : P a) (s : CParser) :
    Gives P (s.closed a) := by
  unfold closed
  split
  · exact gives_fail s _
  · exact gives_ok h _

theorem gives_parseContains (s : CParser) (op : TextOperator) :
    Gives (Shape .part) (s.parseContains op) := by
  unfold parseContains
  split
  · exact gives_fail s _
  · next s₁ _ =>
    split
    · exact gives_fail s₁ _
    · cases s₁.parseValue with
      | error e => trivial
      | ok r =>
        obtain ⟨value, s₂⟩ := r
        exact gives_closed (Shape.ofText op (tolower_tolower value)) _

theorem gives_parseNthChild (s : CParser) (last ofType : Bool) :
    Gives (Shape .part) (s.parseNthChild last ofType) := by
  unfold parseNthChild
  split
  · exact gives_fail s _
  · next s₁ _ =>
    refine (gives_parseNth s₁).bind fun nth s₂ hNth => ?_
    refine (gives_closed hNth s₂).bind fun r s₃ hNth => ?_
    obtain ⟨a, b⟩ := r
    cases a with
    | none => trivial
    | some a => exact gives_ok (Shape.nthChild last ofType (hNth a rfl)) s₃

/-- The child at one end. -/
theorem shape_first (last ofType : Bool) : Shape .part (.nthChild 0 1 last ofType) :=
  Shape.nthChild (a := 0) (b := 1) last ofType ⟨by decide, by decide, .inl rfl⟩

theorem gives_parsePlainPseudoclass (s : CParser) (name : Bytes) :
    Gives (Shape .part) (s.parsePlainPseudoclass name) := by
  unfold parsePlainPseudoclass
  repeat' apply ensures_ite <;> intro _
  all_goals first
    | exact gives_parseContains s _
    | exact gives_parseNthChild s _ _
    | exact gives_ok (shape_first _ _) s
    | exact gives_ok (Shape.onlyChild _) s
    | exact gives_ok Shape.empty s
    | trivial

/-! ## Groups -/

theorem shape_combine (combinator : UInt8) {s1 s2 : Selector} (h1 : Shape .selector s1)
    (h2 : Shape .sequence s2) : Shape .selector (combine combinator s1 s2) := by
  unfold combine
  repeat' split
  all_goals exact .combined (by decide) (by decide) h1 h2

theorem gives_parseStart (s : CParser) :
    Gives (fun ret => ∀ sel, ret = some sel → Shape .sequence sel ∧ sel ≠ .dummy) s.parseStart := by
  unfold parseStart
  split
  · exact gives_fail s _
  · split
    · exact gives_ok (fun _ h => by cases h) _
    · split
      · exact gives_ok (fun _ h => by cases h) s
      · cases hType : s.parseTypeSelector with
        | error e => trivial
        | ok r =>
          refine gives_ok (fun sel hSel => ?_) r.2
          obtain rfl := Option.some.inj hSel
          refine ⟨(gives_parseTypeSelector s).of_ok hType, ?_⟩
          intro hDummy
          unfold parseTypeSelector at hType
          cases hName : s.parseIdentifier with
          | error e => rw [hName] at hType; cases hType
          | ok r =>
            rw [hName] at hType
            cases hType
            cases hDummy

/-- The functions that call each other give selectors of their shapes. -/
structure Shaped (fuel : Nat) : Prop where
  pseudoclass : ∀ s, Gives (Shape .part) (parsePseudoclassSelector fuel s)
  sequenceLoop : ∀ ret s, (∀ sel, ret = some sel → Shape .sequence sel ∧ sel ≠ .dummy) →
    Gives (Shape .sequence) (sequenceLoop fuel ret s)
  sequence : ∀ s, Gives (Shape .sequence) (parseSimpleSelectorSequence fuel s)
  selectorLoop : ∀ ret s, Shape .selector ret → Gives (Shape .selector) (selectorLoop fuel ret s)
  selector : ∀ s, Gives (Shape .selector) (parseSelector fuel s)
  groupLoop : ∀ ret s, Shape .group ret → Gives (Shape .group) (groupLoop fuel ret s)
  group : ∀ s, Gives (Shape .group) (parseSelectorGroup fuel s)

section Shaped

variable {fuel : Nat}

theorem Shaped.pseudoclass_succ (h : Shaped fuel) (s : CParser) :
    Gives (Shape .part) (parsePseudoclassSelector (fuel + 1) s) := by
  unfold parsePseudoclassSelector
  split
  · exact gives_fail s _
  · refine (gives_parseIdentifier _).bind fun name s₁ _ => ?_
    dsimp only
    split
    · exact gives_parsePlainPseudoclass s₁ _
    · next op _ =>
      split
      · exact gives_fail s₁ _
      · next s₂ _ =>
        exact (h.group s₂).bind fun sel s₃ hSel => gives_closed (Shape.unary op hSel) s₃

/-- A part is joined to what stands before it. -/
theorem shape_intersect {ret : Option Selector} {sel : Selector}
    (hRet : ∀ sel, ret = some sel → Shape .sequence sel ∧ sel ≠ .dummy) (hSel : Shape .part sel) :
    ∀ sel', some (intersect ret sel) = some sel' → Shape .sequence sel' ∧ sel' ≠ .dummy := by
  rintro sel' h
  obtain rfl := Option.some.inj h
  cases ret with
  | none => exact ⟨.ofPart hSel, hSel.ne_dummy⟩
  | some ret =>
    obtain ⟨hShape, hDummy⟩ := hRet ret rfl
    exact ⟨.intersection hShape hDummy hSel, fun h => by cases h⟩

theorem Shaped.sequenceLoop_succ (h : Shaped fuel) (ret : Option Selector) (s : CParser)
    (hRet : ∀ sel, ret = some sel → Shape .sequence sel ∧ sel ≠ .dummy) :
    Gives (Shape .sequence) (CParser.sequenceLoop (fuel + 1) ret s) := by
  have hPart : ∀ {x : Except Stop (Selector × CParser)}, Gives (Shape .part) x →
      Gives (Shape .sequence)
        (x >>= fun r => CParser.sequenceLoop fuel (some (intersect ret r.1)) r.2) := fun hx =>
    hx.bind fun _ s hSel => h.sequenceLoop _ s (shape_intersect hRet hSel)
  have hEnd : Shape .sequence (ret.getD .dummy) := by
    cases ret with
    | none => exact .dummy
    | some sel => exact (hRet sel rfl).1
  unfold CParser.sequenceLoop
  split
  · exact gives_ok hEnd s
  · split
    · exact hPart (gives_parseIDSelector s)
    · split
      · exact hPart (gives_parseClassSelector s)
      · split
        · exact hPart (gives_parseAttributeSelector s)
        · split
          · exact hPart (h.pseudoclass s)
          · exact gives_ok hEnd s

theorem Shaped.selectorLoop_succ (h : Shaped fuel) (ret : Selector) (s : CParser)
    (hRet : Shape .selector ret) :
    Gives (Shape .selector) (CParser.selectorLoop (fuel + 1) ret s) := by
  unfold CParser.selectorLoop
  split
  · exact gives_ok hRet _
  · exact (h.sequence _).bind fun sel s₁ hSel => h.selectorLoop _ s₁ (shape_combine _ hRet hSel)

theorem Shaped.groupLoop_succ (h : Shaped fuel) (ret : Selector) (s : CParser)
    (hRet : Shape .group ret) : Gives (Shape .group) (CParser.groupLoop (fuel + 1) ret s) := by
  unfold CParser.groupLoop
  split
  · exact (h.selector _).bind fun sel s₁ hSel => h.groupLoop _ s₁ (.union hRet hSel)
  · exact gives_ok hRet s

theorem shaped (fuel : Nat) : Shaped fuel := by
  induction fuel with
  | zero => constructor <;> intros <;> exact trivial
  | succ fuel ih =>
    exact ⟨ih.pseudoclass_succ, ih.sequenceLoop_succ,
      fun s => (gives_parseStart s).bind fun ret s₁ hRet => ih.sequenceLoop ret s₁ hRet,
      ih.selectorLoop_succ,
      fun s => (ih.sequence _).bind fun ret s₁ hRet => ih.selectorLoop ret s₁ (.ofSequence hRet),
      ih.groupLoop_succ,
      fun s => (ih.selector s).bind fun ret s₁ hRet => ih.groupLoop ret s₁ (.ofSelector hRet)⟩

end Shaped

/-- The parser makes selectors of this shape only. -/
theorem shape_of_create {unsignedChar : Bool} {aInput : Bytes} {sel : Selector}
    (h : create unsignedChar aInput = .ok sel) : Shape .group sel := by
  unfold create createWithin at h
  cases hGroup : parseSelectorGroup (7 * aInput.length + 7) ⟨unsignedChar, [], aInput⟩ with
  | error e => rw [hGroup] at h; cases h
  | ok r =>
    rw [hGroup] at h
    cases h
    exact ((shaped _).group _).of_ok hGroup

end RetroConfig.Html.CParser
