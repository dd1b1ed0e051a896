import RetroConfig.Html.SelectorWords

/-!
# Writing selectors

`write` gives a text for a selector, and `Shape` describes the selectors that the parser makes: groups
of selectors, joined by combinators from sequences, of which a part may contain a group again. The
parser reads each of them back from its text (`create_write`), and it makes no others
(`shape_of_create`).
-/

namespace RetroConfig.Html

open Outcome

/-! ## The text of a selector -/

/-- A name with this tag. -/
def tagName (tag : GumboTag) : Bytes :=
  if tag < GumboTag.unknown then kGumboTagNames.getD tag [] else ascii "x"

def UnaryOperator.name : UnaryOperator → Bytes
  | .not => ascii "not"
  | .hasDescendant => ascii "has"
  | .hasChild => ascii "haschild"

def TextOperator.name : TextOperator → Bytes
  | .contains => ascii "contains"
  | .ownContains => ascii "containsown"

def nthName : (last ofType : Bool) → Bytes
  | false, false => ascii "nth-child"
  | true, false => ascii "nth-last-child"
  | false, true => ascii "nth-of-type"
  | true, true => ascii "nth-last-of-type"

def onlyName (ofType : Bool) : Bytes := if ofType then ascii "only-of-type" else ascii "only-child"

/-- The bytes between the name and the value. -/
def AttributeOperator.sign : AttributeOperator → Bytes
  | .exists => []
  | .equals => ascii "="
  | .includes => ascii "~="
  | .dashMatch => ascii "|="
  | .prefixed => ascii "^="
  | .suffixed => ascii "$="
  | .subString => ascii "*="

/-- The bytes between two selectors. -/
def BinaryOperator.sign : BinaryOperator → Bytes
  | .union => ascii ","
  | .intersection => []
  | .child => ascii ">"
  | .descendant => ascii " "
  | .adjacent true => ascii "+"
  | .adjacent false => ascii "~"

/-- The `int` that was handed over. -/
def signed (n : UInt32) : Int := if n.toNat < 2 ^ 31 then n.toNat else n.toNat - 2 ^ 32

def writeAttribute (op : AttributeOperator) (key value : Bytes) : Bytes :=
  match op with
  | .exists => 91 :: writeIdentifier key ++ [93]
  | op => 91 :: writeIdentifier key ++ op.sign ++ writeString value ++ [93]

/-- A text for a selector. -/
def Selector.write : Selector → Bytes
  | .dummy => [42]
  | .empty => 58 :: ascii "empty"
  | .onlyChild ofType => 58 :: onlyName ofType
  | .nthChild a b last ofType =>
    58 :: nthName last ofType ++ 40 :: writeNth (signed a) (signed b) ++ [41]
  | .tag mTag => writeIdentifier (tagName mTag)
  | .unary op s => 58 :: op.name ++ 40 :: s.write ++ [41]
  | .binary op s1 s2 => s1.write ++ op.sign ++ s2.write
  | .ofAttribute op key value => writeAttribute op key value
  | .ofText op value => 58 :: op.name ++ 40 :: writeString value ++ [41]

/-! ## Shapes -/

inductive Level where
  | part
  | sequence
  | selector
  | group

/-- The selectors that the parser makes, level by level. -/
inductive Shape : Level → Selector → Prop
  | existing {key : Bytes} (hKey : key ≠ []) : Shape .part (.ofAttribute .exists key [])
  | ofAttribute {op : AttributeOperator} {key : Bytes} (value : Bytes) (hOp : op ≠ .exists)
    (hKey : key ≠ []) : Shape .part (.ofAttribute op key value)
  | ofText (op : TextOperator) {value : Bytes} (hLower : tolower value = value) :
    Shape .part (.ofText op value)
  | nthChild {a b : Int} (last ofType : Bool) (h : NthReadable a b) :
    Shape .part (.nthChild (ofInt a) (ofInt b) last ofType)
  | onlyChild (ofType : Bool) : Shape .part (.onlyChild ofType)
  | empty : Shape .part .empty
  | unary (op : UnaryOperator) {s : Selector} (h : Shape .group s) : Shape .part (.unary op s)
  | dummy : Shape .sequence .dummy
  | tag {tag : GumboTag} (h : tag ≤ GumboTag.unknown) : Shape .sequence (.tag tag)
  | ofPart {s : Selector} (h : Shape .part s) : Shape .sequence s
  | intersection {s1 s2 : Selector} (h1 : Shape .sequence s1) (hDummy : s1 ≠ .dummy)
    (h2 : Shape .part s2) : Shape .sequence (.binary .intersection s1 s2)
  | ofSequence {s : Selector} (h : Shape .sequence s) : Shape .selector s
  | combined {op : BinaryOperator} {s1 s2 : Selector} (hUnion : op ≠ .union)
    (hIntersection : op ≠ .intersection) (h1 : Shape .selector s1) (h2 : Shape .sequence s2) :
    Shape .selector (.binary op s1 s2)
  | ofSelector {s : Selector} (h : Shape .selector s) : Shape .group s
  | union {s1 s2 : Selector} (h1 : Shape .group s1) (h2 : Shape .selector s2) :
    Shape .group (.binary .union s1 s2)

theorem Shape.ne_dummy {s : Selector} (h : Shape .part s) : s ≠ .dummy := by
  rintro rfl
  cases h

theorem signed_ofInt {n : Int} (h : Readable n) : signed (ofInt n) = n := by
  have hNat := toNat_ofInt n
  have hLt := (ofInt n).toNat_lt
  unfold Readable at h
  unfold signed
  split <;> omega

theorem tagName_ne_nil (tag : GumboTag) : tagName tag ≠ [] := by
  unfold tagName
  split
  · next hLt =>
    obtain ⟨name, hName, hNonempty, -⟩ := listed hLt
    rwa [List.getD_eq_getElem?_getD, hName, Option.getD_some]
  · decide

theorem gumbo_tag_enum_tagName {tag : GumboTag} (h : tag ≤ GumboTag.unknown) :
    gumbo_tag_enum (tagName tag) = tag := by
  unfold tagName
  split
  · next hLt =>
    obtain ⟨name, hName, -, hLower, -⟩ := listed hLt
    have hShort : (c_str name).length < 2 ^ 32 ∧ c_str name = name := by
      have hAll : ∀ name ∈ kGumboTagNames, name.length < 2 ^ 32 ∧ c_str name = name := by
        decide +kernel
      obtain ⟨hLength, hEq⟩ := hAll name (List.mem_of_getElem? hName)
      exact ⟨hEq.symm ▸ hLength, hEq⟩
    rw [List.getD_eq_getElem?_getD, hName, Option.getD_some, gumbo_tag_enum,
      Nat.mod_eq_of_lt hShort.1, hShort.2]
    exact (gumbo_tagn_enum_eq_iff hLt).mpr (hName.trans (congrArg some hLower.symm))
  · next hNot =>
    obtain rfl : tag = GumboTag.unknown := Nat.le_antisymm h (Nat.not_lt.mp hNot)
    decide

/-! ## Parts -/

namespace CParser

variable {s : CParser} {tail : Bytes} {sel : Selector}

/-- What may follow a sequence. -/
def SequenceEnd (tail : Bytes) : Prop :=
  NameEnd tail ∧ ∀ c, tail.head? = some c → c ≠ 35 ∧ c ≠ 46 ∧ c ≠ 91 ∧ c ≠ 58

/-- What may follow a selector. -/
def SelectorEnd (tail : Bytes) : Prop :=
  SequenceEnd tail ∧
    ∀ c, tail.head? = some c → blank c = false ∧ c ≠ 47 ∧ c ≠ 43 ∧ c ≠ 62 ∧ c ≠ 126

theorem startByte_facts {c : UInt8} (h : startByte c = true ∨ c = 92) :
    blank c = false ∧ c ≠ 47 ∧ c ≠ 42 ∧ c ≠ 35 ∧ c ≠ 46 ∧ c ≠ 91 ∧ c ≠ 58 ∧ c ≠ 39 ∧ c ≠ 34 := by
  have hAll : ∀ n < 256, (startByte (UInt8.ofNat n) = true ∨ UInt8.ofNat n = 92) →
      blank (UInt8.ofNat n) = false ∧ UInt8.ofNat n ≠ 47 ∧ UInt8.ofNat n ≠ 42 ∧ UInt8.ofNat n ≠ 35 ∧
        UInt8.ofNat n ≠ 46 ∧ UInt8.ofNat n ≠ 91 ∧ UInt8.ofNat n ≠ 58 ∧ UInt8.ofNat n ≠ 39 ∧
          UInt8.ofNat n ≠ 34 := by decide +kernel
  have hFacts := hAll c.toNat c.toNat_lt
  rw [UInt8.ofNat_toNat] at hFacts
  exact hFacts h

theorem consumeParenthesis_eq {c : UInt8} {rest : Bytes} (hRest : s.rest = 40 :: c :: rest)
    (hBlank : blank c = false) (hSlash : c ≠ 47) : s.consumeParenthesis = some (s.advance 1) := by
  have hNext : (s.advance 1).rest = c :: rest := rest_advance (w := [40]) hRest
  rw [consumeParenthesis, hRest, List.head?_cons, if_pos rfl,
    skipWhitespace_eq (c := c) (by rw [hNext]; rfl) hBlank hSlash]

theorem closed_eq {α : Type} (a : α) (hRest : s.rest = 41 :: tail) :
    s.closed a = .ok (a, s.advance 1) := by
  have hHead : s.rest.head? = some 41 := by rw [hRest]; rfl
  rw [closed, consumeClosingParenthesis, skipWhitespace_eq hHead (by decide) (by decide)]
  dsimp only
  rw [hHead, if_pos rfl]

/-- A pseudoclass, after its name. -/
theorem parsePseudoclassSelector_eq {name : Bytes} (hName : name ≠ [])
    (hSpelled : writeIdentifier name = name) (hRest : s.rest = 58 :: name ++ tail)
    (hTail : NameEnd tail) (fuel : Nat) :
    parsePseudoclassSelector (fuel + 1) s =
      match unaryOperator (tolower name) with
      | none => (s.advance (name.length + 1)).parsePlainPseudoclass (tolower name)
      | some op =>
        match (s.advance (name.length + 1)).consumeParenthesis with
        | none => (s.advance (name.length + 1)).fail "expected '(' but didn't find it"
        | some s => parseSelectorGroup fuel s >>= fun r => r.2.closed (.unary op r.1) := by
  have hNext : (s.advance 1).rest = writeIdentifier name ++ tail := by
    rw [hSpelled]
    exact rest_advance (w := [58]) hRest
  rw [parsePseudoclassSelector, hRest, if_neg (by simp), parseIdentifier_eq hName hNext hTail, hSpelled,
    advance_advance, Nat.add_comm 1]
  rfl

/-- A name or a value is followed by a byte that ends it. -/
theorem nameEnd_cons {c : UInt8} (tail : Bytes) (hLow : c ≤ 127) (hName : nameByte c = false)
    (hEscape : c ≠ 92) : NameEnd (c :: tail) := by
  intro a ha
  obtain rfl := Option.some.inj ha
  exact ⟨hLow, hName, hEscape⟩

theorem skipWhitespace_cons {c : UInt8} (hRest : s.rest = c :: tail) (hBlank : blank c = false)
    (hSlash : c ≠ 47) : s.skipWhitespace.1 = s :=
  congrArg Prod.fst (skipWhitespace_eq (by rw [hRest]; rfl) hBlank hSlash)

/-- The name between the brackets. -/
theorem parseAttributeSelector_key {key : Bytes} {c : UInt8} (hKey : key ≠ [])
    (hRest : s.rest = 91 :: writeIdentifier key ++ c :: tail) (hEnd : NameEnd (c :: tail))
    (hBlank : blank c = false) (hSlash : c ≠ 47) :
    s.parseAttributeSelector =
      if c = 93 then .ok (.ofAttribute .exists key [],
        (s.advance (1 + (writeIdentifier key).length)).advance 1)
      else (s.advance (1 + (writeIdentifier key).length)).parseAttributeValue key := by
  have hNext : (s.advance 1).rest = writeIdentifier key ++ c :: tail := rest_advance (w := [91]) hRest
  obtain ⟨a, rest, hHead, hStart⟩ := exists_head_writeIdentifier hKey (c :: tail)
  have hFacts := startByte_facts hStart
  have hFirst : (s.advance 1).skipWhitespace.1 = s.advance 1 :=
    skipWhitespace_cons (hNext.trans hHead) hFacts.1 hFacts.2.1
  have hAfter : (s.advance (1 + (writeIdentifier key).length)).rest = c :: tail := by
    rw [← advance_advance]
    exact rest_advance hNext
  have hSecond : (s.advance (1 + (writeIdentifier key).length)).skipWhitespace.1 =
      s.advance (1 + (writeIdentifier key).length) := skipWhitespace_cons hAfter hBlank hSlash
  have hBracket : s.rest.head? = some 91 := by rw [hRest]; rfl
  rw [parseAttributeSelector, hBracket, if_neg (by simp), hFirst, parseIdentifier_eq hKey hNext hEnd,
    advance_advance]
  show (if (s.advance (1 + (writeIdentifier key).length)).skipWhitespace.1.rest = [] then _
    else if (s.advance (1 + (writeIdentifier key).length)).skipWhitespace.1.rest.head? = some 93 then _
    else _) = _
  rw [hSecond, hAfter, if_neg (List.cons_ne_nil _ _), List.head?_cons]
  by_cases hc : c = 93
  · rw [if_pos hc, if_pos (congrArg some hc)]
  · rw [if_neg hc, if_neg (fun h => hc (Option.some.inj h))]

theorem sign_facts {op : AttributeOperator} (hOp : op ≠ .exists) :
    ∃ c rest, op.sign = c :: rest ∧ c ≤ 127 ∧ nameByte c = false ∧ c ≠ 92 ∧ blank c = false ∧ c ≠ 47 ∧
      c ≠ 93 := by
  match op with
  | .exists => exact absurd rfl hOp
  | .equals | .includes | .dashMatch | .prefixed | .suffixed | .subString =>
    exact ⟨_, _, rfl, by decide⟩

theorem parseOperator_eq {op : AttributeOperator} (hOp : op ≠ .exists)
    (hRest : s.rest = op.sign ++ 34 :: tail) :
    s.parseOperator = .ok (op.sign, s.advance op.sign.length) := by
  unfold parseOperator
  rw [hRest]
  match op with
  | .exists => exact absurd rfl hOp
  | .equals | .includes | .dashMatch | .prefixed | .suffixed | .subString => rfl

theorem attributeOperator_eq {op : AttributeOperator} (hOp : op ≠ .exists) (s : CParser) :
    s.attributeOperator op.sign = .ok op := by
  match op with
  | .exists => exact absurd rfl hOp
  | .equals | .includes | .dashMatch | .prefixed | .suffixed | .subString => rfl

/-- The operator and the value. -/
theorem parseAttributeValue_eq {op : AttributeOperator} (hOp : op ≠ .exists) (key value : Bytes)
    (hRest : s.rest = op.sign ++ writeString value ++ 93 :: tail) :
    s.parseAttributeValue key = .ok (.ofAttribute op key value,
      s.advance (op.sign.length + (writeString value).length + 1)) := by
  have hSign : op.sign ≠ ascii "#=" := by
    match op with
    | .exists => exact absurd rfl hOp
    | .equals | .includes | .dashMatch | .prefixed | .suffixed | .subString => decide
  have hQuote : s.rest = op.sign ++ 34 :: ((writeString value).tail ++ 93 :: tail) := by
    rw [hRest, List.append_assoc]
    rfl
  have hValue : (s.advance op.sign.length).rest = writeString value ++ 93 :: tail :=
    rest_advance (by rw [hRest, List.append_assoc])
  have hHead : (s.advance op.sign.length).rest =
      34 :: ((writeString value).tail ++ 93 :: tail) := hValue
  have hClose : (s.advance (op.sign.length + (writeString value).length)).rest = 93 :: tail := by
    rw [← advance_advance]
    exact rest_advance hValue
  have hString : (s.advance op.sign.length).parseValue =
      .ok (value, s.advance (op.sign.length + (writeString value).length)) := by
    rw [parseValue, hHead, if_pos (by simp), parseString_eq hValue, advance_advance]
  rw [parseAttributeValue, parseOperator_eq hOp hQuote]
  show (if (s.advance op.sign.length).skipWhitespace.1.rest = [] then _ else _) = _
  rw [skipWhitespace_cons hHead (by decide) (by decide), if_neg (by rw [hHead]; simp), if_neg hSign,
    hString]
  show (if (s.advance (op.sign.length + (writeString value).length)).skipWhitespace.1.rest.head? ≠ _
    then _ else _) = _
  rw [skipWhitespace_cons hClose (by decide) (by decide), hClose, if_neg (by simp),
    attributeOperator_eq hOp, advance_advance]
  rfl

theorem parseAttributeSelector_eq {op : AttributeOperator} {key value : Bytes} (hKey : key ≠ [])
    (hValue : op = .exists → value = []) (hRest : s.rest = writeAttribute op key value ++ tail) :
    s.parseAttributeSelector =
      .ok (.ofAttribute op key value, s.advance (writeAttribute op key value).length) := by
  by_cases hOp : op = .exists
  · subst hOp
    obtain rfl := hValue rfl
    have hEnd : s.rest = 91 :: writeIdentifier key ++ 93 :: tail := by
      rw [hRest, writeAttribute]
      simp
    rw [parseAttributeSelector_key hKey hEnd (nameEnd_cons tail (by decide) (by decide) (by decide))
      (by decide) (by decide), if_pos rfl, advance_advance]
    have hLength : 1 + (writeIdentifier key).length + 1 =
        (writeAttribute .exists key []).length := by
      simp only [writeAttribute, List.length_append, List.length_cons, List.length_nil]
      omega
    rw [hLength]
  · obtain ⟨c, rest, hSign, hLow, hName, hEscape, hBlank, hSlash, hBracket⟩ := sign_facts hOp
    have hWritten : writeAttribute op key value =
        91 :: writeIdentifier key ++ op.sign ++ writeString value ++ [93] := by
      unfold writeAttribute
      split
      · exact absurd rfl hOp
      · rfl
    have hFull : s.rest = 91 :: writeIdentifier key ++
        (op.sign ++ writeString value ++ 93 :: tail) := by
      rw [hRest, hWritten]
      simp
    have hEnd : s.rest = 91 :: writeIdentifier key ++
        c :: (rest ++ writeString value ++ 93 :: tail) := by
      rw [hFull, hSign]
      rfl
    have hNext : (s.advance (1 + (writeIdentifier key).length)).rest =
        op.sign ++ writeString value ++ 93 :: tail := by
      rw [Nat.add_comm]
      exact rest_advance (w := 91 :: writeIdentifier key) hFull
    rw [parseAttributeSelector_key hKey hEnd (nameEnd_cons _ hLow hName hEscape) hBlank hSlash,
      if_neg hBracket, parseAttributeValue_eq hOp key value hNext, advance_advance]
    have hLength : 1 + (writeIdentifier key).length +
        (op.sign.length + (writeString value).length + 1) =
          (writeAttribute op key value).length := by
      rw [hWritten]
      simp only [List.length_append, List.length_cons, List.length_nil]
      omega
    rw [hLength]

/-! ## Pseudoclasses -/

theorem nameEnd_open (tail : Bytes) : NameEnd (40 :: tail) :=
  nameEnd_cons tail (by decide) (by decide) (by decide)

theorem parseContains_eq (op : TextOperator) {value : Bytes} (hLower : tolower value = value)
    (hRest : s.rest = 40 :: writeString value ++ 41 :: tail) :
    s.parseContains op = .ok (.ofText op value, s.advance (1 + (writeString value).length + 1)) := by
  have hOpen : s.consumeParenthesis = some (s.advance 1) :=
    consumeParenthesis_eq (c := 34) hRest (by decide) (by decide)
  have hValue : (s.advance 1).rest = writeString value ++ 41 :: tail := rest_advance (w := [40]) hRest
  have hHead : (s.advance 1).rest = 34 :: ((writeString value).tail ++ 41 :: tail) := hValue
  have hClose : (s.advance (1 + (writeString value).length)).rest = 41 :: tail := by
    rw [← advance_advance]
    exact rest_advance hValue
  rw [parseContains, hOpen]
  dsimp only
  rw [if_neg (by rw [hHead]; simp), parseValue, hHead, if_pos (by simp), parseString_eq hValue,
    advance_advance]
  show (s.advance (1 + (writeString value).length)).skipWhitespace.1.closed _ = _
  rw [skipWhitespace_cons hClose (by decide) (by decide), closed_eq _ hClose, advance_advance, hLower]

theorem exists_head_writeNth (a b : Int) (tail : Bytes) :
    ∃ c rest, writeNth a b ++ tail = c :: rest ∧ blank c = false ∧ c ≠ 47 := by
  have hInteger : ∀ n tail, ∃ c rest, writeInteger n ++ tail = c :: rest ∧ blank c = false ∧
      c ≠ 47 := by
    intro n tail
    unfold writeInteger
    split
    · exact ⟨45, _, rfl, by decide, by decide⟩
    · obtain ⟨c, rest, hHead, hMem⟩ := exists_head_decimal n.natAbs tail
      exact ⟨c, rest, hHead, (digit_decimal hMem).2.1, (digit_decimal hMem).2.2.1⟩
  unfold writeNth
  split
  · exact hInteger b tail
  · rw [List.append_assoc]
    exact hInteger a _

theorem parseNthChild_eq {a b : Int} (h : NthReadable a b) (last ofType : Bool)
    (hRest : s.rest = 40 :: writeNth a b ++ 41 :: tail) :
    s.parseNthChild last ofType = .ok (.nthChild (ofInt a) (ofInt b) last ofType,
      s.advance (1 + (writeNth a b).length + 1)) := by
  obtain ⟨c, rest, hHead, hBlank, hSlash⟩ := exists_head_writeNth a b (41 :: tail)
  have hNth : (s.advance 1).rest = writeNth a b ++ 41 :: tail := rest_advance (w := [40]) hRest
  have hOpen : s.consumeParenthesis = some (s.advance 1) :=
    consumeParenthesis_eq (hRest.trans (congrArg (40 :: ·) hHead)) hBlank hSlash
  have hClose : (s.advance (1 + (writeNth a b).length)).rest = 41 :: tail := by
    rw [← advance_advance]
    exact rest_advance hNth
  rw [parseNthChild, hOpen]
  dsimp only
  rw [parseNth_eq h hNth, advance_advance]
  show ((s.advance (1 + (writeNth a b).length)).closed (some a, b) >>= _) = _
  rw [closed_eq _ hClose, advance_advance]
  rfl

/-- The parts that contain no group, and that start with a colon. -/
theorem parsePseudoclassSelector_text (op : TextOperator) {value : Bytes}
    (hLower : tolower value = value) (hRest : s.rest = (Selector.ofText op value).write ++ tail)
    (fuel : Nat) :
    parsePseudoclassSelector (fuel + 1) s =
      .ok (.ofText op value, s.advance (Selector.ofText op value).write.length) := by
  have hFull : s.rest = 58 :: op.name ++ (40 :: writeString value ++ 41 :: tail) := by
    rw [hRest, Selector.write]
    simp
  have hNext : (s.advance (op.name.length + 1)).rest = 40 :: writeString value ++ 41 :: tail :=
    rest_advance (w := 58 :: op.name) hFull
  have hLength : op.name.length + 1 + (1 + (writeString value).length + 1) =
      (Selector.ofText op value).write.length := by
    simp only [Selector.write, List.length_append, List.length_cons, List.length_nil]
    omega
  have hName : op.name ≠ [] ∧ writeIdentifier op.name = op.name ∧
      unaryOperator (tolower op.name) = none := by cases op <;> decide
  have hPlain : ∀ s : CParser, s.parsePlainPseudoclass (tolower op.name) = s.parseContains op := by
    intro s
    cases op <;> rfl
  rw [parsePseudoclassSelector_eq hName.1 hName.2.1 hFull (nameEnd_open _), hName.2.2]
  dsimp only
  rw [hPlain, parseContains_eq op hLower hNext, advance_advance, hLength]

theorem parsePseudoclassSelector_nth {a b : Int} (h : NthReadable a b) (last ofType : Bool)
    (hRest : s.rest = (Selector.nthChild (ofInt a) (ofInt b) last ofType).write ++ tail)
    (fuel : Nat) :
    parsePseudoclassSelector (fuel + 1) s = .ok (.nthChild (ofInt a) (ofInt b) last ofType,
      s.advance (Selector.nthChild (ofInt a) (ofInt b) last ofType).write.length) := by
  have hWritten : (Selector.nthChild (ofInt a) (ofInt b) last ofType).write =
      58 :: nthName last ofType ++ 40 :: writeNth a b ++ [41] := by
    rw [Selector.write, signed_ofInt h.1, signed_ofInt h.2.1]
  have hFull : s.rest = 58 :: nthName last ofType ++ (40 :: writeNth a b ++ 41 :: tail) := by
    rw [hRest, hWritten]
    simp
  have hNext : (s.advance ((nthName last ofType).length + 1)).rest =
      40 :: writeNth a b ++ 41 :: tail := rest_advance (w := 58 :: nthName last ofType) hFull
  have hLength : (nthName last ofType).length + 1 + (1 + (writeNth a b).length + 1) =
      (58 :: nthName last ofType ++ 40 :: writeNth a b ++ [41]).length := by
    simp only [List.length_append, List.length_cons, List.length_nil]
    omega
  have hName : nthName last ofType ≠ [] ∧
      writeIdentifier (nthName last ofType) = nthName last ofType ∧
        unaryOperator (tolower (nthName last ofType)) = none := by
    cases last <;> cases ofType <;> decide
  have hPlain : ∀ s : CParser, s.parsePlainPseudoclass (tolower (nthName last ofType)) =
      s.parseNthChild last ofType := by
    intro s
    cases last <;> cases ofType <;> rfl
  rw [parsePseudoclassSelector_eq hName.1 hName.2.1 hFull (nameEnd_open _), hName.2.2]
  dsimp only
  rw [hPlain, parseNthChild_eq h last ofType hNext, advance_advance, hWritten, hLength]

/-- The parts that are a name only. -/
theorem parsePseudoclassSelector_name {name : Bytes} (hName : name ≠ [])
    (hSpelled : writeIdentifier name = name) (hOperator : unaryOperator (tolower name) = none)
    (hPlain : ∀ s : CParser, s.parsePlainPseudoclass (tolower name) = .ok (sel, s))
    (hRest : s.rest = 58 :: name ++ tail) (hTail : NameEnd tail) (fuel : Nat) :
    parsePseudoclassSelector (fuel + 1) s = .ok (sel, s.advance (58 :: name).length) := by
  rw [parsePseudoclassSelector_eq hName hSpelled hRest hTail, hOperator]
  exact hPlain _

end CParser

end RetroConfig.Html
