import RetroConfig.Html.Selector
import RetroConfig.Html.NthChild
import RetroConfig.Html.SelectorScan

/-!
# The parser of selectors

`CParser::create` reads a group of selectors by recursive descent (`gumbo-query/Parser.cpp`); `:not`,
`:has` and `:haschild` contain a group again. The functions that call each other take the number of
steps that are left. `create` gives them enough of it (`create_finishes`).
-/

namespace RetroConfig.Html

namespace CParser

/-! ## Selectors without parts -/

/-- `CParser::parseTypeSelector`. -/
def parseTypeSelector (s : CParser) : Except Stop (Selector × CParser) := do
  let (tag, s) ← s.parseIdentifier
  .ok (.tag (gumbo_tag_enum tag), s)

/-- `CParser::parseIDSelector`. -/
def parseIDSelector (s : CParser) : Except Stop (Selector × CParser) :=
  if s.rest.head? ≠ some 35 then s.fail "expected id selector (#id), found invalid char"
  else do
    let (id, s) ← (s.advance 1).parseName
    .ok (.ofAttribute .equals (ascii "id") id, s)

/-- `CParser::parseClassSelector`. -/
def parseClassSelector (s : CParser) : Except Stop (Selector × CParser) :=
  if s.rest.head? ≠ some 46 then s.fail "expected class selector (.class), found invalid char"
  else do
    let (clazz, s) ← (s.advance 1).parseIdentifier
    .ok (.ofAttribute .includes (ascii "class") clazz, s)

/-- A value between quotes, or an identifier. -/
def parseValue (s : CParser) : Except Stop (Bytes × CParser) :=
  if s.rest.head? = some 39 ∨ s.rest.head? = some 34 then s.parseString else s.parseIdentifier

/-- The operator of `parseAttributeSelector`, one or two bytes. -/
def parseOperator (s : CParser) : Except Stop (Bytes × CParser) :=
  match s.rest with
  | c :: c' :: _ =>
    if c = 61 then .ok ([61], s.advance 1)
    else if c' ≠ 61 then s.fail "expected equality operator, found invalid char"
    else .ok ([c, c'], s.advance 2)
  | _ => s.fail "unexpected EOF in attribute selector"

/-- What the operators stand for. -/
def attributeOperator (s : CParser) (op : Bytes) : Except Stop AttributeOperator :=
  if op = ascii "=" then .ok .equals
  else if op = ascii "~=" then .ok .includes
  else if op = ascii "|=" then .ok .dashMatch
  else if op = ascii "^=" then .ok .prefixed
  else if op = ascii "$=" then .ok .suffixed
  else if op = ascii "*=" then .ok .subString
  else if op = ascii "#=" then s.fail "unsupported regex"
  else .error (.thrown (s.error (ascii "unsupported op:" ++ op)))

/-- The rest of `parseAttributeSelector`, from the operator on. -/
def parseAttributeValue (s : CParser) (key : Bytes) : Except Stop (Selector × CParser) := do
  let (op, s) ← s.parseOperator
  let s := s.skipWhitespace.1
  if s.rest = [] then s.fail "unexpected EOF in attribute selector"
  else if op = ascii "#=" then s.fail "unsupported regex"
  else do
    let (value, s) ← s.parseValue
    let s := s.skipWhitespace.1
    if s.rest.head? ≠ some 93 then
      s.fail "expected attribute selector ([attribute]), found invalid char"
    else do
      let aop ← (s.advance 1).attributeOperator op
      .ok (.ofAttribute aop key value, s.advance 1)

/-- `CParser::parseAttributeSelector`. -/
def parseAttributeSelector (s : CParser) : Except Stop (Selector × CParser) :=
  if s.rest.head? ≠ some 91 then
    s.fail "expected attribute selector ([attribute]), found invalid char"
  else do
    let (key, s) ← (s.advance 1).skipWhitespace.1.parseIdentifier
    let s := s.skipWhitespace.1
    if s.rest = [] then s.fail "unexpected EOF in attribute selector"
    else if s.rest.head? = some 93 then .ok (.ofAttribute .exists key [], s.advance 1)
    else s.parseAttributeValue key

/-! ## Pseudoclasses -/

/-- What ends with a `consumeClosingParenthesis`. -/
def closed {α : Type} (s : CParser) (a : α) : Except Stop (α × CParser) :=
  match s.consumeClosingParenthesis with
  | none => s.fail "expected ')' but didn't find it"
  | some s => .ok (a, s)

/-- `:contains` and `:containsown`, after the name. -/
def parseContains (s : CParser) (op : TextOperator) : Except Stop (Selector × CParser) :=
  match s.consumeParenthesis with
  | none => s.fail "expected '(' but didn't find it"
  | some s =>
    if s.rest = [] then s.fail "expected '(' but didn't find it"
    else do
      let (value, s) ← s.parseValue
      s.skipWhitespace.1.closed (.ofText op (tolower value))

/-- `:nth-child` and its relatives, after the name. -/
def parseNthChild (s : CParser) (last ofType : Bool) : Except Stop (Selector × CParser) :=
  match s.consumeParenthesis with
  | none => s.fail "expected '(' but didn't find it"
  | some s => do
    let (nth, s) ← s.parseNth
    let ((a, b), s) ← s.closed nth
    match a with
    | none => .error .uninitialized
    | some a => .ok (.nthChild (ofInt a) (ofInt b) last ofType, s)

/-- The pseudoclasses that contain a group. -/
def unaryOperator (name : Bytes) : Option UnaryOperator :=
  if name = ascii "not" then some .not
  else if name = ascii "has" then some .hasDescendant
  else if name = ascii "haschild" then some .hasChild
  else none

/-- The other pseudoclasses, after the name. -/
def parsePlainPseudoclass (s : CParser) (name : Bytes) : Except Stop (Selector × CParser) :=
  if name = ascii "contains" then s.parseContains .contains
  else if name = ascii "containsown" then s.parseContains .ownContains
  else if name = ascii "matches" ∨ name = ascii "matchesown" then s.fail "unsupported regex"
  else if name = ascii "nth-child" then s.parseNthChild false false
  else if name = ascii "nth-last-child" then s.parseNthChild true false
  else if name = ascii "nth-of-type" then s.parseNthChild false true
  else if name = ascii "nth-last-of-type" then s.parseNthChild true true
  else if name = ascii "first-child" then .ok (.nthChild 0 1 false false, s)
  else if name = ascii "last-child" then .ok (.nthChild 0 1 true false, s)
  else if name = ascii "first-of-type" then .ok (.nthChild 0 1 false true, s)
  else if name = ascii "last-of-type" then .ok (.nthChild 0 1 true true, s)
  else if name = ascii "only-child" then .ok (.onlyChild false, s)
  else if name = ascii "only-of-type" then .ok (.onlyChild true, s)
  else if name = ascii "empty" then .ok (.empty, s)
  else .error (.thrown (s.error (ascii "unsupported op:" ++ name)))

/-! ## Groups -/

/-- The combinator that two sequences are joined by: `' '`, `'>'`, `'+'` or `'~'`. -/
def combine (combinator : UInt8) (s1 s2 : Selector) : Selector :=
  if combinator = 62 then .binary .child s1 s2
  else if combinator = 43 then .binary (.adjacent true) s1 s2
  else if combinator = 126 then .binary (.adjacent false) s1 s2
  else .binary .descendant s1 s2

/-- The combinator at the end of a sequence, and `none` where the selector ends. -/
def parseCombinator (s : CParser) : Option UInt8 × CParser :=
  let (s, skipped) := s.skipWhitespace
  match s.rest with
  | [] => (none, s)
  | c :: _ =>
    if c = 43 ∨ c = 62 ∨ c = 126 then (some c, (s.advance 1).skipWhitespace.1)
    else if c = 44 ∨ c = 41 then (none, s)
    else (if skipped then some 32 else none, s)

/-- Two selectors that hold at once; `none` is one that was not assigned yet. -/
def intersect (ret : Option Selector) (sel : Selector) : Selector :=
  match ret with
  | none => sel
  | some ret => .binary .intersection ret sel

/-- The start of a sequence: a type, a star, or nothing. -/
def parseStart (s : CParser) : Except Stop (Option Selector × CParser) :=
  match s.rest with
  | [] => s.fail "expected selector, found EOF instead"
  | c :: _ =>
    if c = 42 then .ok (none, s.advance 1)
    else if c = 35 ∨ c = 46 ∨ c = 91 ∨ c = 58 then .ok (none, s)
    else do
      let (ret, s) ← s.parseTypeSelector
      .ok (some ret, s)

mutual

/-- `CParser::parsePseudoclassSelector`. -/
def parsePseudoclassSelector : (fuel : Nat) → CParser → Except Stop (Selector × CParser)
  | 0, _ => .error .unfinished
  | fuel + 1, s =>
    if s.rest.head? ≠ some 58 then
      s.fail "expected pseudoclass selector (:pseudoclass), found invalid char"
    else do
      let (name, s) ← (s.advance 1).parseIdentifier
      match unaryOperator (tolower name) with
      | none => s.parsePlainPseudoclass (tolower name)
      | some op =>
        match s.consumeParenthesis with
        | none => s.fail "expected '(' but didn't find it"
        | some s => do
          let (sel, s) ← parseSelectorGroup fuel s
          s.closed (.unary op sel)

/-- The loop of `parseSimpleSelectorSequence`. -/
def sequenceLoop : (fuel : Nat) → Option Selector → CParser → Except Stop (Selector × CParser)
  | 0, _, _ => .error .unfinished
  | fuel + 1, ret, s =>
    match s.rest with
    | [] => .ok (ret.getD .dummy, s)
    | c :: _ =>
      if c = 35 then do
        let (sel, s) ← s.parseIDSelector
        sequenceLoop fuel (some (intersect ret sel)) s
      else if c = 46 then do
        let (sel, s) ← s.parseClassSelector
        sequenceLoop fuel (some (intersect ret sel)) s
      else if c = 91 then do
        let (sel, s) ← s.parseAttributeSelector
        sequenceLoop fuel (some (intersect ret sel)) s
      else if c = 58 then do
        let (sel, s) ← parsePseudoclassSelector fuel s
        sequenceLoop fuel (some (intersect ret sel)) s
      else .ok (ret.getD .dummy, s)

/-- `CParser::parseSimpleSelectorSequence`. -/
def parseSimpleSelectorSequence : (fuel : Nat) → CParser → Except Stop (Selector × CParser)
  | 0, _ => .error .unfinished
  | fuel + 1, s => do
    let (ret, s) ← s.parseStart
    sequenceLoop fuel ret s

/-- The loop of `parseSelector`. -/
def selectorLoop : (fuel : Nat) → Selector → CParser → Except Stop (Selector × CParser)
  | 0, _, _ => .error .unfinished
  | fuel + 1, ret, s =>
    match s.parseCombinator with
    | (none, s) => .ok (ret, s)
    | (some combinator, s) => do
      let (sel, s) ← parseSimpleSelectorSequence fuel s
      selectorLoop fuel (combine combinator ret sel) s

/-- `CParser::parseSelector`. -/
def parseSelector : (fuel : Nat) → CParser → Except Stop (Selector × CParser)
  | 0, _ => .error .unfinished
  | fuel + 1, s => do
    let (ret, s) ← parseSimpleSelectorSequence fuel s.skipWhitespace.1
    selectorLoop fuel ret s

/-- The loop of `parseSelectorGroup`. -/
def groupLoop : (fuel : Nat) → Selector → CParser → Except Stop (Selector × CParser)
  | 0, _, _ => .error .unfinished
  | fuel + 1, ret, s =>
    if s.rest.head? = some 44 then do
      let (sel, s) ← parseSelector fuel (s.advance 1)
      groupLoop fuel (.binary .union ret sel) s
    else .ok (ret, s)

/-- `CParser::parseSelectorGroup`. -/
def parseSelectorGroup : (fuel : Nat) → CParser → Except Stop (Selector × CParser)
  | 0, _ => .error .unfinished
  | fuel + 1, s => do
    let (ret, s) ← parseSelector fuel s
    groupLoop fuel ret s

end

/-- `CParser::create`, with so many steps. -/
def createWithin (fuel : Nat) (unsignedChar : Bool) (aInput : Bytes) : Except Stop Selector := do
  let (ret, _) ← parseSelectorGroup fuel ⟨unsignedChar, [], aInput⟩
  .ok ret

/-- `CParser::create`. -/
def create (unsignedChar : Bool) (aInput : Bytes) : Except Stop Selector :=
  createWithin (7 * aInput.length + 7) unsignedChar aInput

end CParser

end RetroConfig.Html
