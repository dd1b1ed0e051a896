import RetroConfig.Library.Tree
import Mathlib.Data.Nat.Digits.Defs
import Mathlib.Data.Int.Basic
import Mathlib.Tactic.Common

/-!
# JSON texts

The trees of the C++ library `nlohmann::json` and its text format: `dump` writes a tree, `parse`
reads a text or throws. The library holds an integer as signed or as unsigned, depending on
where it comes from; `parse` makes a number without a sign unsigned. `parse_dump` says that a
tree without floating-point numbers is read back as it was, with every integer held in the
way in which `parse` holds it.

`parse` is a lexer (`scan`) and a loop over its tokens with a stack of the arrays and objects
that are still open (`step`). Where the lexer looks at bytes, texts are taken to be valid UTF-8,
so that it can be given by characters. A floating-point number is the decimal number it was
read from: its rounding to a `double` and the digits that the library prints for it are left
out, but not that the parser refuses a number no `double` can hold.
-/

/-- What a leaf of a JSON tree can be: the types of `value_t` other than `array` and `object`. -/
inductive Scalar where
  | null
  | boolean (b : Bool)
  | integer (n : Int64)
  | unsigned (n : UInt64)
  | float (negative : Bool) (digits : Nat) (exponent : Int)
  | string (s : String)
  deriving DecidableEq

/-- Is this a `number_float`? -/
def Scalar.isFloat : Scalar → Bool
  | .float _ _ _ => true
  | _ => false

abbrev Json := ValueTree Scalar

namespace Json

/-! ## Writing -/

def hexDigit (n : Nat) : Char := Nat.digitChar n

/-- `dump_escaped` of one character. -/
def escape (c : Char) : List Char :=
  if c = '\x08' then ['\\', 'b']
  else if c = '\t' then ['\\', 't']
  else if c = '\n' then ['\\', 'n']
  else if c = '\x0c' then ['\\', 'f']
  else if c = '\r' then ['\\', 'r']
  else if c = '"' then ['\\', '"']
  else if c = '\\' then ['\\', '\\']
  else if c.toNat ≤ 0x1f then
    ['\\', 'u', '0', '0', hexDigit (c.toNat / 16), hexDigit (c.toNat % 16)]
  else [c]

def dumpEscaped : List Char → List Char
  | [] => []
  | c :: cs => escape c ++ dumpEscaped cs

def dumpString (s : String) : List Char := '"' :: (dumpEscaped s.toList ++ ['"'])

def dumpInteger (n : Int) : List Char :=
  if n < 0 then '-' :: Nat.toDigits 10 n.natAbs else Nat.toDigits 10 n.natAbs

def dumpScalar : Scalar → List Char
  | .null => "null".toList
  | .boolean b => if b then "true".toList else "false".toList
  | .integer n => dumpInteger n.toInt
  | .unsigned n => dumpInteger n.toNat
  | .float negative digits exponent =>
    (if negative then ['-'] else []) ++ Nat.toDigits 10 digits ++ 'e' :: dumpInteger exponent
  | .string s => dumpString s

mutual

/-- `serializer::dump` without indentation. -/
def dumpTree : Json → List Char
  | .leaf a => dumpScalar a
  | .array elements => '[' :: (dumpElements elements ++ [']'])
  | .object members => '{' :: (dumpMembers members ++ ['}'])

def dumpElements : List Json → List Char
  | [] => []
  | [t] => dumpTree t
  | t :: ts => dumpTree t ++ ',' :: dumpElements ts

def dumpMembers : List (String × Json) → List Char
  | [] => []
  | [(k, t)] => dumpString k ++ ':' :: dumpTree t
  | (k, t) :: ms => dumpString k ++ ':' :: (dumpTree t ++ ',' :: dumpMembers ms)

end

/-- `basic_json::dump`. -/
def dump (j : Json) : String := String.ofList (dumpTree j)

/-! ## The lexer -/

/-- `token_type`, with the value of the token. -/
inductive Token where
  | literalTrue
  | literalFalse
  | literalNull
  | string (s : String)
  | unsigned (n : UInt64)
  | integer (n : Int64)
  | float (negative : Bool) (digits : Nat) (exponent : Int)
  | beginArray
  | beginObject
  | endArray
  | endObject
  | nameSeparator
  | valueSeparator
  | parseError
  | endOfInput
  deriving DecidableEq

def hexValue (c : Char) : Option Nat :=
  if '0' ≤ c ∧ c ≤ '9' then some (c.toNat - '0'.toNat)
  else if 'A' ≤ c ∧ c ≤ 'F' then some (c.toNat - 'A'.toNat + 10)
  else if 'a' ≤ c ∧ c ≤ 'f' then some (c.toNat - 'a'.toNat + 10)
  else none

/-- `get_codepoint` on the four characters after `\u`. -/
def codepoint (a b c d : Char) : Option Nat := do
  let a ← hexValue a
  let b ← hexValue b
  let c ← hexValue c
  let d ← hexValue d
  pure (a * 4096 + b * 256 + c * 16 + d)

/-- The character that an escape other than `\u` stands for. -/
def unescape (c : Char) : Option Char :=
  if c = '"' then some '"'
  else if c = '\\' then some '\\'
  else if c = '/' then some '/'
  else if c = 'b' then some '\x08'
  else if c = 'f' then some '\x0c'
  else if c = 'n' then some '\n'
  else if c = 'r' then some '\r'
  else if c = 't' then some '\t'
  else none

/-- Put a character before the text that was scanned. -/
def add (c : Char) (scanned : Option (List Char × List Char)) : Option (List Char × List Char) :=
  scanned.map fun p => (c :: p.1, p.2)

/-- `scan_string` after the opening quote: the text and what follows the closing quote. -/
def scanString : List Char → Option (List Char × List Char)
  | [] => none
  | c :: cs =>
    if c = '"' then some ([], cs)
    else if c = '\\' then
      match cs with
      | [] => none
      | e :: cs =>
        if e = 'u' then
          match cs with
          | h₁ :: h₂ :: h₃ :: h₄ :: cs =>
            match codepoint h₁ h₂ h₃ h₄ with
            | none => none
            | some high =>
              if 0xD800 ≤ high ∧ high ≤ 0xDBFF then
                match cs with
                | s :: u :: l₁ :: l₂ :: l₃ :: l₄ :: cs =>
                  match codepoint l₁ l₂ l₃ l₄ with
                  | none => none
                  | some low =>
                    if s = '\\' ∧ u = 'u' ∧ 0xDC00 ≤ low ∧ low ≤ 0xDFFF then
                      add (Char.ofNat (high * 1024 + low - 0x35FDC00)) (scanString cs)
                    else none
                | _ => none
              else if 0xDC00 ≤ high ∧ high ≤ 0xDFFF then none
              else add (Char.ofNat high) (scanString cs)
          | _ => none
        else
          match unescape e with
          | none => none
          | some ch => add ch (scanString cs)
    else if c.toNat < 0x20 then none
    else add c (scanString cs)

/-- The digits at the front. -/
def spanDigits (cs : List Char) : List Char × List Char :=
  (cs.takeWhile (·.isDigit), cs.dropWhile (·.isDigit))

def digitsValue (ds : List Char) : Nat := Nat.ofDigitChars 10 ds 0

/-- Is the first character this sign? If so it is taken away. -/
def scanSign (sign : Char) : List Char → Bool × List Char
  | [] => (false, [])
  | c :: cs => if c = sign then (true, cs) else (false, c :: cs)

/-- The digits after the point, if there is one. `none` if they are missing. -/
def scanFraction (cs : List Char) : Option (List Char × List Char) :=
  let (point, cs) := scanSign '.' cs
  if point then
    let (ds, rest) := spanDigits cs
    if ds.isEmpty then none else some (ds, rest)
  else some ([], cs)

/-- The exponent, if there is one. `none` if its digits are missing. -/
def scanExponent : List Char → Option (Option Int × List Char)
  | [] => some (none, [])
  | c :: cs =>
    if c = 'e' ∨ c = 'E' then
      let (plus, cs) := scanSign '+' cs
      let (minus, cs) := if plus then (false, cs) else scanSign '-' cs
      let (ds, rest) := spanDigits cs
      if ds.isEmpty then none
      else some (some (if minus then -(digitsValue ds : Int) else digitsValue ds), rest)
    else some (none, c :: cs)

/-- The digits before the point: a single `0`, or digits that do not start with `0`. -/
def scanInteger : List Char → Option (List Char × List Char)
  | [] => none
  | c :: cs =>
    if c = '0' then some (['0'], cs)
    else if c.isDigit then
      let (ds, rest) := spanDigits cs
      some (c :: ds, rest)
    else none

/-- The token of a number: an integer if it has neither fraction nor exponent and fits. -/
def numberToken (negative : Bool) (ds fraction : List Char) (exponent : Option Int) : Token :=
  let n := digitsValue ds
  if fraction.isEmpty ∧ exponent.isNone ∧ negative = false ∧ n < 2 ^ 64 then
    .unsigned (UInt64.ofNat n)
  else if fraction.isEmpty ∧ exponent.isNone ∧ negative = true ∧ n ≤ 2 ^ 63 then
    .integer (Int64.ofInt (-n))
  else
    .float negative (digitsValue (ds ++ fraction)) (exponent.getD 0 - fraction.length)

/-- `scan_number`. -/
def scanNumber (cs : List Char) : Token × List Char :=
  let (negative, abs) := scanSign '-' cs
  let scanned := do
    let (ds, rest) ← scanInteger abs
    let (fraction, rest) ← scanFraction rest
    let (exponent, rest) ← scanExponent rest
    pure (numberToken negative ds fraction exponent, rest)
  scanned.getD (.parseError, [])

/-- `scan_literal` after its first character. -/
def scanLiteral (literal : List Char) (token : Token) (cs : List Char) : Token × List Char :=
  if literal.isPrefixOf cs then (token, cs.drop literal.length) else (.parseError, [])

def isWhitespace (c : Char) : Bool := c == ' ' || c == '\t' || c == '\n' || c == '\r'

/-- The `switch` of `scan` on a character that is no whitespace, with what follows it. -/
def scanToken (c : Char) (cs : List Char) : Token × List Char :=
  if c = '[' then (.beginArray, cs)
  else if c = ']' then (.endArray, cs)
  else if c = '{' then (.beginObject, cs)
  else if c = '}' then (.endObject, cs)
  else if c = ':' then (.nameSeparator, cs)
  else if c = ',' then (.valueSeparator, cs)
  else if c = 't' then scanLiteral "rue".toList .literalTrue cs
  else if c = 'f' then scanLiteral "alse".toList .literalFalse cs
  else if c = 'n' then scanLiteral "ull".toList .literalNull cs
  else if c = '"' then
    match scanString cs with
    | some (s, rest) => (.string (String.ofList s), rest)
    | none => (.parseError, [])
  else if c = '-' ∨ c.isDigit then scanNumber (c :: cs)
  else if c = '\x00' then (.endOfInput, [])
  else (.parseError, [])

/-- `scan`: the next token and what follows it. -/
def scan (cs : List Char) : Token × List Char :=
  match cs.dropWhile isWhitespace with
  | [] => (.endOfInput, [])
  | c :: cs => scanToken c cs

theorem spanDigits_length (cs : List Char) : (spanDigits cs).2.length ≤ cs.length :=
  (List.dropWhile_sublist _).length_le

theorem add_length {c : Char} {x : Option (List Char × List Char)} {s rest : List Char} {n : Nat}
    (h : add c x = some (s, rest))
    (hx : ∀ {s rest}, x = some (s, rest) → s.length + rest.length < n) :
    s.length + rest.length < n + 1 := by
  obtain ⟨⟨s', rest'⟩, hScan, hEq⟩ := Option.map_eq_some_iff.mp h
  obtain ⟨rfl, rfl⟩ := Prod.mk.inj hEq
  have := hx hScan
  simp only [List.length_cons]
  omega

/-- A string is shorter than the text it was read from. -/
theorem scanString_length {cs s rest : List Char} (h : scanString cs = some (s, rest)) :
    s.length + rest.length < cs.length := by
  induction hLength : cs.length using Nat.strong_induction_on generalizing cs s rest with
  | _ n ih =>
    have hRest : ∀ {ds s rest : List Char}, ds.length < n → scanString ds = some (s, rest) →
        s.length + rest.length < ds.length := fun hLt hScan => ih _ hLt hScan rfl
    subst hLength
    rw [scanString.eq_def] at h
    repeat' split at h
    -- a branch fails, goes on behind an escape or a character, or is the closing quote
    all_goals first
      | cases h; done
      | (have hAdd := add_length h (hRest (by simp only [List.length_cons]; omega))
         simp only [List.length_cons]; omega)
      | (cases h; simp only [List.length_cons, List.length_nil]; omega)

theorem scanInteger_length {cs ds rest : List Char} (h : scanInteger cs = some (ds, rest)) :
    rest.length < cs.length := by
  cases cs with
  | nil => cases h
  | cons c cs =>
    have := spanDigits_length cs
    unfold scanInteger at h
    grind

theorem scanSign_length (sign : Char) (cs : List Char) : (scanSign sign cs).2.length ≤ cs.length := by
  cases cs with
  | nil => exact le_rfl
  | cons c cs =>
    rw [scanSign]
    split <;> simp

theorem scanFraction_length {cs ds rest : List Char} (h : scanFraction cs = some (ds, rest)) :
    rest.length ≤ cs.length := by
  have hSign := scanSign_length '.' cs
  have hSpan := spanDigits_length (scanSign '.' cs).2
  unfold scanFraction at h
  grind

theorem scanExponent_length {cs rest : List Char} {e : Option Int}
    (h : scanExponent cs = some (e, rest)) : rest.length ≤ cs.length := by
  cases cs with
  | nil => cases h; exact le_rfl
  | cons c cs =>
    have hPlus := scanSign_length '+' cs
    have hMinus := scanSign_length '-' (scanSign '+' cs).2
    have hSpan := fun cs => spanDigits_length cs
    unfold scanExponent at h
    grind

/-- The length of the text that a string token carries. -/
def Token.size : Token → Nat
  | .string s => s.length
  | _ => 0

theorem numberToken_size (negative : Bool) (ds fraction : List Char) (exponent : Option Int) :
    (numberToken negative ds fraction exponent).size = 0 := by
  unfold numberToken
  dsimp only
  split
  · rfl
  · split <;> rfl

theorem scanNumber_length {cs : List Char} (h : (scanNumber cs).1 ≠ .parseError) :
    (scanNumber cs).1.size + (scanNumber cs).2.length < cs.length := by
  have hSign := scanSign_length '-' cs
  unfold scanNumber at h ⊢
  dsimp only at h ⊢
  cases hInt : scanInteger (scanSign '-' cs).2 with
  | none => simp [hInt] at h
  | some i =>
    cases hFrac : scanFraction i.2 with
    | none => simp [hInt, hFrac] at h
    | some f =>
      cases hExp : scanExponent f.2 with
      | none => simp [hInt, hFrac, hExp] at h
      | some e =>
        have hi := scanInteger_length hInt
        have hf := scanFraction_length hFrac
        have he := scanExponent_length hExp
        simp only [hFrac, hExp, Option.bind_eq_bind, Option.bind_some, Option.pure_def,
          Option.getD_some, numberToken_size]
        omega

theorem scanLiteral_length {literal cs : List Char} {token : Token}
    (h : (scanLiteral literal token cs).1 ≠ .parseError) :
    (scanLiteral literal token cs).2.length ≤ cs.length := by
  unfold scanLiteral at h ⊢
  split
  · simp
  · next hNot => simp [hNot] at h

/-- Is this the last token the parser asks for? -/
def Token.isLast (t : Token) : Bool := t == .endOfInput || t == .parseError

theorem of_ite_eq {α : Type} {c R : Prop} [Decidable c] {x y p : α}
    (h : (if c then x else y) = p) (hx : x = p → R) (hy : y = p → R) : R := by
  by_cases hc : c
  · rw [if_pos hc] at h
    exact hx h
  · rw [if_neg hc] at h
    exact hy h

theorem scanToken_length {c : Char} {cs : List Char} {p : Token × List Char}
    (hp : scanToken c cs = p) (h : p.1.isLast = false) :
    p.1.size + p.2.length ≤ cs.length := by
  have hError : ∀ q : Token × List Char, q = p → q.1 ≠ .parseError := by
    rintro q rfl hEq
    simp [hEq, Token.isLast] at h
  have hSimple : ∀ t : Token, t.size = 0 → (t, cs) = p → p.1.size + p.2.length ≤ cs.length := by
    rintro t ht rfl
    simp [ht]
  have hLiteral : ∀ literal (token : Token), token.size = 0 → scanLiteral literal token cs = p →
      p.1.size + p.2.length ≤ cs.length := by
    rintro literal token ht rfl
    have hLength := scanLiteral_length (hError _ rfl)
    have hSize : (scanLiteral literal token cs).1.size = 0 := by
      unfold scanLiteral
      split
      · exact ht
      · rfl
    omega
  unfold scanToken at hp
  refine of_ite_eq hp (hSimple _ rfl) fun hp => ?_
  refine of_ite_eq hp (hSimple _ rfl) fun hp => ?_
  refine of_ite_eq hp (hSimple _ rfl) fun hp => ?_
  refine of_ite_eq hp (hSimple _ rfl) fun hp => ?_
  refine of_ite_eq hp (hSimple _ rfl) fun hp => ?_
  refine of_ite_eq hp (hSimple _ rfl) fun hp => ?_
  refine of_ite_eq hp (hLiteral _ _ rfl) fun hp => ?_
  refine of_ite_eq hp (hLiteral _ _ rfl) fun hp => ?_
  refine of_ite_eq hp (hLiteral _ _ rfl) fun hp => ?_
  refine of_ite_eq hp (fun hp => ?_) fun hp => of_ite_eq hp (fun hp => ?_) fun hp =>
    of_ite_eq hp (fun hp => ?_) fun hp => ?_
  · cases hScan : scanString cs with
    | none =>
      rw [hScan] at hp
      exact absurd rfl (hError _ hp)
    | some q =>
      have := scanString_length hScan
      rw [hScan] at hp
      rw [← hp]
      simp only [Token.size, String.length_ofList]
      omega
  · rw [← hp]
    exact Nat.lt_succ_iff.mp (scanNumber_length (hError _ hp))
  · rw [← hp] at h
    cases h
  · rw [← hp] at h
    cases h

/-- A token is shorter than the text it was read from. -/
theorem scan_length {cs : List Char} (h : (scan cs).1.isLast = false) :
    (scan cs).1.size + (scan cs).2.length < cs.length := by
  have hDrop : (cs.dropWhile isWhitespace).length ≤ cs.length :=
    (List.dropWhile_sublist _).length_le
  unfold scan at h ⊢
  cases hHead : cs.dropWhile isWhitespace with
  | nil => simp [hHead, Token.isLast] at h
  | cons c rest =>
    simp only [hHead] at h ⊢
    rw [hHead] at hDrop
    exact Nat.lt_of_le_of_lt (scanToken_length rfl h) hDrop

/-- The tokens up to the last one that the parser asks for. -/
def tokens (cs : List Char) : List Token :=
  if (scan cs).1.isLast then [(scan cs).1]
  else (scan cs).1 :: tokens (scan cs).2
termination_by cs.length
decreasing_by exact Nat.lt_of_le_of_lt (Nat.le_add_left _ _) (scan_length (by simp_all))

/-! ## The parser -/

/-- An array or an object that is still open, with what it holds so far. In an object the value
of a key is awaited or was the last one assigned. -/
inductive Frame where
  | array (elements : List Json)
  | object (members : List (String × Json)) (key : String)

/-- What `sax_parse_internal` waits for, inside of the arrays and objects of a stack. -/
inductive State where
  | value (stack : List Frame)
  | firstElement (stack : List Frame)
  | firstKey (stack : List Frame)
  | key (stack : List Frame) (members : List (String × Json))
  | colon (stack : List Frame) (members : List (String × Json)) (key : String)
  | next (stack : List Frame)
  | done (j : Json)
  | accepted (j : Json)

/-- A value has been read. -/
def complete (j : Json) : List Frame → State
  | [] => .done j
  | .array elements :: stack => .next (.array (elements ++ [j]) :: stack)
  | .object members key :: stack => .next (.object (OrderedMap.insert key j members) key :: stack)

/-- The least number that `strtod` rounds to infinity. -/
def overflow : Nat := 2 ^ 1024 - 2 ^ 970

/-- Can no `double` hold the number? -/
def overflows (digits : Nat) (exponent : Int) : Bool :=
  decide (overflow * 10 ^ (-exponent).toNat ≤ digits * 10 ^ exponent.toNat)

/-- A token where a value may start. -/
def startValue (stack : List Frame) : Token → Option State
  | .literalTrue => some (complete (.leaf (.boolean true)) stack)
  | .literalFalse => some (complete (.leaf (.boolean false)) stack)
  | .literalNull => some (complete (.leaf .null) stack)
  | .string s => some (complete (.leaf (.string s)) stack)
  | .unsigned n => some (complete (.leaf (.unsigned n)) stack)
  | .integer n => some (complete (.leaf (.integer n)) stack)
  | .float negative digits exponent =>
    if overflows digits exponent then none
    else some (complete (.leaf (.float negative digits exponent)) stack)
  | .beginArray => some (.firstElement stack)
  | .beginObject => some (.firstKey stack)
  | _ => none

/-- What one token does to `sax_parse_internal`; `none` is an exception. -/
def step : State → Token → Option State
  | .value stack, t => startValue stack t
  | .firstElement stack, .endArray => some (complete (.array []) stack)
  | .firstElement stack, t => startValue (.array [] :: stack) t
  | .firstKey stack, .endObject => some (complete (.object []) stack)
  | .firstKey stack, .string k => some (.colon stack [] k)
  | .key stack members, .string k => some (.colon stack members k)
  | .colon stack members k, .nameSeparator => some (.value (.object members k :: stack))
  | .next (.array elements :: stack), .valueSeparator => some (.value (.array elements :: stack))
  | .next (.array elements :: stack), .endArray => some (complete (.array elements) stack)
  | .next (.object members _ :: stack), .valueSeparator => some (.key stack members)
  | .next (.object members _ :: stack), .endObject => some (complete (.object members) stack)
  | .done j, .endOfInput => some (.accepted j)
  | _, _ => none

/-- The tree in the final state of the loop. -/
def State.result : State → Option Json
  | .accepted j => some j
  | _ => none

/-- The state after some tokens. -/
def run (s : State) (ts : List Token) : Option State := ts.foldlM step s

/-- `json::parse`: `none` is an exception. A byte order mark is skipped. -/
def parse (text : String) : Option Json :=
  (run (.value []) (tokens (scanSign '\ufeff' text.toList).2)).bind State.result

end Json
