import RetroConfig.Html.Tags
import RetroConfig.Library.Outcome

/-!
# The parts of a selector

The functions of `CParser` that read names, strings, numbers and blanks. A parser stands between the
bytes before `mOffset`, the last one first, and the ones from there on. A function that moves
`mOffset` gives the parser that it leaves, and one that fails gives the text that it throws.

On some platforms a `char` has a sign, and then no byte above 127 is a `nameStart`.
-/

namespace RetroConfig.Html

/-- `CParser`. -/
structure CParser where
  unsignedChar : Bool
  before : Bytes
  rest : Bytes

/-- Why a parser stops: a text is thrown, an `int` overflows, a variable is read before it was
assigned, or the model has run out of steps. -/
inductive Stop where
  | thrown (message : Bytes)
  | overflow
  | uninitialized
  | unfinished
  deriving DecidableEq

namespace CParser

def mOffset (s : CParser) : Nat := s.before.length

/-- `mOffset += n`. -/
def advance (s : CParser) (n : Nat) : CParser :=
  { s with before := (s.rest.take n).reverse ++ s.before, rest := s.rest.drop n }

/-- `mOffset--`. -/
def back (s : CParser) : CParser :=
  match s.before with
  | [] => s
  | c :: before => { s with before, rest := c :: s.rest }

/-- The digits of `CParser::error`, the last one first. -/
def errorDigits : (fuel d : Nat) → Bytes
  | 0, _ => []
  | fuel + 1, d => if d = 0 then [] else UInt8.ofNat (d % 10 + 48) :: errorDigits fuel (d / 10)

/-- `CParser::error`. -/
def error (s : CParser) (message : Bytes) : Bytes :=
  let ds := if s.mOffset = 0 then ascii "0" else errorDigits s.mOffset s.mOffset
  message ++ ascii " at:" ++ ds.reverse

/-- `throw error(message)`. -/
def fail {α : Type} (s : CParser) (message : String) : Except Stop α :=
  .error (.thrown (s.error (ascii message)))

/-! ## Bytes -/

/-- `CParser::nameStart`. -/
def nameStart (s : CParser) (c : UInt8) : Bool :=
  (97 ≤ c && c ≤ 122) || (65 ≤ c && c ≤ 90) || c == 95 || (s.unsignedChar && c > 127)

/-- `CParser::nameChar`. -/
def nameChar (s : CParser) (c : UInt8) : Bool := s.nameStart c || c == 45 || (48 ≤ c && c ≤ 57)

/-- `CParser::hexDigit`. -/
def hexDigit (c : UInt8) : Bool :=
  (48 ≤ c && c ≤ 57) || (97 ≤ c && c ≤ 102) || (65 ≤ c && c ≤ 70)

def digit (c : UInt8) : Bool := 48 ≤ c && c ≤ 57

/-- `'\r'`, `'\n'` or `'\f'`. -/
def newline (c : UInt8) : Bool := c == 13 || c == 10 || c == 12

/-- The other bytes that `skipWhitespace` passes over. -/
def blank (c : UInt8) : Bool := c == 32 || c == 13 || c == 9 || c == 10 || c == 12

/-! ## Blanks -/

/-- Where `find("*/")` finds the end of a comment. -/
def commentEnd : Bytes → Option Nat
  | 42 :: 47 :: _ => some 0
  | _ :: rest => (commentEnd rest).map (· + 1)
  | [] => none

/-- The loop of `skipWhitespace`. -/
def skipLoop : (fuel : Nat) → CParser → CParser
  | 0, s => s
  | fuel + 1, s =>
    match s.rest with
    | 47 :: 42 :: rest =>
      match commentEnd rest with
      | some pos => skipLoop fuel (s.advance (pos + 4))
      | none => s
    | c :: _ => if blank c then skipLoop fuel (s.advance 1) else s
    | [] => s

/-- `CParser::skipWhitespace`, and whether it passed over something. -/
def skipWhitespace (s : CParser) : CParser × Bool :=
  let s' := skipLoop s.rest.length s
  (s', decide (s.mOffset < s'.mOffset))

/-- `CParser::consumeParenthesis`. -/
def consumeParenthesis (s : CParser) : Option CParser :=
  if s.rest.head? = some 40 then some (s.advance 1).skipWhitespace.1 else none

/-- `CParser::consumeClosingParenthesis`. -/
def consumeClosingParenthesis (s : CParser) : Option CParser :=
  let s' := s.skipWhitespace.1
  if s'.rest.head? = some 41 then some (s'.advance 1) else none

/-! ## Escapes -/

def hexValue (ch : UInt8) : UInt8 :=
  if 48 ≤ ch && ch ≤ 57 then ch - 48
  else if 97 ≤ ch && ch ≤ 102 then ch - 97 + 10
  else ch - 65 + 10

/-- The loop over the digits of an escape, from the `k`th on. -/
def hexLoop : Bytes → (k : Nat) → (c : UInt8) → (ret : Bytes) → UInt8 × Bytes
  | [], _, c, ret => (c, ret)
  | ch :: digits, k, c, ret =>
    if k % 2 = 1 then hexLoop digits (k + 1) 0 (ret ++ [c + hexValue ch])
    else hexLoop digits (k + 1) (c + hexValue ch <<< 4) ret

/-- The blank that may end an escape. -/
def escapeEnd (s : CParser) : CParser :=
  match s.rest with
  | 13 :: 10 :: _ => s.advance 2
  | c :: _ => if blank c then s.advance 1 else s
  | [] => s

/-- `CParser::parseEscape`. -/
def parseEscape (s : CParser) : Except Stop (Bytes × CParser) :=
  match s.rest with
  | 92 :: c :: rest =>
    if newline c then s.fail "escaped line ending outside string"
    else if !hexDigit c then .ok ([c], s.advance 2)
    else
      let digits := ((c :: rest).take 5).takeWhile hexDigit
      let (c, ret) := hexLoop digits 0 0 []
      if ret = [] ∨ c ≠ 0 then s.fail "invalid hex digit"
      else .ok (ret, (s.advance (digits.length + 1)).escapeEnd)
  | _ => s.fail "invalid escape sequence"

/-! ## Names and strings -/

/-- The loop of `parseName`; `s` stands at `mOffset` and `o` at `offset`. -/
def nameLoop : (fuel : Nat) → (s o : CParser) → (ret : Bytes) → Except Stop (Bytes × CParser × CParser)
  | 0, _, _, _ => .error .unfinished
  | fuel + 1, s, o, ret =>
    match o.rest with
    | [] => .ok (ret, s, o)
    | c :: _ =>
      if o.nameChar c then
        let chunk := o.rest.takeWhile o.nameChar
        nameLoop fuel s (o.advance chunk.length) (ret ++ chunk)
      else if c = 92 then do
        let (e, o) ← o.parseEscape
        nameLoop fuel o o (ret ++ e)
      else .ok (ret, s, o)

/-- `CParser::parseName`. -/
def parseName (s : CParser) : Except Stop (Bytes × CParser) := do
  let (ret, s, o) ← nameLoop (s.rest.length + 1) s s []
  if ret = [] then s.fail "expected name, found EOF instead"
  else .ok (ret, o)

/-- The rest of `parseIdentifier`, after a dash. -/
def parseIdentifierFrom (s : CParser) : Except Stop (Bytes × CParser) :=
  match s.rest with
  | [] => s.fail "expected identifier, found EOF instead"
  | c :: _ =>
    if !s.nameStart c && c ≠ 92 then s.fail "expected identifier, found invalid char"
    else s.parseName

/-- `CParser::parseIdentifier`. -/
def parseIdentifier (s : CParser) : Except Stop (Bytes × CParser) :=
  if s.rest.head? = some 45 then do
    let (name, s) ← (s.advance 1).parseIdentifierFrom
    .ok (45 :: name, s)
  else s.parseIdentifierFrom

/-- The bytes that a string is read through at once. -/
def plain (quote c : UInt8) : Bool := !(c == quote || c == 92 || newline c)

/-- The loop of `parseString`; `s` stands at `mOffset` and `o` at `offset`. -/
def stringLoop (quote : UInt8) :
    (fuel : Nat) → (s o : CParser) → (ret : Bytes) → Except Stop (Bytes × CParser)
  | 0, _, _, _ => .error .unfinished
  | fuel + 1, s, o, ret =>
    match o.rest with
    | [] => s.fail "EOF in string"
    | 92 :: 13 :: 10 :: _ => stringLoop quote fuel s (o.advance 3) ret
    | c :: rest =>
      if c = 92 then
        if rest.head?.any newline then stringLoop quote fuel s (o.advance 2) ret
        else do
          let (e, o) ← o.parseEscape
          stringLoop quote fuel o o (ret ++ e)
      else if c = quote then .ok (ret, o.advance 1)
      else if newline c then s.fail "unexpected end of line in string"
      else
        let chunk := o.rest.takeWhile (plain quote)
        stringLoop quote fuel s (o.advance chunk.length) (ret ++ chunk)

/-- `CParser::parseString`. -/
def parseString (s : CParser) : Except Stop (Bytes × CParser) :=
  match s.rest with
  | quote :: _ :: _ => stringLoop quote s.rest.length s (s.advance 1) []
  | _ => s.fail "expected string, found EOF instead"

/-! ## Numbers -/

/-- The loop of `parseInteger`; the sum is an `int` before the `'0'` is taken away. -/
def integerLoop : Bytes → (i : Nat) → Except Stop Nat
  | [], i => .ok i
  | c :: digits, i =>
    if 2 ^ 31 ≤ i * 10 + c.toNat then .error .overflow
    else integerLoop digits (i * 10 + c.toNat - 48)

/-- `CParser::parseInteger`. -/
def parseInteger (s : CParser) : Except Stop (Int × CParser) :=
  let digits := s.rest.takeWhile digit
  do
    let i ← integerLoop digits 0
    if digits = [] then s.fail "expected integer, but didn't find it."
    else .ok ((i : Int), s.advance digits.length)

def nthEof {α : Type} (s : CParser) : Except Stop α :=
  s.fail "unexpected EOF while attempting to parse expression of form an+b"

def nthInvalid {α : Type} (s : CParser) : Except Stop α :=
  s.fail "unexpected character while attempting to parse expression of form an+b"

/-- What `parseNth` assigns to `aA`, which may be nothing, and to `aB`. -/
abbrev Nth := Option Int × Int

/-- The label `readN`. -/
def readN (s : CParser) (aA : Option Int) : Except Stop (Nth × CParser) :=
  let s := s.skipWhitespace.1
  match s.rest with
  | [] => s.nthEof
  | c :: _ =>
    if c = 43 then do
      let (aB, s) ← (s.advance 1).skipWhitespace.1.parseInteger
      .ok ((aA, aB), s)
    else if c = 45 then do
      let (aB, s) ← s.back.skipWhitespace.1.parseInteger
      .ok ((aA, -aB), s)
    else .ok ((aA, 0), s)

/-- The label `readA`. -/
def readA (s : CParser) (aA : Int) : Except Stop (Nth × CParser) :=
  match s.rest with
  | [] => s.nthEof
  | c :: _ => if c = 110 ∨ c = 78 then (s.advance 1).readN aA else .ok ((some 0, aA), s)

/-- The labels `positiveA` and `negativeA`. -/
def signedA (s : CParser) (sign : Int) : Except Stop (Nth × CParser) :=
  match s.rest with
  | [] => s.nthEof
  | c :: _ =>
    if digit c then do
      let (aA, s) ← s.parseInteger
      s.readA (sign * aA)
    else if c = 110 ∨ c = 78 then (s.advance 1).readN (some sign)
    else s.nthInvalid

/-- `CParser::parseNth`. -/
def parseNth (s : CParser) : Except Stop (Nth × CParser) :=
  match s.rest with
  | [] => s.nthEof
  | c :: _ =>
    if c = 45 then (s.advance 1).signedA (-1)
    else if c = 43 then (s.advance 1).signedA 1
    else if digit c then s.signedA 1
    else if c = 110 ∨ c = 78 then s.readN none
    else if c = 111 ∨ c = 79 ∨ c = 101 ∨ c = 69 then do
      let (id, s) ← s.parseName
      if tolower id = ascii "odd" then .ok ((some 2, 1), s)
      else if tolower id = ascii "even" then .ok ((some 2, 0), s)
      else s.fail "expected 'odd' or 'even', invalid found"
    else s.nthInvalid

end CParser

end RetroConfig.Html
