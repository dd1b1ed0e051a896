import RetroConfig.Library.Json
import Mathlib.Data.List.TakeWhile

/-!
# Reading back a JSON text

`parse_dump`: a tree without floating-point numbers whose objects are ordered maps is read back
from its text as it was, up to the way in which `parse` holds integers (`reread`).

The lexer is followed token by token: `tokens_dumpTree` says that the tokens of a dumped tree
are `treeTokens`, whatever delimiter comes after it. The parser then works on tokens
alone: `run_treeTokens` says what the tokens of a tree do to a stack of open arrays and objects.
-/

namespace Json

/-! ## Strings -/

theorem hexValue_hexDigit {n : Nat} (h : n < 16) : hexValue (hexDigit n) = some n := by
  have hAll : ∀ n, n < 16 → hexValue (hexDigit n) = some n := by decide
  exact hAll n h

theorem scanString_quote (rest : List Char) : scanString ('"' :: rest) = some ([], rest) := by
  rw [scanString.eq_def]
  rfl

theorem scanString_plain {c : Char} (hQuote : c ≠ '"') (hBack : c ≠ '\\') (h : 0x20 ≤ c.toNat)
    (rest : List Char) : scanString (c :: rest) = add c (scanString rest) := by
  rw [scanString.eq_def]
  simp only [if_neg hQuote, if_neg hBack, if_neg (Nat.not_lt.mpr h)]

theorem scanString_unescape {e ch : Char} (hu : e ≠ 'u') (h : unescape e = some ch)
    (rest : List Char) : scanString ('\\' :: e :: rest) = add ch (scanString rest) := by
  rw [scanString.eq_def]
  simp only [if_neg (by decide : ¬ '\\' = '"'), if_pos, if_neg hu, h]

theorem scanString_codepoint {a b c d : Char} {n : Nat} (h : codepoint a b c d = some n)
    (hn : n < 0xD800) (rest : List Char) :
    scanString ('\\' :: 'u' :: a :: b :: c :: d :: rest) =
      add (Char.ofNat n) (scanString rest) := by
  rw [scanString.eq_def]
  simp only [if_neg (by decide : ¬ '\\' = '"'), if_pos, h]
  rw [if_neg (by omega), if_neg (by omega)]

/-- A character without a short escape is escaped by its code point, or not at all. -/
theorem escape_of_notMem {c : Char} (h : c ∉ ['\x08', '\t', '\n', '\x0c', '\r', '"', '\\']) :
    escape c = if c.toNat ≤ 0x1f then
      ['\\', 'u', '0', '0', hexDigit (c.toNat / 16), hexDigit (c.toNat % 16)] else [c] := by
  simp only [List.mem_cons, List.not_mem_nil, or_false, not_or] at h
  obtain ⟨hBs, hTab, hNl, hFf, hCr, hQuote, hBack⟩ := h
  rw [escape, if_neg hBs, if_neg hTab, if_neg hNl, if_neg hFf, if_neg hCr, if_neg hQuote,
    if_neg hBack]

/-- An escaped character is scanned as that character. -/
theorem scanString_escape (c : Char) (rest : List Char) :
    scanString (escape c ++ rest) = add c (scanString rest) := by
  by_cases hShort : c ∈ ['\x08', '\t', '\n', '\x0c', '\r', '"', '\\']
  · simp only [List.mem_cons, List.not_mem_nil, or_false] at hShort
    rcases hShort with rfl | rfl | rfl | rfl | rfl | rfl | rfl <;>
      exact scanString_unescape (by decide) (by decide) rest
  · rw [escape_of_notMem hShort]
    by_cases hControl : c.toNat ≤ 0x1f
    · have hZero : hexValue '0' = some 0 := by decide
      have hHigh : hexValue (hexDigit (c.toNat / 16)) = some (c.toNat / 16) :=
        hexValue_hexDigit (by omega)
      have hLow : hexValue (hexDigit (c.toNat % 16)) = some (c.toNat % 16) :=
        hexValue_hexDigit (by omega)
      have hCode : codepoint '0' '0' (hexDigit (c.toNat / 16)) (hexDigit (c.toNat % 16)) =
          some c.toNat := by
        simp only [codepoint, hZero, hHigh, hLow, Option.bind_eq_bind, Option.bind_some,
          Option.pure_def, Option.some.injEq]
        omega
      have hScan := scanString_codepoint hCode (by omega) rest
      rw [Char.ofNat_toNat] at hScan
      rw [if_pos hControl]
      exact hScan
    · have hQuote : c ≠ '"' := fun h => hShort (by simp [h])
      have hBack : c ≠ '\\' := fun h => hShort (by simp [h])
      rw [if_neg hControl]
      exact scanString_plain hQuote hBack (by omega) rest

theorem scanString_dumpEscaped (cs rest : List Char) :
    scanString (dumpEscaped cs ++ '"' :: rest) = some (cs, rest) := by
  induction cs with
  | nil => exact scanString_quote rest
  | cons c cs ih =>
    rw [dumpEscaped, List.append_assoc, scanString_escape, ih]
    rfl

/-! ## Numbers -/

/-- What follows a number does not belong to it. -/
def Delimited (rest : List Char) : Prop :=
  ∀ c ∈ rest.head?, c.isDigit = false ∧ c ≠ '.' ∧ c ≠ 'e' ∧ c ≠ 'E'

theorem delimited_cons {c : Char} {rest : List Char}
    (h : c.isDigit = false ∧ c ≠ '.' ∧ c ≠ 'e' ∧ c ≠ 'E') : Delimited (c :: rest) := by
  intro d hd
  obtain rfl : c = d := by simpa using hd
  exact h

theorem delimited_nil : Delimited [] := by
  intro c hc
  cases hc

theorem spanDigits_append {ds rest : List Char} (hds : ∀ d ∈ ds, d.isDigit = true)
    (h : Delimited rest) : spanDigits (ds ++ rest) = (ds, rest) := by
  have hRest : rest.takeWhile (·.isDigit) = [] ∧ rest.dropWhile (·.isDigit) = rest := by
    cases rest with
    | nil => exact ⟨rfl, rfl⟩
    | cons c rest =>
      have hc : c.isDigit = false := (h c (by simp)).1
      exact ⟨List.takeWhile_cons_of_neg (by simp [hc]), List.dropWhile_cons_of_neg (by simp [hc])⟩
  rw [spanDigits, List.takeWhile_append_of_pos hds, List.dropWhile_append_of_pos hds, hRest.1,
    hRest.2, List.append_nil]

theorem isDigit_toDigits {n : Nat} {c : Char} (h : c ∈ Nat.toDigits 10 n) : c.isDigit = true :=
  Nat.isDigit_of_mem_toDigits (by omega) (by omega) h

/-- A number that is not zero is written without a leading zero. -/
theorem head_toDigits {n : Nat} (h : 0 < n) :
    ∃ c cs, Nat.toDigits 10 n = c :: cs ∧ c ≠ '0' := by
  induction n using Nat.strongRecOn with
  | ind n ih =>
    by_cases hn : n < 10
    · refine ⟨n.digitChar, [], Nat.toDigits_of_lt_base hn, ?_⟩
      have hAll : ∀ m, m < 10 → 0 < m → m.digitChar ≠ '0' := by decide
      exact hAll n hn h
    · obtain ⟨c, cs, hDigits, hc⟩ := ih (n / 10) (by omega) (by omega)
      refine ⟨c, cs ++ [(n % 10).digitChar], ?_, hc⟩
      rw [Nat.toDigits_of_base_le (by omega) (by omega), hDigits, List.cons_append]

theorem scanInteger_toDigits (n : Nat) {rest : List Char} (h : Delimited rest) :
    scanInteger (Nat.toDigits 10 n ++ rest) = some (Nat.toDigits 10 n, rest) := by
  by_cases hn : n = 0
  · rw [hn, Nat.toDigits_zero, List.singleton_append, scanInteger, if_pos rfl]
  · obtain ⟨c, cs, hDigits, hc⟩ := head_toDigits (Nat.pos_of_ne_zero hn)
    have hAll : ∀ d ∈ c :: cs, d.isDigit = true := fun d hd => isDigit_toDigits (hDigits ▸ hd)
    rw [hDigits, List.cons_append, scanInteger, if_neg hc, if_pos (hAll c List.mem_cons_self),
      spanDigits_append (fun d hd => hAll d (List.mem_cons_of_mem _ hd)) h]

theorem scanSign_of_ne {sign : Char} {cs : List Char} (h : ∀ c ∈ cs.head?, c ≠ sign) :
    scanSign sign cs = (false, cs) := by
  cases cs with
  | nil => rfl
  | cons c cs => exact if_neg (h c (by simp))

theorem scanFraction_delimited {rest : List Char} (h : Delimited rest) :
    scanFraction rest = some ([], rest) := by
  rw [scanFraction, scanSign_of_ne fun c hc => (h c hc).2.1]
  rfl

theorem scanExponent_delimited {rest : List Char} (h : Delimited rest) :
    scanExponent rest = some (none, rest) := by
  cases rest with
  | nil => rfl
  | cons c rest =>
    obtain ⟨-, -, he, hE⟩ := h c (by simp)
    exact if_neg (by simp [he, hE])

/-- The token of an integer. -/
def integerToken (n : Int) : Token :=
  if n < 0 then .integer (Int64.ofInt n) else .unsigned (UInt64.ofNat n.natAbs)

theorem scanNumber_dumpInteger {n : Int} (hLow : -2 ^ 63 ≤ n) (hHigh : n < 2 ^ 64)
    {rest : List Char} (h : Delimited rest) :
    scanNumber (dumpInteger n ++ rest) = (integerToken n, rest) := by
  have hValue : digitsValue (Nat.toDigits 10 n.natAbs) = n.natAbs := Nat.ofDigitChars_ten_toDigits
  by_cases hn : n < 0
  · have hSign : scanSign '-' (dumpInteger n ++ rest) =
        (true, Nat.toDigits 10 n.natAbs ++ rest) := by
      rw [dumpInteger, if_pos hn]
      rfl
    rw [scanNumber, hSign]
    simp only [scanInteger_toDigits _ h, scanFraction_delimited h, scanExponent_delimited h,
      Option.bind_eq_bind, Option.bind_some, Option.pure_def, Option.getD_some, numberToken, hValue]
    have hNeg : -(n.natAbs : Int) = n := by omega
    rw [if_neg (by simp), if_pos ⟨by simp, by simp, trivial, by omega⟩, integerToken, if_pos hn,
      hNeg]
  · have hSign : scanSign '-' (dumpInteger n ++ rest) =
        (false, Nat.toDigits 10 n.natAbs ++ rest) := by
      rw [dumpInteger, if_neg hn]
      apply scanSign_of_ne
      rintro c hc rfl
      rw [List.head?_append_of_ne_nil _ Nat.toDigits_ne_nil] at hc
      exact absurd (isDigit_toDigits (List.mem_of_mem_head? hc)) (by decide)
    rw [scanNumber, hSign]
    simp only [scanInteger_toDigits _ h, scanFraction_delimited h, scanExponent_delimited h,
      Option.bind_eq_bind, Option.bind_some, Option.pure_def, Option.getD_some, numberToken, hValue]
    rw [if_pos ⟨by simp, by simp, trivial, by omega⟩, integerToken, if_neg hn]

/-! ## Tokens -/

theorem scan_cons {c : Char} (hc : isWhitespace c = false) (cs : List Char) :
    scan (c :: cs) = scanToken c cs := by
  rw [scan, List.dropWhile_cons_of_neg (by simp [hc])]

theorem tokens_cons {cs rest : List Char} {t : Token} (h : scan cs = (t, rest))
    (ht : t.isLast = false) : tokens cs = t :: tokens rest := by
  rw [tokens, h]
  simp [ht]

theorem scanToken_number {c : Char} (hc : c = '-' ∨ c.isDigit = true) (cs : List Char) :
    scanToken c cs = scanNumber (c :: cs) := by
  have hne : ∀ d : Char, ¬ (d = '-' ∨ d.isDigit = true) → c ≠ d := by
    rintro d hd rfl
    exact hd hc
  unfold scanToken
  rw [if_neg (hne _ (by decide)), if_neg (hne _ (by decide)), if_neg (hne _ (by decide)),
    if_neg (hne _ (by decide)), if_neg (hne _ (by decide)), if_neg (hne _ (by decide)),
    if_neg (hne _ (by decide)), if_neg (hne _ (by decide)), if_neg (hne _ (by decide)),
    if_neg (hne _ (by decide)), if_pos hc]

/-- The token of a scalar. -/
def scalarToken : Scalar → Token
  | .null => .literalNull
  | .boolean b => if b then .literalTrue else .literalFalse
  | .integer n => integerToken n.toInt
  | .unsigned n => integerToken n.toNat
  | .float negative digits exponent => .float negative digits exponent
  | .string s => .string s

theorem scan_dumpInteger {n : Int} (hLow : -2 ^ 63 ≤ n) (hHigh : n < 2 ^ 64) {rest : List Char}
    (h : Delimited rest) : scan (dumpInteger n ++ rest) = (integerToken n, rest) := by
  obtain ⟨c, cs, hDump, hc⟩ : ∃ c cs, dumpInteger n = c :: cs ∧ (c = '-' ∨ c.isDigit = true) := by
    unfold dumpInteger
    split
    · exact ⟨_, _, rfl, Or.inl rfl⟩
    · obtain ⟨c, cs, hDigits⟩ := List.exists_cons_of_ne_nil (Nat.toDigits_ne_nil (n := n.natAbs))
      exact ⟨c, cs, hDigits, Or.inr (isDigit_toDigits (hDigits ▸ List.mem_cons_self))⟩
  have hSpace : isWhitespace c = false := by
    rcases hc with rfl | hc
    · decide
    · by_contra hNot
      simp only [isWhitespace, Bool.not_eq_false, Bool.or_eq_true, beq_iff_eq] at hNot
      rcases hNot with ((rfl | rfl) | rfl) | rfl <;> exact absurd hc (by decide)
  rw [← scanNumber_dumpInteger hLow hHigh h, hDump, List.cons_append, scan_cons hSpace,
    scanToken_number hc]

theorem scan_dumpScalar {a : Scalar} (ha : a.isFloat = false) {rest : List Char}
    (h : Delimited rest) : scan (dumpScalar a ++ rest) = (scalarToken a, rest) := by
  cases a with
  | null => rfl
  | boolean b => cases b <;> rfl
  | integer n => exact scan_dumpInteger (by have := n.le_toInt; omega) (by have := n.toInt_lt; omega) h
  | unsigned n => exact scan_dumpInteger (by omega) (by have := n.toNat_lt; omega) h
  | float negative digits exponent => cases ha
  | string s =>
    have hScan := scanString_dumpEscaped s.toList rest
    rw [dumpScalar, dumpString, List.cons_append, List.append_assoc, List.singleton_append,
      scan_cons (by decide), scanToken]
    simp only [hScan, String.ofList_toList]
    rfl

theorem scalarToken_isLast {a : Scalar} : (scalarToken a).isLast = false := by
  have hInt : ∀ n : Int, (integerToken n).isLast = false := by
    intro n
    unfold integerToken
    split <;> rfl
  cases a with
  | boolean b => cases b <;> rfl
  | integer n => exact hInt _
  | unsigned n => exact hInt _
  | _ => rfl

mutual

/-- The tokens of a tree. -/
def treeTokens : Json → List Token
  | .leaf a => [scalarToken a]
  | .array elements => .beginArray :: (elementTokens elements ++ [.endArray])
  | .object members => .beginObject :: (memberTokens members ++ [.endObject])

def elementTokens : List Json → List Token
  | [] => []
  | [t] => treeTokens t
  | t :: ts => treeTokens t ++ .valueSeparator :: elementTokens ts

def memberTokens : List (String × Json) → List Token
  | [] => []
  | [(k, t)] => .string k :: .nameSeparator :: treeTokens t
  | (k, t) :: ms => .string k :: .nameSeparator :: (treeTokens t ++ .valueSeparator :: memberTokens ms)

end

/-- The tree has no floating-point number. -/
def NoFloat (j : Json) : Prop := j.All fun a => a.isFloat = false

/-- A character that is a token of its own. -/
theorem tokens_structural {c : Char} {t : Token} (hSpace : isWhitespace c = false)
    (hScan : ∀ cs, scanToken c cs = (t, cs)) (ht : t.isLast = false) (cs : List Char) :
    tokens (c :: cs) = t :: tokens cs :=
  tokens_cons ((scan_cons hSpace cs).trans (hScan cs)) ht

theorem tokens_comma (cs : List Char) : tokens (',' :: cs) = .valueSeparator :: tokens cs :=
  tokens_structural (by decide) (fun _ => rfl) rfl cs

theorem tokens_colon (cs : List Char) : tokens (':' :: cs) = .nameSeparator :: tokens cs :=
  tokens_structural (by decide) (fun _ => rfl) rfl cs

theorem tokens_dumpScalar {a : Scalar} (ha : a.isFloat = false) {rest : List Char}
    (h : Delimited rest) : tokens (dumpScalar a ++ rest) = scalarToken a :: tokens rest :=
  tokens_cons (scan_dumpScalar ha h) scalarToken_isLast

/-- The key of a member, up to the value. -/
theorem tokens_dumpKey (k : String) (cs : List Char) :
    tokens (dumpString k ++ ':' :: cs) = .string k :: .nameSeparator :: tokens cs := by
  have hColon : Delimited (':' :: cs) := delimited_cons (by decide)
  have hKey := tokens_dumpScalar (a := .string k) rfl hColon
  rw [tokens_colon] at hKey
  exact hKey

theorem tokens_dumpElements {ts : List Json}
    (ih : ∀ t ∈ ts, ∀ rest, Delimited rest → tokens (dumpTree t ++ rest) = treeTokens t ++ tokens rest)
    {rest : List Char} (h : Delimited rest) :
    tokens (dumpElements ts ++ rest) = elementTokens ts ++ tokens rest := by
  induction ts with
  | nil => simp [dumpElements, elementTokens]
  | cons t ts ihTail =>
    have hHead := ih t List.mem_cons_self
    cases ts with
    | nil =>
      rw [dumpElements, elementTokens]
      exact hHead rest h
    | cons u us =>
      have hTail := ihTail fun t ht => ih t (List.mem_cons_of_mem _ ht)
      rw [dumpElements, elementTokens, List.append_assoc, List.cons_append,
        hHead _ (delimited_cons (by decide)), tokens_comma, hTail, List.append_assoc,
        List.cons_append]
      · simp
      · simp

theorem tokens_dumpMembers {ms : List (String × Json)}
    (ih : ∀ m ∈ ms, ∀ rest, Delimited rest →
      tokens (dumpTree m.2 ++ rest) = treeTokens m.2 ++ tokens rest)
    {rest : List Char} (h : Delimited rest) :
    tokens (dumpMembers ms ++ rest) = memberTokens ms ++ tokens rest := by
  induction ms with
  | nil => simp [dumpMembers, memberTokens]
  | cons m ms ihTail =>
    obtain ⟨k, t⟩ := m
    have hHead := ih (k, t) List.mem_cons_self
    cases ms with
    | nil =>
      rw [dumpMembers, memberTokens, List.append_assoc, List.cons_append, tokens_dumpKey,
        hHead rest h]
      rfl
    | cons u us =>
      have hTail := ihTail fun t ht => ih t (List.mem_cons_of_mem _ ht)
      rw [dumpMembers, memberTokens, List.append_assoc, List.cons_append, List.append_assoc,
        List.cons_append, tokens_dumpKey, hHead _ (delimited_cons (by decide)), tokens_comma, hTail]
      · simp
      · simp
      · simp

/-- The tokens of the text of a tree, before a delimiter. -/
theorem tokens_dumpTree {j : Json} (hFloat : NoFloat j) {rest : List Char} (h : Delimited rest) :
    tokens (dumpTree j ++ rest) = treeTokens j ++ tokens rest := by
  induction j using ValueTree.induction generalizing rest with
  | leaf a =>
    rw [dumpTree, treeTokens]
    exact tokens_dumpScalar (ValueTree.all_leaf.mp hFloat) h
  | array ts ih =>
    have hElements : tokens (dumpElements ts ++ ']' :: rest) =
        elementTokens ts ++ tokens (']' :: rest) :=
      tokens_dumpElements (fun t ht rest h => ih t ht (ValueTree.all_array.mp hFloat t ht) h)
        (delimited_cons (by decide))
    rw [dumpTree, treeTokens, List.cons_append, List.append_assoc, List.singleton_append,
      tokens_structural (c := '[') (t := .beginArray) (by decide) (fun _ => rfl) rfl, hElements,
      tokens_structural (c := ']') (t := .endArray) (by decide) (fun _ => rfl) rfl]
    simp
  | object ms ih =>
    have hMembers : tokens (dumpMembers ms ++ '}' :: rest) =
        memberTokens ms ++ tokens ('}' :: rest) :=
      tokens_dumpMembers (fun m hm rest h => ih m hm (ValueTree.all_object.mp hFloat m hm) h)
        (delimited_cons (by decide))
    rw [dumpTree, treeTokens, List.cons_append, List.append_assoc, List.singleton_append,
      tokens_structural (c := '{') (t := .beginObject) (by decide) (fun _ => rfl) rfl, hMembers,
      tokens_structural (c := '}') (t := .endObject) (by decide) (fun _ => rfl) rfl]
    simp

/-! ## The parser -/

/-- How `parse` holds a scalar: an integer is unsigned unless it is negative. -/
def reread : Scalar → Scalar
  | .integer n => if n.toInt < 0 then .integer n else .unsigned (UInt64.ofNat n.toInt.natAbs)
  | a => a

theorem run_cons (s : State) (t : Token) (ts : List Token) :
    run s (t :: ts) = (step s t).bind fun s => run s ts := List.foldlM_cons

theorem run_append (s : State) (ts us : List Token) :
    run s (ts ++ us) = (run s ts).bind fun s => run s us := List.foldlM_append

theorem startValue_beginArray (stack : List Frame) :
    startValue stack .beginArray = some (.firstElement stack) := rfl

theorem startValue_beginObject (stack : List Frame) :
    startValue stack .beginObject = some (.firstKey stack) := rfl

theorem startValue_float (stack : List Frame) (negative : Bool) (digits : Nat) (exponent : Int) :
    startValue stack (.float negative digits exponent) =
      if overflows digits exponent then none
      else some (complete (.leaf (.float negative digits exponent)) stack) := rfl

theorem startValue_scalarToken {a : Scalar} (ha : a.isFloat = false) (stack : List Frame) :
    startValue stack (scalarToken a) = some (complete (.leaf (reread a)) stack) := by
  cases a with
  | null => rfl
  | boolean b => cases b <;> rfl
  | integer n =>
    rw [scalarToken, integerToken, reread]
    split
    · rw [Int64.ofInt_toInt]
      rfl
    · rfl
  | unsigned n =>
    have hPos : ¬ ((n.toNat : Int) < 0) := by omega
    rw [scalarToken, integerToken, if_neg hPos, Int.natAbs_natCast, UInt64.ofNat_toNat]
    rfl
  | float negative digits exponent => cases ha
  | string s => rfl

/-- A tree starts with a token that no array ends with. -/
theorem treeTokens_head (j : Json) : ∃ t ts, treeTokens j = t :: ts ∧ t ≠ .endArray := by
  cases j with
  | leaf a =>
    refine ⟨scalarToken a, [], by rw [treeTokens], ?_⟩
    cases a with
    | boolean b => cases b <;> exact fun h => by cases h
    | integer n =>
      rw [scalarToken, integerToken]
      split <;> exact fun h => by cases h
    | unsigned n =>
      rw [scalarToken, integerToken]
      split <;> exact fun h => by cases h
    | _ => exact fun h => by cases h
  | array ts => exact ⟨_, _, by rw [treeTokens], fun h => by cases h⟩
  | object ms => exact ⟨_, _, by rw [treeTokens], fun h => by cases h⟩

theorem run_firstElement {ts us : List Token} {t : Token} (h : ts = t :: us) (ht : t ≠ .endArray)
    (stack : List Frame) : run (.firstElement stack) ts = run (.value (.array [] :: stack)) ts := by
  rw [h, run_cons, run_cons]
  cases t with
  | endArray => exact absurd rfl ht
  | _ => rfl

/-- The tree that `parse` makes of the text of a tree. -/
def rereadTree (j : Json) : Json := j.map reread

/-- The trees hold the same values, whichever way their integers are held. -/
def Same (i j : Json) : Prop := rereadTree i = rereadTree j

theorem run_elementTokens {ts : List Json}
    (ih : ∀ t ∈ ts, ∀ stack, run (.value stack) (treeTokens t) = some (complete (rereadTree t) stack))
    (hne : ts ≠ []) (elements : List Json) (stack : List Frame) :
    run (.value (.array elements :: stack)) (elementTokens ts ++ [.endArray]) =
      some (complete (.array (elements ++ ts.map rereadTree)) stack) := by
  induction ts generalizing elements with
  | nil => exact absurd rfl hne
  | cons t ts ihTail =>
    have hHead := ih t List.mem_cons_self (.array elements :: stack)
    cases ts with
    | nil =>
      rw [elementTokens, run_append, hHead]
      rfl
    | cons u us =>
      have hTail := ihTail (fun t ht => ih t (List.mem_cons_of_mem _ ht)) (by simp)
        (elements ++ [rereadTree t])
      rw [elementTokens, List.append_assoc, run_append, hHead, Option.bind_some, List.cons_append,
        run_cons]
      · rw [List.append_assoc, List.singleton_append] at hTail
        exact hTail
      · simp

theorem run_memberTokens {ms : List (String × Json)}
    (ih : ∀ m ∈ ms, ∀ stack,
      run (.value stack) (treeTokens m.2) = some (complete (rereadTree m.2) stack))
    (hne : ms ≠ []) (members : List (String × Json)) (stack : List Frame)
    (hSorted : OrderedMap.Sorted (members ++ ms.map fun m => (m.1, rereadTree m.2))) :
    run (.key stack members) (memberTokens ms ++ [.endObject]) =
      some (complete (.object (members ++ ms.map fun m => (m.1, rereadTree m.2))) stack) := by
  induction ms generalizing members with
  | nil => exact absurd rfl hne
  | cons m ms ihTail =>
    obtain ⟨k, t⟩ := m
    have hHead := ih (k, t) List.mem_cons_self (.object members k :: stack)
    have hLast : ∀ p ∈ members, p.1 < k := fun p hp =>
      (List.pairwise_append.mp hSorted).2.2 p hp (k, rereadTree t) List.mem_cons_self
    have hComplete : complete (rereadTree t) (.object members k :: stack) =
        .next (.object (members ++ [(k, rereadTree t)]) k :: stack) := by
      rw [complete, OrderedMap.insert_of_lt hLast]
    rw [hComplete] at hHead
    cases ms with
    | nil =>
      rw [memberTokens, List.cons_append, List.cons_append, run_cons, step, Option.bind_some,
        run_cons, step, Option.bind_some, run_append, hHead]
      rfl
    | cons u us =>
      have hTail := ihTail (fun t ht => ih t (List.mem_cons_of_mem _ ht)) (by simp)
        (members ++ [(k, rereadTree t)]) (by simpa using hSorted)
      rw [memberTokens, List.cons_append, List.cons_append, List.append_assoc, run_cons, step,
        Option.bind_some, run_cons, step, Option.bind_some, run_append, hHead, Option.bind_some,
        List.cons_append, run_cons, step, Option.bind_some]
      · rw [List.append_assoc, List.singleton_append] at hTail
        exact hTail
      · simp

/-- The tokens of a tree put the tree where a value is awaited. -/
theorem run_treeTokens {j : Json} (hFloat : NoFloat j) (hWf : j.WellFormed) (stack : List Frame) :
    run (.value stack) (treeTokens j) = some (complete (rereadTree j) stack) := by
  induction j using ValueTree.induction generalizing stack with
  | leaf a =>
    rw [treeTokens, run_cons, step, startValue_scalarToken (ValueTree.all_leaf.mp hFloat),
      rereadTree, ValueTree.map_leaf]
    rfl
  | array ts ih =>
    have hEach : ∀ t ∈ ts, ∀ stack,
        run (.value stack) (treeTokens t) = some (complete (rereadTree t) stack) := fun t ht stack =>
      ih t ht (ValueTree.all_array.mp hFloat t ht) (ValueTree.wellFormed_array.mp hWf t ht) stack
    rw [treeTokens, run_cons, step, startValue_beginArray, Option.bind_some, rereadTree,
      ValueTree.map_array]
    cases ts with
    | nil => rfl
    | cons t ts =>
      have hHead : ∃ u us, elementTokens (t :: ts) ++ [.endArray] = u :: us ∧ u ≠ .endArray := by
        obtain ⟨u, us, hTokens, hu⟩ := treeTokens_head t
        cases ts with
        | nil => exact ⟨u, us ++ [.endArray], by rw [elementTokens, hTokens]; rfl, hu⟩
        | cons v vs =>
          refine ⟨u, us ++ (.valueSeparator :: elementTokens (v :: vs)) ++ [.endArray], ?_, hu⟩
          rw [elementTokens, hTokens]
          · rfl
          · simp
      obtain ⟨u, us, hTokens, hu⟩ := hHead
      rw [run_firstElement hTokens hu]
      exact run_elementTokens hEach (by simp) [] stack
  | object ms ih =>
    obtain ⟨hSorted, hMembers⟩ := ValueTree.wellFormed_object.mp hWf
    have hEach : ∀ m ∈ ms, ∀ stack,
        run (.value stack) (treeTokens m.2) = some (complete (rereadTree m.2) stack) :=
      fun m hm stack => ih m hm (ValueTree.all_object.mp hFloat m hm) (hMembers m hm) stack
    rw [treeTokens, run_cons, step, startValue_beginObject, Option.bind_some, rereadTree,
      ValueTree.map_object _ hSorted]
    cases ms with
    | nil => rfl
    | cons m ms =>
      have hFirst : run (.firstKey stack) (memberTokens (m :: ms) ++ [.endObject]) =
          run (.key stack []) (memberTokens (m :: ms) ++ [.endObject]) := by
        cases ms with
        | nil => rw [memberTokens]; rfl
        | cons v vs =>
          rw [memberTokens]
          · rfl
          · simp
      rw [hFirst]
      exact run_memberTokens hEach (by simp) [] stack (ValueTree.sorted_mapMembers reread hSorted)

theorem dumpTree_head (j : Json) (hFloat : NoFloat j) : ∃ c cs, dumpTree j = c :: cs ∧ c ≠ '\ufeff' := by
  cases j with
  | array ts => exact ⟨_, _, by rw [dumpTree], by decide⟩
  | object ms => exact ⟨_, _, by rw [dumpTree], by decide⟩
  | leaf a =>
    have hInt : ∀ n : Int, ∃ c cs, dumpInteger n = c :: cs ∧ c ≠ '\ufeff' := by
      intro n
      unfold dumpInteger
      split
      · exact ⟨_, _, rfl, by decide⟩
      · obtain ⟨c, cs, hDigits⟩ := List.exists_cons_of_ne_nil (Nat.toDigits_ne_nil (n := n.natAbs))
        refine ⟨c, cs, hDigits, ?_⟩
        rintro rfl
        have := isDigit_toDigits (hDigits ▸ List.mem_cons_self : '\ufeff' ∈ Nat.toDigits 10 n.natAbs)
        exact absurd this (by decide)
    rw [dumpTree]
    cases a with
    | null => exact ⟨_, _, rfl, by decide⟩
    | boolean b => cases b <;> exact ⟨_, _, rfl, by decide⟩
    | integer n => exact hInt _
    | unsigned n => exact hInt _
    | float negative digits exponent => cases ValueTree.all_leaf.mp hFloat
    | string s => exact ⟨_, _, rfl, by decide⟩

theorem tokens_nil : tokens [] = [.endOfInput] := by
  rw [tokens]
  rfl

/-- A tree is read back from its text. -/
theorem parse_dump {j : Json} (hFloat : NoFloat j) (hWf : j.WellFormed) :
    parse (dump j) = some (rereadTree j) := by
  have hTokens := tokens_dumpTree hFloat delimited_nil
  rw [List.append_nil, tokens_nil] at hTokens
  have hMark : scanSign '\ufeff' (dumpTree j) = (false, dumpTree j) := by
    apply scanSign_of_ne
    obtain ⟨c, cs, hDump, hc⟩ := dumpTree_head j hFloat
    intro d hd
    rw [hDump, List.head?_cons, Option.mem_some_iff] at hd
    exact hd ▸ hc
  rw [parse, dump, String.toList_ofList, hMark, hTokens, run_append, run_treeTokens hFloat hWf]
  rfl

/-! ## Strings that are JSON texts -/

/-- The parser is inside of an array or an object, or has read one. -/
def Inside : State → Prop
  | .value stack => stack ≠ []
  | .done j => ∀ a, j ≠ .leaf a
  | .accepted j => ∀ a, j ≠ .leaf a
  | _ => True

theorem inside_complete {j : Json} {stack : List Frame} (h : stack ≠ [] ∨ ∀ a, j ≠ .leaf a) :
    Inside (complete j stack) := by
  cases stack with
  | nil => exact h.resolve_left fun hne => hne rfl
  | cons f stack => cases f <;> trivial

theorem inside_startValue {stack : List Frame} {t : Token} {s : State} (hne : stack ≠ [])
    (h : startValue stack t = some s) : Inside s := by
  have hComplete : ∀ j, complete j stack = s → Inside s := fun j hj =>
    hj ▸ inside_complete (Or.inl hne)
  cases t with
  | float negative digits exponent =>
    rw [startValue_float] at h
    split at h
    · cases h
    · exact hComplete _ (Option.some.inj h)
  | beginArray => cases h; trivial
  | beginObject => cases h; trivial
  | endArray => cases h
  | endObject => cases h
  | nameSeparator => cases h
  | valueSeparator => cases h
  | parseError => cases h
  | endOfInput => cases h
  | _ => exact hComplete _ (Option.some.inj h)

theorem inside_step {s s' : State} {t : Token} (hs : Inside s) (h : step s t = some s') :
    Inside s' := by
  unfold step at h
  split at h
  · exact inside_startValue hs h
  · cases h; exact inside_complete (Or.inr fun a => by simp)
  · exact inside_startValue (by simp) h
  · cases h; exact inside_complete (Or.inr fun a => by simp)
  · cases h; trivial
  · cases h; trivial
  · cases h; exact List.cons_ne_nil _ _
  · cases h; exact List.cons_ne_nil _ _
  · cases h; exact inside_complete (Or.inr fun a => by simp)
  · cases h; trivial
  · cases h; exact inside_complete (Or.inr fun a => by simp)
  · cases h; exact hs
  · cases h

theorem inside_run {s s' : State} {ts : List Token} (hs : Inside s) (h : run s ts = some s') :
    Inside s' := by
  induction ts generalizing s with
  | nil =>
    cases h
    exact hs
  | cons t ts ih =>
    rw [run_cons] at h
    obtain ⟨u, hu, hRest⟩ := Option.bind_eq_some_iff.mp h
    exact ih (inside_step hs hu) hRest

theorem run_done {j j' : Json} {ts : List Token} (h : run (.done j) ts = some (.accepted j')) :
    j = j' := by
  cases ts with
  | nil => cases h
  | cons t ts =>
    rw [run_cons] at h
    obtain ⟨u, hu, hRest⟩ := Option.bind_eq_some_iff.mp h
    cases t with
    | endOfInput =>
      cases hu
      cases ts with
      | nil =>
        cases hRest
        rfl
      | cons t ts => cases hRest
    | _ => cases hu

/-- A text that is read as a string starts with that string. -/
theorem run_string {t : Token} {ts : List Token} {s : String}
    (h : run (.value []) (t :: ts) = some (.accepted (.leaf (.string s)))) : t = .string s := by
  rw [run_cons, step] at h
  obtain ⟨u, hu, hRest⟩ := Option.bind_eq_some_iff.mp h
  have hLeaf : ∀ a, u = .done (.leaf a) → a = .string s := by
    rintro a rfl
    exact ValueTree.leaf.inj (run_done hRest)
  have hInside : ¬ Inside u := fun hInside => inside_run hInside hRest _ rfl
  cases t with
  | string s' =>
    cases hu
    exact congrArg Token.string (Scalar.string.inj (hLeaf _ rfl))
  | float negative digits exponent =>
    rw [startValue_float] at hu
    split at hu
    · cases hu
    · cases hu
      cases hLeaf _ rfl
  | beginArray =>
    cases hu
    exact absurd trivial hInside
  | beginObject =>
    cases hu
    exact absurd trivial hInside
  | literalTrue => cases hu; cases hLeaf _ rfl
  | literalFalse => cases hu; cases hLeaf _ rfl
  | literalNull => cases hu; cases hLeaf _ rfl
  | unsigned n => cases hu; cases hLeaf _ rfl
  | integer n => cases hu; cases hLeaf _ rfl
  | _ => cases hu

/-- No text is the JSON text of itself as a string: a string is shorter than its text. -/
theorem parse_ne_string (s : String) : parse s ≠ some (.leaf (.string s)) := by
  intro h
  obtain ⟨u, hRun, hResult⟩ := Option.bind_eq_some_iff.mp h
  have hMark := scanSign_length '\ufeff' s.toList
  obtain ⟨cs, hcs⟩ : ∃ cs, cs = (scanSign '\ufeff' s.toList).2 := ⟨_, rfl⟩
  rw [← hcs] at hRun hMark
  have hu : u = .accepted (.leaf (.string s)) := by
    cases u with
    | accepted j => exact congrArg State.accepted (Option.some.inj hResult)
    | _ => cases hResult
  have hFirst : (scan cs).1 = .string s := by
    rw [tokens, hu] at hRun
    split at hRun
    · exact run_string hRun
    · exact run_string hRun
  have hLength := @scan_length cs (by rw [hFirst]; rfl)
  rw [hFirst, Token.size, ← String.length_toList] at hLength
  omega

/-! ## Control characters -/

theorem nul_notMem_dumpInteger (n : Int) : '\x00' ∉ dumpInteger n := by
  have hDigits : '\x00' ∉ Nat.toDigits 10 n.natAbs := fun h =>
    absurd (isDigit_toDigits h) (by decide)
  unfold dumpInteger
  split
  · simp [hDigits]
  · exact hDigits

theorem nul_notMem_escape (c : Char) : '\x00' ∉ escape c := by
  by_cases hShort : c ∈ ['\x08', '\t', '\n', '\x0c', '\r', '"', '\\']
  · simp only [List.mem_cons, List.not_mem_nil, or_false] at hShort
    rcases hShort with rfl | rfl | rfl | rfl | rfl | rfl | rfl <;> decide
  · rw [escape_of_notMem hShort]
    by_cases hControl : c.toNat ≤ 0x1f
    · have hDigit : ∀ n < 16, '\x00' ≠ hexDigit n := by decide
      have hHigh := hDigit (c.toNat / 16) (by omega)
      have hLow := hDigit (c.toNat % 16) (by omega)
      rw [if_pos hControl]
      simp [hHigh, hLow]
    · rw [if_neg hControl, List.mem_singleton]
      rintro rfl
      exact hControl (by decide)

theorem nul_notMem_dumpString (s : String) : '\x00' ∉ dumpString s := by
  have hEscaped : ∀ cs : List Char, '\x00' ∉ dumpEscaped cs := by
    intro cs
    induction cs with
    | nil => simp [dumpEscaped]
    | cons c cs ih =>
      rw [dumpEscaped, List.mem_append, not_or]
      exact ⟨nul_notMem_escape c, ih⟩
  simp [dumpString, hEscaped]

theorem nul_notMem_dumpScalar (a : Scalar) : '\x00' ∉ dumpScalar a := by
  cases a with
  | null => decide
  | boolean b => cases b <;> decide
  | integer n => exact nul_notMem_dumpInteger _
  | unsigned n => exact nul_notMem_dumpInteger _
  | float negative digits exponent =>
    have hDigits : '\x00' ∉ Nat.toDigits 10 digits := fun h =>
      absurd (isDigit_toDigits h) (by decide)
    have hExponent := nul_notMem_dumpInteger exponent
    cases negative <;> simp [dumpScalar, hDigits, hExponent]
  | string s => exact nul_notMem_dumpString s

/-- A NUL in a tree is escaped in its text. -/
theorem nul_notMem_dumpTree (j : Json) : '\x00' ∉ dumpTree j := by
  induction j using ValueTree.induction with
  | leaf a => rw [dumpTree]; exact nul_notMem_dumpScalar a
  | array ts ih =>
    have hElements : '\x00' ∉ dumpElements ts := by
      induction ts with
      | nil => simp [dumpElements]
      | cons t ts ihList =>
        obtain ⟨hHead, hTail⟩ := List.forall_mem_cons.mp ih
        cases ts with
        | nil => rwa [dumpElements]
        | cons u us =>
          rw [dumpElements]
          · simp [hHead, ihList hTail]
          · simp
    rw [dumpTree]
    simp [hElements]
  | object ms ih =>
    have hMembers : '\x00' ∉ dumpMembers ms := by
      induction ms with
      | nil => simp [dumpMembers]
      | cons m ms ihList =>
        obtain ⟨k, t⟩ := m
        obtain ⟨hHead, hTail⟩ := List.forall_mem_cons.mp ih
        have hKey := nul_notMem_dumpString k
        cases ms with
        | nil =>
          rw [dumpMembers]
          simp [hKey, hHead]
        | cons n ns =>
          rw [dumpMembers]
          · simp [hKey, hHead, ihList hTail]
          · simp
    rw [dumpTree]
    simp [hMembers]

end Json
