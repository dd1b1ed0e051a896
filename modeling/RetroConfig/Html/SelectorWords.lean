import RetroConfig.Html.SelectorBounds

/-!
# Writing the parts of a selector

Texts for names, strings and numbers that the parser reads back. Bytes that may stand for themselves
do so, and all others are written as an escape of two digits with a blank after it (`Spelled`). Every
text of bytes can be written in this way, whatever the platform.
-/

namespace RetroConfig.Html

/-! ## Bytes -/

def hexByte (n : Nat) : UInt8 := if n < 10 then UInt8.ofNat (48 + n) else UInt8.ofNat (87 + n)

/-- A byte, as an escape. -/
def writeEscape (c : UInt8) : Bytes := [92, hexByte (c.toNat / 16), hexByte (c.toNat % 16), 32]

/-- A byte that stands for itself if `p` lets it. -/
def writeByte (p : UInt8 → Bool) (c : UInt8) : Bytes := if p c then [c] else writeEscape c

/-- The bytes that start a name on every platform. -/
def startByte (c : UInt8) : Bool := (97 ≤ c && c ≤ 122) || (65 ≤ c && c ≤ 90) || c == 95

/-- The bytes that a name has on every platform. -/
def nameByte (c : UInt8) : Bool := startByte c || c == 45 || (48 ≤ c && c ≤ 57)

def writeName (name : Bytes) : Bytes := name.flatMap (writeByte nameByte)

def writeIdentifier : Bytes → Bytes
  | [] => []
  | c :: name => writeByte startByte c ++ writeName name

def writeString (value : Bytes) : Bytes := 34 :: value.flatMap (writeByte (CParser.plain 34)) ++ [34]

def writeInteger (n : Int) : Bytes :=
  if n < 0 then 45 :: Decimal.decimal n.natAbs else Decimal.decimal n.natAbs

/-- The text of `an+b`. -/
def writeNth (a b : Int) : Bytes :=
  if a = 0 then writeInteger b else writeInteger a ++ 110 :: 43 :: writeInteger b

/-- The numbers that can be read without an overflow. -/
def Readable (n : Int) : Prop := n.natAbs + 48 < 2 ^ 31

instance (n : Int) : Decidable (Readable n) := inferInstanceAs (Decidable (_ < _))

/-- What `parseNth` can give. -/
def NthReadable (a b : Int) : Prop := Readable a ∧ Readable b ∧ (a = 0 ∨ 0 ≤ b)

/-- A text that spells bytes: each stands for itself, if it may, or is an escape. -/
inductive Spelled (p : UInt8 → Bool) : Bytes → Bytes → Prop
  | nil : Spelled p [] []
  | plain {c : UInt8} {name text : Bytes} (hc : p c = true) (h : Spelled p name text) :
    Spelled p (c :: name) (c :: text)
  | escaped {c : UInt8} {name text : Bytes} (h : Spelled p name text) :
    Spelled p (c :: name) (writeEscape c ++ text)

section Spelled

variable {p q : UInt8 → Bool} {c : UInt8} {name text : Bytes}

theorem Spelled.writeByte (hpq : q c = true → p c = true) (h : Spelled p name text) :
    Spelled p (c :: name) (writeByte q c ++ text) := by
  unfold Html.writeByte
  split
  · next hc => exact .plain (hpq hc) h
  · exact .escaped h

theorem spelled_flatMap (p : UInt8 → Bool) (name : Bytes) :
    Spelled p name (name.flatMap (Html.writeByte p)) := by
  induction name with
  | nil => exact .nil
  | cons c name ih => exact ih.writeByte id

theorem nameByte_of_startByte (h : startByte c = true) : nameByte c = true := by simp [nameByte, h]

theorem spelled_writeIdentifier (name : Bytes) : Spelled nameByte name (writeIdentifier name) := by
  cases name with
  | nil => exact .nil
  | cons c name => exact (spelled_flatMap nameByte name).writeByte nameByte_of_startByte

/-- The bytes at the start of a text that stand for themselves. -/
theorem Spelled.exists_run (h : Spelled p name text) :
    ∃ run name' text', name = run ++ name' ∧ text = run ++ text' ∧ (∀ c ∈ run, p c = true) ∧
      Spelled p name' text' ∧ (text' = [] ∨ text'.head? = some 92) := by
  induction h with
  | nil => exact ⟨[], [], [], rfl, rfl, by simp, .nil, .inl rfl⟩
  | @plain c _ _ hc _ ih =>
    obtain ⟨run, name', text', rfl, rfl, hRun, hSpelled, hEnd⟩ := ih
    refine ⟨c :: run, name', text', rfl, rfl, ?_, hSpelled, hEnd⟩
    intro a ha
    rcases List.mem_cons.mp ha with rfl | ha
    · exact hc
    · exact hRun a ha
  | @escaped c name text h _ => exact ⟨[], _, _, rfl, rfl, by simp, .escaped h, .inr rfl⟩

/-- What is read at once is such a run, if an escape and what follows end it. -/
theorem takeWhile_run {run w tail : Bytes} (hRun : ∀ c ∈ run, q c = true)
    (hEnd : w = [] ∨ w.head? = some 92) (hEscape : q 92 = false)
    (hTail : ∀ c, tail.head? = some c → q c = false) :
    (run ++ w ++ tail).takeWhile q = run := by
  have hStop : ∀ c, (w ++ tail).head? = some c → q c = false := by
    intro c hc
    cases w with
    | nil => exact hTail c hc
    | cons a w =>
      obtain rfl := Option.some.inj hc
      obtain rfl := Option.some.inj (hEnd.resolve_left (List.cons_ne_nil _ _))
      exact hEscape
  have hRest : (w ++ tail).takeWhile q = [] := by
    cases hText : w ++ tail with
    | nil => rfl
    | cons a rest => exact List.takeWhile_cons_of_neg (by simp [hStop a (by rw [hText]; rfl)])
  rw [List.append_assoc, List.takeWhile_append_of_pos hRun, hRest, List.append_nil]

end Spelled

namespace CParser

variable {s o : CParser} {w name text tail : Bytes} {c : UInt8}

/-! ## Positions -/

theorem rest_advance (h : s.rest = w ++ tail) : (s.advance w.length).rest = tail := by
  rw [advance, h, List.drop_left]

theorem advance_advance (s : CParser) (m n : Nat) : (s.advance m).advance n = s.advance (m + n) := by
  simp only [advance, List.drop_drop, List.take_add, List.reverse_append, List.append_assoc]

/-! ## Names -/

theorem writeEscape_facts (c : UInt8) :
    newline (hexByte (c.toNat / 16)) = false ∧ hexDigit (hexByte (c.toNat / 16)) = true ∧
      hexDigit (hexByte (c.toNat % 16)) = true ∧
      (0 : UInt8) + hexValue (hexByte (c.toNat / 16)) <<< 4 + hexValue (hexByte (c.toNat % 16)) = c := by
  have hAll : ∀ n < 256, newline (hexByte (n / 16)) = false ∧ hexDigit (hexByte (n / 16)) = true ∧
      hexDigit (hexByte (n % 16)) = true ∧
      (0 : UInt8) + hexValue (hexByte (n / 16)) <<< 4 + hexValue (hexByte (n % 16)) = UInt8.ofNat n := by
    decide +kernel
  have h := hAll c.toNat c.toNat_lt
  rwa [UInt8.ofNat_toNat] at h

theorem parseEscape_eq (h : s.rest = writeEscape c ++ tail) :
    s.parseEscape = .ok ([c], s.advance 4) := by
  obtain ⟨hNewline, hFirst, hSecond, hValue⟩ := writeEscape_facts c
  have hRest : s.rest = 92 :: hexByte (c.toNat / 16) :: hexByte (c.toNat % 16) :: 32 :: tail := h
  have hDigits : ((hexByte (c.toNat / 16) :: hexByte (c.toNat % 16) :: 32 :: tail).take 5).takeWhile
      hexDigit = [hexByte (c.toNat / 16), hexByte (c.toNat % 16)] := by
    rw [List.take_succ_cons, List.take_succ_cons, List.take_succ_cons,
      List.takeWhile_cons_of_pos hFirst, List.takeWhile_cons_of_pos hSecond,
      List.takeWhile_cons_of_neg (by decide)]
  have hEnd : (s.advance 3).escapeEnd = s.advance 4 := by
    have hBlank : (s.advance 3).rest = 32 :: tail := by rw [advance, hRest]; rfl
    rw [escapeEnd, hBlank]
    exact advance_advance s 3 1
  have hHex : hexLoop [hexByte (c.toNat / 16), hexByte (c.toNat % 16)] 0 0 [] = (0, [c]) := by
    show ((0, [] ++ [(0 : UInt8) + hexValue (hexByte (c.toNat / 16)) <<< 4 +
      hexValue (hexByte (c.toNat % 16))]) : UInt8 × Bytes) = _
    rw [hValue, List.nil_append]
  rw [parseEscape, hRest]
  show (if newline (hexByte (c.toNat / 16)) then _ else if !hexDigit (hexByte (c.toNat / 16)) then _
    else _) = _
  rw [if_neg (by simp [hNewline]), if_neg (by simp [hFirst]), hDigits]
  dsimp only
  rw [hHex]
  exact congrArg (fun s => Except.ok ([c], s)) hEnd

/-- What may follow a name: no byte that goes on with it. -/
def NameEnd (tail : Bytes) : Prop :=
  ∀ c, tail.head? = some c → c ≤ 127 ∧ nameByte c = false ∧ c ≠ 92

theorem nameChar_of_nameByte (s : CParser) (h : nameByte c = true) : s.nameChar c = true := by
  simp only [nameByte, startByte, Bool.or_eq_true] at h
  simp only [nameChar, nameStart, Bool.or_eq_true]
  tauto

theorem nameChar_eq_false (s : CParser) (hLow : c ≤ 127) (h : nameByte c = false) :
    s.nameChar c = false := by
  have hHigh : decide (c > 127) = false := by simpa using hLow
  simp only [nameByte, startByte, Bool.or_eq_false_iff] at h
  simp only [nameChar, nameStart, hHigh, Bool.and_false, Bool.or_false, Bool.or_eq_false_iff]
  exact h

theorem nameLoop_eq {fuel : Nat} (ret : Bytes) (h : Spelled nameByte name text)
    (hRest : o.rest = text ++ tail) (hTail : NameEnd tail) (hFuel : text.length < fuel) :
    ∃ s', nameLoop fuel s o ret = .ok (ret ++ name, s', o.advance text.length) := by
  induction fuel generalizing s o ret name text with
  | zero => exact absurd hFuel (Nat.not_lt_zero _)
  | succ fuel ih =>
    cases h with
    | nil =>
      refine ⟨s, ?_⟩
      rw [nameLoop, hRest, List.nil_append, List.append_nil]
      cases tail with
      | nil => rfl
      | cons c tail =>
        obtain ⟨hLow, hName, hEscape⟩ := hTail c rfl
        dsimp only
        rw [if_neg (by simp [nameChar_eq_false o hLow hName]), if_neg hEscape]
        rfl
    | @plain c name text hc h =>
      obtain ⟨run, name', text', rfl, rfl, hRun, hSpelled, hEnd⟩ := h.exists_run
      have hChunk : o.rest.takeWhile o.nameChar = c :: run := by
        rw [hRest, ← List.cons_append]
        refine takeWhile_run ?_ hEnd (nameChar_eq_false o (by decide) (by decide)) ?_
        · intro a ha
          refine nameChar_of_nameByte o ?_
          rcases List.mem_cons.mp ha with rfl | ha
          · exact hc
          · exact hRun a ha
        · exact fun a ha => nameChar_eq_false o (hTail a ha).1 (hTail a ha).2.1
      have hNext : (o.advance (c :: run).length).rest = text' ++ tail :=
        rest_advance (by rw [hRest]; simp)
      obtain ⟨s', hLoop⟩ := ih (s := s) (ret ++ c :: run) hSpelled hNext (by
        simp only [List.length_cons, List.length_append] at hFuel
        omega)
      refine ⟨s', ?_⟩
      have hHead : o.rest = c :: (run ++ text' ++ tail) := by rw [hRest]; rfl
      rw [nameLoop, hHead]
      dsimp only
      have hLength : (c :: run).length + text'.length = (c :: (run ++ text')).length := by
        rw [← List.cons_append, List.length_append]
      rw [if_pos (nameChar_of_nameByte o hc), ← hHead, hChunk, hLoop, advance_advance, hLength,
        List.append_assoc, List.cons_append]
    | @escaped c name text h =>
      have hEscape : o.rest = writeEscape c ++ (text ++ tail) := by rw [hRest, List.append_assoc]
      have hNext : (o.advance 4).rest = text ++ tail := rest_advance (w := writeEscape c) hEscape
      obtain ⟨s', hLoop⟩ := ih (s := o.advance 4) (ret ++ [c]) h hNext (by
        simp only [writeEscape, List.length_cons, List.length_append] at hFuel
        omega)
      refine ⟨s', ?_⟩
      have hHead : o.rest = 92 :: ((writeEscape c).tail ++ (text ++ tail)) := hEscape
      rw [nameLoop, hHead]
      dsimp only
      rw [if_neg (by simp [nameChar_eq_false o (c := 92) (by decide) (by decide)]), if_pos rfl,
        parseEscape_eq hEscape]
      show nameLoop fuel (o.advance 4) (o.advance 4) (ret ++ [c]) = _
      have hLength : 4 + text.length = (writeEscape c ++ text).length := by
        rw [List.length_append]
        rfl
      rw [hLoop, advance_advance, hLength, List.append_assoc, List.singleton_append]

theorem parseName_eq (h : Spelled nameByte name text) (hName : name ≠ [])
    (hRest : s.rest = text ++ tail) (hTail : NameEnd tail) :
    s.parseName = .ok (name, s.advance text.length) := by
  have hLength : text.length < s.rest.length + 1 := by
    rw [hRest, List.length_append]
    omega
  obtain ⟨s', hLoop⟩ := nameLoop_eq (s := s) [] h hRest hTail hLength
  rw [parseName, hLoop]
  show (if [] ++ name = [] then _ else _) = _
  rw [List.nil_append, if_neg hName]

/-- An identifier starts with a byte that starts one everywhere, or with an escape. -/
theorem exists_head_writeIdentifier (hName : name ≠ []) (tail : Bytes) :
    ∃ a rest, writeIdentifier name ++ tail = a :: rest ∧ (startByte a = true ∨ a = 92) := by
  obtain ⟨c, name, rfl⟩ := List.exists_cons_of_ne_nil hName
  rw [writeIdentifier, writeByte]
  split
  · next hc => exact ⟨c, _, rfl, .inl hc⟩
  · exact ⟨92, _, rfl, .inr rfl⟩

theorem parseIdentifier_eq (hName : name ≠ []) (hRest : s.rest = writeIdentifier name ++ tail)
    (hTail : NameEnd tail) :
    s.parseIdentifier = .ok (name, s.advance (writeIdentifier name).length) := by
  have hParse := parseName_eq (spelled_writeIdentifier name) hName hRest hTail
  obtain ⟨a, rest, hHead, hStart⟩ := exists_head_writeIdentifier hName tail
  rw [← hRest] at hHead
  have hDash : a ≠ 45 := by
    rintro rfl
    rcases hStart with h | h
    · exact absurd h (by decide)
    · exact absurd h (by decide)
  rw [parseIdentifier, hHead, if_neg (by simpa using hDash), parseIdentifierFrom, hHead]
  dsimp only
  rw [if_neg, hParse]
  rcases hStart with h | rfl
  · have hNameStart : s.nameStart a = true := by
      simp only [startByte] at h
      simp only [nameStart, h, Bool.true_or]
    simp [hNameStart]
  · simp

/-! ## Strings -/

/-- A round of the loop that does not start at a backslash. -/
theorem stringLoop_cons {quote : UInt8} {fuel : Nat} {ret rest : Bytes} (hRest : o.rest = c :: rest)
    (hc : c ≠ 92) :
    stringLoop quote (fuel + 1) s o ret =
      if c = quote then .ok (ret, o.advance 1)
      else if newline c then s.fail "unexpected end of line in string"
      else stringLoop quote fuel s (o.advance (o.rest.takeWhile (plain quote)).length)
        (ret ++ o.rest.takeWhile (plain quote)) := by
  rw [stringLoop]
  split
  · next h => rw [hRest] at h; cases h
  · next h =>
    rw [hRest] at h
    exact absurd (List.cons.inj h).1 hc
  · next c' rest' _ h =>
    rw [hRest] at h
    obtain ⟨rfl, rfl⟩ := List.cons.inj h
    rw [if_neg hc]

/-- A round that starts at an escape. -/
theorem stringLoop_escape {quote a : UInt8} {fuel : Nat} {ret rest : Bytes}
    (hRest : o.rest = 92 :: a :: rest) (ha : newline a = false) :
    stringLoop quote (fuel + 1) s o ret =
      o.parseEscape >>= fun r => stringLoop quote fuel r.2 r.2 (ret ++ r.1) := by
  rw [stringLoop]
  split
  · next h => rw [hRest] at h; cases h
  · next rest' h =>
    rw [hRest] at h
    obtain rfl : a = 13 := (List.cons.inj (List.cons.inj h).2).1
    cases ha
  · next c' rest' _ h =>
    rw [hRest] at h
    obtain ⟨rfl, rfl⟩ := List.cons.inj h
    rw [if_pos rfl, if_neg (by simp [ha])]

theorem stringLoop_eq {fuel : Nat} (ret : Bytes) (h : Spelled (plain 34) name text)
    (hRest : o.rest = text ++ 34 :: tail) (hFuel : text.length < fuel) :
    stringLoop 34 fuel s o ret = .ok (ret ++ name, o.advance (text.length + 1)) := by
  induction fuel generalizing s o ret name text with
  | zero => exact absurd hFuel (Nat.not_lt_zero _)
  | succ fuel ih =>
    cases h with
    | nil => rw [stringLoop_cons hRest (by decide), if_pos rfl, List.append_nil]; rfl
    | @plain c name text hc h =>
      obtain ⟨run, name', text', rfl, rfl, hRun, hSpelled, hEnd⟩ := h.exists_run
      have hChunk : o.rest.takeWhile (plain 34) = c :: run := by
        rw [hRest, ← List.cons_append]
        refine takeWhile_run ?_ hEnd (by decide) ?_
        · intro a ha
          rcases List.mem_cons.mp ha with rfl | ha
          · exact hc
          · exact hRun a ha
        · intro a ha
          obtain rfl := Option.some.inj ha
          decide
      have hNext : (o.advance (c :: run).length).rest = text' ++ 34 :: tail :=
        rest_advance (by rw [hRest]; simp)
      have hLoop := ih (s := s) (ret ++ c :: run) hSpelled hNext (by
        simp only [List.length_cons, List.length_append] at hFuel
        omega)
      have hHead : o.rest = c :: (run ++ text' ++ 34 :: tail) := by rw [hRest]; rfl
      simp only [plain, Bool.not_eq_true', Bool.or_eq_false_iff, beq_eq_false_iff_ne] at hc
      have hLength : (c :: run).length + (text'.length + 1) = (c :: (run ++ text')).length + 1 := by
        rw [← List.cons_append, List.length_append, Nat.add_assoc]
      rw [stringLoop_cons hHead hc.1.2, if_neg hc.1.1, if_neg (by simp [hc.2]), hChunk, hLoop,
        advance_advance, hLength, List.append_assoc, List.cons_append]
    | @escaped c name text h =>
      have hEscape : o.rest = writeEscape c ++ (text ++ 34 :: tail) := by
        rw [hRest, List.append_assoc]
      have hNext : (o.advance 4).rest = text ++ 34 :: tail := rest_advance (w := writeEscape c) hEscape
      have hLoop := ih (s := o.advance 4) (ret ++ [c]) h hNext (by
        simp only [writeEscape, List.length_cons, List.length_append] at hFuel
        omega)
      have hLength : 4 + (text.length + 1) = (writeEscape c ++ text).length + 1 := by
        rw [List.length_append]
        exact (Nat.add_assoc 4 _ 1).symm
      rw [stringLoop_escape hEscape (writeEscape_facts c).1, parseEscape_eq hEscape]
      show stringLoop 34 fuel (o.advance 4) (o.advance 4) (ret ++ [c]) = _
      rw [hLoop, advance_advance, hLength, List.append_assoc, List.singleton_append]

theorem parseString_eq {value : Bytes} (hRest : s.rest = writeString value ++ tail) :
    s.parseString = .ok (value, s.advance (writeString value).length) := by
  have hSpelled := spelled_flatMap (plain 34) value
  have hFull : s.rest = 34 :: (value.flatMap (writeByte (plain 34)) ++ 34 :: tail) := by
    rw [hRest, writeString]
    simp
  have hNext : (s.advance 1).rest = value.flatMap (writeByte (plain 34)) ++ 34 :: tail := by
    rw [advance, hFull]
    rfl
  have hLength : (value.flatMap (writeByte (plain 34))).length < s.rest.length := by
    rw [hFull, List.length_cons, List.length_append]
    omega
  have hLoop := stringLoop_eq (s := s) [] hSpelled hNext hLength
  have hWritten : 1 + ((value.flatMap (writeByte (plain 34))).length + 1) =
      (writeString value).length := by
    rw [writeString, List.length_append, List.length_cons, List.length_singleton]
    omega
  obtain ⟨a, rest, hTwo⟩ : ∃ a rest, value.flatMap (writeByte (plain 34)) ++ 34 :: tail = a :: rest :=
    List.exists_cons_of_ne_nil (by simp)
  rw [parseString, hFull, hTwo]
  dsimp only
  rw [← hTwo, ← hFull, hLoop, advance_advance, hWritten, List.nil_append]

/-! ## Numbers -/

theorem digit_decimal {n : Nat} (h : c ∈ Decimal.decimal n) :
    digit c = true ∧ blank c = false ∧ c ≠ 47 ∧ c ≠ 45 ∧ c ≠ 43 := by
  have hAll : ∀ d < 10, digit (UInt8.ofNat (d + 48)) = true ∧ blank (UInt8.ofNat (d + 48)) = false ∧
      UInt8.ofNat (d + 48) ≠ 47 ∧ UInt8.ofNat (d + 48) ≠ 45 ∧ UInt8.ofNat (d + 48) ≠ 43 := by decide
  obtain ⟨d, hd, rfl⟩ := Decimal.mem_decimal h
  exact hAll d hd

theorem integerLoop_append (u v : Bytes) (i : Nat) :
    integerLoop (u ++ v) i = integerLoop u i >>= integerLoop v := by
  induction u generalizing i with
  | nil => rfl
  | cons c u ih =>
    rw [List.cons_append, integerLoop, integerLoop]
    split
    · rfl
    · exact ih _

theorem integerLoop_decimal {n : Nat} (h : n + 48 < 2 ^ 31) :
    integerLoop (Decimal.decimal n) 0 = .ok n := by
  induction n using Decimal.digits_induction with
  | one n hn =>
    rw [Decimal.decimal_eq, if_pos hn, integerLoop, Decimal.digit_toNat hn, if_neg (by omega),
      integerLoop]
    congr 1
    omega
  | more n hn ih =>
    have hLast : n % 10 < 10 := Nat.mod_lt n (by decide)
    rw [Decimal.decimal_eq, if_neg (by omega), integerLoop_append, ih (by omega)]
    show integerLoop [UInt8.ofNat (n % 10 + 48)] (n / 10) = .ok n
    rw [integerLoop, Decimal.digit_toNat hLast, if_neg (by omega), integerLoop]
    congr 1
    omega

theorem parseInteger_eq {n : Nat} (hFits : n + 48 < 2 ^ 31)
    (hRest : s.rest = Decimal.decimal n ++ tail)
    (hTail : ∀ c, tail.head? = some c → digit c = false) :
    s.parseInteger = .ok ((n : Int), s.advance (Decimal.decimal n).length) := by
  have hDigits : s.rest.takeWhile digit = Decimal.decimal n := by
    have hRun := takeWhile_run (w := []) (fun c (hc : c ∈ Decimal.decimal n) => (digit_decimal hc).1)
      (.inl rfl) (by decide) hTail
    rwa [List.append_nil, ← hRest] at hRun
  rw [parseInteger, hDigits, integerLoop_decimal hFits]
  show (if Decimal.decimal n = [] then _ else _) = _
  rw [if_neg (Decimal.decimal_ne_nil n)]

theorem exists_head_decimal (n : Nat) (tail : Bytes) :
    ∃ c rest, Decimal.decimal n ++ tail = c :: rest ∧ c ∈ Decimal.decimal n := by
  obtain ⟨c, rest, h⟩ := List.exists_cons_of_ne_nil (Decimal.decimal_ne_nil n)
  exact ⟨c, rest ++ tail, by rw [h, List.cons_append], by rw [h]; exact List.mem_cons_self⟩

theorem signedA_eq {n : Nat} (sign : Int) (hFits : n + 48 < 2 ^ 31)
    (hRest : s.rest = Decimal.decimal n ++ tail)
    (hTail : ∀ c, tail.head? = some c → digit c = false) :
    s.signedA sign = (s.advance (Decimal.decimal n).length).readA (sign * n) := by
  obtain ⟨c, rest, hHead, hMem⟩ := exists_head_decimal n tail
  rw [signedA, hRest, hHead]
  dsimp only
  rw [if_pos (digit_decimal hMem).1, parseInteger_eq hFits hRest hTail]
  rfl

/-- The first number of `an+b`, with its sign. -/
theorem parseNth_writeInteger {x : Int} (hReadable : Readable x)
    (hRest : s.rest = writeInteger x ++ tail)
    (hTail : ∀ c, tail.head? = some c → digit c = false) :
    s.parseNth = (s.advance (writeInteger x).length).readA x := by
  rw [writeInteger] at hRest ⊢
  split at hRest
  · next hNeg =>
    have hNext : (s.advance 1).rest = Decimal.decimal x.natAbs ++ tail :=
      rest_advance (w := [45]) hRest
    have hSigned := signedA_eq (-1) hReadable hNext hTail
    have hValue : -1 * ((x.natAbs : Nat) : Int) = x := by omega
    rw [if_pos hNeg, parseNth, hRest]
    show (s.advance 1).signedA (-1) = _
    rw [hSigned, advance_advance, hValue, List.length_cons, Nat.add_comm]
  · next hNonneg =>
    obtain ⟨c, rest, hHead, hMem⟩ := exists_head_decimal x.natAbs tail
    obtain ⟨hDigit, -, -, hMinus, hPlus⟩ := digit_decimal hMem
    have hSigned := signedA_eq 1 hReadable hRest hTail
    have hValue : 1 * ((x.natAbs : Nat) : Int) = x := by omega
    rw [if_neg hNonneg, parseNth, hRest, hHead]
    dsimp only
    rw [if_neg hMinus, if_neg hPlus, if_pos hDigit, hSigned, hValue]

/-- The second number, after the `n`. -/
theorem readN_eq {a : Int} {n : Nat} (hFits : n + 48 < 2 ^ 31)
    (hRest : s.rest = 43 :: Decimal.decimal n ++ tail)
    (hTail : ∀ c, tail.head? = some c → digit c = false) :
    s.readN (some a) = .ok ((some a, (n : Int)), s.advance (1 + (Decimal.decimal n).length)) := by
  obtain ⟨c, rest, hHead, hMem⟩ := exists_head_decimal n tail
  obtain ⟨-, hBlank, hSlash, -, -⟩ := digit_decimal hMem
  have hNext : (s.advance 1).rest = Decimal.decimal n ++ tail := rest_advance (w := [43]) hRest
  have hFirst : s.skipWhitespace = (s, false) :=
    skipWhitespace_eq (c := 43) (by rw [hRest]; rfl) (by decide) (by decide)
  have hSecond : (s.advance 1).skipWhitespace = (s.advance 1, false) :=
    skipWhitespace_eq (c := c) (by rw [hNext, hHead]; rfl) hBlank hSlash
  rw [readN, hFirst]
  dsimp only
  rw [hRest]
  show ((s.advance 1).skipWhitespace.1.parseInteger >>= _) = _
  rw [hSecond, parseInteger_eq hFits hNext hTail, advance_advance]
  rfl

theorem parseNth_eq {a b : Int} (h : NthReadable a b) (hRest : s.rest = writeNth a b ++ 41 :: tail) :
    s.parseNth = .ok ((some a, b), s.advance (writeNth a b).length) := by
  obtain ⟨ha, hb, hSign⟩ := h
  have hClose : ∀ c, (41 :: tail).head? = some c → digit c = false := by
    intro c hc
    obtain rfl := Option.some.inj hc
    decide
  by_cases hZero : a = 0
  · subst hZero
    rw [writeNth, if_pos rfl] at hRest ⊢
    have hNext := rest_advance hRest
    rw [parseNth_writeInteger hb hRest hClose, readA, hNext]
    rfl
  · have hNonneg := hSign.resolve_left hZero
    have hInteger : writeInteger b = Decimal.decimal b.natAbs := if_neg (Int.not_lt.mpr hNonneg)
    rw [writeNth, if_neg hZero] at hRest ⊢
    rw [List.append_assoc] at hRest
    have hNext := rest_advance hRest
    have hOperator : ∀ c, (110 :: 43 :: writeInteger b ++ 41 :: tail).head? = some c →
        digit c = false := by
      intro c hc
      obtain rfl := Option.some.inj hc
      decide
    rw [hInteger] at hNext
    have hSecond : ((s.advance (writeInteger a).length).advance 1).rest =
        43 :: Decimal.decimal b.natAbs ++ 41 :: tail := rest_advance (w := [110]) hNext
    have hLength : (writeInteger a).length + 1 + (1 + (Decimal.decimal b.natAbs).length) =
        (writeInteger a ++ 110 :: 43 :: writeInteger b).length := by
      rw [hInteger, List.length_append, List.length_cons, List.length_cons]
      omega
    have hValue : ((b.natAbs : Nat) : Int) = b := by omega
    rw [parseNth_writeInteger ha hRest hOperator, readA, hNext]
    show ((s.advance (writeInteger a).length).advance 1).readN (some a) = _
    rw [readN_eq hb hSecond hClose, advance_advance, advance_advance, ← Nat.add_assoc, hLength,
      hValue]

end CParser

end RetroConfig.Html
