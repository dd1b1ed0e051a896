import RetroConfig.Html.SelectorParser
import RetroConfig.Library.Decimal

/-!
# How far the parser of selectors moves

Every function of the parser stays in its input, and the ones that succeed move on (`Onward`). An
exception is the overflow of a number or a text that ends with an offset in the input (`Fails`). With
this, the steps that `create` is given are enough (`create_finishes`), and more of them change nothing
(`createWithin_eq`).
-/

namespace RetroConfig.Html.CParser

open Outcome

/-- `mInput`. -/
def input (s : CParser) : Bytes := s.before.reverse ++ s.rest

/-- `s'` stands at least `n` bytes after `s`, in the same input. -/
structure Onward (n : Nat) (s s' : CParser) : Prop where
  input_eq : s'.input = s.input
  unsignedChar_eq : s'.unsignedChar = s.unsignedChar
  length_le : s'.rest.length + n ≤ s.rest.length

/-- The exceptions that a parser of this input throws. -/
def Fails (input : Bytes) (e : Stop) : Prop :=
  e = .overflow ∨ ∃ (s : CParser) (message : Bytes), s.input = input ∧ e = .thrown (s.error message)

/-- `x` moves on from `s` by `n` bytes, or fails in the same input. -/
def Moves {α : Type} (n : Nat) (s : CParser) (x : Except Stop (α × CParser)) : Prop :=
  Ensures x (fun r => Onward n s r.2) (Fails s.input)

section Steps

variable {α β : Type} {m n : Nat} {s s' s'' : CParser}

theorem onward_self (s : CParser) : Onward 0 s s := ⟨rfl, rfl, Nat.le_refl _⟩

theorem Onward.trans (h : Onward m s s') (h' : Onward n s' s'') : Onward (m + n) s s'' :=
  ⟨h'.input_eq.trans h.input_eq, h'.unsignedChar_eq.trans h.unsignedChar_eq, by
    have := h.length_le
    have := h'.length_le
    omega⟩

theorem Onward.of_le (h : Onward n s s') (hLe : m ≤ n) : Onward m s s' :=
  ⟨h.input_eq, h.unsignedChar_eq, by
    have := h.length_le
    omega⟩

theorem onward_advance (h : n ≤ s.rest.length) : Onward n s (s.advance n) := by
  refine ⟨?_, rfl, ?_⟩
  · simp [input, advance]
  · simp only [advance, List.length_drop]
    omega

theorem onward_advance_zero (s : CParser) (n : Nat) : Onward 0 s (s.advance n) := by
  refine ⟨?_, rfl, ?_⟩
  · simp [input, advance]
  · simp only [advance, List.length_drop]
    omega

theorem input_back (s : CParser) : s.back.input = s.input := by
  unfold back
  split
  · rfl
  · next c before hBefore => simp [input, hBefore]

theorem moves_ok {a : α} (h : Onward n s s') : Moves n s (.ok (a, s')) := h

theorem moves_fail (h : s'.input = s.input) (message : String) :
    Moves n s (s'.fail message : Except Stop (α × CParser)) :=
  ensures_error (.inr ⟨s', ascii message, h, rfl⟩)

theorem Moves.of_le {x : Except Stop (α × CParser)} (h : Moves n s x) (hLe : m ≤ n) :
    Moves m s x :=
  h.imp (fun _ hOn => hOn.of_le hLe) fun _ hFails => hFails

/-- A computation that starts further on. -/
theorem Moves.after {x : Except Stop (α × CParser)} (h : Onward m s s') (hx : Moves n s' x) :
    Moves (m + n) s x :=
  hx.imp (fun _ hOn => h.trans hOn) fun _ hFails => h.input_eq ▸ hFails

/-- A computation, and the one that goes on where it stops. -/
theorem Moves.bind {x : Except Stop (α × CParser)} {f : α × CParser → Except Stop (β × CParser)}
    (hx : Moves m s x) (hf : ∀ a s', Onward m s s' → Moves n s' (f (a, s'))) :
    Moves (m + n) s (x >>= f) :=
  Ensures.bind hx fun r hr => Moves.after hr (hf r.1 r.2 hr)

theorem one_le_length {c : UInt8} (h : s.rest.head? = some c) : 1 ≤ s.rest.length := by
  cases hRest : s.rest with
  | nil => rw [hRest] at h; cases h
  | cons => exact Nat.succ_pos _

end Steps

/-! ## Blanks -/

theorem onward_skipLoop (fuel : Nat) (s : CParser) : Onward 0 s (skipLoop fuel s) := by
  induction fuel generalizing s with
  | zero => exact onward_self s
  | succ fuel ih =>
    unfold skipLoop
    split
    · split
      · exact (onward_advance_zero s _).trans (ih _)
      · exact onward_self s
    · split
      · exact (onward_advance_zero s 1).trans (ih _)
      · exact onward_self s
    · exact onward_self s

theorem onward_skipWhitespace (s : CParser) : Onward 0 s s.skipWhitespace.1 :=
  onward_skipLoop _ s

theorem skipped_iff (s : CParser) :
    s.skipWhitespace.2 = true ↔ s.skipWhitespace.1.rest.length < s.rest.length := by
  have h := onward_skipWhitespace s
  have hInput := congrArg List.length h.input_eq
  simp only [input, List.length_append, List.length_reverse] at hInput
  rw [show s.skipWhitespace.2 = decide (s.mOffset < s.skipWhitespace.1.mOffset) from rfl,
    decide_eq_true_iff, mOffset, mOffset]
  omega

theorem onward_consumeParenthesis {s s' : CParser} (h : s.consumeParenthesis = some s') :
    Onward 1 s s' := by
  unfold consumeParenthesis at h
  split at h
  · next hHead =>
    obtain rfl := Option.some.inj h
    exact (onward_advance (one_le_length hHead)).trans (onward_skipWhitespace _)
  · cases h

theorem onward_consumeClosingParenthesis {s s' : CParser}
    (h : s.consumeClosingParenthesis = some s') : Onward 1 s s' := by
  unfold consumeClosingParenthesis at h
  dsimp only at h
  split at h
  · next hHead =>
    obtain rfl := Option.some.inj h
    exact (onward_skipWhitespace s).trans (onward_advance (one_le_length hHead))
  · cases h

/-! ## Names, strings and numbers -/

theorem onward_escapeEnd (s : CParser) : Onward 0 s s.escapeEnd := by
  unfold escapeEnd
  split
  · exact onward_advance_zero s 2
  · split
    · exact onward_advance_zero s 1
    · exact onward_self s
  · exact onward_self s

/-- The digits of an escape, the first of which was seen. -/
theorem length_hexDigits {c : UInt8} (rest : Bytes) (h : hexDigit c = true) :
    1 ≤ (((c :: rest).take 5).takeWhile hexDigit).length ∧
      (((c :: rest).take 5).takeWhile hexDigit).length ≤ (c :: rest).length := by
  constructor
  · rw [List.take_succ_cons, List.takeWhile_cons_of_pos h]
    exact Nat.succ_pos _
  · exact Nat.le_trans (List.takeWhile_prefix _).length_le (List.length_take_le' ..)

theorem moves_parseEscape (s : CParser) : Moves 2 s s.parseEscape := by
  unfold parseEscape
  split
  · next c rest hRest =>
    have hTwo : 2 ≤ s.rest.length := by simp [hRest]
    split
    · exact moves_fail rfl _
    · split
      · exact moves_ok (onward_advance hTwo)
      · next hHex =>
        dsimp only
        split
        · exact moves_fail rfl _
        · have hDigits := length_hexDigits rest (by simpa using hHex)
          refine moves_ok (((onward_advance ?_).trans (onward_escapeEnd _)).of_le ?_)
          · rw [hRest]
            exact Nat.succ_le_succ hDigits.2
          · exact Nat.succ_le_succ hDigits.1
  · exact moves_fail rfl _

/-- The bytes that are read at once, the first of which was seen. -/
theorem onward_chunk {s : CParser} {c : UInt8} {rest : Bytes} {p : UInt8 → Bool}
    (hRest : s.rest = c :: rest) (h : p c = true) :
    Onward 1 s (s.advance (s.rest.takeWhile p).length) := by
  have hLength := (List.takeWhile_prefix p (l := s.rest)).length_le
  refine (onward_advance hLength).of_le ?_
  rw [hRest, List.takeWhile_cons_of_pos h]
  exact Nat.succ_pos _

/-- The loops over two parsers in one input; what they read moves on from `o`. -/
theorem ensures_nameLoop (fuel : Nat) (s o : CParser) (ret : Bytes) (hInput : s.input = o.input)
    (hFuel : o.rest.length < fuel) :
    Ensures (nameLoop fuel s o ret)
      (fun r => r.2.1.input = o.input ∧ Onward 0 o r.2.2 ∧ (r.1 = ret ∨ Onward 1 o r.2.2))
      (Fails o.input) := by
  induction fuel generalizing s o ret with
  | zero => exact absurd hFuel (Nat.not_lt_zero _)
  | succ fuel ih =>
    -- what comes after one round that moves on
    have hNext : ∀ s' o' ret', Onward 1 o o' → s'.input = o'.input →
        Ensures (nameLoop fuel s' o' ret')
          (fun r => r.2.1.input = o.input ∧ Onward 0 o r.2.2 ∧ (r.1 = ret ∨ Onward 1 o r.2.2))
          (Fails o.input) := by
      intro s' o' ret' hOn hSame
      have hLength := hOn.length_le
      refine (ih s' o' ret' hSame (by omega)).imp ?_ fun e hFails => hOn.input_eq ▸ hFails
      rintro r ⟨hS, hO, -⟩
      have hFar := hOn.trans hO
      exact ⟨hS.trans hOn.input_eq, hFar.of_le (Nat.zero_le _), .inr hFar⟩
    unfold nameLoop
    split
    · exact ⟨hInput, onward_self o, .inl rfl⟩
    · next c rest hRest =>
      split
      · next hName =>
        have hOn := onward_chunk hRest hName
        exact hNext _ _ _ hOn (hInput.trans hOn.input_eq.symm)
      · split
        · refine Ensures.bind (moves_parseEscape o) ?_
          rintro ⟨e, o'⟩ hOn
          exact hNext o' o' _ (hOn.of_le (Nat.le_succ 1)) rfl
        · exact ⟨hInput, onward_self o, .inl rfl⟩

theorem moves_parseName (s : CParser) : Moves 1 s s.parseName := by
  unfold parseName
  refine Ensures.bind (ensures_nameLoop _ s s [] rfl (Nat.lt_succ_self _)) ?_
  rintro ⟨ret, s', o⟩ ⟨hInput, -, hOn⟩
  dsimp only
  split
  · exact moves_fail hInput _
  · next hNonempty => exact moves_ok (hOn.resolve_left hNonempty)

theorem moves_parseIdentifierFrom (s : CParser) : Moves 1 s s.parseIdentifierFrom := by
  unfold parseIdentifierFrom
  split
  · exact moves_fail rfl _
  · split
    · exact moves_fail rfl _
    · exact moves_parseName s

theorem moves_parseIdentifier (s : CParser) : Moves 1 s s.parseIdentifier := by
  unfold parseIdentifier
  split
  · next hHead =>
    have hOn := onward_advance (one_le_length hHead)
    refine (Moves.bind ((moves_parseIdentifierFrom _).after hOn) (n := 0) ?_).of_le (Nat.le_succ 1)
    exact fun name s' _ => moves_ok (onward_self s')
  · exact moves_parseIdentifierFrom s

theorem ensures_stringLoop (quote : UInt8) (fuel : Nat) (s o : CParser) (ret : Bytes)
    (hInput : s.input = o.input) (hFuel : o.rest.length < fuel) :
    Moves 1 o (stringLoop quote fuel s o ret) := by
  induction fuel generalizing s o ret with
  | zero => exact absurd hFuel (Nat.not_lt_zero _)
  | succ fuel ih =>
    have hNext : ∀ n s' o' ret', Onward (n + 1) o o' → s'.input = o'.input →
        Moves 1 o (stringLoop quote fuel s' o' ret') := by
      intro n s' o' ret' hOn hSame
      have hLength := hOn.length_le
      exact ((ih s' o' ret' hSame (by omega)).after hOn).of_le (Nat.le_add_left 1 _)
    have hAdvance : ∀ n, n + 1 ≤ o.rest.length → s.input = (o.advance (n + 1)).input :=
      fun n h => hInput.trans (onward_advance h).input_eq.symm
    unfold stringLoop
    split
    · exact moves_fail hInput _
    · next rest hRest =>
      have hThree : 3 ≤ o.rest.length := by simp [hRest]
      exact hNext 2 _ _ _ (onward_advance hThree) (hAdvance 2 hThree)
    · next c rest _ hRest =>
      have hOne : 1 ≤ o.rest.length := by simp [hRest]
      split
      · split
        · next hNewline =>
          have hTwo : 2 ≤ o.rest.length := by
            cases rest with
            | nil => cases hNewline
            | cons => simp [hRest]
          exact hNext 1 _ _ _ (onward_advance hTwo) (hAdvance 1 hTwo)
        · refine Ensures.bind (moves_parseEscape o) ?_
          rintro ⟨e, o'⟩ hOn
          exact hNext 1 o' o' _ hOn rfl
      · split
        · exact moves_ok (onward_advance hOne)
        · split
          · exact moves_fail hInput _
          · next hBackslash hQuote hNewline =>
            have hOn := onward_chunk hRest (p := plain quote) (by simp [plain, *])
            exact hNext 0 _ _ _ hOn (hInput.trans hOn.input_eq.symm)

theorem moves_parseString (s : CParser) : Moves 2 s s.parseString := by
  unfold parseString
  split
  · next quote c rest hRest =>
    have hOn : Onward 1 s (s.advance 1) := onward_advance (by simp [hRest])
    have hLength := hOn.length_le
    exact Moves.after hOn
      (ensures_stringLoop quote _ s (s.advance 1) [] hOn.input_eq.symm (by omega))
  · exact moves_fail rfl _

theorem ensures_integerLoop {input : Bytes} (digits : Bytes) (i : Nat) :
    Ensures (integerLoop digits i) (fun _ => True) (Fails input) := by
  induction digits generalizing i with
  | nil => exact trivial
  | cons c digits ih =>
    unfold integerLoop
    split
    · exact .inl rfl
    · exact ih _

theorem moves_parseInteger (s : CParser) : Moves 1 s s.parseInteger := by
  unfold parseInteger
  refine Ensures.bind (ensures_integerLoop _ 0) ?_
  intro i _
  split
  · exact moves_fail rfl _
  · next hDigits =>
    refine moves_ok ((onward_advance (List.takeWhile_prefix _).length_le).of_le ?_)
    exact List.length_pos_iff_ne_nil.mpr hDigits

/-! ## `an+b` -/

section Nth

variable {s : CParser}

theorem moves_nthEof {α : Type} (s : CParser) (n : Nat) :
    Moves n s (s.nthEof : Except Stop (α × CParser)) := moves_fail rfl _

theorem moves_nthInvalid {α : Type} (s : CParser) (n : Nat) :
    Moves n s (s.nthInvalid : Except Stop (α × CParser)) := moves_fail rfl _

/-- The step back before a negative `b` is made up for by the digit that has to follow. -/
theorem moves_after_back {β : Type} (f : Int → β) :
    Moves 0 s (do
      let (i, s) ← s.back.skipWhitespace.1.parseInteger
      .ok (f i, s)) := by
  have hOn := onward_skipWhitespace s.back
  have hInput : s.back.skipWhitespace.1.input = s.input := hOn.input_eq.trans (input_back s)
  have hInteger := moves_parseInteger s.back.skipWhitespace.1
  rw [Moves, hInput] at hInteger
  refine Ensures.bind hInteger ?_
  rintro ⟨i, s'⟩ hStep
  have hBack : s.back.unsignedChar = s.unsignedChar ∧ s.back.rest.length ≤ s.rest.length + 1 := by
    unfold back
    split <;> simp
  have hLength := hOn.length_le
  have hStepLength : s'.rest.length + 1 ≤ _ := hStep.length_le
  exact ⟨hStep.input_eq.trans hInput,
    hStep.unsignedChar_eq.trans (hOn.unsignedChar_eq.trans hBack.1), by dsimp only; omega⟩

theorem moves_readN (s : CParser) (aA : Option Int) : Moves 0 s (s.readN aA) := by
  refine Moves.after (onward_skipWhitespace s) (n := 0) ?_
  unfold readN
  dsimp only
  generalize s.skipWhitespace.1 = s
  split
  · exact moves_nthEof s 0
  · next c rest hRest =>
    split
    · have hOn : Onward 0 s (s.advance 1).skipWhitespace.1 :=
        (onward_advance_zero s 1).trans (onward_skipWhitespace _)
      refine (Moves.bind ((moves_parseInteger _).after hOn) (n := 0) ?_).of_le (Nat.zero_le _)
      exact fun i s' _ => moves_ok (onward_self s')
    · split
      · exact moves_after_back (fun i => (aA, -i))
      · exact moves_ok (onward_self s)

theorem moves_readA (s : CParser) (aA : Int) : Moves 0 s (s.readA aA) := by
  unfold readA
  split
  · exact moves_nthEof s 0
  · split
    · exact Moves.after (onward_advance_zero s 1) (moves_readN _ _)
    · exact moves_ok (onward_self s)

theorem moves_signedA (s : CParser) (sign : Int) : Moves 0 s (s.signedA sign) := by
  unfold signedA
  split
  · exact moves_nthEof s 0
  · split
    · exact (Moves.bind (moves_parseInteger s) fun i s' _ => moves_readA s' _).of_le (Nat.zero_le _)
    · split
      · exact Moves.after (onward_advance_zero s 1) (moves_readN _ _)
      · exact moves_nthInvalid s 0

theorem moves_parseNth (s : CParser) : Moves 0 s s.parseNth := by
  unfold parseNth
  split
  · exact moves_nthEof s 0
  · split
    · exact Moves.after (onward_advance_zero s 1) (moves_signedA _ _)
    · split
      · exact Moves.after (onward_advance_zero s 1) (moves_signedA _ _)
      · split
        · exact moves_signedA s 1
        · split
          · exact moves_readN s none
          · split
            · refine (Moves.bind (moves_parseName s) (n := 0) ?_).of_le (Nat.zero_le _)
              intro id s' _
              dsimp only
              split
              · exact moves_ok (onward_self s')
              · split
                · exact moves_ok (onward_self s')
                · exact moves_fail rfl _
            · exact moves_nthInvalid s 0

/-- Nothing is passed over before a byte that is no blank and opens no comment. -/
theorem skipWhitespace_eq {c : UInt8} (hHead : s.rest.head? = some c) (hBlank : blank c = false)
    (hSlash : c ≠ 47) : s.skipWhitespace = (s, false) := by
  have hLoop : ∀ fuel, skipLoop fuel s = s := by
    intro fuel
    cases fuel with
    | zero => rfl
    | succ fuel =>
      unfold skipLoop
      split
      · next rest hRest =>
        rw [hRest] at hHead
        exact absurd (Option.some.inj hHead).symm hSlash
      · next c' rest _ hRest =>
        rw [hRest] at hHead
        obtain rfl := Option.some.inj hHead
        rw [if_neg (by simp [hBlank])]
      · rfl
  simp only [skipWhitespace, hLoop, Nat.lt_irrefl, decide_false]

/-- `readN` leaves `aA` as it was. -/
theorem ensures_readN (s : CParser) (aA : Option Int) :
    Ensures (s.readN aA) (fun r => r.1.1 = aA) (fun _ => True) := by
  unfold readN
  dsimp only
  split
  · trivial
  · split
    · cases (s.skipWhitespace.1.advance 1).skipWhitespace.1.parseInteger with
      | error e => trivial
      | ok r => rfl
    · split
      · cases s.skipWhitespace.1.back.skipWhitespace.1.parseInteger with
        | error e => trivial
        | ok r => rfl
      · rfl

theorem ensures_signedA (s : CParser) (sign : Int) :
    Ensures (s.signedA sign) (fun r => r.1.1 ≠ none) (fun _ => True) := by
  have hReadN : ∀ (s : CParser) (aA : Int),
      Ensures (s.readN (some aA)) (fun r => r.1.1 ≠ none) (fun _ => True) := by
    intro s aA
    refine (ensures_readN s (some aA)).imp ?_ fun _ h => h
    intro r hr
    rw [hr]
    exact Option.some_ne_none aA
  unfold signedA
  split
  · trivial
  · split
    · cases s.parseInteger with
      | error e => trivial
      | ok r =>
        obtain ⟨i, s'⟩ := r
        show Ensures (s'.readA (sign * i)) _ _
        unfold readA
        split
        · trivial
        · split
          · exact hReadN _ _
          · exact Option.some_ne_none _
    · split
      · exact hReadN _ _
      · trivial

/-- Where `aA` was not assigned, the parser still stands at the `n`. -/
theorem unassigned_at_n {aB : Int} {s' : CParser} (h : s.parseNth = .ok ((none, aB), s')) :
    s'.rest.head? = some 110 ∨ s'.rest.head? = some 78 := by
  unfold parseNth at h
  split at h
  · cases h
  · next c rest hRest =>
    split at h
    · exact absurd rfl ((ensures_signedA _ _).of_ok h)
    · split at h
      · exact absurd rfl ((ensures_signedA _ _).of_ok h)
      · split at h
        · exact absurd rfl ((ensures_signedA _ _).of_ok h)
        · split at h
          · next hN =>
            have hHead : s.rest.head? = some c := by rw [hRest]; rfl
            have hBlank : blank c = false := by rcases hN with rfl | rfl <;> decide
            have hSlash : c ≠ 47 := by rcases hN with rfl | rfl <;> decide
            have hPlus : c ≠ 43 := by rcases hN with rfl | rfl <;> decide
            have hMinus : c ≠ 45 := by rcases hN with rfl | rfl <;> decide
            rw [readN, skipWhitespace_eq hHead hBlank hSlash] at h
            dsimp only at h
            rw [hRest] at h
            dsimp only at h
            rw [if_neg hPlus, if_neg hMinus] at h
            cases h
            rw [hHead]
            exact hN.imp (congrArg some) (congrArg some)
          · split at h
            · cases hName : s.parseName with
              | error e => rw [hName] at h; cases h
              | ok r =>
                rw [hName] at h
                obtain ⟨id, s₁⟩ := r
                change (if _ then _ else if _ then _ else _) = _ at h
                split at h
                · cases h
                · split at h <;> cases h
            · cases h

end Nth

/-! ## Selectors without parts -/

section Parts

variable {s : CParser}

theorem moves_parseTypeSelector (s : CParser) : Moves 1 s s.parseTypeSelector :=
  Moves.bind (moves_parseIdentifier s) (n := 0) fun _ s' _ => moves_ok (onward_self s')

theorem moves_parseIDSelector (s : CParser) : Moves 1 s s.parseIDSelector := by
  unfold parseIDSelector
  split
  · exact moves_fail rfl _
  · refine (Moves.bind ((moves_parseName _).after (onward_advance_zero s 1)) (n := 0) ?_).of_le
      (Nat.le_refl 1)
    exact fun _ s' _ => moves_ok (onward_self s')

theorem moves_parseClassSelector (s : CParser) : Moves 1 s s.parseClassSelector := by
  unfold parseClassSelector
  split
  · exact moves_fail rfl _
  · refine (Moves.bind ((moves_parseIdentifier _).after (onward_advance_zero s 1)) (n := 0) ?_).of_le
      (Nat.le_refl 1)
    exact fun _ s' _ => moves_ok (onward_self s')

theorem moves_parseValue (s : CParser) : Moves 1 s s.parseValue := by
  unfold parseValue
  split
  · exact (moves_parseString s).of_le (Nat.le_succ 1)
  · exact moves_parseIdentifier s

theorem moves_parseOperator (s : CParser) : Moves 1 s s.parseOperator := by
  unfold parseOperator
  split
  · next c c' rest hRest =>
    split
    · exact moves_ok (onward_advance (by simp [hRest]))
    · split
      · exact moves_fail rfl _
      · exact moves_ok ((onward_advance (by simp [hRest])).of_le (Nat.le_succ 1))
  · exact moves_fail rfl _

theorem ensures_attributeOperator (s : CParser) (op : Bytes) :
    Ensures (s.attributeOperator op) (fun _ => True) (Fails s.input) := by
  unfold attributeOperator
  iterate 6 refine ensures_ite (fun _ => trivial) fun _ => ?_
  exact ensures_ite (fun _ => .inr ⟨s, _, rfl, rfl⟩) fun _ => .inr ⟨s, _, rfl, rfl⟩

theorem moves_parseAttributeValue (s : CParser) (key : Bytes) :
    Moves 1 s (s.parseAttributeValue key) := by
  unfold parseAttributeValue
  refine Moves.bind (moves_parseOperator s) (n := 0) fun op s₁ _ => ?_
  refine Moves.after (onward_skipWhitespace s₁) (n := 0) ?_
  dsimp only
  generalize s₁.skipWhitespace.1 = s₂
  split
  · exact moves_fail rfl _
  · split
    · exact moves_fail rfl _
    · refine (Moves.bind (moves_parseValue s₂) (n := 0) fun value s₃ _ => ?_).of_le (Nat.zero_le _)
      refine Moves.after (onward_skipWhitespace s₃) (n := 0) ?_
      dsimp only
      generalize s₃.skipWhitespace.1 = s₄
      split
      · exact moves_fail rfl _
      · have hOn := onward_advance_zero s₄ 1
        exact Ensures.bind (hOn.input_eq ▸ ensures_attributeOperator (s₄.advance 1) op)
          fun aop _ => moves_ok hOn

theorem moves_parseAttributeSelector (s : CParser) : Moves 1 s s.parseAttributeSelector := by
  unfold parseAttributeSelector
  split
  · exact moves_fail rfl _
  · have hOn : Onward 0 s (s.advance 1).skipWhitespace.1 :=
      (onward_advance_zero s 1).trans (onward_skipWhitespace _)
    refine (Moves.bind ((moves_parseIdentifier _).after hOn) (n := 0) fun key s₁ _ => ?_).of_le
      (Nat.le_refl 1)
    refine Moves.after (onward_skipWhitespace s₁) (n := 0) ?_
    dsimp only
    generalize s₁.skipWhitespace.1 = s₂
    split
    · exact moves_fail rfl _
    · split
      · exact moves_ok (onward_advance_zero s₂ 1)
      · exact (moves_parseAttributeValue s₂ key).of_le (Nat.zero_le 1)

theorem moves_closed {α : Type} (s : CParser) (a : α) : Moves 0 s (s.closed a) := by
  unfold closed
  split
  · exact moves_fail rfl _
  · next s' hSome => exact moves_ok ((onward_consumeClosingParenthesis hSome).of_le (Nat.zero_le 1))

theorem moves_parseContains (s : CParser) (op : TextOperator) : Moves 0 s (s.parseContains op) := by
  unfold parseContains
  split
  · exact moves_fail rfl _
  · next s₁ hOpen =>
    refine (Moves.after (onward_consumeParenthesis hOpen) (n := 0) ?_).of_le (Nat.zero_le _)
    split
    · exact moves_fail rfl _
    · refine (Moves.bind (moves_parseValue s₁) (n := 0) fun value s₂ _ => ?_).of_le (Nat.zero_le _)
      exact Moves.after (onward_skipWhitespace s₂) (moves_closed _ _)

theorem moves_parseNthChild (s : CParser) (last ofType : Bool) :
    Moves 0 s (s.parseNthChild last ofType) := by
  unfold parseNthChild
  split
  · exact moves_fail rfl _
  · next s₁ hOpen =>
    refine (Moves.after (onward_consumeParenthesis hOpen) (n := 0) ?_).of_le (Nat.zero_le _)
    cases hNth : s₁.parseNth with
    | error e => exact (moves_parseNth s₁).of_error hNth
    | ok r =>
      obtain ⟨⟨a, b⟩, s₂⟩ := r
      have hOn : Onward 0 s₁ s₂ := (moves_parseNth s₁).of_ok hNth
      refine Moves.after hOn (n := 0) ?_
      dsimp only [bind, Except.bind, closed]
      cases a with
      | some a =>
        cases hClose : s₂.consumeClosingParenthesis with
        | none => exact moves_fail rfl _
        | some s₃ => exact moves_ok ((onward_consumeClosingParenthesis hClose).of_le (Nat.zero_le 1))
      | none =>
        -- the parser stands at an `n`, which is no parenthesis
        have hClose : s₂.consumeClosingParenthesis = none := by
          unfold consumeClosingParenthesis
          rcases unassigned_at_n hNth with hHead | hHead
          all_goals
            rw [skipWhitespace_eq hHead (by decide) (by decide)]
            dsimp only
            rw [hHead, if_neg (by decide)]
        rw [hClose]
        exact moves_fail rfl _

theorem moves_parsePlainPseudoclass (s : CParser) (name : Bytes) :
    Moves 0 s (s.parsePlainPseudoclass name) := by
  unfold parsePlainPseudoclass
  iterate 2 refine ensures_ite (fun _ => moves_parseContains s _) fun _ => ?_
  refine ensures_ite (fun _ => moves_fail rfl _) fun _ => ?_
  iterate 4 refine ensures_ite (fun _ => moves_parseNthChild s _ _) fun _ => ?_
  iterate 7 refine ensures_ite (fun _ => moves_ok (onward_self s)) fun _ => ?_
  exact ensures_error (.inr ⟨s, _, rfl, rfl⟩)

end Parts

/-! ## Groups -/

theorem onward_parseCombinator (s : CParser) :
    Onward 0 s s.parseCombinator.2 ∧ (s.parseCombinator.1 ≠ none → Onward 1 s s.parseCombinator.2) := by
  have hSkip := onward_skipWhitespace s
  have hSkipped := skipped_iff s
  unfold parseCombinator
  generalize s.skipWhitespace = r at hSkip hSkipped ⊢
  obtain ⟨s', skipped⟩ := r
  dsimp only at hSkip hSkipped ⊢
  split
  · exact ⟨hSkip, fun h => absurd rfl h⟩
  · next c rest hRest =>
    split
    · have hOne : Onward 1 s' (s'.advance 1) := onward_advance (by simp [hRest])
      have hOn : Onward 1 s (s'.advance 1).skipWhitespace.1 :=
        (hSkip.trans (hOne.trans (onward_skipWhitespace _))).of_le (Nat.le_refl 1)
      exact ⟨hOn.of_le (Nat.zero_le 1), fun _ => hOn⟩
    · split
      · exact ⟨hSkip, fun h => absurd rfl h⟩
      · refine ⟨hSkip, fun h => ?_⟩
        cases skipped with
        | false => exact absurd rfl h
        | true => exact ⟨hSkip.input_eq, hSkip.unsignedChar_eq, hSkipped.mp rfl⟩

/-- The parser stands at a part of a sequence. -/
def AtPart (s : CParser) : Prop :=
  s.rest.head? = some 35 ∨ s.rest.head? = some 46 ∨ s.rest.head? = some 91 ∨ s.rest.head? = some 58

/-- `parseStart` moves on, or stays before a part. -/
theorem ensures_parseStart (s : CParser) :
    Ensures s.parseStart (fun r => Onward 1 s r.2 ∨ (r.2 = s ∧ AtPart s)) (Fails s.input) := by
  unfold parseStart
  split
  · exact ensures_error (.inr ⟨s, _, rfl, rfl⟩)
  · next c rest hRest =>
    split
    · exact .inl (onward_advance (by simp [hRest]))
    · split
      · next hPart =>
        refine .inr ⟨rfl, ?_⟩
        unfold AtPart
        rw [hRest]
        simpa using hPart
      · refine Ensures.bind (moves_parseTypeSelector s) ?_
        exact fun r hr => .inl hr

/-- With enough steps, the functions that call each other move on or fail. -/
structure Bounded (fuel : Nat) : Prop where
  pseudoclass : ∀ s, 7 * s.rest.length + 1 ≤ fuel → Moves 1 s (parsePseudoclassSelector fuel s)
  sequenceLoop : ∀ ret s, 7 * s.rest.length + 2 ≤ fuel → Moves 0 s (sequenceLoop fuel ret s) ∧
    (AtPart s → Moves 1 s (CParser.sequenceLoop fuel ret s))
  sequence : ∀ s, 7 * s.rest.length + 3 ≤ fuel → Moves 1 s (parseSimpleSelectorSequence fuel s)
  selectorLoop : ∀ ret s, 7 * s.rest.length + 1 ≤ fuel → Moves 0 s (selectorLoop fuel ret s)
  selector : ∀ s, 7 * s.rest.length + 4 ≤ fuel → Moves 1 s (parseSelector fuel s)
  groupLoop : ∀ ret s, 7 * s.rest.length + 1 ≤ fuel → Moves 0 s (groupLoop fuel ret s)
  group : ∀ s, 7 * s.rest.length + 5 ≤ fuel → Moves 1 s (parseSelectorGroup fuel s)

section Bounded

variable {fuel : Nat}

theorem Bounded.pseudoclass_succ (h : Bounded fuel) (s : CParser)
    (hFuel : 7 * s.rest.length + 1 ≤ fuel + 1) :
    Moves 1 s (parsePseudoclassSelector (fuel + 1) s) := by
  unfold parsePseudoclassSelector
  split
  · exact moves_fail rfl _
  · next hHead =>
    have hOn : Onward 1 s (s.advance 1) := onward_advance (one_le_length (Decidable.not_not.mp hHead))
    refine (Moves.bind ((moves_parseIdentifier _).after hOn) (n := 0) fun name s₁ hOn₁ => ?_).of_le
      (Nat.le_succ 1)
    have hLength₁ := hOn₁.length_le
    dsimp only
    split
    · exact moves_parsePlainPseudoclass s₁ _
    · split
      · exact moves_fail rfl _
      · next s₂ hOpen =>
        have hOn₂ := onward_consumeParenthesis hOpen
        have hLength₂ := hOn₂.length_le
        refine (Moves.after hOn₂ (n := 0) ?_).of_le (Nat.zero_le _)
        refine (Moves.bind (h.group s₂ (by omega)) (n := 0) fun sel s₃ _ => ?_).of_le (Nat.zero_le _)
        exact moves_closed s₃ _

/-- One part, and the parts after it. -/
theorem Bounded.part_succ (h : Bounded fuel) {s : CParser} (ret : Option Selector)
    {x : Except Stop (Selector × CParser)} (hx : Moves 1 s x)
    (hFuel : 7 * s.rest.length + 2 ≤ fuel + 1) :
    Moves 1 s (do
      let (sel, s) ← x
      CParser.sequenceLoop fuel (some (intersect ret sel)) s) := by
  refine Moves.bind hx (n := 0) fun sel s' hOn => ?_
  have hLength := hOn.length_le
  exact (h.sequenceLoop _ s' (by omega)).1

theorem Bounded.sequenceLoop_succ (h : Bounded fuel) (ret : Option Selector) (s : CParser)
    (hFuel : 7 * s.rest.length + 2 ≤ fuel + 1) :
    Moves 0 s (CParser.sequenceLoop (fuel + 1) ret s) ∧
      (AtPart s → Moves 1 s (CParser.sequenceLoop (fuel + 1) ret s)) := by
  have hBoth : ∀ x : Except Stop (Selector × CParser), Moves 1 s x →
      Moves 0 s x ∧ (AtPart s → Moves 1 s x) :=
    fun x hx => ⟨hx.of_le (Nat.zero_le 1), fun _ => hx⟩
  unfold CParser.sequenceLoop
  split
  · next hRest =>
    refine ⟨moves_ok (onward_self s), fun hPart => ?_⟩
    simp [AtPart, hRest] at hPart
  · next c rest hRest =>
    split_ifs with hId hClass hAttribute hPseudoclass
    · exact hBoth _ (h.part_succ ret (moves_parseIDSelector s) hFuel)
    · exact hBoth _ (h.part_succ ret (moves_parseClassSelector s) hFuel)
    · exact hBoth _ (h.part_succ ret (moves_parseAttributeSelector s) hFuel)
    · exact hBoth _ (h.part_succ ret (h.pseudoclass s (by omega)) hFuel)
    · refine ⟨moves_ok (onward_self s), fun hPart => ?_⟩
      simp [AtPart, hRest, hId, hClass, hAttribute, hPseudoclass] at hPart

theorem Bounded.sequence_succ (h : Bounded fuel) (s : CParser)
    (hFuel : 7 * s.rest.length + 3 ≤ fuel + 1) :
    Moves 1 s (parseSimpleSelectorSequence (fuel + 1) s) := by
  unfold parseSimpleSelectorSequence
  refine Ensures.bind (ensures_parseStart s) ?_
  rintro ⟨ret, s'⟩ (hOn | ⟨hSame, hPart⟩)
  · have hLength : s'.rest.length + 1 ≤ _ := hOn.length_le
    have hLoop := (h.sequenceLoop ret s' (by omega)).1
    exact Moves.after hOn hLoop
  · obtain rfl : s' = s := hSame
    exact (h.sequenceLoop ret s' (by omega)).2 hPart

theorem Bounded.selectorLoop_succ (h : Bounded fuel) (ret : Selector) (s : CParser)
    (hFuel : 7 * s.rest.length + 1 ≤ fuel + 1) :
    Moves 0 s (CParser.selectorLoop (fuel + 1) ret s) := by
  have hCombinator := onward_parseCombinator s
  unfold CParser.selectorLoop
  generalize s.parseCombinator = r at hCombinator ⊢
  obtain ⟨combinator, s'⟩ := r
  cases combinator with
  | none => exact moves_ok hCombinator.1
  | some combinator =>
    have hOn : Onward 1 s s' := hCombinator.2 (Option.some_ne_none combinator)
    have hLength := hOn.length_le
    refine (Moves.after hOn (n := 0) ?_).of_le (Nat.zero_le _)
    refine (Moves.bind (h.sequence s' (by omega)) (n := 0) fun sel s'' hOn' => ?_).of_le
      (Nat.zero_le _)
    have hLength' := hOn'.length_le
    exact h.selectorLoop _ s'' (by omega)

theorem Bounded.selector_succ (h : Bounded fuel) (s : CParser)
    (hFuel : 7 * s.rest.length + 4 ≤ fuel + 1) : Moves 1 s (parseSelector (fuel + 1) s) := by
  have hOn := onward_skipWhitespace s
  have hLength := hOn.length_le
  unfold parseSelector
  refine (Moves.bind ((h.sequence _ (by omega)).after hOn) (n := 0) fun ret s' hOn' => ?_).of_le
    (Nat.le_refl 1)
  have hLength' := hOn'.length_le
  exact h.selectorLoop ret s' (by omega)

theorem Bounded.groupLoop_succ (h : Bounded fuel) (ret : Selector) (s : CParser)
    (hFuel : 7 * s.rest.length + 1 ≤ fuel + 1) :
    Moves 0 s (CParser.groupLoop (fuel + 1) ret s) := by
  unfold CParser.groupLoop
  split
  · next hHead =>
    have hOn : Onward 1 s (s.advance 1) := onward_advance (one_le_length hHead)
    have hLength := hOn.length_le
    refine (Moves.bind ((h.selector _ (by omega)).after hOn) (n := 0) fun sel s' hOn' => ?_).of_le
      (Nat.zero_le _)
    have hLength' := hOn'.length_le
    exact h.groupLoop _ s' (by omega)
  · exact moves_ok (onward_self s)

theorem Bounded.group_succ (h : Bounded fuel) (s : CParser)
    (hFuel : 7 * s.rest.length + 5 ≤ fuel + 1) : Moves 1 s (parseSelectorGroup (fuel + 1) s) := by
  unfold parseSelectorGroup
  refine Moves.bind (h.selector s (by omega)) (n := 0) fun ret s' hOn => ?_
  have hLength := hOn.length_le
  exact h.groupLoop ret s' (by omega)

theorem bounded (fuel : Nat) : Bounded fuel := by
  induction fuel with
  | zero => constructor <;> intros <;> omega
  | succ fuel ih =>
    exact ⟨ih.pseudoclass_succ, ih.sequenceLoop_succ, ih.sequence_succ, ih.selectorLoop_succ,
      ih.selector_succ, ih.groupLoop_succ, ih.group_succ⟩

end Bounded

/-! ## More steps -/

/-- One step more changes nothing, unless the steps run out. -/
structure Settled (fuel : Nat) : Prop where
  pseudoclass : ∀ s, Extends .unfinished (parsePseudoclassSelector fuel s)
    (parsePseudoclassSelector (fuel + 1) s)
  sequenceLoop : ∀ ret s, Extends .unfinished (sequenceLoop fuel ret s)
    (CParser.sequenceLoop (fuel + 1) ret s)
  sequence : ∀ s, Extends .unfinished (parseSimpleSelectorSequence fuel s)
    (parseSimpleSelectorSequence (fuel + 1) s)
  selectorLoop : ∀ ret s, Extends .unfinished (selectorLoop fuel ret s)
    (CParser.selectorLoop (fuel + 1) ret s)
  selector : ∀ s, Extends .unfinished (parseSelector fuel s) (parseSelector (fuel + 1) s)
  groupLoop : ∀ ret s, Extends .unfinished (groupLoop fuel ret s)
    (CParser.groupLoop (fuel + 1) ret s)
  group : ∀ s, Extends .unfinished (parseSelectorGroup fuel s) (parseSelectorGroup (fuel + 1) s)

section Settled

variable {fuel : Nat}

theorem Settled.pseudoclass_succ (h : Settled fuel) (s : CParser) :
    Extends .unfinished (parsePseudoclassSelector (fuel + 1) s)
      (parsePseudoclassSelector (fuel + 2) s) := by
  rw [parsePseudoclassSelector, parsePseudoclassSelector]
  split
  · exact extends_self _ _
  · refine Extends.bind (extends_self _ _) ?_
    rintro ⟨name, s₁⟩
    dsimp only
    cases unaryOperator (tolower name) with
    | none => exact extends_self _ _
    | some op =>
      cases s₁.consumeParenthesis with
      | none => exact extends_self _ _
      | some s₂ => exact Extends.bind (h.group s₂) fun _ => extends_self _ _

theorem Settled.sequenceLoop_succ (h : Settled fuel) (ret : Option Selector) (s : CParser) :
    Extends .unfinished (CParser.sequenceLoop (fuel + 1) ret s)
      (CParser.sequenceLoop (fuel + 2) ret s) := by
  rw [CParser.sequenceLoop, CParser.sequenceLoop]
  cases s.rest with
  | nil => exact extends_self _ _
  | cons c rest =>
    dsimp only
    split
    · exact Extends.bind (extends_self _ _) fun _ => h.sequenceLoop _ _
    · split
      · exact Extends.bind (extends_self _ _) fun _ => h.sequenceLoop _ _
      · split
        · exact Extends.bind (extends_self _ _) fun _ => h.sequenceLoop _ _
        · split
          · exact Extends.bind (h.pseudoclass s) fun _ => h.sequenceLoop _ _
          · exact extends_self _ _

theorem Settled.selectorLoop_succ (h : Settled fuel) (ret : Selector) (s : CParser) :
    Extends .unfinished (CParser.selectorLoop (fuel + 1) ret s)
      (CParser.selectorLoop (fuel + 2) ret s) := by
  rw [CParser.selectorLoop, CParser.selectorLoop]
  obtain ⟨combinator, s'⟩ := s.parseCombinator
  cases combinator with
  | none => exact extends_self _ _
  | some combinator => exact Extends.bind (h.sequence s') fun _ => h.selectorLoop _ _

theorem Settled.groupLoop_succ (h : Settled fuel) (ret : Selector) (s : CParser) :
    Extends .unfinished (CParser.groupLoop (fuel + 1) ret s) (CParser.groupLoop (fuel + 2) ret s) := by
  rw [CParser.groupLoop, CParser.groupLoop]
  split
  · exact Extends.bind (h.selector _) fun _ => h.groupLoop _ _
  · exact extends_self _ _

theorem settled (fuel : Nat) : Settled fuel := by
  induction fuel with
  | zero => constructor <;> intros <;> exact .inl rfl
  | succ fuel ih =>
    exact ⟨ih.pseudoclass_succ, ih.sequenceLoop_succ,
      fun _ => Extends.bind (extends_self _ _) fun _ => ih.sequenceLoop _ _, ih.selectorLoop_succ,
      fun _ => Extends.bind (ih.sequence _) fun _ => ih.selectorLoop _ _, ih.groupLoop_succ,
      fun _ => Extends.bind (ih.selector _) fun _ => ih.groupLoop _ _⟩

end Settled

/-! ## The offset of an error -/

theorem reverse_errorDigits {fuel d : Nat} (hPos : 0 < d) (hFuel : d ≤ fuel) :
    (errorDigits fuel d).reverse = Decimal.decimal d := by
  induction fuel generalizing d with
  | zero => omega
  | succ fuel ih =>
    rw [errorDigits, if_neg (by omega), List.reverse_cons, Decimal.decimal_eq]
    split
    · next hOne =>
      have hZero : d / 10 = 0 := by omega
      have hNil : errorDigits fuel 0 = [] := by cases fuel <;> rfl
      rw [hZero, hNil, Nat.mod_eq_of_lt hOne]
      rfl
    · next hMore => rw [ih (by omega) (by omega)]

/-- A text that is thrown ends with the offset of the parser. -/
theorem error_eq (s : CParser) (message : Bytes) :
    s.error message = message ++ ascii " at:" ++ Decimal.decimal s.mOffset := by
  rw [error]
  split
  · next hZero => rw [hZero]; rfl
  · next hPos => rw [reverse_errorDigits (Nat.pos_of_ne_zero hPos) (Nat.le_refl _)]

/-! ## The parser -/

theorem parseSelectorGroup_extends (fuel more : Nat) (s : CParser) :
    Extends .unfinished (parseSelectorGroup fuel s) (parseSelectorGroup (fuel + more) s) := by
  induction more with
  | zero => exact extends_self _ _
  | succ more ih => exact ih.trans ((settled (fuel + more)).group s)

/-- The steps that the parser is given are enough. -/
theorem moves_create (unsignedChar : Bool) (aInput : Bytes) :
    Moves 1 ⟨unsignedChar, [], aInput⟩
      (parseSelectorGroup (7 * aInput.length + 7) ⟨unsignedChar, [], aInput⟩) :=
  (bounded _).group _ (by simp)

theorem createWithin_eq {fuel : Nat} {unsignedChar : Bool} {aInput : Bytes}
    (h : 7 * aInput.length + 7 ≤ fuel) :
    createWithin fuel unsignedChar aInput = create unsignedChar aInput := by
  have hExtends := parseSelectorGroup_extends (7 * aInput.length + 7)
    (fuel - (7 * aInput.length + 7)) ⟨unsignedChar, [], aInput⟩
  rw [Nat.add_sub_cancel' h] at hExtends
  rw [create, createWithin, createWithin, hExtends.eq]
  intro hUnfinished
  rcases (moves_create unsignedChar aInput).of_error hUnfinished with h | ⟨s, message, -, h⟩ <;> cases h

/-- The parser reads every input to its end: it gives a selector, or throws a text that ends with an
offset in the input, unless a number is too large for an `int`. It never runs out of the steps that
`create` is given, more of them change nothing, and it hands over no number that was not assigned. -/
theorem create_finishes (unsignedChar : Bool) (aInput : Bytes) :
    (∀ fuel, 7 * aInput.length + 7 ≤ fuel →
      createWithin fuel unsignedChar aInput = create unsignedChar aInput) ∧
    ((∃ sel, create unsignedChar aInput = .ok sel) ∨
      create unsignedChar aInput = .error .overflow ∨
      ∃ message offset, offset ≤ aInput.length ∧
        create unsignedChar aInput =
          .error (.thrown (message ++ ascii " at:" ++ Decimal.decimal offset))) := by
  refine ⟨fun fuel hFuel => createWithin_eq hFuel, ?_⟩
  have hMoves := moves_create unsignedChar aInput
  rw [create, createWithin]
  cases hGroup : parseSelectorGroup (7 * aInput.length + 7) ⟨unsignedChar, [], aInput⟩ with
  | ok r => exact .inl ⟨r.1, rfl⟩
  | error e =>
    rcases hMoves.of_error hGroup with rfl | ⟨s, message, hInput, rfl⟩
    · exact .inr (.inl rfl)
    · refine .inr (.inr ⟨message, s.mOffset, ?_, by rw [← error_eq]; rfl⟩)
      have hLength := congrArg List.length hInput
      simp only [input, List.length_append, List.length_reverse, List.nil_append,
        List.reverse_nil] at hLength
      rw [mOffset]
      omega

end RetroConfig.Html.CParser
