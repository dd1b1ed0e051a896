import RetroConfig.Library.Percent
import Mathlib.Data.List.TakeWhile

/-!
# `Encoder::urlEncode`

`Encoder::urlEncode` (`utils/Encoder.cpp`) writes letters and digits as they are and escapes the other
bytes; it reads its text through a `const char *`. `urlEncodeWithEncoding` lets `iconv` convert the
text first, into a buffer of four bytes for each byte, which is cleared before and read as a C string
after. `iconv` is given as a function: the bytes that it writes into a buffer of a size.
-/

namespace RetroConfig.Encoder

/-- `Encoder_hex`. -/
def encoderHex : List UInt8 := [48, 49, 50, 51, 52, 53, 54, 55, 56, 57, 65, 66, 67, 68, 69, 70]

/-- `is_non_symbol`. -/
def isNonSymbol (c : UInt8) : Bool :=
  if c = 0 then true
  else (48 ≤ c && c ≤ 57) || (65 ≤ c && c ≤ 90) || (97 ≤ c && c ≤ 122)

/-- `urlEncode`. -/
def urlEncode : List UInt8 → List UInt8
  | [] => []
  | c :: str =>
    if c = 0 then []
    else if isNonSymbol c then c :: urlEncode str
    else 37 :: encoderHex.getD (c.toNat / 16) 0 :: encoderHex.getD (c.toNat % 16) 0 :: urlEncode str

/-- What a text is up to its first NUL. -/
def cText (str : List UInt8) : List UInt8 := str.takeWhile (· ≠ 0)

/-- `urlEncode(oristr)` for a buffer: a text without an end is `none`. -/
def urlEncodeBuffer (buffer : List UInt8) : Option (List UInt8) :=
  if 0 ∈ buffer then some (urlEncode buffer) else none

/-- `iconv_open`, and `iconv` with the descriptor: what it writes into a buffer. -/
structure Iconv where
  convert : List UInt8 → Nat → List UInt8
  fits : ∀ str size, (convert str size).length ≤ size

/-- `urlEncodeWithEncoding`. -/
def urlEncodeWithEncoding (iconvOpen : String → Option Iconv) (str : List UInt8) (encoding : String) :
    Option (List UInt8) :=
  if str = [] then some []
  else if encoding = "utf-8" then some (urlEncode str)
  else
    match iconvOpen encoding with
    | none => some (urlEncode str)
    | some cd =>
      let outlen := 4 * (cText str).length
      let written := cd.convert (cText str) outlen
      urlEncodeBuffer (written ++ List.replicate (outlen - written.length) 0)

/-! ## Reading it back -/

theorem encoderHex_getD {n : Nat} (h : n < 16) : encoderHex.getD n 0 = Percent.hexDigit n := by
  have hAll : ∀ n : Fin 16, encoderHex.getD n 0 = Percent.hexDigit n := by decide
  exact hAll ⟨n, h⟩

theorem urlEncode_eq (str : List UInt8) : urlEncode str = Percent.encode isNonSymbol (cText str) := by
  induction str with
  | nil => rfl
  | cons c str ih =>
    by_cases hc : c = 0
    · subst hc
      rfl
    · have hText : cText (c :: str) = c :: cText str := List.takeWhile_cons_of_pos (by simpa using hc)
      have hEncode : Percent.encode isNonSymbol (c :: cText str) =
          (if isNonSymbol c then [c] else Percent.escape c) ++
            Percent.encode isNonSymbol (cText str) := rfl
      have hByte : c.toNat < 256 := c.toNat_lt
      rw [urlEncode, if_neg hc, ih, hText, hEncode]
      cases isNonSymbol c with
      | true => rfl
      | false =>
        rw [encoderHex_getD (by omega), encoderHex_getD (by omega)]
        rfl

theorem isNonSymbol_hexDigit {n : Nat} (h : n < 16) :
    Percent.hexDigit n ≠ 0 ∧ isNonSymbol (Percent.hexDigit n) = true := by
  have hAll : ∀ n : Fin 16, Percent.hexDigit n ≠ 0 ∧ isNonSymbol (Percent.hexDigit n) = true := by
    decide
  exact hAll ⟨n, h⟩

theorem mem_cText {str : List UInt8} {c : UInt8} (h : c ∈ cText str) : c ≠ 0 := by
  simpa using List.mem_takeWhile_imp h

theorem decode_urlEncode (str : List UInt8) : Percent.decode (urlEncode str) = some (cText str) := by
  rw [urlEncode_eq, Percent.decode_encode rfl]

/-- A text that has been encoded has letters, digits and percent signs only, and is decoded to the
original up to its first NUL; two texts are encoded alike exactly if they agree up to there. -/
theorem urlEncode_decodes (str : List UInt8) :
    Percent.decode (urlEncode str) = some (cText str) ∧
      (∀ c ∈ urlEncode str, c = 37 ∨ (c ≠ 0 ∧ isNonSymbol c = true)) ∧
      ∀ str', urlEncode str = urlEncode str' ↔ cText str = cText str' := by
  refine ⟨decode_urlEncode str, fun c hc => ?_, fun str' => ?_⟩
  · rw [urlEncode_eq] at hc
    rcases Percent.mem_encode hc with ⟨hMem, hKeep⟩ | hPercent | ⟨n, hn, rfl⟩
    · exact .inr ⟨mem_cText hMem, hKeep⟩
    · exact .inl hPercent
    · exact .inr (isNonSymbol_hexDigit hn)
  · rw [urlEncode_eq, urlEncode_eq, Percent.encode_inj rfl]

/-! ## With an encoding -/

theorem cText_append {written : List UInt8} (zeros : List UInt8) (h : 0 ∈ written) :
    cText (written ++ zeros) = cText written := by
  induction written with
  | nil => cases h
  | cons c written ih =>
    by_cases hc : c = 0
    · subst hc
      rfl
    · have hRest : 0 ∈ written := by
        rcases List.mem_cons.mp h with hZero | hRest
        · exact absurd hZero.symm hc
        · exact hRest
      have hCons : ∀ l, cText (c :: l) = c :: cText l :=
        fun l => List.takeWhile_cons_of_pos (by simpa using hc)
      rw [List.cons_append, hCons, hCons, ih hRest]

theorem cText_zeros {written : List UInt8} (h : 0 ∉ written) (n : Nat) :
    cText (written ++ List.replicate n 0) = cText written := by
  have hAll : ∀ c ∈ written, (decide (c ≠ 0)) = true := by
    intro c hc
    rw [decide_eq_true_eq]
    rintro rfl
    exact h hc
  rw [cText, cText, List.takeWhile_append_of_pos hAll, List.takeWhile_eq_self_iff.mpr hAll]
  cases n with
  | zero => exact List.append_nil written
  | succ n => simp [List.replicate_succ]

/-- What `urlEncodeWithEncoding` encodes. -/
def converted (iconvOpen : String → Option Iconv) (str : List UInt8) (encoding : String) :
    List UInt8 :=
  if encoding = "utf-8" then str
  else
    match iconvOpen encoding with
    | none => str
    | some cd => cd.convert (cText str) (4 * (cText str).length)

/-- What has been converted leaves room for a NUL behind it, or has one. -/
def Terminated (iconvOpen : String → Option Iconv) (str : List UInt8) (encoding : String) : Prop :=
  ∀ cd, encoding ≠ "utf-8" → iconvOpen encoding = some cd →
    (converted iconvOpen str encoding).length < 4 * (cText str).length ∨
      0 ∈ converted iconvOpen str encoding

theorem urlEncodeBuffer_isSome {written : List UInt8} {size : Nat} (hFits : written.length ≤ size) :
    (urlEncodeBuffer (written ++ List.replicate (size - written.length) 0)).isSome ↔
      written.length < size ∨ 0 ∈ written := by
  have hMem : 0 ∈ written ++ List.replicate (size - written.length) 0 ↔
      written.length < size ∨ 0 ∈ written := by
    rw [List.mem_append, List.mem_replicate, or_comm]
    have hPos : size - written.length ≠ 0 ↔ written.length < size := by omega
    simp only [hPos, and_true]
  rw [← hMem, urlEncodeBuffer]
  split <;> simp_all

theorem decode_urlEncodeBuffer {written r : List UInt8} {n : Nat}
    (h : urlEncodeBuffer (written ++ List.replicate n 0) = some r) :
    Percent.decode r = some (cText written) := by
  rw [urlEncodeBuffer] at h
  split at h
  case isFalse => cases h
  case isTrue =>
    obtain rfl := Option.some.inj h
    rw [decode_urlEncode]
    by_cases hMem : 0 ∈ written
    · rw [cText_append _ hMem]
    · rw [cText_zeros hMem]

end RetroConfig.Encoder
