import Mathlib.Data.List.Basic
import Mathlib.Tactic.Common

/-!
# Percent encoding

`encode keep` writes the bytes that `keep` rejects as a percent sign and two upper-case hexadecimal
digits, and the others as they are. `decode` reads such a text, with digits of either case. If the
percent sign itself is not kept, `decode` gives back what was encoded, so that different bytes are
written differently.
-/

namespace Percent

/-- A digit, upper-case. -/
def hexDigit (n : Nat) : UInt8 := UInt8.ofNat (if n < 10 then 48 + n else 55 + n)

def hexValue (c : UInt8) : Option Nat :=
  if 48 ≤ c ∧ c ≤ 57 then some (c.toNat - 48)
  else if 65 ≤ c ∧ c ≤ 70 then some (c.toNat - 55)
  else if 97 ≤ c ∧ c ≤ 102 then some (c.toNat - 87)
  else none

def escape (b : UInt8) : List UInt8 := [37, hexDigit (b.toNat / 16), hexDigit (b.toNat % 16)]

def encode (keep : UInt8 → Bool) (bytes : List UInt8) : List UInt8 :=
  bytes.flatMap fun b => if keep b then [b] else escape b

def decode : List UInt8 → Option (List UInt8)
  | [] => some []
  | c :: rest =>
    if c = 37 then
      match rest with
      | high :: low :: rest => do
        let h ← hexValue high
        let l ← hexValue low
        return UInt8.ofNat (16 * h + l) :: (← decode rest)
      | _ => none
    else do return c :: (← decode rest)

variable {keep : UInt8 → Bool}

theorem hexValue_hexDigit {n : Nat} (h : n < 16) : hexValue (hexDigit n) = some n := by
  have hAll : ∀ n : Fin 16, hexValue (hexDigit n) = some n.val := by decide
  exact hAll ⟨n, h⟩

theorem decode_escape (b : UInt8) (rest : List UInt8) :
    decode (escape b ++ rest) = (decode rest).map (b :: ·) := by
  have hb : b.toNat < 256 := b.toNat_lt
  have hHigh : hexValue (hexDigit (b.toNat / 16)) = some (b.toNat / 16) :=
    hexValue_hexDigit (by omega)
  have hLow : hexValue (hexDigit (b.toNat % 16)) = some (b.toNat % 16) := hexValue_hexDigit (by omega)
  have hByte : UInt8.ofNat (16 * (b.toNat / 16) + b.toNat % 16) = b := by
    rw [Nat.div_add_mod, UInt8.ofNat_toNat]
  simp only [escape, List.cons_append, List.nil_append, decode, if_true, hHigh, hLow,
    Option.bind_eq_bind, Option.bind_some, hByte]
  cases decode rest <;> rfl

theorem decode_kept {c : UInt8} (h : c ≠ 37) (rest : List UInt8) :
    decode (c :: rest) = (decode rest).map (c :: ·) := by
  rw [decode.eq_def]
  dsimp only
  rw [if_neg h]
  cases decode rest <;> rfl

/-- What was encoded is decoded again. -/
theorem decode_encode (hPercent : keep 37 = false) (bytes : List UInt8) :
    decode (encode keep bytes) = some bytes := by
  induction bytes with
  | nil => rfl
  | cons b bytes ih =>
    have hCons : encode keep (b :: bytes) = (if keep b then [b] else escape b) ++ encode keep bytes :=
      rfl
    rw [hCons]
    cases hb : keep b with
    | false =>
      rw [if_neg Bool.false_ne_true, decode_escape, ih]
      rfl
    | true =>
      have hNe : b ≠ 37 := by
        rintro rfl
        rw [hPercent] at hb
        cases hb
      rw [if_pos rfl, List.singleton_append, decode_kept hNe, ih]
      rfl

theorem encode_inj (hPercent : keep 37 = false) {bytes bytes' : List UInt8} :
    encode keep bytes = encode keep bytes' ↔ bytes = bytes' := by
  constructor
  · intro h
    have hDecode := congrArg decode h
    rw [decode_encode hPercent, decode_encode hPercent] at hDecode
    exact Option.some.inj hDecode
  · rintro rfl
    rfl

/-- What an encoded text consists of. -/
theorem mem_encode {bytes : List UInt8} {c : UInt8} (h : c ∈ encode keep bytes) :
    (c ∈ bytes ∧ keep c = true) ∨ c = 37 ∨ ∃ n < 16, c = hexDigit n := by
  obtain ⟨b, hb, hc⟩ := List.mem_flatMap.mp h
  split at hc
  case isTrue hKeep =>
    obtain rfl := List.mem_singleton.mp hc
    exact .inl ⟨hb, hKeep⟩
  case isFalse =>
    have hb : b.toNat < 256 := b.toNat_lt
    simp only [escape, List.mem_cons, List.not_mem_nil, or_false] at hc
    rcases hc with rfl | rfl | rfl
    · exact .inr (.inl rfl)
    · exact .inr (.inr ⟨_, by omega, rfl⟩)
    · exact .inr (.inr ⟨_, by omega, rfl⟩)

end Percent
