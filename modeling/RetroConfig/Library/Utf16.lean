import Mathlib.Data.List.Basic

/-!
# Texts of UTF-16 code units

A text may be any list of code units, also one with a surrogate that has no partner. `decode` reads its
characters, with U+FFFD for such a surrogate, and `encode` writes characters. What is written can be
read (`decode_encode`), and what is read is written as it was if every surrogate has its partner
(`encode_decode`). A character of one code unit is read where that code unit stands (`mem_decode`,
`decode_eq_cons_iff`).
-/

namespace Utf16

/-- The first code unit of a pair. -/
abbrev High (u : UInt16) : Prop := 0xD800 ≤ u.toNat ∧ u.toNat < 0xDC00

/-- The second code unit of a pair. -/
abbrev Low (u : UInt16) : Prop := 0xDC00 ≤ u.toNat ∧ u.toNat < 0xE000

/-- The character of a code unit that is not in a pair. -/
def single (u : UInt16) : Char :=
  if High u ∨ Low u then Char.ofNat 0xFFFD else Char.ofNat u.toNat

def pair (u v : UInt16) : Char :=
  Char.ofNat (0x10000 + (u.toNat - 0xD800) * 0x400 + (v.toNat - 0xDC00))

def decode : List UInt16 → List Char
  | [] => []
  | [u] => [single u]
  | u :: v :: rest =>
    if High u ∧ Low v then pair u v :: decode rest else single u :: decode (v :: rest)

def encodeChar (c : Char) : List UInt16 :=
  if c.toNat < 0x10000 then [UInt16.ofNat c.toNat]
  else
    [UInt16.ofNat (0xD800 + (c.toNat - 0x10000) / 0x400),
      UInt16.ofNat (0xDC00 + (c.toNat - 0x10000) % 0x400)]

def encode (cs : List Char) : List UInt16 := cs.flatMap encodeChar

/-- Every surrogate has its partner. -/
def WellFormed : List UInt16 → Prop
  | [] => True
  | [u] => ¬ (High u ∨ Low u)
  | u :: v :: rest =>
    if High u ∧ Low v then WellFormed rest else ¬ (High u ∨ Low u) ∧ WellFormed (v :: rest)

@[simp] theorem encode_nil : encode [] = [] := rfl

theorem encode_cons (c : Char) (cs : List Char) : encode (c :: cs) = encodeChar c ++ encode cs := by
  rw [encode, List.flatMap_cons, encode]

theorem toNat_ofNat {n : Nat} (h : n.isValidChar) : (Char.ofNat n).toNat = n := by
  rw [Char.ofNat, dif_pos h]
  rfl

theorem single_of_surrogate {u : UInt16} (h : High u ∨ Low u) : single u = Char.ofNat 0xFFFD :=
  if_pos h

theorem toNat_single {u : UInt16} (h : ¬ (High u ∨ Low u)) : (single u).toNat = u.toNat := by
  rw [single, if_neg h]
  apply toNat_ofNat
  have := u.toNat_lt
  rw [Nat.isValidChar]
  omega

theorem toNat_pair {u v : UInt16} (hu : High u) (hv : Low v) :
    (pair u v).toNat = 0x10000 + (u.toNat - 0xD800) * 0x400 + (v.toNat - 0xDC00) := by
  apply toNat_ofNat
  rw [Nat.isValidChar]
  omega

theorem encodeChar_single {u : UInt16} (h : ¬ (High u ∨ Low u)) : encodeChar (single u) = [u] := by
  have := u.toNat_lt
  rw [encodeChar, toNat_single h, if_pos (by omega), UInt16.ofNat_toNat]

theorem encodeChar_pair {u v : UInt16} (hu : High u) (hv : Low v) :
    encodeChar (pair u v) = [u, v] := by
  have hFirst : 0xD800 + ((pair u v).toNat - 0x10000) / 0x400 = u.toNat := by
    rw [toNat_pair hu hv]
    omega
  have hSecond : 0xDC00 + ((pair u v).toNat - 0x10000) % 0x400 = v.toNat := by
    rw [toNat_pair hu hv]
    omega
  rw [encodeChar, if_neg (by rw [toNat_pair hu hv]; omega), hFirst, hSecond, UInt16.ofNat_toNat,
    UInt16.ofNat_toNat]

theorem encodeChar_replacement : encodeChar (Char.ofNat 0xFFFD) = [0xFFFD] := by decide

theorem length_encodeChar_single (u : UInt16) : (encodeChar (single u)).length = 1 := by
  by_cases h : High u ∨ Low u
  · rw [single_of_surrogate h, encodeChar_replacement]
    rfl
  · rw [encodeChar_single h]
    rfl

theorem length_encode_decode (s : List UInt16) : (encode (decode s)).length = s.length := by
  fun_induction decode s with
  | case1 => rfl
  | case2 u =>
    rw [encode_cons, encode_nil, List.append_nil, length_encodeChar_single, List.length_singleton]
  | case3 u v rest h ih =>
    rw [encode_cons, encodeChar_pair h.1 h.2, List.length_append, ih]
    simp only [List.length_cons, List.length_nil]
    omega
  | case4 u v rest h ih =>
    rw [encode_cons, List.length_append, length_encodeChar_single, ih, Nat.add_comm]
    rfl

theorem encode_decode {s : List UInt16} (h : WellFormed s) : encode (decode s) = s := by
  fun_induction decode s with
  | case1 => rfl
  | case2 u => rw [encode_cons, encodeChar_single h, encode_nil, List.append_nil]
  | case3 u v rest hPair ih =>
    rw [WellFormed, if_pos hPair] at h
    rw [encode_cons, encodeChar_pair hPair.1 hPair.2, ih h]
    rfl
  | case4 u v rest hPair ih =>
    rw [WellFormed, if_neg hPair] at h
    rw [encode_cons, encodeChar_single h.1, ih h.2]
    rfl

theorem decode_cons {u : UInt16} (h : ¬ (High u ∨ Low u)) (s : List UInt16) :
    decode (u :: s) = single u :: decode s := by
  cases s with
  | nil => rfl
  | cons v rest => rw [decode, if_neg (fun hPair => h (Or.inl hPair.1))]

/-- Well-formed texts are put together from characters. -/
theorem wellFormed_cons {u : UInt16} {s : List UInt16} (hu : ¬ (High u ∨ Low u)) (h : WellFormed s) :
    WellFormed (u :: s) := by
  cases s with
  | nil => exact hu
  | cons v rest =>
    rw [WellFormed, if_neg (fun hPair => hu (Or.inl hPair.1))]
    exact ⟨hu, h⟩

theorem wellFormed_pair {u v : UInt16} {s : List UInt16} (hu : High u) (hv : Low v)
    (h : WellFormed s) : WellFormed (u :: v :: s) := by
  rw [WellFormed, if_pos ⟨hu, hv⟩]
  exact h

/-- A character is one code unit or two. -/
theorem encodeChar_cases (c : Char) :
    (∃ u, encodeChar c = [u] ∧ ¬ (High u ∨ Low u) ∧ single u = c) ∨
      ∃ u v, encodeChar c = [u, v] ∧ High u ∧ Low v ∧ pair u v = c := by
  have hValid : c.toNat.isValidChar := c.valid
  rw [Nat.isValidChar] at hValid
  rw [encodeChar]
  split
  · have hNat : (UInt16.ofNat c.toNat).toNat = c.toNat := by
      rw [UInt16.toNat_ofNat', Nat.mod_eq_of_lt (by omega)]
    have hSurrogate : ¬ (High (UInt16.ofNat c.toNat) ∨ Low (UInt16.ofNat c.toNat)) := by
      rw [High, Low, hNat]
      omega
    exact Or.inl ⟨_, rfl, hSurrogate, by rw [single, if_neg hSurrogate, hNat, Char.ofNat_toNat]⟩
  · have hFirst : (UInt16.ofNat (0xD800 + (c.toNat - 0x10000) / 0x400)).toNat =
        0xD800 + (c.toNat - 0x10000) / 0x400 := by
      rw [UInt16.toNat_ofNat', Nat.mod_eq_of_lt (by omega)]
    have hSecond : (UInt16.ofNat (0xDC00 + (c.toNat - 0x10000) % 0x400)).toNat =
        0xDC00 + (c.toNat - 0x10000) % 0x400 := by
      rw [UInt16.toNat_ofNat', Nat.mod_eq_of_lt (by omega)]
    refine Or.inr ⟨_, _, rfl, ?_, ?_, ?_⟩
    · rw [High, hFirst]
      omega
    · rw [Low, hSecond]
      omega
    · have hNat : 0x10000 + (0xD800 + (c.toNat - 0x10000) / 0x400 - 0xD800) * 0x400 +
          (0xDC00 + (c.toNat - 0x10000) % 0x400 - 0xDC00) = c.toNat := by omega
      rw [pair, hFirst, hSecond, hNat, Char.ofNat_toNat]

theorem wellFormed_encode (cs : List Char) : WellFormed (encode cs) := by
  induction cs with
  | nil => trivial
  | cons c cs ih =>
    rw [encode_cons]
    obtain ⟨u, hc, hu, -⟩ | ⟨u, v, hc, hu, hv, -⟩ := encodeChar_cases c
    · rw [hc]
      exact wellFormed_cons hu ih
    · rw [hc]
      exact wellFormed_pair hu hv ih

theorem decode_encode (cs : List Char) : decode (encode cs) = cs := by
  induction cs with
  | nil => rfl
  | cons c cs ih =>
    rw [encode_cons]
    obtain ⟨u, hc, hu, hSingle⟩ | ⟨u, v, hc, hu, hv, hPair⟩ := encodeChar_cases c
    · rw [hc, List.singleton_append, decode_cons hu, hSingle, ih]
    · rw [hc]
      change decode (u :: v :: encode cs) = c :: cs
      rw [decode, if_pos ⟨hu, hv⟩, hPair, ih]

/-! ## Characters of one code unit -/

/-- A character that is one code unit, and not the one for surrogates without a partner. -/
def OneUnit (c : Char) : Prop := c.toNat < 0x10000 ∧ c.toNat ≠ 0xFFFD

theorem not_surrogate_of_toNat_eq {u : UInt16} {c : Char} (h : u.toNat = c.toNat) :
    ¬ (High u ∨ Low u) := by
  have hValid : c.toNat.isValidChar := c.valid
  rw [Nat.isValidChar] at hValid
  omega

theorem single_eq_iff {u : UInt16} {c : Char} (hc : OneUnit c) : single u = c ↔ u.toNat = c.toNat := by
  constructor
  · intro hEq
    by_cases h : High u ∨ Low u
    · rw [single_of_surrogate h] at hEq
      exact absurd ((congrArg Char.toNat hEq).symm.trans (toNat_ofNat (by decide))) hc.2
    · rw [← toNat_single h, hEq]
  · intro hEq
    rw [single, if_neg (not_surrogate_of_toNat_eq hEq), hEq, Char.ofNat_toNat]

theorem pair_ne {u v : UInt16} {c : Char} (hc : OneUnit c) (hu : High u) (hv : Low v) :
    pair u v ≠ c := by
  intro hEq
  have hNat := (congrArg Char.toNat hEq).symm.trans (toNat_pair hu hv)
  have hLt := hc.1
  omega

theorem mem_decode {s : List UInt16} {c : Char} (hc : OneUnit c) (h : c ∈ decode s) :
    ∃ u ∈ s, u.toNat = c.toNat := by
  fun_induction decode s with
  | case1 => cases h
  | case2 u =>
    exact ⟨u, List.mem_singleton_self u, (single_eq_iff hc).mp (List.mem_singleton.mp h).symm⟩
  | case3 u v rest hPair ih =>
    rcases List.mem_cons.mp h with hHead | hRest
    · exact absurd hHead.symm (pair_ne hc hPair.1 hPair.2)
    · obtain ⟨w, hw, hEq⟩ := ih hRest
      exact ⟨w, List.mem_cons_of_mem _ (List.mem_cons_of_mem _ hw), hEq⟩
  | case4 u v rest hPair ih =>
    rcases List.mem_cons.mp h with hHead | hRest
    · exact ⟨u, List.mem_cons_self, (single_eq_iff hc).mp hHead.symm⟩
    · obtain ⟨w, hw, hEq⟩ := ih hRest
      exact ⟨w, List.mem_cons_of_mem _ hw, hEq⟩

/-- A character at the beginning is the code unit at the beginning. -/
theorem decode_eq_cons_iff {s : List UInt16} {c : Char} {cs : List Char} (hc : OneUnit c) :
    decode s = c :: cs ↔ ∃ u rest, s = u :: rest ∧ u.toNat = c.toNat ∧ decode rest = cs := by
  constructor
  · intro h
    match s with
    | [] => cases h
    | [u] =>
      rw [decode, List.cons.injEq] at h
      exact ⟨u, [], rfl, (single_eq_iff hc).mp h.1, h.2⟩
    | u :: v :: rest =>
      rw [decode] at h
      split at h
      · next hPair =>
        rw [List.cons.injEq] at h
        exact absurd h.1 (pair_ne hc hPair.1 hPair.2)
      · rw [List.cons.injEq] at h
        exact ⟨u, v :: rest, rfl, (single_eq_iff hc).mp h.1, h.2⟩
  · rintro ⟨u, rest, rfl, hu, rfl⟩
    rw [decode_cons (not_surrogate_of_toNat_eq hu), (single_eq_iff hc).mpr hu]

end Utf16
