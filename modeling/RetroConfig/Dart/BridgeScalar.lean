import RetroConfig.Dart.Bridge
import Mathlib.Algebra.Order.BigOperators.Group.List
import Mathlib.Tactic.NormNum

/-!
# Which scalars pass over the bridge

An integer comes back from native code as it was exactly if it fits into a `long`, and a string
without NUL exactly if UTF-8 keeps it: a surrogate without its partner is replaced, and a byte order
mark at the beginning is dropped (`back_eq_iff`). Of several strings, all come back as the same strings
again exactly if UTF-8 keeps each (`keys_back_iff`); a string that has lost its mark cannot stand in
for another one.
-/

namespace RetroConfig.Bridge

variable {δ : Type} {abi : Abi}

/-! ## Conditions -/

def Abi.Fits (abi : Abi) (n : Int64) : Prop :=
  -2 ^ (abi.long - 1) ≤ n.toInt ∧ n.toInt < 2 ^ (abi.long - 1)

/-- Every surrogate has its partner, and there is no byte order mark at the beginning. -/
def Utf8Text (s : DartString) : Prop := Utf16.WellFormed s ∧ s.head? ≠ some 0xFEFF

def NulFree (s : DartString) : Prop := (0 : UInt16) ∉ s

def Scalar.Fits (abi : Abi) : Scalar δ → Prop
  | .int n => abi.Fits n
  | .string s => Utf8Text s
  | _ => True

def Scalar.NulFree : Scalar δ → Prop
  | .string s => Bridge.NulFree s
  | _ => True

/-! ## Strings -/

theorem nulFree_toNativeUtf8 {s : DartString} (h : NulFree s) : Text.NulFree (toNativeUtf8 s) := by
  rw [Text.NulFree, toNativeUtf8, String.toList_ofList]
  intro hMem
  obtain ⟨u, hu, hNat⟩ := Utf16.mem_decode ⟨by decide, by decide⟩ hMem
  have hZero : u = 0 := UInt16.toNat_inj.mp hNat
  exact h (hZero ▸ hu)

/-- A string that comes back. -/
def roundTrip (s : DartString) : DartString :=
  Utf16.encode (discardMark (Utf16.decode s))

theorem toDartString_toNativeUtf8 {s : DartString} (h : NulFree s) :
    toDartString (toNativeUtf8 s) = roundTrip s := by
  rw [toDartString, Text.cString_of_nulFree (nulFree_toNativeUtf8 h), toNativeUtf8,
    String.toList_ofList, roundTrip]

theorem oneUnit_mark : Utf16.OneUnit '\uFEFF' := ⟨by decide, by decide⟩

theorem head_eq_mark_iff {s : DartString} :
    s.head? = some 0xFEFF ↔ ∃ cs, Utf16.decode s = '\uFEFF' :: cs := by
  constructor
  · intro h
    cases s with
    | nil => cases h
    | cons u rest =>
      obtain rfl := Option.some.inj h
      exact ⟨_, (Utf16.decode_eq_cons_iff oneUnit_mark).mpr ⟨_, rest, rfl, by decide, rfl⟩⟩
  · rintro ⟨cs, h⟩
    obtain ⟨u, rest, rfl, hu, -⟩ := (Utf16.decode_eq_cons_iff oneUnit_mark).mp h
    have hMark : u = 0xFEFF := UInt16.toNat_inj.mp hu
    rw [hMark, List.head?_cons]

/-- A string with a mark loses it. -/
theorem roundTrip_of_mark {s : DartString} (h : s.head? = some 0xFEFF) :
    (roundTrip s).length + 1 = s.length := by
  cases s with
  | nil => cases h
  | cons u rest =>
    obtain rfl := Option.some.inj h
    have hDecode : Utf16.decode (0xFEFF :: rest) = '\uFEFF' :: Utf16.decode rest :=
      (Utf16.decode_eq_cons_iff oneUnit_mark).mpr ⟨_, rest, rfl, by decide, rfl⟩
    rw [roundTrip, hDecode, discardMark, if_pos rfl, Utf16.length_encode_decode, List.length_cons]

theorem roundTrip_of_no_mark {s : DartString} (h : s.head? ≠ some 0xFEFF) :
    roundTrip s = Utf16.encode (Utf16.decode s) := by
  rw [roundTrip]
  cases hDecode : Utf16.decode s with
  | nil => rfl
  | cons c cs =>
    have hc : c ≠ '\uFEFF' := by
      rintro rfl
      exact h (head_eq_mark_iff.mpr ⟨cs, hDecode⟩)
    rw [discardMark, if_neg hc]

theorem wellFormed_roundTrip (s : DartString) : Utf16.WellFormed (roundTrip s) :=
  Utf16.wellFormed_encode _

theorem roundTrip_eq_iff {s : DartString} : roundTrip s = s ↔ Utf8Text s := by
  constructor
  · intro h
    refine ⟨h ▸ wellFormed_roundTrip s, ?_⟩
    intro hMark
    have hLength := roundTrip_of_mark hMark
    rw [h] at hLength
    omega
  · intro h
    rw [roundTrip_of_no_mark h.2, Utf16.encode_decode h.1]

/-- Only a string with two marks comes back with one. -/
theorem mark_of_roundTrip {s : DartString} (h : (roundTrip s).head? = some 0xFEFF) :
    s.head? = some 0xFEFF := by
  by_contra hNo
  rw [roundTrip_of_no_mark hNo] at h
  obtain ⟨cs, hDecode⟩ := head_eq_mark_iff.mp h
  rw [Utf16.decode_encode] at hDecode
  exact hNo (head_eq_mark_iff.mpr ⟨cs, hDecode⟩)

/-- Of several strings none is changed exactly if they all come back. -/
theorem keys_back_iff {keys : List DartString} :
    (∀ k, k ∈ keys.map roundTrip ↔ k ∈ keys) ↔ ∀ k ∈ keys, Utf8Text k := by
  constructor
  · intro h k hk
    refine ⟨?_, ?_⟩
    · obtain ⟨j, -, rfl⟩ := List.mem_map.mp ((h k).mpr hk)
      exact wellFormed_roundTrip j
    · intro hMark
      -- a key with a mark comes back from one with a mark more
      have hLonger : ∀ n, ∃ j ∈ keys, j.head? = some 0xFEFF ∧ n ≤ j.length := by
        intro n
        induction n with
        | zero => exact ⟨k, hk, hMark, Nat.zero_le _⟩
        | succ n ih =>
          obtain ⟨j, hj, hHead, hLength⟩ := ih
          obtain ⟨i, hi, rfl⟩ := List.mem_map.mp ((h j).mpr hj)
          have hMarkI := mark_of_roundTrip hHead
          exact ⟨i, hi, hMarkI, by rw [← roundTrip_of_mark hMarkI]; omega⟩
      obtain ⟨j, hj, -, hLength⟩ := hLonger ((keys.map List.length).sum + 1)
      have hSum := List.le_sum_of_mem (List.mem_map_of_mem (f := List.length) hj)
      omega
  · intro h k
    rw [List.map_congr_left fun j hj => roundTrip_eq_iff.mpr (h j hj), List.map_id']

/-! ## Scalars -/

/-- An integer that comes back. -/
def narrow (abi : Abi) (n : Int64) : Int64 := .ofBitVec ((n.toBitVec.setWidth abi.long).signExtend 64)

theorem long_le (abi : Abi) : abi.long ≤ 64 := by
  cases abi <;> decide

theorem narrow_eq_iff {n : Int64} : narrow abi n = n ↔ abi.Fits n := by
  have hInt : (narrow abi n).toInt = n.toInt.bmod (2 ^ abi.long) := by
    rw [narrow, ← Int64.toInt_toBitVec, Int64.toBitVec_ofBitVec,
      BitVec.toInt_signExtend_of_le (long_le abi), BitVec.toInt_setWidth, ← Int64.toInt_toBitVec,
      BitVec.toInt_eq_toNat_bmod, Int.bmod_bmod_of_dvd]
    exact pow_dvd_pow 2 (long_le abi)
  rw [← Int64.toInt_inj, hInt, Abi.Fits]
  cases abi with
  | ilp32 =>
    rw [Abi.long, Int.bmod_eq_iff (by decide)]
    norm_num
  | lp64 =>
    rw [Abi.long, Int.bmod_eq_iff (by decide)]
    norm_num

def Scalar.back (abi : Abi) : Scalar δ → Scalar δ
  | .int n => .int (narrow abi n)
  | .string s => .string (roundTrip s)
  | a => a

theorem back_eq_iff {a : Scalar δ} : a.back abi = a ↔ a.Fits abi := by
  cases a with
  | int n => rw [Scalar.back, Scalar.int.injEq, narrow_eq_iff, Scalar.Fits]
  | string s => rw [Scalar.back, Scalar.string.injEq, roundTrip_eq_iff, Scalar.Fits]
  | null => exact iff_of_true rfl trivial
  | boolean b => exact iff_of_true rfl trivial
  | double d => exact iff_of_true rfl trivial

theorem received_sent_scalar (memory : NativeTarget δ) (heap : Heap abi δ) {a : Scalar δ}
    (h : a.NulFree) : received memory heap (sent memory (.scalar a)) = .scalar (a.back abi) := by
  cases a with
  | null => rfl
  | boolean b => cases b <;> rfl
  | int n => rfl
  | double d => rfl
  | string s =>
    change Dynamic.scalar (.string (toDartString (Text.cString (Text.cString (toNativeUtf8 s))))) = _
    rw [Text.cString_cString, Text.cString_of_nulFree (nulFree_toNativeUtf8 h),
      toDartString_toNativeUtf8 h, Scalar.back]

end RetroConfig.Bridge
