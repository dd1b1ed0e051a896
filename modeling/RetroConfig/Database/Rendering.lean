import RetroConfig.Database.Statement
import RetroConfig.Models.BookData

/-!
# The buffers of the numbers

`SQLite::update` and `SQLite::remove` (`utils/database/SQLite.cpp`) write a number into the text of a
statement by way of a local buffer that `sprintf` fills: 20 bytes for a field, 10 for an identifier.

`buffers_fit_iff` says when all of them are long enough. An `int` always fits into its buffer, a
`long long` only from `-10 ^ 18 + 1` on, and an identifier only below `10 ^ 9`. A `float` fits into the
buffer of its `%f` if there are not too many digits before its point.
-/

namespace RetroConfig

namespace SQLite

open Placeholder

/-- A local buffer and what `sprintf` writes into it. -/
structure Rendering where
  size : Nat
  text : String

/-- The text and its NUL fit into the buffer. -/
def Rendering.Fits (r : Rendering) : Prop := r.text.length + 1 ≤ r.size

/-- The buffer `str` of a field, which both branches of `update` have. -/
def fieldBuffer : (τ : FieldType) → τ.Value → Option Rendering
  | .integer, v => some ⟨20, toString (Int32.toInt v)⟩
  | .long, v => some ⟨20, toString (Int64.toInt v)⟩
  | .real, v => some ⟨20, floatDigits v⟩
  | .text, _ => none
  | .blob, _ => none
  | .none, _ => none

/-- The buffer `istr` of an identifier. -/
def identifierBuffer (id : Int32) : Rendering := ⟨10, toString id.toInt⟩

/-- The buffers of `update`: those of the fields, and with an identifier the one of the condition. -/
def updateBuffers (t : Table) (o : Object) : List Rendering :=
  (t.stored.filterMap fun f => fieldBuffer f.type (o.get f)) ++
    if o.identifier = -1 then [] else [identifierBuffer o.identifier]

/-- The buffer of `remove`. -/
def removeBuffers (o : Object) : List Rendering := [identifierBuffer o.identifier]

/-- The text of `SQLite::remove`. -/
def removeText (t : Table) (o : Object) : String :=
  "DELETE FROM " ++ t.cls ++ " WHERE identifier = " ++ (identifierBuffer o.identifier).text ++ ";"

/-- What `update` writes for a field is what its buffer holds. -/
theorem fieldText_eq (write : String → String) {τ : FieldType} {v : τ.Value} {r : Rendering}
    (h : fieldBuffer τ v = some r) : fieldText write τ v = r.text := by
  cases τ with
  | integer =>
    obtain rfl := Option.some.inj h
    rfl
  | long =>
    obtain rfl := Option.some.inj h
    rfl
  | real =>
    obtain rfl := Option.some.inj h
    rfl
  | text => cases h
  | blob => cases h
  | none => cases h

/-- What `update` writes behind the fields is what the buffer of the identifier holds. -/
theorem updateText_eq (write : String → String) (t : Table) {o : Object} (h : o.identifier ≠ -1) :
    updateText write t o =
      "UPDATE " ++ t.cls ++ " SET " ++
        commas (t.stored.map fun f => f.name ++ " = " ++ fieldText write f.type (o.get f)) ++
        " WHERE identifier = " ++ (identifierBuffer o.identifier).text ++ ";" := if_neg h

/-! ## Lengths -/

/-- A sign and `k` digits, or one more digit. -/
theorem length_toString_le_iff (n : Int) {k : Nat} (hk : 0 < k) :
    (toString n).length ≤ k + 1 ↔ -10 ^ k < n ∧ n < 10 ^ (k + 1) := by
  have hPos : (0 : Int) < 10 ^ k := Int.pow_pos (by decide)
  have hPos' : (0 : Int) < 10 ^ (k + 1) := Int.pow_pos (by decide)
  cases n with
  | ofNat m =>
    have hText : toString (Int.ofNat m) = m.repr := rfl
    have hCast : m < 10 ^ (k + 1) ↔ (m : Int) < 10 ^ (k + 1) := by
      rw [← Int.ofNat_lt, Int.natCast_pow]
      rfl
    rw [hText, Nat.length_repr_le_iff (Nat.succ_pos k), hCast, Int.ofNat_eq_natCast]
    exact ⟨fun h => ⟨by omega, h⟩, fun h => h.2⟩
  | negSucc m =>
    have hText : toString (Int.negSucc m) = "-" ++ (m + 1).repr := rfl
    have hMinus : "-".length = 1 := rfl
    have hCast : m + 1 < 10 ^ k ↔ ((m + 1 : Nat) : Int) < 10 ^ k := by
      rw [← Int.ofNat_lt, Int.natCast_pow]
      rfl
    rw [hText, String.length_append, hMinus, Nat.add_comm, Nat.add_le_add_iff_right,
      Nat.length_repr_le_iff hk, hCast, Int.negSucc_eq]
    exact ⟨fun h => ⟨by omega, by omega⟩, fun h => by omega⟩

theorem length_sixDigits {n : Nat} (h : n < 10 ^ 6) : (sixDigits n).length = 6 := by
  have hLe : (Nat.toDigits 10 n).length ≤ 6 :=
    (Nat.length_toDigits_le_iff (by decide) (by decide)).mpr h
  rw [sixDigits, String.length_ofList, List.length_append, List.length_replicate,
    Nat.sub_add_cancel hLe]

theorem length_floatDigits (q : Rat) :
    (floatDigits q).length = (if q < 0 then 1 else 0) + (millionths q / 10 ^ 6).repr.length + 7 := by
  have hSix : (sixDigits (millionths q % 10 ^ 6)).length = 6 :=
    length_sixDigits (Nat.mod_lt _ (by decide))
  have hPoint : ".".length = 1 := rfl
  have hSign : (if q < 0 then "-" else "").length = if q < 0 then 1 else 0 := by
    split <;> rfl
  rw [floatDigits, String.length_append, String.length_append, String.length_append, hSix, hPoint,
    hSign]

/-- Rounded to millionths, the number has at most twelve characters before its point. -/
def PrintableFloat (q : Rat) : Prop := millionths q / 10 ^ 6 < if q < 0 then 10 ^ 11 else 10 ^ 12

theorem floatDigits_fits_iff (q : Rat) :
    (floatDigits q).length + 1 ≤ 20 ↔ PrintableFloat q := by
  rw [length_floatDigits, PrintableFloat]
  split
  · rw [← Nat.length_repr_le_iff (by decide)]
    omega
  · rw [← Nat.length_repr_le_iff (by decide)]
    omega

/-- The value of a field has a text that fits: a `long long` is not too far below zero, and a `float`
not too large. -/
def Printable : (τ : FieldType) → τ.Value → Prop
  | .long, v => -10 ^ 18 < Int64.toInt v
  | .real, v => PrintableFloat v
  | _, _ => True

theorem fieldBuffer_fits_iff (τ : FieldType) (v : τ.Value) :
    (∀ r, fieldBuffer τ v = some r → r.Fits) ↔ Printable τ v := by
  have hOne : ∀ r : Rendering, (∀ r', some r = some r' → r'.Fits) ↔ r.Fits :=
    fun r => ⟨fun h => h r rfl, fun h r' hEq => Option.some.inj hEq ▸ h⟩
  cases τ with
  | integer =>
    refine iff_of_true ((hOne _).mpr ?_) trivial
    have hLower := Int32.le_toInt v
    have hUpper := Int32.toInt_lt v
    have hLength := (length_toString_le_iff (Int32.toInt v) (by decide : 0 < 18)).mpr
      ⟨by omega, by omega⟩
    exact Nat.succ_le_succ hLength
  | long =>
    have hUpper := Int64.toInt_lt v
    have hLength := length_toString_le_iff (Int64.toInt v) (by decide : 0 < 18)
    refine (hOne _).trans (Nat.succ_le_succ_iff.trans (hLength.trans ?_))
    exact ⟨fun h => h.1, fun h => ⟨h, by omega⟩⟩
  | real => exact (hOne _).trans (floatDigits_fits_iff v)
  | text => exact iff_of_true (fun r hEq => by cases hEq) trivial
  | blob => exact iff_of_true (fun r hEq => by cases hEq) trivial
  | none => exact iff_of_true (fun r hEq => by cases hEq) trivial

theorem identifierBuffer_fits_iff (id : Int32) :
    (identifierBuffer id).Fits ↔ -10 ^ 8 < id.toInt ∧ id.toInt < 10 ^ 9 :=
  Nat.succ_le_succ_iff.trans (length_toString_le_iff id.toInt (by decide : 0 < 8))

/-- All numbers that `update` and `remove` write fit into their buffers if and only if the values of the
fields are printable and the identifier has at most nine characters. -/
theorem buffers_fit_iff (t : Table) (o : Object) :
    (∀ r ∈ updateBuffers t o ++ removeBuffers o, r.Fits) ↔
      (∀ f ∈ t.stored, Printable f.type (o.get f)) ∧
        -10 ^ 8 < o.identifier.toInt ∧ o.identifier.toInt < 10 ^ 9 := by
  have hFields : (∀ r ∈ t.stored.filterMap fun f => fieldBuffer f.type (o.get f), r.Fits) ↔
      ∀ f ∈ t.stored, Printable f.type (o.get f) := by
    constructor
    · intro h f hf
      exact (fieldBuffer_fits_iff f.type (o.get f)).mp fun r hr =>
        h r (List.mem_filterMap.mpr ⟨f, hf, hr⟩)
    · intro h r hr
      obtain ⟨f, hf, hEq⟩ := List.mem_filterMap.mp hr
      exact (fieldBuffer_fits_iff f.type (o.get f)).mpr (h f hf) r hEq
  rw [← hFields, ← identifierBuffer_fits_iff, updateBuffers]
  constructor
  · intro h
    exact ⟨fun r hr => h r (List.mem_append_left _ (List.mem_append_left _ hr)),
      h _ (List.mem_append_right _ List.mem_cons_self)⟩
  · rintro ⟨hUpdate, hId⟩ r hr
    rcases List.mem_append.mp hr with hFirst | hRemove
    · rcases List.mem_append.mp hFirst with hField | hCondition
      · exact hUpdate r hField
      · split at hCondition
        · cases hCondition
        · rw [List.mem_singleton.mp hCondition]
          exact hId
    · rw [List.mem_singleton.mp hRemove]
      exact hId

/-- In a class without `float` fields: an identifier of ten digits, and a date with a sign and nineteen
digits. -/
theorem buffers_overflow :
    (∀ f ∈ BookData.table.stored, f.type ≠ .real) ∧
      (¬ ∀ r ∈ removeBuffers (Object.zero.setIdentifier 1000000000), r.Fits) ∧
      ¬ ∀ r ∈ updateBuffers BookData.table
        (Object.zero.set BookData.date (-1000000000000000000 : Int64)), r.Fits := by
  refine ⟨by decide, fun h => ?_, fun h => ?_⟩
  · have hFits := h _ List.mem_cons_self
    rw [Object.identifier_setIdentifier, identifierBuffer_fits_iff] at hFits
    exact absurd hFits.2 (by decide)
  · have hDate : (Object.zero.set BookData.date (-1000000000000000000 : Int64)).get BookData.date =
        (-1000000000000000000 : Int64) := Object.get_set ..
    have hBuffer : ⟨20, toString (-1000000000000000000 : Int)⟩ ∈ updateBuffers BookData.table
        (Object.zero.set BookData.date (-1000000000000000000 : Int64)) := by
      refine List.mem_append_left _ (List.mem_filterMap.mpr ⟨BookData.date, by decide, ?_⟩)
      exact congrArg (fieldBuffer .long) hDate
    have hLength := (length_toString_le_iff (-1000000000000000000) (by decide : 0 < 18)).mp
      (Nat.le_of_succ_le_succ (h _ hBuffer))
    exact absurd hLength.1 (by decide)

end SQLite

end RetroConfig
