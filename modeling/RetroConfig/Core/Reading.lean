import RetroConfig.Core.Data
import Mathlib.Algebra.Group.Nat.Defs
import Mathlib.Tactic.Common

/-!
# `Data::read`: reading whole items

`FileData::read` is `fread`. `BufferData::read` and `MultiData::read` (`gcore/core/IMP.cpp`) copy
every item that is left, however many were asked for, to the place in the destination that has the
number of the item's place in the contents, and answer `-1` at the end.

`Obeys` is the contract of `fread` for whole items. `BufferData.read_iff` says when the code obeys it,
for every destination: a single read from the start, which asks for everything.
-/

namespace RetroConfig

/-- The bytes from a pointer on. -/
abbrev Memory := Nat → UInt8

/-- Copy bytes to the place `start`. -/
def Memory.put (dest : Memory) (start : Nat) (bytes : List UInt8) : Memory := fun i =>
  if start ≤ i then bytes[i - start]?.getD (dest i) else dest i

theorem Memory.put_nil (dest : Memory) (start : Nat) : dest.put start [] = dest := by
  funext i
  rw [put]
  split <;> rfl

theorem Memory.put_put (dest : Memory) (start : Nat) (bytes more : List UInt8) :
    (dest.put start bytes).put (start + bytes.length) more = dest.put start (bytes ++ more) := by
  funext i
  unfold put
  by_cases hMore : start + bytes.length ≤ i
  · have hNone : bytes[i - start]? = none := List.getElem?_eq_none (by omega)
    have hStart : start ≤ i := by omega
    rw [if_pos hMore, if_pos hStart, if_pos hStart, List.getElem?_append_right (by omega), hNone,
      Nat.sub_sub]
    rfl
  · rw [if_neg hMore]
    split
    · rw [List.getElem?_append_left (by omega)]
    · rfl

/-- `n` bytes from `offset` on. -/
def slice (bytes : List UInt8) (offset n : Nat) : List UInt8 := (bytes.drop offset).take n

theorem slice_append (bytes : List UInt8) (offset m n : Nat) :
    slice bytes offset m ++ slice bytes (offset + m) n = slice bytes offset (m + n) := by
  rw [slice, slice, slice, ← List.drop_drop, List.take_add]

theorem length_slice {bytes : List UInt8} {offset n : Nat} (h : offset + n ≤ bytes.length) :
    (slice bytes offset n).length = n := by
  rw [slice, List.length_take, List.length_drop]
  omega

/-- What a read leaves: the number that it returns, the new offset and the destination. -/
structure Read where
  count : Nat
  offset : Nat
  dest : Memory

/-- `-1` as a `size_t`. -/
def minusOne : Nat := 2 ^ 64 - 1

/-- The loop of `BufferData::read` and `MultiData::read`. It is `none` where `memcpy` leaves the
contents, and where an item has no bytes, so that the loop never ends. -/
def readItems (bytes : List UInt8) (size : Nat) (s : Read) : Option Read :=
  if (s.offset + size) % 2 ^ 64 ≤ bytes.length then
    if 0 < size ∧ s.offset + size ≤ bytes.length then
      readItems bytes size
        { count := s.count + 1
          offset := s.offset + size
          dest := s.dest.put s.offset (slice bytes s.offset size) }
    else none
  else some s
termination_by bytes.length - s.offset

/-- `BufferData::read` and `MultiData::read`, which do not look at `nitems`. -/
def readFrom (bytes : List UInt8) (offset : Nat) (dest : Memory) (size _nitems : UInt64) :
    Option Read :=
  if offset < bytes.length then readItems bytes size.toNat ⟨0, offset, dest⟩
  else some ⟨minusOne, offset, dest⟩

/-- `MultiData`. -/
structure MultiData where
  offset : Nat
  buffer : List UInt8

/-- An open file of the C library. -/
structure File where
  contents : List UInt8
  position : Nat

/-- `FileData`; `file` is `none` if it could not be opened. -/
structure FileData where
  file : Option File

/-- `BufferData::read` -/
def BufferData.read (d : BufferData) (dest : Memory) (size nitems : UInt64) : Option Read :=
  readFrom d.contents d.offset dest size nitems

/-- `MultiData::read` -/
def MultiData.read (d : MultiData) (dest : Memory) (size nitems : UInt64) : Option Read :=
  readFrom d.buffer d.offset dest size nitems

/-- `fread`, which takes byte after byte and counts the whole items. -/
def File.fread (f : File) (dest : Memory) (size nitems : UInt64) : Read :=
  let n := min (size.toNat * nitems.toNat) (f.contents.length - f.position)
  { count := n / size.toNat
    offset := f.position + n
    dest := dest.put 0 (slice f.contents f.position n) }

/-- `FileData::read` -/
def FileData.read (d : FileData) (dest : Memory) (size nitems : UInt64) : Option Read :=
  some (match d.file with
    | some f => f.fread dest size nitems
    | none => ⟨minusOne, 0, dest⟩)

/-! ## The contract -/

/-- The whole items that are left. -/
def itemsLeft (bytes : List UInt8) (offset size : Nat) : Nat := (bytes.length - offset) / size

/-- The reads copy as many of the items that are left as were asked for to the beginning of the
destination, and nothing else. -/
def Obeys (bytes : List UInt8) (offset : Nat) (size nitems : UInt64)
    (read : Memory → Option Read) : Prop :=
  ∀ dest, read dest =
    let k := min nitems.toNat (itemsLeft bytes offset size.toNat)
    some
      { count := k
        offset := offset + k * size.toNat
        dest := dest.put 0 (slice bytes offset (k * size.toNat)) }

/-- A read from the start or behind the last whole item, which asks for all items that are left, and
after which the offset can be added up once more. -/
def Complete (bytes : List UInt8) (offset size nitems : Nat) : Prop :=
  offset < bytes.length ∧ itemsLeft bytes offset size ≤ nitems ∧
    (offset = 0 ∨ itemsLeft bytes offset size = 0) ∧
    offset + (itemsLeft bytes offset size + 1) * size < 2 ^ 64

instance (bytes : List UInt8) (offset size nitems : Nat) :
    Decidable (Complete bytes offset size nitems) :=
  inferInstanceAs (Decidable (_ ∧ _ ∧ _ ∧ _))

theorem itemsLeft_eq_zero {bytes : List UInt8} {offset size : Nat}
    (h : bytes.length < offset + size) (hOffset : offset ≤ bytes.length) :
    itemsLeft bytes offset size = 0 := Nat.div_eq_of_lt (by omega)

theorem itemsLeft_add {bytes : List UInt8} {offset size : Nat} (hSize : 0 < size)
    (h : offset + size ≤ bytes.length) :
    itemsLeft bytes offset size = itemsLeft bytes (offset + size) size + 1 := by
  rw [itemsLeft, itemsLeft, ← Nat.sub_sub]
  exact Nat.div_eq_sub_div hSize (by omega)

/-- The loop copies all items that are left, each to its own place. -/
theorem readItems_eq {bytes : List UInt8} {size : Nat} (hSize : 0 < size) (hWord : size < 2 ^ 64)
    (s : Read) (hOffset : s.offset ≤ bytes.length) :
    readItems bytes size s =
      if s.offset + (itemsLeft bytes s.offset size + 1) * size < 2 ^ 64 then
        some
          { count := s.count + itemsLeft bytes s.offset size
            offset := s.offset + itemsLeft bytes s.offset size * size
            dest := s.dest.put s.offset
              (slice bytes s.offset (itemsLeft bytes s.offset size * size)) }
      else none := by
  fun_induction readItems bytes size s with
  | case1 s hFit hCopy ih =>
    have hLength := length_slice hCopy.2
    rw [ih hCopy.2, itemsLeft_add hSize hCopy.2]
    dsimp only
    generalize itemsLeft bytes (s.offset + size) size = k
    have hMul : (k + 1) * size = size + k * size := by rw [Nat.succ_mul, Nat.add_comm]
    have hMul' : (k + 1 + 1) * size = size + (k + 1) * size := by rw [Nat.succ_mul, Nat.add_comm]
    have hPut := Memory.put_put s.dest s.offset (slice bytes s.offset size)
      (slice bytes (s.offset + size) (k * size))
    rw [hLength, slice_append] at hPut
    rw [hPut, hMul', hMul, Nat.add_assoc, Nat.add_assoc, Nat.add_assoc, Nat.add_comm 1 k]
  | case2 s hFit hCopy =>
    have hBeyond : bytes.length < s.offset + size := by
      rw [not_and] at hCopy
      exact Nat.lt_of_not_le (hCopy hSize)
    have hWrap : ¬ s.offset + size < 2 ^ 64 := fun hLt => by
      rw [Nat.mod_eq_of_lt hLt] at hFit
      omega
    rw [itemsLeft_eq_zero hBeyond hOffset, Nat.zero_add, Nat.one_mul, if_neg hWrap]
  | case3 s hFit =>
    have hBeyond : bytes.length < s.offset + size := by
      have hMod := Nat.mod_le (s.offset + size) (2 ^ 64)
      omega
    have hLt : s.offset + size < 2 ^ 64 := by
      by_contra hGe
      omega
    rw [itemsLeft_eq_zero hBeyond hOffset, Nat.zero_add, Nat.one_mul, if_pos hLt, Nat.zero_mul]
    simp [slice, Memory.put_nil]

/-- Bytes that are not copied to the beginning are missing there. -/
theorem put_start_iff {bytes : List UInt8} {start : Nat} :
    (∀ dest : Memory, dest.put start bytes = dest.put 0 bytes) ↔ start = 0 ∨ bytes = [] := by
  constructor
  · intro hSame
    by_contra hNot
    rw [not_or] at hNot
    obtain ⟨b, rest, rfl⟩ := List.exists_cons_of_ne_nil hNot.2
    have hFirst := congrFun (hSame fun _ => b + 1) 0
    rw [Memory.put, Memory.put, if_neg (by omega), if_pos (Nat.le_refl 0)] at hFirst
    exact absurd hFirst (by simp)
  · rintro (rfl | rfl) dest
    · rfl
    · rw [Memory.put_nil, Memory.put_nil]

section Contract

variable {bytes : List UInt8} {offset : Nat} {size nitems : UInt64}

theorem slice_items_eq_nil (hSize : 0 < size.toNat) (hOffset : offset < bytes.length) :
    slice bytes offset (itemsLeft bytes offset size.toNat * size.toNat) = [] ↔
      itemsLeft bytes offset size.toNat = 0 := by
  have hLe : itemsLeft bytes offset size.toNat * size.toNat ≤ bytes.length - offset :=
    Nat.div_mul_le_self _ _
  rw [← List.length_eq_zero_iff, length_slice (by omega), Nat.mul_eq_zero]
  exact or_iff_left (by omega)

/-- The code reads right exactly if the read is complete. -/
theorem obeys_iff (hSize : 0 < size.toNat) :
    Obeys bytes offset size nitems (fun dest => readFrom bytes offset dest size nitems) ↔
      Complete bytes offset size.toNat nitems.toNat := by
  by_cases hOffset : offset < bytes.length
  · by_cases hRoom : offset + (itemsLeft bytes offset size.toNat + 1) * size.toNat < 2 ^ 64
    · have hRead (dest : Memory) : readFrom bytes offset dest size nitems =
          some
            { count := itemsLeft bytes offset size.toNat
              offset := offset + itemsLeft bytes offset size.toNat * size.toNat
              dest := dest.put offset
                (slice bytes offset (itemsLeft bytes offset size.toNat * size.toNat)) } := by
        rw [readFrom, if_pos hOffset, readItems_eq hSize size.toNat_lt _ (Nat.le_of_lt hOffset),
          if_pos hRoom, Nat.zero_add]
      have hComplete : Complete bytes offset size.toNat nitems.toNat ↔
          itemsLeft bytes offset size.toNat ≤ nitems.toNat ∧
            (offset = 0 ∨ itemsLeft bytes offset size.toNat = 0) := by
        rw [Complete, and_iff_right hOffset, and_iff_left hRoom]
      rw [hComplete, ← slice_items_eq_nil hSize hOffset, ← put_start_iff]
      constructor
      · intro hObeys
        have hCount := congrArg Read.count (Option.some.inj ((hRead fun _ => 0).symm.trans (hObeys _)))
        have hAll : itemsLeft bytes offset size.toNat ≤ nitems.toNat := by
          dsimp only at hCount
          omega
        refine ⟨hAll, fun dest => ?_⟩
        have hDest := congrArg Read.dest (Option.some.inj ((hRead dest).symm.trans (hObeys dest)))
        dsimp only at hDest
        rw [Nat.min_eq_right hAll] at hDest
        exact hDest
      · rintro ⟨hAll, hSame⟩ dest
        dsimp only
        rw [hRead, Nat.min_eq_right hAll, hSame]
    · refine iff_of_false (fun hObeys => ?_) fun hComplete => hRoom hComplete.2.2.2
      have hRead := hObeys fun _ => 0
      dsimp only at hRead
      rw [readFrom, if_pos hOffset, readItems_eq hSize size.toNat_lt _ (Nat.le_of_lt hOffset),
        if_neg hRoom] at hRead
      exact Option.some_ne_none _ hRead.symm
  · refine iff_of_false (fun hObeys => ?_) fun hComplete => hOffset hComplete.1
    have hRead := hObeys fun _ => 0
    dsimp only at hRead
    have hLeft : itemsLeft bytes offset size.toNat = 0 := by
      rw [itemsLeft, Nat.sub_eq_zero_of_le (Nat.le_of_not_lt hOffset), Nat.zero_div]
    rw [readFrom, if_neg hOffset, hLeft, Nat.min_zero] at hRead
    have hCount : minusOne = 0 := congrArg Read.count (Option.some.inj hRead)
    exact absurd hCount (by decide)

end Contract

end RetroConfig
