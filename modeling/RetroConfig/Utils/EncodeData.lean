import RetroConfig.Core.Reading
import RetroConfig.Utils.Bit64

/-!
# `Bit64::encode`: the encoding of a `Data`

`Bit64::encode` (`utils/Bit64.cpp`) reads single bytes into a buffer of 2048 until nothing is read. A
`Data` in memory never returns that: at its end the loop gets `-1`, which is a number of bytes that no
buffer has. `encode_iff` says that the loop ends with the bytes that are left for an open file only.
-/

namespace RetroConfig

/-- The kinds of `Data`. -/
inductive Data where
  | buffer (d : BufferData)
  | multi (d : MultiData)
  | file (d : FileData)

namespace Data

def getSize : Data → Nat
  | .buffer d => d.size
  | .multi d => d.buffer.length
  | .file d => (d.file.map fun f => f.contents.length).getD 0

/-- The data after a read that left its offset at `offset`. -/
def moveTo (offset : Nat) : Data → Data
  | .buffer d => .buffer { d with offset }
  | .multi d => .multi { d with offset }
  | .file d => .file { file := d.file.map fun f => { f with position := offset } }

def read (data : Data) (dest : Memory) (size nitems : UInt64) : Option Read :=
  match data with
  | .buffer d => d.read dest size nitems
  | .multi d => d.read dest size nitems
  | .file d => d.read dest size nitems

/-- The bytes that are left. -/
def remaining : Data → List UInt8
  | .buffer d => d.contents.drop d.offset
  | .multi d => d.buffer.drop d.offset
  | .file d => (d.file.map fun f => f.contents.drop f.position).getD []

/-- A file that was opened. -/
def IsOpenFile (data : Data) : Prop := ∃ f, data = .file ⟨some f⟩

end Data

namespace Bit64

/-- `B_SIZE` -/
def bSize : Nat := 2048

/-- The loop of `Bit64::encode`, as far as `fuel` rounds. It is `none` where it fails: `memcpy` takes
more bytes from `buf` than it has. -/
def readAll : Nat → Data → List UInt8 → Memory → Option (List UInt8)
  | 0, _, _, _ => none
  | fuel + 1, data, readBuf, buf =>
    (data.read buf 1 (UInt64.ofNat bSize)).bind fun r =>
      if r.count = 0 then some readBuf
      else if r.count ≤ bSize then
        readAll fuel (data.moveTo r.offset) (readBuf ++ (List.range r.count).map r.dest) r.dest
      else none

/-- `Bit64::encode` -/
def encode (fuel : Nat) (data : Data) (buf : Memory) : Option (List UInt8) :=
  (readAll fuel data [] buf).map fun readBuf =>
    filled (bit64EncodeSize data.getSize) (bit64Encode readBuf)

/-- The loop ends, and what is left of the data is encoded, whatever `buf` holds before. -/
def EncodesRemaining (data : Data) : Prop :=
  ∀ buf, ∃ fuel, encode fuel data buf =
    some (filled (bit64EncodeSize data.getSize) (bit64Encode data.remaining))

/-! ## Data in memory -/

/-- A read of single bytes never returns zero. -/
theorem count_ne_zero {bytes : List UInt8} {offset : Nat} {dest : Memory} (nitems : UInt64) {r : Read}
    (h : readFrom bytes offset dest 1 nitems = some r) : r.count ≠ 0 := by
  unfold readFrom at h
  split at h
  · next hOffset =>
    have hOne : (1 : UInt64).toNat = 1 := rfl
    rw [hOne, readItems_eq (by decide) (by decide) _ (Nat.le_of_lt hOffset)] at h
    split at h
    · obtain rfl := Option.some.inj h
      dsimp only
      rw [itemsLeft, Nat.div_one]
      omega
    · exact absurd h.symm (Option.some_ne_none r)
  · obtain rfl := Option.some.inj h
    have hMinusOne : minusOne ≠ 0 := by decide
    exact hMinusOne

/-- The loop over data that never returns zero does not end. -/
theorem readAll_none (data : Data) (h : ∀ offset dest r,
      (data.moveTo offset).read dest 1 (UInt64.ofNat bSize) = some r → r.count ≠ 0)
    (hMove : ∀ offset offset', (data.moveTo offset).moveTo offset' = data.moveTo offset')
    (fuel offset : Nat) (readBuf : List UInt8) (buf : Memory) :
    readAll fuel (data.moveTo offset) readBuf buf = none := by
  induction fuel generalizing offset readBuf buf with
  | zero => rfl
  | succ fuel ih =>
    rw [readAll]
    cases hRead : (data.moveTo offset).read buf 1 (UInt64.ofNat bSize) with
    | none => rfl
    | some r =>
      rw [Option.bind_some, if_neg (h offset buf r hRead), hMove]
      split
      · exact ih r.offset _ _
      · rfl

theorem readAll_buffer (d : BufferData) (fuel : Nat) (buf : Memory) :
    readAll fuel (.buffer d) [] buf = none :=
  readAll_none (.buffer d) (fun _ _ _ hRead => count_ne_zero (UInt64.ofNat bSize) hRead) (fun _ _ => rfl) fuel
    d.offset [] buf

theorem readAll_multi (d : MultiData) (fuel : Nat) (buf : Memory) :
    readAll fuel (.multi d) [] buf = none :=
  readAll_none (.multi d) (fun _ _ _ hRead => count_ne_zero (UInt64.ofNat bSize) hRead) (fun _ _ => rfl) fuel
    d.offset [] buf

theorem readAll_closed (fuel : Nat) (buf : Memory) : readAll fuel (.file ⟨none⟩) [] buf = none := by
  cases fuel with
  | zero => rfl
  | succ fuel => rfl

/-! ## Files -/

theorem map_put (dest : Memory) (bytes : List UInt8) :
    (List.range bytes.length).map (dest.put 0 bytes) = bytes := by
  refine List.ext_getElem (by rw [List.length_map, List.length_range]) fun i hi hi' => ?_
  rw [List.getElem_map, List.getElem_range, Memory.put, if_pos (Nat.zero_le i), Nat.sub_zero,
    List.getElem?_eq_getElem hi', Option.getD_some]

theorem fread_eq (f : File) (buf : Memory) :
    (Data.file ⟨some f⟩).read buf 1 (UInt64.ofNat bSize) =
      let n := min bSize (f.contents.length - f.position)
      some ⟨n, f.position + n, buf.put 0 (slice f.contents f.position n)⟩ := by
  have hOne : (1 : UInt64).toNat = 1 := rfl
  have hSize : (UInt64.ofNat bSize).toNat = bSize := rfl
  have hRead : (Data.file ⟨some f⟩).read buf 1 (UInt64.ofNat bSize) =
      some (f.fread buf 1 (UInt64.ofNat bSize)) := rfl
  rw [hRead, File.fread, hOne, hSize, Nat.one_mul, Nat.div_one]

/-- The loop over an open file appends what is left of it. -/
theorem readAll_file (f : File) (readBuf : List UInt8) (buf : Memory) :
    ∃ fuel, readAll fuel (.file ⟨some f⟩) readBuf buf =
      some (readBuf ++ f.contents.drop f.position) := by
  induction hLeft : f.contents.length - f.position using Nat.strong_induction_on
    generalizing f readBuf buf with
  | _ left ih =>
    by_cases hEnd : left = 0
    · have hDrop : f.contents.drop f.position = [] := List.drop_eq_nil_of_le (by omega)
      refine ⟨1, ?_⟩
      rw [readAll, fread_eq, hLeft, hEnd, hDrop, List.append_nil]
      rfl
    · have hPos : 0 < min bSize left := Nat.lt_min.mpr ⟨by decide, Nat.pos_of_ne_zero hEnd⟩
      have hLe : min bSize left ≤ left := Nat.min_le_right _ _
      have hLength : (slice f.contents f.position (min bSize left)).length = min bSize left :=
        length_slice (by omega)
      obtain ⟨fuel, hFuel⟩ := ih (left - min bSize left) (by omega)
        { f with position := f.position + min bSize left }
        (readBuf ++ slice f.contents f.position (min bSize left))
        (buf.put 0 (slice f.contents f.position (min bSize left)))
        (by dsimp only; omega)
      refine ⟨fuel + 1, ?_⟩
      have hMap := map_put buf (slice f.contents f.position (min bSize left))
      rw [hLength] at hMap
      rw [readAll, fread_eq, hLeft, Option.bind_some]
      dsimp only
      rw [if_neg (Nat.ne_of_gt hPos), if_pos (Nat.min_le_left _ _), hMap]
      have hSlice : slice f.contents f.position (min bSize left) ++
          f.contents.drop (f.position + min bSize left) = f.contents.drop f.position := by
        rw [slice, ← List.drop_drop, List.take_append_drop]
      rw [List.append_assoc, hSlice] at hFuel
      exact hFuel

/-! ## What is encoded -/

theorem not_encodesRemaining {data : Data} (h : ∀ fuel buf, readAll fuel data [] buf = none) :
    ¬ EncodesRemaining data := by
  intro hEncodes
  obtain ⟨fuel, hFuel⟩ := hEncodes fun _ => 0
  rw [encode, h] at hFuel
  exact absurd hFuel.symm (Option.some_ne_none _)

theorem encodesRemaining_iff (data : Data) : EncodesRemaining data ↔ data.IsOpenFile := by
  cases data with
  | buffer d =>
    refine iff_of_false (not_encodesRemaining (readAll_buffer d)) ?_
    rintro ⟨f, hFile⟩
    cases hFile
  | multi d =>
    refine iff_of_false (not_encodesRemaining (readAll_multi d)) ?_
    rintro ⟨f, hFile⟩
    cases hFile
  | file d =>
    obtain ⟨file⟩ := d
    cases file with
    | none =>
      refine iff_of_false (not_encodesRemaining readAll_closed) ?_
      rintro ⟨f, hFile⟩
      cases hFile
    | some f =>
      refine iff_of_true (fun buf => ?_) ⟨f, rfl⟩
      obtain ⟨fuel, hFuel⟩ := readAll_file f [] buf
      refine ⟨fuel, ?_⟩
      rw [encode, hFuel]
      rfl

end Bit64

end RetroConfig
