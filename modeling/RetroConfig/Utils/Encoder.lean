import RetroConfig.Utils.EncodeData

/-!
# `Encoder::decode`: texts in UTF-8

`Encoder::decode` (`utils/Encoder.cpp`) reads all bytes of a `Data` and lets `iconv` convert them to
UTF-8. It allocates two bytes for each byte of the data, and puts a NUL behind what was converted.
`urlEncodeWithEncoding` next to it allocates four.

`decode_iff` says when all is converted and everything is written into that buffer. A character that is
one byte in the encoding and three in UTF-8 is enough to lose it, and so is a text of characters with
two; for empty data the NUL has no place.

`iconv` is given as a function: it converts as many characters as fit.
-/

namespace RetroConfig

/-! ## `readAll` -/

/-- `Data::readAll`, which `BufferData` inherits. -/
def BufferData.readAll (d : BufferData) : Option (List UInt8) :=
  let size := d.size
  if size = 0 then some []
  else
    let d := { d with offset := 0 }
    (d.read (fun _ => 0) 1 (UInt64.ofNat size)).map fun r => (List.range size).map r.dest

/-- `BUF_SIZE` -/
def bufSize : UInt64 := 8 * 1024

theorem File.fread_count (f : File) (buf : Memory) :
    (f.fread buf 1 bufSize).count = min 8192 (f.contents.length - f.position) := by
  have hOne : (1 : UInt64).toNat = 1 := rfl
  have hSize : bufSize.toNat = 8192 := rfl
  rw [File.fread, hOne, hSize, Nat.one_mul, Nat.div_one]

theorem File.fread_offset (f : File) (buf : Memory) :
    (f.fread buf 1 bufSize).offset = f.position + (f.fread buf 1 bufSize).count := by
  have hOne : (1 : UInt64).toNat = 1 := rfl
  rw [File.fread, hOne, Nat.div_one]

/-- The loop of `FileData::readAll`. -/
def File.readRest (f : File) (buf : Memory) : List UInt8 :=
  let r := f.fread buf 1 bufSize
  if 0 < r.count then
    (List.range r.count).map r.dest ++ File.readRest { f with position := r.offset } r.dest
  else []
termination_by f.contents.length - f.position
decreasing_by
  rw [File.fread_offset]
  rename_i hCount
  rw [File.fread_count] at hCount ⊢
  omega

/-- `FileData::readAll` -/
def FileData.readAll (d : FileData) : List UInt8 :=
  match d.file with
  | some f => File.readRest { f with position := 0 } fun _ => 0
  | none => []

namespace Data

/-- `Data::readAll`. `MultiData` returns its buffer. -/
def readAll : Data → Option (List UInt8)
  | .buffer d => d.readAll
  | .multi d => some d.buffer
  | .file d => some d.readAll

/-- The data have these bytes, whatever their offset. Nothing in memory is larger than `PTRDIFF_MAX`. -/
def Holds (data : Data) (bytes : List UInt8) : Prop :=
  bytes.length < 2 ^ 63 ∧
    match data with
    | .buffer d => d.size = bytes.length ∧ d.bBuffer = bytes
    | .multi d => d.buffer = bytes
    | .file d => ∃ f, d.file = some f ∧ f.contents = bytes

end Data

namespace Encoder

/-! ## The code -/

/-- What `iconv_open` returns: no descriptor, `(iconv_t)-1`, or a descriptor with its `iconv`, which
takes the bytes and the space and gives what it writes. -/
inductive Descriptor where
  | null
  | invalid
  | conversion (iconv : List UInt8 → Nat → List UInt8)

/-- What `decode` does: the size of its buffer, the places in it that are written, and its result. -/
structure Decoded where
  allocated : Nat
  written : List Nat
  data : BufferData

/-- `Encoder::decode`. It is `none` where `iconv` gets no descriptor. -/
def decode (cd : Descriptor) : Option Data → Option (Option Decoded)
  | none => some none
  | some data =>
    match cd with
    | .null => some none
    | .invalid => none
    | .conversion iconv =>
      data.readAll.map fun buf =>
        let inlen := buf.length
        let outlen := 2 * inlen
        let out := iconv buf outlen
        let l := out.length
        some
          { allocated := outlen
            written := List.range l ++ [l]
            data := .ofBuffer out l }

/-! ## Encodings -/

/-- An encoding cuts bytes into characters and says what each of them is in UTF-8. Bytes that are
ignored are characters with nothing. -/
structure Encoding where
  characters : List UInt8 → List (List UInt8 × List UInt8)
  sources : ∀ bytes, (characters bytes).flatMap Prod.fst = bytes
  expansion : ∀ bytes, ∀ c ∈ characters bytes, c.2.length ≤ 3 * c.1.length

namespace Encoding

/-- The conversion of the first characters. -/
def front (e : Encoding) (bytes : List UInt8) (n : Nat) : List UInt8 :=
  ((e.characters bytes).take n).flatMap Prod.snd

/-- The complete conversion. -/
def convert (e : Encoding) (bytes : List UInt8) : List UInt8 :=
  (e.characters bytes).flatMap Prod.snd

/-- `iconv` converts the longest prefix that fits. -/
def Converts (e : Encoding) (iconv : List UInt8 → Nat → List UInt8) : Prop :=
  ∀ bytes space, ∃ n, iconv bytes space = e.front bytes n ∧ (e.front bytes n).length ≤ space ∧
    ∀ m ≤ (e.characters bytes).length, (e.front bytes m).length ≤ space → m ≤ n

theorem front_of_le {e : Encoding} {bytes : List UInt8} {n : Nat}
    (h : (e.characters bytes).length ≤ n) : e.front bytes n = e.convert bytes := by
  rw [front, List.take_of_length_le h, convert]

/-- The conversion is complete if and only if it fits. -/
theorem Converts.complete_iff {e : Encoding} {iconv : List UInt8 → Nat → List UInt8}
    (h : e.Converts iconv) (bytes : List UInt8) (space : Nat) :
    iconv bytes space = e.convert bytes ↔ (e.convert bytes).length ≤ space := by
  obtain ⟨n, hOut, hFits, hLongest⟩ := h bytes space
  constructor
  · intro hEq
    rw [← hEq, hOut]
    exact hFits
  · intro hAll
    have hLe : (e.characters bytes).length ≤ n := by
      refine hLongest _ (Nat.le_refl _) ?_
      rwa [front_of_le (Nat.le_refl _)]
    rw [hOut, front_of_le hLe]

end Encoding

/-- The result is the whole conversion, and all that is written lies in the buffer. -/
def Lossless (e : Encoding) (bytes : List UInt8) (result : Option (Option Decoded)) : Prop :=
  ∃ d, result = some (some d) ∧ d.data.contents = e.convert bytes ∧ ∀ i ∈ d.written, i < d.allocated

/-! ## Reading -/

theorem readAll_buffer {d : BufferData} {bytes : List UInt8} (hLess : bytes.length < 2 ^ 63)
    (hSize : d.size = bytes.length) (hBytes : d.bBuffer = bytes) : d.readAll = some bytes := by
  obtain ⟨size, buffer, offset⟩ := d
  obtain rfl : size = bytes.length := hSize
  obtain rfl : buffer = bytes := hBytes
  by_cases hEmpty : buffer.length = 0
  · rw [List.length_eq_zero_iff.mp hEmpty]
    rfl
  · have hOne : (1 : UInt64).toNat = 1 := rfl
    have hContents : (BufferData.mk buffer.length buffer 0).contents = buffer := by
      rw [BufferData.contents, List.take_length]
    have hLeft : itemsLeft buffer 0 1 = buffer.length := by
      rw [itemsLeft, Nat.div_one, Nat.sub_zero]
    have hAll : slice buffer 0 buffer.length = buffer := by
      rw [slice, List.drop_zero, List.take_length]
    have hRun : readItems buffer 1 ⟨0, 0, fun _ => 0⟩ =
        some ⟨buffer.length, buffer.length, Memory.put (fun _ => 0) 0 buffer⟩ := by
      rw [readItems_eq Nat.one_pos (by decide) _ (Nat.zero_le _)]
      dsimp only
      rw [hLeft, if_pos (by omega), Nat.mul_one, Nat.zero_add, hAll]
    rw [BufferData.readAll, if_neg hEmpty]
    simp only
    rw [BufferData.read, hContents, readFrom, if_pos (Nat.pos_of_ne_zero hEmpty), hOne, hRun,
      Option.map_some, Bit64.map_put]

theorem readRest_eq (f : File) (buf : Memory) : f.readRest buf = f.contents.drop f.position := by
  have hOne : (1 : UInt64).toNat = 1 := rfl
  have hSize : bufSize.toNat = 8192 := rfl
  fun_induction File.readRest f buf with
  | case1 f buf r hCount ih =>
    obtain ⟨n, hn⟩ : ∃ n, n = min 8192 (f.contents.length - f.position) := ⟨_, rfl⟩
    have hRead : r = ⟨n, f.position + n, buf.put 0 (slice f.contents f.position n)⟩ := by
      rw [hn]
      change f.fread buf 1 bufSize = _
      rw [File.fread, hOne, hSize, Nat.one_mul, Nat.div_one]
    have hLength : (slice f.contents f.position n).length = n := by
      rw [hRead] at hCount
      dsimp only at hCount
      exact length_slice (by omega)
    have hMap := Bit64.map_put buf (slice f.contents f.position n)
    rw [hLength] at hMap
    rw [ih, hRead]
    dsimp only
    rw [hMap, slice, ← List.drop_drop, List.take_append_drop]
  | case2 f buf r hCount =>
    have hNone : min 8192 (f.contents.length - f.position) = 0 := by
      rw [← File.fread_count f buf]
      exact Nat.eq_zero_of_not_pos hCount
    exact (List.drop_eq_nil_of_le (by omega)).symm

theorem readAll_eq {data : Data} {bytes : List UInt8} (h : data.Holds bytes) :
    data.readAll = some bytes := by
  obtain ⟨hLess, hKind⟩ := h
  cases data with
  | buffer d => exact readAll_buffer hLess hKind.1 hKind.2
  | multi d => exact congrArg some hKind
  | file d =>
    obtain ⟨f, hFile, rfl⟩ := hKind
    rw [Data.readAll, FileData.readAll, hFile]
    simp only
    rw [readRest_eq, List.drop_zero]

/-- All is converted and written into the buffer if and only if the conversion is shorter than twice
the data. -/
theorem decode_iff (e : Encoding) (iconv : List UInt8 → Nat → List UInt8) (hConv : e.Converts iconv)
    (data : Data) (bytes : List UInt8) (hData : data.Holds bytes) :
    Lossless e bytes (decode (.conversion iconv) (some data)) ↔
      (e.convert bytes).length < 2 * bytes.length := by
  obtain ⟨out, hOut⟩ : ∃ out, out = iconv bytes (2 * bytes.length) := ⟨_, rfl⟩
  have hDecode : decode (.conversion iconv) (some data) = some (some
      { allocated := 2 * bytes.length
        written := List.range out.length ++ [out.length]
        data := .ofBuffer out out.length }) := by
    rw [decode]
    simp only
    rw [readAll_eq hData, Option.map_some, hOut]
  have hComplete := hConv.complete_iff bytes (2 * bytes.length)
  rw [← hOut] at hComplete
  rw [hDecode, Lossless]
  constructor
  · rintro ⟨d, hEq, hContents, hWritten⟩
    obtain rfl := Option.some.inj (Option.some.inj hEq)
    rw [BufferData.contents_ofBuffer] at hContents
    rw [← hContents]
    exact hWritten out.length (List.mem_append_right _ List.mem_cons_self)
  · intro hFits
    have hEq : out = e.convert bytes := hComplete.mpr (Nat.le_of_lt hFits)
    refine ⟨_, rfl, ?_, fun i hi => ?_⟩
    · rw [BufferData.contents_ofBuffer, hEq]
    · have hLe : i ≤ out.length := by
        rcases List.mem_append.mp hi with hRange | hLast
        · exact Nat.le_of_lt (List.mem_range.mp hRange)
        · exact Nat.le_of_eq (List.mem_singleton.mp hLast)
      rw [hEq] at hLe
      exact Nat.lt_of_le_of_lt hLe hFits

/-! ## Latin-1 -/

/-- As many characters as fit, one after the other. -/
def fitting : List (List UInt8 × List UInt8) → Nat → List UInt8
  | [], _ => []
  | c :: cs, space => if c.2.length ≤ space then c.2 ++ fitting cs (space - c.2.length) else []

theorem fitting_longest (cs : List (List UInt8 × List UInt8)) (space : Nat) :
    ∃ n, fitting cs space = (cs.take n).flatMap Prod.snd ∧
      ((cs.take n).flatMap Prod.snd).length ≤ space ∧
      ∀ m ≤ cs.length, ((cs.take m).flatMap Prod.snd).length ≤ space → m ≤ n := by
  induction cs generalizing space with
  | nil => exact ⟨0, rfl, Nat.zero_le _, fun m hm _ => hm⟩
  | cons c cs ih =>
    rw [fitting]
    split
    · next hFits =>
      obtain ⟨n, hEq, hLe, hLongest⟩ := ih (space - c.2.length)
      refine ⟨n + 1, ?_, ?_, fun m hm hLess => ?_⟩
      · rw [hEq, List.take_succ_cons, List.flatMap_cons]
      · rw [List.take_succ_cons, List.flatMap_cons, List.length_append]
        omega
      · cases m with
        | zero => exact Nat.zero_le _
        | succ m =>
          rw [List.take_succ_cons, List.flatMap_cons, List.length_append] at hLess
          exact Nat.succ_le_succ (hLongest m (Nat.le_of_succ_le_succ hm) (by omega))
    · next hNot =>
      refine ⟨0, rfl, Nat.zero_le _, fun m _ hLess => ?_⟩
      cases m with
      | zero => exact Nat.le_refl _
      | succ m =>
        rw [List.take_succ_cons, List.flatMap_cons, List.length_append] at hLess
        omega

theorem converts_fitting (e : Encoding) :
    e.Converts fun bytes space => fitting (e.characters bytes) space :=
  fun bytes space => fitting_longest (e.characters bytes) space

/-- A character of Latin-1 in UTF-8. -/
def utf8 (b : UInt8) : List UInt8 :=
  if b < 0x80 then [b] else [(0xC0 : UInt8) ||| (b >>> 6), (0x80 : UInt8) ||| (b &&& 0x3F)]

def latin1 : Encoding where
  characters := List.map fun b => ([b], utf8 b)
  sources := fun bytes => by
    rw [List.flatMap_map]
    exact List.flatMap_singleton' bytes
  expansion := fun bytes c hc => by
    obtain ⟨b, -, rfl⟩ := List.mem_map.mp hc
    rw [utf8]
    split
    · exact Nat.le_add_left 1 2
    · exact Nat.le_succ 2

/-- The bytes of `Zelda`, which are the same in UTF-8. -/
theorem decode_iff_latin1 :
    Lossless latin1 [0x5A, 0x65, 0x6C, 0x64, 0x61]
        (decode (.conversion fun bytes space => fitting (latin1.characters bytes) space)
          (some (.multi ⟨0, [0x5A, 0x65, 0x6C, 0x64, 0x61]⟩))) ↔
      (latin1.convert [0x5A, 0x65, 0x6C, 0x64, 0x61]).length < 10 :=
  decode_iff latin1 _ (converts_fitting latin1) (.multi ⟨0, [0x5A, 0x65, 0x6C, 0x64, 0x61]⟩)
    [0x5A, 0x65, 0x6C, 0x64, 0x61] ⟨by decide, rfl⟩

/-- The single byte of an `é`, which has two in UTF-8: the NUL is written behind the buffer. -/
theorem decode_fails :
    ¬ ∀ (e : Encoding) (iconv : List UInt8 → Nat → List UInt8), e.Converts iconv →
      ∀ (data : Data) (bytes : List UInt8), data.Holds bytes →
        Lossless e bytes (decode (.conversion iconv) (some data)) := by
  intro h
  obtain ⟨d, hEq, -, hWritten⟩ := h latin1 _ (converts_fitting latin1) (.multi ⟨0, [0xE9]⟩) [0xE9]
    ⟨by decide, rfl⟩
  obtain rfl := Option.some.inj (Option.some.inj hEq)
  exact absurd (hWritten 2 (by decide)) (by decide)

end Encoder

end RetroConfig
