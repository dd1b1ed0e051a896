import RetroConfig.Library.Rounding
import RetroConfig.Utils.Bit64

/-!
# `bit64_decode` on any bytes

The token of a comment is decoded as it was found. `bit64_hex64rev` gets its bytes as `char`s and
indexes the reverse table with them: where `char` is signed, a byte from 128 on is a negative index.
The number of bytes that are written never depends on what the table holds: it is at most 3/4 of the
length, rounded up.

`LibraryContext::isMatch` allocates its buffers by `bit64_decode_size`, which computes this in
`float`. For a token this is exact, since its size has to be 64 or 65. The previous token is decoded
whatever its length is. `isMatch_iff` says when tables and buffers are kept to.
-/

namespace RetroConfig.Bit64

open Nat (ofDigits)

/-- `bit64_decode_size`: the length becomes a `float`, and so does its product with 3; the division
by 4 and `ceilf` are exact. -/
def bit64DecodeSizeFloat (n : Nat) : Nat :=
  (Rounding.nearestEven 24 (3 * Rounding.nearestEven 24 n) + 3) / 4

/-- The texts that `isMatch` decodes, each into a buffer of `bit64_decode_size` bytes. -/
def decoded (token prev : List UInt8) : List (List UInt8) :=
  (if prev = [] then [] else [prev]) ++
    if bit64DecodeSizeFloat token.length = 64 ∨ bit64DecodeSizeFloat token.length = 65 then [token]
    else []

/-- Every index that `bit64_hex64rev` uses is one of the table. -/
def InTable (t : Target) (buffer : List UInt8) : Prop :=
  ∀ ch ∈ buffer.take (visited buffer.length), 0 ≤ t.char ch ∧ t.char ch ≤ 255

/-- No more than 3/4 of the length is written, rounded up. -/
def Bounded (t : Target) (buffer : List UInt8) : Prop :=
  (bit64Decode t buffer).length ≤ bit64DecodeSize buffer.length

/-- `isMatch` keeps to the table and to its buffers. -/
def KeepsBounds (t : Target) (token prev : List UInt8) : Prop :=
  ∀ text ∈ decoded token prev, InTable t text ∧ Bounded t text ∧
    (bit64Decode t text).length ≤ bit64DecodeSizeFloat text.length

/-- The bytes of a text as `char`s are not negative. -/
def Plain (t : Target) (text : List UInt8) : Prop := t.signedChar = true → ∀ ch ∈ text, ch.toNat < 128

/-- The bits that are left at the end are bits of the last character, as many as are missing to
whole bytes. -/
def LeavesBits (t : Target) (text : List UInt8) : Prop :=
  ∃ ch, text.getLast? = some ch ∧ (2 : Int) ^ (6 - 6 * text.length % 8) ≤ hex64rev t ch

open Classical in
/-- The whole bytes, and one more for the bits that are left, fit into the buffer. -/
def Fits (t : Target) (text : List UInt8) : Prop :=
  3 * text.length / 4 + (if LeavesBits t text then 1 else 0) ≤ bit64DecodeSizeFloat text.length

/-! ## How much is written -/

namespace Buffer

variable {s : Buffer}

theorem putBytes_length (s : Buffer) :
    8 * s.putBytes.result.length + s.putBytes.tb = 8 * s.result.length + s.tb ∧ s.putBytes.tb < 8 := by
  fun_induction Buffer.putBytes s with
  | case1 s hTb ih =>
    obtain ⟨hLength, hLt⟩ := ih
    rw [List.length_append, List.length_singleton] at hLength
    dsimp only at hLength
    exact ⟨by omega, hLt⟩
  | case2 s hTb => exact ⟨rfl, Nat.lt_of_not_le hTb⟩

/-- Every character brings six bits, whatever they are. -/
theorem foldl_length (t : Target) (chars : List UInt8) (hTb : s.tb < 8) :
    8 * (chars.foldl (decodeChar t) s).result.length + (chars.foldl (decodeChar t) s).tb =
        8 * s.result.length + s.tb + 6 * chars.length ∧
      (chars.foldl (decodeChar t) s).tb < 8 := by
  induction chars generalizing s with
  | nil => exact ⟨rfl, hTb⟩
  | cons ch chars ih =>
    obtain ⟨hHere, hLt⟩ := putBytes_length { s with tmp := s.load (hex64rev t ch), tb := s.tb + 6 }
    obtain ⟨hRest, hEnd⟩ := ih hLt
    have hStep : s.decodeChar t ch =
        putBytes { s with tmp := s.load (hex64rev t ch), tb := s.tb + 6 } := rfl
    dsimp only at hHere
    rw [List.foldl_cons, hStep, List.length_cons]
    exact ⟨by omega, hEnd⟩

theorem putLast_length (hTb : s.tb < 8) :
    s.putLast.result.length ≤ s.result.length + if 0 < s.tb then 1 else 0 := by
  by_cases hZero : 0 < s.tb
  · have hEnd : ¬ 0 < s.tb - 8 := by omega
    rw [Buffer.putLast, if_pos hZero, Buffer.putLast, if_neg hEnd, if_pos hZero]
    dsimp only
    split
    · rw [List.length_append, List.length_singleton]
    · exact Nat.le_succ _
  · rw [Buffer.putLast, if_neg hZero, if_neg hZero]
    exact Nat.le_refl _

end Buffer

theorem take_visited {buffer : List UInt8} (h : buffer.length < 2 ^ 31) :
    buffer.take (visited buffer.length) = buffer := by
  rw [visited_of_lt h, List.take_length]

/-- On any bytes, no more is written than 3/4 of the length. -/
theorem bounded {buffer : List UInt8} (t : Target) (h : buffer.length < 2 ^ 31) : Bounded t buffer := by
  have hStart : (⟨0, 0, []⟩ : Buffer).tb < 8 := by decide
  obtain ⟨hCount, hTb⟩ := Buffer.foldl_length t buffer hStart
  have hLast := Buffer.putLast_length hTb
  rw [Bounded, bit64Decode, take_visited h, bit64DecodeSize]
  generalize buffer.foldl (Buffer.decodeChar t) ⟨0, 0, []⟩ = s at *
  dsimp only at hCount
  rw [List.length_nil] at hCount
  split at hLast <;> omega

/-! ## The table -/

theorem revMap_lt (ch : UInt8) : (map.revMap ch).toNat < 64 := by
  by_cases hMem : ch ∈ map.cMap
  · obtain ⟨d, hd, rfl⟩ := List.getElem_of_mem hMem
    have hd64 : d < 64 := length_cMap ▸ hd
    rw [map_spec.2.rev d hd, UInt8.toNat_ofNat', Nat.mod_eq_of_lt (by omega)]
    exact hd64
  · rw [map_spec.2.other ch hMem]
    decide

theorem char_nonneg_iff (t : Target) (ch : UInt8) :
    (0 ≤ t.char ch ∧ t.char ch ≤ 255) ↔ (t.signedChar = true → ch.toNat < 128) := by
  have hByte := ch.toNat_lt
  rw [Target.char]
  cases t.signedChar with
  | false =>
    have hLe : (ch.toNat : Int) ≤ 255 := by omega
    simp [hLe]
  | true =>
    have hSigned : ch.toInt8.toInt =
        if 2 * ch.toNat < 256 then (ch.toNat : Int) else ch.toNat - 256 :=
      BitVec.toInt_eq_toNat_cond ch.toBitVec
    rw [if_pos rfl, hSigned]
    split
    · exact iff_of_true ⟨by omega, by omega⟩ fun _ => by omega
    · exact iff_of_false (fun h => by omega) fun h => absurd (h rfl) (by omega)

theorem inTable_iff {t : Target} {buffer : List UInt8} (h : buffer.length < 2 ^ 31) :
    InTable t buffer ↔ Plain t buffer := by
  rw [InTable, take_visited h]
  constructor
  · intro hAll hSigned ch hMem
    exact (char_nonneg_iff t ch).mp (hAll ch hMem) hSigned
  · intro hPlain ch hMem
    exact (char_nonneg_iff t ch).mpr fun hSigned => hPlain hSigned ch hMem

/-- A byte whose index is in the table stands for six bits. -/
theorem exists_reads {t : Target} {ch : UInt8} (h : 0 ≤ t.char ch) : ∃ d, Reads t ch d := by
  refine ⟨(map.revMap (UInt8.ofNat (t.char ch).toNat)).toNat, revMap_lt _, ?_⟩
  rw [hex64rev, if_pos h]
  exact t.char_of_lt (Nat.lt_of_lt_of_le (revMap_lt _) (by decide))

theorem exists_forall₂ {t : Target} {chars : List UInt8} (h : ∀ ch ∈ chars, 0 ≤ t.char ch) :
    ∃ ds : List Nat, List.Forall₂ (Reads t) chars ds := by
  induction chars with
  | nil => exact ⟨[], .nil⟩
  | cons ch chars ih =>
    obtain ⟨hHead, hTail⟩ := List.forall_mem_cons.mp h
    obtain ⟨d, hd⟩ := exists_reads hHead
    obtain ⟨ds, hds⟩ := ih hTail
    exact ⟨d :: ds, .cons hd hds⟩

/-! ## The bits that are left -/

theorem digits_lt {t : Target} {chars : List UInt8} {ds : List Nat}
    (h : List.Forall₂ (Reads t) chars ds) : ∀ d ∈ ds, d < 2 ^ 6 := by
  induction h with
  | nil => exact fun _ hd => absurd hd List.not_mem_nil
  | cons hHead _ ih => exact List.forall_mem_cons.mpr ⟨hHead.1, ih⟩

theorem exists_concat {t : Target} {front : List UInt8} {ch : UInt8} {ds : List Nat}
    (h : List.Forall₂ (Reads t) (front ++ [ch]) ds) :
    ∃ es d, List.Forall₂ (Reads t) front es ∧ Reads t ch d ∧ ds = es ++ [d] := by
  have hReverse := List.forall₂_reverse_iff.mpr h
  rw [List.reverse_append, List.reverse_singleton, List.singleton_append,
    List.forall₂_cons_left_iff] at hReverse
  obtain ⟨d, es, hReads, hFront, hEq⟩ := hReverse
  refine ⟨es.reverse, d, ?_, hReads, ?_⟩
  · rw [← List.forall₂_reverse_iff, List.reverse_reverse]
    exact hFront
  · rw [← List.reverse_reverse ds, hEq, List.reverse_cons]

/-- The digits are too many for the whole bytes exactly if bits of the last one are left. -/
theorem leavesBits_iff {t : Target} {chars : List UInt8} {ds : List Nat}
    (h : List.Forall₂ (Reads t) chars ds) :
    2 ^ (8 * (6 * ds.length / 8)) ≤ ofDigits (2 ^ 6) ds ↔ LeavesBits t chars := by
  rcases List.eq_nil_or_concat chars with rfl | ⟨front, ch, rfl⟩
  · obtain rfl := List.forall₂_nil_left_iff.mp h
    refine iff_of_false (by decide) ?_
    rintro ⟨ch, hLast, -⟩
    exact absurd hLast.symm (Option.some_ne_none ch)
  · rw [List.concat_eq_append] at h ⊢
    obtain ⟨es, d, hFront, hReads, rfl⟩ := exists_concat h
    have hLength : front.length = es.length := hFront.length_eq
    have hValue := BitBuffer.add_lt_two_pow_iff (d := d) (m := 6 - 6 * (es.length + 1) % 8)
      (BitBuffer.ofDigits_lt (digits_lt hFront))
    have hExponent : 6 * es.length + (6 - 6 * (es.length + 1) % 8) = 8 * (6 * (es.length + 1) / 8) := by
      omega
    rw [hExponent] at hValue
    rw [BitBuffer.ofDigits_concat, ← pow_mul, List.length_append, List.length_singleton,
      ← Nat.not_lt, hValue, Nat.not_lt]
    constructor
    · intro hLe
      refine ⟨ch, List.getLast?_concat, ?_⟩
      rw [hReads.2, List.length_append, List.length_singleton, hLength]
      exact_mod_cast hLe
    · rintro ⟨other, hLast, hLe⟩
      rw [List.getLast?_concat] at hLast
      obtain rfl := Option.some.inj hLast
      rw [hReads.2, List.length_append, List.length_singleton, hLength] at hLe
      exact_mod_cast hLe

open Classical in
/-- What is written where every index is in the table. -/
theorem length_bit64Decode {t : Target} {chars : List UInt8} (h : chars.length < 2 ^ 31)
    (hTable : ∀ ch ∈ chars, 0 ≤ t.char ch) :
    (bit64Decode t chars).length = 3 * chars.length / 4 + if LeavesBits t chars then 1 else 0 := by
  obtain ⟨ds, hDigits⟩ := exists_forall₂ hTable
  have hLength : chars.length = ds.length := hDigits.length_eq
  have hTaken : List.Forall₂ (Reads t) (chars.take (visited chars.length)) ds := by
    rwa [take_visited h]
  obtain ⟨hNumber, hUpper, hLower⟩ := bit64Decode_spec t hTaken
  split
  · next hLeaves =>
    have hGe := (leavesBits_iff hDigits).mpr hLeaves
    have hLt := number_lt (bit64Decode t chars)
    rw [hNumber] at hLt
    have hExponent := (Nat.pow_lt_pow_iff_right (by decide)).mp (Nat.lt_of_le_of_lt hGe hLt)
    omega
  · next hLeaves =>
    have hLt := Nat.lt_of_not_le (mt (leavesBits_iff hDigits).mp hLeaves)
    rw [hLower hLt]
    omega

/-! ## The buffers -/

/-- The size of a short buffer is not rounded. -/
theorem bit64DecodeSizeFloat_of_lt {n : Nat} (h : 3 * n < 2 ^ 24) :
    bit64DecodeSizeFloat n = bit64DecodeSize n := by
  have hInner : Rounding.nearestEven 24 n = n := Rounding.nearestEven_of_lt (by decide) (by omega)
  rw [bit64DecodeSizeFloat, hInner, Rounding.nearestEven_of_lt (by decide) h, bit64DecodeSize]

/-- A buffer for a token is short. -/
theorem lt_of_bit64DecodeSizeFloat {n : Nat} (h : bit64DecodeSizeFloat n ≤ 65) : 3 * n < 2 ^ 24 := by
  have hInner := Rounding.le_two_mul_nearestEven (p := 24) (by decide) n
  have hOuter := Rounding.le_two_mul_nearestEven (p := 24) (by decide)
    (3 * Rounding.nearestEven 24 n)
  rw [bit64DecodeSizeFloat] at h
  omega

theorem mem_decoded {token prev text : List UInt8} : text ∈ decoded token prev ↔
    text = prev ∧ prev ≠ [] ∨ text = token ∧
      (bit64DecodeSizeFloat token.length = 64 ∨ bit64DecodeSizeFloat token.length = 65) := by
  rw [decoded, List.mem_append]
  refine or_congr ?_ ?_
  · split <;> simp_all
  · split <;> simp_all

theorem fits_nil (t : Target) : Fits t [] := by
  have hNot : ¬ LeavesBits t [] := by
    rintro ⟨ch, hLast, -⟩
    exact absurd hLast.symm (Option.some_ne_none ch)
  rw [Fits, if_neg hNot]
  exact Nat.zero_le _

theorem fits_iff {t : Target} {text : List UInt8} (h : text.length < 2 ^ 31) (hPlain : Plain t text) :
    (bit64Decode t text).length ≤ bit64DecodeSizeFloat text.length ↔ Fits t text := by
  have hTable : ∀ ch ∈ text, 0 ≤ t.char ch := fun ch hMem =>
    ((char_nonneg_iff t ch).mpr fun hSigned => hPlain hSigned ch hMem).1
  rw [length_bit64Decode h hTable, Fits]

/-- The buffer of the token is never overrun, and that of the previous token if it fits. -/
theorem buffers_iff {t : Target} {token prev : List UInt8} (hToken : token.length < 2 ^ 31)
    (hPrev : prev.length < 2 ^ 31) (hPlain : ∀ text ∈ decoded token prev, Plain t text) :
    (∀ text ∈ decoded token prev,
      (bit64Decode t text).length ≤ bit64DecodeSizeFloat text.length) ↔ Fits t prev := by
  constructor
  · intro hAll
    by_cases hNil : prev = []
    · rw [hNil]
      exact fits_nil t
    · have hMem : prev ∈ decoded token prev := mem_decoded.mpr (.inl ⟨rfl, hNil⟩)
      exact (fits_iff hPrev (hPlain prev hMem)).mp (hAll prev hMem)
  · intro hFits text hMem
    rcases mem_decoded.mp hMem with ⟨rfl, -⟩ | ⟨rfl, hSize⟩
    · exact (fits_iff hPrev (hPlain text hMem)).mpr hFits
    · rw [bit64DecodeSizeFloat_of_lt (lt_of_bit64DecodeSizeFloat (by omega))]
      exact bounded t hToken

/-- For every text of less than 2^31 bytes and either signedness of `char`: no more than 3/4 of the
length is written, rounded up, and every index is one of the table exactly if `char` is unsigned or
all bytes are below 128. `isMatch` keeps to the table and to its buffers exactly if this holds of the
texts that it decodes and the whole bytes of the previous token, with one more for bits that are left,
fit into the buffer. -/
theorem isMatch_iff (t : Target) :
    (∀ buffer : List UInt8, buffer.length < 2 ^ 31 →
      Bounded t buffer ∧ (InTable t buffer ↔ Plain t buffer)) ∧
    ∀ token prev : List UInt8, token.length < 2 ^ 31 → prev.length < 2 ^ 31 →
      (KeepsBounds t token prev ↔ (∀ text ∈ decoded token prev, Plain t text) ∧ Fits t prev) := by
  refine ⟨fun buffer h => ⟨bounded t h, inTable_iff h⟩, fun token prev hToken hPrev => ?_⟩
  have hLength (text : List UInt8) (hMem : text ∈ decoded token prev) : text.length < 2 ^ 31 := by
    rcases mem_decoded.mp hMem with ⟨rfl, -⟩ | ⟨rfl, -⟩
    · exact hPrev
    · exact hToken
  constructor
  · intro hKeeps
    have hPlain : ∀ text ∈ decoded token prev, Plain t text := fun text hMem =>
      (inTable_iff (hLength text hMem)).mp (hKeeps text hMem).1
    exact ⟨hPlain, (buffers_iff hToken hPrev hPlain).mp fun text hMem => (hKeeps text hMem).2.2⟩
  · rintro ⟨hPlain, hFits⟩ text hMem
    have hSizes := (buffers_iff hToken hPrev hPlain).mpr hFits
    exact ⟨(inTable_iff (hLength text hMem)).mpr (hPlain text hMem), bounded t (hLength text hMem),
      hSizes text hMem⟩

/-- A token of 86 characters `0` after the previous token `0`. -/
theorem isMatch_plain : KeepsBounds ⟨true, fun _ => 0⟩ (List.replicate 86 48) [48] := by
  refine ((isMatch_iff ⟨true, fun _ => 0⟩).2 (List.replicate 86 48) [48] (by decide) (by decide)).mpr
    ⟨fun text hMem _ ch hCh => ?_, ?_⟩
  · have hZero : ch = 48 := by
      rcases mem_decoded.mp hMem with ⟨rfl, -⟩ | ⟨rfl, -⟩
      · exact List.mem_singleton.mp hCh
      · exact List.eq_of_mem_replicate hCh
    rw [hZero]
    decide
  · rw [Fits, bit64DecodeSizeFloat_of_lt (by decide)]
    split <;> decide

/-- A previous token `é` is the bytes 195 and 169, and the first is looked up at -61 where `char` is
signed. One of 5592407 characters gets a buffer that is a byte too short. -/
theorem isMatch_signed :
    (Target.char ⟨true, fun _ => 0⟩ 195 = -61 ∧ ¬ KeepsBounds ⟨true, fun _ => 0⟩ [] [195, 169]) ∧
      ¬ KeepsBounds ⟨false, fun _ => 0⟩ [] (List.replicate 5592407 (hex64 63)) := by
  refine ⟨⟨by decide, fun hKeeps => ?_⟩, fun hKeeps => ?_⟩
  · have hMem : [195, 169] ∈ decoded [] [195, 169] := mem_decoded.mpr (.inl ⟨rfl, List.cons_ne_nil _ _⟩)
    exact absurd ((hKeeps _ hMem).1 195 (by decide)).1 (by decide)
  · have hLeaves : LeavesBits ⟨false, fun _ => 0⟩ (List.replicate 5592407 (hex64 63)) := by
      refine ⟨hex64 63, by rw [List.getLast?_replicate, if_neg (by decide)], ?_⟩
      rw [List.length_replicate, hex64rev_hex64 _ (by decide)]
      decide
    have hFits : ¬ Fits ⟨false, fun _ => 0⟩ (List.replicate 5592407 (hex64 63)) := by
      rw [Fits, if_pos hLeaves, List.length_replicate]
      decide
    have hLength : (List.replicate 5592407 (hex64 63)).length < 2 ^ 31 := by
      rw [List.length_replicate]
      decide
    refine hFits ((buffers_iff (by decide) hLength ?_).mp fun text hMem => (hKeeps text hMem).2.2)
    exact fun _ _ hSigned => absurd hSigned (by decide)

end RetroConfig.Bit64
