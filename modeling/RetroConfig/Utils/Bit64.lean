import RetroConfig.Library.BitBuffer
import RetroConfig.Core.Data
import Mathlib.Data.List.Perm.Basic
import Mathlib.Tactic.NormNum

/-!
# `Bit64`: bytes as characters of six bits

`bit64_encode` and `bit64_decode` (`thirdparties/bit64/bit64.cpp`) move bits through a 32-bit buffer,
six bits a character, lowest bits first. The alphabet is permuted by the loop of
`bit64_makeIndex`, which runs at the first use; what it leaves in the two tables never changes, so
they are constants here.

Both loops count in an `int`, while the length they get is an `unsigned long`. `codec_iff` says when
the codec is a bijection: an encoding of 2^31 characters or more is decoded to nothing. The
wrappers of `utils/Bit64.cpp` size their buffers by a formula instead of the length that
the codec returns; `wrappers_iff` says when they give back what they were given.
-/

namespace RetroConfig.Bit64

open Nat (ofDigits)

/-! ## The alphabet -/

/-- The characters from `first` on. -/
def charsFrom (first : Char) (count : Nat) : List UInt8 :=
  (List.range count).map fun i => UInt8.ofNat (first.toNat + i)

/-- What `bit64_makeIndex` puts into `res`. -/
def alphabet : List UInt8 :=
  charsFrom '0' 10 ++ charsFrom 'a' 26 ++ charsFrom 'A' 26 ++ charsFrom '_' 1 ++ charsFrom '-' 1

/-- `bit64_KEY`. -/
def key : Nat := 32

/-- `bit64_map_t`. A byte of `rev_map` that is not written is zero. -/
structure Map where
  cMap : List UInt8
  revMap : UInt8 → UInt8

/-- The loop of `bit64_makeIndex`. -/
def takeChars (off : Nat) (res : List UInt8) (map : Map) : Map :=
  if h : off % res.length < res.length then
    takeChars (off % res.length + 1) (res.eraseIdx (off % res.length))
      { cMap := map.cMap ++ [res[off % res.length]]
        revMap := Function.update map.revMap res[off % res.length]
          (UInt8.ofNat map.cMap.length) }
  else map
termination_by res.length
decreasing_by
  rw [List.length_eraseIdx_of_lt h]
  omega

/-- `bit64_map` after `bit64_makeIndex`. -/
def map : Map := takeChars key alphabet ⟨[], fun _ => 0⟩

/-- `bit64_hex64`. -/
def hex64 (num : Nat) : UInt8 := if num < 64 then map.cMap.getD num 0 else 0

/-- What the language leaves open: whether `char` is signed, and what a read of `rev_map` outside
its 256 bytes gets. -/
structure Target where
  signedChar : Bool
  outside : Int → UInt8

/-- A byte as a `char`. -/
def Target.char (t : Target) (b : UInt8) : Int :=
  if t.signedChar then b.toInt8.toInt else b.toNat

/-- `bit64_hex64rev`. -/
def hex64rev (t : Target) (ch : UInt8) : Int :=
  t.char (if 0 ≤ t.char ch then map.revMap (UInt8.ofNat (t.char ch).toNat)
    else t.outside (t.char ch))

/-- The two tables belong together. -/
structure Map.Inverse (m : Map) : Prop where
  rev : ∀ i (h : i < m.cMap.length), m.revMap m.cMap[i] = UInt8.ofNat i
  other : ∀ ch, ch ∉ m.cMap → m.revMap ch = 0

/-- Whatever the order in which the characters are taken out, each gets one number. -/
theorem takeChars_spec (off : Nat) (res : List UInt8) (m : Map) (hNodup : (m.cMap ++ res).Nodup)
    (h : m.Inverse) :
    (takeChars off res m).cMap.Perm (m.cMap ++ res) ∧ (takeChars off res m).Inverse := by
  fun_induction takeChars off res m with
  | case1 off res m hOff ih =>
    generalize hIndex : off % res.length = k at *
    have hPerm : (m.cMap ++ [res[k]] ++ res.eraseIdx k).Perm (m.cMap ++ res) := by
      rw [List.append_assoc]
      exact (List.getElem_cons_eraseIdx_perm hOff).append_left m.cMap
    have hNew : res[k] ∉ m.cMap := fun hMem =>
      (List.nodup_append.mp hNodup).2.2 _ hMem _ (List.getElem_mem hOff) rfl
    have hStep : Map.Inverse ⟨m.cMap ++ [res[k]],
        Function.update m.revMap res[k] (UInt8.ofNat m.cMap.length)⟩ := by
      refine ⟨?_, ?_⟩
      · intro i hi
        rw [List.length_append, List.length_singleton] at hi
        by_cases hLast : i = m.cMap.length
        · simp [hLast]
        · have hOld : i < m.cMap.length := by omega
          have hNe : m.cMap[i] ≠ res[k] := fun hEq => hNew (hEq ▸ List.getElem_mem hOld)
          simp only [List.getElem_append_left hOld, Function.update_of_ne hNe]
          exact h.rev i hOld
      · intro ch hch
        rw [List.mem_append, List.mem_singleton, not_or] at hch
        exact (Function.update_of_ne hch.2 _ _).trans (h.other ch hch.1)
    obtain ⟨hSame, hInverse⟩ := ih (hPerm.nodup_iff.mpr hNodup) hStep
    exact ⟨hSame.trans hPerm, hInverse⟩
  | case2 off res m hOff =>
    have hNil : res = [] := by
      by_contra hNe
      exact hOff (Nat.mod_lt _ (List.length_pos_iff.mpr hNe))
    rw [hNil, List.append_nil]
    exact ⟨.refl _, h⟩

theorem map_spec : map.cMap.Perm alphabet ∧ map.Inverse := by
  have hEmpty : Map.Inverse ⟨[], fun _ => 0⟩ := ⟨fun i hi => (by cases hi), fun _ _ => rfl⟩
  exact takeChars_spec key alphabet _ (by decide) hEmpty

theorem length_cMap : map.cMap.length = 64 := map_spec.1.length_eq

theorem hex64_eq {d : Nat} (hd : d < 64) (hLength : d < map.cMap.length) :
    hex64 d = map.cMap[d] := by
  rw [hex64, if_pos hd, List.getD_eq_getElem?_getD, List.getElem?_eq_getElem (length_cMap ▸ hd),
    Option.getD_some]

theorem hex64_mem {d : Nat} (hd : d < 64) : hex64 d ∈ alphabet := by
  rw [hex64_eq hd (length_cMap ▸ hd)]
  exact map_spec.1.subset (List.getElem_mem _)

theorem exists_hex64 {ch : UInt8} (hch : ch ∈ alphabet) : ∃ d < 64, hex64 d = ch := by
  obtain ⟨d, hd, rfl⟩ := List.getElem_of_mem (map_spec.1.mem_iff.mpr hch)
  rw [length_cMap] at hd
  exact ⟨d, hd, hex64_eq hd (length_cMap ▸ hd)⟩

/-- A byte below 128 is the same number whether `char` is signed or not. -/
theorem Target.char_of_lt (t : Target) {b : UInt8} (hb : b.toNat < 128) : t.char b = b.toNat := by
  rw [Target.char]
  split
  · exact BitVec.toInt_eq_toNat_of_lt (by change 2 * b.toNat < 2 ^ 8; omega)
  · rfl

theorem alphabet_lt {ch : UInt8} (hch : ch ∈ alphabet) : ch.toNat < 128 := by
  have hAll : alphabet.all (fun ch => ch.toNat < 128) = true := by decide
  exact of_decide_eq_true (List.all_eq_true.mp hAll ch hch)

theorem hex64rev_of_lt (t : Target) {ch : UInt8} (hch : ch.toNat < 128) :
    hex64rev t ch = t.char (map.revMap ch) := by
  rw [hex64rev, t.char_of_lt hch, if_pos (Int.natCast_nonneg _), Int.toNat_natCast,
    UInt8.ofNat_toNat]

theorem hex64rev_hex64 (t : Target) {d : Nat} (hd : d < 64) : hex64rev t (hex64 d) = d := by
  have hNat : (UInt8.ofNat d).toNat = d := by
    rw [UInt8.toNat_ofNat', Nat.mod_eq_of_lt (by omega)]
  rw [hex64rev_of_lt t (alphabet_lt (hex64_mem hd)), hex64_eq hd (length_cMap ▸ hd), map_spec.2.rev,
    t.char_of_lt (by omega), hNat]

/-- A NUL, which is not in the alphabet, reads as zero bits. -/
theorem hex64rev_zero (t : Target) : hex64rev t 0 = 0 := by
  have hOther : map.revMap 0 = 0 :=
    map_spec.2.other 0 fun hMem => absurd (map_spec.1.mem_iff.mp hMem) (by decide)
  rw [hex64rev_of_lt t (by decide), hOther]
  exact t.char_of_lt (by decide)

/-- The character stands for the six bits `d`. -/
def Reads (t : Target) (ch : UInt8) (d : Nat) : Prop := d < 64 ∧ hex64rev t ch = d

/-! ## The codec -/

/-- `(int) n`. -/
def toInt (n : Nat) : Int := (Int32.ofNat n).toInt

/-- How many of `n` elements a loop `for (int i = 0, t = (int) n; i < t; ++i)` visits. -/
def visited (n : Nat) : Nat := (toInt n).toNat

/-- `tmp`, `tb` and what has been written. `tb` falls below zero only at the end of a loop that runs
while it is positive. -/
structure Buffer where
  tmp : UInt32
  tb : Nat
  result : List UInt8

namespace Buffer

/-- `tmp = tmp | (v << tb)`. -/
def load (s : Buffer) (v : Int) : UInt32 := s.tmp ||| UInt32.ofInt (v * 2 ^ s.tb)

/-- The body of the loops of `bit64_encode` over the bits. -/
def putChar (s : Buffer) : Buffer where
  tmp := s.tmp >>> 6
  tb := s.tb - 6
  result := s.result ++ [hex64 (s.tmp &&& 63).toUInt8.toNat]

/-- `while (tb >= 6)`. -/
def putChars (s : Buffer) : Buffer :=
  if 6 ≤ s.tb then s.putChar.putChars else s
termination_by s.tb
decreasing_by
  change s.tb - 6 < s.tb
  omega

/-- `while (tb > 0)` of `bit64_encode`. -/
def putRest (s : Buffer) : Buffer :=
  if 0 < s.tb then s.putChar.putRest else s
termination_by s.tb
decreasing_by
  change s.tb - 6 < s.tb
  omega

/-- One byte in `bit64_encode`. -/
def encodeByte (s : Buffer) (b : UInt8) : Buffer :=
  putChars { s with tmp := s.load b.toNat, tb := s.tb + 8 }

/-- `while (tb >= 8)`. -/
def putBytes (s : Buffer) : Buffer :=
  if 8 ≤ s.tb then
    putBytes
      { tmp := s.tmp >>> 8, tb := s.tb - 8, result := s.result ++ [(s.tmp &&& 0xff).toUInt8] }
  else s
termination_by s.tb

/-- `while (tb > 0)` of `bit64_decode`, which drops a byte that is zero. -/
def putLast (s : Buffer) : Buffer :=
  if 0 < s.tb then
    let l := (s.tmp &&& 0xff).toUInt8
    putLast
      { tmp := s.tmp >>> 8, tb := s.tb - 8, result := if 0 < l then s.result ++ [l] else s.result }
  else s
termination_by s.tb

/-- One character in `bit64_decode`. -/
def decodeChar (t : Target) (s : Buffer) (ch : UInt8) : Buffer :=
  putBytes { s with tmp := s.load (hex64rev t ch), tb := s.tb + 6 }

end Buffer

/-- `bit64_encode`: what it writes. It returns the length of this. -/
def bit64Encode (buffer : List UInt8) : List UInt8 :=
  ((buffer.take (visited buffer.length)).foldl Buffer.encodeByte ⟨0, 0, []⟩).putRest.result

/-- `bit64_decode`: what it writes. It returns the length of this. -/
def bit64Decode (t : Target) (buffer : List UInt8) : List UInt8 :=
  ((buffer.take (visited buffer.length)).foldl (Buffer.decodeChar t) ⟨0, 0, []⟩).putLast.result

/-- `bit64_encode_size`, without the rounding of `float`. -/
def bit64EncodeSize (n : Nat) : Nat := (4 * n + 2) / 3

/-- `bit64_decode_size`, without the rounding of `float`. -/
def bit64DecodeSize (n : Nat) : Nat := (3 * n + 3) / 4

/-! ## The wrappers -/

/-- A buffer of zeros after `written` was written to its beginning. -/
def filled (size : Nat) (written : List UInt8) : List UInt8 :=
  written ++ List.replicate (size - written.length) 0

/-- `Bit64::encodeString`. -/
def encodeString (str : List UInt8) : List UInt8 :=
  filled (bit64EncodeSize str.length) (bit64Encode str)

/-- `Bit64::decodeString`. -/
def decodeString (t : Target) (str : List UInt8) : List UInt8 :=
  filled (bit64DecodeSize str.length) (bit64Decode t str)

/-- `Bit64::decode`. -/
def decode (t : Target) (str : List UInt8) : BufferData :=
  let ret := filled (bit64DecodeSize str.length) (bit64Decode t str)
  .ofBuffer ret ret.length

/-! ## The lengths as an `int` -/

theorem visited_eq (n : Nat) : (visited n : Int) = max 0 ((n : Int).bmod (2 ^ 32)) := by
  rw [visited, toInt, Int32.toInt_ofNat']
  exact Int.ofNat_toNat _ |>.trans (max_comm _ _)

theorem visited_of_lt {n : Nat} (h : n < 2 ^ 31) : visited n = n := by
  have hEq := visited_eq n
  rw [Int.bmod_def] at hEq
  omega

theorem visited_le (n : Nat) : visited n ≤ n := by
  have hEq := visited_eq n
  rw [Int.bmod_def] at hEq
  omega

/-- A loop over 2^31 elements or more visits none, or leaves out at least 2^32. -/
theorem visited_of_ge {n : Nat} (h : 2 ^ 31 ≤ n) :
    visited n < 2 ^ 31 ∧ (visited n = 0 ∨ visited n + 2 ^ 32 ≤ n) := by
  have hEq := visited_eq n
  rw [Int.bmod_def] at hEq
  omega

/-! ## What the loops keep -/

namespace Buffer

variable {s : Buffer}

theorem toNat_load {v w : Nat} (hTmp : s.tmp.toNat < 2 ^ s.tb) (hv : v < 2 ^ w)
    (hw : s.tb + w ≤ 32) : (s.load v).toNat = s.tmp.toNat + 2 ^ s.tb * v := by
  have hShift : (UInt32.ofInt ((v : Int) * 2 ^ s.tb)).toNat = 2 ^ s.tb * v := by
    have hLt : 2 ^ s.tb * v < 2 ^ 32 := by
      calc 2 ^ s.tb * v < 2 ^ s.tb * 2 ^ w := Nat.mul_lt_mul_of_pos_left hv (Nat.two_pow_pos _)
        _ = 2 ^ (s.tb + w) := (pow_add 2 s.tb w).symm
        _ ≤ 2 ^ 32 := Nat.pow_le_pow_right (by decide) hw
    have hCast : (v : Int) * 2 ^ s.tb = ((2 ^ s.tb * v : Nat) : Int) := by
      push_cast
      ring
    rw [hCast, UInt32.ofInt, UInt32.toNat_ofNat', Int.emod_eq_of_lt (by omega) (by omega),
      Int.toNat_natCast, Nat.mod_eq_of_lt hLt]
  rw [load, UInt32.toNat_or, hShift, Nat.or_comm, ← Nat.two_pow_add_eq_or_of_lt hTmp, Nat.add_comm]

theorem toNat_low (tmp : UInt32) {k : Nat} (hk : k ≤ 8) (mask : UInt32)
    (hMask : mask.toNat = 2 ^ k - 1) : (tmp &&& mask).toUInt8.toNat = tmp.toNat % 2 ^ k := by
  have hLe : 2 ^ k ≤ 2 ^ 8 := Nat.pow_le_pow_right (by decide) hk
  have hLt : tmp.toNat % 2 ^ k < 2 ^ k := Nat.mod_lt _ (Nat.two_pow_pos k)
  rw [UInt32.toNat_toUInt8, UInt32.toNat_and, hMask, Nat.and_two_pow_sub_one_eq_mod,
    Nat.mod_eq_of_lt (hLt.trans_le hLe)]

theorem toNat_shiftRight (tmp : UInt32) {k : Nat} (shift : UInt32) (hShift : shift.toNat = k)
    (hk : k < 32) : (tmp >>> shift).toNat = tmp.toNat / 2 ^ k := by
  rw [UInt32.toNat_shiftRight, hShift, Nat.mod_eq_of_lt hk, Nat.shiftRight_eq_div_pow]

/-- `bit64_encode` has taken these bytes. -/
def Encoding (bs : List UInt8) (s : Buffer) : Prop :=
  ∃ ds : List Nat, s.result = ds.map hex64 ∧ BitBuffer.Holds 8 6 (bs.map UInt8.toNat) ds s.tmp.toNat s.tb

variable {bs : List UInt8}

theorem Encoding.putChar (h : Encoding bs s) (hTb : 6 ≤ s.tb) : Encoding bs s.putChar := by
  obtain ⟨ds, hResult, hHolds⟩ := h
  refine ⟨ds ++ [s.tmp.toNat % 2 ^ 6], ?_, ?_⟩
  · rw [Buffer.putChar, hResult, toNat_low (k := 6) s.tmp (by decide) 63 rfl, List.map_append]
    rfl
  · have hEmit := hHolds.emit hTb
    rw [← toNat_shiftRight (k := 6) s.tmp 6 rfl (by decide)] at hEmit
    exact hEmit

theorem Encoding.putChars (h : Encoding bs s) : Encoding bs s.putChars ∧ s.putChars.tb < 6 := by
  fun_induction Buffer.putChars s with
  | case1 s hTb ih => exact ih (h.putChar hTb)
  | case2 s hTb => exact ⟨h, Nat.lt_of_not_le hTb⟩

theorem Encoding.encodeByte (h : Encoding bs s) (hTb : s.tb < 6) (b : UInt8) :
    Encoding (bs ++ [b]) (s.encodeByte b) ∧ (s.encodeByte b).tb < 6 := by
  obtain ⟨ds, hResult, hHolds⟩ := h
  refine Encoding.putChars ⟨ds, hResult, ?_⟩
  have hPush := hHolds.push b.toNat_lt
  rw [List.map_append, List.map_singleton]
  dsimp only
  rw [toNat_load hHolds.acc_lt b.toNat_lt (by omega)]
  exact hPush

theorem Encoding.foldl (h : Encoding bs s) (hTb : s.tb < 6) (rest : List UInt8) :
    Encoding (bs ++ rest) (rest.foldl Buffer.encodeByte s) ∧
      (rest.foldl Buffer.encodeByte s).tb < 6 := by
  induction rest generalizing bs s with
  | nil =>
    rw [List.append_nil]
    exact ⟨h, hTb⟩
  | cons b rest ih =>
    obtain ⟨hNext, hNextTb⟩ := h.encodeByte hTb b
    have hRest := ih hNext hNextTb
    rw [List.append_assoc] at hRest
    exact hRest

/-- The last character takes the bits that wait, none if there are none. -/
theorem Encoding.putRest (h : Encoding bs s) (hTb : s.tb < 6) : ∃ ds : List Nat,
    s.putRest.result = ds.map hex64 ∧ ds.length = (8 * bs.length + 5) / 6 ∧
      (∀ d ∈ ds, d < 2 ^ 6) ∧ ofDigits (2 ^ 6) ds = ofDigits (2 ^ 8) (bs.map UInt8.toNat) := by
  obtain ⟨ds, hResult, hHolds⟩ := h
  have hCount := hHolds.count
  rw [List.length_map] at hCount
  by_cases hZero : 0 < s.tb
  · have hAcc : s.tmp.toNat < 2 ^ 6 :=
      hHolds.acc_lt.trans_le (Nat.pow_le_pow_right (by decide) hTb.le)
    have hStop : s.putRest = s.putChar := by
      have hEnd : ¬ 0 < s.putChar.tb := by
        change ¬ 0 < s.tb - 6
        omega
      rw [Buffer.putRest, if_pos hZero, Buffer.putRest, if_neg hEnd]
    refine ⟨ds ++ [s.tmp.toNat], ?_, ?_, ?_, hHolds.finish⟩
    · rw [hStop, Buffer.putChar, hResult, toNat_low (k := 6) s.tmp (by decide) 63 rfl,
        Nat.mod_eq_of_lt hAcc, List.map_append]
      rfl
    · rw [List.length_append, List.length_singleton]
      omega
    · intro d hd
      rcases List.mem_append.mp hd with hOld | hNew
      · exact hHolds.out_lt d hOld
      · rw [List.mem_singleton.mp hNew]
        exact hAcc
  · have hTb0 : s.tb = 0 := by omega
    have hAcc : s.tmp.toNat = 0 := by
      have hLt := hHolds.acc_lt
      rw [hTb0] at hLt
      exact Nat.lt_one_iff.mp hLt
    have hValue := hHolds.value
    rw [hAcc, Nat.mul_zero, Nat.add_zero] at hValue
    refine ⟨ds, ?_, ?_, hHolds.out_lt, hValue⟩
    · rw [Buffer.putRest, if_neg hZero, hResult]
    · omega

/-- `bit64_decode` has taken characters with these numbers. -/
def Decoding (ds : List Nat) (s : Buffer) : Prop :=
  BitBuffer.Holds 6 8 ds (s.result.map UInt8.toNat) s.tmp.toNat s.tb

variable {ds : List Nat}

theorem Decoding.putBytes (h : Decoding ds s) : Decoding ds s.putBytes ∧ s.putBytes.tb < 8 := by
  fun_induction Buffer.putBytes s with
  | case1 s hTb ih =>
    apply ih
    have hEmit := h.emit hTb
    rw [← toNat_shiftRight (k := 8) s.tmp 8 rfl (by decide),
      ← toNat_low (k := 8) s.tmp (by decide) 0xff rfl] at hEmit
    rw [Decoding, List.map_append]
    exact hEmit
  | case2 s hTb => exact ⟨h, Nat.lt_of_not_le hTb⟩

theorem Decoding.decodeChar (t : Target) (h : Decoding ds s) (hTb : s.tb < 8) {ch : UInt8} {d : Nat}
    (hch : Reads t ch d) :
    Decoding (ds ++ [d]) (s.decodeChar t ch) ∧ (s.decodeChar t ch).tb < 8 := by
  refine Decoding.putBytes ?_
  rw [Decoding, hch.2]
  dsimp only
  rw [toNat_load h.acc_lt (w := 6) hch.1 (by omega)]
  exact h.push (w := 6) hch.1

theorem Decoding.foldl (t : Target) (h : Decoding ds s) (hTb : s.tb < 8) {chars : List UInt8}
    {es : List Nat} (hChars : List.Forall₂ (Reads t) chars es) :
    Decoding (ds ++ es) (chars.foldl (Buffer.decodeChar t) s) ∧
      (chars.foldl (Buffer.decodeChar t) s).tb < 8 := by
  induction hChars generalizing ds s with
  | nil =>
    rw [List.append_nil]
    exact ⟨h, hTb⟩
  | @cons ch d chars es hHead _ ih =>
    obtain ⟨hNext, hNextTb⟩ := h.decodeChar t hTb hHead
    have hRest := ih hNext hNextTb
    rw [List.append_assoc] at hRest
    exact hRest

/-- The last byte takes the bits that wait, unless they are zero. -/
theorem Decoding.putLast (h : Decoding ds s) (hTb : s.tb < 8) :
    s.putLast.result =
      if s.tmp.toNat = 0 then s.result else s.result ++ [UInt8.ofNat s.tmp.toNat] := by
  have hAcc : s.tmp.toNat < 2 ^ s.tb := h.acc_lt
  have hLow : (s.tmp &&& 0xff).toUInt8 = UInt8.ofNat s.tmp.toNat := by
    rw [← UInt8.toNat_inj, toNat_low (k := 8) s.tmp (by decide) 0xff rfl, UInt8.toNat_ofNat']
  by_cases hZero : 0 < s.tb
  · have hSmall : s.tmp.toNat < 2 ^ 8 :=
      hAcc.trans_le (Nat.pow_le_pow_right (by decide) hTb.le)
    have hEnd : ¬ 0 < s.tb - 8 := by omega
    rw [Buffer.putLast, if_pos hZero, Buffer.putLast, if_neg hEnd, hLow]
    by_cases hTmp : s.tmp.toNat = 0
    · rw [if_pos hTmp, hTmp]
      rfl
    · have hPos : (0 : UInt8) < UInt8.ofNat s.tmp.toNat := by
        rw [UInt8.lt_iff_toNat_lt, UInt8.toNat_ofNat', Nat.mod_eq_of_lt hSmall]
        exact Nat.pos_of_ne_zero hTmp
      rw [if_neg hTmp, if_pos hPos]
  · have hTmp : s.tmp.toNat = 0 := by
      rw [Nat.eq_zero_of_not_pos hZero] at hAcc
      exact Nat.lt_one_iff.mp hAcc
    rw [Buffer.putLast, if_neg hZero, if_pos hTmp]

end Buffer

/-! ## What is written -/

/-- The bytes as one number, lowest byte first. -/
def number (bs : List UInt8) : Nat := ofDigits (2 ^ 8) (bs.map UInt8.toNat)

theorem number_lt (bs : List UInt8) : number bs < 2 ^ (8 * bs.length) := by
  have hLt : ∀ d ∈ bs.map UInt8.toNat, d < 2 ^ 8 := by
    intro d hd
    obtain ⟨b, -, rfl⟩ := List.mem_map.mp hd
    exact b.toNat_lt
  have h := BitBuffer.ofDigits_lt hLt
  rwa [List.length_map] at h

theorem number_inj {bs cs : List UInt8} (hLength : bs.length = cs.length)
    (hNumber : number bs = number cs) : bs = cs := by
  have hLt : ∀ xs : List UInt8, ∀ d ∈ xs.map UInt8.toNat, d < 2 ^ 8 := by
    intro xs d hd
    obtain ⟨b, -, rfl⟩ := List.mem_map.mp hd
    exact b.toNat_lt
  have hMap := BitBuffer.ofDigits_inj (w := 8) (by decide)
    (by rw [List.length_map, List.length_map, hLength]) (hLt bs) (hLt cs) hNumber
  exact List.map_injective_iff.mpr (fun _ _ => UInt8.toNat_inj.mp) hMap

theorem number_take (bs : List UInt8) (k : Nat) :
    number (bs.take k) = number bs % 2 ^ (8 * k) := by
  have hLt : ∀ d ∈ bs.map UInt8.toNat, d < 2 ^ 8 := by
    intro d hd
    obtain ⟨b, -, rfl⟩ := List.mem_map.mp hd
    exact b.toNat_lt
  rw [number, number, pow_mul, List.map_take,
    Nat.ofDigits_mod_pow_eq_ofDigits_take k (by decide) _ hLt]

/-- `bit64_encode` writes the number of the bytes it visits. -/
theorem bit64Encode_spec (bs : List UInt8) : ∃ ds : List Nat, bit64Encode bs = ds.map hex64 ∧
    ds.length = bit64EncodeSize (visited bs.length) ∧ (∀ d ∈ ds, d < 2 ^ 6) ∧
      ofDigits (2 ^ 6) ds = number (bs.take (visited bs.length)) := by
  have hStart : Buffer.Encoding [] ⟨0, 0, []⟩ := ⟨[], rfl, BitBuffer.holds_empty 8 6⟩
  obtain ⟨hAll, hTb⟩ := hStart.foldl (by decide) (bs.take (visited bs.length))
  obtain ⟨ds, hResult, hLength, hLt, hValue⟩ := hAll.putRest hTb
  refine ⟨ds, hResult, ?_, hLt, hValue⟩
  rw [hLength, List.nil_append, List.length_take, Nat.min_eq_left (visited_le _), bit64EncodeSize]
  omega

/-- `bit64_decode` writes the number of the characters it visits. -/
theorem bit64Decode_spec (t : Target) {chars : List UInt8} {ds : List Nat}
    (hChars : List.Forall₂ (Reads t) (chars.take (visited chars.length)) ds) :
    number (bit64Decode t chars) = ofDigits (2 ^ 6) ds ∧
      (bit64Decode t chars).length ≤ (6 * ds.length + 7) / 8 ∧
      (ofDigits (2 ^ 6) ds < 2 ^ (8 * (6 * ds.length / 8)) →
        (bit64Decode t chars).length = 6 * ds.length / 8) := by
  have hStart : Buffer.Decoding [] ⟨0, 0, []⟩ := BitBuffer.holds_empty 6 8
  obtain ⟨hAll, hTb⟩ := hStart.foldl t (by decide) hChars
  rw [List.nil_append] at hAll
  have hLast := hAll.putLast hTb
  rw [bit64Decode]
  generalize (chars.take (visited chars.length)).foldl (Buffer.decodeChar t) ⟨0, 0, []⟩ = s at *
  have hCount := hAll.count
  rw [List.length_map] at hCount
  have hOut : s.result.length = 6 * ds.length / 8 := by omega
  by_cases hTmp : s.tmp.toNat = 0
  · rw [hLast, if_pos hTmp, number, ← hAll.value, hTmp, Nat.mul_zero, Nat.add_zero]
    exact ⟨rfl, by omega, fun _ => hOut⟩
  · have hByte : (UInt8.ofNat s.tmp.toNat).toNat = s.tmp.toNat := by
      have hLt : s.tmp.toNat < 2 ^ 8 :=
        hAll.acc_lt.trans_le (Nat.pow_le_pow_right (by decide) hTb.le)
      rw [UInt8.toNat_ofNat', Nat.mod_eq_of_lt hLt]
    have hBits : 0 < s.tb := by
      by_contra hZero
      have hLt := hAll.acc_lt
      rw [Nat.eq_zero_of_not_pos hZero] at hLt
      exact hTmp (Nat.lt_one_iff.mp hLt)
    rw [hLast, if_neg hTmp, number, List.map_append, List.map_singleton, hByte, hAll.finish,
      List.length_append, List.length_singleton]
    refine ⟨rfl, by omega, fun hLt => ?_⟩
    have hSize : (s.result.map UInt8.toNat).length = s.result.length := List.length_map _
    rw [← hOut, ← hSize] at hLt
    exact absurd (hAll.acc_eq_zero_iff.mpr hLt) hTmp

theorem forall₂_hex64 (t : Target) {ds : List Nat} (h : ∀ d ∈ ds, d < 64) :
    List.Forall₂ (Reads t) (ds.map hex64) ds := by
  induction ds with
  | nil => exact .nil
  | cons d ds ih =>
    obtain ⟨hHead, hTail⟩ := List.forall_mem_cons.mp h
    exact .cons ⟨hHead, hex64rev_hex64 t hHead⟩ (ih hTail)

theorem exists_digits {chars : List UInt8} (h : ∀ ch ∈ chars, ch ∈ alphabet) :
    ∃ ds : List Nat, chars = ds.map hex64 ∧ ∀ d ∈ ds, d < 64 := by
  induction chars with
  | nil => exact ⟨[], rfl, fun _ hd => by cases hd⟩
  | cons ch chars ih =>
    obtain ⟨hHead, hTail⟩ := List.forall_mem_cons.mp h
    obtain ⟨d, hd, rfl⟩ := exists_hex64 hHead
    obtain ⟨ds, rfl, hds⟩ := ih hTail
    exact ⟨d :: ds, rfl, List.forall_mem_cons.mpr ⟨hd, hds⟩⟩

theorem length_bit64Encode (bs : List UInt8) :
    (bit64Encode bs).length = bit64EncodeSize (visited bs.length) := by
  obtain ⟨ds, hEncode, hLength, -⟩ := bit64Encode_spec bs
  rw [hEncode, List.length_map, hLength]

theorem bit64Encode_subset (bs : List UInt8) : ∀ ch ∈ bit64Encode bs, ch ∈ alphabet := by
  obtain ⟨ds, hEncode, -, hLt, -⟩ := bit64Encode_spec bs
  intro ch hch
  rw [hEncode] at hch
  obtain ⟨d, hd, rfl⟩ := List.mem_map.mp hch
  exact hex64_mem (hLt d hd)

theorem toNat_revMap_hex64 {d : Nat} (hd : d < 64) : (map.revMap (hex64 d)).toNat = d := by
  rw [hex64_eq hd (length_cMap ▸ hd), map_spec.2.rev, UInt8.toNat_ofNat', Nat.mod_eq_of_lt (by omega)]

theorem hex64_injOn {ds es : List Nat} (hds : ∀ d ∈ ds, d < 64) (hes : ∀ d ∈ es, d < 64)
    (h : ds.map hex64 = es.map hex64) : ds = es := by
  have hBack : ∀ ns : List Nat, (∀ d ∈ ns, d < 64) →
      (ns.map hex64).map (fun ch => (map.revMap ch).toNat) = ns := by
    intro ns hns
    rw [List.map_map]
    exact (List.map_congr_left fun d hd => toNat_revMap_hex64 (hns d hd)).trans (List.map_id _)
  rw [← hBack ds hds, ← hBack es hes, h]

/-! ## Decoding what was encoded -/

/-- An encoding that the loop of `bit64_decode` visits whole is decoded to its bytes. -/
theorem bit64Decode_bit64Encode (t : Target) {bs : List UInt8} (h : bs.length < 3 * 2 ^ 29) :
    bit64Decode t (bit64Encode bs) = bs := by
  obtain ⟨ds, hEncode, hLength, hLt, hValue⟩ := bit64Encode_spec bs
  rw [visited_of_lt (by omega)] at hLength hValue
  rw [List.take_length] at hValue
  rw [bit64EncodeSize] at hLength
  have hAll : (bit64Encode bs).take (visited (bit64Encode bs).length) = ds.map hex64 := by
    have hSize : (ds.map hex64).length = ds.length := List.length_map _
    rw [hEncode, hSize, visited_of_lt (by omega), ← hSize, List.take_length]
  have hChars := forall₂_hex64 t hLt
  rw [← hAll] at hChars
  obtain ⟨hNumber, -, hExact⟩ := bit64Decode_spec t hChars
  have hBytes : 6 * ds.length / 8 = bs.length := by omega
  rw [hBytes, hValue] at hExact
  exact number_inj (hExact (number_lt bs)) (hNumber.trans hValue)

/-- An encoding of 2^31 characters or more is decoded to nothing. -/
theorem bit64Decode_bit64Encode_long (t : Target) {bs : List UInt8} (hLong : 3 * 2 ^ 29 ≤ bs.length)
    (h : bs.length < 2 ^ 31) : bit64Decode t (bit64Encode bs) = [] := by
  have hLength := length_bit64Encode bs
  rw [visited_of_lt h, bit64EncodeSize] at hLength
  have hNone : visited (bit64Encode bs).length = 0 := by
    have hGe := visited_of_ge (n := (bit64Encode bs).length) (by omega)
    omega
  rw [bit64Decode, hNone, List.take_zero, List.foldl_nil, Buffer.putLast, if_neg (by decide)]

theorem bit64Encode_inj {bs cs : List UInt8} (hbs : bs.length < 2 ^ 31) (hcs : cs.length < 2 ^ 31)
    (h : bit64Encode bs = bit64Encode cs) : bs = cs := by
  obtain ⟨ds, hEncode, hLength, hLt, hValue⟩ := bit64Encode_spec bs
  obtain ⟨es, hEncode', hLength', hLt', hValue'⟩ := bit64Encode_spec cs
  rw [visited_of_lt hbs] at hLength hValue
  rw [visited_of_lt hcs] at hLength' hValue'
  rw [List.take_length] at hValue hValue'
  rw [hEncode, hEncode'] at h
  obtain rfl := hex64_injOn hLt hLt' h
  rw [bit64EncodeSize] at hLength hLength'
  exact number_inj (by omega) (hValue.symm.trans hValue')

/-! ## Encoding what was decoded -/

/-- The bits of the last character that belong to no byte are zero. -/
def TrailingZero (chars : List UInt8) : Prop :=
  ∀ ch ∈ chars.getLast?, (map.revMap ch).toNat < 2 ^ (6 - 6 * chars.length % 8)

theorem TrailingZero.number_lt {ds : List Nat} (hLt : ∀ d ∈ ds, d < 64)
    (h : TrailingZero (ds.map hex64)) :
    ofDigits (2 ^ 6) ds < 2 ^ (8 * (6 * ds.length / 8)) := by
  rcases List.eq_nil_or_concat ds with rfl | ⟨init, d, rfl⟩
  · decide
  · rw [List.concat_eq_append] at hLt h ⊢
    have hd : d < 64 := hLt d (List.mem_append_right _ (List.mem_singleton_self d))
    have hInit : ofDigits (2 ^ 6) init < 2 ^ (6 * init.length) :=
      BitBuffer.ofDigits_lt fun e he => hLt e (List.mem_append_left _ he)
    have hLast := h (hex64 d) (by simp)
    rw [toNat_revMap_hex64 hd, List.length_map, List.length_append, List.length_singleton] at hLast
    have hSplit : 8 * (6 * (init ++ [d]).length / 8) =
        6 * init.length + (6 - 6 * (init.length + 1) % 8) := by
      rw [List.length_append, List.length_singleton]
      omega
    rw [hSplit, BitBuffer.ofDigits_concat, ← pow_mul]
    exact BitBuffer.add_lt_two_pow hInit hLast

theorem bit64Encode_bit64Decode (t : Target) {chars : List UInt8}
    (hChars : ∀ ch ∈ chars, ch ∈ alphabet) (hFour : chars.length % 4 ≠ 1)
    (hZero : TrailingZero chars) (h : chars.length < 2 ^ 31) :
    bit64Encode (bit64Decode t chars) = chars := by
  obtain ⟨ds, rfl, hLt⟩ := exists_digits hChars
  have hRead := forall₂_hex64 t hLt
  rw [← List.take_length (l := ds.map hex64), ← visited_of_lt h] at hRead
  obtain ⟨hNumber, -, hExact⟩ := bit64Decode_spec t hRead
  have hBytes := hExact (hZero.number_lt hLt)
  rw [List.length_map] at h hFour
  obtain ⟨es, hEncode, hLength, hLt', hValue⟩ := bit64Encode_spec (bit64Decode t (ds.map hex64))
  rw [visited_of_lt (by omega)] at hLength hValue
  rw [List.take_length, hNumber] at hValue
  rw [bit64EncodeSize, hBytes] at hLength
  have hCount : es.length = ds.length := by
    have hCases : ds.length % 4 = 0 ∨ ds.length % 4 = 2 ∨ ds.length % 4 = 3 := by omega
    rcases hCases with hMod | hMod | hMod <;> omega
  have hSame : es = ds := BitBuffer.ofDigits_inj (w := 6) (by decide) hCount hLt' hLt hValue
  rw [hEncode, hSame]

/-- From 2^31 characters on, too few of them are visited. -/
theorem bit64Encode_bit64Decode_long (t : Target) {chars : List UInt8}
    (hChars : ∀ ch ∈ chars, ch ∈ alphabet) (h : 2 ^ 31 ≤ chars.length) :
    bit64Encode (bit64Decode t chars) ≠ chars := by
  obtain ⟨ds, rfl, hLt⟩ := exists_digits hChars
  have hRead := List.forall₂_take (visited (ds.map hex64).length) (forall₂_hex64 t hLt)
  obtain ⟨-, hLe, -⟩ := bit64Decode_spec t hRead
  have hGe := visited_of_ge h
  rw [List.length_map] at h hGe
  rw [List.length_map, List.length_take] at hLe
  intro hSame
  have hLength := length_bit64Encode (bit64Decode t (ds.map hex64))
  have hVisited := visited_le (bit64Decode t (ds.map hex64)).length
  rw [hSame, List.length_map, bit64EncodeSize] at hLength
  omega

/-- The buffer of `encodeString` has the length of the encoding. -/
theorem encodeString_eq {bs : List UInt8} (h : bs.length < 2 ^ 31) :
    encodeString bs = bit64Encode bs := by
  have hLength := length_bit64Encode bs
  rw [visited_of_lt h] at hLength
  rw [encodeString, filled, hLength, Nat.sub_self, List.replicate_zero, List.append_nil]

theorem length_filled {size : Nat} {written : List UInt8} (h : written.length ≤ size) :
    (filled size written).length = size := by
  rw [filled, List.length_append, List.length_replicate]
  omega

theorem number_filled (size : Nat) (written : List UInt8) :
    number (filled size written) = number written := by
  have hZero : (0 : UInt8).toNat = 0 := rfl
  rw [filled, number, List.map_append, List.map_replicate, hZero, Nat.ofDigits_append_replicate_zero,
    number]

/-- `bit64_encode` stays inside the buffer. -/
theorem length_bit64Encode_le (bs : List UInt8) :
    (bit64Encode bs).length ≤ bit64EncodeSize bs.length := by
  have hLe := visited_le bs.length
  rw [length_bit64Encode, bit64EncodeSize, bit64EncodeSize]
  omega

theorem length_encodeString (str : List UInt8) :
    (encodeString str).length = bit64EncodeSize str.length :=
  length_filled (length_bit64Encode_le str)

/-- What `bit64_decode` reads of an encoded string: its characters, and NULs that nothing was
written to. -/
theorem reads_encodeString (t : Target) (str : List UInt8) : ∃ ds : List Nat,
    List.Forall₂ (Reads t) (encodeString str) ds ∧ (∀ d ∈ ds, d < 64) ∧
      ofDigits (2 ^ 6) ds = number str % 2 ^ (8 * visited str.length) := by
  obtain ⟨ds, hEncode, -, hLt, hValue⟩ := bit64Encode_spec str
  have hRest : ∀ k, List.Forall₂ (Reads t) (List.replicate k 0) (List.replicate k 0) := by
    intro k
    induction k with
    | zero => exact .nil
    | succ k ih => exact .cons ⟨by decide, hex64rev_zero t⟩ ih
  refine ⟨ds ++ List.replicate (bit64EncodeSize str.length - (bit64Encode str).length) 0, ?_, ?_, ?_⟩
  · rw [encodeString, filled, hEncode]
    exact List.rel_append (forall₂_hex64 t hLt) (hRest _)
  · intro d hd
    rcases List.mem_append.mp hd with hOld | hNew
    · exact hLt d hOld
    · rw [List.eq_of_mem_replicate hNew]
      decide
  · rw [Nat.ofDigits_append_replicate_zero, hValue, number_take]

/-- What the wrappers give back: as many bytes as the formula says, with what the two loops
visit of the number. -/
theorem decodeString_encodeString (t : Target) (str : List UInt8) :
    (decodeString t (encodeString str)).length = bit64DecodeSize (bit64EncodeSize str.length) ∧
      number (decodeString t (encodeString str)) = number str % 2 ^ (8 * visited str.length) %
        2 ^ (6 * visited (bit64EncodeSize str.length)) := by
  obtain ⟨ds, hReads, hLt, hValue⟩ := reads_encodeString t str
  have hLength := hReads.length_eq
  rw [length_encodeString] at hLength
  have hTake := List.forall₂_take (visited (encodeString str).length) hReads
  obtain ⟨hNumber, hLe, -⟩ := bit64Decode_spec t hTake
  rw [length_encodeString] at hNumber hLe
  have hVisited := visited_le (bit64EncodeSize str.length)
  constructor
  · rw [decodeString, length_encodeString]
    apply length_filled
    rw [List.length_take] at hLe
    rw [bit64DecodeSize]
    omega
  · rw [decodeString, number_filled, hNumber, ← hValue, pow_mul,
      Nat.ofDigits_mod_pow_eq_ofDigits_take (p := 2 ^ 6) _ (by decide) ds hLt]

/-- The string has a length that is a multiple of three, and is zero beyond what the two loops
visit. -/
def Kept (str : List UInt8) : Prop :=
  3 ∣ str.length ∧ number str < 2 ^ (8 * visited str.length) ∧
    number str < 2 ^ (6 * visited (bit64EncodeSize str.length))

theorem kept_iff {str : List UInt8} (h : str.length < 3 * 2 ^ 29) : Kept str ↔ 3 ∣ str.length := by
  refine ⟨fun hKept => hKept.1, fun hThree => ⟨hThree, ?_, ?_⟩⟩
  · rw [visited_of_lt (by omega)]
    exact number_lt str
  · have hSize : 6 * visited (bit64EncodeSize str.length) = 8 * str.length := by
      rw [visited_of_lt (by rw [bit64EncodeSize]; omega), bit64EncodeSize]
      omega
    rw [hSize]
    exact number_lt str

theorem decodeString_iff (t : Target) (str : List UInt8) :
    decodeString t (encodeString str) = str ↔ Kept str := by
  obtain ⟨hLength, hNumber⟩ := decodeString_encodeString t str
  have hThree : bit64DecodeSize (bit64EncodeSize str.length) = str.length ↔ 3 ∣ str.length := by
    rw [bit64DecodeSize, bit64EncodeSize]
    omega
  constructor
  · intro hSame
    rw [hSame] at hLength hNumber
    have hSmall := Nat.mod_lt (number str % 2 ^ (8 * visited str.length))
      (Nat.two_pow_pos (6 * visited (bit64EncodeSize str.length)))
    have hMod := Nat.mod_le (number str % 2 ^ (8 * visited str.length))
      (2 ^ (6 * visited (bit64EncodeSize str.length)))
    have hFirst := Nat.mod_lt (number str) (Nat.two_pow_pos (8 * visited str.length))
    rw [← hNumber] at hSmall hMod
    exact ⟨hThree.mp hLength.symm, hMod.trans_lt hFirst, hSmall⟩
  · rintro ⟨hDvd, hEncode, hDecode⟩
    rw [Nat.mod_eq_of_lt hEncode, Nat.mod_eq_of_lt hDecode] at hNumber
    exact number_inj (hLength.trans (hThree.mpr hDvd)) hNumber

/-- A string is given back exactly if its length is a multiple of three and the loops leave
nothing but zeros out, which is so for every such string of less than 3 * 2^29 bytes. -/
theorem wrappers_iff (t : Target) (str : List UInt8) :
    (decodeString t (encodeString str) = str ↔ Kept str) ∧
      ((decode t (encodeString str)).size = str.length ∧
        (decode t (encodeString str)).contents = str ↔ Kept str) ∧
      (str.length < 3 * 2 ^ 29 → (Kept str ↔ 3 ∣ str.length)) := by
  refine ⟨decodeString_iff t str, ?_, kept_iff⟩
  have hSize : (decode t (encodeString str)).size = (decodeString t (encodeString str)).length := rfl
  have hContents : (decode t (encodeString str)).contents = decodeString t (encodeString str) :=
    BufferData.contents_ofBuffer _
  rw [hSize, hContents, ← decodeString_iff t str]
  exact ⟨fun h => h.2, fun h => ⟨congrArg List.length h, h⟩⟩

/-- `abc` is given back. -/
theorem wrappers_three : decodeString ⟨true, fun _ => 0⟩ (encodeString [97, 98, 99]) = [97, 98, 99] :=
  (wrappers_iff ⟨true, fun _ => 0⟩ [97, 98, 99]).1.mpr
    (((wrappers_iff ⟨true, fun _ => 0⟩ [97, 98, 99]).2.2 (by decide)).mpr (by decide))

/-- `a` comes back with a NUL behind it. -/
theorem wrappers_fail : decodeString ⟨true, fun _ => 0⟩ (encodeString [97]) = [97, 0] ∧
    (decode ⟨true, fun _ => 0⟩ (encodeString [97])).size = 2 ∧
    decodeString ⟨true, fun _ => 0⟩ (encodeString [97]) ≠ [97] := by
  obtain ⟨hLength, hNumber⟩ := decodeString_encodeString ⟨true, fun _ => 0⟩ [97]
  have hBack : decodeString ⟨true, fun _ => 0⟩ (encodeString [97]) = [97, 0] :=
    number_inj hLength (hNumber.trans (by decide))
  refine ⟨hBack, hLength, ?_⟩
  rw [hBack]
  decide

end RetroConfig.Bit64
