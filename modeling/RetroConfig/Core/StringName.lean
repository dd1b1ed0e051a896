import Mathlib.Algebra.Ring.Int.Defs
import Mathlib.Algebra.Ring.Nat
import Mathlib.Data.List.Basic
import Mathlib.Data.List.Forall2
import Mathlib.Data.List.Nodup
import Mathlib.Logic.Function.Basic
import Mathlib.Tactic.Common

/-!
# `gc::h`: names by their pointers

`gc::h` (`gcore/core/IMP.cpp`) returns the one pointer for all C strings with the same contents.
`stringDB` has a bucket of pointers for each value of `bkdrHash`. A string that is not in its bucket is
copied by `make_cs`, whose size is an `int`.

`interns_iff` says that pointers and strings go together one to one, through a whole run, while every
string is short enough for an `int`. A longer one is written beyond the block it gets, or to no block.

A pointer is the number of a block of `malloc`. Undefined behaviour is `none`.
-/

namespace RetroConfig.StringName

/-- A C string: the bytes before its NUL. -/
structure CString where
  bytes : List UInt8
  noNul : 0 ∉ bytes

theorem CString.ext_bytes {s t : CString} (h : s.bytes = t.bytes) : s = t := by
  cases s
  cases t
  congr

/-! ## Memory -/

/-- The blocks that `malloc` has given out, and the number of the next one. -/
structure Heap where
  blocks : Nat → Option (List UInt8)
  next : Nat

namespace Heap

/-- Change the contents of a block. -/
def put (p : Nat) (block : List UInt8) (heap : Heap) : Heap :=
  { heap with blocks := Function.update heap.blocks p (some block) }

/-- `malloc`, which has no block beyond `PTRDIFF_MAX`. -/
def malloc (bytes : Nat) (heap : Heap) : Option (Heap × Nat) :=
  if bytes < 2 ^ 63 then
    some ({ heap with next := heap.next + 1 }.put heap.next (List.replicate bytes 0), heap.next)
  else none

/-- Put bytes at a place of a block. -/
def write (p : Nat) (place : Int) (bytes : List UInt8) (heap : Heap) : Option Heap :=
  (heap.blocks p).bind fun block =>
    if 0 ≤ place ∧ place + bytes.length ≤ block.length then
      some (heap.put p
        (block.take place.toNat ++ bytes ++ block.drop (place.toNat + bytes.length)))
    else none

/-- The bytes of the C string at a pointer. -/
def read (p : Nat) (heap : Heap) : Option (List UInt8) :=
  (heap.blocks p).bind fun block => if 0 ∈ block then some (block.takeWhile (· ≠ 0)) else none

end Heap

/-! ## The code -/

/-- A `char` in an arithmetic expression. Whether it has a sign depends on the platform. -/
def charValue (signed : Bool) (c : UInt8) : UInt32 :=
  if signed then c.toInt8.toInt32.toUInt32 else c.toUInt32

def seed : UInt32 := 131

def bkdrHash (signed : Bool) (str : CString) : UInt32 :=
  str.bytes.foldl (fun hash c => hash * seed + charValue signed c) 0 &&& 0x7FFFFFFF

/-- An `int` as a `size_t`. -/
def sizeT (n : Int32) : Nat := (n.toInt % 2 ^ 64).toNat

def makeCs (cs : CString) (heap : Heap) : Option (Heap × Nat) :=
  let size := Int32.ofNat (cs.bytes.length + 1)
  (heap.malloc (sizeT size)).bind fun (heap, chs) =>
    (heap.write chs 0 (cs.bytes ++ [0])).bind fun heap =>
      (heap.write chs (size.toInt - 1) [0]).map fun heap => (heap, chs)

/-- The memory and `stringDB`, which is `none` while it is `NULL`. -/
structure Names where
  heap : Heap
  stringDB : Option (UInt32 → Option (List Nat))

/-- No string has been interned. -/
def Names.init : Names := ⟨⟨fun _ => none, 0⟩, none⟩

namespace Names

def buckets (s : Names) : UInt32 → Option (List Nat) := s.stringDB.getD fun _ => none

/-- The pointers in a bucket. -/
def bucket (s : Names) (h : UInt32) : List Nat := (s.buckets h).getD []

/-- The loop over a bucket, with the place and the pointer of the string. -/
def find (heap : Heap) (str : CString) : List Nat → Option (Option (Nat × Nat))
  | [] => some none
  | cname :: v =>
    (heap.read cname).bind fun bytes =>
      if bytes = str.bytes then some (some (0, cname))
      else (find heap str v).map (Option.map fun r => (r.1 + 1, r.2))

/-- `make_cs` and `push_back`. -/
def push (str : CString) (h : UInt32) (s : Names) : Option (Names × Nat) :=
  (makeCs str s.heap).map fun (heap, cname) =>
    (⟨heap, some (Function.update s.buckets h (some (s.bucket h ++ [cname])))⟩, cname)

/-- `getName`, with the place of the string in its bucket and with its pointer. -/
def getName (str : CString) (h : UInt32) (s : Names) : Option (Names × Nat × Nat) :=
  match s.buckets h with
  | none => (s.push str h).map fun (s, cname) => (s, 0, cname)
  | some v =>
    (find s.heap str v).bind fun
      | some (count, cname) => some (⟨s.heap, some s.buckets⟩, count, cname)
      | none => (s.push str h).map fun (s, cname) => (s, v.length, cname)

/-- `gc::h` -/
def h (signed : Bool) (chs : CString) (s : Names) : Option (Names × Nat) :=
  (s.getName chs (bkdrHash signed chs)).map fun (s, _, ret) => (s, ret)

/-- Calls of `gc::h`, one after the other, with what they return. -/
def run (signed : Bool) : List CString → Names → Option (Names × List Nat)
  | [], s => some (s, [])
  | str :: strs, s =>
    (s.h signed str).bind fun (s, p) => (run signed strs s).map fun (s, ps) => (s, p :: ps)

/-- The string is in its bucket, and it can be read there. -/
def Interned (signed : Bool) (s : Names) (p : Nat) (str : CString) : Prop :=
  p ∈ s.bucket (bkdrHash signed str) ∧ s.heap.read p = some str.bytes

/-- Every call returns. After each of them the pointers that were returned so far denote the strings
they were returned for, and two of them are the same if and only if the strings are. -/
def Interns (signed : Bool) (strs : List CString) : Prop :=
  ∃ s ps, run signed strs .init = some (s, ps) ∧
    (∀ n ≤ strs.length, ∃ t, run signed (strs.take n) .init = some (t, ps.take n) ∧
      List.Forall₂ (fun p str => t.heap.read p = some str.bytes) (ps.take n) (strs.take n)) ∧
    ∀ (i j p q : Nat) (str str' : CString), ps[i]? = some p → ps[j]? = some q → strs[i]? = some str →
      strs[j]? = some str' → (p = q ↔ str = str')

end Names

/-! ## Copies -/

namespace Heap

variable {heap : Heap} {p q : Nat} {block bytes : List UInt8} {place : Int}

@[simp] theorem next_put : (heap.put p block).next = heap.next := rfl

@[simp] theorem blocks_put : (heap.put p block).blocks p = some block := Function.update_self ..

theorem blocks_put_of_ne (h : q ≠ p) : (heap.put p block).blocks q = heap.blocks q :=
  Function.update_of_ne h ..

@[simp] theorem put_put : (heap.put p block).put p bytes = heap.put p bytes := by
  rw [put, put, Function.update_idem]
  rfl

theorem write_put (h : 0 ≤ place ∧ place + bytes.length ≤ block.length) :
    (heap.put p block).write p place bytes =
      some (heap.put p
        (block.take place.toNat ++ bytes ++ block.drop (place.toNat + bytes.length))) := by
  rw [write, blocks_put, Option.bind_some, if_pos h, put_put]

theorem write_put_none (h : ¬ place + bytes.length ≤ block.length) :
    (heap.put p block).write p place bytes = none := by
  rw [write, blocks_put, Option.bind_some, if_neg fun hBoth => h hBoth.2]

theorem read_put_of_ne (h : q ≠ p) : (heap.put p block).read q = heap.read q := by
  rw [read, read, blocks_put_of_ne h]

end Heap

/-- The string and its NUL have an `int` for a size. -/
def Short (str : CString) : Prop := str.bytes.length + 1 < 2 ^ 31

/-- The size of a block is the number without its upper bits, or there is no such block. -/
theorem sizeT_lt {n : Nat} (h : 2 ^ 31 ≤ n) (hBlock : sizeT (Int32.ofNat n) < 2 ^ 63) :
    sizeT (Int32.ofNat n) < n := by
  have hInt : (Int32.ofNat n).toInt = Int.bmod n (2 ^ 32) := Int32.toInt_ofNat'
  rw [sizeT, hInt, Int.bmod_eq_emod] at hBlock ⊢
  obtain ⟨r, hr⟩ : ∃ r : Int, r = (n : Int) % ((2 ^ 32 : Nat) : Int) := ⟨_, rfl⟩
  rw [← hr] at hBlock ⊢
  by_cases hUpper : r ≥ (((2 ^ 32 : Nat) : Int) + 1) / 2
  · rw [if_pos hUpper] at hBlock
    omega
  · rw [if_neg hUpper]
    omega

section Copies

variable {cs : CString} {heap : Heap}

theorem read_copy (p : Nat) : (heap.put p (cs.bytes ++ [0])).read p = some cs.bytes := by
  have hWhile : (cs.bytes ++ [0]).takeWhile (· ≠ 0) = cs.bytes := by
    rw [List.takeWhile_append_of_pos fun c hc => ?_]
    · simp
    · exact decide_eq_true fun hZero => cs.noNul (hZero ▸ hc)
  rw [Heap.read, Heap.blocks_put, Option.bind_some, if_pos (by simp), hWhile]

theorem makeCs_short (h : Short cs) :
    makeCs cs heap = some ({ heap with next := heap.next + 1 }.put heap.next (cs.bytes ++ [0]),
      heap.next) := by
  have hInt : (Int32.ofNat (cs.bytes.length + 1)).toInt = (cs.bytes.length + 1 : Nat) :=
    Int32.toInt_ofNat_of_lt h
  have hSize : sizeT (Int32.ofNat (cs.bytes.length + 1)) = cs.bytes.length + 1 := by
    rw [Short] at h
    rw [sizeT, hInt]
    omega
  have hLess : cs.bytes.length + 1 < 2 ^ 63 := Nat.lt_trans h (by decide)
  have hPlace : (((cs.bytes.length + 1 : Nat) : Int) - 1).toNat = cs.bytes.length := by omega
  rw [makeCs, hSize, Heap.malloc, if_pos hLess, Option.bind_some, hInt]
  simp only
  rw [Heap.write_put (by simp), Option.bind_some, Heap.write_put (by simp), hPlace]
  simp

theorem makeCs_long (h : ¬ Short cs) : makeCs cs heap = none := by
  rw [Short, Nat.not_lt] at h
  rw [makeCs, Heap.malloc]
  split
  · next hLess =>
    -- The size is the length without its upper bits, so the block is shorter than the string.
    have hBlock : sizeT (Int32.ofNat (cs.bytes.length + 1)) < cs.bytes.length + 1 := sizeT_lt h hLess
    rw [Option.bind_some]
    simp only
    rw [Heap.write_put_none, Option.bind_none]
    rw [List.length_replicate, List.length_append, List.length_singleton]
    omega
  · rfl

end Copies

/-! ## One call -/

namespace Names

/-- Blocks are given out in turn, and a bucket has copies of different short strings with its hash. -/
structure WellFormed (signed : Bool) (s : Names) : Prop where
  unused : ∀ p, s.heap.next ≤ p → s.heap.blocks p = none
  copies : ∀ key, ∀ p ∈ s.bucket key, ∃ str, Short str ∧ bkdrHash signed str = key ∧
    s.heap.read p = some str.bytes
  distinct : ∀ key, ((s.bucket key).map s.heap.read).Nodup

theorem wellFormed_init (signed : Bool) : WellFormed signed .init where
  unused := fun _ _ => rfl
  copies := fun _ _ hp => by cases hp
  distinct := fun _ => List.nodup_nil

section Find

variable {heap : Heap} {str : CString} {v : List Nat} {p : Nat}

theorem find_none (h : ∀ q ∈ v, ∃ bytes, heap.read q = some bytes ∧ bytes ≠ str.bytes) :
    find heap str v = some none := by
  induction v with
  | nil => rfl
  | cons q v ih =>
    obtain ⟨⟨bytes, hRead, hNe⟩, hRest⟩ := List.forall_mem_cons.mp h
    rw [find, hRead, Option.bind_some, if_neg hNe, ih hRest]
    rfl

theorem find_some (h : ∀ q ∈ v, ∃ bytes, heap.read q = some bytes) (hNodup : (v.map heap.read).Nodup)
    (hMem : p ∈ v) (hRead : heap.read p = some str.bytes) :
    ∃ count, find heap str v = some (some (count, p)) := by
  induction v with
  | nil => cases hMem
  | cons q v ih =>
    obtain ⟨⟨bytes, hFirst⟩, hRest⟩ := List.forall_mem_cons.mp h
    rw [List.map_cons, List.nodup_cons] at hNodup
    by_cases hEq : bytes = str.bytes
    · rcases List.mem_cons.mp hMem with rfl | hTail
      · exact ⟨0, by rw [find, hFirst, Option.bind_some, if_pos hEq]⟩
      · refine absurd ?_ hNodup.1
        rw [hFirst, hEq, ← hRead]
        exact List.mem_map_of_mem hTail
    · rcases List.mem_cons.mp hMem with rfl | hTail
      · rw [hFirst] at hRead
        exact absurd (Option.some.inj hRead) hEq
      · obtain ⟨count, hFind⟩ := ih hRest hNodup.2 hTail
        refine ⟨count + 1, ?_⟩
        rw [find, hFirst, Option.bind_some, if_neg hEq, hFind]
        rfl

end Find

variable {signed : Bool} {s t : Names} {str : CString} {p q : Nat}

/-- A bucket holds a string once. -/
theorem WellFormed.unique (hs : WellFormed signed s) (hp : Interned signed s p str)
    (hq : Interned signed s q str) : p = q :=
  List.inj_on_of_nodup_map (hs.distinct _) hp.1 hq.1 (hp.2.trans hq.2.symm)

theorem bucket_of_none {key : UInt32} (h : s.buckets key = none) : s.bucket key = [] := by
  rw [bucket, h]
  rfl

theorem bucket_of_some {key : UInt32} {v : List Nat} (h : s.buckets key = some v) :
    s.bucket key = v := by
  rw [bucket, h]
  rfl

/-- A string that was interned before. -/
theorem h_interned (hs : WellFormed signed s) (hp : Interned signed s p str) :
    s.h signed str = some (⟨s.heap, some s.buckets⟩, p) := by
  rw [h, getName]
  cases hBucket : s.buckets (bkdrHash signed str) with
  | none =>
    have hMem := hp.1
    rw [bucket_of_none hBucket] at hMem
    cases hMem
  | some v =>
    obtain rfl := bucket_of_some hBucket
    have hReads : ∀ q ∈ s.bucket (bkdrHash signed str), ∃ bytes, s.heap.read q = some bytes := by
      intro q hq
      obtain ⟨str', -, -, hRead⟩ := hs.copies _ q hq
      exact ⟨str'.bytes, hRead⟩
    obtain ⟨count, hFind⟩ := find_some hReads (hs.distinct _) hp.1 hp.2
    simp only [hFind, Option.bind_some, Option.map_some]

/-- The loop does not find a string that was not interned before. -/
theorem find_bucket (hs : WellFormed signed s) (hNew : ∀ p, ¬ Interned signed s p str) :
    find s.heap str (s.bucket (bkdrHash signed str)) = some none := by
  refine find_none fun q hq => ?_
  obtain ⟨str', -, -, hRead⟩ := hs.copies _ q hq
  exact ⟨str'.bytes, hRead, fun hEq => hNew q ⟨hq, hRead.trans (congrArg some hEq)⟩⟩

/-- A string that was not interned before is pushed. -/
theorem h_new (hs : WellFormed signed s) (hNew : ∀ p, ¬ Interned signed s p str) :
    s.h signed str = s.push str (bkdrHash signed str) := by
  rw [h, getName]
  cases hBucket : s.buckets (bkdrHash signed str) with
  | none =>
    simp only [Option.map_map]
    exact Option.map_id_apply
  | some v =>
    obtain rfl := bucket_of_some hBucket
    simp only [find_bucket hs hNew, Option.bind_some, Option.map_map]
    exact Option.map_id_apply

theorem push_short (h : Short str) (key : UInt32) (s : Names) :
    s.push str key = some
      (⟨{ s.heap with next := s.heap.next + 1 }.put s.heap.next (str.bytes ++ [0]),
        some (Function.update s.buckets key (some (s.bucket key ++ [s.heap.next])))⟩,
        s.heap.next) := by
  rw [push, makeCs_short h]
  rfl

theorem push_long (h : ¬ Short str) (key : UInt32) (s : Names) : s.push str key = none := by
  rw [push, makeCs_long h]
  rfl

theorem bucket_update (s : Names) (heap : Heap) (key key' : UInt32) (v : List Nat) :
    Names.bucket ⟨heap, some (Function.update s.buckets key (some v))⟩ key' =
      if key' = key then v else s.bucket key' := by
  rw [bucket, buckets, Option.getD_some, Function.update_apply]
  split <;> rfl

/-- What a call does: the string is interned at the pointer that is returned, and all that was
interned before stays where it is. -/
theorem h_short (hs : WellFormed signed s) (hShort : Short str) :
    ∃ t p, s.h signed str = some (t, p) ∧ WellFormed signed t ∧ Interned signed t p str ∧
      ∀ q str', Interned signed s q str' → Interned signed t q str' := by
  by_cases hOld : ∃ p, Interned signed s p str
  · obtain ⟨p, hp⟩ := hOld
    exact ⟨_, p, h_interned hs hp, ⟨hs.unused, hs.copies, hs.distinct⟩, hp, fun q str' hq => hq⟩
  · have hNew : ∀ p, ¬ Interned signed s p str := fun p hp => hOld ⟨p, hp⟩
    obtain ⟨key, hKey⟩ : ∃ key, key = bkdrHash signed str := ⟨_, rfl⟩
    obtain ⟨heap, hHeap⟩ : ∃ heap, heap =
        { s.heap with next := s.heap.next + 1 }.put s.heap.next (str.bytes ++ [0]) := ⟨_, rfl⟩
    have hCall : s.h signed str = some
        (⟨heap, some (Function.update s.buckets key (some (s.bucket key ++ [s.heap.next])))⟩,
          s.heap.next) := by
      rw [h_new hs hNew, push_short hShort, ← hKey, ← hHeap]
    -- The new block is none of the old ones.
    have hOldNe : ∀ key, ∀ p ∈ s.bucket key, p ≠ s.heap.next := by
      rintro key p hp rfl
      obtain ⟨str', -, -, hRead⟩ := hs.copies key _ hp
      rw [Heap.read, hs.unused _ (Nat.le_refl _)] at hRead
      cases hRead
    have hSame : ∀ key, ∀ p ∈ s.bucket key, heap.read p = s.heap.read p := by
      intro key p hp
      rw [hHeap, Heap.read_put_of_ne (hOldNe key p hp)]
      rfl
    have hCopy : heap.read s.heap.next = some str.bytes := by
      rw [hHeap, read_copy]
    refine ⟨_, _, hCall, ⟨?_, ?_, ?_⟩, ⟨?_, hCopy⟩, ?_⟩
    · intro p hp
      have hLt : s.heap.next < p := by
        rw [hHeap] at hp
        exact hp
      rw [hHeap, Heap.blocks_put_of_ne (Nat.ne_of_gt hLt)]
      exact hs.unused p (Nat.le_of_lt hLt)
    · intro key' p hp
      rw [bucket_update] at hp
      split at hp
      · next hEq =>
        rcases List.mem_append.mp hp with hMem | hLast
        · obtain ⟨str', hShort', hHash, hRead⟩ := hs.copies key p hMem
          exact ⟨str', hShort', hHash.trans hEq.symm, (hSame key p hMem).trans hRead⟩
        · rw [List.mem_singleton.mp hLast]
          exact ⟨str, hShort, hKey.symm.trans hEq.symm, hCopy⟩
      · obtain ⟨str', hShort', hHash, hRead⟩ := hs.copies key' p hp
        exact ⟨str', hShort', hHash, (hSame key' p hp).trans hRead⟩
    · intro key'
      have hMap : ∀ key, (s.bucket key).map heap.read = (s.bucket key).map s.heap.read :=
        fun key => List.map_congr_left (hSame key)
      rw [bucket_update]
      split
      · rw [List.map_append, hMap, List.map_singleton, hCopy, List.nodup_append]
        refine ⟨hs.distinct key, List.nodup_singleton _, ?_⟩
        rintro a ha b hb rfl
        obtain ⟨q, hq, hRead⟩ := List.mem_map.mp ha
        exact hNew q ⟨hKey ▸ hq, hRead.trans (List.mem_singleton.mp hb)⟩
      · rw [hMap]
        exact hs.distinct key'
    · rw [bucket_update, if_pos hKey.symm]
      exact List.mem_append_right _ List.mem_cons_self
    · rintro q str' ⟨hMem, hRead⟩
      refine ⟨?_, (hSame _ q hMem).trans hRead⟩
      rw [bucket_update]
      split
      · next hEq =>
        rw [hEq] at hMem
        exact List.mem_append_left _ hMem
      · exact hMem

/-- A string that is too long is in no bucket, and it cannot be copied. -/
theorem h_long (hs : WellFormed signed s) (hLong : ¬ Short str) : s.h signed str = none := by
  have hNew : ∀ p, ¬ Interned signed s p str := by
    rintro p ⟨hMem, hRead⟩
    obtain ⟨str', hShort, -, hRead'⟩ := hs.copies _ p hMem
    obtain rfl : str = str' := CString.ext_bytes (Option.some.inj (hRead.symm.trans hRead'))
    exact hLong hShort
  rw [h_new hs hNew, push_long hLong]

/-! ## Runs -/

variable {strs : List CString} {ps : List Nat}

theorem run_short (hs : WellFormed signed s) (hShort : ∀ str ∈ strs, Short str) :
    ∃ t ps, run signed strs s = some (t, ps) ∧ List.Forall₂ (Interned signed t) ps strs ∧
      WellFormed signed t ∧ ∀ q str, Interned signed s q str → Interned signed t q str := by
  induction strs generalizing s with
  | nil => exact ⟨s, [], rfl, .nil, hs, fun q str hq => hq⟩
  | cons str strs ih =>
    obtain ⟨hHead, hTail⟩ := List.forall_mem_cons.mp hShort
    obtain ⟨u, p, hCall, hu, hp, hKeep⟩ := h_short hs hHead
    obtain ⟨t, ps, hRun, hAll, ht, hKeep'⟩ := ih hu hTail
    refine ⟨t, p :: ps, ?_, .cons (hKeep' p str hp) hAll, ht, fun q str' hq =>
      hKeep' q str' (hKeep q str' hq)⟩
    rw [run, hCall, Option.bind_some]
    simp only [hRun, Option.map_some]

/-- A run that ends has had short strings only. -/
theorem short_of_run (hs : WellFormed signed s) (hRun : run signed strs s = some (t, ps)) :
    ∀ str ∈ strs, Short str := by
  induction strs generalizing s ps with
  | nil => exact fun str hMem => by cases hMem
  | cons str strs ih =>
    have hHead : Short str := by
      by_contra hLong
      rw [run, h_long hs hLong] at hRun
      cases hRun
    obtain ⟨u, p, hCall, hu, -⟩ := h_short hs hHead
    rw [run, hCall, Option.bind_some] at hRun
    obtain ⟨⟨t', ps'⟩, hRest, hEq⟩ := Option.map_eq_some_iff.mp hRun
    obtain ⟨rfl, -⟩ := Prod.mk.inj hEq
    exact List.forall_mem_cons.mpr ⟨hHead, ih hu hRest⟩

/-- The first calls of a run return what they return in it. -/
theorem run_take (hRun : run signed strs s = some (t, ps)) (n : Nat) :
    ∃ u, run signed (strs.take n) s = some (u, ps.take n) := by
  induction strs generalizing s ps n with
  | nil =>
    obtain ⟨-, rfl⟩ := Prod.mk.inj (Option.some.inj hRun)
    exact ⟨s, by rw [List.take_nil, List.take_nil]; rfl⟩
  | cons str strs ih =>
    cases n with
    | zero => exact ⟨s, rfl⟩
    | succ n =>
      rw [run] at hRun
      obtain ⟨⟨v, p⟩, hCall, hRest⟩ := Option.bind_eq_some_iff.mp hRun
      obtain ⟨⟨t', ps'⟩, hTail, hEq⟩ := Option.map_eq_some_iff.mp hRest
      obtain ⟨rfl, rfl⟩ := Prod.mk.inj hEq
      obtain ⟨u, hu⟩ := ih hTail n
      refine ⟨u, ?_⟩
      rw [List.take_succ_cons, List.take_succ_cons, run, hCall, Option.bind_some]
      simp only [hu, Option.map_some]

theorem interned_of_forall₂ (hAll : List.Forall₂ (Interned signed t) ps strs) {i p : Nat}
    (hp : ps[i]? = some p) (hStr : strs[i]? = some str) : Interned signed t p str := by
  induction hAll generalizing i with
  | nil => cases hp
  | cons hHead _ ih =>
    cases i with
    | zero =>
      obtain rfl := Option.some.inj hp
      obtain rfl := Option.some.inj hStr
      exact hHead
    | succ i => exact ih hp hStr

/-- Names and strings go together one to one, and all pointers stay valid, in exactly the runs in which
every string with its NUL is shorter than `2 ^ 31`. -/
theorem interns_iff (signed : Bool) (strs : List CString) :
    Interns signed strs ↔ ∀ str ∈ strs, str.bytes.length + 1 < 2 ^ 31 := by
  constructor
  · rintro ⟨t, ps, hRun, -⟩
    exact short_of_run (wellFormed_init signed) hRun
  · intro hShort
    obtain ⟨t, ps, hRun, hAll, ht, -⟩ := run_short (wellFormed_init signed) hShort
    refine ⟨t, ps, hRun, fun n _ => ?_, ?_⟩
    · obtain ⟨u, hTake⟩ := run_take hRun n
      obtain ⟨u', qs, hRun', hAll', -⟩ := run_short (wellFormed_init signed)
        fun str hMem => hShort str (List.mem_of_mem_take hMem)
      obtain ⟨rfl, rfl⟩ := Prod.mk.inj (Option.some.inj (hTake.symm.trans hRun'))
      exact ⟨u, hTake, hAll'.imp fun p str hp => hp.2⟩
    · intro i j p q str str' hp hq hStr hStr'
      have hFirst : Interned signed t p str := interned_of_forall₂ hAll hp hStr
      have hSecond : Interned signed t q str' := interned_of_forall₂ hAll hq hStr'
      constructor
      · rintro rfl
        exact CString.ext_bytes (Option.some.inj (hFirst.2.symm.trans hSecond.2))
      · rintro rfl
        exact ht.unique hFirst hSecond

/-- A string of `2 ^ 31 - 1` bytes: its size becomes `-2 ^ 31`, and there is no such block. -/
theorem interns_fails : ∃ str : CString, str.bytes.length = 2 ^ 31 - 1 ∧ ¬ Interns true [str] := by
  have hNul : (0 : UInt8) ∉ List.replicate (2 ^ 31 - 1) 97 := fun hMem =>
    absurd (List.eq_of_mem_replicate hMem) (by decide)
  refine ⟨⟨_, hNul⟩, List.length_replicate, ?_⟩
  rintro ⟨t, ps, hRun, -⟩
  have hShort := short_of_run (wellFormed_init true) hRun _ List.mem_cons_self
  rw [Short, List.length_replicate] at hShort
  omega

end Names

end RetroConfig.StringName
