import RetroConfig.Dart.BridgeScalar
import Mathlib.Data.List.Forall2
import Mathlib.Data.List.Nodup
import Mathlib.Data.List.Zip

/-!
# Which values pass over the bridge

A value comes back from native code as it was exactly if every integer in it fits into a `long` and
every string and key in it is one that UTF-8 keeps (`send_iff`). A list or a map is followed through
the calls that fill its native object: what a call has put there stays until it is read (`Passes.put`,
`setElements_eq`, `setMembers_eq`).
-/

namespace RetroConfig.Bridge

variable {δ : Type} {abi : Abi}

/-! ## Calls -/

section

variable (memory : NativeTarget δ) {heap : Heap abi δ} {o : Nat}

section Invoke

variable {variants : List (Variant abi δ)} {entries : List (String × Variant abi δ)}

theorem invoke_size (ho : heap[o]? = some (.array variants)) :
    invoke heap o .size [] = some (heap, .integer (BitVec.ofNat _ variants.length)) := by
  unfold invoke
  rw [ho]

theorem invoke_resize (ho : heap[o]? = some (.array variants)) (n : BitVec abi.long) :
    invoke heap o .resize [.integer n] =
      if n.msb then none else some (heap.set o (.array (resize variants n.toNat)), .null) := by
  unfold invoke
  rw [ho]

theorem invoke_getAt (ho : heap[o]? = some (.array variants)) (n : BitVec abi.long) :
    invoke heap o .get [.integer n] = some (heap, variants[n.toNat]?.getD .null) := by
  unfold invoke
  rw [ho]

theorem invoke_set (ho : heap[o]? = some (.array variants)) (n : BitVec abi.long)
    (variant : Variant abi δ) :
    invoke heap o .set [.integer n, variant] =
      some (heap.set o (.array (variants.set n.toNat variant)), .null) := by
  unfold invoke
  rw [ho]

theorem invoke_getKey (ho : heap[o]? = some (.map entries)) (key : String) :
    invoke heap o .get [.string key] = some (heap, (entries.lookup key).getD .null) := by
  unfold invoke
  rw [ho]

theorem invoke_setKey (ho : heap[o]? = some (.map entries)) (key : String)
    (variant : Variant abi δ) :
    invoke heap o .set [.string key, variant] =
      some (heap.set o (.map (OrderedMap.insert key variant entries)), .null) := by
  unfold invoke
  rw [ho]

theorem invoke_keys (ho : heap[o]? = some (.map entries)) :
    invoke heap o .keys [] =
      some (heap ++ [.array (entries.map fun e => .string e.1)], .reference heap.length) := by
  unfold invoke
  rw [ho]

end Invoke

/-- A size or an index below the limit passes unchanged. -/
theorem sent_int {i : Nat} : (sent memory (int i) : Variant abi δ) = .integer (BitVec.ofNat _ i) := by
  change Variant.integer ((BitVec.ofNat 64 i).setWidth abi.long) = _
  rw [BitVec.setWidth_ofNat_of_le (long_le abi)]

theorem toNat_index {i : Nat} (h : i < 2 ^ (abi.long - 1)) : (BitVec.ofNat abi.long i).toNat = i := by
  rw [BitVec.toNat_ofNat]
  apply Nat.mod_eq_of_lt
  exact lt_of_lt_of_le h (Nat.pow_le_pow_right (by decide) (Nat.sub_le _ _))

theorem msb_index {i : Nat} (h : i < 2 ^ (abi.long - 1)) : (BitVec.ofNat abi.long i).msb = false := by
  rw [BitVec.msb_eq_decide, toNat_index h]
  simpa using h

theorem received_integer {i : Nat} (h : i < 2 ^ (abi.long - 1)) :
    received memory heap (.integer (BitVec.ofNat _ i)) = int i := by
  change Dynamic.scalar (.int (.ofBitVec ((BitVec.ofNat abi.long i).signExtend 64))) = _
  have hLt : i < 2 ^ abi.long :=
    lt_of_lt_of_le h (Nat.pow_le_pow_right (by decide) (Nat.sub_le _ _))
  rw [BitVec.signExtend_eq_setWidth_of_msb_false (msb_index h),
    BitVec.setWidth_ofNat_of_le_of_lt (long_le abi) hLt]
  rfl

theorem call_resize {variants : List (Variant abi δ)} (ho : heap[o]? = some (.array variants))
    {n : Nat} (hn : n < 2 ^ (abi.long - 1)) :
    call memory heap o .resize [int n] =
      some (heap.set o (.array (resize variants n)), .scalar .null) := by
  simp only [call, List.map_cons, List.map_nil, sent_int, invoke_resize ho, msb_index hn, toNat_index hn]
  rfl

theorem call_set {variants : List (Variant abi δ)} (ho : heap[o]? = some (.array variants)) {i : Nat}
    (hi : i < 2 ^ (abi.long - 1)) (obj : Dynamic δ) :
    call memory heap o .set [int i, obj] =
      some (heap.set o (.array (variants.set i (sent memory obj))), .scalar .null) := by
  simp only [call, List.map_cons, List.map_nil, sent_int, invoke_set ho, toNat_index hi]
  rfl

theorem length_eq {variants : List (Variant abi δ)} (ho : heap[o]? = some (.array variants))
    (hLength : variants.length < 2 ^ (abi.long - 1)) :
    length memory heap o = some (int variants.length) := by
  simp only [length, call, List.map_nil, invoke_size ho]
  have hInt : received memory heap (.integer (BitVec.ofNat _ variants.length)) = int variants.length :=
    received_integer memory hLength
  exact congrArg some hInt

theorem getAt_eq {variants : List (Variant abi δ)} (ho : heap[o]? = some (.array variants)) {i : Nat}
    (hi : i < 2 ^ (abi.long - 1)) :
    getAt memory heap o i = some (received memory heap (variants[i]?.getD .null)) := by
  simp only [getAt, call, List.map_cons, List.map_nil, sent_int, invoke_getAt ho, toNat_index hi]
  rfl

theorem sent_string {s : DartString} (h : NulFree s) :
    (sent memory (string s) : Variant abi δ) = .string (toNativeUtf8 s) := by
  change Variant.string (Text.cString (toNativeUtf8 s)) = _
  rw [Text.cString_of_nulFree (nulFree_toNativeUtf8 h)]

theorem call_setKey {entries : List (String × Variant abi δ)} (ho : heap[o]? = some (.map entries))
    {key : DartString} (hKey : NulFree key) (obj : Dynamic δ) :
    call memory heap o .set [string key, obj] =
      some (heap.set o (.map (OrderedMap.insert (toNativeUtf8 key) (sent memory obj) entries)),
        .scalar .null) := by
  simp only [call, List.map_cons, List.map_nil, sent_string memory hKey, invoke_setKey ho]
  rfl

theorem getKey_eq {entries : List (String × Variant abi δ)} (ho : heap[o]? = some (.map entries))
    {key : DartString} (hKey : NulFree key) :
    getKey memory heap o key =
      some (received memory heap ((entries.lookup (toNativeUtf8 key)).getD .null)) := by
  simp only [getKey, call, List.map_cons, List.map_nil, sent_string memory hKey, invoke_getKey ho]
  rfl

/-- A list that is read one index after the other. -/
theorem mapM_range {β : Type} {f : Nat → Option β} {bs : List β}
    (h : ∀ i (hi : i < bs.length), f i = some bs[i]) : (List.range bs.length).mapM f = some bs := by
  induction bs generalizing f with
  | nil => rfl
  | cons b bs ih =>
    have hHead : f 0 = some b := h 0 (Nat.succ_pos _)
    have hTail : (List.range bs.length).mapM (f ∘ Nat.succ) = some bs :=
      ih fun i hi => h (i + 1) (Nat.succ_lt_succ hi)
    rw [List.length_cons, List.range_succ_eq_map, List.mapM_cons, hHead, List.mapM_map, hTail]
    rfl

theorem keys_eq {entries : List (String × Variant abi δ)} (ho : heap[o]? = some (.map entries))
    (hLength : entries.length < 2 ^ (abi.long - 1)) :
    keys memory heap o =
      some (entries.map fun e => string (toDartString (Text.cString e.1))) := by
  have hTexts : (heap ++ [.array (entries.map fun e => .string e.1)])[heap.length]? =
      some (.array (entries.map fun e => .string e.1) : NativeObject abi δ) := by
    simp
  have hObj : received memory (heap ++ [.array (entries.map fun e => .string e.1)])
      (.reference heap.length) = .array heap.length := by
    change objectDB _ _ = _
    rw [objectDB, hTexts]
  have hCall : call memory heap o .keys [] =
      some (heap ++ [.array (entries.map fun e => .string e.1)], .array heap.length) := by
    simp only [call, List.map_nil, invoke_keys ho]
    rw [← hObj]
    rfl
  have hSize := length_eq memory hTexts (by simpa using hLength)
  rw [List.length_map] at hSize
  have hNat : (Int64.ofNat entries.length).toNatClampNeg = entries.length := by
    apply Int64.toNatClampNeg_ofNat_of_lt
    have hLong : abi.long - 1 ≤ 63 := by
      have := long_le abi
      omega
    exact lt_of_lt_of_le hLength (Nat.pow_le_pow_right (by decide) hLong)
  have hTexts' : ∀ i (hi : i < (entries.map fun e =>
      (string (toDartString (Text.cString e.1)) : Dynamic δ)).length),
      getAt memory (heap ++ [.array (entries.map fun e => .string e.1)]) heap.length i =
        some (entries.map fun e => string (toDartString (Text.cString e.1)))[i] := by
    intro i hi
    rw [List.length_map] at hi
    rw [getAt_eq memory hTexts (lt_trans hi hLength)]
    simp only [List.getElem?_map, List.getElem?_eq_getElem hi, Option.map_some, Option.getD_some,
      List.getElem_map]
    rfl
  have hAll := mapM_range hTexts'
  rw [List.length_map] at hAll
  rw [keys, hCall]
  simp only [Option.bind_eq_bind, Option.bind_some, hSize, int, hNat, hAll]

end

/-! ## Values -/

namespace Value

mutual

/-- The scalars in a value, the lengths of its lists and the keys of its maps. -/
def All (p : Scalar δ → Prop) (q : Nat → Prop) (r : List DartString → Prop) : Value δ → Prop
  | .scalar a => p a
  | .list elements => q elements.length ∧ AllElements p q r elements
  | .map members => r (members.map Prod.fst) ∧ AllMembers p q r members

def AllElements (p : Scalar δ → Prop) (q : Nat → Prop) (r : List DartString → Prop) :
    List (Value δ) → Prop
  | [] => True
  | value :: values => All p q r value ∧ AllElements p q r values

def AllMembers (p : Scalar δ → Prop) (q : Nat → Prop) (r : List DartString → Prop) :
    List (DartString × Value δ) → Prop
  | [] => True
  | (_, value) :: members => All p q r value ∧ AllMembers p q r members

end

variable {p : Scalar δ → Prop} {q : Nat → Prop} {r : List DartString → Prop}

theorem allElements_iff {values : List (Value δ)} :
    AllElements p q r values ↔ ∀ value ∈ values, All p q r value := by
  induction values with
  | nil => simp [AllElements]
  | cons value values ih => simp [AllElements, ih]

theorem allMembers_iff {members : List (DartString × Value δ)} :
    AllMembers p q r members ↔ ∀ m ∈ members, All p q r m.2 := by
  induction members with
  | nil => simp [AllMembers]
  | cons m members ih => simp [AllMembers, ih]

theorem all_list {elements : List (Value δ)} :
    All p q r (.list elements) ↔ q elements.length ∧ ∀ value ∈ elements, All p q r value := by
  rw [All, allElements_iff]

theorem all_map {members : List (DartString × Value δ)} :
    All p q r (.map members) ↔ r (members.map Prod.fst) ∧ ∀ m ∈ members, All p q r m.2 := by
  rw [All, allMembers_iff]

/-- Induction over a value, its elements and the values of its members. -/
theorem induction {P : Value δ → Prop} (scalar : ∀ a, P (.scalar a))
    (list : ∀ elements, (∀ v ∈ elements, P v) → P (.list elements))
    (map : ∀ members, (∀ m ∈ members, P m.2) → P (.map members)) (value : Value δ) : P value := by
  match value with
  | .scalar a => exact scalar a
  | .list elements => exact list elements (fun v _ => induction scalar list map v)
  | .map members => exact map members (fun m _ => induction scalar list map m.2)
termination_by sizeOf value
decreasing_by
  · have := List.sizeOf_lt_of_mem (by assumption : v ∈ elements)
    simp only [Value.list.sizeOf_spec]
    omega
  · have := List.sizeOf_lt_of_mem (by assumption : m ∈ members)
    have : sizeOf m.2 < sizeOf m := by
      cases m
      simp only [Prod.mk.sizeOf_spec]
      omega
    simp only [Value.map.sizeOf_spec]
    omega

/-- A value without NUL. The numbers of elements and members of the lists and maps of Dart are small
integers, which have fewer bits than `long`. -/
def Valid (abi : Abi) : Value δ → Prop :=
  All Scalar.NulFree (fun n => n < 2 ^ (abi.long - 1)) fun keys =>
    keys.Nodup ∧ keys.length < 2 ^ (abi.long - 1) ∧ ∀ key ∈ keys, NulFree key

/-- Every integer fits into a `long`, and every string and key is one that UTF-8 keeps. -/
def Fits (abi : Abi) : Value δ → Prop :=
  All (Scalar.Fits abi) (fun _ => True) fun keys => ∀ key ∈ keys, Utf8Text key

end Value

/-! ## What stays in native objects -/

/-- The objects from `lo` on are as they were. -/
def Unchanged (lo : Nat) (heap later : Heap abi δ) : Prop :=
  ∀ p, lo ≤ p → p < heap.length → later[p]? = heap[p]?

theorem Unchanged.mono {lo lo' : Nat} {heap later : Heap abi δ} (h : Unchanged lo heap later)
    (hLo : lo ≤ lo') : Unchanged lo' heap later :=
  fun p hp hLt => h p (hLo.trans hp) hLt

/-- Only the object `o` has changed. -/
structure Filled (o : Nat) (heap after : Heap abi δ) : Prop where
  length_le : heap.length ≤ after.length
  others : ∀ p, p < heap.length → p ≠ o → after[p]? = heap[p]?

theorem Filled.refl (o : Nat) (heap : Heap abi δ) : Filled o heap heap := ⟨le_rfl, fun _ _ _ => rfl⟩

theorem Filled.trans {o : Nat} {heap mid after : Heap abi δ} (h : Filled o heap mid)
    (h' : Filled o mid after) : Filled o heap after := by
  refine ⟨h.length_le.trans h'.length_le, ?_⟩
  intro p hp hNe
  rw [h'.others p (lt_of_lt_of_le hp h.length_le) hNe, h.others p hp hNe]

section

variable (memory : NativeTarget δ)

/-- As long as the objects from `lo` on stay, what is read is the value exactly if the value fits. -/
def ReadsBack (lo : Nat) (heap : Heap abi δ) (variant : Variant abi δ) (value : Value δ) : Prop :=
  ∀ later, Unchanged lo heap later →
    (Equals memory later (received memory later variant) value ↔ value.Fits abi)

theorem ReadsBack.mono {lo lo' : Nat} {heap heap' : Heap abi δ} {variant : Variant abi δ}
    {value : Value δ} (h : ReadsBack memory lo heap variant value) (hLo : lo' ≤ lo)
    (hLength : heap.length ≤ heap'.length) (hHeap : Unchanged lo heap heap') :
    ReadsBack memory lo' heap' variant value := by
  intro later hLater
  apply h later
  intro p hp hLt
  rw [hLater p (hLo.trans hp) (lt_of_lt_of_le hLt hLength), hHeap p hp hLt]

/-- A value that goes to native code can be read back. -/
def Passes (abi : Abi) (value : Value δ) : Prop :=
  ∀ heap : Heap abi δ, ∃ after obj, allocate memory heap value = some (after, obj) ∧
    heap.length ≤ after.length ∧ Unchanged 0 heap after ∧
    ReadsBack memory heap.length after (sent memory obj) value

/-- A value is made a native object, and that is put into the object `o`. -/
theorem Passes.put {value : Value δ} (h : Passes memory abi value) {heap : Heap abi δ} {o : Nat}
    (ho : o < heap.length) (fill : Variant abi δ → NativeObject abi δ) :
    ∃ mid obj, allocate memory heap value = some (mid, obj) ∧ mid[o]? = heap[o]? ∧
      Filled o heap (mid.set o (fill (sent memory obj))) ∧
      (mid.set o (fill (sent memory obj)))[o]? = some (fill (sent memory obj)) ∧
      ∀ after, Filled o (mid.set o (fill (sent memory obj))) after →
        ReadsBack memory heap.length after (sent memory obj) value := by
  obtain ⟨mid, obj, hAllocate, hLength, hUnchanged, hReads⟩ := h heap
  have hMid : o < mid.length := lt_of_lt_of_le ho hLength
  refine ⟨mid, obj, hAllocate, hUnchanged o (Nat.zero_le o) ho, ⟨?_, ?_⟩, ?_, ?_⟩
  · rw [List.length_set]
    exact hLength
  · intro p hp hNe
    rw [List.getElem?_set_ne (Ne.symm hNe), hUnchanged p (Nat.zero_le p) hp]
  · rw [List.getElem?_set_self hMid]
  · intro after hAfter
    have hLe := hAfter.length_le
    rw [List.length_set] at hLe
    apply hReads.mono memory le_rfl hLe
    intro p hp hLt
    have hNe : p ≠ o := by omega
    rw [hAfter.others p (by rwa [List.length_set]) hNe, List.getElem?_set_ne (Ne.symm hNe)]

/-- The loop over the elements of a list. -/
theorem setElements_eq {values : List (Value δ)} (hPass : ∀ value ∈ values, Passes memory abi value)
    {heap : Heap abi δ} {o i : Nat} {variants : List (Variant abi δ)}
    (ho : heap[o]? = some (.array variants)) (hi : i + values.length = variants.length)
    (hLength : variants.length < 2 ^ (abi.long - 1)) :
    ∃ after news, setElements memory heap o i values = some after ∧ Filled o heap after ∧
      after[o]? = some (.array (variants.take i ++ news)) ∧
      List.Forall₂ (ReadsBack memory heap.length after) news values := by
  induction values generalizing heap i variants with
  | nil =>
    refine ⟨heap, [], rfl, Filled.refl o heap, ?_, List.Forall₂.nil⟩
    rw [ho, List.append_nil, List.take_of_length_le (by simp at hi; omega)]
  | cons value values ih =>
    rw [List.length_cons] at hi
    have hLt : o < heap.length := (List.getElem?_eq_some_iff.mp ho).1
    obtain ⟨mid, obj, hAllocate, hMid, hFilled, hSet, hReads⟩ :=
      (hPass value List.mem_cons_self).put memory hLt fun w => .array (variants.set i w)
    rw [ho] at hMid
    obtain ⟨after, news, hRest, hAfter, hArray, hNews⟩ :=
      ih (fun v hv => hPass v (List.mem_cons_of_mem value hv)) hSet (i := i + 1)
        (by rw [List.length_set]; omega) (by rwa [List.length_set])
    have hCall := call_set memory hMid (i := i) (by omega) obj
    refine ⟨after, sent memory obj :: news, ?_, hFilled.trans hAfter, ?_, ?_⟩
    · rw [setElements, hAllocate]
      simp only [Option.bind_eq_bind, Option.bind_some, hCall, hRest]
    · have hTake : (variants.set i (sent memory obj)).take (i + 1) =
          variants.take i ++ [sent memory obj] := by
        have hIndex : i < (variants.set i (sent memory obj)).length := by
          rw [List.length_set]
          omega
        rw [List.take_succ_eq_append_getElem hIndex, List.take_set_of_le le_rfl, List.getElem_set_self]
      rw [hArray, hTake, List.append_assoc, List.singleton_append]
    · refine List.Forall₂.cons (hReads after hAfter) (hNews.imp ?_)
      intro w v hw
      exact hw.mono memory hFilled.length_le le_rfl fun p _ _ => rfl

/-- The loop over the members of a map. -/
theorem setMembers_eq {members : List (DartString × Value δ)}
    (hPass : ∀ m ∈ members, Passes memory abi m.2) (hKeys : ∀ m ∈ members, NulFree m.1)
    {heap : Heap abi δ} {o : Nat} {entries : List (String × Variant abi δ)}
    (ho : heap[o]? = some (.map entries)) :
    ∃ after news, setMembers memory heap o members = some after ∧ Filled o heap after ∧
      after[o]? = some (.map ((((members.map fun m => toNativeUtf8 m.1).zip news).foldl
        (fun entries e => OrderedMap.insert e.1 e.2 entries) entries))) ∧
      List.Forall₂ (fun w m => ReadsBack memory heap.length after w m.2) news members := by
  induction members generalizing heap entries with
  | nil => exact ⟨heap, [], rfl, Filled.refl o heap, ho, List.Forall₂.nil⟩
  | cons m members ih =>
    obtain ⟨key, value⟩ := m
    have hLt : o < heap.length := (List.getElem?_eq_some_iff.mp ho).1
    obtain ⟨mid, obj, hAllocate, hMid, hFilled, hSet, hReads⟩ :=
      (hPass (key, value) List.mem_cons_self).put memory hLt fun w =>
        .map (OrderedMap.insert (toNativeUtf8 key) w entries)
    rw [ho] at hMid
    obtain ⟨after, news, hRest, hAfter, hMap, hNews⟩ :=
      ih (fun m hm => hPass m (List.mem_cons_of_mem _ hm))
        (fun m hm => hKeys m (List.mem_cons_of_mem _ hm)) hSet
    have hCall := call_setKey memory hMid (hKeys (key, value) List.mem_cons_self) obj
    refine ⟨after, sent memory obj :: news, ?_, hFilled.trans hAfter, hMap, ?_⟩
    · rw [setMembers, hAllocate]
      simp only [Option.bind_eq_bind, Option.bind_some, hCall, hRest]
    · refine List.Forall₂.cons (hReads after hAfter) (hNews.imp ?_)
      intro w m hw
      exact hw.mono memory hFilled.length_le le_rfl fun p _ _ => rfl

/-! ## Reading -/

theorem equalsElements_iff {later : Heap abi δ} {o i : Nat} {variants news : List (Variant abi δ)}
    {values : List (Value δ)} (ho : later[o]? = some (.array variants))
    (hLength : variants.length < 2 ^ (abi.long - 1)) (hNews : variants.drop i = news)
    (h : List.Forall₂ (fun w value =>
      (Equals memory later (received memory later w) value ↔ value.Fits abi)) news values) :
    EqualsElements memory later o i values ↔ ∀ value ∈ values, value.Fits abi := by
  induction h generalizing i with
  | nil => simp [EqualsElements]
  | @cons w value news values hHead hTail ih =>
    have hIndex : i < variants.length := by
      by_contra hLe
      rw [List.drop_eq_nil_of_le (not_lt.mp hLe)] at hNews
      cases hNews
    rw [List.drop_eq_getElem_cons hIndex, List.cons.injEq] at hNews
    have hGet : getAt memory later o i = some (received memory later w) := by
      rw [getAt_eq memory ho (hIndex.trans hLength), List.getElem?_eq_getElem hIndex, hNews.1]
      rfl
    rw [EqualsElements, hGet, ih hNews.2, List.forall_mem_cons]
    simp only [Option.some.injEq, exists_eq_left', hHead]

theorem equalsMembers_iff {later : Heap abi δ} {o : Nat} {entries : List (String × Variant abi δ)}
    {news : List (Variant abi δ)} {members : List (DartString × Value δ)}
    (ho : later[o]? = some (.map entries)) (hKeys : ∀ m ∈ members, NulFree m.1)
    (h : List.Forall₂ (fun w m => entries.lookup (toNativeUtf8 m.1) = some w ∧
      (Equals memory later (received memory later w) m.2 ↔ m.2.Fits abi)) news members) :
    EqualsMembers memory later o members ↔ ∀ m ∈ members, m.2.Fits abi := by
  induction h with
  | nil => simp [EqualsMembers]
  | @cons w m news members hHead hTail ih =>
    obtain ⟨key, value⟩ := m
    have hGet : getKey memory later o key = some (received memory later w) := by
      rw [getKey_eq memory ho (hKeys (key, value) List.mem_cons_self), hHead.1]
      rfl
    rw [EqualsMembers, hGet, ih fun m hm => hKeys m (List.mem_cons_of_mem _ hm), List.forall_mem_cons]
    simp only [Option.some.injEq, exists_eq_left', hHead.2]

theorem nodup_texts {keys : List DartString} (hNodup : keys.Nodup)
    (hUtf8 : ∀ key ∈ keys, Utf8Text key) : (keys.map toNativeUtf8).Nodup := by
  refine List.Nodup.map_on ?_ hNodup
  intro a ha b hb hEq
  have hDecode := congrArg String.toList hEq
  rw [toNativeUtf8, toNativeUtf8, String.toList_ofList, String.toList_ofList] at hDecode
  rw [← Utf16.encode_decode (hUtf8 a ha).1, hDecode, Utf16.encode_decode (hUtf8 b hb).1]

/-- The entries of a map that was filled with `news`. -/
def filled (members : List (DartString × Value δ)) (news : List (Variant abi δ)) :
    List (String × Variant abi δ) :=
  OrderedMap.ofPairs ((members.map fun m => toNativeUtf8 m.1).zip news)

/-- Every key has the value that was set for it. -/
theorem forall₂_filled {R : Variant abi δ → DartString × Value δ → Prop} {news : List (Variant abi δ)}
    {members : List (DartString × Value δ)} (hNodup : (members.map fun m => toNativeUtf8 m.1).Nodup)
    (h : List.Forall₂ R news members) :
    List.Forall₂ (fun w m => (filled members news).lookup (toNativeUtf8 m.1) = some w ∧ R w m)
      news members := by
  obtain ⟨hLength, hR⟩ := List.forall₂_iff_zip.mp h
  refine List.forall₂_iff_zip.mpr ⟨hLength, ?_⟩
  intro w m hMem
  refine ⟨OrderedMap.lookup_ofPairs_of_mem ?_ ?_, hR hMem⟩
  · rw [List.map_fst_zip (by simp [hLength])]
    exact hNodup
  · rw [List.zip_map_left, ← List.zip_swap, List.map_map]
    exact List.mem_map_of_mem (f := Prod.map (fun m => toNativeUtf8 m.1) id ∘ Prod.swap) hMem

/-- The keys that are read from it. -/
theorem keys_filled_iff {members : List (DartString × Value δ)} {news : List (Variant abi δ)}
    (hLength : news.length = members.length) (hKeys : ∀ m ∈ members, NulFree m.1) (k : Dynamic δ) :
    k ∈ ((filled members news).map fun e => string (toDartString (Text.cString e.1)) :
        List (Dynamic δ)) ↔
      k ∈ ((members.map Prod.fst).map roundTrip).map string := by
  have hBack : ∀ m ∈ members, toDartString (Text.cString (toNativeUtf8 m.1)) = roundTrip m.1 := by
    intro m hm
    rw [Text.cString_of_nulFree (nulFree_toNativeUtf8 (hKeys m hm)),
      toDartString_toNativeUtf8 (hKeys m hm)]
  have hTexts : ∀ text, text ∈ (filled members news).map Prod.fst ↔
      text ∈ members.map fun m => toNativeUtf8 m.1 := by
    intro text
    rw [filled, OrderedMap.mem_keys_ofPairs, List.map_fst_zip (by simp [hLength])]
  constructor
  · intro hk
    obtain ⟨e, he, rfl⟩ := List.mem_map.mp hk
    obtain ⟨m, hm, hText⟩ := List.mem_map.mp ((hTexts e.1).mp (List.mem_map_of_mem he))
    rw [← hText, hBack m hm]
    exact List.mem_map_of_mem (List.mem_map_of_mem (List.mem_map_of_mem hm))
  · intro hk
    obtain ⟨s, hs, rfl⟩ := List.mem_map.mp hk
    obtain ⟨key, hKey, rfl⟩ := List.mem_map.mp hs
    obtain ⟨m, hm, rfl⟩ := List.mem_map.mp hKey
    obtain ⟨e, he, hText⟩ := List.mem_map.mp ((hTexts _).mpr (List.mem_map_of_mem hm))
    exact List.mem_map.mpr ⟨e, he, by rw [hText, hBack m hm]⟩

theorem string_injective : Function.Injective (string : DartString → Dynamic δ) := by
  intro a b h
  cases h
  rfl

/-- The keys that are read are the keys of the map exactly if UTF-8 keeps them all. -/
theorem keys_read_iff {members : List (DartString × Value δ)} {news : List (Variant abi δ)}
    (hLength : news.length = members.length) (hKeys : ∀ m ∈ members, NulFree m.1) :
    (∀ k, k ∈ ((filled members news).map fun e => string (toDartString (Text.cString e.1)) :
        List (Dynamic δ)) ↔ k ∈ members.map fun m => string m.1) ↔
      ∀ key ∈ members.map Prod.fst, Utf8Text key := by
  rw [← keys_back_iff]
  have hMembers : (members.map fun m => (string m.1 : Dynamic δ)) =
      (members.map Prod.fst).map string := by
    rw [List.map_map]
    rfl
  rw [hMembers]
  constructor
  · intro h key
    have hKey := (keys_filled_iff hLength hKeys _).symm.trans (h (string key))
    rwa [List.mem_map_of_injective string_injective,
      List.mem_map_of_injective string_injective] at hKey
  · intro h k
    rw [keys_filled_iff hLength hKeys]
    constructor
    · intro hk
      obtain ⟨key, hKey, rfl⟩ := List.mem_map.mp hk
      exact List.mem_map_of_mem ((h key).mp hKey)
    · intro hk
      obtain ⟨key, hKey, rfl⟩ := List.mem_map.mp hk
      exact List.mem_map_of_mem ((h key).mpr hKey)

theorem received_array {later : Heap abi δ} {o : Nat} {variants : List (Variant abi δ)}
    (ho : later[o]? = some (.array variants)) :
    received memory later (sent memory (.array o)) = .array o := by
  change objectDB later o = _
  rw [objectDB, ho]

theorem received_map {later : Heap abi δ} {o : Nat} {entries : List (String × Variant abi δ)}
    (ho : later[o]? = some (.map entries)) :
    received memory later (sent memory (.gmap o)) = .gmap o := by
  change objectDB later o = _
  rw [objectDB, ho]

/-- A new object leaves the others as they are. -/
theorem unchanged_of_filled {heap after : Heap abi δ} {obj : NativeObject abi δ}
    (h : Filled heap.length (heap ++ [obj]) after) :
    heap.length ≤ after.length ∧ Unchanged 0 heap after := by
  have hLength := h.length_le
  rw [List.length_append, List.length_singleton] at hLength
  refine ⟨Nat.le_of_succ_le hLength, ?_⟩
  intro p _ hp
  rw [h.others p (by rw [List.length_append]; omega) (Nat.ne_of_lt hp), List.getElem?_append_left hp]

theorem passes_list {elements : List (Value δ)} (hPass : ∀ v ∈ elements, Passes memory abi v)
    (hLength : elements.length < 2 ^ (abi.long - 1)) : Passes memory abi (.list elements) := by
  intro heap
  have hNew : (heap ++ [.array []])[heap.length]? = some (.array [] : NativeObject abi δ) := by simp
  have hResize : (heap ++ [(.array [] : NativeObject abi δ)]).set heap.length
      (.array (resize [] elements.length)) =
        heap ++ [(.array (List.replicate elements.length .null) : NativeObject abi δ)] := by
    simp [resize]
  have hNull : (heap ++ [.array (List.replicate elements.length .null)])[heap.length]? =
      some (.array (List.replicate elements.length .null) : NativeObject abi δ) := by simp
  obtain ⟨after, news, hSet, hFilled, hArray, hNews⟩ := setElements_eq memory hPass hNull (i := 0)
    (by simp) (by simpa using hLength)
  rw [List.take_zero, List.nil_append] at hArray
  obtain ⟨hLe, hUnchanged⟩ := unchanged_of_filled hFilled
  refine ⟨after, .array heap.length, ?_, hLe, hUnchanged, ?_⟩
  · rw [allocate]
    simp only [call_resize memory hNew hLength, hResize, Option.bind_eq_bind, Option.bind_some, hSet]
    rfl
  · intro later hLater
    have ho : later[heap.length]? = some (.array news) := by
      rw [hLater heap.length le_rfl (List.getElem?_eq_some_iff.mp hArray).1, hArray]
    have hCount : news.length = elements.length := hNews.length_eq
    have hSize := length_eq memory ho (by rwa [hCount])
    rw [hCount] at hSize
    have hElements := equalsElements_iff memory ho (by rwa [hCount]) (i := 0) List.drop_zero
      (hNews.imp fun w v hw => hw later (hLater.mono (by simp)))
    rw [received_array memory ho, Equals, Value.Fits, Value.all_list, true_and]
    constructor
    · rintro ⟨o, hEq, -, hEquals⟩
      cases hEq
      exact hElements.mp hEquals
    · intro hFits
      exact ⟨heap.length, rfl, hSize, hElements.mpr hFits⟩

theorem passes_map {members : List (DartString × Value δ)}
    (hPass : ∀ m ∈ members, Passes memory abi m.2) (hNodup : (members.map Prod.fst).Nodup)
    (hLength : members.length < 2 ^ (abi.long - 1))
    (hNul : ∀ m ∈ members, NulFree m.1) : Passes memory abi (.map members) := by
  intro heap
  have hNew : (heap ++ [.map []])[heap.length]? = some (.map [] : NativeObject abi δ) := by simp
  obtain ⟨after, news, hSet, hFilled, hMap, hNews⟩ := setMembers_eq memory hPass hNul hNew
  change after[heap.length]? = some (.map (filled members news)) at hMap
  obtain ⟨hLe, hUnchanged⟩ := unchanged_of_filled hFilled
  refine ⟨after, .gmap heap.length, ?_, hLe, hUnchanged, ?_⟩
  · rw [allocate, hSet]
    rfl
  · intro later hLater
    have ho : later[heap.length]? = some (.map (filled members news)) := by
      rw [hLater heap.length le_rfl (List.getElem?_eq_some_iff.mp hMap).1, hMap]
    have hCount : news.length = members.length := hNews.length_eq
    have hEntries : (filled members news).length < 2 ^ (abi.long - 1) := by
      refine lt_of_le_of_lt (OrderedMap.length_ofPairs_le _) ?_
      simpa [hCount] using hLength
    have hKeys := keys_eq memory ho hEntries
    -- once all keys are kept, the values are where they were set
    have hMembers : (∀ key ∈ members.map Prod.fst, Utf8Text key) →
        (EqualsMembers memory later heap.length members ↔ ∀ m ∈ members, m.2.Fits abi) := by
      intro hUtf8
      have hTexts := nodup_texts hNodup hUtf8
      rw [List.map_map] at hTexts
      exact equalsMembers_iff memory ho hNul (forall₂_filled hTexts
        (hNews.imp fun w m hw => hw later (hLater.mono (by simp))))
    rw [received_map memory ho, Equals, Value.Fits, Value.all_map]
    constructor
    · rintro ⟨o, hEq, ⟨ks, hKs, hSame⟩, hEquals⟩
      cases hEq
      obtain rfl := Option.some.inj (hKeys.symm.trans hKs)
      have hUtf8 := (keys_read_iff hCount hNul).mp hSame
      exact ⟨hUtf8, (hMembers hUtf8).mp hEquals⟩
    · rintro ⟨hUtf8, hFits⟩
      exact ⟨heap.length, rfl, ⟨_, hKeys, (keys_read_iff hCount hNul).mpr hUtf8⟩,
        (hMembers hUtf8).mpr hFits⟩

/-- Every value can be sent, and is read back exactly if it fits. -/
theorem passes {value : Value δ} (hValid : value.Valid abi) : Passes memory abi value := by
  induction value using Value.induction with
  | scalar a =>
    intro heap
    refine ⟨heap, .scalar a, by rw [allocate], le_rfl, fun _ _ _ => rfl, ?_⟩
    intro later hLater
    have hBack : (Dynamic.scalar (a.back abi) = .scalar a) ↔ a.Fits abi := by
      rw [Dynamic.scalar.injEq, back_eq_iff]
    rw [received_sent_scalar memory later hValid, Equals, hBack]
    exact Iff.rfl
  | list elements ih =>
    obtain ⟨hLength, hElements⟩ := Value.all_list.mp hValid
    exact passes_list memory (fun v hv => ih v hv (hElements v hv)) hLength
  | map members ih =>
    obtain ⟨⟨hNodup, hLength, hNul⟩, hMembers⟩ := Value.all_map.mp hValid
    rw [List.length_map] at hLength
    exact passes_map memory (fun m hm => ih m hm (hMembers m hm)) hNodup hLength
      fun m hm => hNul m.1 (List.mem_map_of_mem hm)

/-- A value comes back as it was exactly if every integer in it fits into a `long` and UTF-8 keeps
every string and key in it. -/
theorem send_iff (heap : Heap abi δ) {value : Value δ} (hValid : value.Valid abi) :
    (∃ after obj, send memory heap value = some (after, obj) ∧ Equals memory after obj value) ↔
      value.Fits abi := by
  obtain ⟨after, obj, hAllocate, -, -, hReads⟩ := passes memory hValid heap
  have hSend : send memory heap value = some (after, received memory after (sent memory obj)) := by
    rw [send, hAllocate]
    rfl
  rw [← hReads after fun _ _ _ => rfl]
  constructor
  · rintro ⟨later, result, hResult, hEquals⟩
    obtain ⟨rfl, rfl⟩ := Prod.mk.inj (Option.some.inj (hSend.symm.trans hResult))
    exact hEquals
  · intro hEquals
    exact ⟨after, _, hSend, hEquals⟩

end

/-- Memory that has been cleared. -/
def cleared : NativeTarget Unit := ⟨0, 0, (), .null⟩

/-- `{"a": [5, null]}`. -/
def nested : Value Unit := .map [([97], .list [.scalar (.int 5), .scalar .null])]

theorem nested_valid (abi : Abi) : nested.Valid abi := by
  have hLimit : 2 < 2 ^ (abi.long - 1) := by cases abi <;> decide
  refine Value.all_map.mpr ⟨⟨by decide, lt_trans (by decide) hLimit, ?_⟩, ?_⟩
  · intro key hKey
    rw [List.mem_singleton.mp hKey, NulFree]
    decide
  · intro m hm
    rw [List.mem_singleton.mp hm]
    refine Value.all_list.mpr ⟨hLimit, ?_⟩
    intro value hValue
    rcases List.mem_cons.mp hValue with rfl | hValue
    · exact trivial
    · rw [List.mem_singleton.mp hValue]
      exact trivial

theorem nested_fits (abi : Abi) : nested.Fits abi := by
  refine Value.all_map.mpr ⟨?_, ?_⟩
  · intro key hKey
    rw [List.mem_singleton.mp hKey]
    refine ⟨?_, by decide⟩
    change ¬ (Utf16.High 97 ∨ Utf16.Low 97)
    decide
  · intro m hm
    rw [List.mem_singleton.mp hm]
    refine Value.all_list.mpr ⟨trivial, ?_⟩
    intro value hValue
    rcases List.mem_cons.mp hValue with rfl | hValue
    · change abi.Fits 5
      cases abi <;> exact ⟨by decide, by decide⟩
    · rw [List.mem_singleton.mp hValue]
      exact trivial

theorem send_nested : ∃ after obj, send cleared ([] : Heap .ilp32 Unit) nested = some (after, obj) ∧
    Equals cleared after obj nested :=
  (send_iff cleared [] (nested_valid .ilp32)).mpr (nested_fits .ilp32)

/-- 2^31 comes back negative where `long` has 32 bits. -/
theorem send_truncates :
    Value.Valid .ilp32 (.scalar (.int 2147483648) : Value Unit) ∧
      send cleared ([] : Heap .ilp32 Unit) (.scalar (.int 2147483648)) =
        some ([], .scalar (.int (-2147483648))) ∧
      ¬ Equals cleared ([] : Heap .ilp32 Unit) (.scalar (.int (-2147483648)))
        (.scalar (.int 2147483648)) := by
  refine ⟨trivial, ?_, ?_⟩
  · have hNarrow : narrow .ilp32 2147483648 = -2147483648 := by decide
    rw [← hNarrow]
    rfl
  · intro hEquals
    rw [Equals] at hEquals
    injection hEquals with hScalar
    injection hScalar with hInt
    exact absurd hInt (by decide)

end RetroConfig.Bridge
