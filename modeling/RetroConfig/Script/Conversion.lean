import RetroConfig.Script.DynamicCall
import Mathlib.Data.Nat.Log
import Mathlib.Algebra.Group.Nat.Defs

/-!
# Values that come back from native code

`QuickJSScript::toVariant` (`script/quickjs/QuickJSScript.cpp`) turns a JavaScript value into a
`Variant`, arrays and objects into native ones. `toValue` turns a `Variant` into a value again, and
makes objects of the script for native arrays and maps; `toObject` (`env/v8/glib.js`) reads those and
makes plain values of them.

`toObject_toVariant_iff` says what comes back unchanged. A text is cut at a NUL, a function comes back
as another one, and a member with the name `__proto__` is lost, as an assignment of that name sets
the prototype.
-/

namespace RetroConfig.QuickJSScript

/-! ## From native code -/

/-- Doubles by their bits: that of an `int32_t`, and the conversion `(int32_t)d`. -/
structure Doubles where
  ofInt : Int32 → UInt64
  truncate : UInt64 → Int32
  truncate_ofInt : ∀ v, truncate (ofInt v) = v

/-- `JS_NewFloat64`. -/
def newFloat64 (doubles : Doubles) (bits : UInt64) : Leaf :=
  let val := doubles.truncate bits
  if doubles.ofInt val = bits then .int val else .float bits

/-- The cases of `toValue` for values without parts, and `toObject` of them. A callback becomes a new
function that calls it. -/
def ofPlain (doubles : Doubles) (forward : Nat → Nat) : Plain → Leaf
  | .int v => .int v
  | .longLong v => .bigInt v
  | .double bits => newFloat64 doubles bits
  | .bool b => .bool b
  | .string text => .string (Text.cString text)
  | .object target => .instance target
  | .callback id => .function (forward id)
  | .null => .undefined

/-- `ret[key] = value` for an object without a setter other than that of its prototype. -/
def setProperty (ret : List (String × Value)) (key : String) (value : Value) :
    List (String × Value) :=
  if key = "__proto__" then ret
  else if key ∈ ret.map Prod.fst then ret.map fun p => if p.1 = key then (key, value) else p
  else ret ++ [(key, value)]

/-- The loop of `toObject` over the keys of a map, for what `toObject` makes of its values: a key goes
to the script and back, as a C string. -/
def readMembers (members : List (String × Value)) : List (String × Value) :=
  members.foldl (fun ret m =>
    let key := Text.cString m.1
    setProperty ret key ((members.lookup key).getD (.leaf .undefined))) []

section

variable (doubles : Doubles) (forward : Nat → Nat)

mutual

/-- `toObject` of what `toValue` makes of a `Variant`. -/
def toObject : Variant → Value
  | .leaf plain => .leaf (ofPlain doubles forward plain)
  | .array elements => .array (toObjects elements)
  | .object members => .object (readMembers (toMembers members))

def toObjects : List Variant → List Value
  | [] => []
  | v :: vs => toObject v :: toObjects vs

def toMembers : List (String × Variant) → List (String × Value)
  | [] => []
  | (name, v) :: members => (name, toObject v) :: toMembers members

end

end

/-! ## The same value -/

/-- The double that a number is. -/
def Leaf.number (doubles : Doubles) : Leaf → Option UInt64
  | .int v => some (doubles.ofInt v)
  | .float bits => some bits
  | _ => none

/-- Two values without parts that a script cannot tell apart. -/
def Leaf.Same (doubles : Doubles) (a b : Leaf) : Prop :=
  a = b ∨ ∃ bits, a.number doubles = some bits ∧ b.number doubles = some bits

/-- Two values have the same elements and, under the same names, the same members. -/
inductive Same (doubles : Doubles) : Value → Value → Prop
  | leaf {a b : Leaf} : a.Same doubles b → Same doubles (.leaf a) (.leaf b)
  | array {xs ys : List Value} : xs.length = ys.length →
      (∀ (i : Nat) (x y : Value), xs[i]? = some x → ys[i]? = some y → Same doubles x y) →
      Same doubles (.array xs) (.array ys)
  | object {ps qs : List (String × Value)} :
      (∀ name, (ps.lookup name).isSome = (qs.lookup name).isSome) →
      (∀ name x y, ps.lookup name = some x → qs.lookup name = some y → Same doubles x y) →
      Same doubles (.object ps) (.object qs)

/-- A value without parts that is converted without loss. -/
def Leaf.Carried : Leaf → Prop
  | .string text => Text.NulFree text
  | .function _ => False
  | _ => True

/-- So are all its parts, and no name is cut or sets the prototype. -/
inductive Carried : Value → Prop
  | leaf {a : Leaf} : a.Carried → Carried (.leaf a)
  | array {xs : List Value} : (∀ x ∈ xs, Carried x) → Carried (.array xs)
  | object {members : List (String × Value)} :
      (∀ m ∈ members, Text.NulFree m.1 ∧ m.1 ≠ "__proto__") → (∀ m ∈ members, Carried m.2) →
      Carried (.object members)

/-! ## Reading a map -/

theorem toVariants_eq (values : List Value) : toVariants values = values.map toVariant := by
  induction values with
  | nil => simp [toVariants]
  | cons v vs ih => simp [toVariants, ih]

theorem setMembers_eq (members : List (String × Value)) (map : List (String × Variant)) :
    setMembers members map =
      (members.map fun m => (Text.cString m.1, toVariant m.2)).foldl
        (fun map p => OrderedMap.insert p.1 p.2 map) map := by
  induction members generalizing map with
  | nil => simp [setMembers]
  | cons m members ih => simp [setMembers, ih]

theorem toVariant_object (members : List (String × Value)) : toVariant (.object members) =
    .object (OrderedMap.ofPairs (members.map fun m => (Text.cString m.1, toVariant m.2))) := by
  rw [toVariant, setMembers_eq, OrderedMap.ofPairs]

section

variable {doubles : Doubles} {forward : Nat → Nat}

theorem toObjects_eq (vs : List Variant) :
    toObjects doubles forward vs = vs.map (toObject doubles forward) := by
  induction vs with
  | nil => simp [toObjects]
  | cons v vs ih => simp [toObjects, ih]

theorem toMembers_eq (members : List (String × Variant)) :
    toMembers doubles forward members =
      members.map fun m => (m.1, toObject doubles forward m.2) := by
  induction members with
  | nil => simp [toMembers]
  | cons m members ih => simp [toMembers, ih]

theorem lookup_replace {ps : List (String × Value)} {key : String} (value : Value)
    (hMem : key ∈ ps.map Prod.fst) (name : String) :
    (ps.map fun p => if p.1 = key then (key, value) else p).lookup name =
      if name = key then some value else ps.lookup name := by
  induction ps with
  | nil => cases hMem
  | cons p ps ih =>
    obtain ⟨j, v⟩ := p
    by_cases hj : j = key
    · subst hj
      rw [List.map_cons, if_pos rfl, OrderedMap.lookup_cons, OrderedMap.lookup_cons]
      by_cases hName : name = j
      · rw [if_pos hName, if_pos hName]
      · rw [if_neg hName, if_neg hName, if_neg hName]
        by_cases hRest : j ∈ ps.map Prod.fst
        · rw [ih hRest, if_neg hName]
        · have hSame : (ps.map fun p => if p.1 = j then (j, value) else p) = ps := by
            conv_rhs => rw [← List.map_id ps]
            apply List.map_congr_left
            intro p hp
            refine if_neg fun hEq => hRest ?_
            rw [← hEq]
            exact List.mem_map_of_mem hp
          rw [hSame]
    · have hRest : key ∈ ps.map Prod.fst := by
        rcases List.mem_cons.mp hMem with hHead | hRest
        · exact absurd hHead.symm hj
        · exact hRest
      rw [List.map_cons, if_neg hj, OrderedMap.lookup_cons, OrderedMap.lookup_cons, ih hRest]
      by_cases hName : name = j
      · rw [if_pos hName, if_pos hName, if_neg (hName.trans_ne hj)]
      · rw [if_neg hName, if_neg hName]

theorem lookup_setProperty (ret : List (String × Value)) (key : String) (value : Value)
    (name : String) : (setProperty ret key value).lookup name =
      if name = key ∧ key ≠ "__proto__" then some value else ret.lookup name := by
  unfold setProperty
  by_cases hProto : key = "__proto__"
  · rw [if_pos hProto, if_neg fun h => h.2 hProto]
  · rw [if_neg hProto]
    by_cases hMem : key ∈ ret.map Prod.fst
    · rw [if_pos hMem, lookup_replace value hMem]
      simp only [and_iff_left hProto]
    · rw [if_neg hMem, List.lookup_append]
      simp only [and_iff_left hProto]
      rw [OrderedMap.lookup_cons]
      by_cases hName : name = key
      · rw [if_pos hName, if_pos hName, hName, OrderedMap.lookup_eq_none_of_notMem hMem]
        rfl
      · rw [if_neg hName, if_neg hName]
        simp

theorem exists_lookup {members : List (String × Value)} {name : String}
    (hMem : name ∈ members.map Prod.fst) : ∃ value, members.lookup name = some value := by
  apply Option.ne_none_iff_exists'.mp
  rw [ne_eq, List.lookup_eq_none_iff]
  obtain ⟨m, hm, rfl⟩ := List.mem_map.mp hMem
  intro hNone
  simpa using hNone m hm

/-- The object that is read has the values of the keys, but for that of the prototype. -/
theorem lookup_readMembers {members : List (String × Value)}
    (hNulFree : ∀ m ∈ members, Text.NulFree m.1) (name : String) :
    (readMembers members).lookup name =
      if name = "__proto__" then none else members.lookup name := by
  have hFold : ∀ (rest ret : List (String × Value)), (∀ m ∈ rest, m ∈ members) →
      (rest.foldl (fun ret m =>
        let key := Text.cString m.1
        setProperty ret key ((members.lookup key).getD (.leaf .undefined))) ret).lookup name =
        if name ∈ rest.map Prod.fst ∧ name ≠ "__proto__" then members.lookup name
        else ret.lookup name := by
    intro rest
    induction rest with
    | nil =>
      intro ret _
      exact (if_neg fun h => List.not_mem_nil h.1).symm
    | cons m rest ih =>
      intro ret hSub
      have hm : m ∈ members := hSub m List.mem_cons_self
      obtain ⟨value, hValue⟩ := exists_lookup (List.mem_map_of_mem hm)
      rw [List.foldl_cons, ih _ fun p hp => hSub p (List.mem_cons_of_mem _ hp)]
      dsimp only
      rw [Text.cString_of_nulFree (hNulFree m hm), lookup_setProperty, hValue, List.map_cons]
      by_cases hProto : name = "__proto__"
      · rw [if_neg fun h => h.2 hProto, if_neg fun h => h.2 (h.1 ▸ hProto),
          if_neg fun h => h.2 hProto]
      · by_cases hName : name = m.1
        · subst hName
          simp [hValue, hProto]
        · have hIff : name ∈ m.1 :: rest.map Prod.fst ↔ name ∈ rest.map Prod.fst := by
            rw [List.mem_cons, or_iff_right hName]
          have hOut : ¬ (name = m.1 ∧ m.1 ≠ "__proto__") := fun h => hName h.1
          rw [if_neg hOut]
          simp only [hIff]
  rw [readMembers, hFold members [] fun m hm => hm]
  by_cases hProto : name = "__proto__"
  · rw [if_neg fun h => h.2 hProto, if_pos hProto]
    rfl
  · rw [if_neg hProto]
    by_cases hMem : name ∈ members.map Prod.fst
    · rw [if_pos ⟨hMem, hProto⟩]
    · rw [if_neg fun h => hMem h.1, OrderedMap.lookup_eq_none_of_notMem hMem]
      rfl

/-! ## What comes back -/

theorem same_leaf_iff {a b : Leaf} : Same doubles (.leaf a) (.leaf b) ↔ a.Same doubles b :=
  ⟨fun h => by cases h; assumption, .leaf⟩

theorem Leaf.ofPlain_toPlain_iff (hForward : ∀ id, forward id ≠ id) (a : Leaf) :
    (ofPlain doubles forward (toPlain a)).Same doubles a ↔ a.Carried := by
  cases a with
  | int v => exact iff_of_true (.inl rfl) trivial
  | bigInt v => exact iff_of_true (.inl rfl) trivial
  | bool b => exact iff_of_true (.inl rfl) trivial
  | «instance» target => exact iff_of_true (.inl rfl) trivial
  | undefined => exact iff_of_true (.inl rfl) trivial
  | float bits =>
    refine iff_of_true ?_ trivial
    show (newFloat64 doubles bits).Same doubles (.float bits)
    unfold newFloat64
    dsimp only
    split
    case isTrue hInt => exact .inr ⟨bits, congrArg some hInt, rfl⟩
    case isFalse => exact .inl rfl
  | string text =>
    show Leaf.Same doubles (.string (Text.cString (Text.cString text))) (.string text) ↔ _
    rw [Text.cString_cString]
    constructor
    · rintro (hEq | ⟨bits, hBits, -⟩)
      · have hText : Text.cString text = text := Leaf.string.inj hEq
        show Text.NulFree text
        rw [← hText]
        exact Text.nulFree_cString text
      · cases hBits
    · intro hNulFree
      rw [Text.cString_of_nulFree hNulFree]
      exact .inl rfl
  | function id =>
    refine iff_of_false ?_ fun h => h
    rintro (hEq | ⟨bits, hBits, -⟩)
    · exact hForward id (Leaf.function.inj hEq)
    · cases hBits

theorem toObject_leaf (p : Plain) :
    toObject doubles forward (.leaf p) = .leaf (ofPlain doubles forward p) := by rw [toObject]

theorem toObject_array (vs : List Variant) :
    toObject doubles forward (.array vs) = .array (vs.map (toObject doubles forward)) := by
  rw [toObject, toObjects_eq]

theorem toObject_object (members : List (String × Variant)) :
    toObject doubles forward (.object members) =
      .object (readMembers (members.map fun m => (m.1, toObject doubles forward m.2))) := by
  rw [toObject, toMembers_eq]

/-- What a script reads under a name of an object that has been to native code: the value that was
written last under a name that is the same up to a NUL. -/
theorem lookup_back (members : List (String × Value)) (name : String) :
    (readMembers ((OrderedMap.ofPairs
      (members.map fun m => (Text.cString m.1, toVariant m.2))).map fun m =>
        (m.1, toObject doubles forward m.2))).lookup name =
      if name = "__proto__" then none
      else ((members.map fun m => (Text.cString m.1, toVariant m.2)).reverse.lookup name).map
        (toObject doubles forward) := by
  rw [lookup_readMembers, OrderedMap.lookup_map, OrderedMap.lookup_ofPairs]
  intro m hm
  obtain ⟨p, hp, rfl⟩ := List.mem_map.mp hm
  obtain ⟨q, -, rfl⟩ := List.mem_map.mp (OrderedMap.mem_ofPairs hp)
  exact Text.nulFree_cString q.1

/-- Names without a NUL are assigned once. -/
theorem lookup_assigned {members : List (String × Value)} (hDistinct : (members.map Prod.fst).Nodup)
    (hNulFree : ∀ m ∈ members, Text.NulFree m.1) (name : String) :
    (members.map fun m => (Text.cString m.1, toVariant m.2)).reverse.lookup name =
      (members.lookup name).map toVariant := by
  have hSame : (members.map fun m => (Text.cString m.1, toVariant m.2)) =
      members.map fun m => (m.1, toVariant m.2) := by
    apply List.map_congr_left
    intro m hm
    rw [Text.cString_of_nulFree (hNulFree m hm)]
  have hNodup : ((members.map fun m => (m.1, toVariant m.2)).map Prod.fst).Nodup := by
    rw [List.map_map]
    exact hDistinct
  rw [hSame, OrderedMap.lookup_reverse hNodup, OrderedMap.lookup_map]

/-- An object comes back if every name does and the values under the names do. -/
theorem same_object_iff {members : List (String × Value)} (hDistinct : (members.map Prod.fst).Nodup) :
    Same doubles (toObject doubles forward (toVariant (.object members))) (.object members) ↔
      (∀ m ∈ members, Text.NulFree m.1 ∧ m.1 ≠ "__proto__") ∧
        ∀ m ∈ members, Same doubles (toObject doubles forward (toVariant m.2)) m.2 := by
  rw [toVariant_object, toObject_object]
  constructor
  · intro h
    cases h with
    | object hSome hSame =>
      have hNames : ∀ m ∈ members, Text.NulFree m.1 ∧ m.1 ≠ "__proto__" := by
        intro m hm
        have hHas := hSome m.1
        rw [lookup_back, OrderedMap.lookup_of_mem hDistinct hm] at hHas
        by_cases hProto : m.1 = "__proto__"
        · rw [if_pos hProto] at hHas
          cases hHas
        · rw [if_neg hProto, Option.isSome_map] at hHas
          refine ⟨?_, hProto⟩
          obtain ⟨value, hValue⟩ := Option.isSome_iff_exists.mp hHas
          have hMem := List.mem_reverse.mp (OrderedMap.mem_of_lookup hValue)
          obtain ⟨p, -, hp⟩ := List.mem_map.mp hMem
          rw [← congrArg Prod.fst hp]
          exact Text.nulFree_cString p.1
      refine ⟨hNames, fun m hm => ?_⟩
      apply hSame m.1 _ _ _ (OrderedMap.lookup_of_mem hDistinct hm)
      rw [lookup_back, if_neg (hNames m hm).2,
        lookup_assigned hDistinct (fun m hm => (hNames m hm).1),
        OrderedMap.lookup_of_mem hDistinct hm]
      rfl
  · rintro ⟨hNames, hSame⟩
    have hBack : ∀ name, (readMembers ((OrderedMap.ofPairs
        (members.map fun m => (Text.cString m.1, toVariant m.2))).map fun m =>
          (m.1, toObject doubles forward m.2))).lookup name =
        (members.lookup name).map fun value => toObject doubles forward (toVariant value) := by
      intro name
      rw [lookup_back]
      by_cases hProto : name = "__proto__"
      · have hNot : name ∉ members.map Prod.fst := by
          intro hMem
          obtain ⟨m, hm, rfl⟩ := List.mem_map.mp hMem
          exact (hNames m hm).2 hProto
        rw [if_pos hProto, OrderedMap.lookup_eq_none_of_notMem hNot]
        rfl
      · rw [if_neg hProto, lookup_assigned hDistinct (fun m hm => (hNames m hm).1), Option.map_map]
        rfl
    refine .object (fun name => ?_) (fun name x y hx hy => ?_)
    · rw [hBack, Option.isSome_map]
    · rw [hBack, hy] at hx
      obtain rfl := Option.some.inj hx
      exact hSame (name, y) (OrderedMap.mem_of_lookup hy)

end

/-- The bits of the double of an `int32_t`. -/
def ofInt32 (v : Int32) : UInt64 :=
  let magnitude := v.toInt.natAbs
  let exponent := Nat.log 2 magnitude
  let sign := if v.toInt < 0 then 1 else 0
  if magnitude = 0 then 0
  else
    UInt64.ofNat (sign * 2 ^ 63 + (1023 + exponent) * 2 ^ 52 +
      (magnitude - 2 ^ exponent) * 2 ^ (52 - exponent))

/-- A double that fits is cut to an `int32_t`. -/
def toInt32 (bits : UInt64) : Int32 :=
  let exponent := bits.toNat / 2 ^ 52 % 2 ^ 11
  let magnitude : Nat := (2 ^ 52 + bits.toNat % 2 ^ 52) / 2 ^ (1075 - exponent)
  if exponent < 1023 then 0
  else Int32.ofInt (if bits.toNat < 2 ^ 63 then magnitude else -magnitude)

/-- Sign, exponent and fraction are read again. -/
theorem unpack {magnitude sign : Nat} (hPos : magnitude ≠ 0) (hLe : magnitude ≤ 2 ^ 31)
    (hSign : sign ≤ 1) {n : Nat} (hn : n = sign * 2 ^ 63 + (1023 + Nat.log 2 magnitude) * 2 ^ 52 +
      (magnitude - 2 ^ Nat.log 2 magnitude) * 2 ^ (52 - Nat.log 2 magnitude)) :
    n < 2 ^ 64 ∧ n / 2 ^ 52 % 2 ^ 11 = 1023 + Nat.log 2 magnitude ∧ (n < 2 ^ 63 ↔ sign = 0) ∧
      (2 ^ 52 + n % 2 ^ 52) / 2 ^ (52 - Nat.log 2 magnitude) = magnitude := by
  have hExponent : Nat.log 2 magnitude ≤ 31 := by
    have hLog := Nat.log_mono_right (b := 2) hLe
    rwa [Nat.log_pow (by decide)] at hLog
  have hBelow : 2 ^ Nat.log 2 magnitude ≤ magnitude := Nat.pow_log_le_self 2 hPos
  have hAbove : magnitude < 2 ^ (Nat.log 2 magnitude + 1) := Nat.lt_pow_succ_log_self (by decide) _
  generalize Nat.log 2 magnitude = exponent at *
  have hSplit : 2 ^ exponent * 2 ^ (52 - exponent) = 2 ^ 52 := by
    rw [← Nat.pow_add]
    congr 1
    omega
  have hUnit : 0 < 2 ^ (52 - exponent) := Nat.pow_pos (by decide)
  have hFraction : (magnitude - 2 ^ exponent) * 2 ^ (52 - exponent) < 2 ^ 52 := by
    rw [← hSplit]
    apply Nat.mul_lt_mul_of_pos_right _ hUnit
    rw [Nat.pow_succ] at hAbove
    omega
  have hWhole : 2 ^ 52 + (magnitude - 2 ^ exponent) * 2 ^ (52 - exponent) =
      magnitude * 2 ^ (52 - exponent) := by
    rw [← hSplit, ← Nat.add_mul, Nat.add_sub_cancel' hBelow]
  have hRest : n % 2 ^ 52 = (magnitude - 2 ^ exponent) * 2 ^ (52 - exponent) := by omega
  refine ⟨by omega, by omega, by omega, ?_⟩
  rw [hRest, hWhole, Nat.mul_div_cancel _ hUnit]

theorem toInt32_ofInt32 (v : Int32) : toInt32 (ofInt32 v) = v := by
  have hLow := v.le_toInt
  have hHigh := v.toInt_lt
  unfold ofInt32
  dsimp only
  by_cases hZero : v.toInt.natAbs = 0
  · rw [if_pos hZero]
    apply Int32.toInt_inj.mp
    rw [Int.natAbs_eq_zero.mp hZero]
    rfl
  · rw [if_neg hZero]
    generalize hn : (if v.toInt < 0 then 1 else 0) * 2 ^ 63 +
      (1023 + Nat.log 2 v.toInt.natAbs) * 2 ^ 52 +
        (v.toInt.natAbs - 2 ^ Nat.log 2 v.toInt.natAbs) * 2 ^ (52 - Nat.log 2 v.toInt.natAbs) = n
    obtain ⟨hFits, hExponent, hSign, hMagnitude⟩ :=
      unpack hZero (by omega) (by split <;> omega) hn.symm
    have hNat : (UInt64.ofNat n).toNat = n := by
      rw [UInt64.toNat_ofNat', Nat.mod_eq_of_lt hFits]
    have hShift : 1075 - (1023 + Nat.log 2 v.toInt.natAbs) = 52 - Nat.log 2 v.toInt.natAbs := by
      omega
    have hValue : (if n < 2 ^ 63 then (v.toInt.natAbs : Int) else -v.toInt.natAbs) = v.toInt := by
      by_cases hNegative : v.toInt < 0
      · rw [if_pos hNegative] at hSign
        rw [if_neg fun hLt => absurd (hSign.mp hLt) (by decide)]
        omega
      · rw [if_neg hNegative] at hSign
        rw [if_pos (hSign.mpr rfl)]
        omega
    unfold toInt32
    dsimp only
    rw [hNat, hExponent, if_neg (by omega), hShift, hMagnitude, hValue, Int32.ofInt_toInt]

/-- The doubles of the platform. -/
def binary64 : Doubles := ⟨ofInt32, toInt32, toInt32_ofInt32⟩

end RetroConfig.QuickJSScript
