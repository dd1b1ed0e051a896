import RetroConfig.Library.JsonText

/-!
# `JSON`: between `nlohmann::json` and `Variant`

`JSON::parse` and `JSON::serialize` (`utils/JSON.cpp`) convert between the trees of
`nlohmann::json` and those of `Variant`, whose inner nodes are `Array` and `Map`. Both are one
recursion over the tree, which converts the leaves and builds the containers anew.

A `Variant` keeps an integer as a `long`. `JSON::parse` passes an unsigned integer to the
constructor of `unsigned long`, which stores it in the same `long`, so an integer from `2 ^ 63` on
comes back negative. `serialize_parse_iff` says that nothing else is lost.

A `long` has 64 bits here. The members of `u_value` that are shorter are left out. A `float` is
the decimal number it was read from, so nothing is said about a floating-point number that has
to be rounded.
-/

namespace RetroConfig

/-- What a `Variant` holds that is neither an `Array` nor a `Map`. -/
inductive Plain where
  | null
  | boolean (b : Bool)
  | long (n : Int64)
  | float (negative : Bool) (digits : Nat) (exponent : Int)
  | string (s : String)
  deriving DecidableEq

/-- `Variant`, as far as it holds plain data. -/
abbrev Variant := ValueTree Plain

namespace Variant

/-- `Variant(unsigned long)`: the number is assigned to `v_long`. -/
def ofUnsignedLong (n : UInt64) : Plain := .long n.toInt64

/-- `Variant::operator bool`. `trans_target2` has no case for a `bool` and reads it as a pointer,
which is null exactly for `false`; that of a string, an array or a map never is. -/
def toBool : Variant → Bool
  | .leaf .null => false
  | .leaf (.boolean b) => b
  | .leaf (.long n) => n != 0
  | .leaf (.float _ digits _) => digits != 0
  | .leaf (.string _) => true
  | .array _ => true
  | .object _ => true

end Variant

namespace JSON

/-- The cases of `JSON::parse` other than `object` and `array`. -/
def parseScalar : Scalar → Plain
  | .null => .null
  | .boolean b => .boolean b
  | .string s => .string s
  | .integer n => .long n
  | .unsigned n => Variant.ofUnsignedLong n
  | .float negative digits exponent => .float negative digits exponent

/-- `JSON::parse`. -/
def parse (obj : Json) : Variant := obj.map parseScalar

/-- The cases of `JSON::serialize` other than `_Map` and `_Array`. -/
def serializeScalar : Plain → Scalar
  | .null => .null
  | .boolean b => .boolean b
  | .long n => .integer n
  | .float negative digits exponent => .float negative digits exponent
  | .string s => .string s

/-- `JSON::serialize`. -/
def serialize (variant : Variant) : Json := variant.map serializeScalar

/-- The integers of a tree fit into a `long`. -/
def FitsLong (j : Json) : Prop := j.All fun a => ∀ n, a = .unsigned n → n.toNat < 2 ^ 63

theorem toInt_toInt64 (n : UInt64) :
    n.toInt64.toInt = if n.toNat < 2 ^ 63 then (n.toNat : Int) else n.toNat - 2 ^ 64 := by
  have hInt : n.toInt64.toInt = n.toBitVec.toInt := rfl
  have hNat : n.toBitVec.toNat = n.toNat := rfl
  rw [hInt, BitVec.toInt_eq_toNat_cond, hNat]
  split <;> split <;> omega

/-- What becomes of one leaf. -/
theorem reread_serializeScalar_iff (a : Scalar) (ha : a.isFloat = false) :
    Json.reread (serializeScalar (parseScalar a)) = Json.reread a ↔
      ∀ n, a = .unsigned n → n.toNat < 2 ^ 63 := by
  cases a with
  | unsigned n =>
    have hBack : Json.reread (serializeScalar (parseScalar (.unsigned n))) =
        if n.toInt64.toInt < 0 then .integer n.toInt64
        else .unsigned (UInt64.ofNat n.toInt64.toInt.natAbs) := rfl
    rw [hBack, toInt_toInt64]
    constructor
    · intro h m hm
      obtain rfl := Scalar.unsigned.inj hm
      by_contra hBig
      have hLt := n.toNat_lt
      rw [if_neg hBig, if_pos (by omega)] at h
      cases h
    · intro h
      rw [if_pos (h n rfl), if_neg (by omega), Int.natAbs_natCast, UInt64.ofNat_toNat]
      rfl
  | float negative digits exponent => cases ha
  | _ => exact iff_of_true rfl fun n hn => by cases hn

/-- `JSON::serialize` gives back what `JSON::parse` was given exactly if all integers fit. -/
theorem serialize_parse_iff (j : Json) (hWf : j.WellFormed) (hFloat : j.NoFloat) :
    Json.Same (serialize (parse j)) j ↔ FitsLong j := by
  rw [Json.Same, Json.rereadTree, Json.rereadTree, serialize, parse,
    ValueTree.map_map parseScalar serializeScalar hWf, ValueTree.map_map _ Json.reread hWf,
    ValueTree.map_eq_map_iff hWf, FitsLong]
  constructor
  · exact (hFloat.imp fun a ha => (reread_serializeScalar_iff a ha).mp).mp
  · exact (hFloat.imp fun a ha => (reread_serializeScalar_iff a ha).mpr).mp

/-- A tree whose integers fit, with an object inside of an array. -/
theorem serialize_parse_nested :
    Json.Same (serialize (parse (.array [.object [("a", .leaf (.unsigned 7))], .leaf .null])))
      (.array [.object [("a", .leaf (.unsigned 7))], .leaf .null]) := by
  refine (serialize_parse_iff _ ?_ ?_).mpr ?_
  · simp [OrderedMap.Sorted]
  · simp [Json.NoFloat, Scalar.isFloat]
  · simp only [FitsLong, ValueTree.all_array, List.mem_cons, List.not_mem_nil, or_false]
    rintro t (rfl | rfl)
    · simp only [ValueTree.all_object, List.mem_singleton]
      rintro m rfl
      rw [ValueTree.all_leaf]
      rintro n hn
      obtain rfl := Scalar.unsigned.inj hn
      decide
    · rw [ValueTree.all_leaf]
      rintro n hn
      cases hn

/-- The greatest unsigned integer comes back as `-1`. -/
theorem serialize_parse_max :
    serialize (parse (.leaf (.unsigned 18446744073709551615))) = .leaf (.integer (-1)) ∧
      ¬ Json.Same (serialize (parse (.leaf (.unsigned 18446744073709551615))))
        (.leaf (.unsigned 18446744073709551615)) := by
  have hBack : serialize (parse (.leaf (.unsigned 18446744073709551615))) =
      .leaf (.integer (-1)) := by
    rw [parse, serialize, ValueTree.map_leaf, ValueTree.map_leaf]
    rfl
  refine ⟨hBack, ?_⟩
  rw [hBack, Json.Same, Json.rereadTree, Json.rereadTree, ValueTree.map_leaf, ValueTree.map_leaf]
  exact fun h => by cases ValueTree.leaf.inj h

end JSON

end RetroConfig
