import RetroConfig.Library.CString
import RetroConfig.Library.OrderedMap
import RetroConfig.Library.Utf16
import Mathlib.Data.Int.Init

/-!
# The bridge between Dart and native code

`_toNative` and `_convertArgv` (`lib/core/core.dart`) write and read a `NativeTarget` on the Dart side,
`dart_toVariant` and `dart_toDart` (`script/dart/DartScript.cpp`) on the native side, where a value is
a `Variant` (`core/Variant.h`). A list or a map of Dart becomes a native array or map, which is filled
by calls that pass their arguments over the bridge as well (`lib/core/array.dart`,
`lib/core/gmap.dart`). `send` is a value on its way there and back, and `Equals` compares what comes
back with the value, reading arrays as lists and maps as maps.

Floating-point numbers are an arbitrary type. Functions and raw pointers, which `_toNative` takes as
well, and the freeing of memory are left out.
-/

namespace RetroConfig.Bridge

variable {δ : Type}

/-- The ABIs of the plugin: `long` has 32 bits or 64. -/
inductive Abi where
  | ilp32
  | lp64

def Abi.long : Abi → Nat
  | .ilp32 => 32
  | .lp64 => 64

/-- A string of Dart: UTF-16 code units. -/
abbrev DartString := List UInt16

/-- A value of Dart that is not made of others. -/
inductive Scalar (δ : Type) where
  | null
  | boolean (b : Bool)
  | int (n : Int64)
  | double (d : δ)
  | string (s : DartString)

/-- A value of Dart; a map has its members in the order of `forEach`. -/
inductive Value (δ : Type) where
  | scalar (a : Scalar δ)
  | list (elements : List (Value δ))
  | map (members : List (DartString × Value δ))

/-- What passes over the bridge: scalars, and the objects `Array` and `GMap` of Dart that stand for a
native object. -/
inductive Dynamic (δ : Type) where
  | scalar (a : Scalar δ)
  | array (o : Nat)
  | gmap (o : Nat)

/-- A pointer to characters stands for the characters, one to a `DartInstance` for its target: all
instances of one object are the same here. -/
inductive Pointer where
  | null
  | chars (text : String)
  | inst (o : Nat)

structure NativeTarget (δ : Type) where
  type : Nat
  intValue : BitVec 64
  doubleValue : δ
  pointerValue : Pointer

namespace Dart

/-! The constants of `lib/core/binds.dart`. -/

@[match_pattern] abbrev typeNull : Nat := 0
@[match_pattern] abbrev typeInt : Nat := 1
@[match_pattern] abbrev typeDouble : Nat := 2
@[match_pattern] abbrev typeObject : Nat := 3
@[match_pattern] abbrev typeString : Nat := 4
@[match_pattern] abbrev typeBoolean : Nat := 5

end Dart

namespace Native

/-! The enumeration `NativeType` of `DartScript.cpp`. -/

@[match_pattern] abbrev typeNull : Nat := 0
@[match_pattern] abbrev typeInt : Nat := 1
@[match_pattern] abbrev typeDouble : Nat := 2
@[match_pattern] abbrev typeObject : Nat := 3
@[match_pattern] abbrev typeString : Nat := 4
@[match_pattern] abbrev typeBoolean : Nat := 5

end Native

/-- `toNativeUtf8`: a surrogate without its partner is replaced. -/
def toNativeUtf8 (s : DartString) : String := String.ofList (Utf16.decode s)

/-- `utf8.decode` discards a byte order mark at the beginning. -/
def discardMark : List Char → List Char
  | [] => []
  | c :: cs => if c = '\uFEFF' then cs else c :: cs

/-- `toDartString`, which reads up to the first NUL. -/
def toDartString (text : String) : DartString :=
  Utf16.encode (discardMark (Text.cString text).toList)

/-! ## The four tables -/

/-- `_toNative`, for what need not be made a native object before. -/
def toNative (obj : Dynamic δ) (nt : NativeTarget δ) : NativeTarget δ :=
  match obj with
  | .scalar (.int n) => { nt with type := Dart.typeInt, intValue := n.toBitVec }
  | .scalar (.double d) => { nt with type := Dart.typeDouble, doubleValue := d }
  | .scalar (.boolean b) => { nt with type := Dart.typeBoolean, intValue := if b then 1 else 0 }
  | .array o => { nt with type := Dart.typeObject, pointerValue := .inst o }
  | .gmap o => { nt with type := Dart.typeObject, pointerValue := .inst o }
  | .scalar (.string s) =>
    { nt with type := Dart.typeString, pointerValue := .chars (toNativeUtf8 s) }
  | .scalar .null => { nt with type := Dart.typeNull }

/-- What a `Variant` holds. The members `v_long` and `v_longlong` of its union are both a `long`, and
strings are objects of their own that nothing changes. -/
inductive Variant (abi : Abi) (δ : Type) where
  | null
  | bool (b : Bool)
  | integer (n : BitVec abi.long)
  | double (d : δ)
  | string (text : String)
  | reference (o : Nat)

variable {abi : Abi}

/-- `dart_toVariant`. -/
def toVariant (target : NativeTarget δ) : Variant abi δ :=
  match target.type with
  | Native.typeInt => .integer (target.intValue.setWidth abi.long)
  | Native.typeDouble => .double target.doubleValue
  | Native.typeObject =>
    match target.pointerValue with
    | .inst o => .reference o
    | _ => .null
  | Native.typeString =>
    match target.pointerValue with
    | .chars text => .string (Text.cString text)
    | _ => .null
  | Native.typeBoolean => .bool (target.intValue != 0)
  | _ => .null

/-- `dart_toDart`. A `bool` is read as `v_pointer`, which its constructor has cleared, and a `long` is
widened with its sign. -/
def toDart (variant : Variant abi δ) (target : NativeTarget δ) : NativeTarget δ :=
  match variant with
  | .bool b => { target with type := Native.typeBoolean, intValue := if b then 1 else 0 }
  | .integer n => { target with type := Native.typeInt, intValue := n.signExtend 64 }
  | .double d => { target with type := Native.typeDouble, doubleValue := d }
  | .string text =>
    { target with type := Native.typeString, pointerValue := .chars (Text.cString text) }
  | .reference o => { target with type := Native.typeObject, pointerValue := .inst o }
  | .null => { target with type := Native.typeNull }

/-- `gc::_Array` and `gc::_Map`. -/
inductive NativeObject (abi : Abi) (δ : Type) where
  | array (variants : List (Variant abi δ))
  | map (entries : List (String × Variant abi δ))

/-- The native objects. -/
abbrev Heap (abi : Abi) (δ : Type) := List (NativeObject abi δ)

/-- `_objectDB`: the class of the Dart object is registered for the class of the native one. -/
def objectDB (heap : Heap abi δ) (o : Nat) : Dynamic δ :=
  match heap[o]? with
  | some (.array _) => .array o
  | some (.map _) => .gmap o
  | none => .scalar .null

/-- `_convertArgv`, for one target. -/
def convert (heap : Heap abi δ) (target : NativeTarget δ) : Dynamic δ :=
  match target.type with
  | Dart.typeInt => .scalar (.int (Int64.ofBitVec target.intValue))
  | Dart.typeDouble => .scalar (.double target.doubleValue)
  | Dart.typeObject =>
    match target.pointerValue with
    | .inst o => objectDB heap o
    | _ => .scalar .null
  | Dart.typeString =>
    match target.pointerValue with
    | .chars text => .scalar (.string (toDartString text))
    | _ => .scalar .null
  | Dart.typeBoolean => .scalar (.boolean (target.intValue != 0))
  | _ => .scalar .null

/-! ## Calls -/

/-- The methods of native arrays and maps that are called. -/
inductive Method where
  | size
  | resize
  | get
  | set
  | keys

/-- `vector::resize`. -/
def resize (variants : List (Variant abi δ)) (n : Nat) : List (Variant abi δ) :=
  variants.take n ++ List.replicate (n - variants.length) .null

/-- A call of a method: indices are compared with sizes as unsigned numbers, and a vector cannot have
a negative size. -/
def invoke (heap : Heap abi δ) (o : Nat) (method : Method) (args : List (Variant abi δ)) :
    Option (Heap abi δ × Variant abi δ) :=
  match heap[o]?, method, args with
  | some (.array variants), .size, [] => some (heap, .integer (BitVec.ofNat _ variants.length))
  | some (.array variants), .resize, [.integer n] =>
    if n.msb then none else some (heap.set o (.array (resize variants n.toNat)), .null)
  | some (.array variants), .get, [.integer n] => some (heap, variants[n.toNat]?.getD .null)
  | some (.array variants), .set, [.integer n, variant] =>
    some (heap.set o (.array (variants.set n.toNat variant)), .null)
  | some (.map entries), .get, [.string key] => some (heap, (entries.lookup key).getD .null)
  | some (.map entries), .set, [.string key, variant] =>
    some (heap.set o (.map (OrderedMap.insert key variant entries)), .null)
  | some (.map entries), .keys, [] =>
    some (heap ++ [.array (entries.map fun e => .string e.1)], .reference heap.length)
  | _, _, _ => none

section

-- what the memory of a target holds before it is written
variable (memory : NativeTarget δ)

/-- A value on its way to native code. -/
def sent (obj : Dynamic δ) : Variant abi δ := toVariant (toNative obj memory)

/-- A value on its way back. -/
def received (heap : Heap abi δ) (variant : Variant abi δ) : Dynamic δ :=
  convert heap (toDart variant { memory with type := Native.typeNull })

/-- `Base.call`. -/
def call (heap : Heap abi δ) (o : Nat) (method : Method) (argv : List (Dynamic δ)) :
    Option (Heap abi δ × Dynamic δ) := do
  let (heap, result) ← invoke heap o method (argv.map (sent memory))
  return (heap, received memory heap result)

def int (n : Nat) : Dynamic δ := .scalar (.int (Int64.ofNat n))

def string (s : DartString) : Dynamic δ := .scalar (.string s)

mutual

/-- `Array.allocate` and `GMap.allocate`, for a list or a map. -/
def allocate (heap : Heap abi δ) : Value δ → Option (Heap abi δ × Dynamic δ)
  | .scalar a => some (heap, .scalar a)
  | .list elements => do
    let o := heap.length
    let (heap, _) ← call memory (heap ++ [.array []]) o .resize [int elements.length]
    let heap ← setElements heap o 0 elements
    return (heap, .array o)
  | .map members => do
    let o := heap.length
    let heap ← setMembers (heap ++ [.map []]) o members
    return (heap, .gmap o)

/-- `this[i] = list[i]`, from `i` on. -/
def setElements (heap : Heap abi δ) (o i : Nat) : List (Value δ) → Option (Heap abi δ)
  | [] => some heap
  | value :: values => do
    let (heap, obj) ← allocate heap value
    let (heap, _) ← call memory heap o .set [int i, obj]
    setElements heap o (i + 1) values

/-- `this[k] = v`, for the members of a map. -/
def setMembers (heap : Heap abi δ) (o : Nat) : List (DartString × Value δ) → Option (Heap abi δ)
  | [] => some heap
  | (key, value) :: members => do
    let (heap, obj) ← allocate heap value
    let (heap, _) ← call memory heap o .set [string key, obj]
    setMembers heap o members

end

/-- There and back. -/
def send (heap : Heap abi δ) (value : Value δ) : Option (Heap abi δ × Dynamic δ) := do
  let (heap, obj) ← allocate memory heap value
  return (heap, received memory heap (sent memory obj))

/-! ## Reading what comes back -/

/-- `Array.length`. -/
def length (heap : Heap abi δ) (o : Nat) : Option (Dynamic δ) :=
  (call memory heap o .size []).map Prod.snd

/-- `operator []` of `Array`. -/
def getAt (heap : Heap abi δ) (o i : Nat) : Option (Dynamic δ) :=
  (call memory heap o .get [int i]).map Prod.snd

/-- `operator []` of `GMap`. -/
def getKey (heap : Heap abi δ) (o : Nat) (key : DartString) : Option (Dynamic δ) :=
  (call memory heap o .get [string key]).map Prod.snd

/-- `GMap.keys`. -/
def keys (heap : Heap abi δ) (o : Nat) : Option (List (Dynamic δ)) := do
  let (heap, obj) ← call memory heap o .keys []
  match obj with
  | .array k =>
    match length memory heap k with
    | some (.scalar (.int n)) => (List.range n.toNatClampNeg).mapM (getAt memory heap k)
    | _ => none
  | _ => none

mutual

/-- What has come back is the value. -/
def Equals (heap : Heap abi δ) (obj : Dynamic δ) : Value δ → Prop
  | .scalar a => obj = .scalar a
  | .list elements => ∃ o, obj = .array o ∧ length memory heap o = some (int elements.length) ∧
      EqualsElements heap o 0 elements
  | .map members => ∃ o, obj = .gmap o ∧
      (∃ ks, keys memory heap o = some ks ∧ ∀ k, k ∈ ks ↔ k ∈ members.map fun m => string m.1) ∧
      EqualsMembers heap o members

def EqualsElements (heap : Heap abi δ) (o i : Nat) : List (Value δ) → Prop
  | [] => True
  | value :: values => (∃ obj, getAt memory heap o i = some obj ∧ Equals heap obj value) ∧
      EqualsElements heap o (i + 1) values

def EqualsMembers (heap : Heap abi δ) (o : Nat) : List (DartString × Value δ) → Prop
  | [] => True
  | (key, value) :: members => (∃ obj, getKey memory heap o key = some obj ∧ Equals heap obj value) ∧
      EqualsMembers heap o members

end

end

end RetroConfig.Bridge
