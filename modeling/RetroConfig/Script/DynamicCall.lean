import RetroConfig.Library.CString
import RetroConfig.Library.Tree

/-!
# Calls of native methods by name

A script calls a native method through the function that is bound to its name, or by name through
`_call` of the base class (`object.js`), which packs the arguments into an array. `callMember` and
`callStatic` (`script/quickjs/QuickJSScript.cpp`) convert their own arguments one by one.
`callFunction` and `callStaticFunction` get two arguments, the name and the array, count the
elements of the array, and then convert as many of their own arguments.

`calls_agree_iff` says when the native method gets the same arguments both ways: if there is none, or a
single one that is the name itself.
-/

namespace RetroConfig

namespace QuickJSScript

/-! ## Values -/

/-- A JavaScript value without parts. An instance is an object with a native target. -/
inductive Leaf where
  | int (v : Int32)
  | bigInt (v : Int64)
  | float (bits : UInt64)
  | bool (b : Bool)
  | string (text : String)
  | instance (target : Nat)
  | function (id : Nat)
  | undefined
  deriving DecidableEq

/-- A JavaScript value; an object has its properties in their order. -/
abbrev Value := ValueTree Leaf

/-- A `Variant` without parts. -/
inductive Plain where
  | int (v : Int32)
  | longLong (v : Int64)
  | double (bits : UInt64)
  | bool (b : Bool)
  | string (text : String)
  | object (target : Nat)
  | callback (id : Nat)
  | null
  deriving DecidableEq

abbrev Variant := ValueTree Plain

/-- The cases of `toVariant` for values without parts. -/
def toPlain : Leaf → Plain
  | .int v => .int v
  | .bigInt v => .longLong v
  | .float bits => .double bits
  | .bool b => .bool b
  | .string text => .string (Text.cString text)
  | .instance target => .object target
  | .function id => .callback id
  | .undefined => .null

mutual

/-- `QuickJSScript::toVariant`. -/
def toVariant : Value → Variant
  | .leaf leaf => .leaf (toPlain leaf)
  | .array elements => .array (toVariants elements)
  | .object members => .object (setMembers members [])

def toVariants : List Value → List Variant
  | [] => []
  | value :: values => toVariant value :: toVariants values

def setMembers : List (String × Value) → List (String × Variant) → List (String × Variant)
  | [], map => map
  | (name, value) :: members, map =>
    setMembers members (OrderedMap.insert (Text.cString name) (toVariant value) map)

end

/-! ## Methods -/

/-- `Method::Type`. -/
inductive MethodType where
  | static
  | member
  | constMb
  deriving DecidableEq

structure NativeMethod where
  name : String
  type : MethodType
  deriving DecidableEq

/-- A native class; the names of its methods are C strings. -/
structure NativeClass where
  methods : List NativeMethod
  nulFree : ∀ m ∈ methods, Text.NulFree m.name

/-- `Class::getMethod`. -/
def NativeClass.getMethod (cls : NativeClass) (name : String) : Option NativeMethod :=
  cls.methods.find? fun m => m.name = name

/-- What `Method::call` is handed: a slot that the caller did not pass is `none`. -/
structure Handed where
  method : NativeMethod
  params : List (Option Variant)

/-! ## Calls by name -/

/-- The name and the parameters that `callFunction` and `callStaticFunction` make of their
arguments. -/
def readArguments (argv : List Value) : Option (String × List (Option Variant)) :=
  match argv with
  | .leaf (.string name) :: .array elements :: _ =>
    some (Text.cString name, (List.range elements.length).map fun i => argv[i]?.map toVariant)
  | _ => none

/-- `QuickJSScript::callFunction` on an instance of the class; `ScriptInstance::call` takes any
method. -/
def callFunction (cls : NativeClass) (argv : List Value) : Option Handed := do
  let (name, params) ← readArguments argv
  let method ← cls.getMethod name
  return ⟨method, params⟩

/-- `QuickJSScript::callStaticFunction`; `ScriptClass::call` takes static methods only. -/
def callStaticFunction (cls : NativeClass) (argv : List Value) : Option Handed := do
  let (name, params) ← readArguments argv
  let method ← cls.getMethod name
  if method.type = .static then some ⟨method, params⟩ else none

/-- `_call` of an object. -/
def call (cls : NativeClass) (name : String) (args : List Value) : Option Handed :=
  callFunction cls [.leaf (.string name), .array args]

/-- The static `_call`. -/
def callOfClass (cls : NativeClass) (name : String) (args : List Value) : Option Handed :=
  callStaticFunction cls [.leaf (.string name), .array args]

/-! ## Calls of bound functions -/

/-- The method that `bindScriptClass` binds to a property of the prototype. -/
def NativeClass.memberOf (cls : NativeClass) (name : String) : Option NativeMethod :=
  (cls.getMethod name).filter fun m => m.type ≠ .static

/-- The method that `bindScriptClass` binds to a property of the class. -/
def NativeClass.staticOf (cls : NativeClass) (name : String) : Option NativeMethod :=
  (cls.getMethod name).filter fun m => m.type = .static

/-- `QuickJSClass::callMember`. -/
def callMember (method : NativeMethod) (argv : List Value) : Handed :=
  ⟨method, argv.map fun value => some (toVariant value)⟩

/-- `QuickJSClass::callStatic`. -/
def callStatic (method : NativeMethod) (argv : List Value) : Handed :=
  ⟨method, argv.map fun value => some (toVariant value)⟩

/-- The only argument, if there is one, becomes what the name becomes. -/
def Repeats (name : String) (args : List Value) : Prop :=
  args = [] ∨ ∃ value, args = [value] ∧ toVariant value = toVariant (.leaf (.string name))

/-! ## Which arguments arrive -/

section Calls

variable {cls : NativeClass} {name : String} {method : NativeMethod} {args : List Value}

/-- No value becomes an array that holds what it becomes. -/
theorem toVariant_pair_ne (first second : Value) :
    toVariant (.array [first, second]) ≠ toVariant second := by
  intro hEq
  rw [toVariant, toVariants, toVariants, toVariants] at hEq
  have hSize := congrArg sizeOf hEq
  rw [ValueTree.array.sizeOf_spec, List.cons.sizeOf_spec, List.cons.sizeOf_spec] at hSize
  omega

/-- The slots of a call by name are the arguments. -/
theorem slots_iff (name : String) (args : List Value) :
    ((List.range args.length).map fun i =>
      ([.leaf (.string name), .array args] : List Value)[i]?.map toVariant) =
        args.map (fun value => some (toVariant value)) ↔ Repeats name args := by
  match args with
  | [] => exact iff_of_true rfl (.inl rfl)
  | [value] =>
    constructor
    · intro hEq
      refine .inr ⟨value, rfl, ?_⟩
      exact (Option.some.inj (List.head_eq_of_cons_eq hEq)).symm
    · rintro (hNil | ⟨other, hOther, hSame⟩)
      · cases hNil
      · obtain rfl := List.head_eq_of_cons_eq hOther
        rw [List.map_singleton, hSame]
        rfl
  | [first, second] =>
    refine iff_of_false (fun hEq => ?_) ?_
    · have hSecond := List.head_eq_of_cons_eq (List.tail_eq_of_cons_eq hEq)
      exact toVariant_pair_ne first second (Option.some.inj hSecond)
    · rintro (hNil | ⟨_, hOther, _⟩)
      · cases hNil
      · cases hOther
  | first :: second :: third :: rest =>
    refine iff_of_false (fun hEq => ?_) ?_
    · have hThird := congrArg (fun slots => slots[2]?) hEq
      simp at hThird
    · rintro (hNil | ⟨_, hOther, _⟩)
      · cases hNil
      · cases hOther

theorem nulFree_of_getMethod (h : cls.getMethod name = some method) : Text.NulFree name := by
  have hName := List.find?_some h
  rw [← of_decide_eq_true hName]
  exact cls.nulFree method (List.mem_of_find?_eq_some h)

theorem call_eq (h : cls.memberOf name = some method) :
    call cls name args = some ⟨method, (List.range args.length).map fun i =>
      ([.leaf (.string name), .array args] : List Value)[i]?.map toVariant⟩ := by
  obtain ⟨hMethod, -⟩ := Option.filter_eq_some_iff.mp h
  rw [call, callFunction, readArguments, Text.cString_of_nulFree (nulFree_of_getMethod hMethod)]
  simp only [Option.bind_eq_bind, Option.bind_some, hMethod]
  rfl

theorem callOfClass_eq (h : cls.staticOf name = some method) :
    callOfClass cls name args = some ⟨method, (List.range args.length).map fun i =>
      ([.leaf (.string name), .array args] : List Value)[i]?.map toVariant⟩ := by
  obtain ⟨hMethod, hStatic⟩ := Option.filter_eq_some_iff.mp h
  rw [callOfClass, callStaticFunction, readArguments,
    Text.cString_of_nulFree (nulFree_of_getMethod hMethod)]
  simp only [Option.bind_eq_bind, Option.bind_some, hMethod]
  exact if_pos (of_decide_eq_true hStatic)

end Calls

/-- For every native class, method name and list of arguments: a call by name hands the native
method what a call of the bound function hands it exactly if there is no argument, or a single one
that becomes the same value as the name. -/
theorem calls_agree_iff (cls : NativeClass) (name : String) (args : List Value) :
    (∀ method, cls.memberOf name = some method →
      (call cls name args = some (callMember method args) ↔ Repeats name args)) ∧
    ∀ method, cls.staticOf name = some method →
      (callOfClass cls name args = some (callStatic method args) ↔ Repeats name args) := by
  constructor
  · intro method hMethod
    rw [call_eq hMethod, callMember, Option.some.injEq, Handed.mk.injEq,
      and_iff_right rfl]
    exact slots_iff name args
  · intro method hMethod
    rw [callOfClass_eq hMethod, callStatic, Option.some.injEq, Handed.mk.injEq,
      and_iff_right rfl]
    exact slots_iff name args

/-- A class with a member and a static method. -/
def sample : NativeClass where
  methods := [⟨"set", .member⟩, ⟨"make", .static⟩]
  nulFree := by decide

/-- A call without arguments arrives both ways. -/
theorem calls_agree_none : call sample "set" [] = some (callMember ⟨"set", .member⟩ []) ∧
    callOfClass sample "make" [] = some (callStatic ⟨"make", .static⟩ []) :=
  ⟨((calls_agree_iff sample "set" []).1 ⟨"set", .member⟩ (by decide)).mpr (.inl rfl),
    ((calls_agree_iff sample "make" []).2 ⟨"make", .static⟩ (by decide)).mpr (.inl rfl)⟩

/-- `set(1)` by name hands over the name in the place of `1`, and `set(1, 2, 3)` reads a slot that
was not passed. -/
theorem call_one :
    call sample "set" [.leaf (.int 1)] ≠ some (callMember ⟨"set", .member⟩ [.leaf (.int 1)]) ∧
    ∃ handed, call sample "set" [.leaf (.int 1), .leaf (.int 2), .leaf (.int 3)] = some handed ∧
      none ∈ handed.params := by
  have hMember : sample.memberOf "set" = some ⟨"set", .member⟩ := by decide
  constructor
  · rw [call_eq hMember]
    intro hEq
    have hParams := congrArg Handed.params (Option.some.inj hEq)
    have hValue := Option.some.inj (List.head_eq_of_cons_eq hParams)
    rw [toVariant, toVariant, ValueTree.leaf.injEq] at hValue
    exact Plain.noConfusion hValue
  · exact ⟨_, call_eq hMember, List.mem_of_getElem? (i := 2) rfl⟩

end QuickJSScript

end RetroConfig
