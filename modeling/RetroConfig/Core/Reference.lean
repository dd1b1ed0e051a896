import RetroConfig.Library.Transition
import Mathlib.Logic.Function.Basic
import Mathlib.Data.Finset.Card
import Mathlib.Data.Finset.Range

/-!
# `Reference` and `Variant`

The two kinds of slots that count an object: a `Reference` (`gcore/core/Reference.h`)
holds a pointer that may be null, a `Variant` (`gcore/core/Variant.h`) holds nothing, an
object, or a value that is not counted. A slot is a variable of its own or a field of an
object, and a field is destroyed by the destructor of its object.

Every operator releases before it retains. `release` decrements the count and deletes the
object when it falls to zero; deleting an object releases its fields, which may delete
further objects. Objects and slots are numbered in the order in which they are made and no
number is used again, so that a use after the end is a failure of the model (`Fault`).
-/

namespace RetroConfig.Reference

inductive Kind where
  | reference
  | variant
  deriving DecidableEq, Repr

/-- What a slot holds. `plain` is a value of a `Variant` that is not counted. -/
inductive Value where
  | null
  | object (o : Nat)
  | plain (x : Int)
  deriving DecidableEq, Repr

structure Slot where
  kind : Kind
  owner : Option Nat
  value : Value
  deriving DecidableEq, Repr

/-- An object; while it lives, its `count` and its fields in the order in which the
destructor destroys them. -/
inductive Life where
  | unborn
  | live (count : Int) (fields : List Nat)
  | destroyed
  deriving DecidableEq, Repr

structure Heap where
  objects : Nat → Life
  objectCount : Nat
  slots : Nat → Option Slot
  slotCount : Nat

inductive Fault where
  | deadObject
  | deadSlot
  | stuck
  deriving DecidableEq, Repr

namespace Heap

def setObject (h : Heap) (o : Nat) (x : Life) : Heap :=
  { h with objects := Function.update h.objects o x }

def setSlot (h : Heap) (a : Nat) (s : Option Slot) : Heap :=
  { h with slots := Function.update h.slots a s }

/-- Read a slot. -/
def slot (h : Heap) (a : Nat) : Except Fault Slot :=
  match h.slots a with
  | some s => .ok s
  | none => .error .deadSlot

/-- Write a slot. -/
def setValue (h : Heap) (a : Nat) (v : Value) : Except Fault Heap := do
  let s ← h.slot a
  pure (h.setSlot a (some { s with value := v }))

end Heap

/-! ## Counting -/

/-- `Object::retain`. -/
def retainObject (o : Nat) (h : Heap) : Except Fault Heap :=
  match h.objects o with
  | .live count fields => .ok (h.setObject o (.live (count + 1) fields))
  | _ => .error .deadObject

/-- `Reference::retain`, and the counting of `Variant::retain`. -/
def retain (v : Value) (h : Heap) : Except Fault Heap :=
  match v with
  | .object o => retainObject o h
  | _ => pure h

/-- `Reference::release` and `Variant::release`; `letGo` is `Object::release` followed by
`delete` if the count is zero, and says whether it deleted. A `Reference` is set to null
only then, a `Variant` always. -/
def releaseSlot (letGo : Nat → Heap → Except Fault (Bool × Heap)) (a : Nat) (h : Heap) :
    Except Fault Heap := do
  let s ← h.slot a
  match s.value with
  | .object o => do
    let (deleted, h) ← letGo o h
    match s.kind with
    | .reference => if deleted then h.setValue a .null else pure h
    | .variant => h.setValue a .null
  | _ =>
    match s.kind with
    | .reference => pure h
    | .variant => h.setValue a .null

/-- `Reference::~Reference` and `Variant::~Variant`, and the end of the slot. -/
def dropSlot (letGo : Nat → Heap → Except Fault (Bool × Heap)) (a : Nat) (h : Heap) :
    Except Fault Heap := do
  let h ← releaseSlot letGo a h
  pure (h.setSlot a none)

/-- `Object::release`, and `delete` when the count is zero: the destructor destroys the
fields and the object ends. The first argument bounds how deep deletions nest. -/
def letGo : Nat → Nat → Heap → Except Fault (Bool × Heap)
  | 0, _, _ => .error .stuck
  | n + 1, o, h =>
    match h.objects o with
    | .live count fields =>
      if count - 1 = 0 then do
        let h ← fields.foldlM (fun h a => dropSlot (letGo n) a h)
          (h.setObject o (.live (count - 1) fields))
        pure (true, h.setObject o .destroyed)
      else pure (false, h.setObject o (.live (count - 1) fields))
    | _ => .error .deadObject

/-- No deletion nests deeper than there are objects. -/
def release (a : Nat) (h : Heap) : Except Fault Heap :=
  releaseSlot (letGo (h.objectCount + 1)) a h

/-! ## Constructors and destructors -/

/-- A new slot without a value, a field of `owner` if there is one. -/
def newSlot (kind : Kind) (owner : Option Nat) (h : Heap) : Except Fault Heap :=
  let h' := { h.setSlot h.slotCount (some ⟨kind, owner, .null⟩) with slotCount := h.slotCount + 1 }
  match owner with
  | none => pure h'
  | some p =>
    match h.objects p with
    | .live count fields => pure (h'.setObject p (.live count (h.slotCount :: fields)))
    | _ => .error .deadObject

/-- What a slot is made or assigned from: another slot, an `Object *`, or a number. -/
inductive Source where
  | slot (b : Nat)
  | pointer (p : Option Nat)
  | number (x : Int)
  deriving DecidableEq, Repr

/-- The value of an `Object *`. -/
def ofPointer : Option Nat → Value
  | some o => .object o
  | none => .null

/-- What a slot of a kind takes over of a value: a `Reference` no number. -/
def Kind.takes : Kind → Value → Value
  | .reference, .plain _ => .null
  | _, v => v

/-- The constructors of `Reference` and `Variant` with one argument. The one that makes a
`Reference` from a `Variant` goes through a temporary `Reference` (`Variant::ref`), which
retains and releases the object once more. -/
def construct (kind : Kind) (owner : Option Nat) (src : Source) (h : Heap) :
    Except Fault Heap := do
  let a := h.slotCount
  match src with
  | .slot b => do
    let t ← h.slot b
    let h ← newSlot kind owner h
    match kind, t.kind, t.value with
    | .reference, .variant, .object o => do
      let h ← retainObject o h
      let h ← h.setValue a (.object o)
      let h ← retainObject o h
      let (_, h) ← letGo (h.objectCount + 1) o h
      pure h
    | _, _, v => do
      let h ← h.setValue a (kind.takes v)
      retain (kind.takes v) h
  | .pointer p => do
    let h ← newSlot kind owner h
    let h ← h.setValue a (ofPointer p)
    retain (ofPointer p) h
  | .number x => do
    let h ← newSlot kind owner h
    h.setValue a (kind.takes (.plain x))

/-- `Variant(Variant &&)`: swap with the other, which is left without a value. -/
def moveConstruct (owner : Option Nat) (b : Nat) (h : Heap) : Except Fault Heap := do
  let a := h.slotCount
  let t ← h.slot b
  let h ← newSlot .variant owner h
  let h ← h.setValue a t.value
  h.setValue b .null

/-- The end of a slot; as a field it leaves its object. -/
def destruct (a : Nat) (h : Heap) : Except Fault Heap := do
  let s ← h.slot a
  let h ← dropSlot (letGo (h.objectCount + 1)) a h
  match s.owner with
  | none => pure h
  | some p =>
    match h.objects p with
    | .live count fields => pure (h.setObject p (.live count (fields.erase a)))
    | _ => .error .deadObject

/-! ## Assignments -/

/-- `Reference::ref`, that is `operator=(const Reference &)`. -/
def ref (a b : Nat) (h : Heap) : Except Fault Heap := do
  let s ← h.slot a
  let t ← h.slot b
  if s.value ≠ t.value then do
    let h ← release a h
    let t ← h.slot b
    let h ← h.setValue a t.value
    retain t.value h
  else h.setValue a t.value

/-- `Reference::operator=(Object *)`. -/
def assignPointer (a : Nat) (p : Option Nat) (h : Heap) : Except Fault Heap := do
  let h ← release a h
  let h ← h.setValue a (ofPointer p)
  retain (ofPointer p) h

/-- `Variant::operator=`. The value of the other is read after the release. -/
def assignVariant (a b : Nat) (h : Heap) : Except Fault Heap := do
  let h ← release a h
  let t ← h.slot b
  let h ← retain t.value h
  h.setValue a t.value

/-- `Reference::clear`. -/
def clear (a : Nat) (h : Heap) : Except Fault Heap := do
  let h ← release a h
  h.setValue a .null

/-- Assign from a temporary of the kind of the slot, made from `src`. -/
def viaTemporary (kind : Kind) (assign : Nat → Nat → Heap → Except Fault Heap) (a : Nat)
    (src : Source) (h : Heap) : Except Fault Heap := do
  let tmp := h.slotCount
  let h ← construct kind none src h
  let h ← assign a tmp h
  destruct tmp h

/-- `a = src`, with the operator and the conversion C++ chooses. A number reaches a
`Reference` inside a `Variant`. -/
def assign (a : Nat) (src : Source) (h : Heap) : Except Fault Heap := do
  let s ← h.slot a
  match s.kind, src with
  | .reference, .pointer p => assignPointer a p h
  | .reference, .slot b => do
    let t ← h.slot b
    match t.kind with
    | .reference => ref a b h
    | .variant => viaTemporary .reference ref a (.slot b) h
  | .reference, .number x => viaTemporary .reference ref a (.number x) h
  | .variant, .slot b => do
    let t ← h.slot b
    match t.kind with
    | .variant => assignVariant a b h
    | .reference => viaTemporary .variant assignVariant a (.slot b) h
  | .variant, src => viaTemporary .variant assignVariant a src h

end RetroConfig.Reference
