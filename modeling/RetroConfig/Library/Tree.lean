import RetroConfig.Library.OrderedMap
import Mathlib.Data.String.Basic

/-!
# Trees of arrays and objects

A tree whose leaves carry values of an arbitrary type and whose inner nodes are arrays and
objects, an object being an ordered map from texts to trees. `map` converts the leaves and
builds every container anew, an object by one assignment for each of its members. On trees
whose objects are ordered maps, conversions compose (`map_map`), and two of them agree on a
tree exactly if they agree on its leaves (`map_eq_map_iff`).
-/

inductive ValueTree (α : Type) where
  | leaf (a : α)
  | array (elements : List (ValueTree α))
  | object (members : List (String × ValueTree α))

namespace ValueTree

variable {α β γ : Type}

/-- Induction over a tree, its elements and the values of its members. -/
theorem induction {P : ValueTree α → Prop} (leaf : ∀ a, P (.leaf a))
    (array : ∀ elements, (∀ t ∈ elements, P t) → P (.array elements))
    (object : ∀ members, (∀ m ∈ members, P m.2) → P (.object members)) (t : ValueTree α) : P t := by
  match t with
  | .leaf a => exact leaf a
  | .array elements => exact array elements (fun t _ => induction leaf array object t)
  | .object members => exact object members (fun m _ => induction leaf array object m.2)
termination_by sizeOf t
decreasing_by
  · have := List.sizeOf_lt_of_mem (by assumption : t ∈ elements)
    simp only [ValueTree.array.sizeOf_spec]
    omega
  · have := List.sizeOf_lt_of_mem (by assumption : m ∈ members)
    have : sizeOf m.2 < sizeOf m := by
      cases m
      simp only [Prod.mk.sizeOf_spec]
      omega
    simp only [ValueTree.object.sizeOf_spec]
    omega

/-! ## Predicates -/

mutual

/-- Every leaf satisfies `p`. -/
def All (p : α → Prop) : ValueTree α → Prop
  | .leaf a => p a
  | .array elements => AllElements p elements
  | .object members => AllMembers p members

def AllElements (p : α → Prop) : List (ValueTree α) → Prop
  | [] => True
  | t :: ts => All p t ∧ AllElements p ts

def AllMembers (p : α → Prop) : List (String × ValueTree α) → Prop
  | [] => True
  | (_, t) :: ms => All p t ∧ AllMembers p ms

end

mutual

/-- Every object is an ordered map. -/
def WellFormed : ValueTree α → Prop
  | .leaf _ => True
  | .array elements => WellFormedElements elements
  | .object members => OrderedMap.Sorted members ∧ WellFormedMembers members

def WellFormedElements : List (ValueTree α) → Prop
  | [] => True
  | t :: ts => WellFormed t ∧ WellFormedElements ts

def WellFormedMembers : List (String × ValueTree α) → Prop
  | [] => True
  | (_, t) :: ms => WellFormed t ∧ WellFormedMembers ms

end

mutual

/-- No object has two members of one name. -/
def Distinct : ValueTree α → Prop
  | .leaf _ => True
  | .array elements => DistinctElements elements
  | .object members => (members.map Prod.fst).Nodup ∧ DistinctMembers members

def DistinctElements : List (ValueTree α) → Prop
  | [] => True
  | t :: ts => Distinct t ∧ DistinctElements ts

def DistinctMembers : List (String × ValueTree α) → Prop
  | [] => True
  | (_, t) :: ms => Distinct t ∧ DistinctMembers ms

end

theorem allElements_iff {p : α → Prop} {ts : List (ValueTree α)} :
    AllElements p ts ↔ ∀ t ∈ ts, All p t := by
  induction ts with
  | nil => simp [AllElements]
  | cons t ts ih => simp [AllElements, ih]

theorem allMembers_iff {p : α → Prop} {ms : List (String × ValueTree α)} :
    AllMembers p ms ↔ ∀ m ∈ ms, All p m.2 := by
  induction ms with
  | nil => simp [AllMembers]
  | cons m ms ih => simp [AllMembers, ih]

theorem wellFormedElements_iff {ts : List (ValueTree α)} :
    WellFormedElements ts ↔ ∀ t ∈ ts, WellFormed t := by
  induction ts with
  | nil => simp [WellFormedElements]
  | cons t ts ih => simp [WellFormedElements, ih]

theorem wellFormedMembers_iff {ms : List (String × ValueTree α)} :
    WellFormedMembers ms ↔ ∀ m ∈ ms, WellFormed m.2 := by
  induction ms with
  | nil => simp [WellFormedMembers]
  | cons m ms ih => simp [WellFormedMembers, ih]

theorem distinctElements_iff {ts : List (ValueTree α)} :
    DistinctElements ts ↔ ∀ t ∈ ts, Distinct t := by
  induction ts with
  | nil => simp [DistinctElements]
  | cons t ts ih => simp [DistinctElements, ih]

theorem distinctMembers_iff {ms : List (String × ValueTree α)} :
    DistinctMembers ms ↔ ∀ m ∈ ms, Distinct m.2 := by
  induction ms with
  | nil => simp [DistinctMembers]
  | cons m ms ih => simp [DistinctMembers, ih]

@[simp] theorem all_leaf {p : α → Prop} {a : α} : All p (.leaf a) ↔ p a := by rw [All]

@[simp] theorem all_array {p : α → Prop} {ts : List (ValueTree α)} :
    All p (.array ts) ↔ ∀ t ∈ ts, All p t := by
  rw [All, allElements_iff]

@[simp] theorem all_object {p : α → Prop} {ms : List (String × ValueTree α)} :
    All p (.object ms) ↔ ∀ m ∈ ms, All p m.2 := by
  rw [All, allMembers_iff]

@[simp] theorem wellFormed_leaf {a : α} : WellFormed (.leaf a) := by
  rw [WellFormed]
  trivial

@[simp] theorem wellFormed_array {ts : List (ValueTree α)} :
    WellFormed (.array ts) ↔ ∀ t ∈ ts, WellFormed t := by
  rw [WellFormed, wellFormedElements_iff]

@[simp] theorem wellFormed_object {ms : List (String × ValueTree α)} :
    WellFormed (.object ms) ↔ OrderedMap.Sorted ms ∧ ∀ m ∈ ms, WellFormed m.2 := by
  rw [WellFormed, wellFormedMembers_iff]

@[simp] theorem distinct_leaf {a : α} : Distinct (.leaf a) := by
  rw [Distinct]
  trivial

@[simp] theorem distinct_array {ts : List (ValueTree α)} :
    Distinct (.array ts) ↔ ∀ t ∈ ts, Distinct t := by
  rw [Distinct, distinctElements_iff]

@[simp] theorem distinct_object {ms : List (String × ValueTree α)} :
    Distinct (.object ms) ↔ (ms.map Prod.fst).Nodup ∧ ∀ m ∈ ms, Distinct m.2 := by
  rw [Distinct, distinctMembers_iff]

theorem All.mp {p q : α → Prop} {t : ValueTree α} (hImp : All (fun a => p a → q a) t)
    (h : All p t) : All q t := by
  induction t using ValueTree.induction with
  | leaf a => exact all_leaf.mpr (all_leaf.mp hImp (all_leaf.mp h))
  | array ts ih =>
    exact all_array.mpr fun t ht => ih t ht (all_array.mp hImp t ht) (all_array.mp h t ht)
  | object ms ih =>
    exact all_object.mpr fun m hm => ih m hm (all_object.mp hImp m hm) (all_object.mp h m hm)

theorem all_of_forall {p : α → Prop} (h : ∀ a, p a) (t : ValueTree α) : All p t := by
  induction t using ValueTree.induction with
  | leaf a => exact all_leaf.mpr (h a)
  | array ts ih => exact all_array.mpr ih
  | object ms ih => exact all_object.mpr ih

theorem All.imp {p q : α → Prop} {t : ValueTree α} (h : All p t) (hImp : ∀ a, p a → q a) : All q t :=
  (all_of_forall hImp t).mp h

/-! ## Conversion of the leaves -/

mutual

/-- Convert the leaves; the members of an object are assigned in turn to a new one. -/
def map (f : α → β) : ValueTree α → ValueTree β
  | .leaf a => .leaf (f a)
  | .array elements => .array (mapElements f elements)
  | .object members => .object (OrderedMap.ofPairs (mapMembers f members))

def mapElements (f : α → β) : List (ValueTree α) → List (ValueTree β)
  | [] => []
  | t :: ts => map f t :: mapElements f ts

def mapMembers (f : α → β) : List (String × ValueTree α) → List (String × ValueTree β)
  | [] => []
  | (k, t) :: ms => (k, map f t) :: mapMembers f ms

end

theorem mapElements_eq (f : α → β) (ts : List (ValueTree α)) : mapElements f ts = ts.map (map f) := by
  induction ts with
  | nil => simp [mapElements]
  | cons t ts ih => simp [mapElements, ih]

theorem mapMembers_eq (f : α → β) (ms : List (String × ValueTree α)) :
    mapMembers f ms = ms.map (fun m => (m.1, map f m.2)) := by
  induction ms with
  | nil => simp [mapMembers]
  | cons m ms ih => simp [mapMembers, ih]

theorem sorted_mapMembers (f : α → β) {ms : List (String × ValueTree α)} (h : OrderedMap.Sorted ms) :
    OrderedMap.Sorted (ms.map (fun m => (m.1, map f m.2))) :=
  List.pairwise_map.mpr h

theorem map_leaf (f : α → β) (a : α) : map f (.leaf a) = .leaf (f a) := by rw [map]

theorem map_array (f : α → β) (ts : List (ValueTree α)) : map f (.array ts) = .array (ts.map (map f)) := by
  rw [map, mapElements_eq]

/-- The members of an ordered map keep their places. -/
theorem map_object (f : α → β) {ms : List (String × ValueTree α)} (h : OrderedMap.Sorted ms) :
    map f (.object ms) = .object (ms.map (fun m => (m.1, map f m.2))) := by
  rw [map, mapMembers_eq, OrderedMap.ofPairs_of_sorted (sorted_mapMembers f h)]

theorem wellFormed_map (f : α → β) {t : ValueTree α} (h : WellFormed t) : WellFormed (map f t) := by
  induction t using ValueTree.induction with
  | leaf a =>
    rw [map_leaf]
    exact wellFormed_leaf
  | array ts ih =>
    rw [map_array, wellFormed_array]
    intro s hs
    obtain ⟨t, ht, rfl⟩ := List.mem_map.mp hs
    exact ih t ht (wellFormed_array.mp h t ht)
  | object ms ih =>
    obtain ⟨hSorted, hMembers⟩ := wellFormed_object.mp h
    rw [map_object f hSorted, wellFormed_object]
    refine ⟨sorted_mapMembers f hSorted, ?_⟩
    intro s hs
    obtain ⟨m, hm, rfl⟩ := List.mem_map.mp hs
    exact ih m hm (hMembers m hm)

theorem all_map {f : α → β} {p : β → Prop} {t : ValueTree α} (h : WellFormed t)
    (hAll : All (fun a => p (f a)) t) : All p (map f t) := by
  induction t using ValueTree.induction with
  | leaf a =>
    rw [map_leaf]
    exact all_leaf.mpr (all_leaf.mp hAll)
  | array ts ih =>
    rw [map_array, all_array]
    intro s hs
    obtain ⟨t, ht, rfl⟩ := List.mem_map.mp hs
    exact ih t ht (wellFormed_array.mp h t ht) (all_array.mp hAll t ht)
  | object ms ih =>
    obtain ⟨hSorted, hMembers⟩ := wellFormed_object.mp h
    rw [map_object f hSorted, all_object]
    intro s hs
    obtain ⟨m, hm, rfl⟩ := List.mem_map.mp hs
    exact ih m hm (hMembers m hm) (all_object.mp hAll m hm)

theorem map_map (f : α → β) (g : β → γ) {t : ValueTree α} (h : WellFormed t) :
    map g (map f t) = map (fun a => g (f a)) t := by
  induction t using ValueTree.induction with
  | leaf a => simp only [map_leaf]
  | array ts ih =>
    simp only [map_array, List.map_map]
    congr 1
    apply List.map_congr_left
    intro t ht
    exact ih t ht (wellFormed_array.mp h t ht)
  | object ms ih =>
    obtain ⟨hSorted, hMembers⟩ := wellFormed_object.mp h
    rw [map_object f hSorted, map_object g (sorted_mapMembers f hSorted), map_object _ hSorted,
      List.map_map]
    congr 1
    apply List.map_congr_left
    intro m hm
    exact congrArg (Prod.mk m.1) (ih m hm (hMembers m hm))

/-- Two conversions agree on a tree exactly if they agree on every leaf of it. -/
theorem map_eq_map_iff {f g : α → β} {t : ValueTree α} (h : WellFormed t) :
    map f t = map g t ↔ All (fun a => f a = g a) t := by
  induction t using ValueTree.induction with
  | leaf a => simp only [map_leaf, leaf.injEq, all_leaf]
  | array ts ih =>
    rw [map_array, map_array, all_array, array.injEq, List.map_inj_left]
    refine forall₂_congr fun t ht => ?_
    exact ih t ht (wellFormed_array.mp h t ht)
  | object ms ih =>
    obtain ⟨hSorted, hMembers⟩ := wellFormed_object.mp h
    rw [map_object f hSorted, map_object g hSorted, all_object, object.injEq, List.map_inj_left]
    refine forall₂_congr fun m hm => ?_
    rw [← ih m hm (hMembers m hm), Prod.mk.injEq]
    exact and_iff_right rfl

theorem map_id {t : ValueTree α} (h : WellFormed t) : map (fun a => a) t = t := by
  induction t using ValueTree.induction with
  | leaf a => rw [map_leaf]
  | array ts ih =>
    rw [map_array]
    congr 1
    conv_rhs => rw [← List.map_id ts]
    apply List.map_congr_left
    intro t ht
    exact ih t ht (wellFormed_array.mp h t ht)
  | object ms ih =>
    obtain ⟨hSorted, hMembers⟩ := wellFormed_object.mp h
    rw [map_object _ hSorted]
    congr 1
    conv_rhs => rw [← List.map_id ms]
    apply List.map_congr_left
    intro m hm
    exact congrArg (Prod.mk m.1) (ih m hm (hMembers m hm))

end ValueTree
