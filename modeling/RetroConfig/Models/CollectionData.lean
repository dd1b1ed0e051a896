import RetroConfig.Database.Classes
import RetroConfig.Library.SqlOrder
import RetroConfig.Utils.Json

/-!
# `CollectionData`

The rows of the collections (`models/CollectionData.h`): a type, which names the collection, a key,
and the identifier of a record of `BookData`, with a text of data. `find` looks a row up by type and key
and `all` gets the rows of a type; `find_both` and `all_both` say what they return while another
class is in use too.
-/

namespace RetroConfig.CollectionData

open SQLite Program

def type : Field := makeField "type" .text true

def targetID : Field := makeField "target_id" .integer true

def flag : Field := makeField "flag" .integer false

def key : Field := makeField "key" .text false

def data : Field := makeField "data" .text false

/-- The constructor `CollectionData::CollectionData`, in memory that held `o`. It leaves
`target_id` as it was. -/
def construct (o : Object) : Object := o.construct.put flag (0 : Int32)

def table : Table where
  cls := "CollectionData"
  fresh := construct .zero
  fields := [.identifier, type, targetID, flag, key, data]
  version := 1
  nodup := by decide
  identifier_mem := by decide
  primary := by decide

def getTargetID (o : Object) : Int32 := o.get targetID

def getData (o : Object) : String := o.get data

def setType (v : String) (o : Object) : Object := o.set type v

def setKey (v : String) (o : Object) : Object := o.set key v

def setTargetID (v : Int32) (o : Object) : Object := o.set targetID v

def setData (v : String) (o : Object) : Object := o.set data v

/-- `CollectionData::setJSONData`. -/
def setJSONData (v : Variant) (o : Object) : Object :=
  if Variant.toBool v then setData (Json.dump (JSON.serialize v)) o else setData "" o

/-- `new CollectionData`, with the address of the object. -/
def new (memory : Object) (p : Program) : Program × Nat :=
  (p.setStore (p.store.alloc (construct memory)), p.store.next)

/-- The query of `CollectionData::all`. -/
def allQuery (ty : String) (q : Query) : Query :=
  (q.equal type.name (.text ty)).sortBy Field.identifier.name

/-- `CollectionData::all`. -/
def all (ty : String) (p : Program) : Except Fault (Program × List Nat) := do
  let (p, q) ← Model.query table p
  let (p, q) ← (allQuery ty q).res p
  pure (p, q.results)

/-- The query of `CollectionData::find`. -/
def findQuery (ty k : String) (q : Query) : Query :=
  (q.equal type.name (.text ty)).andQ.equal key.name (.text k)

/-- `CollectionData::find`. -/
def find (ty k : String) (p : Program) : Except Fault (Program × Option Nat) := do
  let (p, q) ← Model.query table p
  let (p, q) ← (findQuery ty k q).res p
  pure (p, q.results.head?)

theorem object_new (memory : Object) (p : Program) :
    (new memory p).1.object p.store.next = construct memory := Function.update_self ..

theorem new_frame (memory : Object) (p : Program) : Frame p (new memory p).1 :=
  ⟨rfl, Nat.le_succ _, fun _ ha => Function.update_of_ne (Nat.ne_of_lt ha) _ _⟩

theorem table_columns : table.Columns := by decide

theorem cls_ne_info : table.cls ≠ info.cls := by decide

theorem type_mem : type ∈ table.stored := by decide

theorem targetID_mem : targetID ∈ table.stored := by decide

theorem key_mem : key ∈ table.stored := by decide

theorem data_mem : data ∈ table.stored := by decide

theorem stored_eq : table.stored = [type, targetID, flag, key, data] := by decide

theorem stored_ne_nil : table.stored ≠ [] := List.ne_nil_of_mem type_mem

theorem mem_fields {f : Field} (hf : f ∈ table.stored) : f ∈ table.fields :=
  (Table.mem_stored.mp hf).1

/-! ## Rows -/

/-- The row is one of the type. -/
def isOf (ty : String) (r : Sql.Row) : Bool := decide (r.cells type.name = .text ty)

/-- The row is the one of the type and the key. -/
def isEntry (ty k : String) (r : Sql.Row) : Bool :=
  decide (r.cells type.name = .text ty ∧ r.cells key.name = .text k)

theorem isEntry_iff {ty k : String} {r : Sql.Row} :
    isEntry ty k r = true ↔ r.cells type.name = .text ty ∧ r.cells key.name = .text k :=
  decide_eq_true_iff

theorem isOf_iff {ty : String} {r : Sql.Row} : isOf ty r = true ↔ r.cells type.name = .text ty :=
  decide_eq_true_iff

/-! ## Queries -/

section Queries

variable {t' : Table} {p : Program} {u u' : Sql.Table} {ty k : String}

/-- Rows in the order of `sortBy("identifier")`. -/
theorem rowid_le_of_precedes {db : Sql.Db} (h : Holds db table u) {r q : Sql.Row}
    (hPrecedes : u.precedes [(Field.identifier.name, true)] r q = true) : r.rowid ≤ q.rowid := by
  by_contra hLt
  have hCell : (u.cell q Field.identifier.name).lt (u.cell r Field.identifier.name) = true := by
    rw [h.cell_identifier, h.cell_identifier]
    exact decide_eq_true (Rat.intCast_lt_intCast.mpr (by omega))
  rw [Sql.Table.precedes_cons, ← Sql.Cell.lt_iff, ← Sql.Cell.lt_iff, hCell] at hPrecedes
  rw [Sql.Cell.lt_iff] at hCell
  rcases hPrecedes with ⟨hLt', -⟩ | ⟨-, hDesc⟩ | ⟨hEq, -⟩
  · exact lt_asymm hCell ((Sql.Cell.lt_iff _ _).mp hLt')
  · cases hDesc
  · exact hCell.ne' hEq

/-- `CollectionData::all` makes an object from every row of the type, in the order of the rowids. -/
theorem all_both (h : Both table t' p u u') (hApart : Apart table t') (hType : Text.NulFree ty) :
    ∃ q results, ∃ rows : List Sql.Row, all ty p = .ok (q, results) ∧ Both table t' q u u' ∧
      Frame p q ∧ rows.Perm (u.rows.filter (isOf ty)) ∧
      (rows.Pairwise fun r s => r.rowid ≤ s.rowid) ∧
      results.map q.object = rows.map (rowObject table u) ∧ results.Nodup ∧
      ∀ a ∈ results, p.store.next ≤ a ∧ a < q.store.next := by
  have hAccepted : (allQuery ty (.ofTable table)).Accepted
      [.compare type.name .equal (.text ty)] u := by
    refine ⟨fun c hc => ?_, fun name hName => ?_, fun hOffset => ?_⟩
    · rw [List.mem_singleton.mp hc]
      exact h.left.holds.mem_names (mem_fields type_mem)
    · rw [List.mem_singleton.mp hName]
      exact h.left.holds.mem_names table.identifier_mem
    · have hUnset : (allQuery ty (.ofTable table)).offset = -1 := rfl
      omega
  have hFilter : (u.rows.filter fun r =>
      [Condition.compare type.name .equal (.text ty)].all (Condition.holds u r)) =
        u.rows.filter (isOf ty) := by
    refine List.filter_congr fun r _ => ?_
    rw [List.all_cons, List.all_nil, Bool.and_true, Bool.eq_iff_iff, isOf_iff]
    exact h.left.holds.condition_text type_mem rfl hType r
  obtain ⟨p₁, p₂, q', hQuery, hRes, hBoth, hFrame, hObjects, hNodup, hNew⟩ :=
    h.results hApart cls_ne_info table_columns (q := allQuery ty (.ofTable table)) rfl rfl
      ⟨rfl, rfl⟩ hAccepted
  refine ⟨p₂, q'.results, (u.rows.filter (isOf ty)).mergeSort (u.precedes [(Field.identifier.name,
    true)]), ?_, hBoth, hFrame, List.mergeSort_perm _ _, ?_, ?_, hNodup, hNew⟩
  · rw [all, hQuery]
    simp only [Transition.ok_bind]
    rw [hRes]
    rfl
  · exact (List.pairwise_mergeSort (u.precedes_trans _) (u.precedes_total _) _).imp
      (rowid_le_of_precedes h.left.holds)
  · rw [hObjects]
    change (u.select (fun r => [Condition.compare type.name .equal (.text ty)].all
      (Condition.holds u r)) [(Field.identifier.name, true)] none none).map _ = _
    rw [Sql.Table.select, hFilter]
    rfl

/-- `CollectionData::find` makes an object from the first row of the type and the key. -/
theorem find_both (h : Both table t' p u u') (hApart : Apart table t') (hType : Text.NulFree ty)
    (hKey : Text.NulFree k) :
    ∃ q b, find ty k p = .ok (q, b) ∧ Both table t' q u u' ∧ Frame p q ∧
      b.map q.object = (u.rows.find? (isEntry ty k)).map (rowObject table u) ∧
      ∀ a, b = some a → p.store.next ≤ a ∧ a < q.store.next := by
  obtain ⟨conds, hConds⟩ : ∃ conds : List Condition, conds =
    [.compare type.name .equal (.text ty), .compare key.name .equal (.text k)] := ⟨_, rfl⟩
  have hAccepted : (findQuery ty k (.ofTable table)).Accepted conds u := by
    refine ⟨fun c hc => ?_, fun name hName => (by cases hName), fun hOffset => ?_⟩
    · rw [hConds] at hc
      simp only [List.mem_cons, List.not_mem_nil, or_false] at hc
      rcases hc with rfl | rfl
      · exact h.left.holds.mem_names (mem_fields type_mem)
      · exact h.left.holds.mem_names (mem_fields key_mem)
    · have hUnset : (findQuery ty k (.ofTable table)).offset = -1 := rfl
      omega
  have hSelected : (findQuery ty k (.ofTable table)).selected conds u =
      u.rows.filter (isEntry ty k) := by
    change u.rows.filter (fun r => conds.all (Condition.holds u r)) = _
    refine List.filter_congr fun r _ => ?_
    rw [hConds, List.all_cons, List.all_cons, List.all_nil, Bool.and_true, Bool.eq_iff_iff,
      Bool.and_eq_true, isEntry_iff, h.left.holds.condition_text type_mem rfl hType r,
      h.left.holds.condition_text key_mem rfl hKey r]
  obtain ⟨p₁, p₂, q', hQuery, hRes, hBoth, hFrame, hObjects, -, hNew⟩ :=
    h.results hApart cls_ne_info table_columns (q := findQuery ty k (.ofTable table)) rfl rfl
      (by rw [hConds]; exact ⟨rfl, rfl⟩) hAccepted
  rw [hSelected] at hObjects
  refine ⟨p₂, q'.results.head?, ?_, hBoth, hFrame, ?_, fun a ha => hNew a (List.mem_of_head? ha)⟩
  · rw [find, hQuery]
    simp only [Transition.ok_bind]
    rw [hRes]
    rfl
  · rw [← List.head?_map, hObjects, List.head?_map, List.head?_filter]

end Queries

end RetroConfig.CollectionData
