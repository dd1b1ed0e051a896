import RetroConfig.Main.BookRecord
import RetroConfig.Main.Pages
import RetroConfig.Models.CollectionData

/-!
# `DataItem`: collections

A collection is what the rows of `CollectionData` of one type say: `saveToCollection`
(`main/DataItem.cpp`) adds a row with the key of the item and the identifier of its record,
`removeFromCollection` deletes the row, and `loadCollectionItems` reads the records whose identifiers
are in the rows.
-/

namespace RetroConfig.DataItem

open SQLite Program BookData

/-- The key of an item in a collection. -/
def collectionKey (item : DataItem) : String := item.projectKey ++ ":" ++ item.link

/-- The setters of `saveToCollection` for a new row. -/
def setEntry (ty key : String) (id : Int32) (o : Object) : Object :=
  CollectionData.setTargetID id (CollectionData.setKey key (CollectionData.setType ty o))

/-- A record without an identifier is saved. -/
def saveNew (d : Nat) (p : Program) : Except Fault Program :=
  if (p.object d).identifier.toInt < 0 then Model.save table d p else pure p

/-- The part of `saveToCollection` that makes a row: the record of the item is saved if it has no
identifier, and a new row points to it. -/
def enter (memory entryMemory : Object) (item : DataItem) (ty : String) (p : Program) :
    Except Fault (Program × Nat) := do
  let (p, d) ← item.saveData memory true p
  -- `saveData(true)` always returns a record
  let d := d.getD 0
  let p ← saveNew d p
  let (p, col) := CollectionData.new entryMemory p
  pure (p.modify col (setEntry ty item.collectionKey (p.object d).identifier), col)

/-- The row that `saveToCollection` goes on with: the one that was found, or a new one. -/
def entryFor (memory entryMemory : Object) (item : DataItem) (ty : String) (found : Option Nat)
    (p : Program) : Except Fault (Program × Nat) :=
  match found with
  | some col => pure (p, col)
  | none => item.enter memory entryMemory ty p

/-- The last lines of `saveToCollection`. -/
def saveEntry (save : Bool) (col : Nat) (p : Program) : Except Fault Program :=
  if save then Model.save CollectionData.table col p else pure p

/-- The setter of `saveToCollection` for the data. -/
def withData (data : Variant) (o : Object) : Object :=
  if Variant.toBool data then CollectionData.setData (Json.dump (JSON.serialize data)) o else o

theorem withData_null (o : Object) : withData (.leaf .null) o = o := if_neg Bool.false_ne_true

/-- `DataItem::saveToCollection`, with the address of the row. `memory` and `entryMemory` are what
`new` finds for a record and for a row. -/
def saveToCollection (memory entryMemory : Object) (item : DataItem) (ty : String) (data : Variant)
    (p : Program) : Except Fault (Program × Nat) := do
  let (p, found) ← CollectionData.find ty item.collectionKey p
  let (p, col) ← item.entryFor memory entryMemory ty found p
  let p ← saveEntry (found.isNone || Variant.toBool data) col (p.modify col (withData data))
  pure (p, col)

/-- `DataItem::isInCollection`. -/
def isInCollection (item : DataItem) (ty : String) (p : Program) :
    Except Fault (Program × Bool) := do
  let (p, col) ← CollectionData.find ty item.collectionKey p
  pure (p, col.isSome)

/-- `DataItem::removeFromCollection`. -/
def removeFromCollection (item : DataItem) (ty : String) (p : Program) : Except Fault Program := do
  let (p, col) ← CollectionData.find ty item.collectionKey p
  match col with
  | some col => Model.remove CollectionData.table col p
  | none => pure p

/-- The identifier of the record that a row points to. -/
def targetOf (col : Object) : Int := (CollectionData.getTargetID col).toInt

/-- `DataItem::loadCollectionItems`. -/
def loadCollectionItems (ty : String) (p : Program) :
    Except Fault (Program × Option (List DataItem)) := do
  let (p, cols) ← CollectionData.all ty p
  let keys := cols.map fun col => QueryValue.int (targetOf (p.object col))
  let (p, q) ← Model.query table p
  let (p, q) ← (q.inArray Field.identifier.name keys).res p
  pure (p, q.results.mapM fun a => fromData (some (p.object a)))

/-- Records and rows of collections, side by side. -/
abbrev Tables (p : Program) (uc ub : Sql.Table) : Prop :=
  Both CollectionData.table table p uc ub

theorem apart_records : Apart CollectionData.table table :=
  ⟨by decide, by decide, by decide⟩

theorem apart_entries : Apart table CollectionData.table :=
  ⟨by decide, by decide, by decide⟩

theorem table_ne_info : table.cls ≠ info.cls := by decide

/-! ## What the methods do to the tables -/

section Methods

variable {p : Program} {uc ub : Sql.Table} {item : DataItem} {ty : String}

theorem results_both (h : Tables p uc ub) (hLink : Text.NulFree item.link)
    (hKey : Text.NulFree item.projectKey) :
    ∃ q addresses, item.results p = .ok (q, addresses) ∧ Tables q uc ub ∧ Frame p q ∧
      addresses.map q.object = (ub.rows.filter item.isRecord).map (rowObject table ub) ∧
      ∀ a ∈ addresses, p.store.next ≤ a ∧ a < q.store.next := by
  obtain ⟨hAccepted, hSelected⟩ := query_records h.right.holds hLink hKey
  obtain ⟨p₁, p₂, q', hQuery, hRes, hBoth, hFrame, hObjects, -, hNew⟩ :=
    h.symm.results apart_entries table_ne_info table_columns (q := item.query (.ofTable table)) rfl
      rfl ⟨rfl, rfl⟩ hAccepted
  rw [hSelected] at hObjects
  refine ⟨p₂, q'.results, ?_, hBoth.symm, hFrame, hObjects, hNew⟩
  rw [results, hQuery]
  simp only [Transition.ok_bind]
  rw [hRes]
  rfl

/-- `saveData(true)` fills a record in memory. -/
theorem saveData_both (h : Tables p uc ub) (hLink : Text.NulFree item.link)
    (hKey : Text.NulFree item.projectKey) (memory : Object) :
    ∃ q a, item.saveData memory true p = .ok (q, some a) ∧ Tables q uc ub ∧ Frame p q ∧
      (p.store.next ≤ a ∧ a < q.store.next) ∧ q.object a = item.store (target memory item ub) := by
  obtain ⟨p₁, addresses, hRun, hBoth, hFrame, hObjects, hNew⟩ := results_both h hLink hKey
  obtain ⟨q, a, hSave, hReg, hView, hFrom, hNext, hWrote⟩ :=
    saveData_of_results hRun hObjects (fun a ha => (hNew a ha).2) memory
  have hLe : p.store.next ≤ a := hFrom.elim (fun ha => (hNew a ha).1) fun ha => ha ▸ hFrame.next
  refine ⟨q, a, hSave, hBoth.of_view hWrote.floatText hReg hView,
    ⟨hWrote.floatText.trans hFrame.floatText, hFrame.next.trans hWrote.next, fun b hb => ?_⟩,
    ⟨hLe, hNext⟩, hWrote.object⟩
  have hLt : b < p₁.store.next := Nat.lt_of_lt_of_le hb hFrame.next
  rw [hWrote.others b hLt (by omega), hFrame.objects b hb]

/-- The table of records after the part of `saveToCollection` that makes a row: the record is
saved if it has no identifier. -/
def recordTable (floatText : Rat → Rat) (memory : Object) (item : DataItem) (ub : Sql.Table) :
    Sql.Table :=
  if (item.store (target memory item ub)).identifier.toInt < 0 then
    saved floatText table (item.store (target memory item ub)) ub
  else ub

/-- The identifier of that record. -/
def recordIdentifier (memory : Object) (item : DataItem) (ub : Sql.Table) : Int32 :=
  if (item.store (target memory item ub)).identifier.toInt < 0 then
    savedIdentifier (item.store (target memory item ub)) ub
  else (item.store (target memory item ub)).identifier

/-- The object of a new row. -/
def newEntry (entryMemory : Object) (ty key : String) (id : Int32) : Object :=
  setEntry ty key id (CollectionData.construct entryMemory)

theorem saveNew_both (h : Tables p uc ub) {d : Nat} (hLt : d < p.store.next) {memory : Object}
    (hObject : p.object d = item.store (target memory item ub)) :
    ∃ q o, saveNew d p = .ok q ∧ Tables q uc (recordTable p.floatText memory item ub) ∧
      Wrote p q d o ∧ o.identifier = recordIdentifier memory item ub := by
  rw [recordTable, recordIdentifier, ← hObject, saveNew]
  by_cases hNew : (p.object d).identifier.toInt < 0
  · obtain ⟨q, o, hSave, hBoth, hWrote, hIdentifier, -⟩ :=
      h.symm.save apart_entries table_ne_info table_columns (by decide) hLt
    rw [if_pos hNew, if_pos hNew, if_pos hNew]
    exact ⟨q, o, hSave, hBoth.symm, hWrote, hIdentifier⟩
  · rw [if_neg hNew, if_neg hNew, if_neg hNew]
    exact ⟨p, p.object d, rfl, h, ⟨rfl, Nat.le_refl _, rfl, fun _ _ _ => rfl⟩, rfl⟩

/-- A new row in memory, for the record of the item. -/
theorem enter_both (h : Tables p uc ub) (hLink : Text.NulFree item.link)
    (hKey : Text.NulFree item.projectKey) (memory entryMemory : Object) (ty : String) :
    ∃ q a, item.enter memory entryMemory ty p = .ok (q, a) ∧
      Tables q uc (recordTable p.floatText memory item ub) ∧ Frame p q ∧
      (p.store.next ≤ a ∧ a < q.store.next) ∧
      q.object a = newEntry entryMemory ty item.collectionKey (recordIdentifier memory item ub) := by
  obtain ⟨p₁, d, hRun, hBoth, hFrame, ⟨hFrom, hLt⟩, hObject⟩ := saveData_both h hLink hKey memory
  obtain ⟨p₂, o, hSave, hBoth₂, hWrote, hIdentifier⟩ := saveNew_both hBoth hLt hObject
  rw [hFrame.floatText] at hBoth₂
  have hFrame₂ : Frame p p₂ := hFrame.wroteNew hWrote hFrom
  obtain ⟨p₃, hp₃⟩ : ∃ p₃, p₃ = (CollectionData.new entryMemory p₂).1 := ⟨_, rfl⟩
  have hBoth₃ : Tables p₃ uc (recordTable p.floatText memory item ub) := by
    rw [hp₃]
    exact hBoth₂.of_view rfl rfl fun _ hView => hView.setStore rfl
  have hFrame₃ : Frame p₂ p₃ := by
    rw [hp₃]
    exact CollectionData.new_frame entryMemory p₂
  -- the new object does not lie where the record is
  have hRecord : (p₃.object d).identifier = recordIdentifier memory item ub := by
    rw [hFrame₃.objects d (Nat.lt_of_lt_of_le hLt hWrote.next), hWrote.object, hIdentifier]
  refine ⟨p₃.modify p₂.store.next (setEntry ty item.collectionKey (p₃.object d).identifier),
    p₂.store.next, ?_, hBoth₃.modify _ _, (hFrame₂.trans hFrame₃).modify hFrame₂.next _,
    ⟨hFrame₂.next, ?_⟩, ?_⟩
  · rw [enter, hRun]
    simp only [Transition.ok_bind, Option.getD_some, hSave]
    rw [hp₃]
    rfl
  · rw [hp₃]
    exact Nat.lt_succ_self _
  · rw [Program.object_modify, hRecord, hp₃, CollectionData.object_new]
    rfl

/-- The object of the row that `saveToCollection` goes on with. -/
def entryBefore (memory entryMemory : Object) (item : DataItem) (ty : String) (uc ub : Sql.Table) :
    Object :=
  match uc.rows.find? (CollectionData.isEntry ty item.collectionKey) with
  | some r => rowObject CollectionData.table uc r
  | none => newEntry entryMemory ty item.collectionKey (recordIdentifier memory item ub)

/-- The table of records after `saveToCollection`. -/
def recordsAfter (floatText : Rat → Rat) (memory : Object) (item : DataItem) (ty : String)
    (uc ub : Sql.Table) : Sql.Table :=
  match uc.rows.find? (CollectionData.isEntry ty item.collectionKey) with
  | some _ => ub
  | none => recordTable floatText memory item ub

theorem nulFree_collectionKey (hLink : Text.NulFree item.link)
    (hKey : Text.NulFree item.projectKey) : Text.NulFree item.collectionKey := by
  have hPage : Context.Page.NulFree ⟨item.projectKey, item.link⟩ := ⟨hKey, hLink⟩
  exact hPage.saveKey

/-- The row that `saveToCollection` goes on with, in memory. Only a new one counts as changed. -/
theorem entryFor_both (h : Tables p uc ub) (hLink : Text.NulFree item.link)
    (hKey : Text.NulFree item.projectKey) (hType : Text.NulFree ty) (memory entryMemory : Object) :
    ∃ p₁ found q a, CollectionData.find ty item.collectionKey p = .ok (p₁, found) ∧
      item.entryFor memory entryMemory ty found p₁ = .ok (q, a) ∧
      Tables q uc (recordsAfter p.floatText memory item ty uc ub) ∧ Frame p q ∧
      (p.store.next ≤ a ∧ a < q.store.next) ∧
      q.object a = entryBefore memory entryMemory item ty uc ub ∧
      (found.isNone = false → (q.object a).changed = false) := by
  obtain ⟨p₁, found, hFind, hBoth, hFrame, hFound, hRange⟩ :=
    CollectionData.find_both h apart_records hType (nulFree_collectionKey hLink hKey)
  rw [entryBefore, recordsAfter]
  cases found with
  | some a =>
    obtain ⟨r, hRow, hObject⟩ := Option.map_eq_some_iff.mp hFound.symm
    rw [hRow]
    exact ⟨p₁, some a, p₁, a, hFind, rfl, hBoth, hFrame, hRange a rfl, hObject.symm,
      fun _ => by rw [← hObject]; rfl⟩
  | none =>
    have hRow := Option.map_eq_none_iff.mp hFound.symm
    obtain ⟨p₂, a, hRun, hBoth₂, hFrame₂, ⟨hFrom, hLt⟩, hObject⟩ :=
      enter_both hBoth hLink hKey memory entryMemory ty
    rw [hFrame.floatText] at hBoth₂
    rw [hRow]
    exact ⟨p₁, none, p₂, a, hFind, hRun, hBoth₂, hFrame.trans hFrame₂,
      ⟨Nat.le_trans hFrame.next hFrom, hLt⟩, hObject, fun hSome => by cases hSome⟩

/-- What `saveToCollection` does to the two tables, and the object that it returns. -/
theorem saveToCollection_both (h : Tables p uc ub) (hLink : Text.NulFree item.link)
    (hKey : Text.NulFree item.projectKey) (hType : Text.NulFree ty) (memory entryMemory : Object)
    (data : Variant) {o : Object}
    (ho : o = withData data (entryBefore memory entryMemory item ty uc ub)) :
    ∃ q a, item.saveToCollection memory entryMemory ty data p = .ok (q, a) ∧
      Tables q (saved p.floatText CollectionData.table o uc)
        (recordsAfter p.floatText memory item ty uc ub) ∧
      Frame p q ∧ (p.store.next ≤ a ∧ a < q.store.next) ∧
      (q.object a).identifier = savedIdentifier o uc ∧
      ∀ f ∈ CollectionData.table.stored, (q.object a).get f = o.get f := by
  obtain ⟨p₁, found, p₂, a, hFind, hEntry, hBoth, hFrame, ⟨hFrom, hLt⟩, hObject, hSame⟩ :=
    entryFor_both h hLink hKey hType memory entryMemory
  obtain ⟨p₃, hp₃⟩ : ∃ p₃, p₃ = p₂.modify a (withData data) := ⟨_, rfl⟩
  have hObject₃ : p₃.object a = o := by
    rw [hp₃, Program.object_modify, hObject, ho]
  have hBoth₃ : Tables p₃ uc (recordsAfter p.floatText memory item ty uc ub) := by
    rw [hp₃]
    exact hBoth.modify a _
  have hFrame₃ : Frame p p₃ := by
    rw [hp₃]
    exact hFrame.modify hFrom _
  have hLt₃ : a < p₃.store.next := by
    rw [hp₃]
    exact hLt
  -- without a reason to save there is nothing to save
  have hSaves : saveEntry (found.isNone || Variant.toBool data) a p₃ =
      Model.save CollectionData.table a p₃ := by
    cases hReason : found.isNone || Variant.toBool data with
    | true => rfl
    | false =>
      obtain ⟨hFound, hBool⟩ := Bool.or_eq_false_iff.mp hReason
      have hUnchanged : ¬ (p₃.object a).changed = true := by
        rw [hp₃, Program.object_modify, withData, hBool, if_neg Bool.false_ne_true, hSame hFound]
        exact Bool.false_ne_true
      rw [Model.save, if_neg hUnchanged]
      rfl
  obtain ⟨q, o', hSave, hBoth₄, hWrote, hIdentifier, hFields⟩ := hBoth₃.save apart_records
    CollectionData.cls_ne_info CollectionData.table_columns CollectionData.stored_ne_nil hLt₃
  rw [hObject₃] at hBoth₄ hIdentifier hFields
  rw [hFrame₃.floatText] at hBoth₄
  refine ⟨q, a, ?_, hBoth₄, hFrame₃.wroteNew hWrote hFrom,
    ⟨hFrom, Nat.lt_of_lt_of_le hLt₃ hWrote.next⟩, by rw [hWrote.object, hIdentifier],
    fun f hf => by rw [hWrote.object, hFields f hf]⟩
  rw [saveToCollection, hFind]
  simp only [Transition.ok_bind, hEntry]
  rw [← hp₃, hSaves, hSave]
  rfl

theorem isInCollection_both (h : Tables p uc ub) (hLink : Text.NulFree item.link)
    (hKey : Text.NulFree item.projectKey) (hType : Text.NulFree ty) :
    ∃ q, item.isInCollection ty p =
        .ok (q, uc.rows.any (CollectionData.isEntry ty item.collectionKey)) ∧
      Tables q uc ub ∧ Frame p q := by
  obtain ⟨q, found, hFind, hBoth, hFrame, hFound, -⟩ :=
    CollectionData.find_both h apart_records hType (nulFree_collectionKey hLink hKey)
  refine ⟨q, ?_, hBoth, hFrame⟩
  have hSome : found.isSome = uc.rows.any (CollectionData.isEntry ty item.collectionKey) := by
    have hSame := congrArg Option.isSome hFound
    rw [Option.isSome_map, Option.isSome_map] at hSame
    rw [hSame, Bool.eq_iff_iff, List.find?_isSome, List.any_eq_true]
  rw [isInCollection, hFind]
  simp only [Transition.ok_bind]
  rw [hSome]
  rfl

/-- The table of collections after `removeFromCollection`. -/
def entriesAfter (item : DataItem) (ty : String) (uc : Sql.Table) : Sql.Table :=
  match uc.rows.find? (CollectionData.isEntry ty item.collectionKey) with
  | some r => deleted (rowObject CollectionData.table uc r).identifier uc
  | none => uc

theorem removeFromCollection_both (h : Tables p uc ub) (hLink : Text.NulFree item.link)
    (hKey : Text.NulFree item.projectKey) (hType : Text.NulFree ty) :
    ∃ q, item.removeFromCollection ty p = .ok q ∧ Tables q (item.entriesAfter ty uc) ub ∧
      Frame p q := by
  obtain ⟨p₁, found, hFind, hBoth, hFrame, hFound, hRange⟩ :=
    CollectionData.find_both h apart_records hType (nulFree_collectionKey hLink hKey)
  rw [removeFromCollection, hFind, entriesAfter]
  simp only [Transition.ok_bind]
  cases found with
  | some a =>
    obtain ⟨r, hRow, hObject⟩ := Option.map_eq_some_iff.mp hFound.symm
    obtain ⟨hFrom, hLt⟩ := hRange a rfl
    obtain ⟨q, hRemove, hBoth₂, hWrote⟩ := hBoth.remove apart_records CollectionData.cls_ne_info
      CollectionData.table_columns hLt
    rw [← hObject] at hBoth₂
    rw [hRow]
    exact ⟨q, hRemove, hBoth₂, hFrame.wroteNew hWrote hFrom⟩
  | none =>
    have hRow := Option.map_eq_none_iff.mp hFound.symm
    rw [hRow]
    exact ⟨p₁, rfl, hBoth, hFrame⟩

/-- The record is the target of a row of the type. -/
def isTarget (uc : Sql.Table) (ty : String) (b : Sql.Row) : Prop :=
  ∃ r ∈ uc.rows, CollectionData.isOf ty r = true ∧
    targetOf (rowObject CollectionData.table uc r) = b.rowid

theorem mapM_congr_map {α β γ δ : Type} {f : α → γ} {g : β → γ} {as : List α} {bs : List β}
    (read : γ → Option δ) (h : as.map f = bs.map g) :
    as.mapM (fun a => read (f a)) = bs.mapM fun b => read (g b) := by
  have hMapM := congrArg (List.mapM read) h
  rwa [List.mapM_map, List.mapM_map] at hMapM

/-- The records with identifiers among some numbers. -/
theorem recordsIn_both (h : Tables p uc ub) (ids : List Int) :
    ∃ p₁ p₂ q, Model.query table p = .ok (p₁, .ofTable table) ∧
      ((Query.ofTable table).inArray Field.identifier.name (ids.map .int)).res p₁ = .ok (p₂, q) ∧
      Tables p₂ uc ub ∧ Frame p p₂ ∧ q.results.map p₂.object =
        (ub.rows.filter fun b => decide ((b.rowid : Int) ∈ ids)).map (rowObject table ub) := by
  obtain ⟨keys, hKeys⟩ : ∃ keys, keys = ids.map QueryValue.int := ⟨_, rfl⟩
  obtain ⟨query, hQ⟩ : ∃ query, query = (Query.ofTable table).inArray Field.identifier.name keys :=
    ⟨_, rfl⟩
  have hAccepted : query.Accepted [.among Field.identifier.name keys] ub := by
    rw [hQ]
    refine ⟨fun c hc => ?_, fun name hName => (by cases hName), fun hOffset => ?_⟩
    · rw [List.mem_singleton.mp hc]
      exact h.right.holds.mem_names table.identifier_mem
    · have hUnset : ((Query.ofTable table).inArray Field.identifier.name keys).offset = -1 := rfl
      omega
  have hBuilt : query.Built [.among Field.identifier.name keys] := by
    rw [hQ]
    exact ⟨Condition.call_sentence _ (.among Field.identifier.name keys),
      (Condition.call_params _ (.among Field.identifier.name keys)).trans (by simp [Query.ofTable])⟩
  have hSelected : query.selected [.among Field.identifier.name keys] ub =
      ub.rows.filter fun b => decide ((b.rowid : Int) ∈ ids) := by
    rw [hQ]
    change ub.rows.filter (fun b => [Condition.among Field.identifier.name keys].all
      (Condition.holds ub b)) = _
    refine List.filter_congr fun b _ => ?_
    rw [List.all_cons, List.all_nil, Bool.and_true, Bool.eq_iff_iff, decide_eq_true_eq, hKeys,
      h.right.holds.condition_among]
  obtain ⟨p₁, p₂, q, hQuery, hRes, hBoth, hFrame, hObjects, -⟩ :=
    h.symm.results apart_entries table_ne_info table_columns (q := query) (by rw [hQ]; rfl)
      (by rw [hQ]; rfl) hBuilt hAccepted
  rw [hSelected] at hObjects
  rw [hQ, hKeys] at hRes
  exact ⟨p₁, p₂, q, hQuery, hRes, hBoth.symm, hFrame, hObjects⟩

theorem loadCollectionItems_both (h : Tables p uc ub) (hType : Text.NulFree ty) :
    ∃ q, ∃ rows : List Sql.Row, loadCollectionItems ty p =
        .ok (q, rows.mapM fun b => fromData (some (rowObject table ub b))) ∧
      Tables q uc ub ∧ rows.Sublist ub.rows ∧ ∀ b, b ∈ rows ↔ b ∈ ub.rows ∧ isTarget uc ty b := by
  obtain ⟨p₁, cols, entries, hAll, hBoth, hFrame, hPerm, -, hObjects, -, hNew⟩ :=
    CollectionData.all_both h apart_records hType
  obtain ⟨ids, hIds⟩ : ∃ ids : List Int, ids = cols.map (targetOf ∘ p₁.object) := ⟨_, rfl⟩
  have hMem : ∀ b : Sql.Row, (b.rowid : Int) ∈ ids ↔ isTarget uc ty b := by
    intro b
    have hMap := congrArg (List.map targetOf) hObjects
    rw [List.map_map, List.map_map] at hMap
    rw [hIds, isTarget, hMap, List.mem_map]
    exact exists_congr fun r => by
      rw [Function.comp_apply, hPerm.mem_iff, List.mem_filter, and_assoc]
  obtain ⟨p₂, p₃, q, hQuery, hRes, hBoth₂, -, hObjects₂⟩ := recordsIn_both hBoth ids
  refine ⟨p₃, ub.rows.filter fun b => decide ((b.rowid : Int) ∈ ids), ?_, hBoth₂,
    List.filter_sublist, fun b => by rw [List.mem_filter, decide_eq_true_eq, hMem]⟩
  have hKeys : cols.map (fun col => QueryValue.int (targetOf (p₁.object col))) = ids.map .int := by
    rw [hIds, List.map_map]
    rfl
  have hItems : q.results.mapM (fun a => fromData (some (p₃.object a))) =
      (ub.rows.filter fun b => decide ((b.rowid : Int) ∈ ids)).mapM
        fun b => fromData (some (rowObject table ub b)) :=
    mapM_congr_map (fun o => fromData (some o)) hObjects₂
  rw [loadCollectionItems, hAll]
  simp only [Transition.ok_bind]
  rw [hKeys, hQuery]
  simp only [Transition.ok_bind]
  rw [hRes, ← hItems]
  rfl

end Methods

end RetroConfig.DataItem
