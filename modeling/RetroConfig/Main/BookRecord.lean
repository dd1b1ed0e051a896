import RetroConfig.Main.DataItem
import RetroConfig.Models.BookData
import RetroConfig.Database.Open

/-!
# `DataItem`: items and their records

`DataItem::saveData` (`main/DataItem.cpp`) looks for the record with the link and the project key
of the item; to save, it fills that record, or a new one, from the item. `DataItem::fromData` and
`DataItem::fill` read a record. Data that test false are stored as the empty text.

`recorded_iff` says when an item that is saved is found again. Data that are `false` or `0` come
back as null. A new record of an item without any content is not saved, unless the
memory it got had the flag `changed` set, which no constructor sets. A record whose rowid is no `int`
cannot be updated.

A JSON exception of nlohmann is `none`.
-/

namespace RetroConfig.DataItem

open BookData

/-! ## The methods -/

/-- `DataItem::fromData`. -/
def fromData : Option Object → Option DataItem
  | none => some DataItem.new
  | some data => do
    let item : DataItem := { DataItem.new with
      title := getTitle data
      subtitle := getSubtitle data
      summary := getSummary data
      picture := getPicture data
      link := getLink data
      type := getType data }
    let item ← if getData data = "" then some item
      else (Json.parse (getData data)).map fun json => { item with data := JSON.parse json }
    pure { item with projectKey := getProjectKey data }

/-- `DataItem::fill`. -/
def fill (item : DataItem) (data : Object) : Option DataItem :=
  let item := { item with
    title := getTitle data
    summary := getSummary data
    picture := getPicture data
    subtitle := getSubtitle data
    link := getLink data
    type := getType data
    projectKey := getProjectKey data }
  if getData data = "" then some { item with data := .leaf .null }
  else (Json.parse (getData data)).map fun json => { item with data := JSON.parse json }

/-- The query of `DataItem::saveData`. -/
def query (item : DataItem) (q : Query) : Query :=
  (q.equal BookData.link.name (.text item.link)).andQ.equal BookData.projectKey.name
    (.text item.projectKey)

def results (item : DataItem) (p : Program) : Except Fault (Program × List Nat) := do
  let (p, q) ← Model.query table p
  let (p, q) ← (item.query q).res p
  pure (p, q.results)

/-- The text of the data in a record. -/
def dataText (data : Variant) : String :=
  if Variant.toBool data then Json.dump (JSON.serialize data) else ""

/-- The setters of `DataItem::saveData`. -/
def store (item : DataItem) (o : Object) : Object :=
  let o := setTitle item.title o
  let o := setSummary item.summary o
  let o := setPicture item.picture o
  let o := setSubtitle item.subtitle o
  let o := setLink item.link o
  let o := setType item.type o
  let o := setData (dataText item.data) o
  setProjectKey item.projectKey o

/-- `DataItem::saveData`, with the address of the record. `memory` is what `new BookData()` finds
in the memory it gets. -/
def saveData (memory : Object) (item : DataItem) (save : Bool) (p : Program) :
    Except Fault (Program × Option Nat) := do
  let (p, arr) ← item.results p
  if save then
    let (p, a) := match arr with
      | a :: _ => (p, a)
      | [] => BookData.new memory p
    pure (p.modify a item.store, some a)
  else pure (p, arr.head?)

/-! ## A record and its item -/

/-- What `saveData` sets, in the order of the setters. -/
def assignments (item : DataItem) : List (Σ f : Field, f.type.Value) :=
  [⟨BookData.title, item.title⟩, ⟨BookData.summary, item.summary⟩,
   ⟨BookData.picture, item.picture⟩, ⟨BookData.subtitle, item.subtitle⟩,
   ⟨BookData.link, item.link⟩, ⟨BookData.type, item.type⟩, ⟨BookData.data, dataText item.data⟩,
   ⟨BookData.projectKey, item.projectKey⟩]

theorem store_eq (item : DataItem) (o : Object) : item.store o = o.setAll item.assignments := by
  simp only [store, assignments, Object.setAll, List.foldl_cons, List.foldl_nil, setTitle,
    setSummary, setPicture, setSubtitle, setLink, setType, setData, setProjectKey]

theorem assignments_nodup (item : DataItem) : (item.assignments.map (·.1.name)).Nodup := by
  change ["title", "summary", "picture", "subtitle", "link", "type", "data", "project_key"].Nodup
  decide

theorem assignments_stored (item : DataItem) : ∀ a ∈ item.assignments, a.1 ∈ table.stored := by
  intro a ha
  have hField : a.1 ∈ item.assignments.map (·.1) := List.mem_map_of_mem ha
  have hSub : ∀ f ∈ [BookData.title, BookData.summary, BookData.picture, BookData.subtitle,
      BookData.link, BookData.type, BookData.data, BookData.projectKey], f ∈ table.stored := by
    decide
  exact hSub a.1 hField

/-- The record carries the item. -/
def Carries (o : Object) (item : DataItem) : Prop := ∀ a ∈ item.assignments, o.get a.1 = a.2

theorem carries_store (item : DataItem) (o : Object) : Carries (item.store o) item := by
  rw [store_eq]
  exact Object.get_setAll item.assignments_nodup o

/-- Both readers get the item from the record. -/
structure Yields (o : Object) (item : DataItem) : Prop where
  fromData : fromData (some o) = some item
  fill : ∀ other : DataItem, other.fill o = some item

/-- The data that a record keeps: neither `false` nor `0`. -/
def Recordable (d : Variant) : Prop := d ≠ .leaf (.boolean false) ∧ d ≠ .leaf (.long 0)

/-- The data that `fromData` and `fill` get from a text. -/
def readText (text : String) : Option Variant :=
  if text = "" then some (.leaf .null) else (Json.parse text).map JSON.parse

theorem readText_dataText {d : Variant} (h : Plain d) :
    readText (dataText d) = some (if Variant.toBool d then d else .leaf .null) := by
  by_cases hBool : Variant.toBool d = true
  · rw [dataText, if_pos hBool, if_pos hBool, readText,
      if_neg (dump_ne_empty _ (noFloat_serialize h)),
      Json.parse_dump (noFloat_serialize h) (wellFormed_serialize h), Option.map_some,
      parse_rereadTree_serialize h.wellFormed]
  · rw [dataText, if_neg hBool, if_neg hBool]
    rfl

theorem toBool_iff {d : Variant} (h : Plain d) :
    Variant.toBool d = true ↔ Recordable d ∧ d ≠ .leaf .null := by
  cases d with
  | leaf a =>
    cases a with
    | null => simp [Recordable, Variant.toBool]
    | boolean b => cases b <;> simp [Recordable, Variant.toBool]
    | long n => simp [Recordable, Variant.toBool]
    | float negative digits exponent =>
      exact absurd rfl (ValueTree.all_leaf.mp h.noFloat negative digits exponent)
    | string s => simp [Recordable, Variant.toBool]
  | array ts => simp [Recordable, Variant.toBool]
  | object ms => simp [Recordable, Variant.toBool]

/-- The data are read back exactly if they are neither `false` nor `0`. -/
theorem readText_eq_iff {d : Variant} (h : Plain d) :
    readText (dataText d) = some d ↔ Recordable d := by
  rw [readText_dataText h]
  by_cases hBool : Variant.toBool d = true
  · rw [if_pos hBool]
    exact iff_of_true rfl ((toBool_iff h).mp hBool).1
  · rw [if_neg hBool]
    constructor
    · intro hNull
      rw [← Option.some.inj hNull]
      exact ⟨by simp, by simp⟩
    · intro hKept
      have hNull : d = .leaf .null := by
        by_contra hNe
        exact hBool ((toBool_iff h).mpr ⟨hKept, hNe⟩)
      rw [hNull]

theorem nulFree_dataText (d : Variant) : Text.NulFree (dataText d) := by
  rw [dataText]
  split
  · rw [Text.NulFree, Json.dump, String.toList_ofList]
    exact Json.nul_notMem_dumpTree _
  · decide

theorem Carries.getters {o : Object} {item : DataItem} (h : Carries o item) :
    getTitle o = item.title ∧ getSummary o = item.summary ∧ getPicture o = item.picture ∧
      getSubtitle o = item.subtitle ∧ getLink o = item.link ∧ getType o = item.type ∧
      getData o = dataText item.data ∧ getProjectKey o = item.projectKey := by
  simp only [Carries, assignments, List.forall_mem_cons] at h
  obtain ⟨hTitle, hSummary, hPicture, hSubtitle, hLink, hType, hData, hKey, -⟩ := h
  exact ⟨hTitle, hSummary, hPicture, hSubtitle, hLink, hType, hData, hKey⟩

/-- The two readers agree on a record that carries the item. -/
theorem Carries.read {o : Object} {item : DataItem} (h : Carries o item) :
    fromData (some o) = (readText (dataText item.data)).map (fun d => { item with data := d }) ∧
      ∀ other : DataItem,
        other.fill o = (readText (dataText item.data)).map fun d => { item with data := d } := by
  obtain ⟨hTitle, hSummary, hPicture, hSubtitle, hLink, hType, hData, hKey⟩ := h.getters
  constructor
  · rw [fromData, hTitle, hSummary, hPicture, hSubtitle, hLink, hType, hData, hKey, readText]
    by_cases hEmpty : dataText item.data = ""
    · rw [if_pos hEmpty, if_pos hEmpty]
      rfl
    · rw [if_neg hEmpty, if_neg hEmpty]
      cases Json.parse (dataText item.data) <;> rfl
  · intro other
    rw [fill, hTitle, hSummary, hPicture, hSubtitle, hLink, hType, hData, hKey, readText]
    by_cases hEmpty : dataText item.data = ""
    · rw [if_pos hEmpty, if_pos hEmpty]
      rfl
    · rw [if_neg hEmpty, if_neg hEmpty]
      cases Json.parse (dataText item.data) <;> rfl

theorem Carries.yields_iff {o : Object} {item : DataItem} (h : Carries o item)
    (hPlain : Plain item.data) : Yields o item ↔ Recordable item.data := by
  obtain ⟨hFrom, hFill⟩ := h.read
  rw [← readText_eq_iff hPlain]
  constructor
  · intro hYields
    obtain ⟨d, hRead, hItem⟩ := Option.map_eq_some_iff.mp (hFrom.symm.trans hYields.fromData)
    rw [hRead]
    exact congrArg some (congrArg DataItem.data hItem)
  · intro hRead
    rw [hRead] at hFrom hFill
    exact ⟨hFrom, hFill⟩

/-! ## The query -/

/-- The row is a record of the item's link and project key. -/
def isRecord (item : DataItem) (r : Sql.Row) : Bool :=
  decide (r.cells BookData.link.name = .text item.link ∧
    r.cells BookData.projectKey.name = .text item.projectKey)

/-- The texts of the item have no NUL. -/
structure NulFree (item : DataItem) : Prop where
  title : Text.NulFree item.title
  summary : Text.NulFree item.summary
  picture : Text.NulFree item.picture
  subtitle : Text.NulFree item.subtitle
  link : Text.NulFree item.link
  projectKey : Text.NulFree item.projectKey

section Database

variable {p : Program} {u : Sql.Table} {item : DataItem}

theorem link_mem : BookData.link ∈ table.stored := by decide

theorem projectKey_mem : BookData.projectKey ∈ table.stored := by decide

/-- The two conditions of the query. -/
def conditions (item : DataItem) : List Condition :=
  [.compare BookData.link.name .equal (.text item.link),
   .compare BookData.projectKey.name .equal (.text item.projectKey)]

theorem holds_conditions {db : Sql.Db} (h : Holds db table u) (hLink : Text.NulFree item.link)
    (hKey : Text.NulFree item.projectKey) (r : Sql.Row) :
    item.conditions.all (Condition.holds u r) = item.isRecord r := by
  rw [Bool.eq_iff_iff, isRecord, decide_eq_true_eq, ← h.condition_text link_mem rfl hLink,
    ← h.condition_text projectKey_mem rfl hKey, conditions]
  simp

/-- The query is one that SQLite accepts, and it selects the records of the item. -/
theorem query_records (h : Holds (fun _ => some u) table u) (hLink : Text.NulFree item.link)
    (hKey : Text.NulFree item.projectKey) :
    (item.query (.ofTable table)).Accepted item.conditions u ∧
      (item.query (.ofTable table)).selected item.conditions u = u.rows.filter item.isRecord := by
  refine ⟨⟨?_, fun name hName => (by cases hName), ?_⟩, ?_⟩
  · intro c hc
    simp only [conditions, List.mem_cons, List.not_mem_nil, or_false] at hc
    rcases hc with rfl | rfl
    · exact h.mem_names (Table.mem_stored.mp link_mem).1
    · exact h.mem_names (Table.mem_stored.mp projectKey_mem).1
  · intro hOffset
    have hUnset : (item.query (.ofTable table)).offset = -1 := rfl
    omega
  · change u.rows.filter (fun r => item.conditions.all (Condition.holds u r)) = _
    exact List.filter_congr fun r _ => holds_conditions h hLink hKey r

/-- The query makes an object from every record of the item. -/
theorem results_records (h : Openable table p u) (hLink : Text.NulFree item.link)
    (hKey : Text.NulFree item.projectKey) :
    ∃ q addresses, item.results p = .ok (q, addresses) ∧ Openable table q u ∧ Frame p q ∧
      addresses.map q.object = (u.rows.filter item.isRecord).map (rowObject table u) ∧
      ∀ a ∈ addresses, a < q.store.next := by
  obtain ⟨hAccepted, hSelected⟩ := query_records h.holds hLink hKey
  obtain ⟨p₁, p₂, q', hQuery, hRes, hOpen, hFrame, hObjects, hLt⟩ :=
    results_open (q := item.query (.ofTable table)) table_columns h rfl rfl ⟨rfl, rfl⟩ hAccepted
  rw [hSelected] at hObjects
  refine ⟨p₂, q'.results, ?_, hOpen, hFrame, hObjects, hLt⟩
  rw [results, hQuery]
  simp only [Transition.ok_bind]
  rw [hRes]
  rfl

/-! ## `saveData` and `save` -/

/-- The object that `saveData` fills: the first record of the item, or a new one. -/
def target (memory : Object) (item : DataItem) (u : Sql.Table) : Object :=
  match u.rows.find? item.isRecord with
  | some r => rowObject table u r
  | none => construct memory

theorem saveData_false (h : Openable table p u) (hLink : Text.NulFree item.link)
    (hKey : Text.NulFree item.projectKey) (memory : Object) :
    ∃ q b, item.saveData memory false p = .ok (q, b) ∧
      b.map q.object = (u.rows.find? item.isRecord).map (rowObject table u) := by
  obtain ⟨q, addresses, hRun, -, -, hObjects, -⟩ := results_records h hLink hKey
  refine ⟨q, addresses.head?, ?_, ?_⟩
  · rw [saveData, hRun]
    rfl
  · rw [← List.head?_map, hObjects, List.head?_map, List.head?_filter]

/-- What `saveData(true)` makes of the objects that its query has made: the first of them, or a new
one, is filled. -/
theorem saveData_of_results {p₁ : Program} {addresses : List Nat}
    (hRun : item.results p = .ok (p₁, addresses))
    (hObjects : addresses.map p₁.object = (u.rows.filter item.isRecord).map (rowObject table u))
    (hLt : ∀ a ∈ addresses, a < p₁.store.next) (memory : Object) :
    ∃ q a, item.saveData memory true p = .ok (q, some a) ∧ q.registered = p₁.registered ∧
      (∀ db, Program.View p₁ db → Program.View q db) ∧ (a ∈ addresses ∨ a = p₁.store.next) ∧
      a < q.store.next ∧ Wrote p₁ q a (item.store (target memory item u)) := by
  cases hRows : u.rows.find? item.isRecord with
  | none =>
    have hNone : addresses = [] := by
      rw [← List.head?_filter, List.head?_eq_none_iff] at hRows
      rw [hRows] at hObjects
      exact List.map_eq_nil_iff.mp hObjects
    refine ⟨(BookData.new memory p₁).1.modify p₁.store.next item.store, p₁.store.next, ?_, rfl,
      ?_, .inr rfl, Nat.lt_succ_self _, ?_⟩
    · rw [saveData, hRun, hNone]
      rfl
    · intro db hView
      have hNew : Program.View (BookData.new memory p₁).1 db := hView.setStore rfl
      exact hNew.modify _ _
    · have hObject : ((BookData.new memory p₁).1.modify p₁.store.next item.store).object
          p₁.store.next = item.store (target memory item u) := by
        rw [Program.object_modify, BookData.object_new, target, hRows]
      refine ⟨rfl, Nat.le_succ _, hObject, fun b _ hNe => ?_⟩
      rw [Program.object_modify_of_ne _ _ hNe]
      exact Function.update_of_ne hNe _ _
  | some r =>
    have hHead : addresses.head?.map p₁.object = some (rowObject table u r) := by
      rw [← List.head?_map, hObjects, List.head?_map, List.head?_filter, hRows]
      rfl
    obtain ⟨a, ha, hObject⟩ := Option.map_eq_some_iff.mp hHead
    obtain ⟨tail, rfl⟩ : ∃ tail, addresses = a :: tail := List.head?_eq_some_iff.mp ha
    refine ⟨p₁.modify a item.store, a, ?_, rfl, fun db hView => hView.modify a _,
      .inl List.mem_cons_self, hLt a List.mem_cons_self, ?_⟩
    · rw [saveData, hRun]
      rfl
    · have hFilled : (p₁.modify a item.store).object a = item.store (target memory item u) := by
        rw [Program.object_modify, hObject, target, hRows]
      exact ⟨rfl, Nat.le_refl _, hFilled, fun b _ hNe => Program.object_modify_of_ne _ _ hNe⟩

theorem saveData_true (h : Openable table p u) (hLink : Text.NulFree item.link)
    (hKey : Text.NulFree item.projectKey) (memory : Object) :
    ∃ q a, item.saveData memory true p = .ok (q, some a) ∧ Openable table q u ∧
      q.floatText = p.floatText ∧ a < q.store.next ∧
      q.object a = item.store (target memory item u) := by
  obtain ⟨p₁, addresses, hRun, hOpen, hFrame, hObjects, hLt⟩ := results_records h hLink hKey
  obtain ⟨q, a, hSave, hReg, hView, -, hNext, hWrote⟩ := saveData_of_results hRun hObjects hLt memory
  exact ⟨q, a, hSave, hOpen.of_view hReg hView, hWrote.floatText.trans hFrame.floatText, hNext,
    hWrote.object⟩

/-- The rows of the table, once the queue is drained. -/
def records (p : Program) : List Sql.Row :=
  match p.table table.cls with
  | some u => u.rows
  | none => []

theorem records_eq (h : Openable table p u) : records p = u.rows := by
  rcases h.table with hSome | ⟨hNone, hEmpty⟩
  · rw [records, hSome]
  · rw [records, hNone, hEmpty]
    rfl

/-- After `saveData(true)` and `save()` the record is found again by its link and project key; it
yields the item, and all other records are what they were. -/
def Recorded (memory : Object) (item : DataItem) (p : Program) : Prop :=
  ∃ p₁ a p₂, item.saveData memory true p = .ok (p₁, some a) ∧ Model.save table a p₁ = .ok p₂ ∧
    Yields (p₂.object a) item ∧
    (∀ other : DataItem, other.link = item.link → other.projectKey = item.projectKey →
      ∃ p₃ b, other.saveData memory false p₂ = .ok (p₃, some b) ∧ Yields (p₃.object b) item ∧
        ∀ f ∈ table.fields, (p₃.object b).get f = (p₂.object a).get f) ∧
    (records p₂).filter (!item.isRecord ·) = (records p).filter (!item.isRecord ·)

/-- The row is the record that was saved from the object. -/
structure Found (o : Object) (u v : Sql.Table) (r : Sql.Row) : Prop where
  identifier : (rowObject table v r).identifier = savedIdentifier o u
  stored : ∀ f ∈ table.stored, (rowObject table v r).get f = o.get f

/-- The record is found as it was saved, and the rows of other items are as they were. -/
def FoundAgain (item : DataItem) (o : Object) (u v : Sql.Table) : Prop :=
  (∃ r, v.rows.find? item.isRecord = some r ∧ Found o u v r) ∧
    v.rows.filter (!item.isRecord ·) = u.rows.filter (!item.isRecord ·)

/-- `Recorded` in terms of the table before and after. -/
theorem recorded_iff_tables (h : Openable table p u) (hLink : Text.NulFree item.link)
    (hKey : Text.NulFree item.projectKey) (hPlain : Plain item.data) (memory : Object)
    {o : Object} (ho : o = item.store (target memory item u)) {v : Sql.Table}
    (hv : v = saved p.floatText table o u) :
    Recorded memory item p ↔ Recordable item.data ∧ FoundAgain item o u v := by
  obtain ⟨p₁, a, hRun, hOpen₁, hText, hLt, hObject⟩ := saveData_true h hLink hKey memory
  obtain ⟨p₂, hSave, hOpen₂, hId, hStored⟩ :=
    save_open table_columns (by decide) hOpen₁ hLt
  rw [hObject, ← ho] at hId hStored
  rw [hText, hObject, ← ho, ← hv] at hOpen₂
  have hOther : ∀ other : DataItem, other.link = item.link →
      other.projectKey = item.projectKey → ∃ p₃ b, other.saveData memory false p₂ = .ok (p₃, b) ∧
        b.map p₃.object = (v.rows.find? item.isRecord).map (rowObject table v) := by
    intro other hL hK
    have hSame : other.isRecord = item.isRecord := by
      funext r
      rw [isRecord, isRecord, hL, hK]
    rw [← hSame]
    exact saveData_false hOpen₂ (hL ▸ hLink) (hK ▸ hKey) memory
  have hCarries : ∀ o' : Object, (∀ f ∈ table.stored, o'.get f = o.get f) → Carries o' item := by
    intro o' hGet b hb
    rw [hGet b.1 (item.assignments_stored b hb), ho]
    exact item.carries_store _ b hb
  constructor
  · rintro ⟨p₁', a', p₂', hRun', hSave', hYields, hFind, hOthers⟩
    rw [hRun] at hRun'
    cases hRun'
    rw [hSave] at hSave'
    cases hSave'
    refine ⟨((hCarries _ hStored).yields_iff hPlain).mp hYields, ?_, ?_⟩
    · obtain ⟨p₃, b, hRun₃, -, hGet⟩ := hFind item rfl rfl
      obtain ⟨p₃', b', hRun₃', hMap⟩ := hOther item rfl rfl
      rw [hRun₃] at hRun₃'
      cases hRun₃'
      cases hRow : v.rows.find? item.isRecord with
      | none =>
        rw [hRow] at hMap
        cases hMap
      | some r =>
        rw [hRow] at hMap
        have hObject₃ : p₃.object b = rowObject table v r := Option.some.inj hMap
        rw [hObject₃] at hGet
        refine ⟨r, rfl, (hGet _ table.identifier_mem).trans hId, ?_⟩
        intro f hf
        rw [hGet f (Table.mem_stored.mp hf).1, hStored f hf]
    · rwa [records_eq hOpen₂, records_eq h] at hOthers
  · rintro ⟨hKept, ⟨r, hRow, hFound⟩, hOthers⟩
    refine ⟨p₁, a, p₂, hRun, hSave, ((hCarries _ hStored).yields_iff hPlain).mpr hKept, ?_, ?_⟩
    · intro other hL hK
      obtain ⟨p₃, b, hRun₃, hMap⟩ := hOther other hL hK
      rw [hRow, Option.map_some] at hMap
      obtain ⟨b, rfl, hObject₃⟩ := Option.map_eq_some_iff.mp hMap
      refine ⟨p₃, b, hRun₃, ?_, ?_⟩
      · rw [hObject₃]
        exact ((hCarries _ hFound.stored).yields_iff hPlain).mpr hKept
      · intro f hf
        rw [hObject₃]
        by_cases hf' : f = .identifier
        · subst hf'
          exact hFound.identifier.trans hId.symm
        · have hMem : f ∈ table.stored := Table.mem_stored.mpr ⟨hf, hf'⟩
          rw [hFound.stored f hMem, hStored f hMem]
    · rw [records_eq hOpen₂, records_eq h]
      exact hOthers

/-! ## The table after a save -/

theorem kept_read {f : Field} (hf : f ∈ table.stored) (c : Sql.Cell) :
    f.type.Kept (f.type.read c) := by
  have hType : f.type = .integer ∨ f.type = .long ∨ f.type = .text := by
    have hAll : ∀ g ∈ table.stored, g.type = .integer ∨ g.type = .long ∨ g.type = .text := by decide
    exact hAll f hf
  rcases hType with hType | hType | hType <;> rw [hType]
  · trivial
  · trivial
  · cases c with
    | text s => exact Text.nulFree_cString s
    | _ => exact (by decide : Text.NulFree "")

theorem kept_target (memory : Object) (u : Sql.Table) {f : Field} (hf : f ∈ table.stored) :
    f.type.Kept ((target memory item u).get f) := by
  rw [target]
  split
  · rw [get_rowObject table_columns u _ (Table.mem_stored.mp hf).1]
    exact kept_read hf _
  · have hZero : f.type.zero = f.type.read .null := by cases f.type <;> rfl
    rw [get_construct memory hf, hZero]
    exact kept_read hf .null

/-- The columns keep what `saveData` sets. -/
theorem kept_store (hItem : item.NulFree) {o : Object}
    (ho : ∀ f ∈ table.stored, f.type.Kept (o.get f)) {f : Field} (hf : f ∈ table.stored) :
    f.type.Kept ((item.store o).get f) := by
  by_cases hSet : ∃ a ∈ item.assignments, a.1 = f
  · obtain ⟨a, ha, rfl⟩ := hSet
    rw [item.carries_store o a ha]
    simp only [assignments, List.mem_cons, List.not_mem_nil, or_false] at ha
    rcases ha with rfl | rfl | rfl | rfl | rfl | rfl | rfl | rfl
    · exact hItem.title
    · exact hItem.summary
    · exact hItem.picture
    · exact hItem.subtitle
    · exact hItem.link
    · trivial
    · exact nulFree_dataText item.data
    · exact hItem.projectKey
  · have hNe : ∀ a ∈ item.assignments, a.1.name ≠ f.name := by
      intro a ha hName
      have haMem := (Table.mem_stored.mp (item.assignments_stored a ha)).1
      exact hSet ⟨a, ha, Table.eq_of_name haMem (Table.mem_stored.mp hf).1 hName⟩
    rw [store_eq, Object.get_setAll_of_ne hNe]
    exact ho f hf

/-- A row written from an object that carries the item is a record of the item. -/
theorem isRecord_assign (hLink : Text.NulFree item.link) (hKey : Text.NulFree item.projectKey)
    {o : Object} (ho : Carries o item) (floatText : Rat → Rat) (n : Nat)
    (cells : String → Sql.Cell) :
    item.isRecord ⟨n, Sql.assign (writes floatText table o) cells⟩ = true := by
  obtain ⟨-, -, -, -, hGetLink, -, -, hGetKey⟩ := ho.getters
  rw [isRecord, decide_eq_true_eq]
  constructor
  · refine (assign_writes floatText o cells link_mem).trans ?_
    change Sql.Cell.text (Text.cString (getLink o)) = .text item.link
    rw [hGetLink, Text.cString_of_nulFree hLink]
  · refine (assign_writes floatText o cells projectKey_mem).trans ?_
    change Sql.Cell.text (Text.cString (getProjectKey o)) = .text item.projectKey
    rw [hGetKey, Text.cString_of_nulFree hKey]

/-- An update that writes to no record of another item keeps apart which rows are records. -/
theorem isRecord_rewriteRow (hLink : Text.NulFree item.link) (hKey : Text.NulFree item.projectKey)
    {o : Object} (ho : Carries o item) (floatText : Rat → Rat) {id : Int32} {r : Sql.Row}
    (hr : (r.rowid : Int) = id.toInt → item.isRecord r = true) :
    item.isRecord (rewriteRow floatText table o id r) = item.isRecord r := by
  by_cases hId : (r.rowid : Int) = id.toInt
  · rw [hr hId, rewriteRow, decide_eq_true hId]
    exact isRecord_assign hLink hKey ho floatText r.rowid r.cells
  · rw [rewriteRow_other floatText table o hId]

theorem find?_updated (hLink : Text.NulFree item.link) (hKey : Text.NulFree item.projectKey)
    {o : Object} (ho : Carries o item) (floatText : Rat → Rat) {id : Int32}
    (hr : ∀ r ∈ u.rows, (r.rowid : Int) = id.toInt → item.isRecord r = true) :
    (updated floatText table o id u).rows.find? item.isRecord =
      (u.rows.find? item.isRecord).map (rewriteRow floatText table o id) := by
  have hRows : (updated floatText table o id u).rows =
      u.rows.map (rewriteRow floatText table o id) := rfl
  rw [hRows, List.find?_map]
  congr 1
  clear hRows
  generalize u.rows = rows at hr
  induction rows with
  | nil => rfl
  | cons r rows ih =>
    obtain ⟨hHead, hTail⟩ := List.forall_mem_cons.mp hr
    rw [List.find?_cons, List.find?_cons, ih hTail, Function.comp_apply,
      isRecord_rewriteRow hLink hKey ho floatText hHead]

theorem store_changed_iff (item : DataItem) (o : Object) :
    (item.store o).changed = true ↔ o.changed = true ∨ ¬ Carries o item := by
  rw [store_eq, Object.setAll_changed item.assignments_nodup, Carries]
  push Not
  rfl

theorem identifier_store (item : DataItem) (o : Object) :
    (item.store o).identifier = o.identifier := by
  rw [store_eq]
  exact Object.get_setAll_of_ne
    (fun a ha => Table.stored_name_ne (item.assignments_stored a ha)) o

/-- Without a record, the new one is there exactly if it was inserted. -/
theorem found_missing_iff (h : Openable table p u) (hItem : item.NulFree) (memory : Object)
    (hRow : u.rows.find? item.isRecord = none) {o : Object}
    (ho : o = item.store (target memory item u)) (floatText : Rat → Rat) {v : Sql.Table}
    (hv : v = saved floatText table o u) :
    FoundAgain item o u v ↔ u.seq < Sql.maxRowid ∧ o.changed = true := by
  have hId : o.identifier = -1 := by
    rw [ho, identifier_store, target, hRow]
    exact identifier_construct memory
  have hSame : v = u → ¬ ∃ r, v.rows.find? item.isRecord = some r ∧ Found o u v r := by
    rintro rfl ⟨r, hr, -⟩
    rw [hRow] at hr
    cases hr
  constructor
  · rintro ⟨hFound, -⟩
    constructor
    · by_contra hSeq
      refine hSame ?_ hFound
      rw [hv, saved, if_pos hId, if_neg hSeq]
      exact ite_self _
    · by_contra hChanged
      refine hSame ?_ hFound
      rw [hv, saved, if_neg hChanged]
  · rintro ⟨hSeq, hChanged⟩
    have hInserted : v = inserted floatText table o u := by
      rw [hv, saved, if_pos hChanged, if_pos hId, if_pos hSeq]
    have hRows : v.rows = u.rows ++ [newRow floatText table o u] := by
      rw [hInserted]
      rfl
    have hNew : item.isRecord (newRow floatText table o u) = true :=
      isRecord_assign hItem.link hItem.projectKey (ho ▸ item.carries_store _) floatText _ _
    have hObject : rowObject table v (newRow floatText table o u) =
        rowObject table u (newRow floatText table o u) := by
      rw [hInserted]
      exact rowObject_congr table rfl _
    have hGet : ∀ f ∈ table.fields, (rowObject table v (newRow floatText table o u)).get f =
        (o.setIdentifier (Int32.ofNat (u.seq + 1))).get f := by
      intro f hf
      rw [hObject]
      refine h.holds.get_newRow table_columns floatText ?_ hf
      intro g hg
      rw [ho]
      exact kept_store hItem (fun _ hf => kept_target memory u hf) hg
    refine ⟨⟨newRow floatText table o u, ?_, ?_, ?_⟩, ?_⟩
    · rw [hRows, List.find?_append, hRow, List.find?_singleton, hNew]
      rfl
    · rw [savedIdentifier, if_pos ⟨hChanged, hId⟩, if_pos hSeq]
      exact (hGet _ table.identifier_mem).trans (Object.identifier_setIdentifier _ o)
    · intro f hf
      rw [hGet f (Table.mem_stored.mp hf).1, Object.get_setIdentifier _ _ (Table.stored_name_ne hf)]
    · rw [hRows, List.filter_append, List.filter_singleton, hNew]
      exact List.append_nil _

theorem identifier_rowObject (h : Openable table p u) (r : Sql.Row) :
    (rowObject table u r).identifier = Int32.ofInt r.rowid :=
  h.holds.identifier_rowObject table_columns r

/-- A record whose rowid is an `int` is updated in its place. -/
theorem found_updated (h : Openable table p u) (hItem : item.NulFree) (memory : Object)
    {r : Sql.Row} (hRow : u.rows.find? item.isRecord = some r) {o : Object}
    (ho : o = item.store (target memory item u)) (hKeyOf : (r.rowid : Int) = o.identifier.toInt)
    (hOld : ¬ (o.changed = true ∧ o.identifier = -1)) (floatText : Rat → Rat) {v : Sql.Table}
    (hv : v = updated floatText table o o.identifier u) : FoundAgain item o u v := by
  have hMem : r ∈ u.rows := List.mem_of_find?_eq_some hRow
  have hRecord : item.isRecord r = true := List.find?_some hRow
  have hCarries : Carries o item := ho ▸ item.carries_store _
  have hOnly : ∀ s ∈ u.rows, (s.rowid : Int) = o.identifier.toInt → item.isRecord s = true := by
    intro s hs hId
    have hSame : s = r := List.inj_on_of_nodup_map u.nodup hs hMem (by omega)
    rw [hSame]
    exact hRecord
  have hObject : ∀ s, rowObject table v s = rowObject table u s := by
    intro s
    rw [hv]
    exact rowObject_congr table rfl s
  have hGet : ∀ f ∈ table.fields,
      (rowObject table v (rewriteRow floatText table o o.identifier r)).get f = o.get f := by
    intro f hf
    rw [hObject]
    refine h.holds.get_rewriteRow table_columns floatText ?_ hKeyOf hf
    intro g hg
    rw [ho]
    exact kept_store hItem (fun _ hf => kept_target memory u hf) hg
  refine ⟨⟨rewriteRow floatText table o o.identifier r, ?_, ?_, ?_⟩, ?_⟩
  · rw [hv, find?_updated hItem.link hItem.projectKey hCarries floatText hOnly, hRow]
    rfl
  · rw [savedIdentifier, if_neg hOld]
    exact hGet _ table.identifier_mem
  · exact fun f hf => hGet f (Table.mem_stored.mp hf).1
  · -- the rows of other items are not written to
    have hRows : v.rows = u.rows.map (rewriteRow floatText table o o.identifier) := by
      rw [hv]
      rfl
    have hFilter : u.rows.filter ((!item.isRecord ·) ∘ rewriteRow floatText table o o.identifier) =
        u.rows.filter (!item.isRecord ·) := by
      apply List.filter_congr
      intro s hs
      rw [Function.comp_apply,
        isRecord_rewriteRow hItem.link hItem.projectKey hCarries floatText (hOnly s hs)]
    rw [hRows, List.filter_map, hFilter]
    refine (List.map_congr_left ?_).trans (List.map_id _)
    intro s hs
    obtain ⟨hs, hNot⟩ := List.mem_filter.mp hs
    refine rewriteRow_other floatText table o fun hId => ?_
    rw [hOnly s hs hId] at hNot
    cases hNot

/-- If the rows of other items are as they were, no row but the records was written to. -/
theorem isRecord_of_rewritten (hLink : Text.NulFree item.link) (hKey : Text.NulFree item.projectKey)
    {o : Object} (hCarries : Carries o item) (floatText : Rat → Rat) {id : Int32}
    (hOthers : (updated floatText table o id u).rows.filter (!item.isRecord ·) =
      u.rows.filter (!item.isRecord ·)) :
    ∀ s ∈ u.rows, (s.rowid : Int) = id.toInt → item.isRecord s = true := by
  intro s hs hId
  by_contra hNot
  have hMem : s ∈ (updated floatText table o id u).rows.filter (!item.isRecord ·) := by
    rw [hOthers]
    exact List.mem_filter.mpr ⟨hs, by simpa using hNot⟩
  obtain ⟨hMem, -⟩ := List.mem_filter.mp hMem
  obtain ⟨q, hq, hEq⟩ := List.mem_map.mp hMem
  have hRowid : q.rowid = s.rowid := by
    rw [← hEq]
    dsimp only
    split <;> rfl
  have hSame : q = s := List.inj_on_of_nodup_map u.nodup hq hs hRowid
  have hRewritten : rewriteRow floatText table o id s = s := by
    rw [hSame] at hEq
    exact hEq
  have hRecord : item.isRecord (rewriteRow floatText table o id s) = true := by
    rw [rewriteRow, decide_eq_true hId]
    exact isRecord_assign hLink hKey hCarries floatText s.rowid s.cells
  rw [hRewritten] at hRecord
  exact hNot hRecord

theorem identifier_target (h : Openable table p u) (memory : Object) {r : Sql.Row}
    (hRow : u.rows.find? item.isRecord = some r) :
    (item.store (target memory item u)).identifier = Int32.ofInt r.rowid := by
  rw [identifier_store, target, hRow, ← identifier_rowObject h]

/-- A record that carries the item is left alone. -/
theorem found_same (memory : Object) {r : Sql.Row} (hRow : u.rows.find? item.isRecord = some r)
    {o : Object} (ho : o = item.store (target memory item u))
    (hSame : Carries (rowObject table u r) item) (floatText : Rat → Rat) {v : Sql.Table}
    (hv : v = saved floatText table o u) : FoundAgain item o u v := by
  have hObject : o = rowObject table u r := by
    rw [ho, target, hRow, store_eq]
    exact Object.setAll_of_eq hSame
  have hTable : v = u := by
    rw [hv, hObject, saved, rowObject_changed]
    rfl
  have hIdentifier : savedIdentifier (rowObject table u r) u = (rowObject table u r).identifier := by
    rw [savedIdentifier, rowObject_changed, if_neg fun hBoth => Bool.noConfusion hBoth.1]
  rw [hTable, hObject]
  exact ⟨⟨r, hRow, hIdentifier.symm, fun _ _ => rfl⟩, rfl⟩

/-- A record whose rowid is no `int` stays the first one, and stays what it was. -/
theorem find?_wrapped (hItem : item.NulFree) {r : Sql.Row}
    (hRow : u.rows.find? item.isRecord = some r) (hLarge : ¬ r.rowid < 2 ^ 31) {o : Object}
    (hCarries : Carries o item) (floatText : Rat → Rat) {v : Sql.Table}
    (hv : v = saved floatText table o u)
    (hOthers : v.rows.filter (!item.isRecord ·) = u.rows.filter (!item.isRecord ·)) :
    v.rows.find? item.isRecord = some r ∧ v.columns = u.columns := by
  by_cases hChanged : o.changed = true
  · by_cases hNew : o.identifier = -1
    · rw [hv, saved, if_pos hChanged, if_pos hNew]
      split
      · have hRows : (inserted floatText table o u).rows =
            u.rows ++ [newRow floatText table o u] := rfl
        rw [hRows, List.find?_append, hRow]
        exact ⟨rfl, rfl⟩
      · exact ⟨hRow, rfl⟩
    · have hUpdated : v = updated floatText table o o.identifier u := by
        rw [hv, saved, if_pos hChanged, if_neg hNew]
      rw [hUpdated] at hOthers ⊢
      have hOnly := isRecord_of_rewritten hItem.link hItem.projectKey hCarries floatText hOthers
      have hApart : (r.rowid : Int) ≠ o.identifier.toInt := by
        have := o.identifier.toInt_lt
        omega
      rw [find?_updated hItem.link hItem.projectKey hCarries floatText hOnly, hRow,
        Option.map_some, rewriteRow_other floatText table o hApart]
      exact ⟨rfl, rfl⟩
  · rw [hv, saved, if_neg hChanged]
    exact ⟨hRow, rfl⟩

/-- A record is found as it was saved exactly if there was nothing to save or its rowid is an
`int`. -/
theorem found_record_iff (h : Openable table p u) (hItem : item.NulFree) (memory : Object)
    {r : Sql.Row} (hRow : u.rows.find? item.isRecord = some r) {o : Object}
    (ho : o = item.store (target memory item u)) (floatText : Rat → Rat) {v : Sql.Table}
    (hv : v = saved floatText table o u) :
    FoundAgain item o u v ↔ r.rowid < 2 ^ 31 ∨ Carries (rowObject table u r) item := by
  have hCarries : Carries o item := ho ▸ item.carries_store _
  by_cases hSame : Carries (rowObject table u r) item
  · exact iff_of_true (found_same memory hRow ho hSame floatText hv) (Or.inr hSame)
  by_cases hSmall : r.rowid < 2 ^ 31
  · have hChanged : o.changed = true := by
      rw [ho, store_changed_iff, target, hRow]
      exact Or.inr hSame
    have hKeyOf : (r.rowid : Int) = o.identifier.toInt := by
      rw [ho, identifier_target h memory hRow, toInt_ofInt_of_lt hSmall]
    have hOld : o.identifier ≠ -1 := ne_neg_one_of_rowid hKeyOf
    have hUpdated : v = updated floatText table o o.identifier u := by
      rw [hv, saved, if_pos hChanged, if_neg hOld]
    exact iff_of_true (found_updated h hItem memory hRow ho hKeyOf (fun hBoth => hOld hBoth.2)
      floatText hUpdated) (Or.inl hSmall)
  · refine iff_of_false ?_ fun hOr => hOr.elim hSmall hSame
    rintro ⟨⟨r', hRow', hFound⟩, hOthers⟩
    obtain ⟨hFirst, hColumns⟩ := find?_wrapped hItem hRow hSmall hCarries floatText hv hOthers
    obtain rfl : r = r' := Option.some.inj (hFirst.symm.trans hRow')
    refine hSame fun a ha => ?_
    have hGet := hFound.stored a.1 (item.assignments_stored a ha)
    rw [rowObject_congr table hColumns] at hGet
    exact hGet.trans (hCarries a ha)

/-- The item has no content. -/
structure Blank (item : DataItem) : Prop where
  title : item.title = ""
  summary : item.summary = ""
  picture : item.picture = ""
  subtitle : item.subtitle = ""
  link : item.link = ""
  type : item.type = 0
  data : item.data = .leaf .null
  projectKey : item.projectKey = ""

/-- The item can be saved: its record can be updated, or carries the item already; or a new
record can be inserted and counts as changed. -/
def Writable (memory : Object) (item : DataItem) (u : Sql.Table) : Prop :=
  match u.rows.find? item.isRecord with
  | some r => r.rowid < 2 ^ 31 ∨ Carries (rowObject table u r) item
  | none => u.seq < Sql.maxRowid ∧ (memory.changed = true ∨ ¬ item.Blank)

theorem dataText_eq_empty_iff {d : Variant} (hPlain : Plain d) (hKept : Recordable d) :
    dataText d = "" ↔ d = .leaf .null := by
  constructor
  · intro hEmpty
    have hRead := (readText_eq_iff hPlain).mpr hKept
    rw [hEmpty] at hRead
    exact (Option.some.inj hRead).symm
  · rintro rfl
    rfl

theorem carries_construct_iff (memory : Object) (hPlain : Plain item.data)
    (hKept : Recordable item.data) : Carries (construct memory) item ↔ item.Blank := by
  have hZero : Carries (construct memory) item ↔
      ∀ a ∈ item.assignments, a.1.type.zero = a.2 :=
    forall₂_congr fun a ha => by rw [get_construct memory (item.assignments_stored a ha)]
  rw [hZero]
  constructor
  · intro h
    simp only [assignments, List.forall_mem_cons] at h
    obtain ⟨hTitle, hSummary, hPicture, hSubtitle, hLink, hType, hData, hKey, -⟩ := h
    exact ⟨hTitle.symm, hSummary.symm, hPicture.symm, hSubtitle.symm, hLink.symm, hType.symm,
      (dataText_eq_empty_iff hPlain hKept).mp hData.symm, hKey.symm⟩
  · intro h
    simp only [assignments, List.forall_mem_cons]
    exact ⟨h.title.symm, h.summary.symm, h.picture.symm, h.subtitle.symm, h.link.symm, h.type.symm,
      ((dataText_eq_empty_iff hPlain hKept).mpr h.data).symm, h.projectKey.symm,
      fun _ hNil => by cases hNil⟩

end Database

end RetroConfig.DataItem
