import RetroConfig.Main.CollectionItems

/-!
# Collections as sets

A collection is to be the set of the links, each of a project, that were saved to it and not removed
since. `Collected S uc ub` says that the rows of `CollectionData` stand for the set `S`, and that each
of them points to a record with the project and the link of its key. `saveToCollection` adds to the
set and `removeFromCollection` takes out (`Collected.save`, `Collected.remove`), and
`isInCollection` and `loadCollectionItems` read it (`Collected.mem`, `Collected.load`).

A new row needs a record to point to. A record that cannot be saved (`RecordSavable`) leaves a row
without one.
-/

namespace RetroConfig.DataItem

open SQLite Program BookData

/-- A link of a project in a collection. -/
structure Entry where
  ty : String
  projectKey : String
  link : String
  deriving DecidableEq

namespace Entry

/-- The entry of an item in the collection of a type. -/
def of (ty : String) (item : DataItem) : Entry := ⟨ty, item.projectKey, item.link⟩

def key (e : Entry) : String := e.projectKey ++ ":" ++ e.link

/-- The row of `CollectionData` is the one of the entry. -/
def names (e : Entry) (r : Sql.Row) : Bool := CollectionData.isEntry e.ty e.key r

/-- The record is one of the project and the link. -/
def isRecord (e : Entry) (b : Sql.Row) : Prop :=
  b.cells BookData.link.name = .text e.link ∧ b.cells BookData.projectKey.name = .text e.projectKey

theorem isRecord_of {item : DataItem} {ty : String} {b : Sql.Row} :
    item.isRecord b = true ↔ (of ty item).isRecord b := decide_eq_true_iff

/-- The texts have no NUL, and the project key has no `:`. -/
structure Lawful (e : Entry) : Prop where
  ty : Text.NulFree e.ty
  projectKey : Text.NulFree e.projectKey
  link : Text.NulFree e.link
  noColon : ':' ∉ e.projectKey.toList

theorem nulFree_key {e : Entry} (h : e.Lawful) : Text.NulFree e.key := by
  have hPage : Context.Page.NulFree ⟨e.projectKey, e.link⟩ := ⟨h.projectKey, h.link⟩
  exact hPage.saveKey

/-- A row is the one of a single entry. -/
theorem Lawful.unique {e e' : Entry} (h : e.Lawful) (h' : e'.Lawful) {r : Sql.Row}
    (hr : e.names r = true) (hr' : e'.names r = true) : e = e' := by
  obtain ⟨hType, hKey⟩ := CollectionData.isEntry_iff.mp hr
  obtain ⟨hType', hKey'⟩ := CollectionData.isEntry_iff.mp hr'
  have hSameKey : e.key = e'.key := Sql.Cell.text.inj (hKey.symm.trans hKey')
  have hEmpty : Context.saveKey ⟨e.projectKey, e.link⟩ ++ "" =
      Context.saveKey ⟨e'.projectKey, e'.link⟩ := by
    rw [String.append_empty]
    exact hSameKey
  obtain ⟨hProject, hLink⟩ := (Context.saveKey_append_eq_iff (p := ⟨e.projectKey, e.link⟩)
    (q := ⟨e'.projectKey, e'.link⟩) h.noColon h'.noColon "").mp hEmpty
  rw [String.append_empty] at hLink
  obtain ⟨ty, projectKey, link⟩ := e
  obtain ⟨ty', projectKey', link'⟩ := e'
  obtain rfl : ty = ty' := Sql.Cell.text.inj (hType.symm.trans hType')
  obtain rfl : projectKey = projectKey' := hProject
  obtain rfl : link = link' := hLink
  rfl

end Entry

/-- An item can be made from the record. -/
def Readable (ub : Sql.Table) (b : Sql.Row) : Prop :=
  (fromData (some (rowObject table ub b))).isSome = true

/-- The row points to a record of the entry. -/
structure Points (e : Entry) (r : Sql.Row) (ub : Sql.Table) (b : Sql.Row) : Prop where
  mem : b ∈ ub.rows
  target : r.cells CollectionData.targetID.name = .int b.rowid
  small : b.rowid < 2 ^ 31
  record : e.isRecord b
  readable : Readable ub b

/-- The rows stand for the set: each is the only one of an entry of the set and points to a record of
it, and every entry has one. -/
structure Collected (S : Set Entry) (uc ub : Sql.Table) : Prop where
  lawful : ∀ e ∈ S, e.Lawful
  rows : ∀ r ∈ uc.rows, ∃ e ∈ S, e.names r = true ∧ ∃ b, Points e r ub b
  entries : ∀ e ∈ S, ∃ r ∈ uc.rows, e.names r = true
  single : ∀ e : Entry, ∀ r ∈ uc.rows, ∀ q ∈ uc.rows, e.names r = true → e.names q = true → r = q
  small : ∀ r ∈ uc.rows, r.rowid < 2 ^ 31

theorem collected_empty {uc : Sql.Table} (ub : Sql.Table) (h : uc.rows = []) :
    Collected ∅ uc ub := by
  refine ⟨fun e he => absurd he (Set.notMem_empty e), ?_, fun e he => absurd he (Set.notMem_empty e),
    ?_, ?_⟩ <;> rw [h] <;> simp

/-! ## Reading -/

theorem fromData_eq (o : Object) : fromData (some o) =
    (readText (getData o)).map fun d => { DataItem.new with
      title := getTitle o
      subtitle := getSubtitle o
      summary := getSummary o
      picture := getPicture o
      link := getLink o
      type := getType o
      data := d
      projectKey := getProjectKey o } := by
  rw [fromData, readText]
  by_cases hEmpty : getData o = ""
  · rw [if_pos hEmpty, if_pos hEmpty]
    rfl
  · rw [if_neg hEmpty, if_neg hEmpty]
    cases Json.parse (getData o) <;> rfl

/-- The project and the link of an item. -/
def pair (item : DataItem) : String × String := (item.projectKey, item.link)

/-- The project and the link that a record holds. -/
def recordPair (ub : Sql.Table) (b : Sql.Row) : String × String :=
  (getProjectKey (rowObject table ub b), getLink (rowObject table ub b))

theorem Readable.item {ub : Sql.Table} {b : Sql.Row} (h : Readable ub b) :
    ∃ item, fromData (some (rowObject table ub b)) = some item ∧ pair item = recordPair ub b := by
  rw [Readable, fromData_eq, Option.isSome_map] at h
  obtain ⟨d, hRead⟩ := Option.isSome_iff_exists.mp h
  rw [fromData_eq, hRead, Option.map_some]
  exact ⟨_, rfl, by rw [pair, recordPair]⟩

theorem exists_mapM {α β γ : Type} {f : α → Option β} {g : α → γ} {proj : β → γ} {l : List α}
    (h : ∀ a ∈ l, ∃ b, f a = some b ∧ proj b = g a) :
    ∃ bs, l.mapM f = some bs ∧ bs.map proj = l.map g := by
  induction l with
  | nil => exact ⟨[], rfl, rfl⟩
  | cons a l ih =>
    obtain ⟨⟨b, hb, hProj⟩, hTail⟩ := List.forall_mem_cons.mp h
    obtain ⟨bs, hbs, hMap⟩ := ih hTail
    refine ⟨b :: bs, ?_, by rw [List.map_cons, List.map_cons, hProj, hMap]⟩
    rw [List.mapM_cons, hb, hbs]
    rfl

theorem items_of_readable {ub : Sql.Table} {rows : List Sql.Row} (h : ∀ b ∈ rows, Readable ub b) :
    ∃ items, rows.mapM (fun b => fromData (some (rowObject table ub b))) = some items ∧
      items.map pair = rows.map (recordPair ub) :=
  exists_mapM fun b hb => (h b hb).item

section Tables

variable {p : Program} {uc ub : Sql.Table} {S : Set Entry}

theorem recordPair_eq (h : Tables p uc ub) {e : Entry} (hKey : Text.NulFree e.projectKey)
    (hNul : Text.NulFree e.link) {b : Sql.Row} (hRecord : e.isRecord b) :
    recordPair ub b = (e.projectKey, e.link) := by
  obtain ⟨hLink, hProject⟩ := hRecord
  have hGetProject : getProjectKey (rowObject table ub b) = e.projectKey := by
    have hGet := get_rowObject table_columns ub b (Table.mem_stored.mp projectKey_mem).1
    rw [h.right.holds.cell_stored b projectKey_mem, hProject] at hGet
    exact hGet.trans (Text.cString_of_nulFree hKey)
  have hGetLink : getLink (rowObject table ub b) = e.link := by
    have hGet := get_rowObject table_columns ub b (Table.mem_stored.mp link_mem).1
    rw [h.right.holds.cell_stored b link_mem, hLink] at hGet
    exact hGet.trans (Text.cString_of_nulFree hNul)
  rw [recordPair, hGetProject, hGetLink]

/-- The identifier in memory is the rowid in the table. -/
theorem targetOf_rowObject (h : Tables p uc ub) {r : Sql.Row} {n : Nat}
    (hTarget : r.cells CollectionData.targetID.name = .int n) (hSmall : n < 2 ^ 31) :
    targetOf (rowObject CollectionData.table uc r) = n := by
  have hRead : CollectionData.getTargetID (rowObject CollectionData.table uc r) = Int32.ofInt n := by
    refine (get_rowObject CollectionData.table_columns uc r
      (CollectionData.mem_fields CollectionData.targetID_mem)).trans ?_
    rw [h.left.holds.cell_stored r CollectionData.targetID_mem, hTarget]
    rfl
  rw [targetOf, hRead, toInt_ofInt_of_lt hSmall]

namespace Collected

theorem mem (h : Collected S uc ub) {e : Entry} (he : e.Lawful) :
    uc.rows.any e.names = true ↔ e ∈ S := by
  rw [List.any_eq_true]
  constructor
  · rintro ⟨r, hr, hNames⟩
    obtain ⟨e', he', hNames', -⟩ := h.rows r hr
    rwa [he.unique (h.lawful e' he') hNames hNames']
  · exact h.entries e

/-- The records that the rows of a type point to, each once. -/
theorem isTarget_iff (h : Collected S uc ub) (hTables : Tables p uc ub) {ty : String} {b : Sql.Row} :
    b ∈ ub.rows ∧ isTarget uc ty b ↔
      ∃ r ∈ uc.rows, ∃ e ∈ S, e.ty = ty ∧ e.names r = true ∧ Points e r ub b := by
  constructor
  · rintro ⟨hb, r, hr, hOf, hTarget⟩
    obtain ⟨e, he, hNames, b', hPoints⟩ := h.rows r hr
    rw [targetOf_rowObject hTables hPoints.target hPoints.small] at hTarget
    obtain rfl : b' = b := Sql.Table.eq_of_rowid hPoints.mem hb (by omega)
    have hType := (CollectionData.isEntry_iff.mp hNames).1
    exact ⟨r, hr, e, he, Sql.Cell.text.inj (hType.symm.trans (CollectionData.isOf_iff.mp hOf)),
      hNames, hPoints⟩
  · rintro ⟨r, hr, e, he, rfl, hNames, hPoints⟩
    exact ⟨hPoints.mem, r, hr, CollectionData.isOf_iff.mpr (CollectionData.isEntry_iff.mp hNames).1,
      targetOf_rowObject hTables hPoints.target hPoints.small⟩

/-- `loadCollectionItems` returns the collection, each item once. -/
theorem load (h : Collected S uc ub) (hTables : Tables p uc ub) {ty : String}
    (hType : Text.NulFree ty) :
    ∃ q items, loadCollectionItems ty p = .ok (q, some items) ∧ (items.map pair).Nodup ∧
      ∀ projectKey link, (projectKey, link) ∈ items.map pair ↔ ⟨ty, projectKey, link⟩ ∈ S := by
  obtain ⟨q, rows, hRun, -, hSub, hRows⟩ := loadCollectionItems_both hTables hType
  have hTargets : ∀ b, b ∈ rows ↔
      ∃ r ∈ uc.rows, ∃ e ∈ S, e.ty = ty ∧ e.names r = true ∧ Points e r ub b :=
    fun b => (hRows b).trans (h.isTarget_iff hTables)
  have hReadable : ∀ b ∈ rows, Readable ub b := by
    intro b hb
    obtain ⟨r, -, e, -, -, -, hPoints⟩ := (hTargets b).mp hb
    exact hPoints.readable
  obtain ⟨items, hItems, hPairs⟩ := items_of_readable hReadable
  rw [hItems] at hRun
  refine ⟨q, items, hRun, ?_, fun projectKey link => ?_⟩
  · rw [hPairs]
    refine List.Nodup.map_on ?_ (hSub.nodup (ub.nodup.of_map _))
    intro b hb b' hb' hSame
    obtain ⟨r, hr, e, he, hTy, hNames, hPoints⟩ := (hTargets b).mp hb
    obtain ⟨r', hr', e', he', hTy', hNames', hPoints'⟩ := (hTargets b').mp hb'
    rw [recordPair_eq hTables (h.lawful e he).projectKey (h.lawful e he).link hPoints.record,
      recordPair_eq hTables (h.lawful e' he').projectKey (h.lawful e' he').link
        hPoints'.record] at hSame
    -- equal pairs are one entry, which has one row, which points to one record
    obtain rfl : e = e' := by
      obtain ⟨ty₁, projectKey₁, link₁⟩ := e
      obtain ⟨ty₂, projectKey₂, link₂⟩ := e'
      obtain ⟨rfl, rfl⟩ := Prod.mk.inj hSame
      obtain rfl : ty₁ = ty₂ := hTy.trans hTy'.symm
      rfl
    obtain rfl : r = r' := h.single e r hr r' hr' hNames hNames'
    have hTarget := hPoints.target.symm.trans hPoints'.target
    have hRowid : (b.rowid : Int) = b'.rowid := Sql.Cell.int.inj hTarget
    exact Sql.Table.eq_of_rowid hPoints.mem hPoints'.mem (by omega)
  · rw [hPairs, List.mem_map]
    constructor
    · rintro ⟨b, hb, hPair⟩
      obtain ⟨r, hr, e, he, rfl, hNames, hPoints⟩ := (hTargets b).mp hb
      rw [recordPair_eq hTables (h.lawful e he).projectKey (h.lawful e he).link
        hPoints.record] at hPair
      obtain ⟨rfl, rfl⟩ := Prod.mk.inj hPair
      exact he
    · intro he
      obtain ⟨r, hr, hNames⟩ := h.entries _ he
      obtain ⟨e, he', hNames', b, hPoints⟩ := h.rows r hr
      obtain rfl := (h.lawful _ he).unique (h.lawful e he') hNames hNames'
      exact ⟨b, (hTargets b).mpr ⟨r, hr, _, he, rfl, hNames, hPoints⟩,
        recordPair_eq hTables (h.lawful _ he).projectKey (h.lawful _ he).link hPoints.record⟩

end Collected

end Tables

/-! ## The objects that are saved -/

section Objects

variable {entryMemory : Object} {ty key : String} {id : Int32} {data : Variant} {o : Object}

/-- What `setEntry` sets, in the order of the setters. -/
def entryFields (ty key : String) (id : Int32) : List (Σ f : Field, f.type.Value) :=
  [⟨CollectionData.type, ty⟩, ⟨CollectionData.key, key⟩, ⟨CollectionData.targetID, id⟩]

theorem newEntry_eq : newEntry entryMemory ty key id =
    (CollectionData.construct entryMemory).setAll (entryFields ty key id) := rfl

theorem entryFields_nodup : ((entryFields ty key id).map (·.1.name)).Nodup := by
  change ["type", "key", "target_id"].Nodup
  decide

theorem get_newEntry (entryMemory : Object) (ty key : String) (id : Int32) :
    (newEntry entryMemory ty key id).get CollectionData.type = ty ∧
      (newEntry entryMemory ty key id).get CollectionData.key = key ∧
      (newEntry entryMemory ty key id).get CollectionData.targetID = id := by
  have hNodup : ((entryFields ty key id).map (·.1.name)).Nodup := entryFields_nodup
  have hGet := Object.get_setAll hNodup (CollectionData.construct entryMemory)
  rw [← newEntry_eq] at hGet
  simp only [entryFields, List.forall_mem_cons] at hGet
  obtain ⟨hType, hKey, hTarget, -⟩ := hGet
  exact ⟨hType, hKey, hTarget⟩

theorem identifier_newEntry : (newEntry entryMemory ty key id).identifier = -1 := by
  have hOther : ∀ a ∈ entryFields ty key id, a.1.name ≠ Field.identifier.name := by
    simp only [entryFields, List.forall_mem_cons, List.not_mem_nil, false_imp_iff, implies_true,
      and_true]
    decide
  rw [newEntry_eq, Object.identifier, Object.get_setAll_of_ne hOther]
  exact (Object.get_put_of_ne _ _ (by decide)).trans (Object.identifier_construct entryMemory)

/-- A new row counts as changed, as its key is not empty. -/
theorem newEntry_changed (hKey : key ≠ "") : (newEntry entryMemory ty key id).changed = true := by
  rw [newEntry_eq, Object.setAll_changed entryFields_nodup]
  refine .inr ⟨⟨CollectionData.key, key⟩, List.mem_cons_of_mem _ List.mem_cons_self, ?_⟩
  have hEmpty : (CollectionData.construct entryMemory).get CollectionData.key = "" :=
    ((Object.get_put_of_ne _ _ (by decide)).trans (Object.get_put_of_ne _ _ (by decide))).trans rfl
  rw [hEmpty]
  exact hKey.symm

theorem get_withData {f : Field} (hf : f.name ≠ CollectionData.data.name) :
    (withData data o).get f = o.get f := by
  rw [withData]
  split
  · exact Object.get_set_of_ne o _ hf.symm
  · rfl

theorem identifier_withData : (withData data o).identifier = o.identifier :=
  get_withData (f := .identifier) (by decide)

theorem withData_changed (h : o.changed = true) : (withData data o).changed = true := by
  rw [withData]
  split
  · exact (Object.set_changed o CollectionData.data _).trans (by rw [h, Bool.true_or])
  · exact h

end Objects

/-! ## Writing -/

namespace Entry

/-- The columns that say what a row is and what it points to. -/
def SameRow (r q : Sql.Row) : Prop :=
  q.rowid = r.rowid ∧ q.cells CollectionData.type.name = r.cells CollectionData.type.name ∧
    q.cells CollectionData.key.name = r.cells CollectionData.key.name ∧
    q.cells CollectionData.targetID.name = r.cells CollectionData.targetID.name

theorem SameRow.names {r q : Sql.Row} (h : SameRow r q) (e : Entry) : e.names q = e.names r := by
  obtain ⟨-, hType, hKey, -⟩ := h
  rw [Entry.names, Entry.names, CollectionData.isEntry, CollectionData.isEntry, hType, hKey]

end Entry

namespace Collected

variable {S : Set Entry} {uc vc ub vb : Sql.Table} {e : Entry} {r b : Sql.Row}

/-- A row of an entry means that the entry is in the set. -/
theorem mem_of_names (h : Collected S uc ub) (he : e.Lawful) (hr : r ∈ uc.rows)
    (hNames : e.names r = true) : e ∈ S := by
  obtain ⟨e', he', hNames', -⟩ := h.rows r hr
  rwa [he.unique (h.lawful e' he') hNames hNames']

/-- A new row for a new entry. -/
theorem insert (h : Collected S uc ub) (he : e.Lawful) (hNot : e ∉ S)
    (hRows : vc.rows = uc.rows ++ [r]) (hNames : e.names r = true) (hPoints : Points e r vb b)
    (hSmall : r.rowid < 2 ^ 31) (hKeep : ∀ e' q c, Points e' q ub c → Points e' q vb c) :
    Collected (Insert.insert e S) vc vb := by
  -- no old row has the type and the key of the new one
  have hApart : ∀ e' : Entry, ∀ q ∈ uc.rows, e'.names q = true → e'.names r = true → False := by
    intro e' q hq hq' hr'
    obtain ⟨hType, hKey⟩ := CollectionData.isEntry_iff.mp hNames
    obtain ⟨hType', hKey'⟩ := CollectionData.isEntry_iff.mp hr'
    obtain ⟨hTypeQ, hKeyQ⟩ := CollectionData.isEntry_iff.mp hq'
    refine hNot (h.mem_of_names he hq (CollectionData.isEntry_iff.mpr ⟨?_, ?_⟩))
    · rw [hTypeQ, ← hType', hType]
    · rw [hKeyQ, ← hKey', hKey]
  refine ⟨?_, ?_, ?_, ?_, ?_⟩
  · rintro e' (rfl | he')
    · exact he
    · exact h.lawful e' he'
  · intro q hq
    rw [hRows, List.mem_append, List.mem_singleton] at hq
    rcases hq with hOld | rfl
    · obtain ⟨e', he', hNames', c, hPoints'⟩ := h.rows q hOld
      exact ⟨e', Set.mem_insert_of_mem e he', hNames', c, hKeep e' q c hPoints'⟩
    · exact ⟨e, Set.mem_insert e S, hNames, b, hPoints⟩
  · rintro e' (rfl | he')
    · exact ⟨r, by simp [hRows], hNames⟩
    · obtain ⟨q, hq, hNames'⟩ := h.entries e' he'
      exact ⟨q, by simp [hRows, hq], hNames'⟩
  · intro e' q hq q' hq' hNamesQ hNamesQ'
    rw [hRows, List.mem_append, List.mem_singleton] at hq hq'
    rcases hq with hOld | rfl <;> rcases hq' with hOld' | rfl
    · exact h.single e' q hOld q' hOld' hNamesQ hNamesQ'
    · exact (hApart e' q hOld hNamesQ hNamesQ').elim
    · exact (hApart e' q' hOld' hNamesQ' hNamesQ).elim
    · rfl
  · intro q hq
    rw [hRows, List.mem_append, List.mem_singleton] at hq
    rcases hq with hOld | rfl
    · exact h.small q hOld
    · exact hSmall

/-- Rows written again, as far as the set goes unchanged. -/
theorem rewrite (h : Collected S uc ub) (g : Sql.Row → Sql.Row) (hRows : vc.rows = uc.rows.map g)
    (hSame : ∀ q ∈ uc.rows, Entry.SameRow q (g q)) : Collected S vc ub := by
  refine ⟨h.lawful, ?_, ?_, ?_, ?_⟩
  · intro q' hq'
    rw [hRows, List.mem_map] at hq'
    obtain ⟨q, hq, rfl⟩ := hq'
    obtain ⟨e', he', hNames, c, hPoints⟩ := h.rows q hq
    refine ⟨e', he', ((hSame q hq).names e').trans hNames, c, hPoints.mem, ?_, hPoints.small,
      hPoints.record, hPoints.readable⟩
    rw [(hSame q hq).2.2.2]
    exact hPoints.target
  · intro e' he'
    obtain ⟨q, hq, hNames⟩ := h.entries e' he'
    exact ⟨g q, by rw [hRows]; exact List.mem_map_of_mem hq, ((hSame q hq).names e').trans hNames⟩
  · intro e' q₁ h₁ q₂ h₂ hNames₁ hNames₂
    rw [hRows, List.mem_map] at h₁ h₂
    obtain ⟨q, hq, rfl⟩ := h₁
    obtain ⟨q', hq', rfl⟩ := h₂
    rw [(hSame q hq).names] at hNames₁
    rw [(hSame q' hq').names] at hNames₂
    rw [h.single e' q hq q' hq' hNames₁ hNames₂]
  · intro q' hq'
    rw [hRows, List.mem_map] at hq'
    obtain ⟨q, hq, rfl⟩ := hq'
    rw [(hSame q hq).1]
    exact h.small q hq

/-- The row of an entry is deleted. -/
theorem delete (h : Collected S uc ub) (he : e.Lawful) (hr : r ∈ uc.rows) (hNames : e.names r = true)
    (hRows : ∀ q, q ∈ vc.rows ↔ q ∈ uc.rows ∧ q ≠ r) : Collected (S \ {e}) vc ub := by
  refine ⟨fun e' he' => h.lawful e' he'.1, ?_, ?_, ?_, fun q hq => h.small q ((hRows q).mp hq).1⟩
  · intro q hq
    obtain ⟨hOld, hNe⟩ := (hRows q).mp hq
    obtain ⟨e', he', hNames', hPoints⟩ := h.rows q hOld
    refine ⟨e', ⟨he', ?_⟩, hNames', hPoints⟩
    rintro rfl
    exact hNe (h.single e' q hOld r hr hNames' hNames)
  · rintro e' ⟨he', hNe⟩
    obtain ⟨q, hq, hNames'⟩ := h.entries e' he'
    refine ⟨q, (hRows q).mpr ⟨hq, ?_⟩, hNames'⟩
    rintro rfl
    exact hNe ((h.lawful e' he').unique he hNames' hNames)
  · intro e' q hq q' hq'
    exact h.single e' q ((hRows q).mp hq).1 q' ((hRows q').mp hq').1

end Collected

/-- The record of the item can be pointed to: there is one, or a new one can be saved, as it does not
carry the item from the start; its identifier is an `int`, and an item can be made from it. -/
def RecordSavable (memory : Object) (item : DataItem) (ub : Sql.Table) : Prop :=
  match ub.rows.find? item.isRecord with
  | some b => b.rowid < 2 ^ 31 ∧ Readable ub b
  | none => ub.seq + 1 < 2 ^ 31 ∧ (memory.changed = true ∨ ¬ Carries (construct memory) item) ∧
    (readText (dataText item.data)).isSome = true

/-- The item can be saved to the collection: it is there, or a new row can be made. -/
def Savable (memory : Object) (item : DataItem) (ty : String) (uc ub : Sql.Table) : Prop :=
  match uc.rows.find? (Entry.of ty item).names with
  | some _ => True
  | none => uc.seq + 1 < 2 ^ 31 ∧ RecordSavable memory item ub

section Steps

variable {p : Program} {uc ub : Sql.Table} {S : Set Entry} {item : DataItem} {ty : String}

theorem Points.mono {vb : Sql.Table} (hKeep : ∀ b ∈ ub.rows, b ∈ vb.rows)
    (hColumns : vb.columns = ub.columns) {e : Entry} {r b : Sql.Row} (h : Points e r ub b) :
    Points e r vb b :=
  ⟨hKeep b h.mem, h.target, h.small, h.record, by
    rw [Readable, rowObject_congr table hColumns]
    exact h.readable⟩

/-- A new record is one of the item and can be read. -/
theorem newRecord_readable (h : Tables p uc ub) (hLink : Text.NulFree item.link)
    (hKey : Text.NulFree item.projectKey) (floatText : Rat → Rat) (o : Object)
    (hRead : (readText (dataText item.data)).isSome = true) {b : Sql.Row}
    (hb : b = newRow floatText table (item.store o) ub) :
    (Entry.of ty item).isRecord b ∧ Readable ub b := by
  have hCarries := item.carries_store o
  constructor
  · have hRecord := isRecord_assign hLink hKey hCarries floatText (ub.seq + 1)
      fun _ => .null
    rw [hb]
    exact Entry.isRecord_of.mp hRecord
  · have hData : getData (rowObject table ub b) = dataText item.data := by
      have hMem : BookData.data ∈ table.stored := by decide
      have hGet := get_rowObject table_columns ub b (Table.mem_stored.mp hMem).1
      rw [hb, h.right.holds.cell_newRow floatText _ hMem, ← hb] at hGet
      refine hGet.trans ?_
      obtain ⟨-, -, -, -, -, -, hDataText, -⟩ := hCarries.getters
      change Text.cString (Text.cString (getData (item.store o))) = _
      rw [hDataText, Text.cString_of_nulFree (nulFree_dataText item.data),
        Text.cString_of_nulFree (nulFree_dataText item.data)]
    rw [Readable, fromData_eq, Option.isSome_map, hData]
    exact hRead

/-- The table and the identifier after a record was made. -/
theorem recordTable_new {memory : Object} (hRow : ub.rows.find? item.isRecord = none)
    (hSeq : ub.seq + 1 < 2 ^ 31)
    (hContent : memory.changed = true ∨ ¬ Carries (construct memory) item)
    (floatText : Rat → Rat) :
    recordTable floatText memory item ub = inserted floatText table (item.store (construct memory)) ub ∧
      recordIdentifier memory item ub = Int32.ofNat (ub.seq + 1) := by
  have hTarget : target memory item ub = construct memory := by rw [target, hRow]
  have hChanged : (item.store (construct memory)).changed = true :=
    (store_changed_iff item _).mpr hContent
  have hIdentifier : (item.store (construct memory)).identifier = -1 := by
    rw [identifier_store, identifier_construct]
  have hNew : (item.store (construct memory)).identifier.toInt < 0 := by
    rw [hIdentifier]
    decide
  have hRoom : ub.seq < Sql.maxRowid := by
    rw [Sql.maxRowid]
    omega
  rw [recordTable, recordIdentifier, hTarget, if_pos hNew, if_pos hNew, saved, if_pos hChanged,
    if_pos hIdentifier, if_pos hRoom, savedIdentifier, if_pos ⟨hChanged, hIdentifier⟩, if_pos hRoom]
  exact ⟨rfl, rfl⟩

/-- A record that can be pointed to is in the table afterwards, next to those that were. -/
theorem record_points (h : Tables p uc ub) (hLink : Text.NulFree item.link)
    (hKey : Text.NulFree item.projectKey) {memory : Object}
    (hSavable : RecordSavable memory item ub) (floatText : Rat → Rat) :
    ∃ b ∈ (recordTable floatText memory item ub).rows,
      (recordIdentifier memory item ub).toInt = b.rowid ∧ b.rowid < 2 ^ 31 ∧
      (Entry.of ty item).isRecord b ∧ Readable (recordTable floatText memory item ub) b ∧
      ∀ e r c, Points e r ub c → Points e r (recordTable floatText memory item ub) c := by
  rw [RecordSavable] at hSavable
  cases hRow : ub.rows.find? item.isRecord with
  | some b =>
    rw [hRow] at hSavable
    obtain ⟨hSmall, hReadable⟩ := hSavable
    obtain ⟨o, ho⟩ : ∃ o, o = item.store (target memory item ub) := ⟨_, rfl⟩
    have hIdentifier : o.identifier.toInt = b.rowid := by
      rw [ho, identifier_target h.right memory hRow, toInt_ofInt_of_lt hSmall]
    have hOld : ¬ o.identifier.toInt < 0 := by omega
    rw [recordTable, recordIdentifier, ← ho, if_neg hOld, if_neg hOld]
    exact ⟨b, List.mem_of_find?_eq_some hRow, hIdentifier, hSmall,
      Entry.isRecord_of.mp (List.find?_some hRow), hReadable, fun _ _ _ hPoints => hPoints⟩
  | none =>
    rw [hRow] at hSavable
    obtain ⟨hSeq, hContent, hRead⟩ := hSavable
    obtain ⟨hTable, hIdentifier⟩ := recordTable_new hRow hSeq hContent floatText
    obtain ⟨o, ho⟩ : ∃ o, o = item.store (construct memory) := ⟨_, rfl⟩
    obtain ⟨hRecord, hReadable⟩ := newRecord_readable h hLink hKey floatText (construct memory)
      hRead rfl
    rw [← ho] at hTable hRecord hReadable
    rw [hTable, hIdentifier]
    have hRows : (inserted floatText table o ub).rows =
        ub.rows ++ [newRow floatText table o ub] := rfl
    have hColumns : (inserted floatText table o ub).columns = ub.columns := rfl
    have hKeep : ∀ b ∈ ub.rows, b ∈ (inserted floatText table o ub).rows := by
      intro b hb
      rw [hRows]
      exact List.mem_append_left _ hb
    refine ⟨newRow floatText table o ub, ?_, ?_, hSeq, hRecord, ?_,
      fun _ _ _ hPoints => hPoints.mono hKeep hColumns⟩
    · rw [hRows]
      exact List.mem_append_right _ List.mem_cons_self
    · have hRowid : (newRow floatText table o ub).rowid = ub.seq + 1 := rfl
      rw [hRowid, ← Int32.ofInt_eq_ofNat, toInt_ofInt_of_lt hSeq]
    · rw [Readable, rowObject_congr table hColumns]
      exact hReadable

theorem key_ne_empty (item : DataItem) : item.collectionKey ≠ "" := by
  intro hEmpty
  have hList := congrArg String.toList hEmpty
  rw [collectionKey, String.toList_append, String.toList_append] at hList
  simp at hList

/-- The cells that a saved row gets from an object with a type and a key. -/
theorem isEntry_saved {ty key : String} (hTyNul : Text.NulFree ty) (hKeyNul : Text.NulFree key)
    (floatText : Rat → Rat) {o : Object} (hType : o.get CollectionData.type = ty)
    (hKey : o.get CollectionData.key = key) (n : Nat) (cells : String → Sql.Cell) :
    CollectionData.isEntry ty key
      ⟨n, Sql.assign (writes floatText CollectionData.table o) cells⟩ = true := by
  refine CollectionData.isEntry_iff.mpr ⟨?_, ?_⟩
  · refine (assign_writes floatText o cells CollectionData.type_mem).trans ?_
    rw [hType]
    exact congrArg Sql.Cell.text (Text.cString_of_nulFree hTyNul)
  · refine (assign_writes floatText o cells CollectionData.key_mem).trans ?_
    rw [hKey]
    exact congrArg Sql.Cell.text (Text.cString_of_nulFree hKeyNul)

theorem target_saved (floatText : Rat → Rat) {o : Object} {id : Int32}
    (hTarget : o.get CollectionData.targetID = id) (cells : String → Sql.Cell) :
    Sql.assign (writes floatText CollectionData.table o) cells CollectionData.targetID.name =
      .int id.toInt := by
  refine (assign_writes floatText o cells CollectionData.targetID_mem).trans ?_
  rw [hTarget]
  rfl

/-- Saving to a collection that the item is not in. -/
theorem Collected.save_new (h : Collected S uc ub) (hTables : Tables p uc ub)
    (he : (Entry.of ty item).Lawful) {memory : Object}
    (hRow : uc.rows.find? (Entry.of ty item).names = none) (hSeq : uc.seq + 1 < 2 ^ 31)
    (hSavable : RecordSavable memory item ub) (floatText : Rat → Rat) (entryMemory : Object)
    (data : Variant) {o : Object} (ho : o = withData data
      (newEntry entryMemory ty item.collectionKey (recordIdentifier memory item ub))) :
    Collected (Insert.insert (Entry.of ty item) S) (saved floatText CollectionData.table o uc)
      (recordTable floatText memory item ub) := by
  have hNot : Entry.of ty item ∉ S := by
    intro hMem
    obtain ⟨r, hr, hNames⟩ := h.entries _ hMem
    exact List.find?_eq_none.mp hRow r hr hNames
  obtain ⟨hTypeNew, hKeyNew, hTargetNew⟩ := get_newEntry entryMemory ty item.collectionKey
    (recordIdentifier memory item ub)
  have hType : o.get CollectionData.type = ty := by
    rw [ho, get_withData (by decide), hTypeNew]
  have hKey : o.get CollectionData.key = item.collectionKey := by
    rw [ho, get_withData (by decide), hKeyNew]
  have hTarget : o.get CollectionData.targetID = recordIdentifier memory item ub := by
    rw [ho, get_withData (by decide), hTargetNew]
  have hIdentifier : o.identifier = -1 := by
    rw [ho, identifier_withData, identifier_newEntry]
  have hChanged : o.changed = true := by
    rw [ho]
    exact withData_changed (newEntry_changed (key_ne_empty item))
  have hRoom : uc.seq < Sql.maxRowid := by
    rw [Sql.maxRowid]
    omega
  obtain ⟨b, hMem, hRowid, hSmall, hRecord, hReadable, hKeep⟩ :=
    record_points hTables he.link he.projectKey hSavable floatText
  rw [saved, if_pos hChanged, if_pos hIdentifier, if_pos hRoom]
  refine h.insert (r := newRow floatText CollectionData.table o uc) he hNot rfl
    (isEntry_saved he.ty (nulFree_collectionKey he.link he.projectKey) floatText hType hKey _ _)
    ⟨hMem, ?_, hSmall, hRecord, hReadable⟩ hSeq hKeep
  rw [← hRowid]
  exact target_saved floatText hTarget fun _ => .null

/-- Writing a row again from an object that was made from it keeps what it says. -/
theorem sameRow_rewritten (hTables : Tables p uc ub) {e : Entry} (he : e.Lawful) {r b : Sql.Row}
    (hNames : e.names r = true) (hPoints : Points e r ub b) (floatText : Rat → Rat)
    (data : Variant) :
    Entry.SameRow r { r with cells := Sql.assign (writes floatText CollectionData.table
      (withData data (rowObject CollectionData.table uc r))) r.cells } := by
  have hCell : ∀ {f : Field}, f ∈ CollectionData.table.stored → f.name ≠ CollectionData.data.name →
      Sql.assign (writes floatText CollectionData.table
        (withData data (rowObject CollectionData.table uc r))) r.cells f.name =
      f.type.stored floatText (f.type.read (r.cells f.name)) := by
    intro f hf hNe
    rw [assign_writes floatText _ _ hf, get_withData hNe, get_rowObject CollectionData.table_columns
      uc r (CollectionData.mem_fields hf), hTables.left.holds.cell_stored r hf]
  obtain ⟨hType, hKey⟩ := CollectionData.isEntry_iff.mp hNames
  have hText : ∀ s : String, Text.NulFree s →
      FieldType.text.stored floatText (FieldType.text.read (.text s)) = .text s := by
    intro s hs
    change Sql.Cell.text (Text.cString (Text.cString s)) = _
    rw [Text.cString_of_nulFree hs, Text.cString_of_nulFree hs]
  refine ⟨rfl, ?_, ?_, ?_⟩
  · refine (hCell CollectionData.type_mem (by decide)).trans ?_
    rw [hType]
    exact hText e.ty he.ty
  · refine (hCell CollectionData.key_mem (by decide)).trans ?_
    rw [hKey]
    exact hText e.key (Entry.nulFree_key he)
  · refine (hCell CollectionData.targetID_mem (by decide)).trans ?_
    rw [hPoints.target]
    exact congrArg Sql.Cell.int (toInt_ofInt_of_lt hPoints.small)

/-- Saving to a collection that the item is in. -/
theorem Collected.save_old (h : Collected S uc ub) (hTables : Tables p uc ub)
    {r : Sql.Row} (hr : r ∈ uc.rows) (floatText : Rat → Rat) (data : Variant) {o : Object}
    (ho : o = withData data (rowObject CollectionData.table uc r)) :
    Collected S (saved floatText CollectionData.table o uc) ub := by
  by_cases hChanged : o.changed = true
  · have hIdentifier : o.identifier = Int32.ofInt r.rowid := by
      rw [ho, identifier_withData,
        hTables.left.holds.identifier_rowObject CollectionData.table_columns]
    have hId : o.identifier.toInt = r.rowid := by
      rw [hIdentifier, toInt_ofInt_of_lt (h.small r hr)]
    have hOld : o.identifier ≠ -1 := ne_neg_one_of_rowid hId.symm
    rw [saved, if_pos hChanged, if_neg hOld]
    refine h.rewrite (rewriteRow floatText CollectionData.table o o.identifier) rfl ?_
    intro q hq
    by_cases hSame : (q.rowid : Int) = o.identifier.toInt
    · obtain rfl : q = r := Sql.Table.eq_of_rowid hq hr (by omega)
      obtain ⟨e', he', hNames', b, hPoints⟩ := h.rows q hq
      rw [rewriteRow, decide_eq_true hSame, if_pos rfl, ho]
      exact sameRow_rewritten hTables (h.lawful e' he') hNames' hPoints floatText data
    · rw [rewriteRow_other floatText CollectionData.table o hSame]
      exact ⟨rfl, rfl, rfl, rfl⟩
  · rw [saved, if_neg hChanged]
    exact h

/-- `saveToCollection` adds the item. -/
theorem Collected.save (h : Collected S uc ub) (hTables : Tables p uc ub)
    (he : (Entry.of ty item).Lawful) {memory : Object} (hSavable : Savable memory item ty uc ub)
    (entryMemory : Object) (data : Variant) :
    ∃ q a uc' ub', item.saveToCollection memory entryMemory ty data p = .ok (q, a) ∧
      Tables q uc' ub' ∧ Collected (Insert.insert (Entry.of ty item) S) uc' ub' := by
  obtain ⟨q, a, hRun, hTables', -⟩ := saveToCollection_both hTables he.link he.projectKey he.ty memory
    entryMemory data rfl
  refine ⟨q, a, _, _, hRun, hTables', ?_⟩
  rw [entryBefore, recordsAfter]
  change Collected _ (saved p.floatText CollectionData.table (withData data
    (match uc.rows.find? (Entry.of ty item).names with | some r => _ | none => _)) uc)
    (match uc.rows.find? (Entry.of ty item).names with | some _ => _ | none => _)
  rw [Savable] at hSavable
  cases hRow : uc.rows.find? (Entry.of ty item).names with
  | some r =>
    have hr := List.mem_of_find?_eq_some hRow
    have hNames := List.find?_some hRow
    rw [Set.insert_eq_of_mem (h.mem_of_names he hr hNames)]
    exact h.save_old hTables hr p.floatText data rfl
  | none =>
    rw [hRow] at hSavable
    exact h.save_new hTables he hRow hSavable.1 hSavable.2 p.floatText entryMemory data rfl

/-- `removeFromCollection` takes the item out. -/
theorem Collected.remove (h : Collected S uc ub) (hTables : Tables p uc ub)
    (he : (Entry.of ty item).Lawful) :
    ∃ q uc', item.removeFromCollection ty p = .ok q ∧ Tables q uc' ub ∧
      Collected (S \ {Entry.of ty item}) uc' ub := by
  obtain ⟨q, hRun, hTables', -⟩ := removeFromCollection_both hTables he.link he.projectKey he.ty
  refine ⟨q, _, hRun, hTables', ?_⟩
  rw [entriesAfter]
  change Collected _ (match uc.rows.find? (Entry.of ty item).names with | some r => _ | none => _) _
  cases hRow : uc.rows.find? (Entry.of ty item).names with
  | some r =>
    have hr := List.mem_of_find?_eq_some hRow
    refine h.delete he hr (List.find?_some hRow) fun s => ?_
    have hId : (rowObject CollectionData.table uc r).identifier.toInt = r.rowid := by
      rw [hTables.left.holds.identifier_rowObject CollectionData.table_columns,
        toInt_ofInt_of_lt (h.small r hr)]
    change s ∈ uc.rows.filter _ ↔ _
    rw [List.mem_filter, hId]
    refine and_congr_right fun hs => ?_
    rw [Bool.not_eq_true', decide_eq_false_iff_not, not_iff_not]
    constructor
    · exact fun hRowid => Sql.Table.eq_of_rowid hs hr (by omega)
    · rintro rfl
      rfl
  | none =>
    have hNot : Entry.of ty item ∉ S := by
      intro hMem
      obtain ⟨r, hr, hNames⟩ := h.entries _ hMem
      exact List.find?_eq_none.mp hRow r hr hNames
    rw [Set.sdiff_singleton_eq_self hNot]
    exact h

end Steps

end RetroConfig.DataItem
