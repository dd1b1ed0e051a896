import RetroConfig.App.HistoryList

/-!
# The list as it is read

`items` makes an item from every row of the history: the row says to which record it points, the
record has the item, and the data of the row the time. `Shelf` says that the rows are ones that the
program can have written. Then the list has an item for each of them (`items_listed`), with the time
and with the pair of its row (`Read`).
-/

namespace RetroConfig.HistoryManager

open SQLite Program DataItem

/-- A row of the history for an entry, which points to a record of it. -/
structure Shelved (ub : Sql.Table) (r : Sql.Row) (e : Entry) : Prop where
  ty : e.ty = historyKey
  projectKey : Text.NulFree e.projectKey
  link : Text.NulFree e.link
  names : e.names r = true
  small : r.rowid < 2 ^ 31
  points : ∃ b, Points e r ub b
  data : ∃ text, r.cells CollectionData.data.name = .text text ∧ Text.NulFree text

/-- The rows of the history, no two of them with one key. -/
structure Shelf (uc ub : Sql.Table) : Prop where
  rows : ∀ r ∈ uc.rows, CollectionData.isOf historyKey r = true → ∃ e, Shelved ub r e
  keys : ∀ k, ∀ r ∈ uc.rows, ∀ s ∈ uc.rows, CollectionData.isEntry historyKey k r = true →
    CollectionData.isEntry historyKey k s = true → r = s

/-- The row points to a record of the pair of the item. -/
def Pointed (ub : Sql.Table) (i : HistoryItem) (r : Sql.Row) : Prop :=
  ∃ e b, Text.NulFree e.projectKey ∧ Text.NulFree e.link ∧ Points e r ub b ∧
    i.pair = some (e.projectKey, e.link)

/-- The item has the time and the pair of its row. -/
def Read (ub : Sql.Table) (i : HistoryItem) (r : Sql.Row) : Prop :=
  (∃ text, r.cells CollectionData.data.name = .text text ∧ i.date = readDate text) ∧ Pointed ub i r

section Load

variable {p : Program} {uc ub : Sql.Table} {e : Entry} {r : Sql.Row} {a : Nat}

/-- The cells of the row are ones that a save writes. -/
theorem Shelved.cells (h : Shelved ub r e) (floatText : Rat → Rat) :
    ∀ f ∈ rowFields, f.type.stored floatText (f.type.read (r.cells f.name)) = r.cells f.name := by
  have hText : ∀ {name s : String}, r.cells name = .text s → Text.NulFree s →
      FieldType.text.stored floatText (FieldType.text.read (r.cells name)) = r.cells name := by
    intro name s hCell hs
    rw [hCell]
    change Sql.Cell.text (Text.cString (Text.cString s)) = _
    rw [Text.cString_of_nulFree hs, Text.cString_of_nulFree hs]
  obtain ⟨hType, hKey⟩ := CollectionData.isEntry_iff.mp h.names
  obtain ⟨b, hPoints⟩ := h.points
  obtain ⟨text, hData, hNul⟩ := h.data
  have hPage : Context.Page.NulFree ⟨e.projectKey, e.link⟩ := ⟨h.projectKey, h.link⟩
  rw [rowFields]
  simp only [List.forall_mem_cons]
  refine ⟨hText hType ?_, hText hKey hPage.saveKey, ?_, hText hData hNul, fun f hf => (by cases hf)⟩
  · rw [h.ty]
    decide
  · rw [hPoints.target]
    exact congrArg Sql.Cell.int (toInt_ofInt_of_lt hPoints.small)

/-- An item is made from a row. -/
theorem new_listed (h : Tables p uc ub) (hLt : a < p.store.next)
    (hObject : p.object a = rowObject CollectionData.table uc r) (hShelved : Shelved ub r e) :
    ∃ q i, HistoryItem.new a none p = .ok (q, i) ∧ Tables q uc ub ∧ Frame p q ∧ i.data = a ∧
      i.item.isSome = true ∧ Slot (Read ub) q i r := by
  obtain ⟨b, hPoints⟩ := hShelved.points
  obtain ⟨q, found, hFind, hBoth, hFrame, hFound⟩ := h.symm.find apart_entries table_ne_info
    BookData.table_columns (CollectionData.getTargetID (p.object a))
  have hTarget : (CollectionData.getTargetID (p.object a)).toInt = b.rowid := by
    rw [hObject]
    exact targetOf_rowObject h hPoints.target hPoints.small
  rw [hTarget, Sql.Table.byKey_eq_some.mpr ⟨hPoints.mem, rfl⟩] at hFound
  obtain ⟨d, rfl, hRecord⟩ := Option.map_eq_some_iff.mp hFound
  obtain ⟨item, hItem, hPair⟩ := hPoints.readable.item
  rw [recordPair_eq h hShelved.projectKey hShelved.link hPoints.record] at hPair
  have hSame : q.object a = rowObject CollectionData.table uc r :=
    (hFrame.objects a hLt).trans hObject
  obtain ⟨text, hData, hNul⟩ := hShelved.data
  have hText : CollectionData.getData (q.object a) = text := by
    rw [hSame]
    refine (get_rowObject CollectionData.table_columns uc r
      (CollectionData.mem_fields CollectionData.data_mem)).trans ?_
    rw [h.left.holds.cell_stored r CollectionData.data_mem, hData]
    exact Text.cString_of_nulFree hNul
  refine ⟨q, ⟨a, some item, readDate text⟩, ?_, hBoth.symm, hFrame, rfl, rfl, ⟨?_, ?_, ?_⟩⟩
  · rw [HistoryItem.new]
    simp only [fromCollectionData, hFind, lift_ok, Transition.ok_bind, hRecord, hItem, pure_bind]
    rw [hText]
    rfl
  · rw [hSame]
    exact mirrors_rowObject h.left.holds CollectionData.table_columns rowFields_stored hShelved.small
      (hShelved.cells q.floatText)
  · have hKey : HistoryItem.key ⟨a, some item, readDate text⟩ = e.key := by
      obtain ⟨hProject, hLink⟩ := Prod.mk.inj hPair
      rw [HistoryItem.key, Option.map_some, Option.getD_some, collectionKey, hProject, hLink]
      rfl
    rw [hKey, ← hShelved.ty]
    exact hShelved.names
  · exact ⟨⟨text, hData, rfl⟩, e, b, hShelved.projectKey, hShelved.link, hPoints, congrArg some hPair⟩

/-- The loop over the rows. -/
theorem load_listed (h : Tables p uc ub) {cols : List Nat} {rows : List Sql.Row}
    (hObjects : cols.map p.object = rows.map (rowObject CollectionData.table uc))
    (hLt : ∀ a ∈ cols, a < p.store.next) (hShelved : ∀ r ∈ rows, ∃ e, Shelved ub r e) :
    ∃ q l, load cols p = .ok (q, l) ∧ Tables q uc ub ∧ Frame p q ∧ l.map HistoryItem.data = cols ∧
      List.Forall₂ (fun i r => i.item.isSome = true ∧ Slot (Read ub) q i r) l rows := by
  induction cols generalizing p rows with
  | nil =>
    obtain rfl : rows = [] := List.map_eq_nil_iff.mp hObjects.symm
    exact ⟨p, [], rfl, h, .refl p, rfl, .nil⟩
  | cons a cols ih =>
    obtain ⟨r, rows, rfl, hHead, hTail⟩ := List.map_eq_cons_iff.mp hObjects.symm
    obtain ⟨hLtHead, hLtTail⟩ := List.forall_mem_cons.mp hLt
    obtain ⟨⟨e, hE⟩, hRest⟩ := List.forall_mem_cons.mp hShelved
    obtain ⟨p₁, i, hNew, hTables₁, hFrame₁, hData, hSome, hSlot⟩ :=
      new_listed h hLtHead hHead.symm hE
    have hObjects₁ : cols.map p₁.object = rows.map (rowObject CollectionData.table uc) := by
      rw [hTail]
      exact List.map_congr_left fun b hb => hFrame₁.objects b (hLtTail b hb)
    obtain ⟨q, l, hRun, hTables, hFrame, hDatas, hAll⟩ := ih hTables₁ hObjects₁
      (fun b hb => Nat.lt_of_lt_of_le (hLtTail b hb) hFrame₁.next) hRest
    refine ⟨q, i :: l, ?_, hTables, hFrame₁.trans hFrame, by rw [List.map_cons, hData, hDatas],
      .cons ⟨hSome, hSlot.congr hFrame.floatText (hFrame.objects _ ?_)⟩ hAll⟩
    · rw [load, hNew]
      simp only [Transition.ok_bind]
      rw [hRun]
      rfl
    · rw [hData]
      exact Nat.lt_of_lt_of_le hLtHead hFrame₁.next

/-- Lists that are related element by element. -/
theorem exists_of_forall₂ {α β : Type} {R : α → β → Prop} {as : List α} {bs : List β}
    (h : List.Forall₂ R as bs) : (∀ a ∈ as, ∃ b ∈ bs, R a b) ∧ ∀ b ∈ bs, ∃ a ∈ as, R a b := by
  induction h with
  | nil => exact ⟨fun a ha => (by cases ha), fun b hb => (by cases hb)⟩
  | cons hHead _ ih =>
    obtain ⟨hLeft, hRight⟩ := ih
    refine ⟨List.forall_mem_cons.mpr ⟨⟨_, List.mem_cons_self, hHead⟩, fun a ha => ?_⟩,
      List.forall_mem_cons.mpr ⟨⟨_, List.mem_cons_self, hHead⟩, fun b hb => ?_⟩⟩
    · obtain ⟨b, hb, hR⟩ := hLeft a ha
      exact ⟨b, List.mem_cons_of_mem _ hb, hR⟩
    · obtain ⟨a, ha, hR⟩ := hRight b hb
      exact ⟨a, List.mem_cons_of_mem _ ha, hR⟩

/-- `items` makes an item from each row of the history, in the order of the rowids, and sorts them. -/
theorem items_loaded (S : Sorting) (h : Tables p uc ub) (hShelf : Shelf uc ub) :
    ∃ q l, ∃ rows : List Sql.Row,
      items S ⟨p, none⟩ = .ok (⟨q, some (S.sort compare l)⟩, S.sort compare l) ∧
      Tables q uc ub ∧ q.floatText = p.floatText ∧ Listed (Read ub) q uc l ∧
      rows.Perm (uc.rows.filter (CollectionData.isOf historyKey)) ∧
      (rows.Pairwise fun r s => r.rowid ≤ s.rowid) ∧ List.Forall₂ (Slot (Read ub) q) l rows := by
  have hType : Text.NulFree historyKey := by decide
  obtain ⟨p₁, cols, rows, hAll, hTables₁, hFrame₁, hPerm, hOrder, hObjects, hNodup, hNew⟩ :=
    CollectionData.all_both h apart_records hType
  have hRows : ∀ r, r ∈ rows ↔ r ∈ uc.rows ∧ CollectionData.isOf historyKey r = true := fun r => by
    rw [hPerm.mem_iff, List.mem_filter]
  obtain ⟨q, l, hLoad, hTables, hFrame, hData, hSlots⟩ := load_listed hTables₁ hObjects
    (fun a ha => (hNew a ha).2) fun r hr =>
      hShelf.rows r ((hRows r).mp hr).1 ((hRows r).mp hr).2
  refine ⟨q, l, rows, ?_, hTables, hFrame.floatText.trans hFrame₁.floatText, ?_, hPerm, hOrder,
    hSlots.imp fun i r hBoth => hBoth.2⟩
  · rw [items, hAll]
    simp only [lift_ok, Transition.ok_bind]
    rw [hLoad]
    rfl
  · refine ⟨fun i hi => ?_, fun r hr hOf => ?_, by rwa [hData], ?_⟩
    · obtain ⟨r, hr, hSome, hSlot⟩ := (exists_of_forall₂ hSlots).1 i hi
      have hMem : i.data ∈ cols := hData ▸ List.mem_map_of_mem hi
      exact ⟨Nat.lt_of_lt_of_le (hNew _ hMem).2 hFrame.next, hSome, r, ((hRows r).mp hr).1, hSlot⟩
    · obtain ⟨i, hi, -, hSlot⟩ := (exists_of_forall₂ hSlots).2 r ((hRows r).mpr ⟨hr, hOf⟩)
      exact ⟨i, hi, hSlot⟩
    · -- the keys are those of the rows
      have hKeys : (l.map HistoryItem.key).map Sql.Cell.text =
          rows.map fun r => r.cells CollectionData.key.name := by
        rw [List.map_map, ← List.forall₂_eq_eq_eq, List.forall₂_map_left_iff,
          List.forall₂_map_right_iff]
        exact hSlots.imp fun i r hBoth => (CollectionData.isEntry_iff.mp hBoth.2.names).2.symm
      refine .of_map Sql.Cell.text ?_
      rw [hKeys]
      refine List.Nodup.map_on (fun r hr s hs hSame => ?_)
        (hPerm.nodup_iff.mpr ((uc.nodup.of_map _).filter _))
      obtain ⟨i, -, -, hSlot⟩ := (exists_of_forall₂ hSlots).2 r hr
      refine hShelf.keys i.key r ((hRows r).mp hr).1 s ((hRows s).mp hs).1 hSlot.names ?_
      refine CollectionData.isEntry_iff.mpr ⟨CollectionData.isOf_iff.mp ((hRows s).mp hs).2, ?_⟩
      exact hSame.symm.trans (CollectionData.isEntry_iff.mp hSlot.names).2

/-- The list stands for the rows. -/
theorem items_listed (S : Sorting) (h : Tables p uc ub) (hShelf : Shelf uc ub) :
    ∃ q l, items S ⟨p, none⟩ = .ok (⟨q, some (S.sort compare l)⟩, S.sort compare l) ∧
      Tables q uc ub ∧ q.floatText = p.floatText ∧ Listed (Read ub) q uc (S.sort compare l) ∧
      (S.sort compare l).length = (uc.rows.filter (CollectionData.isOf historyKey)).length := by
  obtain ⟨q, l, rows, hItems, hTables, hText, hListed, hPerm, -, hSlots⟩ := items_loaded S h hShelf
  refine ⟨q, l, hItems, hTables, hText, hListed.perm (S.perm compare l).symm, ?_⟩
  rw [(S.perm compare l).length_eq, hSlots.length_eq, hPerm.length_eq]

end Load

end RetroConfig.HistoryManager
