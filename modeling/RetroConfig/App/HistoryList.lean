import RetroConfig.App.HistoryManager
import RetroConfig.Main.CollectionSets

/-!
# The list and the rows of the history

`Listed p uc l`: the items of the list have rows of their own in the table, and there are no other rows
of the history. Every step of `insert` and `clear` keeps this: a new item brings a row
(`Listed.add`), an item that goes takes its row with it (`Listed.remove`), and `update` writes the row
of its item again (`Listed.update`).
-/

namespace RetroConfig.HistoryManager

open SQLite Program DataItem

namespace HistoryItem

/-- The key of the item in the table. -/
def key (i : HistoryItem) : String := (i.item.map collectionKey).getD ""

/-- The project and the link of the item. -/
def pair (i : HistoryItem) : Option (String × String) := i.item.map DataItem.pair

end HistoryItem

/-- The fields of a row that are set. -/
def rowFields : List Field :=
  [CollectionData.type, CollectionData.key, CollectionData.targetID, CollectionData.data]

theorem rowFields_stored : ∀ f ∈ rowFields, f ∈ CollectionData.table.stored := by decide

/-- The row is the one of the item, and they meet the condition. -/
structure Slot (P : HistoryItem → Sql.Row → Prop) (p : Program) (i : HistoryItem) (r : Sql.Row) :
    Prop where
  mirrors : Mirrors p.floatText rowFields (p.object i.data) r
  names : CollectionData.isEntry historyKey i.key r = true
  meets : P i r

/-- The items of the list are those of the rows of the history, one for one. -/
structure Listed (P : HistoryItem → Sql.Row → Prop) (p : Program) (uc : Sql.Table)
    (l : List HistoryItem) : Prop where
  items : ∀ i ∈ l, i.data < p.store.next ∧ i.item.isSome = true ∧ ∃ r ∈ uc.rows, Slot P p i r
  rows : ∀ r ∈ uc.rows, CollectionData.isOf historyKey r = true → ∃ i ∈ l, Slot P p i r
  addresses : (l.map HistoryItem.data).Nodup
  keys : (l.map HistoryItem.key).Nodup

section

variable {P Q : HistoryItem → Sql.Row → Prop} {p q : Program} {uc vc : Sql.Table}
  {l l' : List HistoryItem} {i i' : HistoryItem} {r : Sql.Row}

theorem isOf_of_names {k : String} (h : CollectionData.isEntry historyKey k r = true) :
    CollectionData.isOf historyKey r = true :=
  CollectionData.isOf_iff.mpr (CollectionData.isEntry_iff.mp h).1

theorem Slot.mono (h : Slot P p i r) (hMeets : Q i r) : Slot Q p i r := ⟨h.mirrors, h.names, hMeets⟩

/-- The object of the item has not changed. -/
theorem Slot.congr (h : Slot P p i r) (hText : q.floatText = p.floatText)
    (hObject : q.object i.data = p.object i.data) : Slot P q i r := by
  refine ⟨?_, h.names, h.meets⟩
  rw [hText, hObject]
  exact h.mirrors

namespace Listed

theorem perm (h : Listed P p uc l) (hPerm : l.Perm l') : Listed P p uc l' where
  items := fun i hi => h.items i (hPerm.mem_iff.mpr hi)
  rows := fun r hr hOf => by
    obtain ⟨i, hi, hSlot⟩ := h.rows r hr hOf
    exact ⟨i, hPerm.mem_iff.mp hi, hSlot⟩
  addresses := (hPerm.map _).nodup_iff.mp h.addresses
  keys := (hPerm.map _).nodup_iff.mp h.keys

/-- A row belongs to one item of the list. -/
theorem unique (h : Listed P p uc l) {j : HistoryItem} (hi : i ∈ l) (hj : j ∈ l)
    (hSlot : Slot P p i r) (hSlot' : Slot P p j r) : i = j := by
  have hKey := (CollectionData.isEntry_iff.mp hSlot.names).2
  rw [(CollectionData.isEntry_iff.mp hSlot'.names).2] at hKey
  exact List.inj_on_of_nodup_map h.keys hi hj (Sql.Cell.text.inj hKey).symm

/-- Another condition that the rows meet. -/
theorem mono_rows (h : Listed P p uc l) (hMeets : ∀ i ∈ l, ∀ r ∈ uc.rows,
    CollectionData.isOf historyKey r = true → P i r → Q i r) : Listed Q p uc l where
  items := fun i hi => by
    obtain ⟨hLt, hSome, r, hr, hSlot⟩ := h.items i hi
    exact ⟨hLt, hSome, r, hr, hSlot.mono (hMeets i hi r hr (isOf_of_names hSlot.names) hSlot.meets)⟩
  rows := fun r hr hOf => by
    obtain ⟨i, hi, hSlot⟩ := h.rows r hr hOf
    exact ⟨i, hi, hSlot.mono (hMeets i hi r hr hOf hSlot.meets)⟩
  addresses := h.addresses
  keys := h.keys

theorem mono (h : Listed P p uc l) (hMeets : ∀ i ∈ l, ∀ r, P i r → Q i r) : Listed Q p uc l :=
  h.mono_rows fun i hi r _ _ => hMeets i hi r

/-- What leaves the objects of the list and the table alone keeps the list. -/
theorem frame (h : Listed P p uc l) (hFrame : Frame p q) : Listed P q uc l := by
  have hSlot : ∀ i ∈ l, ∀ r, Slot P p i r → Slot P q i r := fun i hi r hSlot =>
    hSlot.congr hFrame.floatText (hFrame.objects i.data (h.items i hi).1)
  refine ⟨fun i hi => ?_, fun r hr hOf => ?_, h.addresses, h.keys⟩
  · obtain ⟨hLt, hSome, r, hr, hSlotP⟩ := h.items i hi
    exact ⟨Nat.lt_of_lt_of_le hLt hFrame.next, hSome, r, hr, hSlot i hi r hSlotP⟩
  · obtain ⟨i, hi, hSlotP⟩ := h.rows r hr hOf
    exact ⟨i, hi, hSlot i hi r hSlotP⟩

/-- A new item with a new row. -/
theorem add (h : Listed P p uc l) (hFrame : Frame p q) (hFrom : p.store.next ≤ i.data)
    (hLt : i.data < q.store.next) (hSome : i.item.isSome = true) (hRows : vc.rows = uc.rows ++ [r])
    (hSlot : Slot P q i r) (hKey : ∀ j ∈ l, j.key ≠ i.key) : Listed P q vc (i :: l) := by
  have hOld := h.frame hFrame
  refine ⟨?_, ?_, ?_, ?_⟩
  · refine List.forall_mem_cons.mpr ⟨⟨hLt, hSome, r, by simp [hRows], hSlot⟩, fun j hj => ?_⟩
    obtain ⟨hLtJ, hSomeJ, s, hs, hSlotJ⟩ := hOld.items j hj
    exact ⟨hLtJ, hSomeJ, s, by simp [hRows, hs], hSlotJ⟩
  · intro s hs hOf
    rw [hRows, List.mem_append, List.mem_singleton] at hs
    rcases hs with hs | rfl
    · obtain ⟨j, hj, hSlotJ⟩ := hOld.rows s hs hOf
      exact ⟨j, List.mem_cons_of_mem i hj, hSlotJ⟩
    · exact ⟨i, List.mem_cons_self, hSlot⟩
  · refine List.nodup_cons.mpr ⟨fun hMem => ?_, h.addresses⟩
    obtain ⟨j, hj, hData⟩ := List.mem_map.mp hMem
    have hLtJ := (h.items j hj).1
    omega
  · refine List.nodup_cons.mpr ⟨fun hMem => ?_, h.keys⟩
    obtain ⟨j, hj, hSame⟩ := List.mem_map.mp hMem
    exact hKey j hj hSame

/-- The object of the head does not lie where another one of the list does. -/
theorem data_ne (h : Listed P p uc (i :: l)) {j : HistoryItem} (hj : j ∈ l) : j.data ≠ i.data :=
  fun hSame => (List.nodup_cons.mp h.addresses).1 (hSame ▸ List.mem_map_of_mem hj)

/-- Writing the object of the head leaves the rest alone. -/
theorem slot_tail (h : Listed P p uc (i :: l)) {o : Object} (hWrote : Wrote p q i.data o)
    {j : HistoryItem} (hj : j ∈ l) (hSlot : Slot P p j r) : Slot P q j r :=
  hSlot.congr hWrote.floatText
    (hWrote.others j.data (h.items j (List.mem_cons_of_mem i hj)).1 (h.data_ne hj))

/-- The row of an item of the rest is not that of the head. -/
theorem row_ne (h : Listed P p uc (i :: l)) (hSlot : Slot P p i r) {j : HistoryItem} (hj : j ∈ l)
    {s : Sql.Row} (hSlot' : Slot P p j s) : s ≠ r := by
  rintro rfl
  obtain rfl := h.unique List.mem_cons_self (List.mem_cons_of_mem i hj) hSlot hSlot'
  exact h.data_ne hj rfl

/-- Of the rows only that of the head has its identifier. -/
theorem eq_row (hr : r ∈ uc.rows) (hSlot : Slot P p i r) {s : Sql.Row} (hs : s ∈ uc.rows)
    (hSlot' : Slot P p i s) : s = r := by
  have hRowid := hSlot'.mirrors.rowid.trans hSlot.mirrors.rowid.symm
  exact Sql.Table.eq_of_rowid hs hr (by omega)

/-- The head goes with its row. -/
theorem remove (h : Listed P p uc (i :: l)) {o : Object} (hWrote : Wrote p q i.data o)
    (hRows : ∀ r ∈ uc.rows, Slot P p i r → ∀ s, s ∈ vc.rows ↔ s ∈ uc.rows ∧ s ≠ r) :
    Listed P q vc l := by
  obtain ⟨hHead, hTail⟩ := List.forall_mem_cons.mp h.items
  obtain ⟨-, -, r, hr, hSlot⟩ := hHead
  refine ⟨fun j hj => ?_, fun s hs hOf => ?_, (List.nodup_cons.mp h.addresses).2,
    (List.nodup_cons.mp h.keys).2⟩
  · obtain ⟨hLt, hSome, s, hs, hSlotJ⟩ := hTail j hj
    exact ⟨Nat.lt_of_lt_of_le hLt hWrote.next, hSome, s,
      (hRows r hr hSlot s).mpr ⟨hs, h.row_ne hSlot hj hSlotJ⟩, h.slot_tail hWrote hj hSlotJ⟩
  · obtain ⟨hOld, hNe⟩ := (hRows r hr hSlot s).mp hs
    obtain ⟨j, hj, hSlotJ⟩ := h.rows s hOld hOf
    rcases List.mem_cons.mp hj with rfl | hj
    · exact absurd (eq_row hr hSlot hOld hSlotJ) hNe
    · exact ⟨j, hj, h.slot_tail hWrote hj hSlotJ⟩

/-- The row of the head is written again. -/
theorem update (h : Listed P p uc (i :: l)) (hr : r ∈ uc.rows) (hSlot : Slot P p i r) {o : Object}
    (hWrote : Wrote p q i.data o) {g : Sql.Row → Sql.Row} (hRows : vc.rows = uc.rows.map g)
    (hData : i'.data = i.data) (hItem : i'.item = i.item) (hNew : Slot Q q i' (g r))
    (hKeep : ∀ s ∈ uc.rows, s ≠ r → g s = s) (hRest : ∀ j ∈ l, ∀ s, P j s → Q j s) :
    Listed Q q vc (i' :: l) := by
  obtain ⟨⟨hLt, hSome, -⟩, hTail⟩ := List.forall_mem_cons.mp h.items
  have hTailSlot : ∀ j ∈ l, ∀ s ∈ uc.rows, Slot P p j s → Slot Q q j (g s) := by
    intro j hj s hs hSlotJ
    rw [hKeep s hs (h.row_ne hSlot hj hSlotJ)]
    exact (h.slot_tail hWrote hj hSlotJ).mono (hRest j hj s hSlotJ.meets)
  refine ⟨List.forall_mem_cons.mpr ⟨⟨?_, by rwa [hItem], g r, ?_, hNew⟩, fun j hj => ?_⟩,
    fun s hs hOf => ?_, ?_, ?_⟩
  · rw [hData]
    exact Nat.lt_of_lt_of_le hLt hWrote.next
  · rw [hRows]
    exact List.mem_map_of_mem hr
  · obtain ⟨hLtJ, hSomeJ, s, hs, hSlotJ⟩ := hTail j hj
    exact ⟨Nat.lt_of_lt_of_le hLtJ hWrote.next, hSomeJ, g s,
      by rw [hRows]; exact List.mem_map_of_mem hs, hTailSlot j hj s hs hSlotJ⟩
  · rw [hRows] at hs
    obtain ⟨s', hMem, rfl⟩ := List.mem_map.mp hs
    by_cases hSame : s' = r
    · rw [hSame]
      exact ⟨i', List.mem_cons_self, hNew⟩
    · have hOld : CollectionData.isOf historyKey s' = true := by
        rwa [hKeep s' hMem hSame] at hOf
      obtain ⟨j, hj, hSlotJ⟩ := h.rows s' hMem hOld
      rcases List.mem_cons.mp hj with rfl | hj
      · exact absurd (eq_row hr hSlot hMem hSlotJ) hSame
      · exact ⟨j, List.mem_cons_of_mem i' hj, hTailSlot j hj s' hMem hSlotJ⟩
  · rw [List.map_cons, hData]
    exact h.addresses
  · rw [List.map_cons, HistoryItem.key, hItem]
    exact h.keys

end Listed

end

/-! ## The steps of the program -/

section Steps

variable {P Q : HistoryItem → Sql.Row → Prop} {p : Program} {uc ub : Sql.Table}
  {l : List HistoryItem} {i : HistoryItem}

/-- The text of the data of a row. -/
def timeText (now : Int) : String := Json.dump (JSON.serialize (timeMap now))

theorem setJSONData_timeMap (now : Int) (o : Object) :
    CollectionData.setJSONData (timeMap now) o = CollectionData.setData (timeText now) o := by
  have hMap : (timeMap now).toBool = true := rfl
  rw [CollectionData.setJSONData, if_pos hMap, timeText]

theorem getData_setData (text : String) (o : Object) :
    CollectionData.getData (CollectionData.setData text o) = text :=
  Object.get_set o CollectionData.data text

theorem get_setData (text : String) (o : Object) {f : Field} (hf : f.name ≠ CollectionData.data.name) :
    (CollectionData.setData text o).get f = o.get f := Object.get_set_of_ne o _ hf.symm

/-- An object that a setter has not changed is what it was. -/
theorem setData_same {text : String} {o : Object}
    (h : (CollectionData.setData text o).changed = false) :
    CollectionData.setData text o = o := by
  refine Object.set_of_eq ?_
  by_contra hNe
  have hChanged := Object.set_changed_of_ne hNe
  exact Bool.false_ne_true (h.symm.trans hChanged)

/-- What `update` makes of a row. -/
structure Updated (now : Int) (r s : Sql.Row) : Prop where
  rowid : s.rowid = r.rowid
  target : s.cells CollectionData.targetID.name = r.cells CollectionData.targetID.name
  data : s.cells CollectionData.data.name = .text (Text.cString (timeText now))

/-- The row of an object is written again when the object has the time and is saved. -/
theorem updated_row {floatText : Rat → Rat} {o : Object} {r : Sql.Row}
    (h : Mirrors floatText rowFields o r) (hr : r ∈ uc.rows) (now : Int) :
    ∃ g : Sql.Row → Sql.Row,
      (saved floatText CollectionData.table (CollectionData.setData (timeText now) o) uc).rows =
        uc.rows.map g ∧
      Mirrors floatText rowFields (CollectionData.setData (timeText now) o) (g r) ∧
      Updated now r (g r) ∧
      (∀ k, CollectionData.isEntry historyKey k r = true →
        CollectionData.isEntry historyKey k (g r) = true) ∧
      ∀ q ∈ uc.rows, q ≠ r → g q = q := by
  have hGet : ∀ {f : Field}, f.name ≠ CollectionData.data.name →
      (CollectionData.setData (timeText now) o).get f = o.get f := fun hf => get_setData _ _ hf
  obtain ⟨g, hRows, hMirrors, hRowid, hKeep⟩ := h.saved rowFields_stored hr
    (hGet (f := .identifier) (by decide)) fun hUnchanged f _ => by rw [setData_same hUnchanged]
  have hCell : ∀ f ∈ rowFields, f.name ≠ CollectionData.data.name →
      (g r).cells f.name = r.cells f.name := by
    intro f hf hNe
    rw [hMirrors.cells f hf, hGet hNe, h.cells f hf]
  refine ⟨g, hRows, hMirrors, ⟨hRowid r, hCell _ (by simp [rowFields]) (by decide), ?_⟩,
    fun k hNames => ?_, hKeep⟩
  · have hData : (CollectionData.setData (timeText now) o).get CollectionData.data = timeText now :=
      getData_setData _ _
    rw [hMirrors.cells CollectionData.data (by simp [rowFields]), hData]
    rfl
  · obtain ⟨hType, hKey⟩ := CollectionData.isEntry_iff.mp hNames
    exact CollectionData.isEntry_iff.mpr
      ⟨(hCell CollectionData.type (by simp [rowFields]) (by decide)).trans hType,
        (hCell CollectionData.key (by simp [rowFields]) (by decide)).trans hKey⟩

/-- `update` writes the time into the row of the head. -/
theorem update_listed (h : Tables p uc ub) (hListed : Listed P p uc (i :: l)) (now : Int)
    (hHead : ∀ r s, P i r → Updated now r s → Q { i with date := now } s)
    (hRest : ∀ j ∈ l, ∀ r, P j r → Q j r) :
    ∃ q uc', i.update now p = .ok (q, { i with date := now }) ∧ Tables q uc' ub ∧
      q.floatText = p.floatText ∧ uc'.seq = uc.seq ∧
      Listed Q q uc' ({ i with date := now } :: l) := by
  obtain ⟨hLt, -, r, hr, hSlot⟩ := hListed.items i List.mem_cons_self
  obtain ⟨o', ho'⟩ : ∃ o', o' = CollectionData.setData (timeText now) (p.object i.data) := ⟨_, rfl⟩
  obtain ⟨p₁, hp₁⟩ : ∃ p₁, p₁ = p.modify i.data (CollectionData.setJSONData (timeMap now)) :=
    ⟨_, rfl⟩
  have hObject : p₁.object i.data = o' := by
    rw [hp₁, Program.object_modify, setJSONData_timeMap, ho']
  have hTables₁ : Tables p₁ uc ub := by
    rw [hp₁]
    exact h.modify _ _
  have hLt₁ : i.data < p₁.store.next := by
    rw [hp₁]
    exact hLt
  have hText₁ : p₁.floatText = p.floatText := by rw [hp₁]; rfl
  obtain ⟨q, o, hSave, hTables, hWrote, hIdentifier, hFields⟩ := hTables₁.save apart_records
    CollectionData.cls_ne_info CollectionData.table_columns CollectionData.stored_ne_nil hLt₁
  rw [hObject] at hTables hIdentifier hFields
  rw [hText₁] at hTables
  have hWroteP : Wrote p q i.data o := by
    rw [hp₁] at hWrote
    exact hWrote.of_modify
  obtain ⟨g, hRows, hMirrors, hUpdated, hNames, hKeep⟩ := updated_row hSlot.mirrors hr now
  rw [← ho'] at hRows hMirrors
  have hId : o'.identifier = (p.object i.data).identifier := by
    rw [ho']
    exact get_setData _ _ (f := .identifier) (by decide)
  have hOld : o'.identifier ≠ -1 := by
    rw [hId]
    exact ne_neg_one_of_rowid hSlot.mirrors.rowid
  rw [savedIdentifier, if_neg fun hBoth => hOld hBoth.2] at hIdentifier
  have hNew : Slot Q q { i with date := now } (g r) := by
    refine ⟨?_, hNames _ hSlot.names, hHead r (g r) hSlot.meets hUpdated⟩
    rw [hWroteP.floatText, hWroteP.object]
    exact hMirrors.congr hIdentifier fun f hf => hFields f (rowFields_stored f hf)
  have hSeq : (saved p.floatText CollectionData.table o' uc).seq = uc.seq := by
    rw [saved, if_neg hOld]
    split <;> rfl
  refine ⟨q, _, ?_, hTables, hWroteP.floatText, hSeq,
    hListed.update hr hSlot hWroteP hRows rfl rfl hNew hKeep hRest⟩
  rw [HistoryItem.update, ← hp₁, hSave]
  rfl

/-- Items that go take their rows with them. -/
theorem removeAll_listed (h : Tables p uc ub) {gone keep : List HistoryItem}
    (hListed : Listed P p uc (gone ++ keep)) :
    ∃ q uc', removeAll gone p = .ok q ∧ Tables q uc' ub ∧ q.floatText = p.floatText ∧
      uc'.seq = uc.seq ∧ Listed P q uc' keep := by
  induction gone generalizing p uc with
  | nil => exact ⟨p, uc, rfl, h, rfl, rfl, hListed⟩
  | cons i gone ih =>
    rw [List.cons_append] at hListed
    obtain ⟨hLt, -⟩ := hListed.items i List.mem_cons_self
    obtain ⟨p₁, hRemove, hTables, hWrote⟩ := h.remove apart_records CollectionData.cls_ne_info
      CollectionData.table_columns hLt
    have hRest := hListed.remove hWrote fun r hr hSlot s => hSlot.mirrors.mem_deleted hr
    obtain ⟨q, uc', hRun, hTables', hText, hSeq, hKeep⟩ := ih hTables hRest
    refine ⟨q, uc', ?_, hTables', hText.trans hWrote.floatText, hSeq, hKeep⟩
    rw [removeAll, hRemove]
    exact hRun

/-- The condition, except that of the item at an address it is only asked that its row has a rowid and a
target. -/
def Entering (a n : Nat) (id : Int32) (P : HistoryItem → Sql.Row → Prop) (j : HistoryItem)
    (r : Sql.Row) : Prop :=
  if j.data = a then r.rowid = n ∧ r.cells CollectionData.targetID.name = .int id.toInt else P j r

/-- An item that is not in the list gets a row of its own. -/
theorem add_listed (h : Tables p uc ub) (hListed : Listed P p uc l) {item : DataItem}
    (hLink : Text.NulFree item.link) (hKey : Text.NulFree item.projectKey)
    (hNot : ∀ j ∈ l, j.key ≠ item.collectionKey) (hSeq : uc.seq + 1 < 2 ^ 31)
    (memory entryMemory : Object) :
    ∃ q a uc', item.saveToCollection memory entryMemory historyKey (.leaf .null) p = .ok (q, a) ∧
      Tables q uc' (recordTable p.floatText memory item ub) ∧ q.floatText = p.floatText ∧
      uc'.seq = uc.seq + 1 ∧ p.store.next ≤ a ∧
      ∀ date, Listed (Entering a (uc.seq + 1) (recordIdentifier memory item ub) P) q uc'
        (⟨a, some item, date⟩ :: l) := by
  have hType : Text.NulFree historyKey := by decide
  have hRow : uc.rows.find? (CollectionData.isEntry historyKey item.collectionKey) = none := by
    refine List.find?_eq_none.mpr fun r hr hNames => ?_
    obtain ⟨j, hj, hSlot⟩ := hListed.rows r hr (isOf_of_names hNames)
    have hSame := (CollectionData.isEntry_iff.mp hSlot.names).2
    rw [(CollectionData.isEntry_iff.mp hNames).2] at hSame
    exact hNot j hj (Sql.Cell.text.inj hSame).symm
  obtain ⟨o, ho⟩ : ∃ o, o = newEntry entryMemory historyKey item.collectionKey
    (recordIdentifier memory item ub) := ⟨_, rfl⟩
  have hBefore : o = withData (.leaf .null) (entryBefore memory entryMemory item historyKey uc ub) := by
    rw [withData_null, entryBefore, hRow, ho]
  obtain ⟨q, a, hRun, hTables, hFrame, ⟨hFrom, hLt⟩, hIdentifier, hFields⟩ :=
    saveToCollection_both h hLink hKey hType memory entryMemory (.leaf .null) hBefore
  rw [recordsAfter, hRow] at hTables
  have hChanged : o.changed = true := by
    rw [ho]
    exact newEntry_changed (key_ne_empty item)
  have hNew : o.identifier = -1 := by rw [ho, identifier_newEntry]
  have hRoom : uc.seq < Sql.maxRowid := by
    rw [Sql.maxRowid]
    omega
  rw [saved, if_pos hChanged, if_pos hNew, if_pos hRoom] at hTables
  rw [savedIdentifier, if_pos ⟨hChanged, hNew⟩, if_pos hRoom] at hIdentifier
  obtain ⟨hGetType, hGetKey, hGetTarget⟩ := get_newEntry entryMemory historyKey item.collectionKey
    (recordIdentifier memory item ub)
  rw [← ho] at hGetType hGetKey hGetTarget
  have hMirrors : Mirrors q.floatText rowFields (q.object a)
      (newRow p.floatText CollectionData.table o uc) := by
    rw [hFrame.floatText]
    exact mirrors_newRow rowFields_stored hSeq hIdentifier hFields
  have hOld : Listed (Entering a (uc.seq + 1) (recordIdentifier memory item ub) P) p uc l := by
    refine hListed.mono fun j hj r hMeets => ?_
    have hLtJ := (hListed.items j hj).1
    rw [Entering, if_neg (by omega)]
    exact hMeets
  refine ⟨q, a, _, hRun, hTables, hFrame.floatText, rfl, hFrom, fun date => ?_⟩
  refine hOld.add hFrame hFrom hLt rfl rfl ⟨hMirrors, ?_, ?_⟩ hNot
  · exact isEntry_saved hType (nulFree_collectionKey hLink hKey) p.floatText hGetType hGetKey _ _
  · rw [Entering, if_pos rfl]
    exact ⟨rfl, target_saved p.floatText hGetTarget fun _ => .null⟩

end Steps

/-! ## `insert` -/

/-- The item has the link, as Dart sees it. -/
def hasLink (link : Bridge.DartString) (i : HistoryItem) : Bool :=
  decide (i.item.map dartLink = some link)

/-- The loop finds the last item with the link. -/
theorem findItem_eq (link : Bridge.DartString) {l : List HistoryItem}
    (hSome : ∀ i ∈ l, i.item.isSome = true) (found : Option HistoryItem) :
    findItem link found l = .ok ((l.filter (hasLink link)).getLast?.or found) := by
  induction l generalizing found with
  | nil => rfl
  | cons i l ih =>
    obtain ⟨hHead, hTail⟩ := List.forall_mem_cons.mp hSome
    obtain ⟨item, hItem⟩ := Option.isSome_iff_exists.mp hHead
    have hRun : findItem link found (i :: l) =
        findItem link (if dartLink item = link then some i else found) l := by
      rw [findItem, hItem]
    rw [hRun, ih hTail]
    by_cases hLink : dartLink item = link
    · have hHas : hasLink link i = true := by
        rw [hasLink, hItem, Option.map_some, hLink]
        exact decide_eq_true rfl
      rw [if_pos hLink, List.filter_cons_of_pos hHas, List.getLast?_cons]
      cases (l.filter (hasLink link)).getLast? <;> rfl
    · have hHas : ¬ hasLink link i = true := by
        rw [hasLink, hItem, Option.map_some, decide_eq_true_eq]
        exact fun hEq => hLink (Option.some.inj hEq)
      rw [if_neg hLink, List.filter_cons_of_neg hHas]

/-- The item that the loop finds is the one that is inserted, and if it finds none there is no row with
the key. -/
def Fits (item : DataItem) (l : List HistoryItem) : Prop :=
  match (l.filter (hasLink (dartLink item))).getLast? with
  | some i => i.pair = some item.pair
  | none => ∀ i ∈ l, i.key ≠ item.collectionKey

theorem key_of_pair {i : HistoryItem} {item : DataItem} (h : i.pair = some item.pair) :
    i.key = item.collectionKey := by
  obtain ⟨other, hItem, hPair⟩ := Option.map_eq_some_iff.mp h
  obtain ⟨hProject, hLink⟩ := Prod.mk.inj hPair
  rw [HistoryItem.key, hItem, Option.map_some, Option.getD_some, collectionKey, hProject, hLink]
  rfl

/-- The pairs of the list are different, as the keys are. -/
theorem Listed.pairs {P : HistoryItem → Sql.Row → Prop} {p : Program} {uc : Sql.Table}
    {l : List HistoryItem} (h : Listed P p uc l) : (l.map HistoryItem.pair).Nodup := by
  have hKeys : l.map HistoryItem.key = (l.map HistoryItem.pair).map fun x =>
      (x.map fun y => y.1 ++ ":" ++ y.2).getD "" := by
    rw [List.map_map]
    refine List.map_congr_left fun i _ => ?_
    rw [HistoryItem.key, Function.comp_apply, HistoryItem.pair, Option.map_map]
    rfl
  have hNodup := h.keys
  rw [hKeys] at hNodup
  exact hNodup.of_map

section Lists

variable {l : List HistoryItem} {i : HistoryItem}

/-- The item that `items.remove` takes out, and the rest. -/
theorem perm_remove (hData : (l.map HistoryItem.data).Nodup) (hi : i ∈ l) :
    l.Perm (i :: l.eraseP (·.data = i.data)) := by
  have hSelf : decide (i.data = i.data) = true := decide_eq_true rfl
  obtain ⟨a, l₁, l₂, -, ha, rfl, hErase⟩ :=
    List.exists_of_eraseP (p := fun j => decide (j.data = i.data)) hi hSelf
  have hMem : a ∈ l₁ ++ a :: l₂ := by simp
  obtain rfl : a = i := List.inj_on_of_nodup_map hData hMem hi (of_decide_eq_true ha)
  rw [hErase]
  exact List.perm_middle

/-- In a list of different pairs the item that is taken out is the one of its pair. -/
theorem map_pair_remove (hData : (l.map HistoryItem.data).Nodup)
    (hPair : (l.map HistoryItem.pair).Nodup) (hi : i ∈ l) :
    (l.eraseP (·.data = i.data)).map HistoryItem.pair = (l.map HistoryItem.pair).erase i.pair := by
  induction l with
  | nil => rfl
  | cons j l ih =>
    by_cases hSame : j = i
    · subst hSame
      rw [List.eraseP_cons_of_pos (by simp), List.map_cons, List.erase_cons_head]
    · have hi : i ∈ l := (List.mem_cons.mp hi).resolve_left (Ne.symm hSame)
      have hNeData : ¬ j.data = i.data := fun hEq =>
        hSame (List.inj_on_of_nodup_map hData List.mem_cons_self (List.mem_cons_of_mem j hi) hEq)
      have hNePair : ¬ (j.pair == i.pair) = true := fun hEq =>
        hSame (List.inj_on_of_nodup_map hPair List.mem_cons_self (List.mem_cons_of_mem j hi)
          (eq_of_beq hEq))
      rw [List.eraseP_cons_of_neg (by simp [hNeData]), List.map_cons, List.map_cons,
        List.erase_cons_tail hNePair,
        ih (List.nodup_cons.mp hData).2 (List.nodup_cons.mp hPair).2 hi]

/-- The item that was updated lies at the head. -/
theorem map_update {rest : List HistoryItem} (hData : ((i :: rest).map HistoryItem.data).Nodup)
    (i' : HistoryItem) :
    ((i :: rest).map fun j => if j.data = i.data then i' else j) = i' :: rest := by
  rw [List.map_cons, if_pos rfl]
  congr 1
  refine (List.map_congr_left fun j hj => if_neg fun hSame => ?_).trans (List.map_id rest)
  exact (List.nodup_cons.mp hData).1 (hSame ▸ List.mem_map_of_mem hj)

/-- A list with the pairs of a push is not too long. -/
theorem length_of_push {x : Option (String × String)} {rest : List HistoryItem}
    (h : x :: rest.map HistoryItem.pair = Recent.push ITEM_COUNT x (l.map HistoryItem.pair)) :
    (i :: rest).length ≤ ITEM_COUNT := by
  have hLe : (x :: rest.map HistoryItem.pair).length ≤ ITEM_COUNT := by
    rw [h]
    exact Recent.length_push_le ITEM_COUNT x _
  rw [List.length_cons, List.length_map] at hLe
  exact hLe

end Lists

section Insert

variable {P : Sql.Table → HistoryItem → Sql.Row → Prop} {p : Program} {uc ub : Sql.Table}
  {l : List HistoryItem}

/-- `insert` moves the item that it finds to the head. -/
theorem insert_found (S : Sorting) (h : Tables p uc ub) (hListed : Listed (P ub) p uc l)
    (hLength : l.length ≤ ITEM_COUNT) (memory entryMemory : Object) (item : DataItem) (now : Int)
    {i : HistoryItem}
    (hFound : (l.filter (hasLink (dartLink item))).getLast? = some i)
    (hMoved : ∀ r s, P ub i r → Updated now r s → P ub { i with date := now } s) :
    ∃ q uc' rest, insert S memory entryMemory item now ⟨p, some l⟩ =
        .ok ⟨q, some ({ i with date := now } :: rest)⟩ ∧ Tables q uc' ub ∧
      q.floatText = p.floatText ∧ Listed (P ub) q uc' ({ i with date := now } :: rest) ∧
      rest.Sublist l ∧
      i.pair :: rest.map HistoryItem.pair =
        Recent.push ITEM_COUNT i.pair (l.map HistoryItem.pair) := by
  have hi : i ∈ l := (List.mem_filter.mp (List.mem_of_getLast? hFound)).1
  have hHead := hListed.perm (perm_remove hListed.addresses hi)
  obtain ⟨q, uc', hRun, hTables, hText, -, hAfter⟩ :=
    update_listed h hHead now hMoved fun _ _ _ hMeets => hMeets
  refine ⟨q, uc', l.eraseP (·.data = i.data), ?_, hTables, hText, hAfter, List.eraseP_sublist, ?_⟩
  · rw [insert, items]
    simp only [pure_bind, findItem_eq _ (fun i hi => (hListed.items i hi).2.1), hFound,
      Transition.ok_bind, Option.some_or]
    rw [hRun]
    simp only [Transition.ok_bind]
    rw [map_update hHead.addresses]
    rfl
  · have hMem : i.pair ∈ l.map HistoryItem.pair := List.mem_map_of_mem hi
    rw [Recent.push_of_mem hMem (by rwa [List.length_map]),
      map_pair_remove hListed.addresses hListed.pairs hi]

/-- `insert` adds an item that is not in the list. -/
theorem insert_missing (S : Sorting) (h : Tables p uc ub) (hListed : Listed (P ub) p uc l)
    (memory entryMemory : Object) (item : DataItem) (now : Int)
    (hLink : Text.NulFree item.link) (hKey : Text.NulFree item.projectKey)
    (hFound : (l.filter (hasLink (dartLink item))).getLast? = none)
    (hNot : ∀ i ∈ l, i.key ≠ item.collectionKey) (hSeq : uc.seq + 1 < 2 ^ 31)
    (hKeep : ∀ j r, P ub j r → P (recordTable p.floatText memory item ub) j r)
    (hAdded : ∀ a r, r.rowid = uc.seq + 1 → r.cells CollectionData.targetID.name =
        .int (recordIdentifier memory item ub).toInt →
      r.cells CollectionData.data.name = .text (Text.cString (timeText now)) →
      P (recordTable p.floatText memory item ub) ⟨a, some item, now⟩ r) :
    ∃ q uc' a rest, insert S memory entryMemory item now ⟨p, some l⟩ =
        .ok ⟨q, some (⟨a, some item, now⟩ :: rest)⟩ ∧
      Tables q uc' (recordTable p.floatText memory item ub) ∧ q.floatText = p.floatText ∧
      uc'.seq = uc.seq + 1 ∧
      Listed (P (recordTable p.floatText memory item ub)) q uc' (⟨a, some item, now⟩ :: rest) ∧
      rest.Sublist l ∧ some item.pair :: rest.map HistoryItem.pair =
        Recent.push ITEM_COUNT (some item.pair) (l.map HistoryItem.pair) := by
  obtain ⟨q₁, a, uc₁, hSave, hTables₁, hText₁, hSeq₁, hFrom, hListed₁⟩ :=
    add_listed h hListed hLink hKey hNot hSeq memory entryMemory
  obtain ⟨i, hi⟩ : ∃ i : HistoryItem,
    i = ⟨a, some item, readDate (CollectionData.getData (q₁.object a))⟩ := ⟨_, rfl⟩
  have hCreate : HistoryItem.new a (some item) q₁ = .ok (q₁, i) := by
    rw [hi]
    rfl
  have hWhole : Listed (Entering a (uc.seq + 1) (recordIdentifier memory item ub) (P ub)) q₁ uc₁
      (i :: l) := by
    rw [hi]
    exact hListed₁ _
  have hSplit : (i :: l).Perm (((i :: l).drop ITEM_COUNT).reverse ++ (i :: l).take ITEM_COUNT) := by
    refine (List.Perm.of_eq (List.take_append_drop ITEM_COUNT (i :: l)).symm).trans ?_
    exact List.perm_append_comm.trans ((List.reverse_perm _).symm.append_right _)
  obtain ⟨q₂, uc₂, hRemove, hTables₂, hText₂, hSeq₂, hTrimmed⟩ :=
    removeAll_listed hTables₁ (hWhole.perm hSplit)
  obtain ⟨rest, hRest⟩ : ∃ rest, rest = l.take (ITEM_COUNT - 1) := ⟨_, rfl⟩
  have hTake : (i :: l).take ITEM_COUNT = i :: rest := by
    rw [hRest]
    rfl
  rw [hTake] at hTrimmed
  have hSub : rest.Sublist l := by
    rw [hRest]
    exact List.take_sublist _ l
  have hData : i.data = a := by rw [hi]
  obtain ⟨q₃, uc₃, hUpdate, hTables₃, hText₃, hSeq₃, hAfter⟩ := update_listed
    (Q := P (recordTable p.floatText memory item ub)) hTables₂ hTrimmed now
    (fun r s hMeets hUpdated => by
      rw [Entering, if_pos hData] at hMeets
      rw [hi]
      exact hAdded a s (hUpdated.rowid.trans hMeets.1) (hUpdated.target.trans hMeets.2)
        hUpdated.data)
    (fun j hj r hMeets => by
      have hLt := (hListed.items j (hSub.subset hj)).1
      rw [Entering, if_neg (by omega)] at hMeets
      exact hKeep j r hMeets)
  have hItem : { i with date := now } = (⟨a, some item, now⟩ : HistoryItem) := by rw [hi]
  rw [hItem] at hUpdate hAfter
  refine ⟨q₃, uc₃, a, rest, ?_, hTables₃, hText₃.trans (hText₂.trans hText₁),
    hSeq₃.trans (hSeq₂.trans hSeq₁), hAfter, hSub, ?_⟩
  · rw [insert, items]
    simp only [pure_bind, findItem_eq _ (fun i hi => (hListed.items i hi).2.1), hFound,
      Transition.ok_bind, Option.none_or, hSave, lift_ok, hCreate]
    rw [trim, hRemove]
    simp only [Transition.ok_bind, pure_bind]
    rw [hTake, hUpdate]
    simp only [Transition.ok_bind]
    rw [map_update hTrimmed.addresses]
    rfl
  · have hNotMem : some item.pair ∉ l.map HistoryItem.pair := by
      intro hMem
      obtain ⟨j, hj, hPair⟩ := List.mem_map.mp hMem
      exact hNot j hj (key_of_pair hPair)
    rw [Recent.push, List.erase_of_not_mem hNotMem, hRest, List.map_take]
    rfl

end Insert

end RetroConfig.HistoryManager
