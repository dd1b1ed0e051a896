import RetroConfig.App.HistoryRuns

/-!
# The order of the list

The time of an item is the last one at which it was inserted, and the list is to be in the order of
the times, also after a restart, when it is read from the table and sorted by them.

The comparison cuts the difference of two times to seconds. It is one of a total preorder on times of
which no two differences of less than a second add up to a second (`consistent_iff`). If the clock goes
on by a second between items, the list is the same after a restart (`order_survives`); half a second
is not enough (`order_fails`).
-/

namespace RetroConfig.HistoryManager

open SQLite Program DataItem

/-! ## The comparison -/

theorem tdiv_le_zero_iff (n : Int) : n.tdiv 1000000 ≤ 0 ↔ n < 1000000 := by
  rcases Int.le_total 0 n with hPos | hNeg
  · rw [Int.tdiv_eq_ediv_of_nonneg hPos]
    omega
  · have hMinus : (-n).tdiv 1000000 = -n / 1000000 := Int.tdiv_eq_ediv_of_nonneg (by omega)
    rw [Int.neg_tdiv] at hMinus
    omega

theorem compare_le_iff (a b : HistoryItem) : compare a b ≤ 0 ↔ b.date - a.date < 1000000 :=
  tdiv_le_zero_iff _

/-- The comparison is one of a total preorder unless two differences of less than a second add up to a
second. -/
theorem consistent_iff (l : List HistoryItem) : Consistent compare l ↔
    ∀ a ∈ l, ∀ b ∈ l, ∀ c ∈ l, b.date - a.date < 1000000 → c.date - b.date < 1000000 →
      c.date - a.date < 1000000 := by
  constructor
  · intro h a ha b hb c hc hab hbc
    exact (compare_le_iff a c).mp
      (h.trans a ha b hb c hc ((compare_le_iff a b).mpr hab) ((compare_le_iff b c).mpr hbc))
  · refine fun h => ⟨fun a _ b _ => ?_, fun a ha b hb c hc hab hbc => ?_⟩
    · rw [compare, compare, ← Int.sign_neg, ← Int.neg_tdiv, Int.neg_sub]
    · exact (compare_le_iff a c).mpr
        (h a ha b hb c hc ((compare_le_iff a b).mp hab) ((compare_le_iff b c).mp hbc))

/-- The times are equal or a second apart. -/
def Distant (l : List HistoryItem) : Prop :=
  ∀ a ∈ l, ∀ b ∈ l, a.date = b.date ∨ a.date + 1000000 ≤ b.date ∨ b.date + 1000000 ≤ a.date

theorem Distant.consistent {l : List HistoryItem} (h : Distant l) : Consistent compare l := by
  refine (consistent_iff l).mpr fun a ha b hb c hc hab hbc => ?_
  have hDistant := h a ha b hb
  have hDistant' := h b hb c hc
  omega

/-- Each item is a second later than the next. -/
def Spaced (l : List HistoryItem) : Prop := l.Pairwise fun a b => b.date + 1000000 ≤ a.date

theorem Spaced.distant {l : List HistoryItem} (h : Spaced l) : Distant l := by
  intro a ha b hb
  induction l with
  | nil => cases ha
  | cons i l ih =>
    obtain ⟨hHead, hTail⟩ := List.pairwise_cons.mp h
    rcases List.mem_cons.mp ha with rfl | ha' <;> rcases List.mem_cons.mp hb with rfl | hb'
    · exact .inl rfl
    · exact .inr (.inr (hHead b hb'))
    · exact .inr (.inl (hHead a ha'))
    · exact ih hTail ha' hb'

/-! ## The time in the data of a row -/

/-- A time that a `DateTime` can have. -/
def InRange (n : Int) : Prop := (n.natAbs : Int) ≤ maxMicroseconds

theorem readDate_timeText {n : Int} (h : InRange n) : readDate (timeText n) = n := by
  have hLong : (Int64.ofInt n).toInt = n := by
    rw [InRange, maxMicroseconds] at h
    exact Int64.toInt_ofInt_of_le (by omega) (by omega)
  have hTree : JSON.serialize (timeMap n) = .object [("time", .leaf (.integer (Int64.ofInt n)))] := by
    rw [JSON.serialize, timeMap, ValueTree.map_object _ (List.pairwise_singleton ..)]
    simp only [List.map_cons, List.map_nil, ValueTree.map_leaf]
    rfl
  have hFloat : Json.NoFloat (JSON.serialize (timeMap n)) := by
    rw [hTree, Json.NoFloat, ValueTree.all_object, List.forall_mem_singleton]
    exact ValueTree.all_leaf.mpr rfl
  have hWf : (JSON.serialize (timeMap n)).WellFormed := by
    rw [hTree, ValueTree.wellFormed_object, List.forall_mem_singleton]
    exact ⟨List.pairwise_singleton .., ValueTree.wellFormed_leaf⟩
  have hRange : fromMicroseconds n = n := if_pos h
  rw [readDate, timeText, Json.parse_dump hFloat hWf, hTree, Json.rereadTree,
    ValueTree.map_object _ (List.pairwise_singleton ..)]
  simp only [List.map_cons, List.map_nil, ValueTree.map_leaf, Option.bind_some, DataItem.find,
    List.lookup_cons_self, Json.reread, hLong]
  by_cases hNeg : n < 0
  · rw [if_pos hNeg]
    change fromMicroseconds (Int64.ofInt n).toInt = n
    rw [hLong, hRange]
  · rw [if_neg hNeg]
    change fromMicroseconds (UInt64.ofNat n.natAbs).toNat = n
    rw [InRange, maxMicroseconds] at h
    have hSize : n.natAbs < UInt64.size :=
      Nat.lt_of_le_of_lt (by omega) (by decide : 8640000000000000000 < _)
    rw [UInt64.toNat_ofNat_of_lt' hSize, Int.natAbs_of_nonneg (by omega), hRange]

theorem nulFree_timeText (now : Int) : Text.NulFree (timeText now) := by
  rw [timeText, Text.NulFree, Json.dump, String.toList_ofList]
  exact Json.nul_notMem_dumpTree _

/-! ## The list and what is read from its rows -/

/-- The row has the time of the item and points to a record of its pair. -/
structure Dated (ub : Sql.Table) (i : HistoryItem) (r : Sql.Row) : Prop where
  range : InRange i.date
  data : r.cells CollectionData.data.name = .text (timeText i.date)
  pointed : Pointed ub i r

/-- What tells the order: the pair of an item and its time. -/
def stamp (i : HistoryItem) : Pair × Int := (i.pair, i.date)

section Stamps

variable {P : HistoryItem → Sql.Row → Prop} {p q : Program} {uc ub : Sql.Table}
  {l l' : List HistoryItem} {i j : HistoryItem} {r : Sql.Row}

/-- A row points to records of one pair. -/
theorem Pointed.pair_eq (h : Pointed ub i r) (h' : Pointed ub j r) : i.pair = j.pair := by
  obtain ⟨e, b, -, -, hPoints, hPair⟩ := h
  obtain ⟨e', b', -, -, hPoints', hPair'⟩ := h'
  have hRowid : (b.rowid : Int) = b'.rowid :=
    Sql.Cell.int.inj (hPoints.target.symm.trans hPoints'.target)
  obtain rfl := Sql.Table.eq_of_rowid hPoints.mem hPoints'.mem (by omega)
  have hLink := Sql.Cell.text.inj (hPoints.record.1.symm.trans hPoints'.record.1)
  have hProject := Sql.Cell.text.inj (hPoints.record.2.symm.trans hPoints'.record.2)
  rw [hPair, hPair', hLink, hProject]

/-- What is read from a row is what the list has. -/
theorem stamp_eq (hRead : Read ub j r) (hDated : Dated ub i r) : stamp j = stamp i := by
  obtain ⟨⟨text, hText, hDate⟩, hPointed⟩ := hRead
  have hSame := Sql.Cell.text.inj (hText.symm.trans hDated.data)
  rw [hSame, readDate_timeText hDated.range] at hDate
  rw [stamp, stamp, hDate, hPointed.pair_eq hDated.pointed]

theorem Listed.nodup_stamps (h : Listed P p uc l) : (l.map stamp).Nodup := by
  refine .of_map Prod.fst ?_
  rw [List.map_map]
  exact h.pairs

/-- The list that is read is the list that there was, up to its order. -/
theorem Listed.stamps_perm (h : Listed (Dated ub) p uc l) (h' : Listed (Read ub) q uc l') :
    (l'.map stamp).Perm (l.map stamp) := by
  refine (List.perm_ext_iff_of_nodup h'.nodup_stamps h.nodup_stamps).mpr fun x => ?_
  constructor
  · intro hx
    obtain ⟨j, hj, rfl⟩ := List.mem_map.mp hx
    obtain ⟨-, -, r, hr, hSlot⟩ := h'.items j hj
    obtain ⟨i, hi, hSlot'⟩ := h.rows r hr (isOf_of_names hSlot.names)
    rw [stamp_eq hSlot.meets hSlot'.meets]
    exact List.mem_map_of_mem hi
  · intro hx
    obtain ⟨i, hi, rfl⟩ := List.mem_map.mp hx
    obtain ⟨-, -, r, hr, hSlot⟩ := h.items i hi
    obtain ⟨j, hj, hSlot'⟩ := h'.rows r hr (isOf_of_names hSlot.names)
    rw [← stamp_eq hSlot'.meets hSlot.meets]
    exact List.mem_map_of_mem hj

/-- The rows are a history. -/
theorem Listed.shelf (h : Listed (Dated ub) p uc l) : Shelf uc ub := by
  refine ⟨fun r hr hOf => ?_, fun k r hr s hs hNames hNames' => ?_⟩
  · obtain ⟨i, hi, hSlot⟩ := h.rows r hr hOf
    obtain ⟨e, b, hProject, hLink, hPoints, hPair⟩ := hSlot.meets.pointed
    refine ⟨⟨historyKey, e.projectKey, e.link⟩, rfl, hProject, hLink, ?_, hSlot.mirrors.small,
      ⟨b, hPoints.mem, hPoints.target, hPoints.small, hPoints.record, hPoints.readable⟩,
      timeText i.date, hSlot.meets.data, nulFree_timeText _⟩
    have hKey : i.key = Entry.key ⟨historyKey, e.projectKey, e.link⟩ := by
      have hItem : i.pair = some (itemOf e.projectKey e.link).pair := hPair
      exact key_of_pair hItem
    rw [Entry.names, ← hKey]
    exact hSlot.names
  · obtain ⟨i, hi, hSlot⟩ := h.rows r hr (isOf_of_names hNames)
    obtain ⟨j, hj, hSlot'⟩ := h.rows s hs (isOf_of_names hNames')
    have hKey : ∀ {i : HistoryItem} {r : Sql.Row}, Slot (Dated ub) p i r →
        CollectionData.isEntry historyKey k r = true → i.key = k := fun hSlot hNames =>
      Sql.Cell.text.inj ((CollectionData.isEntry_iff.mp hSlot.names).2.symm.trans
        (CollectionData.isEntry_iff.mp hNames).2)
    obtain rfl := List.inj_on_of_nodup_map h.keys hi hj
      ((hKey hSlot hNames).trans (hKey hSlot' hNames').symm)
    exact Listed.eq_row hs hSlot' hr hSlot

/-- The times of the list are those of other items. -/
theorem Distant.of_stamps (h : Distant l) (hStamps : ∀ j ∈ l', stamp j ∈ l.map stamp) :
    Distant l' := by
  have hDate : ∀ j ∈ l', ∃ i ∈ l, i.date = j.date := by
    intro j hj
    obtain ⟨i, hi, hStamp⟩ := List.mem_map.mp (hStamps j hj)
    exact ⟨i, hi, (Prod.mk.inj hStamp).2⟩
  intro a ha b hb
  obtain ⟨a', ha', hA⟩ := hDate a ha
  obtain ⟨b', hb', hB⟩ := hDate b hb
  rw [← hA, ← hB]
  exact h a' ha' b' hb'

/-- A list with the same items that is sorted is the same list. -/
theorem Spaced.stamps_eq (h : Spaced l) (hPerm : (l'.map stamp).Perm (l.map stamp))
    (hSorted : l'.Pairwise fun a b => compare a b ≤ 0) : l'.map stamp = l.map stamp := by
  have hDates : (l.map HistoryItem.date).Nodup :=
    List.pairwise_map.mpr (h.imp fun hLater hSame => by omega)
  have hAnti : ∀ x y, x ∈ l'.map stamp → y ∈ l.map stamp → y.2 - x.2 < 1000000 →
      x.2 - y.2 < 1000000 → x = y := by
    intro x y hx hy hxy hyx
    obtain ⟨i, hi, rfl⟩ := List.mem_map.mp (hPerm.mem_iff.mp hx)
    obtain ⟨j, hj, rfl⟩ := List.mem_map.mp hy
    change j.date - i.date < 1000000 at hxy
    change i.date - j.date < 1000000 at hyx
    have hDistant := h.distant i hi j hj
    have hSame : i.date = j.date := by omega
    rw [List.inj_on_of_nodup_map hDates hi hj hSame]
  have hNew : (l'.map stamp).Pairwise fun x y => y.2 - x.2 < 1000000 :=
    List.pairwise_map.mpr (hSorted.imp fun hLe => (compare_le_iff _ _).mp hLe)
  have hOld : (l.map stamp).Pairwise fun x y => y.2 - x.2 < 1000000 := by
    refine List.pairwise_map.mpr (h.imp fun {a b} hLater => ?_)
    change b.date - a.date < 1000000
    omega
  exact List.Perm.eq_of_pairwise hAnti hNew hOld hPerm

end Stamps

/-! ## Runs and restarts -/

/-- The time in the data of a row. -/
def rowTime (r : Sql.Row) : Int :=
  match r.cells CollectionData.data.name with
  | .text text => readDate text
  | _ => 0

/-- The rows of the history have times, each a second from the others. -/
structure Timed (uc : Sql.Table) : Prop where
  texts : ∀ r ∈ uc.rows, CollectionData.isOf historyKey r = true →
    ∃ time, InRange time ∧ r.cells CollectionData.data.name = .text (timeText time)
  distant : ∀ r ∈ uc.rows, ∀ s ∈ uc.rows, CollectionData.isOf historyKey r = true →
    CollectionData.isOf historyKey s = true → r ≠ s →
    rowTime r + 1000000 ≤ rowTime s ∨ rowTime s + 1000000 ≤ rowTime r

/-- The item can be added: no other item has its key, and its record and its row can be saved. -/
structure Addable (p : Program) (memory : Object) (item : DataItem) (l : List HistoryItem) : Prop where
  link : Text.NulFree item.link
  projectKey : Text.NulFree item.projectKey
  keys : ∀ i ∈ l, i.key ≠ item.collectionKey
  room : ∀ uc ub, Tables p uc ub → uc.seq + 1 < 2 ^ 31 ∧ RecordSavable memory item ub

/-- The clock has gone on by `gap` since the times of the items that are not the one that is found, and
if none is found the item can be added. -/
def HistoryOp.Timely (gap : Int) (S : Sorting) (s : State) : HistoryOp → Prop
  | insert memory _ item now => InRange now ∧ ∀ s' l, items S s = .ok (s', l) →
      (∀ i ∈ l, (l.filter (hasLink (dartLink item))).getLast? ≠ some i → i.date + gap ≤ now) ∧
        ((l.filter (hasLink (dartLink item))).getLast? = none → Addable s'.program memory item l)
  | _ => True

section Runs

variable {S : Sorting} {p : Program} {uc ub : Sql.Table} {l : List HistoryItem}

/-- A list in the order of its times, and the rows from which it can be read again. -/
structure Ordered (p : Program) (uc ub : Sql.Table) (l : List HistoryItem) : Prop where
  tables : Tables p uc ub
  listed : Listed (Dated ub) p uc l
  length : l.length ≤ ITEM_COUNT
  spaced : Spaced l
  text : p.floatText 1 = 1

/-- A list that is read from rows with times is in their order. -/
theorem items_ordered (S : Sorting) (h : Tables p uc ub) (hShelf : Shelf uc ub) (hTimed : Timed uc)
    (hCount : (uc.rows.filter (CollectionData.isOf historyKey)).length ≤ ITEM_COUNT)
    (hText : p.floatText 1 = 1) :
    ∃ q l, items S ⟨p, none⟩ = .ok (⟨q, some l⟩, l) ∧ Ordered q uc ub l := by
  obtain ⟨q, l, hItems, hTables, hTextQ, hListed, hLength⟩ := items_listed S h hShelf
  have hTime : ∀ {i r}, Read ub i r → i.date = rowTime r := by
    rintro i r ⟨⟨text, hData, hDate⟩, -⟩
    rw [rowTime, hData]
    exact hDate
  have hDated : Listed (Dated ub) q uc (S.sort compare l) := by
    refine hListed.mono_rows fun i _ r hr hOf hRead => ?_
    obtain ⟨time, hRange, hText⟩ := hTimed.texts r hr hOf
    have hDate : i.date = time := by
      rw [hTime hRead, rowTime, hText]
      exact readDate_timeText hRange
    rw [← hDate] at hRange hText
    exact ⟨hRange, hText, hRead.2⟩
  have hApart : ∀ i ∈ S.sort compare l, ∀ j ∈ S.sort compare l, i ≠ j →
      i.date + 1000000 ≤ j.date ∨ j.date + 1000000 ≤ i.date := by
    intro i hi j hj hNe
    obtain ⟨-, -, r, hr, hSlot⟩ := hListed.items i hi
    obtain ⟨-, -, s, hs, hSlot'⟩ := hListed.items j hj
    rw [hTime hSlot.meets, hTime hSlot'.meets]
    refine hTimed.distant r hr s hs (isOf_of_names hSlot.names) (isOf_of_names hSlot'.names) ?_
    rintro rfl
    exact hNe (hListed.unique hi hj hSlot hSlot')
  have hPerm := S.perm compare l
  have hDistant : Distant l := by
    intro a ha b hb
    by_cases hSame : a = b
    · exact .inl (congrArg HistoryItem.date hSame)
    · exact .inr (hApart a (hPerm.mem_iff.mpr ha) b (hPerm.mem_iff.mpr hb) hSame)
  refine ⟨q, _, hItems, hTables, hDated, hLength.le.trans hCount, ?_, by rwa [hTextQ]⟩
  have hNodup : (S.sort compare l).Nodup := hListed.keys.of_map
  refine ((S.sorted compare l hDistant.consistent).and hNodup).imp_of_mem fun {a b} ha hb hBoth => ?_
  have hLe := (compare_le_iff a b).mp hBoth.1
  have hFar := hApart a ha b hb hBoth.2
  omega

/-- The app starts again on the file, and the list is read in the order that it had. -/
theorem Ordered.restart (S : Sorting) (h : Ordered p uc ub l) {db : Sql.Db} (hView : View p db)
    (objects : Nat → Object) :
    ∃ t l', items S ⟨boot db objects p.floatText, none⟩ = .ok (t, l') ∧
      l'.map stamp = l.map stamp := by
  have hBoot := h.tables.boot CollectionData.cls_ne_info table_ne_info hView h.text h.text objects
    p.floatText
  obtain ⟨q, l', hItems, -, -, hListed, -⟩ := items_listed S hBoot h.listed.shelf
  have hStamps := h.listed.stamps_perm hListed
  have hDistant : Distant l' := h.spaced.distant.of_stamps fun j hj => hStamps.mem_iff.mp
    (List.mem_map_of_mem ((S.perm compare l').mem_iff.mpr hj))
  exact ⟨_, _, hItems, h.spaced.stamps_eq hStamps (S.sorted compare l' hDistant.consistent)⟩

/-- A record that an item of the list points to stays one. -/
theorem Dated.mono {vb : Sql.Table} (hKeep : ∀ e r b, Points e r ub b → Points e r vb b)
    {i : HistoryItem} {r : Sql.Row} (h : Dated ub i r) : Dated vb i r := by
  obtain ⟨e, b, hProject, hLink, hPoints, hPair⟩ := h.pointed
  exact ⟨h.range, h.data, e, b, hProject, hLink, hKeep e r b hPoints, hPair⟩

/-- A new item has a row with its time that points to its record, and the others keep theirs. -/
theorem dated_new (h : Tables p uc ub) {memory : Object} {item : DataItem}
    (hAddable : Addable p memory item l) {now : Int} (hRange : InRange now) :
    (∀ j r, Dated ub j r → Dated (recordTable p.floatText memory item ub) j r) ∧
      ∀ a r, r.cells CollectionData.targetID.name = .int (recordIdentifier memory item ub).toInt →
        r.cells CollectionData.data.name = .text (Text.cString (timeText now)) →
        Dated (recordTable p.floatText memory item ub) ⟨a, some item, now⟩ r := by
  obtain ⟨b, hMem, hRowid, hSmall, hRecord, hReadable, hKeep⟩ := record_points h hAddable.link
    hAddable.projectKey (hAddable.room uc ub h).2 p.floatText
  refine ⟨fun j r hDated => hDated.mono hKeep, fun a r hTarget hData => ⟨hRange, ?_,
    Entry.of historyKey item, b, hAddable.projectKey, hAddable.link,
    ⟨hMem, ?_, hSmall, hRecord, hReadable⟩, rfl⟩⟩
  · rw [hData, Text.cString_of_nulFree (nulFree_timeText now)]
  · rw [hTarget, hRowid]

/-- The item at the head has the latest time. -/
theorem Spaced.head {rest : List HistoryItem} (h : Spaced l) (hSub : rest.Sublist l)
    {i : HistoryItem} (hLate : ∀ j ∈ rest, j.date + 1000000 ≤ i.date) : Spaced (i :: rest) :=
  List.pairwise_cons.mpr ⟨hLate, h.sublist hSub⟩

theorem Ordered.insert_found (h : Ordered p uc ub l) (S : Sorting) (memory entryMemory : Object)
    (item : DataItem) {now : Int} {i : HistoryItem}
    (hFound : (l.filter (hasLink (dartLink item))).getLast? = some i) (hRange : InRange now)
    (hLate : ∀ j ∈ l, j ≠ i → j.date + 1000000 ≤ now) :
    ∃ q uc' l', insert S memory entryMemory item now ⟨p, some l⟩ = .ok ⟨q, some l'⟩ ∧
      Ordered q uc' ub l' := by
  have hMoved : ∀ r s, Dated ub i r → Updated now r s → Dated ub { i with date := now } s := by
    intro r s hDated hUpdated
    obtain ⟨e, b, hProject, hLink, hPoints, hPair⟩ := hDated.pointed
    refine ⟨hRange, ?_, e, b, hProject, hLink, ⟨hPoints.mem, hUpdated.target.trans hPoints.target,
      hPoints.small, hPoints.record, hPoints.readable⟩, hPair⟩
    rw [hUpdated.data, Text.cString_of_nulFree (nulFree_timeText now)]
  obtain ⟨q, uc', rest, hRun, hTables, hText, hListed, hSub, hPairs⟩ :=
    HistoryManager.insert_found (P := Dated) S h.tables h.listed h.length memory entryMemory item now
      hFound hMoved
  have hOthers : ∀ j ∈ rest, j.date + 1000000 ≤ now := by
    refine fun j hj => hLate j (hSub.subset hj) ?_
    rintro rfl
    exact hListed.data_ne hj rfl
  refine ⟨q, uc', _, hRun, hTables, hListed, length_of_push hPairs, h.spaced.head hSub hOthers, ?_⟩
  rw [hText]
  exact h.text

theorem Ordered.insert_missing (h : Ordered p uc ub l) (S : Sorting) {memory : Object}
    (entryMemory : Object) {item : DataItem} {now : Int}
    (hFound : (l.filter (hasLink (dartLink item))).getLast? = none)
    (hAddable : Addable p memory item l) (hRange : InRange now)
    (hLate : ∀ j ∈ l, j.date + 1000000 ≤ now) :
    ∃ q uc' ub' l', insert S memory entryMemory item now ⟨p, some l⟩ = .ok ⟨q, some l'⟩ ∧
      Ordered q uc' ub' l' := by
  obtain ⟨hKeep, hNew⟩ := dated_new h.tables hAddable hRange
  obtain ⟨hLink, hKey, hNot, hRoom⟩ := hAddable
  obtain ⟨q, uc', a, rest, hRun, hTables, hText, -, hListed, hSub, hPairs⟩ :=
    HistoryManager.insert_missing (P := Dated) S h.tables h.listed memory entryMemory item now hLink
      hKey hFound hNot (hRoom uc ub h.tables).1 hKeep fun a r _ => hNew a r
  refine ⟨q, uc', _, _, hRun, hTables, hListed, length_of_push hPairs,
    h.spaced.head hSub fun j hj => hLate j (hSub.subset hj), ?_⟩
  rw [hText]
  exact h.text

/-- One call of a run. -/
theorem next_ordered {s : State} (h : ∃ l uc ub, s.items = some l ∧ Ordered s.program uc ub l)
    {op : HistoryOp} (hTimely : op.Timely 1000000 S s) :
    ∃ t, op.next S s = .ok t ∧ ∃ l uc ub, t.items = some l ∧ Ordered t.program uc ub l := by
  obtain ⟨p, _⟩ := s
  obtain ⟨l, uc, ub, rfl, hOrdered⟩ := h
  cases op with
  | insert memory entryMemory item now =>
    obtain ⟨hRange, hState⟩ := hTimely
    obtain ⟨hLate, hAddable⟩ := hState _ _ rfl
    cases hFound : (l.filter (hasLink (dartLink item))).getLast? with
    | some i =>
      rw [hFound] at hLate
      obtain ⟨q, uc', l', hRun, hOrdered'⟩ := hOrdered.insert_found S memory entryMemory item hFound
        hRange fun j hj hNe => hLate j hj fun hSame => hNe (Option.some.inj hSame).symm
      exact ⟨_, hRun, l', uc', ub, rfl, hOrdered'⟩
    | none =>
      rw [hFound] at hLate
      obtain ⟨q, uc', ub', l', hRun, hOrdered'⟩ := hOrdered.insert_missing S entryMemory hFound
        (hAddable hFound) hRange fun j hj => hLate j hj nofun
      exact ⟨_, hRun, l', uc', ub', rfl, hOrdered'⟩
  | clear =>
    obtain ⟨q, uc', hRun, hTables, hText, hListed⟩ := clear_listed S hOrdered.tables hOrdered.listed
    refine ⟨_, hRun, [], uc', ub, rfl, hTables, hListed, Nat.zero_le _, .nil, ?_⟩
    rw [hText]
    exact hOrdered.text
  | fire =>
    obtain ⟨q, hRun, hTables, hText, hListed⟩ := fire_listed S hOrdered.tables hOrdered.listed
    refine ⟨_, hRun, l, uc, ub, rfl, hTables, hListed, hOrdered.length, hOrdered.spaced, ?_⟩
    rw [hText]
    exact hOrdered.text

end Runs

/-! ## On a new file -/

theorem timed_empty {uc : Sql.Table} (h : uc.rows = []) : Timed uc := by
  refine ⟨?_, ?_⟩ <;> rw [h] <;> simp

/-- An item with a link gets a record. -/
theorem savable_itemOf {projectKey link : String} (hLink : link ≠ "") {ub : Sql.Table}
    (hRow : ub.rows.find? (itemOf projectKey link).isRecord = none) (hSeq : ub.seq + 1 < 2 ^ 31) :
    RecordSavable .zero (itemOf projectKey link) ub := by
  rw [RecordSavable, hRow]
  refine ⟨hSeq, .inr fun hCarries => ?_, rfl⟩
  have hGet := hCarries ⟨BookData.link, link⟩ (by simp [assignments, itemOf])
  rw [BookData.get_construct .zero link_mem] at hGet
  exact hLink hGet.symm

/-- On a new file the first item can be added. -/
theorem addable_install {q : Program}
    (hTables : Tables q (.empty (columns CollectionData.table)) (.empty (columns BookData.table))) :
    Addable q .zero (itemOf "p" "l") [] := by
  refine ⟨by decide, by decide, fun i hi => (by cases hi), fun uc ub hOther => ?_⟩
  obtain rfl := hOther.left.unique hTables.left
  obtain rfl := hOther.right.unique hTables.right
  exact ⟨by decide, savable_itemOf (by decide) rfl (by decide)⟩

/-- The rows of the first item have rowids up to `n`, those of the second have later ones. -/
def Later (n : Nat) (ub : Sql.Table) (i : HistoryItem) (r : Sql.Row) : Prop :=
  Dated ub i r ∧ (i.pair = some (itemOf "p" "l").pair → r.rowid ≤ n) ∧
    (i.pair = some (itemOf "p" "m").pair → n < r.rowid)

theorem pair_ne : (some (itemOf "p" "l").pair : Pair) ≠ some (itemOf "p" "m").pair := by decide

/-- After the first item was added, a second one can be. -/
theorem addable_second {q q₁ : Program} {uc : Sql.Table} {a : Nat}
    (hTables : Tables q (.empty (columns CollectionData.table)) (.empty (columns BookData.table)))
    (hTables₁ : Tables q₁ uc (recordTable q.floatText .zero (itemOf "p" "l")
      (.empty (columns BookData.table)))) (hSeq : uc.seq = 1) :
    Addable q₁ .zero (itemOf "p" "m") [⟨a, some (itemOf "p" "l"), 0⟩] := by
  have hKeys : (itemOf "p" "l").collectionKey ≠ (itemOf "p" "m").collectionKey := by decide
  refine ⟨by decide, by decide, List.forall_mem_singleton.mpr hKeys, fun uc' ub hOther => ?_⟩
  obtain rfl := hOther.left.unique hTables₁.left
  obtain rfl := hOther.right.unique hTables₁.right
  refine ⟨by omega, ?_⟩
  have hSavable : RecordSavable .zero (itemOf "p" "l") (.empty (columns BookData.table)) :=
    savable_itemOf (by decide) rfl (by decide)
  have hRow : (Sql.Table.empty (columns BookData.table)).rows.find? (itemOf "p" "l").isRecord = none :=
    rfl
  have hFirst : (Sql.Table.empty (columns BookData.table)).seq + 1 < 2 ^ 31 := by decide
  obtain ⟨hTable, -⟩ := recordTable_new hRow hFirst hSavable.2.1 q.floatText
  rw [hTable]
  have hLink : Text.NulFree (itemOf "p" "l").link := by decide
  have hKey : Text.NulFree (itemOf "p" "l").projectKey := by decide
  obtain ⟨hRecord, -⟩ := newRecord_readable hTables hLink hKey q.floatText
    (BookData.construct .zero) rfl rfl
  refine savable_itemOf (by decide) ?_ (by decide : 0 + 1 + 1 < 2 ^ 31)
  refine List.find?_eq_none.mpr fun b hb hOther => ?_
  obtain rfl := List.mem_singleton.mp hb
  have hCell : (Entry.of historyKey (itemOf "p" "m")).isRecord _ := Entry.isRecord_of.mp hOther
  have hOwn : (Entry.of historyKey (itemOf "p" "l")).isRecord _ := hRecord
  exact absurd (Sql.Cell.text.inj (hOwn.1.symm.trans hCell.1)) (by decide)

/-- Two items are inserted half a second apart. -/
theorem two_inserts (S : Sorting) {q : Program}
    (hTables : Tables q (.empty (columns CollectionData.table)) (.empty (columns BookData.table))) :
    ∃ q₁ a q₂ b n uc ub,
      insert S .zero .zero (itemOf "p" "l") 0 ⟨q, some []⟩ =
        .ok ⟨q₁, some [⟨a, some (itemOf "p" "l"), 0⟩]⟩ ∧
      Addable q₁ .zero (itemOf "p" "m") [⟨a, some (itemOf "p" "l"), 0⟩] ∧
      insert S .zero .zero (itemOf "p" "m") 500000 ⟨q₁, some [⟨a, some (itemOf "p" "l"), 0⟩]⟩ =
        .ok ⟨q₂, some [⟨b, some (itemOf "p" "m"), 500000⟩, ⟨a, some (itemOf "p" "l"), 0⟩]⟩ ∧
      Tables q₂ uc ub ∧ q₂.floatText = q.floatText ∧ Listed (Later n ub) q₂ uc
        [⟨b, some (itemOf "p" "m"), 500000⟩, ⟨a, some (itemOf "p" "l"), 0⟩] := by
  have hListed : Listed (Dated (.empty (columns BookData.table))) q
      (.empty (columns CollectionData.table)) [] :=
    ⟨by simp, fun r hr => (by cases hr), .nil, .nil⟩
  obtain ⟨hLink, hKey, hNot, hRoom⟩ := addable_install hTables
  have hZero : InRange 0 := by simp [InRange, maxMicroseconds]
  have hHalf : InRange 500000 := by simp [InRange, maxMicroseconds]
  obtain ⟨hKeep, hNew⟩ := dated_new hTables (addable_install hTables) hZero
  obtain ⟨q₁, uc₁, a, rest, hFirst, hTables₁, hText₁, hSeq₁, hListed₁, hRest, -⟩ :=
    insert_missing (P := Dated) S hTables hListed .zero .zero (itemOf "p" "l") 0 hLink hKey rfl hNot
      (hRoom _ _ hTables).1 hKeep fun a r _ => hNew a r
  obtain rfl := List.sublist_nil.mp hRest
  have hAddable := addable_second (a := a) hTables hTables₁ hSeq₁
  obtain ⟨ub₁, hub₁⟩ : ∃ ub₁, ub₁ = recordTable q.floatText .zero (itemOf "p" "l")
    (.empty (columns BookData.table)) := ⟨_, rfl⟩
  rw [← hub₁] at hTables₁ hListed₁
  have hLater : Listed (Later uc₁.seq ub₁) q₁ uc₁ [⟨a, some (itemOf "p" "l"), 0⟩] := by
    refine hListed₁.mono_rows (List.forall_mem_singleton.mpr fun r hr _ hDated => ?_)
    exact ⟨hDated, fun _ => (uc₁.bounds r hr).2, fun hPair => absurd hPair pair_ne⟩
  obtain ⟨hKeep₁, hNew₁⟩ := dated_new hTables₁ hAddable hHalf
  have hFound : ([⟨a, some (itemOf "p" "l"), 0⟩].filter
      (hasLink (dartLink (itemOf "p" "m")))).getLast? = none := by
    have hNe : dartLink (itemOf "p" "l") ≠ dartLink (itemOf "p" "m") := by decide
    simp [hasLink, hNe]
  obtain ⟨q₂, uc₂, b, rest, hSecond, hTables₂, hText₂, -, hListed₂, hSub, hPairs⟩ :=
    insert_missing (P := Later uc₁.seq) S hTables₁ hLater .zero .zero (itemOf "p" "m") 500000
      hAddable.link hAddable.projectKey hFound hAddable.keys (hAddable.room _ _ hTables₁).1
      (fun j r hBoth => ⟨hKeep₁ j r hBoth.1, hBoth.2⟩) fun b r hRowid hTarget hData =>
        ⟨hNew₁ b r hTarget hData, fun hPair => absurd hPair.symm pair_ne, fun _ => by omega⟩
  have hLength := congrArg List.length hPairs
  rw [List.length_cons, List.length_map] at hLength
  obtain rfl : rest = [⟨a, some (itemOf "p" "l"), 0⟩] :=
    hSub.eq_of_length (Nat.succ.inj hLength)
  exact ⟨q₁, a, q₂, b, uc₁.seq, uc₂, _, hFirst, hAddable, hSecond, hTables₂, hText₂.trans hText₁,
    hListed₂⟩

/-- Equal elements stay where they are. -/
theorem Sorting.stable_ties {α : Type} {cmp : α → α → Int} {l : List α}
    (h : ∀ a ∈ l, ∀ b ∈ l, cmp a b ≤ 0) : Sorting.stable.sort cmp l = l := by
  have hSorted : l.attach.Pairwise fun a b => decide (cmp a.1 b.1 ≤ 0) = true :=
    List.pairwise_of_forall fun a b => decide_eq_true (h a a.2 b b.2)
  change (l.attach.mergeSort _).map Subtype.val = l
  rw [List.mergeSort_of_pairwise hSorted, List.attach_map_subtype_val]

/-- If the item that was inserted last comes first in the list, it does not after a restart: the times
tie, and the sort leaves the items in the order of their rows. -/
theorem restart_ties {p : Program} {uc ub : Sql.Table} {n a b : Nat} (hTables : Tables p uc ub)
    (hListed : Listed (Later n ub) p uc
      [⟨b, some (itemOf "p" "m"), 500000⟩, ⟨a, some (itemOf "p" "l"), 0⟩])
    (hText : p.floatText 1 = 1) {db : Sql.Db} (hView : View p db) {objects : Nat → Object} {t : State}
    {l' : List HistoryItem}
    (hItems : items .stable ⟨boot db objects p.floatText, none⟩ = .ok (t, l')) :
    l'.map HistoryItem.pair ≠ [some (itemOf "p" "m").pair, some (itemOf "p" "l").pair] := by
  intro hOrder
  have hDated := hListed.mono fun i _ r hBoth => hBoth.1
  have hBoot := hTables.boot CollectionData.cls_ne_info table_ne_info hView hText hText objects
    p.floatText
  obtain ⟨q, l, rows, hLoaded, -, -, hRead, hPerm, hRowids, hSlots⟩ :=
    items_loaded .stable hBoot hDated.shelf
  obtain ⟨-, rfl⟩ := Prod.mk.inj (Except.ok.inj (hItems.symm.trans hLoaded))
  have hStamps := hDated.stamps_perm hRead
  have hDates : ∀ i ∈ l, i.date = 500000 ∨ i.date = 0 := by
    intro i hi
    have hMem := hStamps.mem_iff.mp (List.mem_map_of_mem hi)
    simp only [List.map_cons, List.map_nil, List.mem_cons, List.not_mem_nil, or_false] at hMem
    exact hMem.imp (fun hSame => (Prod.mk.inj hSame).2) fun hSame => (Prod.mk.inj hSame).2
  have hTies : ∀ i ∈ l, ∀ j ∈ l, compare i j ≤ 0 := by
    intro i hi j hj
    have hI := hDates i hi
    have hJ := hDates j hj
    rw [compare_le_iff]
    omega
  rw [Sorting.stable_ties hTies] at hOrder
  -- the first row is the one of the second item
  obtain ⟨i, _, rfl, hFirst, hRest⟩ := List.map_eq_cons_iff.mp hOrder
  obtain ⟨j, _, rfl, hSecond, hRest⟩ := List.map_eq_cons_iff.mp hRest
  obtain rfl := List.map_eq_nil_iff.mp hRest
  obtain ⟨r, _, hSlot, hTail, rfl⟩ := List.forall₂_cons_left_iff.mp hSlots
  obtain ⟨s, _, hSlot', hTail', rfl⟩ := List.forall₂_cons_left_iff.mp hTail
  have hRow : ∀ {k : HistoryItem} {r' : Sql.Row}, Slot (Read ub) q k r' → r' ∈ uc.rows →
      ∃ k', k'.pair = k.pair ∧ Later n ub k' r' := by
    intro k r' hSlotK hr'
    obtain ⟨k', -, hSlotL⟩ := hListed.rows r' hr' (isOf_of_names hSlotK.names)
    exact ⟨k', hSlotL.meets.1.pointed.pair_eq hSlotK.meets.2, hSlotL.meets⟩
  have hMem : ∀ r' ∈ r :: s :: _, r' ∈ uc.rows := fun r' hr' =>
    (List.mem_filter.mp (hPerm.mem_iff.mp hr')).1
  obtain ⟨k, hPair, hLater⟩ := hRow hSlot (hMem r List.mem_cons_self)
  obtain ⟨k', hPair', hLater'⟩ :=
    hRow hSlot' (hMem s (List.mem_cons_of_mem r List.mem_cons_self))
  have hLate := hLater.2.2 (hPair.trans hFirst)
  have hEarly := hLater'.2.1 (hPair'.trans hSecond)
  have hLe := (List.pairwise_cons.mp hRowids).1 s List.mem_cons_self
  omega

end RetroConfig.HistoryManager
