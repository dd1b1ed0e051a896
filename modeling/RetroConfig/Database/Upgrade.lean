import RetroConfig.Database.Effect

/-!
# Opening and upgrading the table of a class

The first use of a model class registers its fields and calls `SQLite::processTable`, which
compares the version of the class with the one recorded in the table `SQLTable`. When they
differ the old table is renamed, a new one is created, the version is recorded, and two more
statements are queued: one whose callback should copy the old rows, and one that drops the old
table.
-/

namespace RetroConfig

open SQLite

/-! ## What stays when a table is opened -/

/-- The objects that were there are as they were. -/
structure Frame (p q : Program) : Prop where
  floatText : q.floatText = p.floatText
  next : p.store.next ≤ q.store.next
  objects : ∀ a < p.store.next, q.object a = p.object a

namespace Frame

theorem refl (p : Program) : Frame p p := ⟨rfl, le_rfl, fun _ _ => rfl⟩

theorem trans {p q r : Program} (h : Frame p q) (g : Frame q r) : Frame p r where
  floatText := g.floatText.trans h.floatText
  next := h.next.trans g.next
  objects := fun a ha => (g.objects a (by have := h.next; omega)).trans (h.objects a ha)

theorem of_store {p q : Program} (hText : q.floatText = p.floatText) (h : q.store = p.store) :
    Frame p q where
  floatText := hText
  next := by rw [h]
  objects := fun a _ => by rw [Program.object, h]; rfl

/-- Changing an object that is new changes nothing old. -/
theorem modify {p q : Program} (h : Frame p q) {a : Nat} (ha : p.store.next ≤ a)
    (f : Object → Object) : Frame p (q.modify a f) where
  floatText := h.floatText
  next := h.next
  objects := by
    intro b hb
    rw [← h.objects b hb]
    exact Function.update_of_ne (by omega) _ _

end Frame

theorem Frame.new (p : Program) : Frame p p.new.1 where
  floatText := rfl
  next := Nat.le_succ _
  objects := fun _ ha => Function.update_of_ne (Nat.ne_of_lt ha) _ _

theorem Program.View.new {p : Program} {db : Sql.Db} (h : View p db) : View p.new.1 db :=
  h.setStore rfl

theorem Program.View.register {p : Program} {db : Sql.Db} (h : View p db) (cls : String) :
    View (p.register cls) db := ⟨⟨h.idle, h.deferred⟩, h.pending⟩

@[simp] theorem Program.register_self (p : Program) (cls : String) :
    (p.register cls).registered cls = true := Function.update_self ..

theorem Program.register_of_ne (p : Program) {cls other : String} (h : other ≠ cls) :
    (p.register cls).registered other = p.registered other := Function.update_of_ne h ..

theorem Program.register_eq {p : Program} {cls : String} (h : p.registered cls = true) :
    (p.register cls).registered = p.registered := by
  rw [register, ← h, Function.update_eq_self]

theorem Program.object_new (p : Program) :
    p.new.1.object p.new.2 = (p.object p.store.next).construct := Function.update_self ..

@[simp] theorem Program.object_modify (p : Program) (a : Nat) (f : Object → Object) :
    (p.modify a f).object a = f (p.object a) := Function.update_self ..

theorem Program.object_modify_of_ne (p : Program) (f : Object → Object) {a b : Nat} (hNe : b ≠ a) :
    (p.modify a f).object b = p.object b := Function.update_of_ne hNe _ _

/-! ## Creating a table -/

/-- The database after `CREATE TABLE IF NOT EXISTS`. -/
def created (t : Table) (db : Sql.Db) : Sql.Db :=
  if (db t.cls).isSome then db else Function.update db t.cls (some (.empty (columns t)))

/-- `p` and `q` differ in the queue only. -/
structure Queued (p q : Program) : Prop where
  registered : q.registered = p.registered
  floatText : q.floatText = p.floatText
  store : q.store = p.store

theorem Queued.trans {p q r : Program} (h : Queued p q) (g : Queued q r) : Queued p r :=
  ⟨g.registered.trans h.registered, g.floatText.trans h.floatText, g.store.trans h.store⟩

theorem Queued.frame {p q : Program} (h : Queued p q) : Frame p q :=
  .of_store h.floatText h.store

theorem Program.View.queued {p : Program} {db db' : Sql.Db} (h : View p db) {i : QueueItem}
    (hi : i.deferred = true) (hDb : i.apply db = .ok db') :
    ∃ q, p.queueExce i = .ok q ∧ View q db' ∧ Queued p q := by
  obtain ⟨d, hRun, hView, hStore⟩ := h.queueExce hi hDb
  exact ⟨_, hRun, hView, rfl, rfl, hStore⟩

theorem columns_ne_nil (t : Table) : columns t ≠ [] :=
  List.ne_nil_of_mem (List.mem_map_of_mem t.identifier_mem)

theorem apply_create (t : Table) (db : Sql.Db) :
    QueueItem.apply ⟨.createTable t.cls (columns t), [], .none⟩ db = .ok (created t db) := by
  have hNames : ((columns t).map Sql.Column.name).Nodup := by
    rw [columns, List.map_map]
    exact t.nodup
  simp only [QueueItem.apply, Sql.prepare, created]
  by_cases hSome : (db t.cls).isSome = true
  · rw [if_pos hSome, if_pos hSome]
    rfl
  · rw [if_neg hSome, if_neg hSome, if_pos ⟨columns_ne_nil t, hNames⟩]
    rfl

theorem create_view {p : Program} {db : Sql.Db} (h : Program.View p db) {t : Table}
    (hColumns : t.Columns) :
    ∃ q, create t p = .ok (q, true) ∧ Program.View q (created t db) ∧ Queued p q := by
  have hAll : t.fields.all (fun f => f.primary || f.type.isColumn) = true := by
    rw [List.all_eq_true]
    intro f hf
    rw [hColumns f hf, Bool.or_true]
  obtain ⟨q, hCreate, hq, hpq⟩ := h.queued rfl (apply_create t db)
  obtain ⟨r, hIndex, hr, hqr⟩ := hq.queued
    (i := ⟨.createIndex (t.cls ++ "_INDEX") t.cls ((t.fields.filter Field.index).map Field.name),
      [], .none⟩) rfl rfl
  refine ⟨r, ?_, hr, hpq.trans hqr⟩
  unfold create
  rw [if_pos hAll, hCreate]
  simp only [Transition.ok_bind, hIndex]
  rfl

/-- Creating a table that is there, or is not, leaves it with its columns. -/
theorem created_eq {t : Table} {db : Sql.Db} {u : Sql.Table}
    (h : Holds db t u ∨ db t.cls = none ∧ u = .empty (columns t)) :
    created t db = Function.update db t.cls (some u) := by
  rcases h with hHolds | ⟨hNone, rfl⟩
  · rw [created, hHolds.table, Option.isSome_some, if_pos rfl, ← hHolds.table, Function.update_eq_self]
  · rw [created, hNone]
    rfl

/-! ## The recorded version -/

/-- The version that `SQLTable` records for a class: the one in the first row with its name, or
`0` without a row. -/
def recorded (i : Sql.Table) (cls : String) : Rat :=
  match matching i tableName.name (.text cls) with
  | r :: _ => ver.type.read (i.cell r ver.name)
  | [] => 0

/-- `i` is the table `SQLTable`, which is empty if the file does not have it yet. -/
def InfoTable (p : Program) (db : Sql.Db) (i : Sql.Table) : Prop :=
  Holds db info i ∨
    p.registered info.cls = false ∧ db info.cls = none ∧ i = .empty (columns info)

theorem info_columns : info.Columns := by decide

theorem tableName_mem : tableName ∈ info.stored := by decide

theorem ver_mem : ver ∈ info.stored := by decide

theorem info_stored_mem {f : Field} (hf : f ∈ info.stored) : f ∈ info.fields :=
  (Table.mem_stored.mp hf).1

theorem checkInfo_view {p : Program} {db : Sql.Db} {i : Sql.Table} (h : Program.View p db)
    (hInfo : InfoTable p db i) :
    ∃ q, checkInfo p = .ok q ∧ Program.View q (Function.update db info.cls (some i)) ∧
      Frame p q ∧ q.store = p.store ∧
      q.registered = (p.register info.cls).registered := by
  unfold checkInfo
  by_cases hReg : p.registered info.cls = true
  · have hHolds : Holds db info i := by
      rcases hInfo with hHolds | ⟨hNot, -⟩
      · exact hHolds
      · rw [hReg] at hNot
        cases hNot
    refine ⟨p, if_pos hReg, ?_, .refl p, rfl, ?_⟩
    · rwa [← hHolds.table, Function.update_eq_self]
    · exact (Program.register_eq hReg).symm
  · obtain ⟨q, hCreate, hView, hQueued⟩ := create_view (h.register info.cls) info_columns
    rw [created_eq (hInfo.imp_right And.right)] at hView
    refine ⟨q, ?_, hView, .of_store hQueued.floatText hQueued.store, hQueued.store,
      hQueued.registered⟩
    rw [if_neg hReg, hCreate]
    rfl

/-- The object that `SQLTable::getInfo` returns for a class. -/
structure InfoObject (i : Sql.Table) (cls : String) (o : Object) : Prop where
  tableName : Text.cString (o.get tableName) = Text.cString cls
  ver : o.get ver = recorded i cls
  found : ∀ r rest, matching i SQLite.tableName.name (.text cls) = r :: rest →
    o.identifier = Int32.ofInt r.rowid
  missing : matching i SQLite.tableName.name (.text cls) = [] → o.identifier = -1

theorem mem_matching_text {u : Sql.Table} {name s : String} {r : Sql.Row} :
    r ∈ matching u name (.text s) ↔ r ∈ u.rows ∧ u.cell r name = .text (Text.cString s) := by
  rw [matching, List.mem_filter, QueryValue.cell, Sql.equal_holds_text_iff]

theorem InfoObject.of_row {db : Sql.Db} {i : Sql.Table} (h : Holds db info i) {cls : String}
    {r : Sql.Row} {rest : List Sql.Row}
    (hRow : matching i SQLite.tableName.name (.text cls) = r :: rest) :
    InfoObject i cls (rowObject info i r) where
  tableName := by
    have hMem : r ∈ matching i SQLite.tableName.name (.text cls) := by simp [hRow]
    rw [get_rowObject info_columns i r (info_stored_mem tableName_mem),
      (mem_matching_text.mp hMem).2]
    exact (Text.cString_cString _).trans (Text.cString_cString _)
  ver := by
    rw [get_rowObject info_columns i r (info_stored_mem ver_mem), recorded, hRow]
  found := by
    intro q rest' hq
    obtain ⟨rfl, -⟩ : r = q ∧ rest = rest' := by simpa [hRow] using hq
    rw [Object.identifier, get_rowObject info_columns i r info.identifier_mem, h.cell_identifier]
    rfl
  missing := by
    intro hNone
    rw [hRow] at hNone
    cases hNone

theorem InfoObject.of_new {i : Sql.Table} {cls : String}
    (hNone : matching i SQLite.tableName.name (.text cls) = []) (o : Object) :
    InfoObject i cls (setVer 0 (setTableName cls o.construct)) where
  tableName := congrArg Text.cString
    ((Object.get_set_of_ne _ _ (by decide)).trans (Object.get_set o.construct SQLite.tableName cls))
  ver := by
    rw [recorded, hNone]
    exact Object.get_set _ SQLite.ver (0 : Rat)
  found := by
    intro r rest hSome
    rw [hNone] at hSome
    cases hSome
  missing := fun _ => ((Object.get_set_of_ne _ _ (by decide)).trans
    (Object.get_set_of_ne _ _ (by decide))).trans (Object.identifier_construct o)

theorem getInfo_view {p : Program} {db : Sql.Db} {i : Sql.Table} (h : Program.View p db)
    (hInfo : InfoTable p db i) (t : Table) :
    ∃ q a, getInfo t p = .ok (q, a) ∧
      Program.View q (Function.update db info.cls (some i)) ∧ Frame p q ∧ p.store.next ≤ a ∧
      q.registered = (p.register info.cls).registered ∧
      InfoObject i t.cls (q.object a) := by
  have hHolds : Holds (Function.update db info.cls (some i)) info i := by
    refine ⟨Function.update_self .., ?_⟩
    rcases hInfo with hHolds | ⟨-, -, rfl⟩
    · exact hHolds.columns
    · rfl
  obtain ⟨p₁, hCheck, hView₁, hFrame₁, hStore₁, hReg₁⟩ := checkInfo_view h hInfo
  obtain ⟨d, q', hRes, hView, hNext, hOld, hNone, hSome⟩ :=
    hView₁.first hHolds (info_stored_mem tableName_mem) (v := .text t.cls) rfl 0
  have hFrame : Frame p { p₁ with database := d } := hFrame₁.trans ⟨rfl, hNext, hOld⟩
  unfold getInfo
  rw [hCheck, Transition.ok_bind]
  have hQuery : ((Query.ofTable info).equal SQLite.tableName.name (.text t.cls)).res p₁ =
      .ok ({ p₁ with database := d }, q') := hRes
  rw [hQuery, Transition.ok_bind]
  cases hRows : matching i SQLite.tableName.name (.text t.cls) with
  | nil =>
    simp only [hNone hRows]
    refine ⟨_, _, rfl, ?_, ?_, hFrame.next, hReg₁, ?_⟩
    · exact (hView.new.modify _ _).modify _ _
    · exact ((hFrame.trans (.new _)).modify hFrame.next _).modify hFrame.next _
    · rw [Program.object_modify, Program.object_modify, Program.object_new]
      exact .of_new hRows _
  | cons r rest =>
    obtain ⟨⟨tail, hResults⟩, -, hObject⟩ := hSome r rest hRows
    simp only [hResults]
    refine ⟨_, _, rfl, hView, hFrame, hFrame₁.next, hReg₁, ?_⟩
    rw [Program.object, Program.store, hObject]
    exact .of_row hHolds hRows

/-! ## Recording a version -/

theorem recorded_inserted {db : Sql.Db} {i : Sql.Table} (h : Holds db info i)
    (floatText : Rat → Rat) {o : Object} {cls : String}
    (hName : Text.cString (o.get tableName) = Text.cString cls)
    (hNone : matching i tableName.name (.text cls) = []) :
    recorded (inserted floatText info o i) cls = floatText (getVer o) := by
  have hEqual : Sql.Cmp.equal.holds (tableName.type.stored floatText (o.get tableName))
      (QueryValue.text cls).cell = true :=
    Sql.equal_holds_text_iff.mpr (congrArg Sql.Cell.text hName)
  have hRows : matching (inserted floatText info o i) tableName.name (.text cls) =
      [newRow floatText info o i] := by
    rw [matching_inserted h floatText o tableName_mem, hNone, if_pos hEqual, List.nil_append]
  have hVer : (inserted floatText info o i).cell (newRow floatText info o i) ver.name =
      .real (floatText (getVer o)) := h.cell_newRow floatText o ver_mem
  rw [recorded, hRows]
  change ver.type.read ((inserted floatText info o i).cell (newRow floatText info o i) ver.name) = _
  rw [hVer]
  rfl

theorem recorded_updated {db : Sql.Db} {i : Sql.Table} (h : Holds db info i)
    (floatText : Rat → Rat) {o : Object} {cls : String} {r : Sql.Row} {rest : List Sql.Row}
    (hName : Text.cString (o.get tableName) = Text.cString cls)
    (hSome : matching i tableName.name (.text cls) = r :: rest) {id : Int32}
    (hId : (r.rowid : Int) = id.toInt) :
    recorded (updated floatText info o id i) cls = floatText (getVer o) := by
  have hMem : r ∈ matching i tableName.name (.text cls) := by simp [hSome]
  have hCell : tableName.type.stored floatText (o.get tableName) =
      .text (Text.cString cls) := congrArg Sql.Cell.text hName
  have hRows : matching (updated floatText info o id i) tableName.name (.text cls) =
      (r :: rest).map (rewriteRow floatText info o id) := by
    rw [← hSome]
    apply matching_updated h floatText o id tableName_mem
    intro q hq hqId
    have hSame : q = r := Sql.Table.eq_of_rowid hq (mem_matching_text.mp hMem).1 (by omega)
    rw [hSame, (mem_matching_text.mp hMem).2, hCell]
  have hVer : (updated floatText info o id i).cell (rewriteRow floatText info o id r) ver.name =
      .real (floatText (getVer o)) := by
    have hRewrite := h.cell_rewriteRow floatText o id r ver_mem
    rw [if_pos hId] at hRewrite
    exact hRewrite
  rw [recorded, hRows, List.map_cons]
  change ver.type.read
    ((updated floatText info o id i).cell (rewriteRow floatText info o id r) ver.name) = _
  rw [hVer]
  rfl

/-- The record of a class leaves those of the others, and is a new row at most. -/
structure Recorded (i i' : Sql.Table) (cls : String) : Prop where
  others : ∀ other, Text.cString other ≠ Text.cString cls → recorded i' other = recorded i other
  seq : i'.seq ≤ i.seq + 1

theorem Recorded.inserted {db : Sql.Db} {i : Sql.Table} (h : Holds db info i)
    (floatText : Rat → Rat) {o : Object} {cls : String}
    (hName : Text.cString (o.get tableName) = Text.cString cls) :
    Recorded i (inserted floatText info o i) cls := by
  refine ⟨fun other hNe => ?_, Nat.le_refl _⟩
  have hOther : ¬ Sql.Cmp.equal.holds (tableName.type.stored floatText (o.get tableName))
      (QueryValue.text other).cell = true := by
    intro hEqual
    have hCell : Sql.Cell.text (Text.cString (o.get tableName)) = .text (Text.cString other) :=
      Sql.equal_holds_text_iff.mp hEqual
    exact hNe ((Sql.Cell.text.inj hCell).symm.trans hName)
  have hRows : matching (RetroConfig.inserted floatText info o i) tableName.name (.text other) =
      matching i tableName.name (.text other) := by
    rw [matching_inserted h floatText o tableName_mem, if_neg hOther, List.append_nil]
  rw [recorded, hRows, recorded]
  rfl

theorem Recorded.updated {db : Sql.Db} {i : Sql.Table} (h : Holds db info i)
    (floatText : Rat → Rat) {o : Object} {cls : String} {r : Sql.Row} {rest : List Sql.Row}
    (hName : Text.cString (o.get tableName) = Text.cString cls)
    (hSome : matching i tableName.name (.text cls) = r :: rest) {id : Int32}
    (hId : (r.rowid : Int) = id.toInt) : Recorded i (updated floatText info o id i) cls := by
  refine ⟨fun other hNe => ?_, Nat.le_succ _⟩
  have hMem : r ∈ matching i tableName.name (.text cls) := by simp [hSome]
  obtain ⟨hRow, hCell⟩ := mem_matching_text.mp hMem
  have hOnly : ∀ q ∈ i.rows, (q.rowid : Int) = id.toInt → q = r := fun q hq hqId =>
    Sql.Table.eq_of_rowid hq hRow (by omega)
  have hOther : Text.cString cls ≠ Text.cString other := fun hEq => hNe hEq.symm
  have hStored : tableName.type.stored floatText (o.get tableName) = .text (Text.cString cls) :=
    congrArg Sql.Cell.text hName
  have hRows : matching (RetroConfig.updated floatText info o id i) tableName.name (.text other) =
      (matching i tableName.name (.text other)).map (rewriteRow floatText info o id) := by
    apply matching_updated h floatText o id tableName_mem
    intro q hq hqId
    rw [hOnly q hq hqId, hCell, hStored]
  have hSame : (matching i tableName.name (.text other)).map (rewriteRow floatText info o id) =
      matching i tableName.name (.text other) := by
    refine (List.map_congr_left fun q hq => ?_).trans (List.map_id _)
    obtain ⟨hqRow, hqCell⟩ := mem_matching_text.mp hq
    refine rewriteRow_other floatText info o fun hqId => ?_
    rw [hOnly q hqRow hqId, hCell] at hqCell
    exact hOther (Sql.Cell.text.inj hqCell)
  rw [recorded, hRows, hSame, recorded]
  rfl

theorem toInt_ofInt_of_lt {n : Nat} (h : n < 2 ^ 31) : (Int32.ofInt n).toInt = n := by
  rw [Int32.toInt_ofInt_of_le] <;> omega

theorem toInt_neg_one : (-1 : Int32).toInt = -1 := by decide

/-- The identifier of an object without a row is that of no row. -/
theorem ne_neg_one_of_rowid {n : Nat} {identifier : Int32} (h : (n : Int) = identifier.toInt) :
    identifier ≠ -1 := by
  rintro rfl
  rw [toInt_neg_one] at h
  omega

/-- `info->setVer(version); info->save();` when the recorded version is another one. -/
theorem record_view {p : Program} {db : Sql.Db} {i : Sql.Table} (h : Program.View p db)
    (hHolds : Holds db info i) (hSeq : i.seq < 2 ^ 31) {cls : String} {a : Nat}
    (hObject : InfoObject i cls (p.object a)) {v : Rat} (hVer : recorded i cls ≠ v) :
    ∃ q i', saveRegistered info a (p.modify a (setVer v)) = .ok q ∧
      Program.View q (Function.update db info.cls (some i')) ∧ i'.columns = columns info ∧
      recorded i' cls = p.floatText v ∧ Recorded i i' cls ∧ q.registered = p.registered ∧
      q.floatText = p.floatText ∧ q.store.next = p.store.next ∧
      ∀ b, b ≠ a → q.object b = p.object b := by
  obtain ⟨o, ho⟩ : ∃ o, o = setVer v (p.object a) := ⟨_, rfl⟩
  have hGet : (p.modify a (setVer v)).object a = o := by
    rw [Program.object_modify, ho]
  have hChanged : o.changed = true := by
    rw [ho]
    apply Object.set_changed_of_ne
    rw [hObject.ver]
    exact hVer
  have hNew : getVer o = v := by
    rw [ho]
    exact Object.get_set _ ver v
  have hName : Text.cString (o.get tableName) = Text.cString cls := by
    rw [← hObject.tableName, ho]
    exact congrArg Text.cString (Object.get_set_of_ne _ _ (by decide))
  have hIdentifier : o.identifier = (p.object a).identifier := by
    rw [ho]
    exact Object.get_set_of_ne _ _ (by decide)
  have hView : Program.View (p.modify a (setVer v)) db := h.modify a _
  have hSave : saveRegistered info a (p.modify a (setVer v)) =
      SQLite.update info a (p.modify a (setVer v)) := by
    unfold saveRegistered
    rw [hGet, if_pos hChanged]
  rw [hSave]
  cases hRows : matching i tableName.name (.text cls) with
  | nil =>
    have hFresh : ((p.modify a (setVer v)).object a).identifier = -1 := by
      rw [hGet, hIdentifier, hObject.missing hRows]
    obtain ⟨d, hRun, hView', hObjects, hNext⟩ := hView.insert hHolds info_columns
      (List.ne_nil_of_mem ver_mem) (lt_trans hSeq (by decide)) hFresh
    rw [hGet] at hView'
    refine ⟨_, _, hRun, hView', hHolds.columns, ?_, .inserted hHolds _ hName, rfl, rfl, hNext, ?_⟩
    · rw [recorded_inserted hHolds _ hName hRows, hNew]
      rfl
    · intro b hb
      rw [Program.object, Program.store, hObjects, Function.update_of_ne hb]
      exact Function.update_of_ne hb _ _
  | cons r rest =>
    have hMem : r ∈ i.rows := (mem_matching_text.mp (by rw [hRows]; exact List.mem_cons_self)).1
    have hSmall : r.rowid < 2 ^ 31 := lt_of_le_of_lt (i.bounds r hMem).2 hSeq
    have hKey : (r.rowid : Int) = o.identifier.toInt := by
      rw [hIdentifier, hObject.found r rest hRows, toInt_ofInt_of_lt hSmall]
    have hOld : ((p.modify a (setVer v)).object a).identifier ≠ -1 := by
      rw [hGet]
      exact ne_neg_one_of_rowid hKey
    obtain ⟨d, hRun, hView', hStore⟩ := hView.update hHolds info_columns
      (List.ne_nil_of_mem ver_mem) hOld
    rw [hGet] at hView'
    refine ⟨_, _, hRun, hView', hHolds.columns, ?_, .updated hHolds _ hName hRows hKey, rfl, rfl, ?_,
      ?_⟩
    · rw [recorded_updated hHolds _ hName hRows hKey, hNew]
      rfl
    · change d.store.next = _
      rw [hStore]
      rfl
    · intro b hb
      rw [Program.object, Program.store, hStore]
      exact Function.update_of_ne hb _ _

/-! ## `SQLite::processTable` -/

theorem tempName_ne_cls (t : Table) : tempName t ≠ t.cls := by
  intro h
  have hLength := congrArg String.length h
  rw [tempName, String.length_append] at hLength
  have hFive : "TEMP_".length = 5 := by decide
  omega

theorem tempName_ne_info (t : Table) : tempName t ≠ info.cls := by
  intro h
  have hList := congrArg String.toList h
  rw [tempName, String.toList_append] at hList
  have hTemp : "TEMP_".toList = ['T', 'E', 'M', 'P', '_'] := by decide
  have hInfo : info.cls.toList = ['S', 'Q', 'L', 'T', 'a', 'b', 'l', 'e'] := by decide
  rw [hTemp, hInfo] at hList
  simp at hList

/-- The database after the old table was renamed. -/
def renamed (t : Table) (db : Sql.Db) : Sql.Db :=
  match db t.cls, db (tempName t) with
  | some u, none => Function.update (Function.update db t.cls none) (tempName t) (some u)
  | _, _ => db

theorem apply_rename (t : Table) (db : Sql.Db) :
    QueueItem.apply ⟨.renameTable t.cls (tempName t), [], .none⟩ db = .ok (renamed t db) := by
  simp only [QueueItem.apply, Sql.prepare, renamed]
  cases db t.cls with
  | none => rfl
  | some u => cases db (tempName t) <;> rfl

theorem renamed_of_ne (t : Table) (db : Sql.Db) {name : String} (hCls : name ≠ t.cls)
    (hTemp : name ≠ tempName t) : renamed t db name = db name := by
  cases hOld : db t.cls with
  | none => simp only [renamed, hOld]
  | some u =>
    cases hLeft : db (tempName t) with
    | none =>
      simp only [renamed, hOld, hLeft]
      rw [Function.update_of_ne hTemp, Function.update_of_ne hCls]
    | some v => simp only [renamed, hOld, hLeft]

theorem created_of_ne (t : Table) (db : Sql.Db) {name : String} (hCls : name ≠ t.cls) :
    created t db name = db name := by
  unfold created
  split
  · rfl
  · rw [Function.update_of_ne hCls]

/-- The statement whose callback should copy the old rows. -/
def copyItem (t : Table) : QueueItem := ⟨.selectAll (tempName t), [], .copyRows t⟩

/-- The statement that drops the old table. -/
def dropItem (t : Table) : QueueItem := ⟨.dropTable (tempName t), [], .none⟩

section Process

variable {p : Program} {db : Sql.Db} {i : Sql.Table} {t : Table}

theorem checkUpdate_other (h : Program.View p db) (hInfo : InfoTable p db i)
    (hVer : recorded i t.cls ≠ t.version) :
    ∃ q, checkUpdate t p = .ok (q, true) ∧
      Program.View q (renamed t (Function.update db info.cls (some i))) ∧ Frame p q ∧
      q.registered = (p.register info.cls).registered := by
  obtain ⟨q, a, hGet, hView, hFrame, -, hReg, hObject⟩ := getInfo_view h hInfo t
  obtain ⟨r, hQueue, hView', hQueued⟩ := hView.queued rfl (apply_rename t _)
  refine ⟨r, ?_, hView', hFrame.trans hQueued.frame, hQueued.registered.trans hReg⟩
  have hOther : ¬ getVer (q.object a) = t.version := by
    rw [getVer, hObject.ver]
    exact hVer
  unfold checkUpdate
  rw [hGet, Transition.ok_bind]
  simp only [if_neg hOther, hQueue, Transition.ok_bind]
  rfl

theorem checkUpdate_same (h : Program.View p db) (hInfo : InfoTable p db i)
    (hVer : recorded i t.cls = t.version) :
    ∃ q, checkUpdate t p = .ok (q, false) ∧
      Program.View q (Function.update db info.cls (some i)) ∧ Frame p q ∧
      q.registered = (p.register info.cls).registered := by
  obtain ⟨q, a, hGet, hView, hFrame, -, hReg, hObject⟩ := getInfo_view h hInfo t
  refine ⟨q, ?_, hView, hFrame, hReg⟩
  have hSame : getVer (q.object a) = t.version := by
    rw [getVer, hObject.ver]
    exact hVer
  unfold checkUpdate
  rw [hGet, Transition.ok_bind]
  simp only [if_pos hSame]
  rfl

theorem afterUpdate_view (h : Program.View p db) (hHolds : Holds db info i)
    (hSeq : i.seq < 2 ^ 31) (hReg : p.registered info.cls = true)
    (hVer : recorded i t.cls ≠ t.version) :
    ∃ q i', afterUpdate t p = .ok q ∧ Program.Quiet q ∧
      q.pending = (copyItem t).apply (Function.update db info.cls (some i')) >>=
        (dropItem t).apply ∧
      Frame p q ∧ q.registered = p.registered ∧ i'.columns = columns info ∧
      recorded i' t.cls = p.floatText t.version ∧ Recorded i i' t.cls := by
  obtain ⟨q, a, hGet, hView, hFrame, ha, hRegQ, hObject⟩ := getInfo_view h (Or.inl hHolds) t
  rw [← hHolds.table, Function.update_eq_self] at hView
  rw [Program.register_eq hReg] at hRegQ
  obtain ⟨r, i', hSave, hViewR, hColumns, hRecorded, hOthers, hRegR, hTextR, hNextR, hOther⟩ :=
    record_view hView hHolds hSeq hObject hVer
  have hFrameR : Frame p r :=
    ⟨hTextR.trans hFrame.floatText, hFrame.next.trans hNextR.ge,
      fun b hb => (hOther b (by omega)).trans (hFrame.objects b hb)⟩
  obtain ⟨d, hCopy, hQuietD, hPendingD, hStoreD⟩ :=
    hViewR.toQuiet.queueExce (i := copyItem t) rfl
  obtain ⟨e, hDrop, hQuietE, hPendingE, hStoreE⟩ := hQuietD.queueExce (i := dropItem t) rfl
  refine ⟨_, i', ?_, hQuietE, ?_, ?_, hRegR.trans hRegQ, hColumns, ?_, hOthers⟩
  · unfold afterUpdate
    rw [hGet, Transition.ok_bind]
    simp only [hSave, Transition.ok_bind]
    change (r.queueExce (copyItem t) >>= fun p => p.queueExce (dropItem t)) = _
    rw [hCopy, Transition.ok_bind]
    exact hDrop
  · rw [hPendingE, hPendingD, hViewR.pending]
    rfl
  · exact hFrameR.trans (.of_store rfl (hStoreE.trans hStoreD))
  · rw [hRecorded, hFrame.floatText]

/-- The upgrade, up to the two statements it leaves in the queue. -/
theorem processTable_other (h : Program.View p db) (hInfo : InfoTable p db i)
    (hSeq : i.seq < 2 ^ 31) (hColumns : t.Columns) (hCls : t.cls ≠ info.cls)
    (hVer : recorded i t.cls ≠ t.version) :
    ∃ q i', processTable t p = .ok q ∧ Program.Quiet q ∧
      q.pending = (copyItem t).apply (Function.update
        (created t (renamed t (Function.update db info.cls (some i)))) info.cls (some i')) >>=
        (dropItem t).apply ∧
      Frame p q ∧ q.registered = (p.register info.cls).registered ∧
      i'.columns = columns info ∧ recorded i' t.cls = p.floatText t.version ∧
      Recorded i i' t.cls := by
  obtain ⟨q, hCheck, hView, hFrame, hReg⟩ := checkUpdate_other h hInfo hVer
  obtain ⟨r, hCreate, hViewR, hQueued⟩ := create_view hView hColumns
  have hHolds : Holds (created t (renamed t (Function.update db info.cls (some i)))) info i := by
    constructor
    · rw [created_of_ne t _ hCls.symm, renamed_of_ne t _ hCls.symm (tempName_ne_info t).symm,
        Function.update_self]
    · rcases hInfo with hHolds | ⟨-, -, rfl⟩
      · exact hHolds.columns
      · rfl
  have hRegR : r.registered info.cls = true := by
    rw [hQueued.registered, hReg, Program.register_self]
  obtain ⟨s, i', hAfter, hQuiet, hPending, hFrameS, hRegS, hColumnsS, hRecorded, hOthers⟩ :=
    afterUpdate_view hViewR hHolds hSeq hRegR hVer
  have hFrameR : Frame p r := hFrame.trans hQueued.frame
  refine ⟨s, i', ?_, hQuiet, hPending, hFrameR.trans hFrameS, ?_, hColumnsS, ?_, hOthers⟩
  · unfold processTable
    rw [hCheck, Transition.ok_bind]
    simp only [hCreate, Transition.ok_bind]
    exact hAfter
  · rw [hRegS, hQueued.registered, hReg]
  · rw [hRecorded, hFrameR.floatText]

/-- A table of the right version is only looked at. -/
theorem processTable_same (h : Program.View p db) (hInfo : InfoTable p db i)
    (hColumns : t.Columns) (hVer : recorded i t.cls = t.version) :
    ∃ q, processTable t p = .ok q ∧
      Program.View q (created t (Function.update db info.cls (some i))) ∧
      Frame p q ∧ q.registered = (p.register info.cls).registered := by
  obtain ⟨q, hCheck, hView, hFrame, hReg⟩ := checkUpdate_same h hInfo hVer
  obtain ⟨r, hCreate, hViewR, hQueued⟩ := create_view hView hColumns
  refine ⟨r, ?_, hViewR, hFrame.trans hQueued.frame, hQueued.registered.trans hReg⟩
  unfold processTable
  rw [hCheck, Transition.ok_bind]
  simp only [hCreate, Transition.ok_bind]
  rfl

end Process

end RetroConfig
