import RetroConfig.Database.Upgrade

/-!
# The table of a class in use

`Openable t p u` says that the program can use the class described by `t` without an upgrade
of old rows, and that its table is `u` once the queue is drained. Each operation of `Model<T>`
keeps this and changes `u` by the statement it submits:

* `find_open`: `find` makes an object from the row with the identifier;
* `save_open_new`, `save_open_old`: `save` inserts a row, or updates the one of the object, and
  `save_open` puts all cases together;
* `remove_open`: `remove` deletes the row of the object.
-/

namespace RetroConfig

open SQLite Program

/-- The ways in which a table can be ready for use: the class is registered and the table is
there; or the class is not registered yet and the recorded version is its own; or nothing
of the class was ever stored. -/
inductive Openable (t : Table) (p : Program) (u : Sql.Table) : Prop where
  | ready (db : Sql.Db) (hReg : p.registered t.cls = true) (hView : View p db)
      (hHolds : Holds db t u)
  | same (db : Sql.Db) (i : Sql.Table) (hReg : p.registered t.cls = false) (hView : View p db)
      (hInfo : InfoTable p db i) (hCls : t.cls ≠ info.cls) (hVer : recorded i t.cls = t.version)
      (hTable : Holds db t u ∨ db t.cls = none ∧ u = .empty (columns t))
  | fresh (db : Sql.Db) (i : Sql.Table) (hReg : p.registered t.cls = false) (hView : View p db)
      (hInfo : InfoTable p db i) (hCls : t.cls ≠ info.cls) (hVer : recorded i t.cls ≠ t.version)
      (hSeq : i.seq < 2 ^ 31) (hNone : db t.cls = none) (hTemp : db (tempName t) = none)
      (hTable : u = .empty (columns t))

namespace Openable

variable {t : Table} {p q : Program} {u : Sql.Table}

/-- What does not touch the queue or the file keeps the table. -/
theorem of_view (h : Openable t p u) (hReg : q.registered = p.registered)
    (hView : ∀ db, View p db → View q db) : Openable t q u := by
  cases h with
  | ready db hp hV hHolds => exact .ready db (hReg ▸ hp) (hView db hV) hHolds
  | same db i hp hV hInfo hCls hVer hTable =>
    refine .same db i (hReg ▸ hp) (hView db hV) ?_ hCls hVer hTable
    rwa [InfoTable, hReg]
  | fresh db i hp hV hInfo hCls hVer hSeq hNone hTemp hTable =>
    refine .fresh db i (hReg ▸ hp) (hView db hV) ?_ hCls hVer hSeq hNone hTemp hTable
    rwa [InfoTable, hReg]

theorem modify (h : Openable t p u) (a : Nat) (f : Object → Object) : Openable t (p.modify a f) u :=
  h.of_view rfl (fun _ hView => hView.modify a f)

theorem new (h : Openable t p u) : Openable t p.new.1 u := h.of_view rfl (fun _ hView => hView.new)

theorem newZero (h : Openable t p u) : Openable t p.newZero.1 u :=
  h.of_view rfl (fun _ hView => hView.setStore rfl)

/-- A timer keeps the table and the objects. -/
theorem fire (h : Openable t p u) : ∃ q, p.fire = .ok q ∧ Openable t q u ∧
    q.registered = p.registered ∧ q.floatText = p.floatText ∧
    q.store.objects = p.store.objects ∧ q.store.next = p.store.next := by
  have hAny : ∃ db, View p db := by
    cases h with
    | ready db _ hView _ => exact ⟨db, hView⟩
    | same db _ _ hView _ _ _ _ => exact ⟨db, hView⟩
    | fresh db _ _ hView _ _ _ _ _ _ _ => exact ⟨db, hView⟩
  obtain ⟨db, hView⟩ := hAny
  obtain ⟨d, hRun, -, hObjects, hNext⟩ := hView.fire
  refine ⟨_, hRun, h.of_view rfl ?_, rfl, rfl, hObjects, hNext⟩
  intro db' hView'
  obtain ⟨d', hRun', hAfter, -⟩ := hView'.fire
  rw [hRun] at hRun'
  obtain rfl : d = d' := congrArg Program.database (Except.ok.inj hRun')
  exact hAfter

theorem columns (h : Openable t p u) : u.columns = columns t := by
  cases h with
  | ready db _ _ hHolds => exact hHolds.columns
  | same db i _ _ _ _ _ hTable =>
    rcases hTable with hHolds | ⟨-, rfl⟩
    · exact hHolds.columns
    · rfl
  | fresh db i _ _ _ _ _ _ _ _ hTable =>
    rw [hTable]
    rfl

/-- The table in a database of its own, for the facts about its columns. -/
theorem holds (h : Openable t p u) : Holds (fun _ => some u) t u := ⟨rfl, h.columns⟩

end Openable

/-- The table of a class once the queue is drained, if there is one. -/
def Program.table (p : Program) (cls : String) : Option Sql.Table :=
  match p.pending with
  | .ok db => db cls
  | .error _ => none

theorem Program.View.table {p : Program} {db : Sql.Db} (h : View p db) (cls : String) :
    p.table cls = db cls := by
  rw [Program.table, h.pending]

/-- The table is the one in the file, unless it is yet to be created. -/
theorem Openable.table {t : Table} {p : Program} {u : Sql.Table} (h : Openable t p u) :
    p.table t.cls = some u ∨ p.table t.cls = none ∧ u = .empty (SQLite.columns t) := by
  cases h with
  | ready db _ hView hHolds => exact Or.inl ((hView.table _).trans hHolds.table)
  | same db i _ hView _ _ _ hTable =>
    rcases hTable with hHolds | ⟨hNone, hEmpty⟩
    · exact Or.inl ((hView.table _).trans hHolds.table)
    · exact Or.inr ⟨(hView.table _).trans hNone, hEmpty⟩
  | fresh db i _ hView _ _ _ _ hNone _ hTable =>
    exact Or.inr ⟨(hView.table _).trans hNone, hTable⟩

/-- The program when it starts on a file. Memory and what `%f` does are arbitrary. -/
def Program.boot (db : Sql.Db) (objects : Nat → Object) (floatText : Rat → Rat) : Program where
  database :=
    { queue := [], waitAction := false, mtx := false, timers := 0, db := false
      store := ⟨db, objects, 0, []⟩ }
  registered := fun _ => false
  floatText := floatText

theorem boot_view (db : Sql.Db) (objects : Nat → Object) (floatText : Rat → Rat) :
    View (boot db objects floatText) db := ⟨⟨⟨rfl, rfl⟩, fun i hi => by cases hi⟩, rfl⟩

/-- The program on a new file. -/
def Program.install (objects : Nat → Object) (floatText : Rat → Rat) : Program :=
  boot (fun _ => none) objects floatText

/-- On a new file every class can be used. -/
theorem install_openable (objects : Nat → Object) (floatText : Rat → Rat) {t : Table}
    (hCls : t.cls ≠ info.cls) :
    Openable t (install objects floatText) (.empty (SQLite.columns t)) := by
  have hView : View (install objects floatText) (fun _ => none) := boot_view ..
  have hInfo : InfoTable (install objects floatText) (fun _ => none)
      (.empty (SQLite.columns info)) := Or.inr ⟨rfl, rfl, rfl⟩
  by_cases hVer : recorded (.empty (SQLite.columns info)) t.cls = t.version
  · exact .same _ _ rfl hView hInfo hCls hVer (Or.inr ⟨rfl, rfl⟩)
  · exact .fresh _ _ rfl hView hInfo hCls hVer (by decide) rfl rfl rfl

section Operations

variable {t : Table} {p : Program} {u : Sql.Table}

theorem apply_copy_none {db : Sql.Db} (h : db (tempName t) = none) :
    (copyItem t).apply db = .ok db := by
  simp [copyItem, QueueItem.apply, Sql.prepare, h]

theorem apply_drop_none {db : Sql.Db} (h : db (tempName t) = none) :
    (dropItem t).apply db = .ok db := by
  simp [dropItem, QueueItem.apply, Sql.prepare, h]

/-- `Model<T>::checkTable` opens the table. -/
theorem checkTable_open (hColumns : t.Columns) (h : Openable t p u) :
    ∃ q db, Model.checkTable t p = .ok q ∧ View q db ∧ Holds db t u ∧
      q.registered t.cls = true ∧ Frame p q := by
  have hPutInfo : ∀ db i, InfoTable p db i → t.cls ≠ info.cls →
      InfoTable (p.register t.cls) db i := by
    intro db i hInfo hCls
    rwa [InfoTable, register_of_ne p hCls.symm]
  cases h with
  | ready db hReg hView hHolds =>
    exact ⟨p, db, if_pos hReg, hView, hHolds, hReg, .refl p⟩
  | same db i hReg hView hInfo hCls hVer hTable =>
    obtain ⟨q, hRun, hViewQ, hFrame, hRegQ⟩ :=
      processTable_same (hView.register t.cls) (hPutInfo db i hInfo hCls) hColumns hVer
    have hTable' : Holds (Function.update db info.cls (some i)) t u ∨
        Function.update db info.cls (some i) t.cls = none ∧ u = .empty (columns t) := by
      rw [Function.update_of_ne hCls]
      exact hTable.imp_left (fun hHolds => ⟨by rw [Function.update_of_ne hCls]; exact hHolds.table,
        hHolds.columns⟩)
    rw [created_eq hTable'] at hViewQ
    refine ⟨q, _, ?_, hViewQ, ⟨Function.update_self .., ?_⟩, ?_,
      ⟨hFrame.floatText, hFrame.next, hFrame.objects⟩⟩
    · rw [Model.checkTable, hReg]
      exact hRun
    · rcases hTable with hHolds | ⟨-, rfl⟩
      · exact hHolds.columns
      · rfl
    · rw [hRegQ, register_of_ne _ hCls, register_self]
  | fresh db i hReg hView hInfo hCls hVer hSeq hNone hTemp hTable =>
    obtain ⟨q, i', hRun, hQuiet, hPending, hFrame, hRegQ, -⟩ :=
      processTable_other (hView.register t.cls) (hPutInfo db i hInfo hCls) hSeq hColumns hCls hVer
    have hRenamed : renamed t (Function.update db info.cls (some i)) =
        Function.update db info.cls (some i) := by
      simp only [renamed, Function.update_of_ne hCls, hNone]
    have hCreated : created t (Function.update db info.cls (some i)) =
        Function.update (Function.update db info.cls (some i)) t.cls (some u) :=
      created_eq (Or.inr ⟨by rw [Function.update_of_ne hCls, hNone], hTable⟩)
    rw [hRenamed, hCreated] at hPending
    have hNoTemp : Function.update (Function.update (Function.update db info.cls (some i)) t.cls
        (some u)) info.cls (some i') (tempName t) = none := by
      rw [Function.update_of_ne (tempName_ne_info t), Function.update_of_ne (tempName_ne_cls t),
        Function.update_of_ne (tempName_ne_info t), hTemp]
    rw [apply_copy_none hNoTemp] at hPending
    refine ⟨q, _, ?_, ⟨hQuiet, hPending.trans (apply_drop_none hNoTemp)⟩, ⟨?_, ?_⟩, ?_,
      ⟨hFrame.floatText, hFrame.next, hFrame.objects⟩⟩
    · rw [Model.checkTable, hReg]
      exact hRun
    · rw [Function.update_of_ne hCls, Function.update_self]
    · rw [hTable]
      rfl
    · rw [hRegQ, register_of_ne _ hCls, register_self]

theorem matching_identifier {db : Sql.Db} (h : Holds db t u) (n : Int) :
    matching u Field.identifier.name (.int n) = (u.byKey n).toList := by
  rw [← u.filter_key n, matching]
  simp only [h.cell_identifier, QueryValue.cell, Sql.equal_holds_int]

/-- A text column compared with a text without a NUL. -/
theorem Holds.condition_text {db : Sql.Db} (h : Holds db t u) {f : Field} (hf : f ∈ t.stored)
    (hAffinity : (SQLite.column f).affinity = .text) {s : String} (hs : Text.NulFree s)
    (r : Sql.Row) :
    Condition.holds u r (.compare f.name .equal (.text s)) = true ↔ r.cells f.name = .text s := by
  have hConvert : Sql.Cmp.equal.convert (u.affinity f.name) (QueryValue.cell (.text s)) =
      .text s := by
    rw [h.affinity (Table.mem_stored.mp hf).1, hAffinity, QueryValue.cell,
      Text.cString_of_nulFree hs]
    rfl
  rw [Condition.holds, hConvert, Sql.equal_holds_text_iff, h.cell_stored r hf]

theorem Holds.identifier_rowObject {db : Sql.Db} (h : Holds db t u) (hColumns : t.Columns)
    (r : Sql.Row) : (rowObject t u r).identifier = Int32.ofInt r.rowid := by
  rw [Object.identifier, get_rowObject hColumns u r t.identifier_mem, h.cell_identifier]
  rfl

/-- The identifier among some numbers. -/
theorem Holds.condition_among {db : Sql.Db} (h : Holds db t u) (ids : List Int) (r : Sql.Row) :
    Condition.holds u r (.among Field.identifier.name (ids.map .int)) = true ↔
      (r.rowid : Int) ∈ ids := by
  have hConvert : ∀ n : Int,
      (u.affinity Field.identifier.name).apply (QueryValue.cell (.int n)) = .int n := by
    intro n
    rw [h.affinity t.identifier_mem]
    rfl
  rw [Condition.holds, h.cell_identifier, List.any_map, List.any_eq_true]
  simp only [Function.comp_apply, hConvert, Sql.equal_holds_int, decide_eq_true_eq,
    exists_eq_right']

/-- `T::query()->equal(name, val)->results()`, as far as its first element goes. -/
theorem resultsEqual_open (hColumns : t.Columns) (h : Openable t p u) {f : Field}
    (hf : f ∈ t.fields) {v : QueryValue} (hFits : v.Fits f) :
    ∃ q results, Model.resultsEqual t f.name v p = .ok (q, results) ∧ Openable t q u ∧
      Frame p q ∧ (matching u f.name v = [] → results = []) ∧
      ∀ r rest, matching u f.name v = r :: rest → ∃ a tail, results = a :: tail ∧
        p.store.next ≤ a ∧ a < q.store.next ∧ q.object a = rowObject t u r := by
  obtain ⟨p₁, db, hCheck, hView, hHolds, hReg, hFrame⟩ := checkTable_open hColumns h
  obtain ⟨d, q', hRes, hViewD, hNext, hOld, hNone, hSome⟩ := hView.first hHolds hf hFits 0
  refine ⟨{ p₁ with database := d }, q'.results, ?_, .ready db hReg hViewD hHolds,
    hFrame.trans ⟨rfl, hNext, hOld⟩, hNone, ?_⟩
  · unfold Model.resultsEqual Model.query
    rw [hCheck]
    simp only [Transition.ok_bind]
    change (Query.res ((Query.ofTable t).equal f.name v) p₁ >>= _) = _
    have hQuery : Query.res ((Query.ofTable t).equal f.name v) p₁ =
        .ok ({ p₁ with database := d }, q') := by
      cases v <;> exact hRes
    rw [hQuery]
    rfl
  · intro r rest hRows
    obtain ⟨⟨tail, hResults⟩, hLt, hObject⟩ := hSome r rest hRows
    exact ⟨_, tail, hResults, hFrame.next, hLt, hObject⟩

/-- `T::query()`, a chain of calls that leads to `q`, and `results()`. -/
theorem results_open (hColumns : t.Columns) (h : Openable t p u) {q : Query}
    {conds : List Condition} (hTable : q.table = t) (hChanged : q.changed = true)
    (hBuilt : q.Built conds) (hAccepted : q.Accepted conds u) :
    ∃ p₁ p₂ q', Model.query t p = .ok (p₁, .ofTable t) ∧ q.res p₁ = .ok (p₂, q') ∧
      Openable t p₂ u ∧ Frame p p₂ ∧
      q'.results.map p₂.object = (q.selected conds u).map (rowObject t u) ∧
      ∀ a ∈ q'.results, a < p₂.store.next := by
  obtain ⟨p₁, db, hCheck, hView, hHolds, hReg, hFrame⟩ := checkTable_open hColumns h
  have hRows := rows_select (hTable.symm ▸ hHolds) hBuilt hAccepted
  obtain ⟨d, hRes, hViewD, hNext, hOld, hNew⟩ := hView.res hChanged
  refine ⟨p₁, _, _, ?_, hRes, .ready db hReg hViewD hHolds, hFrame.trans ⟨rfl, ?_, hOld⟩, ?_, ?_⟩
  · rw [Model.query, hCheck]
    rfl
  · change p₁.store.next ≤ d.store.next
    omega
  · have hRead : (q.rows db).map (readRow q.table) = (q.selected conds u).map (rowObject t u) := by
      rw [hRows, List.map_map, hTable]
      rfl
    exact hNew.trans hRead
  · intro a ha
    rw [List.mem_range'_1] at ha
    change a < d.store.next
    omega

/-- `T::query()->equal(name, val)->results()` makes an object from every row with the value. -/
theorem resultsEqual_all (hColumns : t.Columns) (h : Openable t p u) {f : Field} (hf : f ∈ t.fields)
    {v : QueryValue} (hFits : v.Fits f) :
    ∃ q results, Model.resultsEqual t f.name v p = .ok (q, results) ∧ Openable t q u ∧ Frame p q ∧
      results.map q.object = (matching u f.name v).map (rowObject t u) ∧
      ∀ a ∈ results, a < q.store.next := by
  obtain ⟨q', hq'⟩ : ∃ q', q' = (Query.ofTable t).equal f.name v := ⟨_, rfl⟩
  have hKept : q'.table = t ∧ q'.changed = true ∧ q'.sortBys = [] ∧ q'.limit = 0 ∧ q'.offset = -1 := by
    rw [hq']
    cases v <;> exact ⟨rfl, rfl, rfl, rfl, rfl⟩
  obtain ⟨hTable, hChanged, hSorts, hLimit, hOffset⟩ := hKept
  have hBuilt : q'.Built [.compare f.name .equal v] := by
    rw [hq']
    exact ⟨Condition.call_sentence _ (.compare f.name .equal v),
      (Condition.call_params _ (.compare f.name .equal v)).trans (by simp [Query.ofTable])⟩
  have hAccepted : q'.Accepted [.compare f.name .equal v] u := by
    refine ⟨?_, ?_, ?_⟩
    · intro c hc
      rw [List.mem_singleton.mp hc]
      exact h.holds.mem_names hf
    · rw [hSorts]
      exact fun name hName => by cases hName
    · rw [hOffset]
      omega
  have hSelected : q'.selected [.compare f.name .equal v] u = matching u f.name v := by
    have hOrder : q'.orderBy = [] := by
      rw [Query.orderBy, hSorts]
      rfl
    rw [Query.selected, hOrder, hLimit, hOffset]
    apply List.filter_congr
    intro r _
    have hConvert : Sql.Cmp.equal.convert (u.affinity f.name) v.cell = v.cell := by
      rw [h.holds.affinity hf]
      exact hFits
    rw [List.all_cons, List.all_nil, Bool.and_true, Condition.holds, hConvert]
  obtain ⟨p₁, p₂, q₂, hQuery, hRes, hOpen, hFrame, hObjects, hLt⟩ :=
    results_open hColumns h hTable hChanged hBuilt hAccepted
  rw [hSelected] at hObjects
  refine ⟨p₂, q₂.results, ?_, hOpen, hFrame, hObjects, hLt⟩
  unfold Model.resultsEqual
  rw [hQuery]
  simp only [Transition.ok_bind]
  rw [← hq', hRes]
  rfl

/-- `T::query()->sortBy(name)->results()` makes an object from every row. -/
theorem resultsSorted_open (hColumns : t.Columns) (h : Openable t p u) {f : Field}
    (hf : f ∈ t.fields) :
    ∃ q results, ∃ rows : List Sql.Row, Model.resultsSorted t f.name p = .ok (q, results) ∧ Openable t q u ∧
      Frame p q ∧ rows.Perm u.rows ∧ results.map q.object = rows.map (rowObject t u) ∧
      ∀ a ∈ results, a < q.store.next := by
  have hAccepted : ((Query.ofTable t).sortBy f.name).Accepted [] u := by
    refine ⟨fun c hc => (by cases hc), ?_, ?_⟩
    · intro name hName
      rw [List.mem_singleton.mp hName]
      exact h.holds.mem_names hf
    · intro hOffset
      have hUnset : ((Query.ofTable t).sortBy f.name).offset = -1 := rfl
      omega
  have hAll : u.rows.filter (fun r => [].all (Condition.holds u r)) = u.rows :=
    List.filter_eq_self.mpr fun r _ => rfl
  have hSelected : ((Query.ofTable t).sortBy f.name).selected [] u =
      u.rows.mergeSort (u.precedes [(f.name, true)]) := by
    change u.select (fun r => [].all (Condition.holds u r)) [(f.name, true)] none none = _
    rw [Sql.Table.select, hAll]
    rfl
  obtain ⟨p₁, p₂, q', hQuery, hRes, hOpen, hFrame, hObjects, hLt⟩ :=
    results_open (q := (Query.ofTable t).sortBy f.name) hColumns h rfl rfl ⟨rfl, rfl⟩ hAccepted
  rw [hSelected] at hObjects
  refine ⟨p₂, q'.results, _, ?_, hOpen, hFrame, List.mergeSort_perm u.rows _, hObjects, hLt⟩
  unfold Model.resultsSorted
  rw [hQuery]
  simp only [Transition.ok_bind]
  rw [hRes]
  rfl

/-- `Model<T>::find` returns an object made from the row with the identifier. -/
theorem find_open (hColumns : t.Columns) (h : Openable t p u) (id : Int32) :
    ∃ q b, Model.find t id p = .ok (q, b) ∧ Openable t q u ∧ Frame p q ∧
      b.map q.object = (u.byKey id.toInt).map (rowObject t u) := by
  obtain ⟨p₁, db, hCheck, hView, hHolds, hReg, hFrame⟩ := checkTable_open hColumns h
  obtain ⟨d, q', hRes, hViewD, hNext, hOld, hNone, hSome⟩ :=
    hView.first hHolds t.identifier_mem (v := .int id.toInt) rfl 1
  rw [matching_identifier hHolds] at hNone hSome
  refine ⟨{ p₁ with database := d }, q'.results.head?, ?_, .ready db hReg hViewD hHolds,
    hFrame.trans ⟨rfl, hNext, hOld⟩, ?_⟩
  · unfold Model.find Model.query
    rw [hCheck]
    simp only [Transition.ok_bind]
    change (Query.res { (Query.ofTable t).equal Field.identifier.name (.int id.toInt) with
      limit := 1 } p₁ >>= _) = _
    rw [hRes]
    rfl
  · cases hRow : u.byKey id.toInt with
    | none =>
      rw [hNone (by rw [hRow]; rfl)]
      rfl
    | some r =>
      obtain ⟨⟨tail, hResults⟩, -, hObject⟩ := hSome r [] (by rw [hRow]; rfl)
      rw [hResults]
      exact congrArg some hObject

/-- From `p` to `q` only the object at `a` changed, and it is now `o`. -/
structure Wrote (p q : Program) (a : Nat) (o : Object) : Prop where
  floatText : q.floatText = p.floatText
  next : p.store.next ≤ q.store.next
  object : q.object a = o
  others : ∀ b < p.store.next, b ≠ a → q.object b = p.object b

/-- Opening the table and then writing the object at `a`. -/
theorem Frame.wrote {p₁ : Program} (h : Frame p p₁) {d : Database QueueItem Store} {a : Nat}
    {o : Object} (hObjects : d.store.objects = Function.update p₁.store.objects a o)
    (hNext : d.store.next = p₁.store.next) : Wrote p { p₁ with database := d } a o := by
  refine ⟨h.floatText, h.next.trans hNext.ge, ?_, ?_⟩
  · rw [Program.object, Program.store, hObjects, Function.update_self]
  · intro b hb hne
    rw [Program.object, Program.store, hObjects, Function.update_of_ne hne]
    exact h.objects b hb

theorem Holds.put {db : Sql.Db} (h : Holds db t u) {v : Sql.Table} (hv : v.columns = u.columns) :
    Holds (Function.update db t.cls (some v)) t v :=
  ⟨Function.update_self .., hv.trans h.columns⟩

/-- `Model<T>::save` of a changed object without an identifier. -/
theorem save_open_new (hColumns : t.Columns) (hStored : t.stored ≠ []) (h : Openable t p u) {a : Nat}
    (ha : a < p.store.next) (hChanged : (p.object a).changed = true)
    (hNew : (p.object a).identifier = -1) (hSeq : u.seq < Sql.maxRowid) :
    ∃ q, Model.save t a p = .ok q ∧ Openable t q (inserted p.floatText t (p.object a) u) ∧
      Wrote p q a ((p.object a).setIdentifier (Int32.ofNat (u.seq + 1))) := by
  obtain ⟨p₁, db, hCheck, hView, hHolds, hReg, hFrame⟩ := checkTable_open hColumns h
  have hSame : p₁.object a = p.object a := hFrame.objects a ha
  obtain ⟨d, hRun, hViewD, hObjects, hNext⟩ :=
    hView.insert hHolds hColumns hStored hSeq (hSame ▸ hNew)
  rw [hSame] at hViewD hObjects
  rw [← hFrame.floatText]
  refine ⟨{ p₁ with database := d }, ?_, .ready _ hReg hViewD (hHolds.put rfl),
    hFrame.wrote hObjects hNext⟩
  rw [Model.save, if_pos hChanged, hCheck]
  exact hRun

/-- `Model<T>::save` of a changed object without an identifier when no rowid is left. -/
theorem save_open_full (hColumns : t.Columns) (hStored : t.stored ≠ []) (h : Openable t p u)
    {a : Nat} (ha : a < p.store.next) (hChanged : (p.object a).changed = true)
    (hNew : (p.object a).identifier = -1) (hSeq : ¬ u.seq < Sql.maxRowid) :
    ∃ q, Model.save t a p = .ok q ∧ Openable t q u ∧ Wrote p q a ((p.object a).setIdentifier 0) := by
  obtain ⟨p₁, db, hCheck, hView, hHolds, hReg, hFrame⟩ := checkTable_open hColumns h
  have hSame : p₁.object a = p.object a := hFrame.objects a ha
  obtain ⟨d, hRun, hViewD, hObjects, hNext⟩ :=
    hView.insert_full hHolds hColumns hStored hSeq (hSame ▸ hNew)
  rw [hSame] at hObjects
  refine ⟨{ p₁ with database := d }, ?_, .ready db hReg hViewD hHolds,
    hFrame.wrote hObjects hNext⟩
  rw [Model.save, if_pos hChanged, hCheck]
  exact hRun

/-- `Model<T>::save` of a changed object with an identifier. -/
theorem save_open_old (hColumns : t.Columns) (hStored : t.stored ≠ []) (h : Openable t p u) {a : Nat}
    (ha : a < p.store.next) (hChanged : (p.object a).changed = true)
    (hOld : (p.object a).identifier ≠ -1) :
    ∃ q, Model.save t a p = .ok q ∧
      Openable t q (updated p.floatText t (p.object a) (p.object a).identifier u) ∧
      Frame p q := by
  obtain ⟨p₁, db, hCheck, hView, hHolds, hReg, hFrame⟩ := checkTable_open hColumns h
  have hSame : p₁.object a = p.object a := hFrame.objects a ha
  obtain ⟨d, hRun, hViewD, hStore⟩ := hView.update hHolds hColumns hStored (hSame ▸ hOld)
  rw [hSame] at hViewD
  rw [← hFrame.floatText]
  refine ⟨{ p₁ with database := d }, ?_, .ready _ hReg hViewD (hHolds.put rfl),
    hFrame.trans (.of_store rfl hStore)⟩
  rw [Model.save, if_pos hChanged, hCheck]
  exact hRun

/-- The table after `Model<T>::save` of the object. -/
def saved (floatText : Rat → Rat) (t : Table) (o : Object) (u : Sql.Table) : Sql.Table :=
  if o.changed then
    if o.identifier = -1 then
      if u.seq < Sql.maxRowid then inserted floatText t o u else u
    else updated floatText t o o.identifier u
  else u

/-- The identifier of the object after `Model<T>::save`. -/
def savedIdentifier (o : Object) (u : Sql.Table) : Int32 :=
  if o.changed = true ∧ o.identifier = -1 then
    if u.seq < Sql.maxRowid then Int32.ofNat (u.seq + 1) else 0
  else o.identifier

/-- `Model<T>::save` in all cases. -/
theorem save_open (hColumns : t.Columns) (hStored : t.stored ≠ []) (h : Openable t p u) {a : Nat}
    (ha : a < p.store.next) :
    ∃ q, Model.save t a p = .ok q ∧ Openable t q (saved p.floatText t (p.object a) u) ∧
      (q.object a).identifier = savedIdentifier (p.object a) u ∧
      ∀ f ∈ t.stored, (q.object a).get f = (p.object a).get f := by
  by_cases hChanged : (p.object a).changed = true
  · by_cases hId : (p.object a).identifier = -1
    · by_cases hSeq : u.seq < Sql.maxRowid
      · obtain ⟨q, hSave, hOpen, hWrote⟩ := save_open_new hColumns hStored h ha hChanged hId hSeq
        refine ⟨q, hSave, ?_, ?_, ?_⟩
        · rwa [saved, if_pos hChanged, if_pos hId, if_pos hSeq]
        · rw [hWrote.object, Object.identifier_setIdentifier, savedIdentifier,
            if_pos ⟨hChanged, hId⟩, if_pos hSeq]
        · intro f hf
          rw [hWrote.object, Object.get_setIdentifier _ _ (Table.stored_name_ne hf)]
      · obtain ⟨q, hSave, hOpen, hWrote⟩ := save_open_full hColumns hStored h ha hChanged hId hSeq
        refine ⟨q, hSave, ?_, ?_, ?_⟩
        · rwa [saved, if_pos hChanged, if_pos hId, if_neg hSeq]
        · rw [hWrote.object, Object.identifier_setIdentifier, savedIdentifier,
            if_pos ⟨hChanged, hId⟩, if_neg hSeq]
        · intro f hf
          rw [hWrote.object, Object.get_setIdentifier _ _ (Table.stored_name_ne hf)]
    · obtain ⟨q, hSave, hOpen, hFrame⟩ := save_open_old hColumns hStored h ha hChanged hId
      refine ⟨q, hSave, ?_, ?_, ?_⟩
      · rwa [saved, if_pos hChanged, if_neg hId]
      · rw [hFrame.objects a ha, savedIdentifier, if_neg fun hBoth => hId hBoth.2]
      · intro f _
        rw [hFrame.objects a ha]
  · refine ⟨p, if_neg hChanged, ?_, ?_, fun f _ => rfl⟩
    · rwa [saved, if_neg hChanged]
    · rw [savedIdentifier, if_neg fun hBoth => hChanged hBoth.1]

/-- `Model<T>::remove`. -/
theorem remove_open (hColumns : t.Columns) (h : Openable t p u) {a : Nat}
    (ha : a < p.store.next) :
    ∃ q, Model.remove t a p = .ok q ∧ Openable t q (deleted (p.object a).identifier u) ∧
      Wrote p q a ((p.object a).setIdentifier (-1)) := by
  obtain ⟨p₁, db, hCheck, hView, hHolds, hReg, hFrame⟩ := checkTable_open hColumns h
  have hSame : p₁.object a = p.object a := hFrame.objects a ha
  obtain ⟨d, hRun, hViewD, hObjects, hNext⟩ := hView.remove (a := a) hHolds
  rw [hSame] at hViewD hObjects
  refine ⟨{ p₁ with database := d }, ?_, .ready _ hReg hViewD (hHolds.put rfl),
    hFrame.wrote hObjects hNext⟩
  rw [Model.remove, hCheck]
  exact hRun

end Operations

end RetroConfig
