import RetroConfig.Database.Open

/-!
# Two classes in one program

`Both t t' p u u'` says that two classes can be used, and that their tables are `u` and `u'` once the
queue is drained. An operation of one class keeps the table of the other: opening a table changes its
own row of `SQLTable` only (`Both.checkTable`), and a statement names one table (`Openable.put`).
So the operations of `Model<T>` do what they do with one class: `Both.results`, `Both.find`,
`Both.save` and `Both.remove`. A program that starts on the file of another finds both tables again
(`Both.boot`).
-/

namespace RetroConfig

open SQLite Program

/-- The statements of `t` do not name the tables of `t'`. -/
structure Apart (t t' : Table) : Prop where
  name : Text.cString t'.cls ≠ Text.cString t.cls
  temp : tempName t' ≠ t.cls
  info : t'.cls ≠ info.cls

namespace Apart

variable {t t' : Table}

theorem cls (h : Apart t t') : t'.cls ≠ t.cls := fun hEq => h.name (congrArg Text.cString hEq)

end Apart

section Unique

variable {p : Program} {db db' : Sql.Db} {i i' : Sql.Table}

theorem Program.View.unique (h : View p db) (h' : View p db') : db = db' :=
  Except.ok.inj (h.pending.symm.trans h'.pending)

theorem InfoTable.unique (h : InfoTable p db i) (h' : InfoTable p db i') : i = i' := by
  rcases h with hHolds | ⟨-, hNone, rfl⟩ <;> rcases h' with hHolds' | ⟨-, hNone', rfl⟩
  · exact Option.some.inj (hHolds.table.symm.trans hHolds'.table)
  · have hTable := hHolds.table
    rw [hNone'] at hTable
    cases hTable
  · have hTable := hHolds'.table
    rw [hNone] at hTable
    cases hTable
  · rfl

end Unique

/-- Writing to an object that is new changes nothing old. -/
theorem Frame.wroteNew {p q r : Program} (h : Frame p q) {a : Nat} {o : Object} (hWrote : Wrote q r a o)
    (ha : p.store.next ≤ a) : Frame p r where
  floatText := hWrote.floatText.trans h.floatText
  next := h.next.trans hWrote.next
  objects := by
    intro b hb
    rw [hWrote.others b (Nat.lt_of_lt_of_le hb h.next) (by omega), h.objects b hb]

namespace Openable

variable {t t' : Table} {p q : Program} {u' : Sql.Table} {db db' : Sql.Db} {i i' : Sql.Table}

theorem view (h : Openable t' p u') : ∃ db, View p db := by
  cases h with
  | ready db _ hView _ => exact ⟨db, hView⟩
  | same db _ _ hView _ _ _ _ => exact ⟨db, hView⟩
  | fresh db _ _ hView _ _ _ _ _ _ _ => exact ⟨db, hView⟩

/-- Another table has been opened: its tables and `SQLTable` may have changed, the record of the
class has not. -/
theorem opened (h : Openable t' p u') (hApart : Apart t t') (hView : View p db)
    (hInfo : InfoTable p db i) (hViewQ : View q db')
    (hReg : q.registered = ((p.register t.cls).register info.cls).registered)
    (hDb : ∀ name, name ≠ t.cls → name ≠ info.cls → db' name = db name) (hInfo' : Holds db' info i')
    (hRec : recorded i' t'.cls = recorded i t'.cls)
    (hSeq : p.registered t'.cls = false → recorded i t'.cls ≠ t'.version → i.seq < 2 ^ 31 →
      i'.seq < 2 ^ 31) : Openable t' q u' := by
  have hCls : db' t'.cls = db t'.cls := hDb _ hApart.cls hApart.info
  have hSame : q.registered t'.cls = p.registered t'.cls := by
    rw [hReg, register_of_ne _ hApart.info, register_of_ne _ hApart.cls]
  cases h with
  | ready db₂ hReg₂ hView₂ hHolds =>
    obtain rfl := hView.unique hView₂
    exact .ready db' (hSame.trans hReg₂) hViewQ ⟨hCls.trans hHolds.table, hHolds.columns⟩
  | same db₂ i₂ hReg₂ hView₂ hInfo₂ hNe hVer hTable =>
    obtain rfl := hView.unique hView₂
    obtain rfl := hInfo.unique hInfo₂
    refine .same db' i' (hSame.trans hReg₂) hViewQ (.inl hInfo') hNe (hRec.trans hVer) ?_
    rcases hTable with hHolds | ⟨hNone, hEmpty⟩
    · exact .inl ⟨hCls.trans hHolds.table, hHolds.columns⟩
    · exact .inr ⟨hCls.trans hNone, hEmpty⟩
  | fresh db₂ i₂ hReg₂ hView₂ hInfo₂ hNe hVer hSeq₂ hNone hTemp hTable =>
    obtain rfl := hView.unique hView₂
    obtain rfl := hInfo.unique hInfo₂
    refine .fresh db' i' (hSame.trans hReg₂) hViewQ (.inl hInfo') hNe ?_ (hSeq hReg₂ hVer hSeq₂)
      (hCls.trans hNone) ?_ hTable
    · rw [hRec]
      exact hVer
    · rw [hDb _ hApart.temp (tempName_ne_info t')]
      exact hTemp

/-- The table of another class has changed. -/
theorem put (h : Openable t' p u') (hApart : Apart t t') (hCls : t.cls ≠ info.cls)
    (hReg : q.registered = p.registered) (hView : View p db) {v : Option Sql.Table}
    (hViewQ : View q (Function.update db t.cls v)) : Openable t' q u' := by
  have hKeep : ∀ name, name ≠ t.cls → Function.update db t.cls v name = db name :=
    fun name hNe => Function.update_of_ne hNe _ _
  have hInfo : ∀ i, InfoTable p db i → InfoTable q (Function.update db t.cls v) i := by
    rintro i (hHolds | ⟨hNot, hNone, hEmpty⟩)
    · exact .inl ⟨(hKeep _ hCls.symm).trans hHolds.table, hHolds.columns⟩
    · exact .inr ⟨by rw [hReg]; exact hNot, (hKeep _ hCls.symm).trans hNone, hEmpty⟩
  cases h with
  | ready db₂ hReg₂ hView₂ hHolds =>
    obtain rfl := hView.unique hView₂
    exact .ready _ (by rw [hReg]; exact hReg₂) hViewQ
      ⟨(hKeep _ hApart.cls).trans hHolds.table, hHolds.columns⟩
  | same db₂ i₂ hReg₂ hView₂ hInfo₂ hNe hVer hTable =>
    obtain rfl := hView.unique hView₂
    refine .same _ i₂ (by rw [hReg]; exact hReg₂) hViewQ (hInfo i₂ hInfo₂) hNe hVer ?_
    rw [hKeep _ hApart.cls]
    exact hTable.imp_left fun hHolds => ⟨(hKeep _ hApart.cls).trans hHolds.table, hHolds.columns⟩
  | fresh db₂ i₂ hReg₂ hView₂ hInfo₂ hNe hVer hSeq₂ hNone hTemp hTable =>
    obtain rfl := hView.unique hView₂
    exact .fresh _ i₂ (by rw [hReg]; exact hReg₂) hViewQ (hInfo i₂ hInfo₂) hNe hVer hSeq₂
      ((hKeep _ hApart.cls).trans hNone) ((hKeep _ hApart.temp).trans hTemp) hTable

end Openable

/-- If the class is in use, the file records its version, or what `%f` made of it. -/
def Logged (t : Table) (p : Program) : Prop :=
  p.registered t.cls = true → ∃ db i, View p db ∧ Holds db info i ∧
    (recorded i t.cls = t.version ∨ recorded i t.cls = p.floatText t.version)

namespace Logged

variable {t : Table} {p q : Program}

theorem of_view (h : Logged t p) (hText : q.floatText = p.floatText)
    (hReg : q.registered = p.registered) (hView : ∀ db, View p db → View q db) : Logged t q := by
  intro hUsed
  rw [hReg] at hUsed
  obtain ⟨db, i, hV, hHolds, hVer⟩ := h hUsed
  exact ⟨db, i, hView db hV, hHolds, by rwa [hText]⟩

/-- The table of a class has changed. -/
theorem put (h : Logged t p) (hText : q.floatText = p.floatText) (hReg : q.registered = p.registered)
    {db : Sql.Db} (hView : View p db) {cls : String} (hCls : cls ≠ info.cls) {v : Option Sql.Table}
    (hViewQ : View q (Function.update db cls v)) : Logged t q := by
  intro hUsed
  rw [hReg] at hUsed
  obtain ⟨db₂, i, hV, hHolds, hVer⟩ := h hUsed
  obtain rfl := hView.unique hV
  refine ⟨_, i, hViewQ, ⟨?_, hHolds.columns⟩, by rwa [hText]⟩
  rw [Function.update_of_ne hCls.symm]
  exact hHolds.table

end Logged

/-- Two classes can be used. While neither is registered there is room for the records of both, as far
as they are needed. -/
structure Both (t t' : Table) (p : Program) (u u' : Sql.Table) : Prop where
  left : Openable t p u
  right : Openable t' p u'
  logged : Logged t p
  logged' : Logged t' p
  room : p.registered t.cls = true ∨ p.registered t'.cls = true ∨
    ∀ db i, View p db → InfoTable p db i → recorded i t.cls ≠ t.version →
      recorded i t'.cls ≠ t'.version → i.seq + 1 < 2 ^ 31

namespace Both

variable {t t' : Table} {p q : Program} {u u' : Sql.Table}

theorem symm (h : Both t t' p u u') : Both t' t p u' u := by
  refine ⟨h.right, h.left, h.logged', h.logged, ?_⟩
  rcases h.room with hReg | hReg | hRoom
  · exact .inr (.inl hReg)
  · exact .inl hReg
  · exact .inr (.inr fun db i hView hInfo hVer hVer' => hRoom db i hView hInfo hVer' hVer)

/-- What does not touch the queue or the file keeps both tables. -/
theorem of_view (h : Both t t' p u u') (hText : q.floatText = p.floatText)
    (hReg : q.registered = p.registered) (hView : ∀ db, View p db → View q db) :
    Both t t' q u u' := by
  refine ⟨h.left.of_view hReg hView, h.right.of_view hReg hView, h.logged.of_view hText hReg hView,
    h.logged'.of_view hText hReg hView, ?_⟩
  rw [hReg]
  refine h.room.imp_right (Or.imp_right fun hRoom db i hV hInfo => ?_)
  obtain ⟨db', hV'⟩ := h.left.view
  obtain rfl := hV.unique (hView db' hV')
  refine hRoom db i hV' ?_
  rwa [InfoTable, ← hReg]

theorem modify (h : Both t t' p u u') (a : Nat) (f : Object → Object) :
    Both t t' (p.modify a f) u u' := h.of_view rfl rfl fun _ hView => hView.modify a f

/-- A timer keeps both tables and the objects. -/
theorem fire (h : Both t t' p u u') : ∃ q, p.fire = .ok q ∧ Both t t' q u u' ∧
    q.floatText = p.floatText ∧ q.store.objects = p.store.objects ∧
    q.store.next = p.store.next := by
  obtain ⟨db, hView⟩ := h.left.view
  obtain ⟨d, hRun, -, hObjects, hNext⟩ := hView.fire
  refine ⟨_, hRun, h.of_view rfl rfl ?_, rfl, hObjects, hNext⟩
  intro db' hView'
  obtain ⟨d', hRun', hAfter, -⟩ := hView'.fire
  rw [hRun] at hRun'
  obtain rfl : d = d' := congrArg Program.database (Except.ok.inj hRun')
  exact hAfter

/-- Opening the first table. -/
theorem checkTable (h : Both t t' p u u') (hApart : Apart t t') (hCls : t.cls ≠ info.cls)
    (hColumns : t.Columns) :
    ∃ q db, Model.checkTable t p = .ok q ∧ View q db ∧ Holds db t u ∧
      q.registered t.cls = true ∧ Frame p q ∧ Openable t' q u' ∧ Logged t q ∧ Logged t' q := by
  obtain ⟨q, db', hRun, hViewQ, hHoldsQ, hRegQ, hFrame⟩ := checkTable_open hColumns h.left
  refine ⟨q, db', hRun, hViewQ, hHoldsQ, hRegQ, hFrame, ?_⟩
  -- the record of the other class, when that of this one has been written
  have hOther : ∀ {db db' : Sql.Db} {i i' : Sql.Table}, View p db → InfoTable p db i →
      View q db' → q.registered = ((p.register t.cls).register info.cls).registered →
      Holds db' info i' → recorded i' t'.cls = recorded i t'.cls → Logged t' q := by
    intro db db' i i' hView hInfo hViewQ hReg hHolds hRec hUsed
    rw [hReg, register_of_ne _ hApart.info, register_of_ne _ hApart.cls] at hUsed
    obtain ⟨db₂, i₂, hView₂, hHolds₂, hVer⟩ := h.logged' hUsed
    obtain rfl := hView.unique hView₂
    obtain rfl := hInfo.unique (.inl hHolds₂)
    exact ⟨db', i', hViewQ, hHolds, by rwa [hRec, hFrame.floatText]⟩
  have hPutInfo : ∀ db i, InfoTable p db i → InfoTable (p.register t.cls) db i := by
    intro db i hInfo
    rwa [InfoTable, register_of_ne p hCls.symm]
  have hInfoHolds : ∀ db i, InfoTable p db i → i.columns = columns info := by
    rintro db i (hHolds | ⟨-, -, rfl⟩)
    · exact hHolds.columns
    · rfl
  have hKeep : ∀ (db : Sql.Db) i name, name ≠ t.cls → name ≠ info.cls →
      created t (Function.update db info.cls (some i)) name = db name := by
    intro db i name hNe hNe'
    rw [created_of_ne t _ hNe, Function.update_of_ne hNe']
  have hHoldsInfo : ∀ (db : Sql.Db) i, i.columns = columns info →
      Holds (created t (Function.update db info.cls (some i))) info i := by
    intro db i hI
    refine ⟨?_, hI⟩
    rw [created_of_ne t _ hCls.symm]
    exact Function.update_self ..
  cases h.left with
  | ready db hReg hView hHolds =>
    rw [Model.checkTable, if_pos hReg] at hRun
    obtain rfl := Except.ok.inj hRun
    exact ⟨h.right, h.logged, h.logged'⟩
  | same db i hReg hView hInfo _ hVer hTable =>
    obtain ⟨r, hProcess, hViewR, -, hRegR⟩ :=
      processTable_same (hView.register t.cls) (hPutInfo db i hInfo) hColumns hVer
    rw [Model.checkTable, hReg] at hRun
    obtain rfl : q = r := Except.ok.inj (hRun.symm.trans hProcess)
    have hHoldsI := hHoldsInfo db i (hInfoHolds db i hInfo)
    exact ⟨h.right.opened hApart hView hInfo hViewR hRegR (hKeep db i) hHoldsI rfl
        fun _ _ hSeq => hSeq,
      fun _ => ⟨_, i, hViewR, hHoldsI, .inl hVer⟩, hOther hView hInfo hViewR hRegR hHoldsI rfl⟩
  | fresh db i hReg hView hInfo _ hVer hSeq hNone hTemp hTable =>
    obtain ⟨r, i', hProcess, hQuiet, hPending, -, hRegR, hColumnsI, hRecord, hRecorded⟩ :=
      processTable_other (hView.register t.cls) (hPutInfo db i hInfo) hSeq hColumns hCls hVer
    have hRenamed : renamed t (Function.update db info.cls (some i)) =
        Function.update db info.cls (some i) := by
      simp only [renamed, Function.update_of_ne hCls, hNone]
    rw [hRenamed] at hPending
    obtain ⟨after, hAfter⟩ : ∃ after, after = Function.update
      (created t (Function.update db info.cls (some i))) info.cls (some i') := ⟨_, rfl⟩
    have hNoTemp : after (tempName t) = none := by
      rw [hAfter, Function.update_of_ne (tempName_ne_info t),
        hKeep db i _ (tempName_ne_cls t) (tempName_ne_info t), hTemp]
    rw [← hAfter, apply_copy_none hNoTemp] at hPending
    rw [Model.checkTable, hReg] at hRun
    obtain rfl : q = r := Except.ok.inj (hRun.symm.trans hProcess)
    have hViewA : View q after := ⟨hQuiet, hPending.trans (apply_drop_none hNoTemp)⟩
    have hHoldsI : Holds after info i' := by
      refine ⟨?_, hColumnsI⟩
      rw [hAfter]
      exact Function.update_self ..
    refine ⟨h.right.opened hApart hView hInfo hViewA hRegR (fun name hNe hNe' => ?_) hHoldsI
        (hRecorded.others _ hApart.name) fun hReg' hVer' _ => ?_,
      fun _ => ⟨after, i', hViewA, hHoldsI, .inr ?_⟩,
      hOther hView hInfo hViewA hRegR hHoldsI (hRecorded.others _ hApart.name)⟩
    · rw [hAfter, Function.update_of_ne hNe', hKeep db i name hNe hNe']
    · have hRoom : i.seq + 1 < 2 ^ 31 := by
        rcases h.room with hBusy | hBusy | hRoom
        · rw [hReg] at hBusy
          cases hBusy
        · rw [hReg'] at hBusy
          cases hBusy
        · exact hRoom db i hView hInfo hVer hVer'
      exact Nat.lt_of_le_of_lt hRecorded.seq hRoom
    · rw [hRecord, hFrame.floatText]
      rfl

/-- After the first table was opened and the program has gone on without it, both can be used. -/
theorem of_opened {q₁ : Program} {db : Sql.Db} {v : Sql.Table} (hOpen : Openable t q v)
    (hOther : Openable t' q₁ u' ∧ Logged t q₁ ∧ Logged t' q₁) (hApart : Apart t t')
    (hCls : t.cls ≠ info.cls) (hView : View q₁ db) (hReg₁ : q₁.registered t.cls = true)
    (hReg : q.registered = q₁.registered) (hText : q.floatText = q₁.floatText)
    {w : Option Sql.Table} (hViewQ : View q (Function.update db t.cls w)) : Both t t' q v u' :=
  ⟨hOpen, hOther.1.put hApart hCls hReg hView hViewQ, hOther.2.1.put hText hReg hView hCls hViewQ,
    hOther.2.2.put hText hReg hView hCls hViewQ, .inl (by rw [hReg]; exact hReg₁)⟩

/-- `T::query()`, a chain of calls that leads to `q`, and `results()`. -/
theorem results (h : Both t t' p u u') (hApart : Apart t t') (hCls : t.cls ≠ info.cls)
    (hColumns : t.Columns) {q : Query} {conds : List Condition} (hTable : q.table = t)
    (hChanged : q.changed = true) (hBuilt : q.Built conds) (hAccepted : q.Accepted conds u) :
    ∃ p₁ p₂ q', Model.query t p = .ok (p₁, .ofTable t) ∧ q.res p₁ = .ok (p₂, q') ∧
      Both t t' p₂ u u' ∧ Frame p p₂ ∧
      q'.results.map p₂.object = (q.selected conds u).map (rowObject t u) ∧
      q'.results.Nodup ∧ ∀ a ∈ q'.results, p.store.next ≤ a ∧ a < p₂.store.next := by
  obtain ⟨p₁, p₂, q', hQuery, hRes, hOpen, hFrame, hObjects, hLt⟩ :=
    results_open hColumns h.left hTable hChanged hBuilt hAccepted
  obtain ⟨q₁, db, hCheck, hView, hHolds, hReg, hOpened, hOther⟩ := h.checkTable hApart hCls hColumns
  have hSame : p₁ = q₁ := by
    rw [Model.query, hCheck] at hQuery
    exact (Prod.mk.inj (Except.ok.inj hQuery)).1.symm
  subst hSame
  obtain ⟨d, hRun, hViewD, -⟩ := hView.res hChanged
  obtain ⟨rfl, rfl⟩ := Prod.mk.inj (Except.ok.inj (hRes.symm.trans hRun))
  have hPut : View { p₁ with database := d } (Function.update db t.cls (some u)) := by
    rw [← hHolds.table, Function.update_eq_self]
    exact hViewD
  refine ⟨p₁, _, _, hQuery, hRes, of_opened hOpen hOther hApart hCls hView hReg rfl rfl hPut, hFrame,
    hObjects, List.nodup_range', fun a ha => ⟨?_, hLt a ha⟩⟩
  have hFrom : p₁.store.next ≤ a := (List.mem_range'_1.mp ha).1
  exact Nat.le_trans hOpened.next hFrom

/-- `Model<T>::find`. -/
theorem find (h : Both t t' p u u') (hApart : Apart t t') (hCls : t.cls ≠ info.cls)
    (hColumns : t.Columns) (id : Int32) :
    ∃ q b, Model.find t id p = .ok (q, b) ∧ Both t t' q u u' ∧ Frame p q ∧
      b.map q.object = (u.byKey id.toInt).map (rowObject t u) := by
  obtain ⟨q, b, hFind, hOpen, hFrame, hObject⟩ := find_open hColumns h.left id
  obtain ⟨p₁, db, hCheck, hView, hHolds, hReg, -, hOther⟩ := h.checkTable hApart hCls hColumns
  obtain ⟨query, hQuery⟩ : ∃ query : Query, query = { (Query.ofTable t).equal Field.identifier.name
    (.int id.toInt) with limit := 1 } := ⟨_, rfl⟩
  obtain ⟨d, hRun, hViewD, -⟩ := hView.res (q := query) (by rw [hQuery]; rfl)
  have hSame : q = { p₁ with database := d } := by
    unfold Model.find Model.query at hFind
    rw [hCheck] at hFind
    simp only [Transition.ok_bind] at hFind
    have hFind : (query.res p₁ >>= fun x => pure (x.1, x.2.results.head?)) = .ok (q, b) := by
      rw [hQuery]
      exact hFind
    rw [hRun] at hFind
    exact (Prod.mk.inj (Except.ok.inj hFind)).1.symm
  subst hSame
  have hPut : View { p₁ with database := d } (Function.update db t.cls (some u)) := by
    rw [← hHolds.table, Function.update_eq_self]
    exact hViewD
  exact ⟨_, b, hFind, of_opened hOpen hOther hApart hCls hView hReg rfl rfl hPut, hFrame, hObject⟩

/-- `Model<T>::remove`. -/
theorem remove (h : Both t t' p u u') (hApart : Apart t t') (hCls : t.cls ≠ info.cls)
    (hColumns : t.Columns) {a : Nat} (ha : a < p.store.next) :
    ∃ q, Model.remove t a p = .ok q ∧ Both t t' q (deleted (p.object a).identifier u) u' ∧
      Wrote p q a ((p.object a).setIdentifier (-1)) := by
  obtain ⟨q, hRemove, hOpen, hWrote⟩ := remove_open hColumns h.left ha
  obtain ⟨p₁, db, hCheck, hView, hHolds, hReg, -, hOther⟩ := h.checkTable hApart hCls hColumns
  obtain ⟨d, hRun, hViewD, -⟩ := hView.remove (a := a) hHolds
  have hSame : q = { p₁ with database := d } := by
    rw [Model.remove, hCheck] at hRemove
    exact Except.ok.inj (hRemove.symm.trans hRun)
  subst hSame
  exact ⟨_, hRemove, of_opened hOpen hOther hApart hCls hView hReg rfl rfl hViewD, hWrote⟩

/-- `Model<T>::save`: the object at `a` gets its identifier, and nothing else changes in memory. -/
theorem save (h : Both t t' p u u') (hApart : Apart t t') (hCls : t.cls ≠ info.cls)
    (hColumns : t.Columns) (hStored : t.stored ≠ []) {a : Nat} (ha : a < p.store.next) :
    ∃ q o, Model.save t a p = .ok q ∧ Both t t' q (saved p.floatText t (p.object a) u) u' ∧
      Wrote p q a o ∧ o.identifier = savedIdentifier (p.object a) u ∧
      ∀ f ∈ t.stored, o.get f = (p.object a).get f := by
  by_cases hChanged : (p.object a).changed = true
  · obtain ⟨p₁, db, hCheck, hView, hHolds, hReg, hFrame, hOther⟩ := h.checkTable hApart hCls hColumns
    have hSame : p₁.object a = p.object a := hFrame.objects a ha
    obtain ⟨q, hSave, hOpen, hIdentifier, hFields⟩ := save_open hColumns hStored h.left ha
    have hRun : SQLite.update t a p₁ = .ok q := by
      rw [Model.save, if_pos hChanged, hCheck] at hSave
      exact hSave
    by_cases hId : (p.object a).identifier = -1
    · by_cases hSeq : u.seq < Sql.maxRowid
      · obtain ⟨d, hRun', hViewD, hObjects, hNext⟩ :=
          hView.insert hHolds hColumns hStored hSeq (hSame ▸ hId)
        obtain rfl := Except.ok.inj (hRun.symm.trans hRun')
        have hWrote := hFrame.wrote hObjects hNext
        refine ⟨_, _, hSave, of_opened hOpen hOther hApart hCls hView hReg rfl rfl hViewD, hWrote, ?_, ?_⟩
        · rw [← hWrote.object]
          exact hIdentifier
        · rw [← hWrote.object]
          exact hFields
      · obtain ⟨d, hRun', hViewD, hObjects, hNext⟩ :=
          hView.insert_full hHolds hColumns hStored hSeq (hSame ▸ hId)
        obtain rfl := Except.ok.inj (hRun.symm.trans hRun')
        have hWrote := hFrame.wrote hObjects hNext
        have hPut : View { p₁ with database := d } (Function.update db t.cls (some u)) := by
          rw [← hHolds.table, Function.update_eq_self]
          exact hViewD
        refine ⟨_, _, hSave, of_opened hOpen hOther hApart hCls hView hReg rfl rfl hPut, hWrote, ?_, ?_⟩
        · rw [← hWrote.object]
          exact hIdentifier
        · rw [← hWrote.object]
          exact hFields
    · obtain ⟨d, hRun', hViewD, hStore⟩ := hView.update hHolds hColumns hStored (hSame ▸ hId)
      obtain rfl := Except.ok.inj (hRun.symm.trans hRun')
      have hFrame' : Frame p { p₁ with database := d } := hFrame.trans (.of_store rfl hStore)
      refine ⟨_, _, hSave, of_opened hOpen hOther hApart hCls hView hReg rfl rfl hViewD,
        ⟨hFrame'.floatText, hFrame'.next, rfl, fun b hb _ => hFrame'.objects b hb⟩, hIdentifier,
        hFields⟩
  · refine ⟨p, p.object a, if_neg hChanged, ?_, ⟨rfl, Nat.le_refl _, rfl, fun _ _ _ => rfl⟩, ?_,
      fun _ _ => rfl⟩
    · rw [saved, if_neg hChanged]
      exact h
    · rw [savedIdentifier, if_neg fun hBoth => hChanged hBoth.1]

/-- On a new file any two classes can be used. -/
theorem install (objects : Nat → Object) (floatText : Rat → Rat) {t t' : Table}
    (hCls : t.cls ≠ info.cls) (hCls' : t'.cls ≠ info.cls) :
    Both t t' (Program.install objects floatText) (.empty (columns t)) (.empty (columns t')) := by
  refine ⟨install_openable objects floatText hCls, install_openable objects floatText hCls',
    fun hUsed => (by cases hUsed), fun hUsed => (by cases hUsed),
    .inr (.inr fun db i hView hInfo _ _ => ?_)⟩
  obtain rfl := hView.unique (boot_view (fun _ => none) objects floatText)
  rcases hInfo with hHolds | ⟨-, -, rfl⟩
  · exact absurd hHolds.table.symm (Option.some_ne_none i)
  · exact (by decide : 0 + 1 < 2 ^ 31)

end Both

/-! ## Starting again -/

section Boot

variable {t t' : Table} {p : Program} {u u' : Sql.Table} {db : Sql.Db} {i : Sql.Table}

theorem InfoTable.boot (h : InfoTable p db i) (objects : Nat → Object) (floatText : Rat → Rat) :
    InfoTable (Program.boot db objects floatText) db i :=
  h.imp_right fun hNone => ⟨rfl, hNone.2⟩

/-- A table can be used again when the program starts on the file that another run left after its queue
was drained, if `%f` keeps the version. -/
theorem Openable.boot (h : Openable t p u) (hLogged : Logged t p) (hCls : t.cls ≠ info.cls)
    (hView : View p db) (hText : p.floatText t.version = t.version) (objects : Nat → Object)
    (floatText : Rat → Rat) : Openable t (Program.boot db objects floatText) u := by
  have hBoot := boot_view db objects floatText
  cases h with
  | ready db₂ hReg hView₂ hHolds =>
    obtain rfl := hView.unique hView₂
    obtain ⟨db₃, i, hView₃, hInfo, hVer⟩ := hLogged hReg
    obtain rfl := hView.unique hView₃
    rw [hText, or_self] at hVer
    exact .same _ i rfl hBoot (.inl hInfo) hCls hVer (.inl hHolds)
  | same db₂ i hReg hView₂ hInfo _ hVer hTable =>
    obtain rfl := hView.unique hView₂
    exact .same _ i rfl hBoot (hInfo.boot objects floatText) hCls hVer hTable
  | fresh db₂ i hReg hView₂ hInfo _ hVer hSeq hNone hTemp hTable =>
    obtain rfl := hView.unique hView₂
    exact .fresh _ i rfl hBoot (hInfo.boot objects floatText) hCls hVer hSeq hNone hTemp hTable

/-- Two classes can be used again. -/
theorem Both.boot (h : Both t t' p u u') (hCls : t.cls ≠ info.cls) (hCls' : t'.cls ≠ info.cls)
    (hViewP : View p db) (hText : p.floatText t.version = t.version)
    (hText' : p.floatText t'.version = t'.version) (objects : Nat → Object)
    (floatText : Rat → Rat) : Both t t' (Program.boot db objects floatText) u u' := by
  refine ⟨h.left.boot h.logged hCls hViewP hText objects floatText,
    h.right.boot h.logged' hCls' hViewP hText' objects floatText, fun hUsed => (by cases hUsed),
    fun hUsed => (by cases hUsed), .inr (.inr fun db₁ i hView hInfo hVer hVer' => ?_)⟩
  obtain rfl := hView.unique (boot_view db objects floatText)
  have hInfoOf : ∀ {j}, InfoTable p db₁ j → j = i := fun hInfoP =>
    (hInfoP.boot objects floatText).unique hInfo
  have hUnused : ∀ {c : Table}, Logged c p → p.floatText c.version = c.version →
      recorded i c.cls ≠ c.version → p.registered c.cls ≠ true := by
    intro c hLogged hTextC hVerC hReg
    obtain ⟨db₂, j, hView₂, hHolds, hVerJ⟩ := hLogged hReg
    obtain rfl := hViewP.unique hView₂
    obtain rfl := hInfoOf (.inl hHolds)
    rw [hTextC, or_self] at hVerJ
    exact hVerC hVerJ
  have hRoom := (h.room.resolve_left (hUnused h.logged hText hVer)).resolve_left
    (hUnused h.logged' hText' hVer')
  have hInfoP : ∃ j, InfoTable p db₁ j := by
    cases h.left with
    | ready _ hReg _ _ => exact absurd hReg (hUnused h.logged hText hVer)
    | same db₂ j _ hView₂ hInfoJ _ _ _ =>
      obtain rfl := hViewP.unique hView₂
      exact ⟨j, hInfoJ⟩
    | fresh db₂ j _ hView₂ hInfoJ _ _ _ _ _ _ =>
      obtain rfl := hViewP.unique hView₂
      exact ⟨j, hInfoJ⟩
  obtain ⟨j, hInfoJ⟩ := hInfoP
  obtain rfl := hInfoOf hInfoJ
  exact hRoom _ _ hViewP hInfoJ hVer hVer'

end Boot

/-- A program has one table for a class. -/
theorem Openable.unique {t : Table} {p : Program} {u v : Sql.Table} (h : Openable t p u)
    (h' : Openable t p v) : u = v := by
  rcases h.table with hSome | ⟨hNone, hEmpty⟩ <;> rcases h'.table with hSome' | ⟨hNone', hEmpty'⟩
  · exact Option.some.inj (hSome.symm.trans hSome')
  · rw [hNone'] at hSome
    cases hSome
  · rw [hNone] at hSome'
    cases hSome'
  · rw [hEmpty, hEmpty']

/-- On a new file a table is empty. -/
theorem Openable.install_eq {objects : Nat → Object} {floatText : Rat → Rat} {t : Table}
    {u : Sql.Table} (h : Openable t (Program.install objects floatText) u) :
    u = .empty (SQLite.columns t) := by
  have hView : View (Program.install objects floatText) (fun _ => none) := boot_view ..
  rcases h.table with hSome | ⟨-, hEmpty⟩
  · rw [hView.table] at hSome
    cases hSome
  · exact hEmpty

end RetroConfig
