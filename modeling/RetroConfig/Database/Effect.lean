import RetroConfig.Database.Query

/-!
# What the operations do to the database

Statements without a result stay in the queue, so the database file lags behind the program.
`View p db` says what the file will be once the queue is drained; every query sees this
database, since `exce` drains the queue first. The results below describe each operation by
its effect on the view and on the objects:

* `View.exce`, `View.queueExce`, `View.fire`: the three ways into the queue;
* `View.insert`, `View.update`, `View.remove`: saving and removing an object;
* `View.find`: the objects a query makes from the rows it selects.
-/

namespace RetroConfig

open SQLite

/-! ## The drained database -/

namespace QueueItem

/-- The callback touches no object that the program can see. -/
def deferred (i : QueueItem) : Bool :=
  match i.callback with
  | .none => true
  | .copyRows _ => true
  | _ => false

/-- What a deferred item does to the database file. -/
def apply (i : QueueItem) (db : Sql.Db) : Except Fault Sql.Db :=
  match Sql.prepare db (bound i.params) i.statement with
  | none => .ok db
  | some stmt =>
    match i.callback with
    | .copyRows t => if (copied t stmt.columns).changed then .error .relock else .ok db
    | _ => .ok stmt.db

theorem action_eq {i : QueueItem} (h : i.deferred = true) (st : Store) :
    action i st = (i.apply st.db).map (fun db => { st with db := db }) := by
  obtain ⟨statement, params, callback⟩ := i
  unfold action apply
  cases Sql.prepare st.db (bound params) statement with
  | none => rfl
  | some stmt =>
    cases callback with
    | none => rfl
    | find t => cases h
    | setIdentifier a => cases h
    | copyRows t =>
      dsimp only
      split <;> rfl

theorem foldlM_action {items : List QueueItem} (h : ∀ i ∈ items, i.deferred = true) (st : Store) :
    items.foldlM (fun st i => action i st) st =
      (items.foldlM (fun db (i : QueueItem) => i.apply db) st.db).map (fun db => { st with db := db }) := by
  induction items generalizing st with
  | nil => rfl
  | cons i items ih =>
    rw [List.foldlM_cons, List.foldlM_cons, action_eq (h i List.mem_cons_self)]
    cases i.apply st.db with
    | error e => rfl
    | ok db => exact ih (fun j hj => h j (List.mem_cons_of_mem i hj)) { st with db := db }

end QueueItem

namespace Program

/-- The database file once the queue is drained. -/
def pending (p : Program) : Except Fault Sql.Db :=
  p.database.queue.foldlM (fun db i => i.apply db) p.store.db

/-- No critical section is running, and the queue holds deferred items only. -/
structure Quiet (p : Program) : Prop where
  idle : p.database.Idle
  deferred : ∀ i ∈ p.database.queue, i.deferred = true

theorem Quiet.drain {p : Program} (h : Quiet p) :
    p.database.drain action = p.pending.map (fun db => { p.store with db := db }) :=
  QueueItem.foldlM_action h.deferred p.store

/-- A quiet program whose file will be `db`. -/
structure View (p : Program) (db : Sql.Db) : Prop extends Quiet p where
  pending : p.pending = .ok db

/-- Objects do not matter to the queue. -/
theorem View.setStore {p : Program} {db : Sql.Db} (h : View p db) {st : Store}
    (hDb : st.db = p.store.db) : View (p.setStore st) db where
  idle := ⟨h.idle.mtx, h.idle.db⟩
  deferred := h.deferred
  pending := by
    rw [← h.pending]
    unfold Program.pending Program.setStore Program.store
    rw [hDb]
    rfl

theorem View.modify {p : Program} {db : Sql.Db} (h : View p db) (a : Nat) (f : Object → Object) :
    View (p.modify a f) db := h.setStore rfl

theorem View.drained {p : Program} (h : Quiet p) (timers : Nat) (st : Store) :
    View { p with database := { p.database with timers := timers }.drained st } st.db where
  idle := ⟨h.idle.mtx, h.idle.db⟩
  deferred := fun i hi => by cases hi
  pending := rfl

/-- `exce` runs its statement on the drained database. -/
theorem View.exce {p : Program} {db : Sql.Db} (h : View p db) {i : QueueItem} {st : Store}
    (hi : action i { p.store with db := db } = .ok st) :
    ∃ d, p.exce i = .ok { p with database := d } ∧ View { p with database := d } st.db ∧
      d.store = st := by
  refine ⟨p.database.drained st, ?_, View.drained h.toQuiet p.database.timers st, rfl⟩
  unfold Program.exce
  rw [Database.exce_eq action i h.idle, h.drain, h.pending]
  change ((action i { p.store with db := db }).map _ >>= _) = _
  rw [hi]
  rfl

theorem Quiet.queueExce {p : Program} (h : Quiet p) {i : QueueItem} (hi : i.deferred = true) :
    ∃ d, p.queueExce i = .ok { p with database := d } ∧ Quiet { p with database := d } ∧
      Program.pending { p with database := d } = p.pending >>= i.apply ∧ d.store = p.store := by
  refine ⟨(p.database.push i).onCheckAction, ?_, ⟨?_, ?_⟩, ?_, ?_⟩
  · unfold Program.queueExce
    rw [Database.queueExce_eq i h.idle]
    rfl
  · exact Database.onCheckAction_idle (Database.push_idle i h.idle)
  · intro j hj
    rw [Database.onCheckAction_queue] at hj
    rcases List.mem_append.mp hj with hOld | hNew
    · exact h.deferred j hOld
    · rw [List.mem_singleton.mp hNew]
      exact hi
  · simp [Program.pending, store, Database.push, List.foldlM_append]
  · exact Database.onCheckAction_store _

/-- `queueExce` leaves the objects alone and adds its statement to the view. -/
theorem View.queueExce {p : Program} {db db' : Sql.Db} (h : View p db) {i : QueueItem}
    (hi : i.deferred = true) (hDb : i.apply db = .ok db') :
    ∃ d, p.queueExce i = .ok { p with database := d } ∧ View { p with database := d } db' ∧
      d.store = p.store := by
  obtain ⟨d, hRun, hQuiet, hPending, hStore⟩ := h.toQuiet.queueExce hi
  refine ⟨d, hRun, ⟨hQuiet, ?_⟩, hStore⟩
  rw [hPending, h.pending]
  exact hDb

/-- A timer changes neither the view nor the objects. -/
theorem View.fire {p : Program} {db : Sql.Db} (h : View p db) :
    ∃ d, p.fire = .ok { p with database := d } ∧ View { p with database := d } db ∧
      d.store.objects = p.store.objects ∧ d.store.next = p.store.next := by
  by_cases hTimers : p.database.timers = 0
  · refine ⟨p.database, ?_, h, rfl, rfl⟩
    unfold Program.fire
    rw [Database.fire_eq action h.idle, if_pos hTimers]
    rfl
  · refine ⟨_, ?_, View.drained h.toQuiet (p.database.timers - 1) { p.store with db := db },
      rfl, rfl⟩
    unfold Program.fire
    rw [Database.fire_eq action h.idle, if_neg hTimers, h.drain, h.pending]
    rfl

end Program

/-! ## The table of a model -/

/-- The database has the table of the class, with the columns that `create` declares. -/
structure Holds (db : Sql.Db) (t : Table) (u : Sql.Table) : Prop where
  table : db t.cls = some u
  columns : u.columns = columns t

namespace Holds

variable {db : Sql.Db} {t : Table} {u : Sql.Table}

theorem names (h : Holds db t u) : u.names = t.fields.map Field.name := by
  rw [Sql.Table.names, h.columns, SQLite.columns, List.map_map]
  rfl

theorem isKey_iff (h : Holds db t u) (name : String) :
    u.isKey name = true ↔ name = Field.identifier.name := by
  simp only [Sql.Table.isKey, h.columns, SQLite.columns, List.any_map, List.any_eq_true,
    Function.comp_apply, column, Bool.and_eq_true, beq_iff_eq]
  constructor
  · intro hKey
    obtain ⟨f, hf, hPrimary, hName⟩ := hKey
    rw [← hName, t.primary f hf hPrimary]
  · intro hName
    exact ⟨.identifier, t.identifier_mem, rfl, hName.symm⟩

theorem cell_identifier (h : Holds db t u) (r : Sql.Row) :
    u.cell r Field.identifier.name = .int r.rowid := if_pos ((h.isKey_iff _).mpr rfl)

theorem cell_stored (h : Holds db t u) (r : Sql.Row) {f : Field} (hf : f ∈ t.stored) :
    u.cell r f.name = r.cells f.name :=
  if_neg (fun hKey => Table.stored_name_ne hf ((h.isKey_iff _).mp hKey))

theorem mem_names (h : Holds db t u) {f : Field} (hf : f ∈ t.fields) : f.name ∈ u.names := by
  rw [h.names]
  exact List.mem_map_of_mem hf

theorem affinity (h : Holds db t u) {f : Field} (hf : f ∈ t.fields) :
    u.affinity f.name = (column f).affinity := by
  have hFind : (t.fields.map column).find? (fun c => c.name == f.name) = some (column f) := by
    rw [List.find?_map]
    exact congrArg (Option.map column) (t.find?_name hf)
  rw [Sql.Table.affinity, h.columns, SQLite.columns, hFind]

/-- A condition on the identifier selects by rowid. -/
theorem satisfies_identifier (h : Holds db t u) (e : Sql.Expr) (n : Int) :
    u.satisfies [⟨Field.identifier.name, .compare .equal e⟩] [.int n] =
      fun r => decide ((r.rowid : Int) = n) := by
  have hAffinity : u.affinity Field.identifier.name = .integer := h.affinity t.identifier_mem
  funext r
  simp [Sql.Table.satisfies, Sql.Test.holds, Sql.Cond.values, Sql.Cmp.convert, Sql.Affinity.apply,
    hAffinity, h.cell_identifier]

end Holds

/-- The cells that saving an object writes. -/
def writes (floatText : Rat → Rat) (t : Table) (o : Object) : List (String × Sql.Cell) :=
  t.stored.map (fun f => (f.name, f.type.stored floatText (o.get f)))

theorem lookup_of_nodup {β : Type} (g : Field → β) {fs : List Field}
    (hNodup : (fs.map Field.name).Nodup) {f : Field} (hf : f ∈ fs) :
    (fs.map (fun f => (f.name, g f))).lookup f.name = some (g f) := by
  induction fs with
  | nil => cases hf
  | cons e fs ih =>
    rw [List.map_cons, List.nodup_cons] at hNodup
    rw [List.map_cons, List.lookup_cons]
    by_cases hName : f.name = e.name
    · have hSame : f = e := by
        rcases List.mem_cons.mp hf with hHead | hTail
        · exact hHead
        · exact absurd (hName ▸ List.mem_map_of_mem hTail) hNodup.1
      subst hSame
      simp
    · have hTail : f ∈ fs := by
        rcases List.mem_cons.mp hf with hHead | hTail
        · exact absurd (congrArg Field.name hHead) hName
        · exact hTail
      rw [beq_eq_false_iff_ne.mpr hName]
      exact ih hNodup.2 hTail

theorem Table.nodup_stored (t : Table) : (t.stored.map Field.name).Nodup :=
  t.nodup.sublist (List.filter_sublist.map _)

theorem assign_writes (floatText : Rat → Rat) {t : Table} (o : Object) (cells : String → Sql.Cell)
    {f : Field} (hf : f ∈ t.stored) :
    Sql.assign (writes floatText t o) cells f.name = f.type.stored floatText (o.get f) := by
  have hLookup := lookup_of_nodup (fun f => f.type.stored floatText (o.get f)) t.nodup_stored hf
  rw [Sql.assign, writes, hLookup]
  rfl

/-- The values written into a statement and the parameters bound to it are, taken together,
the cells of the fields in their order. -/
theorem bind_values (floatText : Rat → Rat) (o : Object) {fs : List Field}
    (h : ∀ f ∈ fs, f.type.isColumn = true) (es : List Sql.Expr) :
    Sql.bind (fs.map (fun f => f.type.expr floatText (o.get f)) ++ es)
        (bound (fs.filterMap (fun f => f.type.param (o.get f)))) =
      fs.map (fun f => f.type.stored floatText (o.get f)) ++ Sql.bind es [] := by
  induction fs with
  | nil => rfl
  | cons f fs ih =>
    have hTail := ih (fun g hg => h g (List.mem_cons_of_mem f hg))
    have hHead := h f List.mem_cons_self
    simp only [List.map_cons, List.cons_append, List.filterMap_cons]
    generalize o.get f = v
    generalize f.type = τ at v hHead
    cases τ with
    | blob => cases hHead
    | none => cases hHead
    | _ => exact congrArg _ hTail

theorem expr_ne_blank (floatText : Rat → Rat) {τ : FieldType} (h : τ.isColumn = true)
    (v : τ.Value) : τ.expr floatText v ≠ .blank := by
  cases τ with
  | blob => cases h
  | none => cases h
  | _ => exact fun hBlank => by cases hBlank

theorem Table.Columns.stored {t : Table} (h : t.Columns) : ∀ f ∈ t.stored, f.type.isColumn = true :=
  fun f hf => h f (Table.mem_stored.mp hf).1

/-- A row that is saved violates no `NOT NULL`. -/
theorem Holds.accepts {db : Sql.Db} {t : Table} {u : Sql.Table} (h : Holds db t u)
    (hColumns : t.Columns) (floatText : Rat → Rat) (o : Object) (cells : String → Sql.Cell) :
    u.accepts (Sql.assign (writes floatText t o) cells) = true := by
  rw [Sql.Table.accepts, h.columns, SQLite.columns, List.all_map, List.all_eq_true]
  intro f hf
  by_cases hId : f = .identifier
  · subst hId
    rfl
  · have hStored : f ∈ t.stored := Table.mem_stored.mpr ⟨hf, hId⟩
    have hCell := assign_writes floatText o cells hStored
    have hNull := FieldType.stored_ne_null floatText (hColumns f hf) (o.get f)
    simp [column, hCell, hNull]

/-! ## The statements of `SQLite::update` and `SQLite::remove` -/

section Statements

variable {db : Sql.Db} {t : Table} {u : Sql.Table}

/-- The table after an insert of the object. -/
def inserted (floatText : Rat → Rat) (t : Table) (o : Object) (u : Sql.Table) : Sql.Table :=
  u.insert (Sql.assign (writes floatText t o) (fun _ => .null))

/-- The table after an update of the row with key `id` from the object. -/
def updated (floatText : Rat → Rat) (t : Table) (o : Object) (id : Int32) (u : Sql.Table) :
    Sql.Table :=
  u.update (fun r => decide ((r.rowid : Int) = id.toInt)) (Sql.assign (writes floatText t o))

/-- The table after the row with key `id` was deleted. -/
def deleted (id : Int32) (u : Sql.Table) : Sql.Table :=
  u.delete (fun r => decide ((r.rowid : Int) = id.toInt))

theorem zip_map_append {α β γ : Type} (f : α → β) (g : α → γ) (l : List α) (rest : List γ) :
    (l.map f).zip (l.map g ++ rest) = l.map (fun x => (f x, g x)) := by
  induction l with
  | nil => simp
  | cons x l ih => simp [ih]

/-- An insert succeeds as long as there are rowids left. -/
theorem prepare_insert (p : Program) (h : Holds db t u) (hColumns : t.Columns)
    (hStored : t.stored ≠ []) (o : Object) :
    Sql.prepare db (bound (params t o)) (.insert t.cls (t.stored.map Field.name) (values p t o)) =
      some (if u.seq < Sql.maxRowid then
        ⟨Function.update db t.cls (some (inserted p.floatText t o u)), some (u.seq + 1), [], []⟩
      else .change db) := by
  have hBind := bind_values p.floatText o hColumns.stored []
  rw [List.append_nil, Sql.bind, List.append_nil] at hBind
  have hZip : (t.stored.map Field.name).zip (Sql.bind (values p t o) (bound (params t o))) =
      writes p.floatText t o := by
    have hMap := zip_map_append Field.name (fun f => f.type.stored p.floatText (o.get f)) t.stored []
    rw [values, params, hBind]
    rwa [List.append_nil] at hMap
  have hText : t.stored.map Field.name ≠ [] ∧ (∀ c ∈ t.stored.map Field.name, c ∈ u.names) ∧
      (t.stored.map Field.name).length = (values p t o).length ∧ .blank ∉ values p t o := by
    refine ⟨by simpa using hStored, ?_, by simp [values], ?_⟩
    · intro c hc
      obtain ⟨f, hf, rfl⟩ := List.mem_map.mp hc
      exact h.mem_names (Table.mem_stored.mp hf).1
    · intro hBlank
      obtain ⟨f, hf, hExpr⟩ := List.mem_map.mp hBlank
      exact expr_ne_blank _ (hColumns.stored f hf) _ hExpr
  simp only [Sql.prepare, h.table, Option.bind_eq_bind, Option.bind_some, Sql.prepareInsert]
  rw [if_pos hText, hZip]
  by_cases hSeq : u.seq < Sql.maxRowid
  · rw [if_pos ⟨h.accepts hColumns p.floatText o _, hSeq⟩, if_pos hSeq]
    rfl
  · rw [if_neg fun hBoth => hSeq hBoth.2, if_neg hSeq]

theorem prepare_update (p : Program) (h : Holds db t u) (hColumns : t.Columns)
    (hStored : t.stored ≠ []) (o : Object) (id : Int32) :
    Sql.prepare db (bound (params t o))
        (.update t.cls ((t.stored.map Field.name).zip (values p t o)) (whereIdentifier id)) =
      some (.change (Function.update db t.cls (some (updated p.floatText t o id u)))) := by
  have hPairs : (t.stored.map Field.name).zip (values p t o) =
      t.stored.map (fun f => (f.name, f.type.expr p.floatText (o.get f))) := by
    have hMap := zip_map_append Field.name (fun f => f.type.expr p.floatText (o.get f)) t.stored []
    rwa [List.append_nil] at hMap
  have hText : t.stored.map (fun f => (f.name, f.type.expr p.floatText (o.get f))) ≠ [] ∧
      (∀ a ∈ t.stored.map (fun f => (f.name, f.type.expr p.floatText (o.get f))),
        a.1 ∈ u.names ∧ a.2 ≠ .blank) ∧
      (∀ c ∈ [Sql.Cond.mk Field.identifier.name (.compare .equal (.int id.toInt))],
        c.column ∈ u.names ∧ .blank ∉ c.values) := by
    refine ⟨by simpa using hStored, ?_, ?_⟩
    · intro a ha
      obtain ⟨f, hf, rfl⟩ := List.mem_map.mp ha
      exact ⟨h.mem_names (Table.mem_stored.mp hf).1, expr_ne_blank _ (hColumns.stored f hf) _⟩
    · intro c hc
      obtain rfl := List.mem_singleton.mp hc
      exact ⟨h.mem_names t.identifier_mem, by simp [Sql.Cond.values]⟩
  have hBind := bind_values p.floatText o hColumns.stored [.int id.toInt]
  have hCond : Sql.conditions (whereIdentifier id) =
      some [⟨Field.identifier.name, .compare .equal (.int id.toInt)⟩] := rfl
  simp only [Sql.prepare, h.table, Option.bind_eq_bind, Option.bind_some, hCond,
    Sql.prepareUpdate, hPairs]
  rw [if_pos hText]
  have hSnd : (t.stored.map (fun f => (f.name, f.type.expr p.floatText (o.get f)))).map Prod.snd =
      t.stored.map (fun f => f.type.expr p.floatText (o.get f)) := by
    rw [List.map_map]
    rfl
  have hFst : (t.stored.map (fun f => (f.name, f.type.expr p.floatText (o.get f)))).map Prod.fst =
      t.stored.map Field.name := by
    rw [List.map_map]
    rfl
  have hZip : (t.stored.map Field.name).zip
      (t.stored.map (fun f => f.type.stored p.floatText (o.get f)) ++ [.int id.toInt]) =
      writes p.floatText t o := zip_map_append _ _ _ _
  have hDrop : (t.stored.map (fun f => f.type.stored p.floatText (o.get f)) ++
      [Sql.Cell.int id.toInt]).drop
        (t.stored.map (fun f => (f.name, f.type.expr p.floatText (o.get f)))).length =
      [.int id.toInt] := by
    simp
  have hAll : u.rows.all (fun r => !decide ((r.rowid : Int) = id.toInt) ||
      u.accepts (Sql.assign (writes p.floatText t o) r.cells)) = true := by
    rw [List.all_eq_true]
    intro r _
    rw [h.accepts hColumns, Bool.or_true]
  have hLast : Sql.bind [.int id.toInt] [] = [.int id.toInt] := rfl
  have hValues : [Sql.Cond.mk Field.identifier.name (.compare .equal (.int id.toInt))].flatMap
      Sql.Cond.values = [.int id.toInt] := rfl
  rw [hSnd, hFst, hValues, params, hBind, hLast, hZip, hDrop, h.satisfies_identifier,
    if_pos hAll]
  rfl

theorem prepare_delete (h : Holds db t u) (id : Int32) :
    Sql.prepare db (bound []) (.delete t.cls (whereIdentifier id)) =
      some (.change (Function.update db t.cls (some (deleted id u)))) := by
  have hText : ∀ c ∈ [Sql.Cond.mk Field.identifier.name (.compare .equal (.int id.toInt))],
      c.column ∈ u.names ∧ .blank ∉ c.values := by
    intro c hc
    obtain rfl := List.mem_singleton.mp hc
    exact ⟨h.mem_names t.identifier_mem, by simp [Sql.Cond.values]⟩
  have hCond : Sql.conditions (whereIdentifier id) =
      some [⟨Field.identifier.name, .compare .equal (.int id.toInt)⟩] := rfl
  have hBind : Sql.bind ([Sql.Cond.mk Field.identifier.name
      (.compare .equal (.int id.toInt))].flatMap Sql.Cond.values) (bound []) = [.int id.toInt] := rfl
  simp only [Sql.prepare, h.table, Option.bind_eq_bind, Option.bind_some, hCond,
    Sql.prepareDelete]
  rw [if_pos hText, hBind, h.satisfies_identifier]
  rfl

end Statements

namespace Program

section Save

variable {p : Program} {db : Sql.Db} {t : Table} {u : Sql.Table} {a : Nat}

/-- Saving an object without an identifier inserts a row at once and gives the object the
row's identifier. -/
theorem View.insert (h : View p db) (hHolds : Holds db t u) (hColumns : t.Columns)
    (hStored : t.stored ≠ []) (hSeq : u.seq < Sql.maxRowid)
    (hNew : (p.object a).identifier = -1) :
    ∃ d, SQLite.update t a p = .ok { p with database := d } ∧
      View { p with database := d }
        (Function.update db t.cls (some (inserted p.floatText t (p.object a) u))) ∧
      d.store.objects = Function.update p.store.objects a
        ((p.object a).setIdentifier (Int32.ofNat (u.seq + 1))) ∧
      d.store.next = p.store.next := by
  have hPrepare := prepare_insert p hHolds hColumns hStored (p.object a)
  rw [if_pos hSeq] at hPrepare
  have hAction : action ⟨.insert t.cls (t.stored.map Field.name) (values p t (p.object a)),
      params t (p.object a), .setIdentifier a⟩ { p.store with db := db } = .ok
        { p.store with
          db := Function.update db t.cls (some (inserted p.floatText t (p.object a) u))
          objects := Function.update p.store.objects a
            ((p.object a).setIdentifier (Int32.ofNat (u.seq + 1))) } := by
    simp only [action, hPrepare]
    rfl
  obtain ⟨d, hRun, hView, hStore⟩ := h.exce hAction
  refine ⟨d, ?_, hView, by rw [hStore], by rw [hStore]⟩
  unfold SQLite.update
  rw [if_pos hNew]
  exact hRun

/-- Without a rowid left nothing is inserted, and the object gets the identifier `0`. -/
theorem View.insert_full (h : View p db) (hHolds : Holds db t u) (hColumns : t.Columns)
    (hStored : t.stored ≠ []) (hSeq : ¬ u.seq < Sql.maxRowid)
    (hNew : (p.object a).identifier = -1) :
    ∃ d, SQLite.update t a p = .ok { p with database := d } ∧ View { p with database := d } db ∧
      d.store.objects = Function.update p.store.objects a ((p.object a).setIdentifier 0) ∧
      d.store.next = p.store.next := by
  have hPrepare := prepare_insert p hHolds hColumns hStored (p.object a)
  rw [if_neg hSeq] at hPrepare
  have hAction : action ⟨.insert t.cls (t.stored.map Field.name) (values p t (p.object a)),
      params t (p.object a), .setIdentifier a⟩ { p.store with db := db } = .ok
        { p.store with
          db := db
          objects := Function.update p.store.objects a ((p.object a).setIdentifier 0) } := by
    simp only [action, hPrepare]
    rfl
  obtain ⟨d, hRun, hView, hStore⟩ := h.exce hAction
  refine ⟨d, ?_, hView, by rw [hStore], by rw [hStore]⟩
  unfold SQLite.update
  rw [if_pos hNew]
  exact hRun

/-- Saving an object with an identifier queues an update of its row. -/
theorem View.update (h : View p db) (hHolds : Holds db t u) (hColumns : t.Columns)
    (hStored : t.stored ≠ []) (hOld : (p.object a).identifier ≠ -1) :
    ∃ d, SQLite.update t a p = .ok { p with database := d } ∧
      View { p with database := d } (Function.update db t.cls
        (some (updated p.floatText t (p.object a) (p.object a).identifier u))) ∧
      d.store = p.store := by
  have hPrepare := prepare_update p hHolds hColumns hStored (p.object a) (p.object a).identifier
  obtain ⟨d, hRun, hView, hStore⟩ := h.queueExce
    (i := ⟨.update t.cls ((t.stored.map Field.name).zip (values p t (p.object a)))
      (whereIdentifier (p.object a).identifier), params t (p.object a), .none⟩) rfl
    (by simp only [QueueItem.apply, hPrepare]; rfl)
  refine ⟨d, ?_, hView, hStore⟩
  unfold SQLite.update
  rw [if_neg hOld]
  exact hRun

/-- Removing an object queues the deletion of its row and takes its identifier away. -/
theorem View.remove (h : View p db) (hHolds : Holds db t u) :
    ∃ d, SQLite.remove t a p = .ok { p with database := d } ∧
      View { p with database := d } (Function.update db t.cls
        (some (deleted (p.object a).identifier u))) ∧
      d.store.objects = Function.update p.store.objects a
        ((p.object a).setIdentifier (-1)) ∧
      d.store.next = p.store.next := by
  have hPrepare := prepare_delete hHolds (p.object a).identifier
  obtain ⟨d, hRun, hView, hStore⟩ := h.queueExce
    (i := ⟨.delete t.cls (whereIdentifier (p.object a).identifier), [], .none⟩) rfl
    (by simp only [QueueItem.apply, hPrepare]; rfl)
  have hModify := hView.modify a (Object.setIdentifier (-1))
  refine ⟨_, ?_, hModify, ?_, ?_⟩
  · unfold SQLite.remove
    rw [hRun]
    rfl
  · change Function.update d.store.objects a
      ((d.store.objects a).setIdentifier (-1)) = _
    rw [hStore]
    rfl
  · change d.store.next = _
    rw [hStore]

end Save

end Program

/-! ## Queries -/

theorem get_readFields {fs : List Field} (hNodup : (fs.map Field.name).Nodup)
    (hColumns : ∀ f ∈ fs, f.type.isColumn = true) (cell : Field → Sql.Cell) (o : Object) :
    (∀ f ∈ fs, (readFields fs (fs.map cell) o).get f = f.type.read (cell f)) ∧
    ∀ f : Field, f.name ∉ fs.map Field.name →
      (readFields fs (fs.map cell) o).get f = o.get f := by
  induction fs generalizing o with
  | nil => exact ⟨fun f hf => (by cases hf), fun f _ => rfl⟩
  | cons e fs ih =>
    rw [List.map_cons, List.nodup_cons] at hNodup
    obtain ⟨hIn, hOut⟩ := ih hNodup.2 (fun f hf => hColumns f (List.mem_cons_of_mem e hf))
      (o.set e (e.type.read (cell e)))
    have hStep : readFields (e :: fs) ((e :: fs).map cell) o =
        readFields fs (fs.map cell) (o.set e (e.type.read (cell e))) := by
      rw [readFields, if_pos (hColumns e List.mem_cons_self)]
      rfl
    rw [hStep]
    constructor
    · intro f hf
      rcases List.mem_cons.mp hf with hHead | hTail
      · subst hHead
        rw [hOut f hNodup.1, Object.get_set]
      · exact hIn f hTail
    · intro f hf
      rw [List.map_cons, List.mem_cons, not_or] at hf
      rw [hOut f hf.2, Object.get_set_of_ne _ _ (Ne.symm hf.1)]

/-- The object that a query makes from a row. -/
def rowObject (t : Table) (u : Sql.Table) (r : Sql.Row) : Object :=
  readRow t ((t.fields.map Field.name).map (u.cell r))

theorem get_rowObject {t : Table} (hColumns : t.Columns) (u : Sql.Table) (r : Sql.Row) {f : Field}
    (hf : f ∈ t.fields) : (rowObject t u r).get f = f.type.read (u.cell r f.name) := by
  rw [rowObject, readRow, List.map_map, Object.get_done]
  exact (get_readFields t.nodup hColumns (u.cell r ∘ Field.name) t.fresh).1 f hf

/-- The object of a row depends on the columns of the table only. -/
theorem rowObject_congr (t : Table) {u v : Sql.Table} (h : v.columns = u.columns) (r : Sql.Row) :
    rowObject t v r = rowObject t u r := by
  have hCell : v.cell r = u.cell r := by
    funext name
    rw [Sql.Table.cell, Sql.Table.isKey, h]
    rfl
  rw [rowObject, hCell]
  rfl

@[simp] theorem rowObject_changed (t : Table) (u : Sql.Table) (r : Sql.Row) :
    (rowObject t u r).changed = false := rfl

/-- The row loop of `SQLQuery::find` puts one object for each row behind the objects that are
there. -/
theorem foldl_collect (t : Table) (rows : List (List Sql.Cell)) (st : Store) :
    (rows.foldl (collect t) st).db = st.db ∧
    (rows.foldl (collect t) st).next = st.next + rows.length ∧
    (rows.foldl (collect t) st).results = st.results ++ List.range' st.next rows.length ∧
    (∀ a < st.next, (rows.foldl (collect t) st).objects a = st.objects a) ∧
    ∀ k cells, rows[k]? = some cells →
      (rows.foldl (collect t) st).objects (st.next + k) = readRow t cells := by
  induction rows generalizing st with
  | nil => simp
  | cons row rows ih =>
    obtain ⟨hDb, hNext, hResults, hOld, hNew⟩ := ih (collect t st row)
    rw [List.foldl_cons]
    refine ⟨hDb, ?_, ?_, ?_, ?_⟩
    · rw [hNext]
      simp only [collect, Store.alloc, List.length_cons]
      omega
    · rw [hResults]
      simp [collect, Store.alloc, List.range'_succ]
    · intro a ha
      rw [hOld a (by simp only [collect, Store.alloc]; omega)]
      simp [collect, Store.alloc, Function.update_of_ne (Nat.ne_of_lt ha)]
    · intro k cells hk
      cases k with
      | zero =>
        obtain rfl : row = cells := by simpa using hk
        rw [Nat.add_zero, hOld st.next (by simp only [collect, Store.alloc]; omega)]
        simp [collect, Store.alloc]
      | succ k =>
        rw [show st.next + (k + 1) = (collect t st row).next + k by
          simp only [collect, Store.alloc]; omega]
        exact hNew k cells (by simpa using hk)

theorem map_range' {α β : Type} {f : Nat → β} {g : α → β} {n : Nat} {l : List α}
    (h : ∀ k a, l[k]? = some a → f (n + k) = g a) : (List.range' n l.length).map f = l.map g := by
  apply List.ext_getElem
  · simp
  · intro k hk hk'
    rw [List.length_map] at hk'
    rw [List.getElem_map, List.getElem_map, List.getElem_range', Nat.one_mul]
    exact h k _ (List.getElem?_eq_getElem hk')

/-- `Query::res` of a changed query makes an object from every row that is delivered. -/
theorem Program.View.res {p : Program} {db : Sql.Db} (h : View p db) {q : Query}
    (hChanged : q.changed = true) :
    ∃ d, q.res p = .ok ({ p with database := d },
        { q with results := List.range' p.store.next (q.rows db).length, changed := false }) ∧
      View { p with database := d } db ∧
      d.store.next = p.store.next + (q.rows db).length ∧
      (∀ a < p.store.next, d.store.objects a = p.store.objects a) ∧
      (List.range' p.store.next (q.rows db).length).map d.store.objects =
        (q.rows db).map (readRow q.table) := by
  obtain ⟨hDb, hNext, hResults, hOld, hNew⟩ := foldl_collect q.table (q.rows db)
    { p.store with db := db, results := [] }
  obtain ⟨st, hst⟩ : ∃ st, st = (q.rows db).foldl (collect q.table)
    { p.store with db := db, results := [] } := ⟨_, rfl⟩
  rw [← hst] at hDb hNext hResults hOld hNew
  have hCleared : View (p.setStore { p.store with results := [] }) db := h.setStore rfl
  have hAction : action ⟨q.selectStatement, q.params, .find q.table⟩
      { (p.setStore { p.store with results := [] }).store with db := db } = .ok st := by
    rw [hst]
    unfold action Query.rows
    cases Sql.prepare db (bound q.params) q.selectStatement <;> rfl
  obtain ⟨d, hRun, hView, hStore⟩ := hCleared.exce hAction
  rw [hDb] at hView
  refine ⟨d, ?_, hView, ?_, ?_, ?_⟩
  · unfold Query.res Query.find
    rw [if_pos hChanged]
    simp only [hRun, Transition.ok_bind]
    rw [show (Program.store { p.setStore { p.store with results := [] } with database := d }).results
      = st.results from congrArg Store.results hStore, hResults]
    rfl
  · rw [hStore, hNext]
  · rw [hStore]
    exact hOld
  · rw [hStore]
    exact map_range' hNew

/-- A statement that SQLite accepts delivers the selected rows. -/
theorem prepare_select {db : Sql.Db} {u : Sql.Table} {q : Query} {conds : List Condition}
    (h : Holds db q.table u) (hBuilt : q.Built conds) (hAccepted : q.Accepted conds u) :
    Sql.prepare db (bound q.params) q.selectStatement =
      some ⟨db, none, q.table.fields.map Field.name, (q.selected conds u).map
        (fun r => (q.table.fields.map Field.name).map (u.cell r))⟩ := by
  have hText : q.table.fields.map Field.name ≠ [] ∧
      (∀ c ∈ q.table.fields.map Field.name, c ∈ u.names) ∧
      (∀ c ∈ conds.map Condition.cond, c.column ∈ u.names ∧ .blank ∉ c.values) ∧
      (∀ o ∈ q.orderBy, o.1 ∈ u.names) ∧
      ((if 0 ≤ q.offset then some q.offset.toNat else none).isSome →
        (if 0 < q.limit then some q.limit.toNat else none).isSome) := by
    refine ⟨?_, ?_, ?_, ?_, q.offset_limit_iff.mpr hAccepted.offset⟩
    · exact List.ne_nil_of_mem (List.mem_map_of_mem q.table.identifier_mem)
    · rw [h.names]
      exact fun c hc => hc
    · intro c hc
      obtain ⟨d, hd, rfl⟩ := List.mem_map.mp hc
      rw [d.cond_column]
      exact ⟨hAccepted.conds d hd, d.blank_notMem_values⟩
    · exact fun o ho => hAccepted.sortBys o.1 (Query.mem_orderBy ho)
  have hSatisfies : u.satisfies (conds.map Condition.cond)
      (Sql.bind ((conds.map Condition.cond).flatMap Sql.Cond.values) (bound q.params)) =
      fun r => conds.all (Condition.holds u r) := by
    funext r
    rw [hBuilt.params, satisfies_conds]
  simp only [Query.selectStatement, Sql.prepare, h.table, Option.bind_eq_bind, Option.bind_some,
    hBuilt.sentence, conditions_sentence, Sql.prepareSelect]
  rw [if_pos hText, hSatisfies]
  rfl

theorem rows_select {db : Sql.Db} {u : Sql.Table} {q : Query} {conds : List Condition}
    (h : Holds db q.table u) (hBuilt : q.Built conds) (hAccepted : q.Accepted conds u) :
    q.rows db = (q.selected conds u).map
      (fun r => (q.table.fields.map Field.name).map (u.cell r)) := by
  rw [Query.rows, prepare_select h hBuilt hAccepted]

/-- The rows whose column equals the value. -/
def matching (u : Sql.Table) (name : String) (v : QueryValue) : List Sql.Row :=
  u.rows.filter (fun r => Sql.Cmp.equal.holds (u.cell r name) v.cell)

/-- The column compares with the value as it is. -/
def QueryValue.Fits (v : QueryValue) (f : Field) : Prop := (column f).affinity.apply v.cell = v.cell

theorem rows_equal {db : Sql.Db} {t : Table} {u : Sql.Table} (h : Holds db t u) {f : Field}
    (hf : f ∈ t.fields) {v : QueryValue} (hFits : v.Fits f) (limit : Int) {q : Query}
    (hq : q = { (Query.ofTable t).equal f.name v with limit := limit }) :
    q.rows db = (if 0 < limit then (matching u f.name v).take limit.toNat
      else matching u f.name v).map (fun r => (t.fields.map Field.name).map (u.cell r)) := by
  obtain ⟨hTable, hBuilt, hSortBys, hLimit, hOffset⟩ : q.table = t ∧
      q.Built [.compare f.name .equal v] ∧ q.sortBys = [] ∧ q.limit = limit ∧ q.offset = -1 := by
    subst hq
    cases v <;> exact ⟨rfl, ⟨rfl, rfl⟩, rfl, rfl, rfl⟩
  have hAccepted : q.Accepted [.compare f.name .equal v] u := by
    refine ⟨?_, ?_, ?_⟩
    · intro c hc
      obtain rfl := List.mem_singleton.mp hc
      exact h.mem_names hf
    · rw [hSortBys]
      exact fun name hName => by cases hName
    · rw [hOffset]
      exact fun hNot => absurd hNot (by decide)
  have hRows : (fun r => [Condition.compare f.name .equal v].all (Condition.holds u r)) =
      fun r => Sql.Cmp.equal.holds (u.cell r f.name) v.cell := by
    funext r
    have hConvert : Sql.Cmp.equal.convert (u.affinity f.name) v.cell = v.cell := by
      rw [h.affinity hf]
      exact hFits
    simp [Condition.holds, hConvert]
  have hOrder : q.orderBy = [] := by
    rw [Query.orderBy, hSortBys]
    rfl
  have hNoOffset : (if 0 ≤ q.offset then some q.offset.toNat else none) = none := by
    rw [hOffset]
    rfl
  rw [rows_select (hTable ▸ h) hBuilt hAccepted, hTable, Query.selected, hRows, hOrder, hNoOffset,
    hLimit]
  split <;> rfl

/-- The query for the rows whose column equals a value, as far as its first result goes. -/
theorem Program.View.first {p : Program} {db : Sql.Db} {t : Table} {u : Sql.Table} (h : View p db)
    (hHolds : Holds db t u) {f : Field} (hf : f ∈ t.fields) {v : QueryValue} (hFits : v.Fits f)
    (limit : Int) :
    ∃ d q', ({ (Query.ofTable t).equal f.name v with limit := limit }).res p =
        .ok ({ p with database := d }, q') ∧
      View { p with database := d } db ∧
      p.store.next ≤ d.store.next ∧
      (∀ a < p.store.next, d.store.objects a = p.store.objects a) ∧
      (matching u f.name v = [] → q'.results = []) ∧
      ∀ r rest, matching u f.name v = r :: rest →
        (∃ tail, q'.results = p.store.next :: tail) ∧ p.store.next < d.store.next ∧
        d.store.objects p.store.next = rowObject t u r := by
  obtain ⟨q, hq⟩ : ∃ q, q = { (Query.ofTable t).equal f.name v with limit := limit } := ⟨_, rfl⟩
  have hTable : q.table = t ∧ q.changed = true := by
    subst hq
    cases v <;> exact ⟨rfl, rfl⟩
  have hRows := rows_equal hHolds hf hFits limit hq
  obtain ⟨d, hRun, hView, hNext, hOld, hNew⟩ := h.res hTable.2
  rw [← hq]
  refine ⟨d, _, hRun, hView, by omega, hOld, ?_, ?_⟩
  · intro hNone
    rw [hRows, hNone]
    simp
  · intro r rest hSome
    obtain ⟨tail, hCut⟩ : ∃ tail,
        (if 0 < limit then (matching u f.name v).take limit.toNat else matching u f.name v) =
          r :: tail := by
      rw [hSome]
      split
      · obtain ⟨n, hn⟩ : ∃ n, limit.toNat = n + 1 := ⟨limit.toNat - 1, by omega⟩
        exact ⟨rest.take n, by rw [hn, List.take_succ_cons]⟩
      · exact ⟨rest, rfl⟩
    rw [hCut, List.map_cons] at hRows
    rw [hRows] at hNext hNew
    refine ⟨⟨_, by rw [hRows, List.length_cons, List.range'_succ]⟩, ?_, ?_⟩
    · rw [hNext, List.length_cons]
      omega
    · rw [List.length_cons, List.range'_succ, List.map_cons, List.map_cons, hTable.1] at hNew
      exact (List.cons.inj hNew).1

/-! ## Queries after a save -/

section AfterSave

variable {db : Sql.Db} {t : Table} {u : Sql.Table}

/-- The row that an insert appends. -/
def newRow (floatText : Rat → Rat) (t : Table) (o : Object) (u : Sql.Table) : Sql.Row :=
  ⟨u.seq + 1, Sql.assign (writes floatText t o) (fun _ => .null)⟩

/-- What an update makes of a row. -/
def rewriteRow (floatText : Rat → Rat) (t : Table) (o : Object) (id : Int32) (r : Sql.Row) :
    Sql.Row :=
  if decide ((r.rowid : Int) = id.toInt) then
    { r with cells := Sql.assign (writes floatText t o) r.cells }
  else r

theorem rewriteRow_other (floatText : Rat → Rat) (t : Table) (o : Object) {id : Int32} {r : Sql.Row}
    (h : (r.rowid : Int) ≠ id.toInt) : rewriteRow floatText t o id r = r := by
  rw [rewriteRow, decide_eq_false h]
  rfl

theorem byKey_updated (floatText : Rat → Rat) (t : Table) (o : Object) (id : Int32) (u : Sql.Table)
    (m : Int) :
    (updated floatText t o id u).byKey m =
      if m = id.toInt then (u.byKey m).map (rewriteRow floatText t o id) else u.byKey m := by
  rw [updated, Sql.Table.byKey_update]
  split
  · next h =>
    subst h
    cases hRow : u.byKey id.toInt with
    | none => rfl
    | some r =>
      rw [Option.map_some, Option.map_some, rewriteRow, (Sql.Table.byKey_eq_some.mp hRow).2]
      simp
  · rfl

theorem byKey_inserted (floatText : Rat → Rat) (t : Table) (o : Object) (u : Sql.Table) (m : Int) :
    (inserted floatText t o u).byKey m =
      if m = u.seq + 1 then some (newRow floatText t o u) else u.byKey m := by
  rw [inserted, Sql.Table.byKey_insert]
  rfl

theorem Holds.cell_newRow (h : Holds db t u) (floatText : Rat → Rat) (o : Object) {f : Field}
    (hf : f ∈ t.stored) :
    u.cell (newRow floatText t o u) f.name = f.type.stored floatText (o.get f) :=
  (h.cell_stored _ hf).trans (assign_writes floatText o (fun _ => .null) hf)

theorem Holds.cell_rewriteRow (h : Holds db t u) (floatText : Rat → Rat) (o : Object) (id : Int32)
    (r : Sql.Row) {f : Field} (hf : f ∈ t.stored) :
    u.cell (rewriteRow floatText t o id r) f.name =
      if (r.rowid : Int) = id.toInt then f.type.stored floatText (o.get f)
      else u.cell r f.name := by
  rw [h.cell_stored _ hf, h.cell_stored _ hf, rewriteRow]
  by_cases hId : (r.rowid : Int) = id.toInt
  · simp only [hId, decide_true, if_true]
    exact assign_writes floatText o _ hf
  · simp [hId]

theorem matching_inserted (h : Holds db t u) (floatText : Rat → Rat) (o : Object) {f : Field}
    (hf : f ∈ t.stored) (v : QueryValue) :
    matching (inserted floatText t o u) f.name v = matching u f.name v ++
      (if Sql.Cmp.equal.holds (f.type.stored floatText (o.get f)) v.cell then
        [newRow floatText t o u] else []) := by
  have hRows : (inserted floatText t o u).rows = u.rows ++ [newRow floatText t o u] := rfl
  have hCell : ∀ r, (inserted floatText t o u).cell r f.name = u.cell r f.name := fun _ => rfl
  rw [matching, hRows, List.filter_append, List.filter_singleton]
  simp only [hCell, h.cell_newRow floatText o hf, Bool.cond_eq_ite]
  rfl

/-- An update that keeps the column compared with keeps the matching rows. -/
theorem matching_updated (h : Holds db t u) (floatText : Rat → Rat) (o : Object) (id : Int32)
    {f : Field} (hf : f ∈ t.stored) (v : QueryValue)
    (hKeep : ∀ r ∈ u.rows, (r.rowid : Int) = id.toInt →
      Sql.Cmp.equal.holds (f.type.stored floatText (o.get f)) v.cell =
        Sql.Cmp.equal.holds (u.cell r f.name) v.cell) :
    matching (updated floatText t o id u) f.name v =
      (matching u f.name v).map (rewriteRow floatText t o id) := by
  have hRows : (updated floatText t o id u).rows = u.rows.map (rewriteRow floatText t o id) := rfl
  have hCell : ∀ r, (updated floatText t o id u).cell r f.name = u.cell r f.name := fun _ => rfl
  rw [matching, hRows, List.filter_map, matching]
  simp only [hCell]
  congr 1
  apply List.filter_congr
  intro r hr
  rw [Function.comp_apply, h.cell_rewriteRow floatText o id r hf]
  split
  · next hId => exact hKeep r hr hId
  · rfl

/-- Reading back the row of an insert gives the object with its new identifier. -/
theorem Holds.get_newRow (h : Holds db t u) (hColumns : t.Columns) (floatText : Rat → Rat)
    {o : Object} (hKept : ∀ f ∈ t.stored, f.type.Kept (o.get f)) {f : Field} (hf : f ∈ t.fields) :
    (rowObject t u (newRow floatText t o u)).get f =
      (o.setIdentifier (Int32.ofNat (u.seq + 1))).get f := by
  rw [get_rowObject hColumns u _ hf]
  by_cases hId : f = .identifier
  · subst hId
    rw [h.cell_identifier]
    exact Int32.ofInt_eq_ofNat.trans (o.identifier_setIdentifier _).symm
  · have hStored : f ∈ t.stored := Table.mem_stored.mpr ⟨hf, hId⟩
    rw [h.cell_newRow floatText o hStored, FieldType.read_stored floatText (hKept f hStored),
      Object.get_setIdentifier _ _ (Table.stored_name_ne hStored)]

/-- Reading back the row of an update gives the object. -/
theorem Holds.get_rewriteRow (h : Holds db t u) (hColumns : t.Columns) (floatText : Rat → Rat)
    {o : Object} (hKept : ∀ f ∈ t.stored, f.type.Kept (o.get f)) {r : Sql.Row}
    (hKey : (r.rowid : Int) = o.identifier.toInt) {f : Field} (hf : f ∈ t.fields) :
    (rowObject t u (rewriteRow floatText t o o.identifier r)).get f = o.get f := by
  rw [get_rowObject hColumns u _ hf]
  by_cases hId : f = .identifier
  · subst hId
    have hRowid : (rewriteRow floatText t o o.identifier r).rowid = r.rowid := by
      rw [rewriteRow]
      split <;> rfl
    rw [h.cell_identifier, hRowid, hKey]
    exact Int32.ofInt_toInt o.identifier
  · have hStored : f ∈ t.stored := Table.mem_stored.mpr ⟨hf, hId⟩
    rw [h.cell_rewriteRow floatText o o.identifier r hStored, if_pos hKey,
      FieldType.read_stored floatText (hKept f hStored)]

end AfterSave

end RetroConfig
