import RetroConfig.Database.Model
import RetroConfig.Database.Queue

/-!
# `SQLite`: objects in and out of the database

`SQLite` (`utils/database/SQLite.cpp`) turns model objects into statements, hands them to the
queue of `Database` and reads the rows back into objects. A statement travels with a
callback, which runs while the queue is drained. The four callbacks of the source are the
constructors of `Callback`; the objects they write live in `Store` beside the database file.

The decimal text that `sprintf` writes for an integer is taken to be the integer, whatever the
size of the buffer. The names of classes and fields are taken to be valid SQL names.
-/

namespace RetroConfig

/-- The callbacks passed to `exce` and `queueExce`: none, the row loop of `SQLQuery::find`, the
one of the insert in `SQLite::update`, and the one of `SQLite::afterUpdate`. -/
inductive Callback where
  | none
  | find (t : Table)
  | setIdentifier (a : Nat)
  | copyRows (t : Table)

/-- `Database::QueueItem`. The parameters are always strings. -/
structure QueueItem where
  statement : Sql.Statement
  params : List String
  callback : Callback

/-- The database file and the objects in memory. `objects` says what each address holds, also
the addresses from `next` on, which no object has used yet. `results` is the member `_results`
of the query whose `find` runs. -/
structure Store where
  db : Sql.Db
  objects : Nat → Object
  next : Nat
  results : List Nat

/-- Put a new object into memory. -/
def Store.alloc (st : Store) (o : Object) : Store :=
  { st with objects := Function.update st.objects st.next o, next := st.next + 1 }

namespace SQLite

/-! ## The callbacks -/

/-- The loop over the fields in the callback of `SQLQuery::find`. A field that is no column
does not move on to the next cell. -/
def readFields : List Field → List Sql.Cell → Object → Object
  | [], _, o => o
  | f :: fs, cells, o =>
    if f.type.isColumn then
      readFields fs cells.tail (o.set f (f.type.read (cells.headD .null)))
    else readFields fs cells o

/-- The object made from one row. -/
def readRow (t : Table) (cells : List Sql.Cell) : Object :=
  (readFields t.fields cells t.fresh).done

/-- One round of the row loop in the callback of `SQLQuery::find`. -/
def collect (t : Table) (st : Store) (cells : List Sql.Cell) : Store :=
  { st.alloc (readRow t cells) with results := st.results ++ [st.next] }

/-- The loop over the columns in the callback of `SQLite::afterUpdate`. The source uses `count`
both as the bound of the loop, which its increments extend by rounds that find no name, and
as the index of the column to read. -/
def copyFields (t : Table) (row : List Sql.Cell) : Nat → List String → Object → Object
  | _, [], o => o
  | count, name :: names, o =>
    if name = Field.identifier.name then copyFields t row count names o
    else match t.fields.find? (fun f => f.name == name) with
      | none => copyFields t row count names o
      | some f =>
        if f.type.isColumn then
          copyFields t row (count + 1) names (o.set f (f.type.read (row.getD count .null)))
        else copyFields t row count names o

/-- The object that the callback of `SQLite::afterUpdate` saves. The cursor is never stepped, so
it stands on no row. -/
def copied (t : Table) (columns : List String) : Object :=
  copyFields t [] columns.length columns t.fresh

/-- The parameters as `SQLite::action` binds them. -/
def bound (params : List String) : List Sql.Cell := params.map (fun s => .text (Text.cString s))

/-- `SQLite::action` with an open file. A statement that cannot be prepared is dropped with its
callback. `save` of a changed object submits a statement, which locks `mtx` again. The
insert is the only one of its connection, so `sqlite3_last_insert_rowid` is its own row, or `0`
when it was ignored. -/
def action (i : QueueItem) (st : Store) : Except Fault Store :=
  match Sql.prepare st.db (bound i.params) i.statement with
  | none => .ok st
  | some stmt =>
    match i.callback with
    | .none => .ok { st with db := stmt.db }
    | .find t => .ok (stmt.rows.foldl (collect t) st)
    | .setIdentifier a =>
      let id := Int32.ofNat (stmt.rowid.getD 0)
      .ok { st with
        db := stmt.db
        objects := Function.update st.objects a ((st.objects a).setIdentifier id) }
    | .copyRows t => if (copied t stmt.columns).changed then .error .relock else .ok st

end SQLite

/-! ## The program -/

/-- The database with its queue, the classes whose `TableContainer<T>::table` is set, and what
is left of a `float` that `%f` prints and SQLite reads back. -/
structure Program where
  database : Database QueueItem Store
  registered : String → Bool
  floatText : Rat → Rat

namespace Program

def store (p : Program) : Store := p.database.store

def object (p : Program) (a : Nat) : Object := p.store.objects a

def setStore (p : Program) (st : Store) : Program :=
  { p with database := { p.database with store := st } }

/-- Change the object at an address. -/
def modify (p : Program) (a : Nat) (f : Object → Object) : Program :=
  p.setStore { p.store with
    objects := Function.update p.store.objects a (f (p.store.objects a)) }

/-- `new T`, with the address of the object. -/
def new (p : Program) : Program × Nat :=
  (p.setStore (p.store.alloc (p.object p.store.next).construct), p.store.next)

/-- `new T()` for a class without a constructor of its own, with the address of the object. -/
def newZero (p : Program) : Program × Nat :=
  (p.setStore (p.store.alloc .zero), p.store.next)

/-- `T::registerFields`. -/
def register (cls : String) (p : Program) : Program :=
  { p with registered := Function.update p.registered cls true }

def exce (i : QueueItem) (p : Program) : Except Fault Program := do
  let d ← Database.exce true SQLite.action i p.database
  pure { p with database := d }

def queueExce (i : QueueItem) (p : Program) : Except Fault Program := do
  let d ← Database.queueExce i p.database
  pure { p with database := d }

/-- A firing of the queue's timer. -/
def fire (p : Program) : Except Fault Program := do
  let d ← Database.fire true SQLite.action p.database
  pure { p with database := d }

end Program

/-! ## Queries -/

/-- A value compared with in a query: a string, or an integer whose text is inlined. -/
inductive QueryValue where
  | text (s : String)
  | int (n : Int)

/-- `SQLQuery` with its base `Query`. -/
structure Query where
  table : Table
  changed : Bool
  sortAsc : Bool
  limit : Int
  offset : Int
  results : List Nat
  sentence : List Sql.Piece
  sortBys : List String
  params : List String

namespace Query

/-- The constructor of `Query`. -/
def ofTable (t : Table) : Query := ⟨t, true, true, 0, -1, [], [], [], []⟩

def insertAction (q : Query) (name : String) (val : QueryValue) (cmp : Sql.Cmp) : Query :=
  match val with
  | .text s => { q with
      changed := true
      sentence := q.sentence ++ [.cond ⟨name, .compare cmp .param⟩]
      params := q.params ++ [s] }
  | .int n => { q with
      changed := true
      sentence := q.sentence ++ [.cond ⟨name, .compare cmp (.int n)⟩] }

def equal (q : Query) (name : String) (val : QueryValue) : Query := q.insertAction name val .equal

def greater (q : Query) (name : String) (val : QueryValue) : Query :=
  q.insertAction name val .greater

def less (q : Query) (name : String) (val : QueryValue) : Query := q.insertAction name val .less

def like (q : Query) (name : String) (val : QueryValue) : Query := q.insertAction name val .like

/-- The loop of `SQLQuery::in` over its values: what goes into the text, and what into the
parameters. -/
def inValues : List QueryValue → List Sql.Expr × List String
  | [] => ([], [])
  | .text s :: vals => (.param :: (inValues vals).1, s :: (inValues vals).2)
  | .int n :: vals => (.int n :: (inValues vals).1, (inValues vals).2)

/-- `SQLQuery::in` with an array. It does not call `change`. -/
def inArray (q : Query) (name : String) (vals : List QueryValue) : Query :=
  { q with
    sentence := q.sentence ++ [.cond ⟨name, .among (inValues vals).1⟩]
    params := q.params ++ (inValues vals).2 }

def andQ (q : Query) : Query := { q with sentence := q.sentence ++ [.and] }

def sortBy (q : Query) (name : String) : Query := { q with sortBys := q.sortBys ++ [name] }

def setSortAsc (q : Query) (asc : Bool) : Query := { q with sortAsc := asc }

/-- `Query::limit`. -/
def setLimit (q : Query) (l : Int) : Query := { q with limit := l }

/-- `Query::offset`. -/
def setOffset (q : Query) (o : Int) : Query := { q with offset := o }

/-- `ORDER BY a,b,c DESC`: the direction belongs to the last column only. -/
def orderBy (q : Query) : List (String × Bool) :=
  q.sortBys.dropLast.map (·, true) ++ q.sortBys.getLast?.toList.map (·, q.sortAsc)

def selectStatement (q : Query) : Sql.Statement :=
  .select (q.table.fields.map Field.name) q.table.cls q.sentence q.orderBy
    (if 0 < q.limit then some q.limit.toNat else none)
    (if 0 ≤ q.offset then some q.offset.toNat else none)

/-- `SQLQuery::find`. -/
def find (q : Query) (p : Program) : Except Fault (Program × Query) := do
  let p := p.setStore { p.store with results := [] }
  let p ← p.exce ⟨q.selectStatement, q.params, .find q.table⟩
  pure (p, { q with results := p.store.results })

/-- `SQLQuery::remove`. -/
def remove (q : Query) (p : Program) : Except Fault Program :=
  p.queueExce ⟨.delete q.table.cls q.sentence, q.params, .none⟩

/-- `Query::res`, and `Query::results`, which copies it. -/
def res (q : Query) (p : Program) : Except Fault (Program × Query) :=
  if q.changed then do
    let (p, q) ← q.find p
    pure (p, { q with changed := false })
  else pure (p, q)

end Query

namespace SQLite

/-! ## Saving and removing -/

/-- The condition that singles out the row of an object. -/
def whereIdentifier (id : Int32) : List Sql.Piece :=
  [.cond ⟨Field.identifier.name, .compare .equal (.int id.toInt)⟩]

def values (p : Program) (t : Table) (o : Object) : List Sql.Expr :=
  t.stored.map (fun f => f.type.expr p.floatText (o.get f))

def params (t : Table) (o : Object) : List String :=
  t.stored.filterMap (fun f => f.type.param (o.get f))

/-- `SQLite::update`. -/
def update (t : Table) (a : Nat) (p : Program) : Except Fault Program :=
  let o := p.object a
  let names := t.stored.map Field.name
  if o.identifier = -1 then
    p.exce ⟨.insert t.cls names (values p t o), params t o, .setIdentifier a⟩
  else
    p.queueExce ⟨.update t.cls (names.zip (values p t o)) (whereIdentifier o.identifier),
      params t o, .none⟩

/-- `SQLite::remove`. Its test is made before the identifier is read, so it always holds. -/
def remove (t : Table) (a : Nat) (p : Program) : Except Fault Program := do
  let p' ← p.queueExce ⟨.delete t.cls (whereIdentifier (p.object a).identifier), [], .none⟩
  pure (p'.modify a (Object.setIdentifier (-1)))

/-! ## Creating and upgrading tables -/

/-- A column of `CREATE TABLE`. -/
def column (f : Field) : Sql.Column :=
  ⟨f.name, f.primary, !f.nullable, if f.primary then .integer else f.type.affinity⟩

def columns (t : Table) : List Sql.Column := t.fields.map column

/-- The part of `SQLite::processTable` that creates the table and its index; `false` when it
returns early because of a field that can be no column. -/
def create (t : Table) (p : Program) : Except Fault (Program × Bool) :=
  if t.fields.all (fun f => f.primary || f.type.isColumn) then do
    let p ← p.queueExce ⟨.createTable t.cls (columns t), [], .none⟩
    let indexes := (t.fields.filter Field.index).map Field.name
    let p ← p.queueExce ⟨.createIndex (t.cls ++ "_INDEX") t.cls indexes, [], .none⟩
    pure (p, true)
  else pure (p, false)

/-- The field `table_name` of `SQLTable`. -/
def tableName : Field := makeField "table_name" .text true

/-- The field `ver` of `SQLTable`. -/
def ver : Field := makeField "ver" .real false

def setTableName (name : String) (o : Object) : Object := o.set tableName name

def getVer (o : Object) : Rat := o.get ver

def setVer (v : Rat) (o : Object) : Object := o.set ver v

/-- The table of the class `SQLTable`, which records the version of every other table. -/
def info : Table where
  cls := "SQLTable"
  fresh := .zero
  fields := [.identifier, tableName, ver]
  version := 0
  nodup := by decide
  identifier_mem := by decide
  primary := by decide

/-- `SQLTable::checkTable`. Processing `SQLTable` itself looks for no update. -/
def checkInfo (p : Program) : Except Fault Program :=
  if p.registered info.cls then pure p
  else do
    let (p, _) ← create info (p.register info.cls)
    pure p

/-- `SQLTable::getInfo`, with the address of the object. -/
def getInfo (t : Table) (p : Program) : Except Fault (Program × Nat) := do
  let p ← checkInfo p
  let (p, q) ← ((Query.ofTable info).equal tableName.name (.text t.cls)).res p
  match q.results with
  | a :: _ => pure (p, a)
  | [] =>
    let (p, a) := p.new
    let p := p.modify a (setTableName t.cls)
    pure (p.modify a (setVer 0), a)

/-- The name of the table that holds the old rows during an upgrade. -/
def tempName (t : Table) : String := "TEMP_" ++ t.cls

/-- `SQLite::checkUpdate`. -/
def checkUpdate (t : Table) (p : Program) : Except Fault (Program × Bool) := do
  let (p, a) ← getInfo t p
  if getVer (p.object a) = t.version then pure (p, false)
  else do
    let p ← p.queueExce ⟨.renameTable t.cls (tempName t), [], .none⟩
    pure (p, true)

/-- `Model<T>::save` for a class whose table is known to be registered. -/
def saveRegistered (t : Table) (a : Nat) (p : Program) : Except Fault Program :=
  if (p.object a).changed then update t a p else pure p

/-- `SQLite::afterUpdate`. -/
def afterUpdate (t : Table) (p : Program) : Except Fault Program := do
  let (p, a) ← getInfo t p
  let p := p.modify a (setVer t.version)
  let p ← saveRegistered info a p
  let p ← p.queueExce ⟨.selectAll (tempName t), [], .copyRows t⟩
  p.queueExce ⟨.dropTable (tempName t), [], .none⟩

/-- `SQLite::processTable`, for the classes other than `SQLTable`. -/
def processTable (t : Table) (p : Program) : Except Fault Program := do
  let (p, updated) ← checkUpdate t p
  let (p, created) ← create t p
  if created && updated then afterUpdate t p else pure p

end SQLite

/-! ## `Model<T>` -/

namespace Model

/-- `Model<T>::checkTable`. -/
def checkTable (t : Table) (p : Program) : Except Fault Program :=
  if p.registered t.cls then pure p
  else SQLite.processTable t (p.register t.cls)

/-- `Model<T>::query`. -/
def query (t : Table) (p : Program) : Except Fault (Program × Query) := do
  let p ← checkTable t p
  pure (p, .ofTable t)

/-- `T::query()->equal(name, val)->results()`. -/
def resultsEqual (t : Table) (name : String) (val : QueryValue) (p : Program) :
    Except Fault (Program × List Nat) := do
  let (p, q) ← query t p
  let (p, q) ← (q.equal name val).res p
  pure (p, q.results)

/-- `T::query()->sortBy(name)->results()`. -/
def resultsSorted (t : Table) (name : String) (p : Program) :
    Except Fault (Program × List Nat) := do
  let (p, q) ← query t p
  let (p, q) ← (q.sortBy name).res p
  pure (p, q.results)

/-- `Model<T>::find`. -/
def find (t : Table) (id : Int32) (p : Program) : Except Fault (Program × Option Nat) := do
  let (p, q) ← query t p
  let (p, q) ← ({ q.equal Field.identifier.name (.int id.toInt) with limit := 1 }).res p
  pure (p, q.results.head?)

/-- `Model<T>::save`. -/
def save (t : Table) (a : Nat) (p : Program) : Except Fault Program :=
  if (p.object a).changed then do
    let p ← checkTable t p
    SQLite.update t a p
  else pure p

/-- `Model<T>::remove`. -/
def remove (t : Table) (a : Nat) (p : Program) : Except Fault Program := do
  let p ← checkTable t p
  SQLite.remove t a p

end Model

end RetroConfig
