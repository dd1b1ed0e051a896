import Mathlib.Data.List.Nodup
import Mathlib.Algebra.Order.Ring.Rat
import Mathlib.Data.String.Basic
import Mathlib.Logic.Function.Basic

/-!
# A fragment of SQL

Tables with one `INTEGER PRIMARY KEY AUTOINCREMENT` column, and the statements an object
mapper sends to them. A statement is given by its syntax tree; `prepare` rejects what
SQLite rejects when it compiles the text (a missing table or column, an empty list, two
conditions without `AND` between them) and otherwise says what stepping the statement does:
the database afterwards, the row inserted and the rows delivered.

The key is never assigned by a statement. A table carries the facts about its rowids that
`AUTOINCREMENT` guarantees, so that a rowid determines its row (`byKey`) and the next
insert takes a rowid no row has had. Each column only receives values of its own class; a
condition may compare it with a value of another class, which the affinity of the column
converts. Indexes that are not unique do not change what a statement does.

Left out are the limits of SQLite on the size of a statement (the number of its parameters, the
depth of its expressions, the length of a `LIKE` pattern), and the rounding of a decimal number
to a `double`.
-/

namespace Sql

/-- A stored value. -/
inductive Cell where
  | null
  | int (n : Int)
  | real (q : Rat)
  | text (s : String)
  deriving DecidableEq

namespace Cell

/-- The storage class, in the order in which SQLite sorts the classes. -/
def rank : Cell → Nat
  | null => 0
  | int _ => 1
  | real _ => 1
  | text _ => 2

/-- The value of a number; `0` for the other classes. -/
def number : Cell → Rat
  | int n => n
  | real q => q
  | _ => 0

/-- SQLite's order: `NULL`, then numbers by value, then texts by their bytes. -/
def lt (a b : Cell) : Bool :=
  if a.rank < b.rank then true
  else if b.rank < a.rank then false
  else match a, b with
    | text s, text t => decide (s < t)
    | _, _ => decide (a.number < b.number)

end Cell

/-! ## Numbers and texts -/

/-- The number of a decimal digit string. -/
def ofDigits (ds : List Char) : Nat := Nat.ofDigitChars 10 ds 0

/-- `sqlite3Isspace`. -/
def isBlank (c : Char) : Bool := c = ' ' || ('\t' ≤ c && c ≤ '\r')

/-- A text of the form `[+-]digits[.digits][e[+-]digits]`, with blanks around it, as a number. -/
def numeric (s : String) : Option Rat :=
  let cs := s.toList.dropWhile isBlank
  let (negative, cs) := sign cs
  let whole := cs.takeWhile (·.isDigit)
  let (fraction, cs) := match cs.dropWhile (·.isDigit) with
    | '.' :: cs => (cs.takeWhile (·.isDigit), cs.dropWhile (·.isDigit))
    | cs => ([], cs)
  if (whole ++ fraction).isEmpty then none
  else
    let mantissa : Rat := ofDigits (whole ++ fraction) / 10 ^ fraction.length
    match power cs with
    | none => none
    | some (exponent, cs) =>
      if cs.all isBlank then
        some ((if negative then -mantissa else mantissa) * (10 : Rat) ^ exponent)
      else none
where
  sign : List Char → Bool × List Char
    | '-' :: cs => (true, cs)
    | '+' :: cs => (false, cs)
    | cs => (false, cs)
  power : List Char → Option (Int × List Char)
    | c :: cs =>
      if c = 'e' ∨ c = 'E' then
        let (negative, cs) := sign cs
        let ds := cs.takeWhile (·.isDigit)
        if ds.isEmpty then none
        else some (if negative then -(ofDigits ds : Int) else ofDigits ds,
          cs.dropWhile (·.isDigit))
      else some (0, c :: cs)
    | [] => some (0, [])

/-- The digits after a decimal point, one at least and no zero at the end. -/
def fractionText (ds : List Char) : List Char :=
  let kept := (ds.reverse.dropWhile (· = '0')).reverse
  '.' :: if kept.isEmpty then ['0'] else kept

/-- A number with 15 significant digits, in the format `%!.15g`. -/
def realText (q : Rat) : String :=
  if q = 0 then "0.0"
  else
    let a := |q|
    -- the power of ten of the first digit
    let size : Int := (Nat.toDigits 10 a.num.natAbs).length - (Nat.toDigits 10 a.den).length
    let first := if (10 : Rat) ^ size ≤ a then size else size - 1
    let rounded := (a * (10 : Rat) ^ (14 - first) + 1 / 2).floor.toNat
    let (ds, e) := if rounded < 10 ^ 15 then (Nat.toDigits 10 rounded, first)
      else (Nat.toDigits 10 (10 ^ 14), first + 1)
    let body :=
      if e < -4 ∨ 14 < e then
        let power := Nat.toDigits 10 e.natAbs
        ds.take 1 ++ fractionText (ds.drop 1) ++ 'e' :: (if e < 0 then '-' else '+') ::
          (List.replicate (2 - power.length) '0' ++ power)
      else if 0 ≤ e then ds.take (e.toNat + 1) ++ fractionText (ds.drop (e.toNat + 1))
      else '0' :: fractionText (List.replicate (e.natAbs - 1) '0' ++ ds)
    String.ofList (if q < 0 then '-' :: body else body)

/-- The text that `LIKE` sees. -/
def Cell.toText : Cell → String
  | null => ""
  | int n => toString n
  | real q => realText q
  | text s => s

/-- A `LIKE` pattern: `%` stands for any text, `_` for any character, and the letters of ASCII are
compared without their case. -/
def likeChars : List Char → List Char → Bool
  | [], cs => cs.isEmpty
  | '%' :: ps, cs => cs.tails.any (likeChars ps)
  | '_' :: ps, cs => match cs with
    | [] => false
    | _ :: cs => likeChars ps cs
  | p :: ps, cs => match cs with
    | [] => false
    | c :: cs => p.toLower == c.toLower && likeChars ps cs

/-- The type affinity of a column. -/
inductive Affinity where
  | integer
  | real
  | text
  deriving DecidableEq

/-- A value that is compared with a column of this affinity: a text column takes a number for its
text, and a number column takes a text that looks like a number for that number. -/
def Affinity.apply : Affinity → Cell → Cell
  | .text, .int n => .text (Cell.int n).toText
  | .text, .real q => .text (Cell.real q).toText
  | .text, v => v
  | _, .text s => match numeric s with
    | some q => .real q
    | none => .text s
  | _, v => v

/-! ## Statements -/

/-- A value in the text of a statement. `blank` stands where the text has none. -/
inductive Expr where
  | int (n : Int)
  | real (q : Rat)
  | param
  | blank
  deriving DecidableEq

/-- A comparison operator. -/
inductive Cmp where
  | equal
  | greater
  | less
  | like
  deriving DecidableEq

/-- A comparison is true only when neither side is `NULL`. -/
def Cmp.holds (cmp : Cmp) (a b : Cell) : Bool :=
  a ≠ .null && b ≠ .null && match cmp with
    | equal => !a.lt b && !b.lt a
    | greater => b.lt a
    | less => a.lt b
    | like => likeChars b.toText.toList a.toText.toList

/-- The value on the right of an operator, as a column of this affinity sees it. -/
def Cmp.convert (cmp : Cmp) (affinity : Affinity) (v : Cell) : Cell :=
  if cmp = .like then v else affinity.apply v

/-- What a condition asks of its column: `cmp value`, or `in (value, value, ...)`. -/
inductive Test where
  | compare (cmp : Cmp) (value : Expr)
  | among (values : List Expr)

/-- `column cmp value` or `column in (value, value, ...)`. -/
structure Cond where
  column : String
  test : Test

/-- The values of a condition, in the order of the text. -/
def Cond.values (c : Cond) : List Expr :=
  match c.test with
  | .compare _ value => [value]
  | .among values => values

/-- Does a cell pass the test, whose values are `vs`? -/
def Test.holds (test : Test) (affinity : Affinity) (a : Cell) (vs : List Cell) : Bool :=
  match test with
  | .compare cmp _ => cmp.holds a (cmp.convert affinity (vs.headD .null))
  | .among _ => vs.any (fun v => Cmp.equal.holds a (affinity.apply v))

/-- A part of the text after `WHERE`. -/
inductive Piece where
  | cond (c : Cond)
  | and

/-- A column of `CREATE TABLE`. -/
structure Column where
  name : String
  primary : Bool
  notNull : Bool
  affinity : Affinity
  deriving DecidableEq

/-- A statement, before it is prepared. `orderBy` pairs each column with whether it is
ascending. -/
inductive Statement where
  | createTable (name : String) (columns : List Column)
  | createIndex (name table : String) (columns : List String)
  | renameTable (name newName : String)
  | dropTable (name : String)
  | insert (table : String) (columns : List String) (values : List Expr)
  | update (table : String) (assignments : List (String × Expr)) (sentence : List Piece)
  | delete (table : String) (sentence : List Piece)
  | select (columns : List String) (table : String) (sentence : List Piece)
      (orderBy : List (String × Bool)) (limit offset : Option Nat)
  | selectAll (table : String)

/-- The conditions of a text of the form `c AND c AND ... AND c`. -/
def conjunction : List Piece → Option (List Cond)
  | [.cond c] => some [c]
  | .cond c :: .and :: rest => (conjunction rest).map (c :: ·)
  | _ => none

/-- The conditions of a `WHERE` clause; an empty text means that there is no clause. -/
def conditions (sentence : List Piece) : Option (List Cond) :=
  if sentence.isEmpty then some [] else conjunction sentence

/-- The values of the expressions of a statement, left to right, when its placeholders are
bound to `params`. A placeholder that is not bound is `NULL`. -/
def bind : List Expr → List Cell → List Cell
  | [], _ => []
  | .int n :: es, params => .int n :: bind es params
  | .real q :: es, params => .real q :: bind es params
  | .param :: es, params => params.headD .null :: bind es params.tail
  | .blank :: es, params => .null :: bind es params

/-! ## Tables -/

/-- A row: its rowid and the cells of the other columns. -/
structure Row where
  rowid : Nat
  cells : String → Cell

/-- A table whose key is an alias of the rowid. `seq` is the largest rowid that was ever
given out. -/
structure Table where
  columns : List Column
  rows : List Row
  seq : Nat
  bounds : ∀ r ∈ rows, 0 < r.rowid ∧ r.rowid ≤ seq
  nodup : (rows.map Row.rowid).Nodup

/-- The largest rowid SQLite gives out. -/
def maxRowid : Nat := 2 ^ 63 - 1

namespace Table

def names (t : Table) : List String := t.columns.map Column.name

/-- Is this the column that aliases the rowid? -/
def isKey (t : Table) (name : String) : Bool := t.columns.any (fun c => c.primary && c.name == name)

/-- The value of a column in a row. -/
def cell (t : Table) (r : Row) (name : String) : Cell :=
  if t.isKey name then .int r.rowid else r.cells name

def empty (columns : List Column) : Table where
  columns := columns
  rows := []
  seq := 0
  bounds := by simp
  nodup := by simp

/-- Does a row with these cells respect the `NOT NULL` columns? -/
def accepts (t : Table) (cells : String → Cell) : Bool :=
  t.columns.all (fun c => c.primary || !c.notNull || cells c.name ≠ .null)

/-- Append a row under the next rowid. -/
def insert (t : Table) (cells : String → Cell) : Table where
  columns := t.columns
  rows := t.rows ++ [⟨t.seq + 1, cells⟩]
  seq := t.seq + 1
  bounds := by
    intro r hr
    rcases List.mem_append.mp hr with hOld | hNew
    · have := t.bounds r hOld
      omega
    · obtain rfl := List.mem_singleton.mp hNew
      simp
  nodup := by
    rw [List.map_append, List.nodup_append]
    refine ⟨t.nodup, by simp, ?_⟩
    intro a ha b hb hab
    obtain ⟨r, hr, rfl⟩ := List.mem_map.mp ha
    have hLast : b = t.seq + 1 := by simpa using hb
    have := (t.bounds r hr).2
    omega

/-- Rewrite the cells of the rows that satisfy `p`. -/
def update (t : Table) (p : Row → Bool) (f : (String → Cell) → String → Cell) : Table where
  columns := t.columns
  rows := t.rows.map (fun r => if p r then { r with cells := f r.cells } else r)
  seq := t.seq
  bounds := by
    intro r hr
    obtain ⟨q, hq, rfl⟩ := List.mem_map.mp hr
    have := t.bounds q hq
    split <;> exact this
  nodup := by
    have hSame : (t.rows.map (fun r => if p r then { r with cells := f r.cells } else r)).map
        Row.rowid = t.rows.map Row.rowid := by
      rw [List.map_map]
      apply List.map_congr_left
      intro r _
      simp only [Function.comp_apply]
      split <;> rfl
    rw [hSame]
    exact t.nodup

/-- Remove the rows that satisfy `p`. -/
def delete (t : Table) (p : Row → Bool) : Table where
  columns := t.columns
  rows := t.rows.filter (fun r => !p r)
  seq := t.seq
  bounds := fun r hr => t.bounds r (List.mem_filter.mp hr).1
  nodup := t.nodup.sublist (List.filter_sublist.map _)

/-- The affinity of a column. -/
def affinity (t : Table) (name : String) : Affinity :=
  match t.columns.find? (fun c => c.name == name) with
  | some c => c.affinity
  | none => .integer

/-- Does the row satisfy the conditions, whose values are `values`? -/
def satisfies (t : Table) : List Cond → List Cell → Row → Bool
  | [], _, _ => true
  | c :: conds, values, r =>
    c.test.holds (t.affinity c.column) (t.cell r c.column) (values.take c.values.length) &&
      t.satisfies conds (values.drop c.values.length) r

/-- Does the first row come no later than the second in this `ORDER BY`? -/
def precedes (t : Table) : List (String × Bool) → Row → Row → Bool
  | [], _, _ => true
  | (column, asc) :: rest, r, q =>
    let a := t.cell r column
    let b := t.cell q column
    if a.lt b then asc
    else if b.lt a then !asc
    else t.precedes rest r q

/-- The rows that satisfy `p`, ordered and cut. -/
def select (t : Table) (p : Row → Bool) (orderBy : List (String × Bool))
    (limit offset : Option Nat) : List Row :=
  let found := t.rows.filter p
  let sorted := if orderBy.isEmpty then found else found.mergeSort (t.precedes orderBy)
  let rest := sorted.drop (offset.getD 0)
  match limit with
  | some n => rest.take n
  | none => rest

end Table

/-! ## Preparing a statement -/

/-- A database: its tables by name. -/
abbrev Db := String → Option Table

/-- A prepared statement with its parameters bound: what stepping it does. `rowid` is the
row it inserts, if any; `rows` are the rows it delivers, under the names `columns`. -/
structure Prepared where
  db : Db
  rowid : Option Nat
  columns : List String
  rows : List (List Cell)

/-- A statement that delivers no rows. -/
def Prepared.change (db : Db) : Prepared := ⟨db, none, [], []⟩

/-- The cells given by a list of assignments, `cells` elsewhere. -/
def assign (assignments : List (String × Cell)) (cells : String → Cell) (name : String) : Cell :=
  (assignments.lookup name).getD (cells name)

def prepareInsert (db : Db) (table : String) (t : Table) (columns : List String)
    (values : List Expr) (params : List Cell) : Option Prepared :=
  if columns ≠ [] ∧ (∀ c ∈ columns, c ∈ t.names) ∧ columns.length = values.length ∧
      .blank ∉ values then
    let cells := assign (columns.zip (bind values params)) (fun _ => .null)
    -- OR IGNORE: a row that violates a constraint is skipped
    if t.accepts cells ∧ t.seq < maxRowid then
      some ⟨Function.update db table (some (t.insert cells)), some (t.seq + 1), [], []⟩
    else some (.change db)
  else none

def prepareUpdate (db : Db) (table : String) (t : Table) (assignments : List (String × Expr))
    (conds : List Cond) (params : List Cell) : Option Prepared :=
  if assignments ≠ [] ∧ (∀ a ∈ assignments, a.1 ∈ t.names ∧ a.2 ≠ .blank) ∧
      (∀ c ∈ conds, c.column ∈ t.names ∧ .blank ∉ c.values) then
    let values := bind (assignments.map Prod.snd ++ conds.flatMap Cond.values) params
    let p := t.satisfies conds (values.drop assignments.length)
    let f := assign ((assignments.map Prod.fst).zip values)
    -- a violated constraint aborts the statement
    if t.rows.all (fun r => !p r || t.accepts (f r.cells)) then
      some (.change (Function.update db table (some (t.update p f))))
    else some (.change db)
  else none

def prepareDelete (db : Db) (table : String) (t : Table) (conds : List Cond)
    (params : List Cell) : Option Prepared :=
  if ∀ c ∈ conds, c.column ∈ t.names ∧ .blank ∉ c.values then
    let p := t.satisfies conds (bind (conds.flatMap Cond.values) params)
    some (.change (Function.update db table (some (t.delete p))))
  else none

def prepareSelect (db : Db) (t : Table) (columns : List String) (conds : List Cond)
    (orderBy : List (String × Bool)) (limit offset : Option Nat) (params : List Cell) :
    Option Prepared :=
  if columns ≠ [] ∧ (∀ c ∈ columns, c ∈ t.names) ∧
      (∀ c ∈ conds, c.column ∈ t.names ∧ .blank ∉ c.values) ∧
      (∀ o ∈ orderBy, o.1 ∈ t.names) ∧ (offset.isSome → limit.isSome) then
    let p := t.satisfies conds (bind (conds.flatMap Cond.values) params)
    let rows := t.select p orderBy limit offset
    some ⟨db, none, columns, rows.map (fun r => columns.map (t.cell r))⟩
  else none

/-- Prepare a statement and bind its parameters; `none` if SQLite rejects the text. -/
def prepare (db : Db) (params : List Cell) : Statement → Option Prepared
  | .createTable name columns =>
    if (db name).isSome then some (.change db)
    else if columns ≠ [] ∧ (columns.map Column.name).Nodup then
      some (.change (Function.update db name (some (.empty columns))))
    else none
  | .createIndex _ _ _ => some (.change db)
  | .renameTable name newName =>
    match db name, db newName with
    | some t, none =>
      some (.change (Function.update (Function.update db name none) newName (some t)))
    | _, _ => none
  | .dropTable name =>
    if (db name).isSome then some (.change (Function.update db name none)) else none
  | .insert table columns values => do
    let t ← db table
    prepareInsert db table t columns values params
  | .update table assignments sentence => do
    let t ← db table
    let conds ← conditions sentence
    prepareUpdate db table t assignments conds params
  | .delete table sentence => do
    let t ← db table
    let conds ← conditions sentence
    prepareDelete db table t conds params
  | .select columns table sentence orderBy limit offset => do
    let t ← db table
    let conds ← conditions sentence
    prepareSelect db t columns conds orderBy limit offset params
  | .selectAll table => do
    let t ← db table
    some ⟨db, none, t.names, t.rows.map (fun r => t.names.map (t.cell r))⟩

/-! ## Comparisons for equality -/

@[simp] theorem equal_holds_int (a b : Int) :
    Cmp.equal.holds (.int a) (.int b) = decide (a = b) := by
  have hCast : ∀ x y : Int, ((x : Rat) < (y : Rat)) = (x < y) :=
    fun x y => propext Rat.intCast_lt_intCast
  simp only [Cmp.holds, Cell.lt, Cell.rank, Cell.number, hCast]
  by_cases h : a = b
  · simp [h]
  · rcases lt_or_gt_of_ne h with hlt | hgt
    · simp [h, hlt]
    · simp [h, hgt]

@[simp] theorem equal_holds_text (a b : String) :
    Cmp.equal.holds (.text a) (.text b) = decide (a = b) := by
  simp only [Cmp.holds, Cell.lt, Cell.rank]
  by_cases h : a = b
  · simp [h]
  · rcases lt_or_gt_of_ne h with hlt | hgt
    · simp [h, hlt]
    · simp [h, hgt]

/-- Only a text equals a text. -/
theorem equal_holds_text_iff {c : Cell} {s : String} :
    Cmp.equal.holds c (.text s) = true ↔ c = .text s := by
  cases c with
  | text a => simp
  | null => simp [Cmp.holds]
  | int n => simp [Cmp.holds, Cell.lt, Cell.rank]
  | real q => simp [Cmp.holds, Cell.lt, Cell.rank]

/-! ## Rows by their key -/

namespace Table

/-- The row with this key. -/
def byKey (t : Table) (n : Int) : Option Row := t.rows.find? (fun r => decide ((r.rowid : Int) = n))

theorem eq_of_rowid {t : Table} {r q : Row} (hr : r ∈ t.rows) (hq : q ∈ t.rows)
    (h : r.rowid = q.rowid) : r = q := List.inj_on_of_nodup_map t.nodup hr hq h

theorem byKey_eq_some {t : Table} {n : Int} {r : Row} :
    t.byKey n = some r ↔ r ∈ t.rows ∧ (r.rowid : Int) = n := by
  constructor
  · intro h
    exact ⟨List.mem_of_find?_eq_some h, by simpa using List.find?_some h⟩
  · intro h
    cases hFind : t.byKey n with
    | none =>
      have := List.find?_eq_none.mp hFind r h.1
      simp [h.2] at this
    | some q =>
      have hq : q ∈ t.rows := List.mem_of_find?_eq_some hFind
      have hKey : (q.rowid : Int) = n := by simpa using List.find?_some hFind
      rw [eq_of_rowid hq h.1 (by omega)]

theorem byKey_eq_none {t : Table} {n : Int} :
    t.byKey n = none ↔ ∀ r ∈ t.rows, (r.rowid : Int) ≠ n := by
  simp [byKey, List.find?_eq_none]

theorem byKey_ext {t u : Table} {n m : Int}
    (h : ∀ r, (r ∈ t.rows ∧ (r.rowid : Int) = n) ↔ (r ∈ u.rows ∧ (r.rowid : Int) = m)) :
    t.byKey n = u.byKey m := by
  apply Option.ext
  intro r
  rw [byKey_eq_some, byKey_eq_some]
  exact h r

theorem byKey_bounds {t : Table} {n : Int} {r : Row} (h : t.byKey n = some r) :
    0 < n ∧ n ≤ t.seq := by
  obtain ⟨hr, rfl⟩ := byKey_eq_some.mp h
  have := t.bounds r hr
  omega

/-- The rows selected by a condition on the key. -/
theorem filter_key (t : Table) (n : Int) :
    t.rows.filter (fun r => decide ((r.rowid : Int) = n)) = (t.byKey n).toList := by
  have hNodup : (t.rows.filter (fun r => decide ((r.rowid : Int) = n))).Nodup :=
    (t.nodup.of_map _).filter _
  cases h : t.byKey n with
  | none =>
    rw [byKey_eq_none] at h
    apply List.filter_eq_nil_iff.mpr
    intro r hr
    simpa using h r hr
  | some q =>
    obtain ⟨hq, hKey⟩ := byKey_eq_some.mp h
    apply List.perm_singleton.mp
    apply (List.perm_ext_iff_of_nodup hNodup (by simp)).mpr
    intro r
    rw [List.mem_filter, List.mem_singleton]
    constructor
    · intro hr
      have hSame : (r.rowid : Int) = n := by simpa using hr.2
      exact eq_of_rowid hr.1 hq (by omega)
    · intro hr
      subst hr
      exact ⟨hq, by simpa using hKey⟩

theorem byKey_insert (t : Table) (cells : String → Cell) (n : Int) :
    (t.insert cells).byKey n =
      if n = t.seq + 1 then some ⟨t.seq + 1, cells⟩ else t.byKey n := by
  split
  · next h =>
    rw [byKey_eq_some]
    exact ⟨by simp [insert], by simp [h]⟩
  · next h =>
    apply byKey_ext
    intro r
    simp only [insert, List.mem_append, List.mem_singleton]
    constructor
    · intro hr
      rcases hr with ⟨hOld | hNew, hKey⟩
      · exact ⟨hOld, hKey⟩
      · subst hNew
        simp only [Nat.cast_add, Nat.cast_one] at hKey
        omega
    · intro hr
      exact ⟨Or.inl hr.1, hr.2⟩

/-- An update of the row with key `n` touches no other row. -/
theorem byKey_update (t : Table) (n : Int) (f : (String → Cell) → String → Cell) (m : Int) :
    (t.update (fun r => decide ((r.rowid : Int) = n)) f).byKey m =
      if m = n then (t.byKey n).map (fun r => { r with cells := f r.cells })
      else t.byKey m := by
  have hRow : ∀ r : Row, (if decide ((r.rowid : Int) = n) then { r with cells := f r.cells }
      else r).rowid = r.rowid := by
    intro r
    split <;> rfl
  split
  · next h =>
    subst h
    cases hFind : t.byKey m with
    | none =>
      rw [byKey_eq_none] at hFind
      rw [Option.map_none, byKey_eq_none]
      intro r hr
      obtain ⟨q, hq, rfl⟩ := List.mem_map.mp hr
      rw [hRow]
      exact hFind q hq
    | some q =>
      obtain ⟨hq, hKey⟩ := byKey_eq_some.mp hFind
      rw [Option.map_some, byKey_eq_some]
      refine ⟨List.mem_map.mpr ⟨q, hq, ?_⟩, hKey⟩
      simp [hKey]
  · next h =>
    apply byKey_ext
    intro r
    constructor
    · intro hr
      obtain ⟨hMem, hKey⟩ := hr
      obtain ⟨q, hq, rfl⟩ := List.mem_map.mp hMem
      rw [hRow] at hKey
      have hOther : ¬ (q.rowid : Int) = n := by omega
      simpa [hOther] using And.intro hq hKey
    · intro hr
      have hOther : ¬ (r.rowid : Int) = n := by omega
      exact ⟨List.mem_map.mpr ⟨r, hr.1, by simp [hOther]⟩, hr.2⟩

theorem byKey_delete (t : Table) (n m : Int) :
    (t.delete (fun r => decide ((r.rowid : Int) = n))).byKey m =
      if m = n then none else t.byKey m := by
  split
  · next h =>
    subst h
    rw [byKey_eq_none]
    intro r hr
    simpa using (List.mem_filter.mp hr).2
  · next h =>
    apply byKey_ext
    intro r
    simp only [delete, List.mem_filter, Bool.not_eq_true', decide_eq_false_iff_not]
    constructor
    · intro hr
      exact ⟨hr.1.1, hr.2⟩
    · intro hr
      exact ⟨⟨hr.1, by omega⟩, hr.2⟩

end Table

end Sql
