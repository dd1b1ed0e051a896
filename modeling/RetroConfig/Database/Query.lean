import RetroConfig.Database.SQLite

/-!
# The conditions of a query

The builder methods of `SQLQuery` append to a text and to the parameters side by side. A list of
conditions joined by `andQ` leaves `sentence` in the text and its strings in the parameters;
`satisfies_conds` says that SQLite, when it binds the parameters to the text, gets
back the conditions with the values that the methods were called with.
-/

namespace RetroConfig

open SQLite

/-- The cell a query compares with. -/
def QueryValue.cell : QueryValue → Sql.Cell
  | .text s => .text (Text.cString s)
  | .int n => .int n

/-- What a value leaves in the text. -/
def QueryValue.expr : QueryValue → Sql.Expr
  | .text _ => .param
  | .int n => .int n

/-- What a value leaves in the parameters. -/
def QueryValue.param : QueryValue → Option String
  | .text s => some s
  | .int _ => none

/-- A condition with the values that its method was called with. -/
inductive Condition where
  | compare (name : String) (cmp : Sql.Cmp) (val : QueryValue)
  | among (name : String) (vals : List QueryValue)

namespace Condition

def name : Condition → String
  | compare name _ _ => name
  | among name _ => name

def vals : Condition → List QueryValue
  | compare _ _ val => [val]
  | among _ vals => vals

/-- The condition in the text. -/
def cond : Condition → Sql.Cond
  | compare name cmp val => ⟨name, .compare cmp val.expr⟩
  | among name vals => ⟨name, .among (vals.map QueryValue.expr)⟩

/-- The condition in the parameters. -/
def params (c : Condition) : List String := c.vals.filterMap QueryValue.param

/-- Does a row satisfy the condition? -/
def holds (u : Sql.Table) (r : Sql.Row) : Condition → Bool
  | compare name cmp val => cmp.holds (u.cell r name) (cmp.convert (u.affinity name) val.cell)
  | among name vals =>
    vals.any fun v => Sql.Cmp.equal.holds (u.cell r name) ((u.affinity name).apply v.cell)

theorem cond_column (c : Condition) : c.cond.column = c.name := by
  cases c <;> rfl

theorem cond_values (c : Condition) : c.cond.values = c.vals.map QueryValue.expr := by
  cases c <;> rfl

theorem blank_notMem_values (c : Condition) : .blank ∉ c.cond.values := by
  rw [cond_values, List.mem_map]
  rintro ⟨v, -, hv⟩
  cases v <;> cases hv

/-- The method of the condition. -/
def call (q : Query) : Condition → Query
  | compare name cmp val => q.insertAction name val cmp
  | among name vals => q.inArray name vals

theorem inValues_eq (vals : List QueryValue) :
    Query.inValues vals = (vals.map QueryValue.expr, vals.filterMap QueryValue.param) := by
  induction vals with
  | nil => rfl
  | cons v vals ih => cases v <;> rw [Query.inValues, ih] <;> rfl

theorem call_sentence (q : Query) (c : Condition) :
    (c.call q).sentence = q.sentence ++ [.cond c.cond] := by
  cases c with
  | compare name cmp val => cases val <;> rfl
  | among name vals => rw [call, Query.inArray, inValues_eq]; rfl

theorem call_params (q : Query) (c : Condition) : (c.call q).params = q.params ++ c.params := by
  cases c with
  | compare name cmp val =>
    cases val with
    | text s => rfl
    | int n => exact (List.append_nil _).symm
  | among name vals => rw [call, Query.inArray, inValues_eq]; rfl

end Condition

/-- The text of conditions joined by `andQ`. -/
def sentence (conds : List Condition) : List Sql.Piece :=
  (conds.map fun c => .cond c.cond).intersperse .and

theorem conjunction_sentence (c : Condition) (conds : List Condition) :
    Sql.conjunction (sentence (c :: conds)) = some ((c :: conds).map Condition.cond) := by
  induction conds generalizing c with
  | nil => rfl
  | cons d conds ih =>
    have hSentence : sentence (c :: d :: conds) = .cond c.cond :: .and :: sentence (d :: conds) := rfl
    rw [hSentence, Sql.conjunction, ih]
    rfl

theorem conditions_sentence (conds : List Condition) :
    Sql.conditions (sentence conds) = some (conds.map Condition.cond) := by
  cases conds with
  | nil => rfl
  | cons c conds =>
    have hNonempty : (sentence (c :: conds)).isEmpty = false := by cases conds <;> rfl
    rw [Sql.conditions, hNonempty]
    exact conjunction_sentence c conds

/-- The values in the text and the parameters, taken together, are the values of the calls. -/
theorem bind_vals (vals : List QueryValue) (es : List Sql.Expr) (ps : List String) :
    Sql.bind (vals.map QueryValue.expr ++ es) (bound (vals.filterMap QueryValue.param ++ ps)) =
      vals.map QueryValue.cell ++ Sql.bind es (bound ps) := by
  induction vals with
  | nil => rfl
  | cons v vals ih =>
    cases v with
    | text s =>
      exact congrArg (Sql.Cell.text (Text.cString s) :: ·) ih
    | int n => exact congrArg (Sql.Cell.int n :: ·) ih

theorem satisfies_conds (u : Sql.Table) (conds : List Condition) (r : Sql.Row) :
    u.satisfies (conds.map Condition.cond)
        (Sql.bind ((conds.map Condition.cond).flatMap Sql.Cond.values)
          (bound (conds.flatMap Condition.params))) r =
      conds.all (Condition.holds u r) := by
  induction conds with
  | nil => rfl
  | cons c conds ih =>
    have hLength : c.cond.values.length = (c.vals.map QueryValue.cell).length := by
      rw [c.cond_values, List.length_map, List.length_map]
    have hTest : c.cond.test.holds (u.affinity c.cond.column) (u.cell r c.cond.column)
        (c.vals.map QueryValue.cell) = c.holds u r := by
      cases c with
      | compare name cmp val => rfl
      | among name vals => exact List.any_map
    rw [List.map_cons, List.flatMap_cons, List.flatMap_cons, List.all_cons, ← ih, c.cond_values,
      Condition.params, bind_vals, Sql.Table.satisfies, hLength, List.take_left, List.drop_left,
      hTest]

/-! ## The statement of a query -/

namespace Query

/-- The query is made of these conditions, joined by `andQ`. -/
structure Built (q : Query) (conds : List Condition) : Prop where
  sentence : q.sentence = RetroConfig.sentence conds
  params : q.params = conds.flatMap Condition.params

/-- The text names columns of the table only, and has no `OFFSET` without a `LIMIT`. -/
structure Accepted (q : Query) (conds : List Condition) (u : Sql.Table) : Prop where
  conds : ∀ c ∈ conds, c.name ∈ u.names
  sortBys : ∀ name ∈ q.sortBys, name ∈ u.names
  offset : 0 ≤ q.offset → 0 < q.limit

/-- The rows that the query is to deliver. -/
def selected (q : Query) (conds : List Condition) (u : Sql.Table) : List Sql.Row :=
  u.select (fun r => conds.all (Condition.holds u r)) q.orderBy
    (if 0 < q.limit then some q.limit.toNat else none)
    (if 0 ≤ q.offset then some q.offset.toNat else none)

/-- The cells that SQLite delivers, none if it does not accept the statement. -/
def rows (q : Query) (db : Sql.Db) : List (List Sql.Cell) :=
  match Sql.prepare db (bound q.params) q.selectStatement with
  | some stmt => stmt.rows
  | none => []

theorem mem_orderBy {q : Query} {o : String × Bool} (h : o ∈ q.orderBy) : o.1 ∈ q.sortBys := by
  rcases List.mem_append.mp h with hInit | hLast
  · obtain ⟨name, hName, rfl⟩ := List.mem_map.mp hInit
    exact List.dropLast_subset _ hName
  · obtain ⟨name, hName, rfl⟩ := List.mem_map.mp hLast
    exact List.mem_of_getLast? (Option.mem_toList.mp hName)

/-- `LIMIT` is there if `OFFSET` is. -/
theorem offset_limit_iff (q : Query) :
    ((if 0 ≤ q.offset then some q.offset.toNat else none).isSome →
      (if 0 < q.limit then some q.limit.toNat else none).isSome) ↔ (0 ≤ q.offset → 0 < q.limit) := by
  by_cases hOffset : 0 ≤ q.offset
  · by_cases hLimit : 0 < q.limit <;> simp [hOffset, hLimit]
  · simp [hOffset]

end Query

end RetroConfig
