import RetroConfig.Database.Open
import RetroConfig.Library.SqlOrder
import Mathlib.Data.List.Induction

/-!
# What a query means

The builder methods of `SQLQuery` can be called in any order. `Asks` reads off a sequence of calls
what it asks for: conditions joined by `andQ`, sort columns, a direction, a limit and an offset.
`meaning_iff` says when the results are what the calls ask for, whatever the conditions and the
content of the table.

Two parts of the text do not go together. `OFFSET` without `LIMIT` is no SQL, so such a
statement is dropped and the caller sees no rows. `DESC` is written once, after the last sort
column, so all other columns are sorted in ascending order.
-/

namespace RetroConfig

open SQLite Program

namespace Query

/-! ## Builder calls -/

/-- A call of a builder method: one of the five conditions, or one of the others. -/
inductive Call where
  | condition (c : Condition)
  | andQ
  | sortBy (name : String)
  | setSortAsc (asc : Bool)
  | limit (l : Int)
  | offset (o : Int)

namespace Call

def apply (q : Query) : Call → Query
  | condition c => c.call q
  | andQ => q.andQ
  | sortBy name => q.sortBy name
  | setSortAsc asc => q.setSortAsc asc
  | limit l => q.setLimit l
  | offset o => q.setOffset o

/-- What a call adds to the text after `WHERE`: a condition, or `and`. -/
def piece : Call → Option (Option Condition)
  | condition c => some (some c)
  | andQ => some none
  | _ => none

def sortName : Call → Option String
  | sortBy name => some name
  | _ => none

def direction : Call → Option Bool
  | setSortAsc asc => some asc
  | _ => none

def limitValue : Call → Option Int
  | limit l => some l
  | _ => none

def offsetValue : Call → Option Int
  | offset o => some o
  | _ => none

end Call

/-- The query after the calls. -/
def build (t : Table) (calls : List Call) : Query := calls.foldl Call.apply (.ofTable t)

theorem build_concat (t : Table) (calls : List Call) (c : Call) :
    build t (calls ++ [c]) = c.apply (build t calls) := by
  rw [build, List.foldl_append]
  rfl

/-- The last value that the calls set, if any does. -/
def lastValue {α : Type} (f : Call → Option α) (calls : List Call) : Option α :=
  (calls.filterMap f).getLast?

theorem lastValue_concat {α : Type} (f : Call → Option α) (calls : List Call) (c : Call) :
    lastValue f (calls ++ [c]) = (f c).or (lastValue f calls) := by
  rw [lastValue, List.filterMap_append, List.getLast?_append]
  cases hc : f c <;> simp [hc, lastValue]

/-- The pieces of text of a sequence of conditions and `and`s. -/
def textPiece : Option Condition → Sql.Piece
  | some c => .cond c.cond
  | none => .and

def pieceParams : Option Condition → List String
  | some c => c.params
  | none => []

theorem apply_kept (q : Query) (c : Call) :
    (c.apply q).table = q.table ∧ (c.apply q).results = q.results ∧
      (q.changed = true → (c.apply q).changed = true) := by
  cases c with
  | condition c =>
    cases c with
    | compare name cmp val => cases val <;> exact ⟨rfl, rfl, fun _ => rfl⟩
    | among name vals => exact ⟨rfl, rfl, id⟩
  | _ => exact ⟨rfl, rfl, id⟩

/-- The state of the builder, part by part. -/
theorem build_spec (t : Table) (calls : List Call) :
    (build t calls).table = t ∧ (build t calls).changed = true ∧
      (build t calls).sentence = (calls.filterMap Call.piece).map textPiece ∧
      (build t calls).params = (calls.filterMap Call.piece).flatMap pieceParams ∧
      (build t calls).sortBys = calls.filterMap Call.sortName ∧
      (build t calls).sortAsc = (lastValue Call.direction calls).getD true ∧
      (build t calls).limit = (lastValue Call.limitValue calls).getD 0 ∧
      (build t calls).offset = (lastValue Call.offsetValue calls).getD (-1) := by
  induction calls using List.reverseRecOn with
  | nil => exact ⟨rfl, rfl, rfl, rfl, rfl, rfl, rfl, rfl⟩
  | append_singleton calls c ih =>
    obtain ⟨hTable, hChanged, hSentence, hParams, hSortBys, hAsc, hLimit, hOffset⟩ := ih
    obtain ⟨hTable', -, hChanged'⟩ := apply_kept (build t calls) c
    simp only [build_concat, lastValue_concat, List.filterMap_append, List.map_append,
      List.flatMap_append]
    refine ⟨hTable'.trans hTable, hChanged' hChanged, ?_⟩
    cases c with
    | condition c =>
      have hOther : (c.call (build t calls)).sortBys = (build t calls).sortBys ∧
          (c.call (build t calls)).sortAsc = (build t calls).sortAsc ∧
          (c.call (build t calls)).limit = (build t calls).limit ∧
          (c.call (build t calls)).offset = (build t calls).offset := by
        cases c with
        | compare name cmp val => cases val <;> exact ⟨rfl, rfl, rfl, rfl⟩
        | among name vals => exact ⟨rfl, rfl, rfl, rfl⟩
      refine ⟨?_, ?_, ?_, ?_, ?_, ?_⟩
      · exact (Condition.call_sentence _ c).trans (by rw [hSentence]; rfl)
      · exact (Condition.call_params _ c).trans (by rw [hParams]; simp [Call.piece, pieceParams])
      · exact hOther.1.trans (by rw [hSortBys]; simp [Call.sortName])
      · exact hOther.2.1.trans hAsc
      · exact hOther.2.2.1.trans hLimit
      · exact hOther.2.2.2.trans hOffset
    | _ =>
      simp [Call.apply, Query.andQ, Query.sortBy, Query.setSortAsc, Query.setLimit, Query.setOffset,
        Call.piece, Call.sortName, Call.direction, Call.limitValue, Call.offsetValue, textPiece,
        pieceParams, hSentence, hParams, hSortBys, hAsc, hLimit, hOffset]

/-! ## What the calls ask for -/

/-- What calls ask for besides conditions. Limit and offset are `int`s. -/
structure Shape where
  sortBys : List String
  asc : Bool
  limit : Option Nat
  offset : Option Nat
  limit_int : ∀ l, limit = some l → 1 ≤ l ∧ l < 2 ^ 31
  offset_int : ∀ o, offset = some o → o < 2 ^ 31

/-- The calls ask for the rows that satisfy the conditions, in this shape. -/
structure Asks (calls : List Call) (conds : List Condition) (s : Shape) : Prop where
  conds : calls.filterMap Call.piece = (conds.map some).intersperse none
  sortBys : calls.filterMap Call.sortName = s.sortBys
  asc : (lastValue Call.direction calls).getD true = s.asc
  limit : lastValue Call.limitValue calls = s.limit.map Int.ofNat
  offset : lastValue Call.offsetValue calls = s.offset.map Int.ofNat

/-- The objects are those of the rows that are asked for: of the rows that satisfy all conditions,
ordered by the sort columns in the direction of the flag, without the first `offset` and cut
to `limit`. -/
def Meets (t : Table) (u : Sql.Table) (conds : List Condition) (s : Shape) (objects : List Object) :
    Prop :=
  ∃ rows : List Sql.Row, rows.Perm (u.rows.filter fun r => conds.all (Condition.holds u r)) ∧
    rows.Pairwise (fun r q => u.precedes (s.sortBys.map (·, s.asc)) r q = true) ∧
    objects = (Sql.Table.cut s.limit s.offset rows).map (rowObject t u)

/-- `T::query()`, the calls and `results()`: the statement is accepted, and the results are those
that the calls ask for. -/
def Answers (t : Table) (calls : List Call) (conds : List Condition) (s : Shape) (p : Program)
    (u : Sql.Table) : Prop :=
  ∃ p₁ db p₂ q, Model.query t p = .ok (p₁, .ofTable t) ∧ View p₁ db ∧
    (Sql.prepare db (bound (build t calls).params) (build t calls).selectStatement).isSome = true ∧
    (build t calls).res p₁ = .ok (p₂, q) ∧ Meets t u conds s (q.results.map p₂.object)

/-- Queries of this shape with at least so many conditions mean what they ask for: whatever the
conditions, the order of the calls and the content of the table. -/
def Meaning (t : Table) (s : Shape) (least : Nat) : Prop :=
  ∀ calls conds, least ≤ conds.length → Asks calls conds s →
    (∀ c ∈ conds, c.name ∈ t.fields.map Field.name) →
    ∀ p u, Openable t p u → Answers t calls conds s p u

section Shapes

variable {t : Table} {calls : List Call} {conds : List Condition} {s : Shape}

theorem joined_pieces (conds : List Condition) :
    ((conds.map some).intersperse none).map textPiece = RetroConfig.sentence conds ∧
      ((conds.map some).intersperse none).flatMap pieceParams = conds.flatMap Condition.params := by
  induction conds with
  | nil => exact ⟨rfl, rfl⟩
  | cons c conds ih =>
    cases conds with
    | nil => exact ⟨rfl, rfl⟩
    | cons d conds =>
      have hStep : ((c :: d :: conds).map some).intersperse none =
          some c :: none :: ((d :: conds).map some).intersperse none := rfl
      rw [hStep, List.map_cons, List.map_cons, ih.1, List.flatMap_cons, List.flatMap_cons, ih.2,
        List.flatMap_cons]
      exact ⟨rfl, rfl⟩

theorem Asks.built (h : Asks calls conds s) : (build t calls).Built conds := by
  obtain ⟨-, -, hSentence, hParams, -⟩ := build_spec t calls
  rw [h.conds] at hSentence hParams
  exact ⟨hSentence.trans (joined_pieces conds).1, hParams.trans (joined_pieces conds).2⟩

theorem Asks.shape (h : Asks calls conds s) :
    (build t calls).sortBys = s.sortBys ∧ (build t calls).sortAsc = s.asc ∧
      (if 0 < (build t calls).limit then some (build t calls).limit.toNat else none) = s.limit ∧
      (if 0 ≤ (build t calls).offset then some (build t calls).offset.toNat else none) =
        s.offset := by
  obtain ⟨-, -, -, -, hSortBys, hAsc, hLimit, hOffset⟩ := build_spec t calls
  refine ⟨hSortBys.trans h.sortBys, hAsc.trans h.asc, ?_, ?_⟩
  · rw [hLimit, h.limit]
    cases hl : s.limit with
    | none => rfl
    | some l =>
      have hPos : (0 : Int) < Int.ofNat l := by
        have hInt := s.limit_int l hl
        rw [Int.ofNat_eq_natCast]
        omega
      rw [Option.map_some, Option.getD_some, if_pos hPos]
      rfl
  · rw [hOffset, h.offset]
    cases ho : s.offset with
    | none => rfl
    | some o =>
      rw [Option.map_some, Option.getD_some, if_pos (by simp)]
      rfl

theorem Asks.offset_iff (h : Asks calls conds s) :
    (0 ≤ (build t calls).offset → 0 < (build t calls).limit) ↔
      (s.offset.isSome → s.limit.isSome) := by
  obtain ⟨-, -, hLimit, hOffset⟩ := h.shape (t := t)
  rw [← (build t calls).offset_limit_iff, hLimit, hOffset]

/-- The direction of `ORDER BY` is that of all columns if it is ascending or there is one. -/
theorem orderBy_eq {q : Query} (h : q.sortAsc = true ∨ q.sortBys.length ≤ 1) :
    q.orderBy = q.sortBys.map (·, q.sortAsc) := by
  rcases List.eq_nil_or_concat q.sortBys with hNil | ⟨init, last, hLast⟩
  · rw [orderBy, hNil]
    rfl
  · rw [List.concat_eq_append] at hLast
    rw [orderBy, hLast, List.dropLast_concat, List.getLast?_concat, List.map_append]
    rcases h with hAsc | hLength
    · rw [hAsc]
      rfl
    · have hInit : init = [] := by
        rw [hLast, List.length_append, List.length_singleton] at hLength
        exact List.length_eq_zero_iff.mp (by omega)
      rw [hInit]
      rfl

end Shapes

/-! ## Queries that mean what they ask for -/

section Answers

variable {t : Table} {p : Program} {u : Sql.Table}

/-- `T::query()`, the calls and `results()`. -/
theorem res_open (hColumns : t.Columns) (h : Openable t p u) (calls : List Call) :
    ∃ p₁ db p₂ q, Model.query t p = .ok (p₁, .ofTable t) ∧ View p₁ db ∧ Holds db t u ∧
      (build t calls).res p₁ = .ok (p₂, q) ∧
      q.results.map p₂.object = ((build t calls).rows db).map (readRow t) := by
  obtain ⟨hTable, hChanged, -⟩ := build_spec t calls
  obtain ⟨p₁, db, hCheck, hView, hHolds, -, -⟩ := checkTable_open hColumns h
  obtain ⟨d, hRes, -, -, -, hObjects⟩ := hView.res hChanged
  rw [hTable] at hObjects
  refine ⟨p₁, db, _, _, ?_, hView, hHolds, hRes, hObjects⟩
  rw [Model.query, hCheck]
  rfl

theorem answers_of_shape (hColumns : t.Columns) {s : Shape}
    (hSortBys : ∀ name ∈ s.sortBys, name ∈ t.fields.map Field.name)
    (hOffset : s.offset.isSome → s.limit.isSome) (hAsc : s.asc = true ∨ s.sortBys.length ≤ 1)
    {calls : List Call} {conds : List Condition} (hAsks : Asks calls conds s)
    (hConds : ∀ c ∈ conds, c.name ∈ t.fields.map Field.name) (h : Openable t p u) :
    Answers t calls conds s p u := by
  obtain ⟨p₁, db, p₂, q, hQuery, hView, hHolds, hRes, hObjects⟩ := res_open hColumns h calls
  obtain ⟨hTable, -⟩ := build_spec t calls
  obtain ⟨hSorts, hDirection, hLimit, hSkip⟩ := hAsks.shape (t := t)
  have hAccepted : (build t calls).Accepted conds u := by
    refine ⟨?_, ?_, hAsks.offset_iff.mpr hOffset⟩
    · rw [hHolds.names]
      exact hConds
    · rw [hHolds.names, hSorts]
      exact hSortBys
  have hHolds' : Holds db (build t calls).table u := hTable.symm ▸ hHolds
  refine ⟨p₁, db, p₂, q, hQuery, hView, ?_, hRes, ?_⟩
  · rw [prepare_select hHolds' hAsks.built hAccepted]
    rfl
  · have hOrder : (build t calls).orderBy = s.sortBys.map (·, s.asc) := by
      rw [orderBy_eq (by rw [hSorts, hDirection]; exact hAsc), hSorts, hDirection]
    obtain ⟨rows, hPerm, hSorted, hCut⟩ := u.select_cut (fun r => conds.all (Condition.holds u r))
      (s.sortBys.map (·, s.asc)) s.limit s.offset
    refine ⟨rows, hPerm, hSorted, ?_⟩
    rw [hObjects, rows_select hHolds' hAsks.built hAccepted, selected, hLimit, hSkip, hOrder, hCut,
      List.map_map, hTable]
    rfl

/-! ## Queries that do not -/

/-- A sequence of calls that asks for a shape, without a condition. -/
def plainCalls (s : Shape) : List Call :=
  s.sortBys.map .sortBy ++ .setSortAsc s.asc :: (s.limit.toList.map (fun l => .limit l) ++
    s.offset.toList.map (fun o => .offset o))

theorem plainCalls_asks (s : Shape) : Asks (plainCalls s) [] s := by
  have hSorts : ∀ {α : Type} (f : Call → Option α), (∀ name, f (.sortBy name) = none) →
      (s.sortBys.map Call.sortBy).filterMap f = [] := by
    intro α f hf
    rw [List.filterMap_map]
    exact List.filterMap_eq_nil_iff.mpr fun name _ => hf name
  have hNames : (s.sortBys.map Call.sortBy).filterMap Call.sortName = s.sortBys := by
    rw [List.filterMap_map]
    exact List.filterMap_some
  refine ⟨?_, ?_, ?_, ?_, ?_⟩
  · rw [plainCalls, List.filterMap_append, hSorts Call.piece fun _ => rfl]
    cases s.limit <;> cases s.offset <;> rfl
  · rw [plainCalls, List.filterMap_append, hNames]
    cases s.limit <;> cases s.offset <;> exact List.append_nil _
  · rw [lastValue, plainCalls, List.filterMap_append, hSorts Call.direction fun _ => rfl]
    cases s.limit <;> cases s.offset <;> rfl
  · rw [lastValue, plainCalls, List.filterMap_append, hSorts Call.limitValue fun _ => rfl]
    cases s.limit <;> cases s.offset <;> rfl
  · rw [lastValue, plainCalls, List.filterMap_append, hSorts Call.offsetValue fun _ => rfl]
    cases s.limit <;> cases s.offset <;> rfl

/-- The calls that join conditions by `andQ`. -/
def condCalls (conds : List Condition) : List Call :=
  (conds.map Call.condition).intersperse .andQ

theorem condCalls_cons (c d : Condition) (conds : List Condition) :
    condCalls (c :: d :: conds) = .condition c :: .andQ :: condCalls (d :: conds) := rfl

theorem condCalls_pieces (conds : List Condition) :
    (condCalls conds).filterMap Call.piece = (conds.map some).intersperse none := by
  induction conds with
  | nil => rfl
  | cons c conds ih =>
    cases conds with
    | nil => rfl
    | cons d conds =>
      have hPieces : ((c :: d :: conds).map some).intersperse none =
          some c :: none :: ((d :: conds).map some).intersperse none := rfl
      rw [condCalls_cons, hPieces, ← ih]
      rfl

theorem condCalls_other {α : Type} {f : Call → Option α} (hCond : ∀ c, f (.condition c) = none)
    (hAnd : f .andQ = none) (conds : List Condition) : (condCalls conds).filterMap f = [] := by
  induction conds with
  | nil => rfl
  | cons c conds ih =>
    cases conds with
    | nil => exact List.filterMap_cons_none (hCond c)
    | cons d conds =>
      rw [condCalls_cons, List.filterMap_cons_none (hCond c), List.filterMap_cons_none hAnd, ih]

/-- Every shape can be asked for together with any conditions. -/
theorem condCalls_asks (conds : List Condition) (s : Shape) :
    Asks (condCalls conds ++ plainCalls s) conds s := by
  have hPlain := plainCalls_asks s
  refine ⟨?_, ?_, ?_, ?_, ?_⟩
  · have hPieces : (plainCalls s).filterMap Call.piece = [] := hPlain.conds
    rw [List.filterMap_append, condCalls_pieces, hPieces, List.append_nil]
  · rw [List.filterMap_append, condCalls_other (fun _ => rfl) rfl]
    exact hPlain.sortBys
  · rw [lastValue, List.filterMap_append, condCalls_other (fun _ => rfl) rfl]
    exact hPlain.asc
  · rw [lastValue, List.filterMap_append, condCalls_other (fun _ => rfl) rfl]
    exact hPlain.limit
  · rw [lastValue, List.filterMap_append, condCalls_other (fun _ => rfl) rfl]
    exact hPlain.offset

/-- `identifier > 0`, which every row satisfies. -/
def everyRow : Condition := .compare Field.identifier.name .greater (.int 0)

theorem holds_everyRow {db : Sql.Db} {u : Sql.Table} (h : Holds db t u) {r : Sql.Row}
    (hr : r ∈ u.rows) : everyRow.holds u r = true := by
  have hAffinity : u.affinity Field.identifier.name = .integer := h.affinity t.identifier_mem
  have hPos : ((0 : Int) : Rat) < (((r.rowid : Nat) : Int) : Rat) :=
    Rat.intCast_lt_intCast.mpr (by have := (u.bounds r hr).1; omega)
  rw [everyRow, Condition.holds, h.cell_identifier, hAffinity]
  exact decide_eq_true hPos

/-- A program that has opened a file with this table. -/
def opened (t : Table) (u : Sql.Table) : Program :=
  (boot (fun _ => some u) (fun _ => .zero) id).register t.cls

theorem opened_openable {u : Sql.Table} (hu : u.columns = columns t) : Openable t (opened t u) u :=
  .ready _ (Function.update_self ..) ((boot_view _ _ _).register t.cls) ⟨rfl, hu⟩

/-- SQLite does not accept `OFFSET` without `LIMIT`. -/
theorem prepare_offset {db : Sql.Db} {q : Query} {conds : List Condition}
    (h : Holds db q.table u) (hBuilt : q.Built conds) (hOffset : ¬ (0 ≤ q.offset → 0 < q.limit)) :
    Sql.prepare db (bound q.params) q.selectStatement = none := by
  simp only [selectStatement, Sql.prepare, h.table, Option.bind_eq_bind, Option.bind_some,
    hBuilt.sentence, conditions_sentence, Sql.prepareSelect]
  exact if_neg fun hText => hOffset (q.offset_limit_iff.mp hText.2.2.2.2)

/-- What a query answers, from what it asks for. -/
theorem Answers.spec (hColumns : t.Columns) {calls : List Call} {conds : List Condition} {s : Shape}
    (hOpen : Openable t p u) (h : Answers t calls conds s p u) :
    ∃ db, Holds db (build t calls).table u ∧
      (Sql.prepare db (bound (build t calls).params) (build t calls).selectStatement).isSome = true ∧
      Meets t u conds s (((build t calls).rows db).map (readRow t)) := by
  obtain ⟨p₁, db, p₂, q, hQuery, hView, hSome, hRes, hMeets⟩ := h
  obtain ⟨p₁', db', p₂', q', hQuery', hView', hHolds, hRes', hObjects⟩ :=
    res_open hColumns hOpen calls
  obtain rfl : p₁ = p₁' := congrArg Prod.fst (Except.ok.inj (hQuery.symm.trans hQuery'))
  obtain rfl : db = db' := Except.ok.inj (hView.pending.symm.trans hView'.pending)
  obtain ⟨rfl, rfl⟩ : p₂ = p₂' ∧ q = q' := Prod.mk.inj (Except.ok.inj (hRes.symm.trans hRes'))
  obtain ⟨hTable, -⟩ := build_spec t calls
  exact ⟨db, hTable.symm ▸ hHolds, hSome, hObjects ▸ hMeets⟩

/-- An offset without a limit is never answered. -/
theorem not_answers_offset (hColumns : t.Columns) {calls : List Call} {conds : List Condition}
    {s : Shape} (hAsks : Asks calls conds s) (hOffset : ¬ (s.offset.isSome → s.limit.isSome))
    (hOpen : Openable t p u) : ¬ Answers t calls conds s p u := by
  intro h
  obtain ⟨db, hHolds, hSome, -⟩ := h.spec hColumns hOpen
  rw [prepare_offset hHolds hAsks.built fun hNot => hOffset (hAsks.offset_iff.mp hNot)] at hSome
  cases hSome

/-- A cell of a column, low or high. -/
def level : FieldType → Bool → Sql.Cell
  | .real, high => .real (if high then 1 else 0)
  | .text, high => .text (if high then "a" else "")
  | _, high => .int (if high then 1 else 0)

def typeOf (t : Table) (name : String) : FieldType :=
  match t.fields.find? (fun f => f.name == name) with
  | some f => f.type
  | none => .integer

/-- A table with `n` rows that are low in every column, and then `n` that are high. -/
def levels (t : Table) (n : Nat) : Sql.Table where
  columns := columns t
  rows := (List.range (n + n)).map fun i => ⟨i + 1, fun name => level (typeOf t name) (decide (n ≤ i))⟩
  seq := n + n
  bounds := by
    intro r hr
    obtain ⟨i, hi, rfl⟩ := List.mem_map.mp hr
    have hLt := List.mem_range.mp hi
    exact ⟨Nat.succ_pos i, hLt⟩
  nodup := by
    rw [List.map_map]
    exact List.nodup_range.map fun i j hij => Nat.succ.inj hij

theorem levels_cell {f : Field} (hf : f ∈ t.fields) (n i : Nat) :
    (levels t n).cell ⟨i + 1, fun name => level (typeOf t name) (decide (n ≤ i))⟩ f.name =
      if f.name = Field.identifier.name then .int (i + 1 : Nat) else level f.type (decide (n ≤ i)) := by
  have hHolds : Holds (fun _ => some (levels t n)) t (levels t n) := ⟨rfl, rfl⟩
  have hType : typeOf t f.name = f.type := by rw [typeOf, t.find?_name hf]
  rw [Sql.Table.cell]
  by_cases hKey : f.name = Field.identifier.name
  · rw [if_pos ((hHolds.isKey_iff _).mpr hKey), if_pos hKey]
  · rw [if_neg fun h => hKey ((hHolds.isKey_iff _).mp h), if_neg hKey, ← hType]

theorem level_lt (τ : FieldType) : (level τ false).key < (level τ true).key := by
  apply (Sql.Cell.lt_iff _ _).mp
  cases τ <;> decide

/-- Is this one of the first rows? -/
def isLow (n : Nat) (r : Sql.Row) : Bool := decide (r.rowid ≤ n)

theorem levels_lt {f : Field} (hf : f ∈ t.fields) {n : Nat} {r q : Sql.Row}
    (hr : r ∈ (levels t n).rows) (hq : q ∈ (levels t n).rows) (hLow : isLow n r = true)
    (hHigh : isLow n q = false) :
    ((levels t n).cell r f.name).key < ((levels t n).cell q f.name).key := by
  obtain ⟨i, -, rfl⟩ := List.mem_map.mp hr
  obtain ⟨j, -, rfl⟩ := List.mem_map.mp hq
  have hi' : i + 1 ≤ n := by simpa [isLow] using hLow
  have hj' : n ≤ j := by
    have hNot : ¬ j + 1 ≤ n := by simpa [isLow] using hHigh
    omega
  rw [levels_cell hf n i, levels_cell hf n j]
  by_cases hKey : f.name = Field.identifier.name
  · rw [if_pos hKey, if_pos hKey]
    refine (Sql.Cell.lt_iff _ _).mp ?_
    have hRat : (((i + 1 : Nat) : Int) : Rat) < (((j + 1 : Nat) : Int) : Rat) :=
      Rat.intCast_lt_intCast.mpr (by omega)
    exact decide_eq_true hRat
  · rw [if_neg hKey, if_neg hKey, decide_eq_false (by omega), decide_eq_true hj']
    exact level_lt f.type

theorem levels_count (t : Table) (n : Nat) :
    (levels t n).rows.countP (isLow n) = n ∧
      (levels t n).rows.countP (fun r => !isLow n r) = n := by
  have hSplit : ∀ P : Nat → Bool, ((levels t n).rows.countP fun r => P r.rowid) =
      (List.range n).countP (fun i => P (i + 1)) + (List.range n).countP (fun i => P (n + i + 1)) := by
    intro P
    rw [levels, List.countP_map, List.range_add, List.countP_append, List.countP_map]
    rfl
  have hAll : ∀ P : Nat → Bool, (∀ i < n, P i = true) → (List.range n).countP P = n := by
    intro P hP
    rw [List.countP_eq_length.mpr fun i hi => hP i (List.mem_range.mp hi), List.length_range]
  have hNone : ∀ P : Nat → Bool, (∀ i < n, P i = false) → (List.range n).countP P = 0 := by
    intro P hP
    refine List.countP_eq_zero.mpr fun i hi => ?_
    rw [hP i (List.mem_range.mp hi)]
    decide
  constructor
  · have hCount := hSplit fun i => decide (i ≤ n)
    rw [hAll _ fun i hi => decide_eq_true (by omega),
      hNone _ fun i _ => decide_eq_false (by omega)] at hCount
    exact hCount
  · have hCount := hSplit fun i => !decide (i ≤ n)
    rw [hNone _ fun i hi => by rw [decide_eq_true (by omega)]; rfl,
      hAll _ fun i _ => by rw [decide_eq_false (by omega)]; rfl] at hCount
    exact hCount.trans (Nat.zero_add n)

/-- The first `n` rows in the order of a column are the low ones, or the high ones if the order
is descending. -/
theorem levels_getElem? {n : Nat} {f : Field} (hf : f ∈ t.fields) {rows : List Sql.Row}
    (hPerm : rows.Perm (levels t n).rows) {asc : Bool} {rest : List (String × Bool)}
    (hSorted : rows.Pairwise fun x y => (levels t n).precedes ((f.name, asc) :: rest) x y = true)
    {k : Nat} (hk : k < n) : ∃ r, rows[k]? = some r ∧ isLow n r = asc := by
  obtain ⟨hLows, hHighs⟩ := levels_count t n
  have hLt : ∀ x ∈ rows, ∀ y ∈ rows, isLow n x = true → isLow n y = false →
      Sql.Cell.key ((levels t n).cell x f.name) < Sql.Cell.key ((levels t n).cell y f.name) := by
    intro x hx y hy hLow hHigh
    exact levels_lt hf (hPerm.mem_iff.mp hx) (hPerm.mem_iff.mp hy) hLow hHigh
  cases asc with
  | true =>
    apply Sql.Table.getElem?_of_pairwise
    · refine hSorted.imp_of_mem ?_
      intro x y hx hy hxy hLow
      by_contra hHigh
      have hLess := hLt y hy x hx hLow (by simpa using hHigh)
      rcases ((levels t n).precedes_cons f.name true rest x y).mp hxy with h | h | h
      · exact absurd h.1 (not_lt_of_gt hLess)
      · cases h.2
      · exact absurd h.1 (ne_of_gt hLess)
    · rw [hPerm.countP_eq, hLows]
      exact hk
  | false =>
    obtain ⟨r, hr, hHigh⟩ : ∃ r, rows[k]? = some r ∧ (!isLow n r) = true := by
      apply Sql.Table.getElem?_of_pairwise
      · refine hSorted.imp_of_mem ?_
        intro x y hx hy hxy hHigh
        by_contra hLow
        have hLess := hLt x hx y hy (by simpa using hLow) (by simpa using hHigh)
        rcases ((levels t n).precedes_cons f.name false rest x y).mp hxy with h | h | h
        · cases h.2
        · exact absurd h.1 (not_lt_of_gt hLess)
        · exact absurd h.1 (ne_of_lt hLess)
      · rw [hPerm.countP_eq, hHighs]
        exact hk
    exact ⟨r, hr, by simpa using hHigh⟩

theorem cut_head {limit : Option Nat} (hLimit : ∀ l, limit = some l → 1 ≤ l) (offset : Option Nat)
    (rows : List Sql.Row) : (Sql.Table.cut limit offset rows)[0]? = rows[offset.getD 0]? := by
  cases limit with
  | none => rw [Sql.Table.cut, List.getElem?_drop, Nat.add_zero]
  | some l =>
    have hPos := hLimit l rfl
    rw [Sql.Table.cut, List.getElem?_take_of_lt (by omega), List.getElem?_drop, Nat.add_zero]

/-- Rowids that an `int` tells apart. -/
theorem rowid_inj {m n : Nat} (hm : 1 ≤ m ∧ m ≤ 2 ^ 32) (hn : 1 ≤ n ∧ n ≤ 2 ^ 32)
    (h : Int32.ofInt m = Int32.ofInt n) : m = n := by
  have hId := congrArg Int32.toInt h
  rw [Int32.toInt_ofInt, Int32.toInt_ofInt, Int.bmod_def, Int.bmod_def] at hId
  rw [Int32.size] at hId
  omega

/-- Rows whose objects are the same, when all rowids fit an `int`. -/
theorem rowid_of_rowObject (hColumns : t.Columns) (hHolds : Holds (fun _ => some u) t u)
    {r q : Sql.Row} (hr : 1 ≤ r.rowid ∧ r.rowid ≤ 2 ^ 32) (hq : 1 ≤ q.rowid ∧ q.rowid ≤ 2 ^ 32)
    (h : rowObject t u r = rowObject t u q) : r.rowid = q.rowid := by
  have hGet : ∀ r, (rowObject t u r).get .identifier = Int32.ofInt r.rowid := by
    intro r
    rw [get_rowObject hColumns u r t.identifier_mem, hHolds.cell_identifier]
    rfl
  apply rowid_inj hr hq
  rw [← hGet, ← hGet, h]

/-- Two sort columns in descending order: the rows that are low come first in the code, the rows
that are high in what was asked for. -/
theorem not_answers_levels (hColumns : t.Columns) {calls : List Call} {conds : List Condition}
    {s : Shape} (hAsks : Asks calls conds s)
    (hSortBys : ∀ name ∈ s.sortBys, name ∈ t.fields.map Field.name)
    (hConds : ∀ c ∈ conds, c.name ∈ t.fields.map Field.name)
    (hOffset : s.offset.isSome → s.limit.isSome) (hDesc : s.asc = false)
    (hTwo : 2 ≤ s.sortBys.length)
    (hTrue : ∀ r ∈ (levels t (s.offset.getD 0 + 1)).rows,
      conds.all (Condition.holds (levels t (s.offset.getD 0 + 1)) r) = true)
    (hOpen : Openable t p (levels t (s.offset.getD 0 + 1))) :
    ¬ Answers t calls conds s p (levels t (s.offset.getD 0 + 1)) := by
  obtain ⟨n, hn⟩ : ∃ n, n = s.offset.getD 0 + 1 := ⟨_, rfl⟩
  rw [← hn] at hTrue hOpen ⊢
  intro h
  obtain ⟨db, hHolds, -, wanted, hPerm, hSorted, hObjects⟩ := h.spec hColumns hOpen
  obtain ⟨hTable, -⟩ := build_spec t calls
  obtain ⟨hSorts, hDirection, hLimit, hSkip⟩ := hAsks.shape (t := t)
  obtain ⟨first, second, others, hNames⟩ : ∃ first second others,
      s.sortBys = first :: second :: others := by
    match s.sortBys, hTwo with
    | first :: second :: others, _ => exact ⟨first, second, others, rfl⟩
  obtain ⟨f, hf, rfl⟩ := List.mem_map.mp (hSortBys first (by rw [hNames]; exact List.mem_cons_self))
  have hAll : ((levels t n).rows.filter fun r => conds.all (Condition.holds (levels t n) r)) =
      (levels t n).rows := List.filter_eq_self.mpr hTrue
  have hAccepted : (build t calls).Accepted conds (levels t n) := by
    refine ⟨?_, ?_, hAsks.offset_iff.mpr hOffset⟩
    · rw [hHolds.names, hTable]
      exact hConds
    · rw [hHolds.names, hTable, hSorts]
      exact hSortBys
  obtain ⟨rest, hOrder⟩ : ∃ rest, (build t calls).orderBy = (f.name, true) :: rest := by
    rw [orderBy, hSorts, hNames]
    exact ⟨_, rfl⟩
  obtain ⟨rows, hPerm', hSorted', hCut⟩ := (levels t n).select_cut
    (fun r => conds.all (Condition.holds (levels t n) r)) (build t calls).orderBy s.limit s.offset
  rw [rows_select hHolds hAsks.built hAccepted, selected, hLimit, hSkip, hCut, hTable,
    List.map_map] at hObjects
  rw [hAll] at hPerm hPerm'
  rw [hOrder] at hSorted'
  rw [hNames, hDesc] at hSorted
  -- the row after the first `offset` ones, in both lists
  obtain ⟨r, hr, hLow⟩ := levels_getElem? hf hPerm' hSorted' (k := s.offset.getD 0) (by omega)
  obtain ⟨q, hq, hHigh⟩ := levels_getElem? hf hPerm hSorted (k := s.offset.getD 0) (by omega)
  have hSame : rowObject t (levels t n) r = rowObject t (levels t n) q := by
    have hLimitPos : ∀ l, s.limit = some l → 1 ≤ l := fun l hl => (s.limit_int l hl).1
    have hHeads := congrArg (fun l : List Object => l[0]?) hObjects
    simp only [List.getElem?_map, cut_head hLimitPos, hr, hq] at hHeads
    exact Option.some.inj hHeads
  have hSmall : ∀ x ∈ (levels t n).rows, 1 ≤ x.rowid ∧ x.rowid ≤ 2 ^ 32 := by
    intro x hx
    have hBound := (levels t n).bounds x hx
    have hSeq : (levels t n).seq = n + n := rfl
    have hInt : s.offset.getD 0 < 2 ^ 31 := by
      cases ho : s.offset with
      | none => decide
      | some o => exact s.offset_int o ho
    omega
  have hRowid := rowid_of_rowObject hColumns ⟨rfl, rfl⟩
    (hSmall r (hPerm'.mem_iff.mp (List.mem_of_getElem? hr)))
    (hSmall q (hPerm.mem_iff.mp (List.mem_of_getElem? hq))) hSame
  rw [isLow, decide_eq_true_eq] at hLow
  rw [isLow, decide_eq_false_iff_not] at hHigh
  omega

end Answers

end Query

end RetroConfig
