import RetroConfig.Database.Select
import RetroConfig.Library.Placeholder

/-!
# The texts of the statements

The texts that `SQLQuery` and `SQLite::update` send, as they are put together: the members
`sql_sentence` and `sort_bys` of a query grow call by call, next to the parameters. For a string
every one of these functions writes `?` into the text and pushes the string to the parameters.
They take what is written as an argument, so that the text with a string in the place of its `?`
can be spoken of; the source is the case `placeholder`.

`placeholders_aligned` says that text and parameters fit together, and that no string gets into
the text. `built_sentence` connects the texts with the statements of `Query`.

The buffers of `sprintf` are taken to be large enough. The texts of `in` with a string of SQL are
left out.
-/

namespace RetroConfig

open Placeholder

/-- `SQLQuery` with its texts: `sentence` is `sql_sentence`, and `sortBys` is `sort_bys`. -/
structure SQLQuery where
  table : Table
  sortAsc : Bool
  limit : Int
  offset : Int
  sentence : String
  sortBys : String
  params : List String

namespace SQLQuery

/-- The constructor. -/
def ofTable (t : Table) : SQLQuery := ⟨t, true, 0, -1, "", "", []⟩

/-- The operator in the text. -/
def action : Sql.Cmp → String
  | .equal => "="
  | .greater => ">"
  | .less => "<"
  | .like => "like"

section Write

variable (write : String → String)

/-- What a value leaves in the text. -/
def valueText : QueryValue → String
  | .text s => write s
  | .int n => toString n

/-- `SQLQuery::insertAction`. -/
def insertAction (q : SQLQuery) (name : String) (val : QueryValue) (action : String) : SQLQuery :=
  { q with
    sentence := q.sentence ++ " " ++ name ++ " " ++ action ++ " " ++ valueText write val ++ " "
    params := q.params ++ val.param.toList }

/-- `SQLQuery::in` with an array. -/
def inArray (q : SQLQuery) (name : String) (vals : List QueryValue) : SQLQuery :=
  { q with
    sentence := q.sentence ++ " " ++ name ++ " " ++ "in (" ++ commas (vals.map (valueText write)) ++ ")"
    params := q.params ++ vals.filterMap QueryValue.param }

def andQ (q : SQLQuery) : SQLQuery := { q with sentence := q.sentence ++ " and " }

def sortBy (q : SQLQuery) (name : String) : SQLQuery :=
  { q with sortBys := (if q.sortBys = "" then q.sortBys else q.sortBys ++ ",") ++ name }

def apply (q : SQLQuery) : Query.Call → SQLQuery
  | .condition (.compare name cmp val) => q.insertAction write name val (action cmp)
  | .condition (.among name vals) => q.inArray write name vals
  | .andQ => q.andQ
  | .sortBy name => q.sortBy name
  | .setSortAsc asc => { q with sortAsc := asc }
  | .limit l => { q with limit := l }
  | .offset o => { q with offset := o }

/-- The query after the calls. -/
def build (t : Table) (calls : List Query.Call) : SQLQuery := calls.foldl (apply write) (ofTable t)

end Write

def whereText (q : SQLQuery) : String := if q.sentence = "" then "" else " WHERE " ++ q.sentence

/-- The part of the text of `SQLQuery::find` behind the conditions. -/
def tailText (q : SQLQuery) : String :=
  (if q.sortBys = "" then ""
    else " ORDER BY " ++ q.sortBys ++ if q.sortAsc then " ASC " else " DESC ") ++
  (if 0 < q.limit then " LIMIT " ++ toString q.limit else "") ++
  (if 0 ≤ q.offset then " OFFSET " ++ toString q.offset else "") ++ ";"

/-- The text of `SQLQuery::find`. -/
def selectText (q : SQLQuery) : String :=
  "SELECT " ++ commas (q.table.fields.map Field.name) ++ " FROM " ++ q.table.cls ++ q.whereText ++
    q.tailText

/-- The text of `SQLQuery::remove`. -/
def deleteText (q : SQLQuery) : String :=
  "DELETE " ++ " FROM " ++ q.table.cls ++ q.whereText ++ ";"

end SQLQuery

namespace SQLite

/-- A number in millionths, ties to even. -/
def millionths (q : Rat) : Nat :=
  let x : Rat := |q| * 10 ^ 6
  let n : Nat := x.floor.toNat
  let rest : Rat := x - ((n : Int) : Rat)
  if 1 / 2 < rest ∨ rest = 1 / 2 ∧ n % 2 = 1 then n + 1 else n

/-- A number with zeros before it, for a width of six. -/
def sixDigits (n : Nat) : String :=
  String.ofList (List.replicate (6 - (Nat.toDigits 10 n).length) '0' ++ Nat.toDigits 10 n)

/-- `%f` of a number. -/
def floatDigits (q : Rat) : String :=
  (if q < 0 then "-" else "") ++ (millionths q / 10 ^ 6).repr ++ "." ++
    sixDigits (millionths q % 10 ^ 6)

section Write

variable (write : String → String)

/-- What `SQLite::update` writes for a field. -/
def fieldText : (τ : FieldType) → τ.Value → String
  | .integer, v => toString (Int32.toInt v)
  | .long, v => toString (Int64.toInt v)
  | .real, v => floatDigits v
  | .text, v => write v
  | .blob, _ => ""
  | .none, _ => ""

/-- The text of `SQLite::update`. -/
def updateText (t : Table) (o : Object) : String :=
  if o.identifier = -1 then
    "INSERT OR IGNORE INTO " ++ t.cls ++ " (" ++ commas (t.stored.map Field.name) ++ ") VALUES (" ++
      commas (t.stored.map fun f => fieldText write f.type (o.get f)) ++ ");"
  else
    "UPDATE " ++ t.cls ++ " SET " ++
      commas (t.stored.map fun f => f.name ++ " = " ++ fieldText write f.type (o.get f)) ++
      " WHERE identifier = " ++ toString o.identifier.toInt ++ ";"

end Write

end SQLite

/-! ## Numbers have no placeholder -/

theorem free_repr (n : Nat) : Free n.repr := by
  intro h
  rw [Nat.toList_repr] at h
  exact absurd (Nat.isDigit_of_mem_toDigits (by decide) (by decide) h) (by decide)

theorem free_toString (n : Int) : Free (toString n) := by
  cases n with
  | ofNat m => exact free_repr m
  | negSucc m =>
    have hMinus : Free "-" := by decide
    exact free_append.mpr ⟨hMinus, free_repr (m + 1)⟩

theorem free_sixDigits (n : Nat) : Free (SQLite.sixDigits n) := by
  intro h
  rw [SQLite.sixDigits, String.toList_ofList, List.mem_append] at h
  rcases h with hZero | hDigit
  · exact absurd (List.eq_of_mem_replicate hZero) (by decide)
  · exact absurd (Nat.isDigit_of_mem_toDigits (by decide) (by decide) hDigit) (by decide)

theorem free_floatDigits (q : Rat) : Free (SQLite.floatDigits q) := by
  have hSign : Free (if q < 0 then "-" else "") := by
    split <;> decide
  have hPoint : Free "." := by decide
  rw [SQLite.floatDigits]
  exact free_append.mpr ⟨free_append.mpr ⟨free_append.mpr ⟨hSign, free_repr _⟩, hPoint⟩,
    free_sixDigits _⟩

namespace SQLQuery

/-! ## The pieces of a query -/

def valuePart : QueryValue → Part
  | .text s => .arg s
  | .int n => .fixed (toString n)

/-- The pieces that a call appends to `sql_sentence`. -/
def callParts : Query.Call → List Part
  | .condition (.compare name cmp val) =>
    [.fixed (" " ++ name ++ " " ++ action cmp ++ " "), valuePart val, .fixed " "]
  | .condition (.among name vals) =>
    .fixed (" " ++ name ++ " " ++ "in (") ::
      (commaParts (vals.map fun val => [valuePart val]) ++ [.fixed ")"])
  | .andQ => [.fixed " and "]
  | _ => []

theorem render_valuePart (write : String → String) (val : QueryValue) :
    render write [valuePart val] = valueText write val := by
  cases val <;> simp [valuePart, render, valueText]

theorem args_valuePart (val : QueryValue) : args [valuePart val] = val.param.toList := by
  cases val <;> rfl

theorem args_vals (vals : List QueryValue) :
    (vals.map fun val => [valuePart val]).flatMap args = vals.filterMap QueryValue.param := by
  induction vals with
  | nil => rfl
  | cons val vals ih =>
    rw [List.map_cons, List.flatMap_cons, ih, args_valuePart, List.filterMap_cons]
    cases val <;> rfl

/-- A call appends its pieces to the text and their arguments to the parameters. -/
theorem apply_parts (write : String → String) (q : SQLQuery) (c : Query.Call) :
    (q.apply write c).sentence = q.sentence ++ render write (callParts c) ∧
      (q.apply write c).params = q.params ++ args (callParts c) := by
  cases c with
  | condition c =>
    cases c with
    | compare name cmp val =>
      refine ⟨?_, ?_⟩
      · have hParts : callParts (.condition (.compare name cmp val)) =
            .fixed (" " ++ name ++ " " ++ action cmp ++ " ") :: ([valuePart val] ++ [.fixed " "]) := rfl
        rw [hParts, render, render_append, render_valuePart]
        simp [apply, insertAction, render, String.append_assoc]
      · cases val <;> rfl
    | among name vals =>
      refine ⟨?_, ?_⟩
      · rw [callParts, render, render_append, render_commaParts, List.map_map]
        simp [apply, inArray, render, String.append_assoc, Function.comp_def, render_valuePart]
      · rw [callParts, args, args_append, args_commaParts, args_vals]
        simp [apply, inArray, args]
  | _ => simp [apply, andQ, sortBy, callParts, render, args]

theorem build_concat (write : String → String) (t : Table) (calls : List Query.Call) (c : Query.Call) :
    build write t (calls ++ [c]) = (build write t calls).apply write c := by
  rw [build, List.foldl_append]
  rfl

theorem build_parts (write : String → String) (t : Table) (calls : List Query.Call) :
    (build write t calls).sentence = render write (calls.flatMap callParts) ∧
      (build write t calls).params = args (calls.flatMap callParts) := by
  induction calls using List.reverseRecOn with
  | nil => exact ⟨rfl, rfl⟩
  | append_singleton calls c ih =>
    obtain ⟨hSentence, hParams⟩ := apply_parts write (build write t calls) c
    rw [build_concat, hSentence, hParams, ih.1, ih.2, List.flatMap_append, render_append,
      args_append, List.flatMap_singleton]
    exact ⟨rfl, rfl⟩

/-! ## The text of a query -/

/-- The strings that a call is given. -/
def strings : Query.Call → List String
  | .condition c => c.params
  | _ => []

theorem args_callParts (c : Query.Call) : args (callParts c) = strings c := by
  cases c with
  | condition c =>
    cases c with
    | compare name cmp val => cases val <;> rfl
    | among name vals =>
      rw [callParts, args, args_append, args_commaParts, args_vals]
      exact List.append_nil _
  | _ => rfl

theorem args_calls (calls : List Query.Call) :
    args (calls.flatMap callParts) = calls.flatMap strings := by
  induction calls with
  | nil => rfl
  | cons c calls ih => rw [List.flatMap_cons, args_append, args_callParts, ih, List.flatMap_cons]

/-- The column that a call names has no `?`. -/
def NameFree : Query.Call → Prop
  | .condition c => Free c.name
  | .sortBy name => Free name
  | _ => True

theorem plain_callParts {c : Query.Call} (h : NameFree c) : Plain (callParts c) := by
  have hSpace : Free " " := by decide
  have hValue : ∀ val, Plain [valuePart val] := by
    intro val
    cases val with
    | text s => exact plain_arg.mpr plain_nil
    | int n => exact plain_fixed.mpr ⟨free_toString n, plain_nil⟩
  cases c with
  | condition c =>
    cases c with
    | compare name cmp val =>
      have hAction : Free (action cmp) := by cases cmp <;> decide
      have hHead : Free (" " ++ name ++ " " ++ action cmp ++ " ") :=
        free_append.mpr ⟨free_append.mpr ⟨free_append.mpr ⟨free_append.mpr ⟨hSpace, h⟩, hSpace⟩,
          hAction⟩, hSpace⟩
      exact plain_fixed.mpr ⟨hHead,
        plain_append.mpr ⟨hValue val, plain_fixed.mpr ⟨hSpace, plain_nil⟩⟩⟩
    | among name vals =>
      have hIn : Free "in (" := by decide
      have hClose : Free ")" := by decide
      have hHead : Free (" " ++ name ++ " " ++ "in (") :=
        free_append.mpr ⟨free_append.mpr ⟨free_append.mpr ⟨hSpace, h⟩, hSpace⟩, hIn⟩
      refine plain_fixed.mpr ⟨hHead, plain_append.mpr ⟨plain_commaParts ?_,
        plain_fixed.mpr ⟨hClose, plain_nil⟩⟩⟩
      intro ps hps
      obtain ⟨val, -, rfl⟩ := List.mem_map.mp hps
      exact hValue val
  | andQ =>
    have hAnd : Free " and " := by decide
    exact plain_fixed.mpr ⟨hAnd, plain_nil⟩
  | _ => exact plain_nil

theorem plain_calls {calls : List Query.Call} (h : ∀ c ∈ calls, NameFree c) :
    Plain (calls.flatMap callParts) := by
  intro s hs
  obtain ⟨c, hc, hMem⟩ := List.mem_flatMap.mp hs
  exact plain_callParts (h c hc) s hMem

/-- A text that starts with a blank is not empty. -/
theorem blank_append_ne (s : String) : " " ++ s ≠ "" := by
  intro h
  have hList := congrArg String.toList h
  rw [String.toList_append] at hList
  exact absurd (List.append_eq_nil_iff.mp hList).1 (by decide)

/-- The text is empty exactly if no call has appended to it. -/
theorem render_calls_eq_empty (write : String → String) (calls : List Query.Call) :
    render write (calls.flatMap callParts) = "" ↔ calls.flatMap callParts = [] := by
  constructor
  · intro h
    cases hParts : calls.flatMap callParts with
    | nil => rfl
    | cons part parts =>
      obtain ⟨s, hs⟩ : ∃ s, part = .fixed (" " ++ s) := by
        clear h
        induction calls with
        | nil => cases hParts
        | cons c calls ih =>
          rw [List.flatMap_cons] at hParts
          cases c with
          | condition c =>
            cases c with
            | compare name cmp val =>
              refine ⟨name ++ " " ++ action cmp ++ " ", ?_⟩
              rw [← (List.cons.inj hParts).1]
              simp [String.append_assoc]
            | among name vals =>
              refine ⟨name ++ " " ++ "in (", ?_⟩
              rw [← (List.cons.inj hParts).1]
              simp [String.append_assoc]
          | andQ => exact ⟨"and ", (List.cons.inj hParts).1.symm⟩
          | _ => exact ih hParts
      rw [hParts, hs, render, String.append_assoc] at h
      exact absurd h (blank_append_ne _)
  · intro h
    rw [h]
    rfl

/-- A query without its conditions. -/
def rest (q : SQLQuery) : SQLQuery := { q with sentence := "", params := [] }

/-- A call without its strings. -/
def eraseStrings : Query.Call → Query.Call
  | .condition (.compare name cmp val) => .condition (.compare name cmp (eraseValue val))
  | .condition (.among name vals) => .condition (.among name (vals.map eraseValue))
  | c => c
where
  eraseValue : QueryValue → QueryValue
    | .text _ => .text ""
    | .int n => .int n

theorem nameFree_eraseStrings {c : Query.Call} (h : NameFree c) : NameFree (eraseStrings c) := by
  cases c with
  | condition c => cases c <;> exact h
  | _ => exact h

theorem rest_apply (write : String → String) (q : SQLQuery) (c : Query.Call) :
    (q.apply write c).rest = (q.rest.apply placeholder (eraseStrings c)).rest := by
  cases c with
  | condition c => cases c <;> rfl
  | _ => rfl

/-- What is behind the conditions depends neither on strings nor on how they are written. -/
theorem rest_build (write : String → String) (t : Table) (calls : List Query.Call) :
    (build write t calls).rest = (build placeholder t (calls.map eraseStrings)).rest := by
  induction calls using List.reverseRecOn with
  | nil => rfl
  | append_singleton calls c ih =>
    have hTwice : eraseStrings (eraseStrings c) = eraseStrings c := by
      have hValue : ∀ val, eraseStrings.eraseValue (eraseStrings.eraseValue val) =
          eraseStrings.eraseValue val := by
        intro val
        cases val <;> rfl
      cases c with
      | condition c =>
        cases c with
        | compare name cmp val => simp [eraseStrings, hValue]
        | among name vals => simp [eraseStrings, hValue]
      | _ => rfl
    have hBack := rest_apply placeholder (build placeholder t (calls.map eraseStrings)) (eraseStrings c)
    rw [hTwice] at hBack
    rw [List.map_append, List.map_singleton, build_concat, build_concat, rest_apply, ih, hBack]

theorem shape_callParts (c : Query.Call) :
    (callParts c).map Part.shape = (callParts (eraseStrings c)).map Part.shape := by
  have hValue : ∀ val, (valuePart val).shape = (valuePart (eraseStrings.eraseValue val)).shape := by
    intro val
    cases val <;> rfl
  cases c with
  | condition c =>
    cases c with
    | compare name cmp val =>
      simp only [callParts, eraseStrings, List.map_cons, List.map_nil]
      rw [hValue val]
    | among name vals =>
      have hCommas : (commaParts (vals.map fun val => [valuePart val])).map Part.shape =
          (commaParts ((vals.map eraseStrings.eraseValue).map fun val => [valuePart val])).map
            Part.shape := by
        apply shape_commaParts
        rw [List.map_map, List.map_map, List.map_map]
        exact List.map_congr_left fun val _ => congrArg (fun x => [x]) (hValue val)
      simp only [callParts, eraseStrings, List.map_cons, List.map_append, hCommas]
  | _ => rfl

theorem shape_calls (calls : List Query.Call) :
    (calls.flatMap callParts).map Part.shape =
      ((calls.map eraseStrings).flatMap callParts).map Part.shape := by
  induction calls with
  | nil => rfl
  | cons c calls ih =>
    rw [List.map_cons, List.flatMap_cons, List.flatMap_cons, List.map_append, List.map_append, ih,
      shape_callParts]

theorem free_sortBys (write : String → String) (t : Table) {calls : List Query.Call}
    (h : ∀ c ∈ calls, NameFree c) : Free (build write t calls).sortBys := by
  induction calls using List.reverseRecOn with
  | nil =>
    have hEmpty : (build write t []).sortBys = "" := rfl
    rw [hEmpty]
    decide
  | append_singleton calls c ih =>
    have hInit := ih fun d hd => h d (List.mem_append_left [c] hd)
    have hLast := h c (List.mem_append_right calls List.mem_cons_self)
    rw [build_concat]
    cases c with
    | condition c => cases c <;> exact hInit
    | sortBy name =>
      have hComma : Free "," := by decide
      refine free_append.mpr ⟨?_, hLast⟩
      split
      · exact hInit
      · exact free_append.mpr ⟨hInit, hComma⟩
    | _ => exact hInit

theorem free_tailText {q : SQLQuery} (h : Free q.sortBys) : Free q.tailText := by
  have hOrderBy : Free " ORDER BY " := by decide
  have hDirection : Free (if q.sortAsc then " ASC " else " DESC ") := by
    split <;> decide
  have hLimit : Free " LIMIT " := by decide
  have hOffset : Free " OFFSET " := by decide
  have hEnd : Free ";" := by decide
  have hEmpty : Free "" := by decide
  refine free_append.mpr ⟨free_append.mpr ⟨free_append.mpr ⟨?_, ?_⟩, ?_⟩, hEnd⟩
  · split
    · exact hEmpty
    · exact free_append.mpr ⟨free_append.mpr ⟨hOrderBy, h⟩, hDirection⟩
  · split
    · exact free_append.mpr ⟨hLimit, free_toString _⟩
    · exact hEmpty
  · split
    · exact free_append.mpr ⟨hOffset, free_toString _⟩
    · exact hEmpty

/-- The pieces of the text between `head` and `tail`. -/
def statementParts (head tail : String) (calls : List Query.Call) : List Part :=
  .fixed head :: ((if (calls.flatMap callParts).isEmpty then []
    else .fixed " WHERE " :: calls.flatMap callParts) ++ [.fixed tail])

theorem render_statementParts (write : String → String) (t : Table) (head tail : String)
    (calls : List Query.Call) :
    render write (statementParts head tail calls) =
      head ++ (build write t calls).whereText ++ tail := by
  rw [statementParts, render, render_append, whereText, (build_parts write t calls).1]
  by_cases hNil : calls.flatMap callParts = []
  · simp [hNil, render]
  · have hNonempty : (calls.flatMap callParts).isEmpty = false := by simpa using hNil
    rw [if_neg (by simp [hNonempty]),
      if_neg fun h => hNil ((render_calls_eq_empty write calls).mp h), render]
    simp [render, String.append_assoc]

theorem args_statementParts (head tail : String) (calls : List Query.Call) :
    args (statementParts head tail calls) = args (calls.flatMap callParts) := by
  rw [statementParts, args, args_append]
  by_cases hNil : calls.flatMap callParts = []
  · simp [hNil, args]
  · simp [hNil, args]

theorem plain_statementParts {head tail : String} (hHead : Free head) (hTail : Free tail)
    {calls : List Query.Call} (h : ∀ c ∈ calls, NameFree c) :
    Plain (statementParts head tail calls) := by
  have hWhere : Free " WHERE " := by decide
  refine plain_fixed.mpr ⟨hHead, plain_append.mpr ⟨?_, plain_fixed.mpr ⟨hTail, plain_nil⟩⟩⟩
  split
  · exact plain_nil
  · exact plain_fixed.mpr ⟨hWhere, plain_calls h⟩

theorem shape_statementParts (head tail : String) (calls : List Query.Call) :
    (statementParts head tail calls).map Part.shape =
      (statementParts head tail (calls.map eraseStrings)).map Part.shape := by
  have hShape := shape_calls calls
  have hEmpty : (calls.flatMap callParts).isEmpty =
      ((calls.map eraseStrings).flatMap callParts).isEmpty := by
    rw [← List.isEmpty_map (f := Part.shape), hShape, List.isEmpty_map]
  rw [statementParts, statementParts, hEmpty]
  split
  · rfl
  · simp only [List.cons_append, List.map_cons, List.map_append, hShape]

end SQLQuery

namespace SQLite

/-! ## The pieces of an update -/

def fieldParts : (τ : FieldType) → τ.Value → List Part
  | .integer, v => [.fixed (toString (Int32.toInt v))]
  | .long, v => [.fixed (toString (Int64.toInt v))]
  | .real, v => [.fixed (floatDigits v)]
  | .text, v => [.arg v]
  | .blob, _ => []
  | .none, _ => []

theorem render_fieldParts (write : String → String) (τ : FieldType) (v : τ.Value) :
    render write (fieldParts τ v) = fieldText write τ v := by
  cases τ with
  | blob => rfl
  | none => rfl
  | _ => exact String.append_empty

theorem args_fieldParts (τ : FieldType) (v : τ.Value) :
    args (fieldParts τ v) = (τ.param v).toList := by
  cases τ <;> rfl

theorem plain_fieldParts (τ : FieldType) (v : τ.Value) : Plain (fieldParts τ v) := by
  cases τ with
  | integer => exact plain_fixed.mpr ⟨free_toString _, plain_nil⟩
  | long => exact plain_fixed.mpr ⟨free_toString _, plain_nil⟩
  | real => exact plain_fixed.mpr ⟨free_floatDigits v, plain_nil⟩
  | text => exact plain_arg.mpr plain_nil
  | blob => exact plain_nil
  | none => exact plain_nil

/-- The pieces of a text depend on the value of a field unless it is a string. -/
theorem shape_fieldParts {τ : FieldType} {v w : τ.Value} (h : τ ≠ .text → v = w) :
    (fieldParts τ v).map Part.shape = (fieldParts τ w).map Part.shape := by
  cases τ with
  | text => rfl
  | _ => rw [h (by decide)]

/-- The pieces of `SQLite::update`. -/
def updateParts (t : Table) (o : Object) : List Part :=
  if o.identifier = -1 then
    .fixed ("INSERT OR IGNORE INTO " ++ t.cls ++ " (" ++ commas (t.stored.map Field.name) ++
        ") VALUES (") ::
      (commaParts (t.stored.map fun f => fieldParts f.type (o.get f)) ++ [.fixed ");"])
  else
    .fixed ("UPDATE " ++ t.cls ++ " SET ") ::
      (commaParts (t.stored.map fun f => .fixed (f.name ++ " = ") :: fieldParts f.type (o.get f)) ++
        [.fixed (" WHERE identifier = " ++ toString o.identifier.toInt ++ ";")])

theorem render_updateParts (write : String → String) (t : Table) (o : Object) :
    render write (updateParts t o) = updateText write t o := by
  unfold updateParts updateText
  split
  · rw [render, render_append, render_commaParts, List.map_map]
    simp [render, Function.comp_def, render_fieldParts, String.append_assoc]
  · rw [render, render_append, render_commaParts, List.map_map]
    simp [render, Function.comp_def, render_fieldParts, String.append_assoc]

theorem args_fields (o : Object) (fields : List Field) :
    (fields.map fun f => fieldParts f.type (o.get f)).flatMap args =
      fields.filterMap fun f => f.type.param (o.get f) := by
  induction fields with
  | nil => rfl
  | cons f fields ih =>
    rw [List.map_cons, List.flatMap_cons, ih, args_fieldParts, List.filterMap_cons]
    cases f.type.param (o.get f) <;> rfl

theorem args_updateParts (t : Table) (o : Object) : args (updateParts t o) = params t o := by
  have hAssign : (t.stored.map fun f => .fixed (f.name ++ " = ") ::
      fieldParts f.type (o.get f)).flatMap args =
        (t.stored.map fun f => fieldParts f.type (o.get f)).flatMap args := by
    rw [List.flatMap_map, List.flatMap_map]
    rfl
  unfold updateParts
  split
  · rw [args, args_append, args_commaParts, args_fields]
    exact List.append_nil _
  · rw [args, args_append, args_commaParts, hAssign, args_fields]
    exact List.append_nil _

theorem plain_updateParts {t : Table} (hCls : Free t.cls) (hFields : ∀ f ∈ t.fields, Free f.name)
    (o : Object) : Plain (updateParts t o) := by
  have hStored : ∀ f ∈ t.stored, Free f.name := fun f hf => hFields f (Table.mem_stored.mp hf).1
  unfold updateParts
  split
  · have hNames : Free (commas (t.stored.map Field.name)) := by
      apply free_commas
      intro s hs
      obtain ⟨f, hf, rfl⟩ := List.mem_map.mp hs
      exact hStored f hf
    refine plain_fixed.mpr ⟨?_, plain_append.mpr ⟨plain_commaParts ?_,
      plain_fixed.mpr ⟨by decide, plain_nil⟩⟩⟩
    · simp only [free_append]
      exact ⟨⟨⟨⟨by decide, hCls⟩, by decide⟩, hNames⟩, by decide⟩
    · intro ps hps
      obtain ⟨f, -, rfl⟩ := List.mem_map.mp hps
      exact plain_fieldParts f.type (o.get f)
  · refine plain_fixed.mpr ⟨?_, plain_append.mpr ⟨plain_commaParts ?_,
      plain_fixed.mpr ⟨?_, plain_nil⟩⟩⟩
    · simp only [free_append]
      exact ⟨⟨by decide, hCls⟩, by decide⟩
    · intro ps hps
      obtain ⟨f, hf, rfl⟩ := List.mem_map.mp hps
      exact plain_fixed.mpr ⟨free_append.mpr ⟨hStored f hf, by decide⟩,
        plain_fieldParts f.type (o.get f)⟩
    · simp only [free_append]
      exact ⟨⟨by decide, free_toString _⟩, by decide⟩

theorem shape_updateParts {t : Table} {o o' : Object} (hId : o.identifier = o'.identifier)
    (h : ∀ f ∈ t.stored, f.type ≠ .text → o.get f = o'.get f) :
    (updateParts t o).map Part.shape = (updateParts t o').map Part.shape := by
  have hField : ∀ f ∈ t.stored, (fieldParts f.type (o.get f)).map Part.shape =
      (fieldParts f.type (o'.get f)).map Part.shape := fun f hf => shape_fieldParts (h f hf)
  unfold updateParts
  rw [hId]
  split
  · have hCommas : (commaParts (t.stored.map fun f => fieldParts f.type (o.get f))).map Part.shape =
        (commaParts (t.stored.map fun f => fieldParts f.type (o'.get f))).map Part.shape := by
      apply shape_commaParts
      rw [List.map_map, List.map_map]
      exact List.map_congr_left hField
    simp only [List.map_cons, List.map_append, hCommas]
  · have hCommas : (commaParts (t.stored.map fun f =>
          .fixed (f.name ++ " = ") :: fieldParts f.type (o.get f))).map Part.shape =
        (commaParts (t.stored.map fun f =>
          .fixed (f.name ++ " = ") :: fieldParts f.type (o'.get f))).map Part.shape := by
      apply shape_commaParts
      rw [List.map_map, List.map_map]
      exact List.map_congr_left fun f hf => congrArg (some (f.name ++ " = ") :: ·) (hField f hf)
    simp only [List.map_cons, List.map_append, hCommas]

end SQLite

/-! ## Text and parameters -/

/-- The statement `text placeholder` goes with the parameters `params`, and they are the strings
`given`: there is one placeholder for each parameter, and what is written in the place of the
placeholders, one after the other, stands where the strings belong. `SQLite::action` binds the
parameters in their order. -/
structure Aligned (text : (String → String) → String) (params given : List String) : Prop where
  count : count (text placeholder) = params.length
  order : params = given
  fill : ∀ write, fill (text placeholder) (params.map write) = text write
  bound : SQLite.bound params = given.map fun s => .text (Text.cString s)

theorem aligned_of_parts {text : (String → String) → String} {parts : List Part}
    {params given : List String} (hPlain : Plain parts)
    (hText : ∀ write, text write = render write parts) (hParams : params = args parts)
    (hGiven : args parts = given) : Aligned text params given := by
  refine ⟨?_, hParams.trans hGiven, ?_, ?_⟩
  · rw [hText, hParams]
    exact count_render hPlain
  · intro write
    rw [hText, hText, hParams]
    exact fill_render write hPlain
  · rw [hParams, hGiven]
    rfl

namespace SQLQuery

/-- The text of a value in a statement of `Query`. -/
def exprText : Sql.Expr → String
  | .int n => toString n
  | .param => "?"
  | .real q => SQLite.floatDigits q
  | .blank => ""

/-- The text of a piece of a statement of `Query`. -/
def pieceText : Sql.Piece → String
  | .and => " and "
  | .cond ⟨name, .compare cmp value⟩ =>
    " " ++ name ++ " " ++ action cmp ++ " " ++ exprText value ++ " "
  | .cond ⟨name, .among values⟩ =>
    " " ++ name ++ " " ++ "in (" ++ commas (values.map exprText) ++ ")"

theorem exprText_expr (val : QueryValue) : exprText val.expr = valueText placeholder val := by
  cases val <;> rfl

/-- The text of the conditions of a statement of `Query`. -/
def sentenceText (pieces : List Sql.Piece) : String :=
  pieces.foldr (fun piece s => pieceText piece ++ s) ""

theorem pieceText_cond (c : Condition) :
    pieceText (.cond c.cond) = render placeholder (callParts (.condition c)) := by
  cases c with
  | compare name cmp val =>
    have hParts : callParts (.condition (.compare name cmp val)) =
        .fixed (" " ++ name ++ " " ++ action cmp ++ " ") :: ([valuePart val] ++ [.fixed " "]) := rfl
    rw [hParts, render, render_append, render_valuePart]
    simp [Condition.cond, pieceText, exprText_expr, render, String.append_assoc]
  | among name vals =>
    rw [callParts, render, render_append, render_commaParts, List.map_map]
    simp [Condition.cond, pieceText, exprText_expr, render, String.append_assoc, Function.comp_def,
      render_valuePart]

/-- The texts are those of the statements of `Query`, and so are the parameters. -/
theorem built_sentence (t : Table) (calls : List Query.Call) :
    (build placeholder t calls).sentence = sentenceText (Query.build t calls).sentence ∧
      (build placeholder t calls).params = (Query.build t calls).params := by
  obtain ⟨-, -, hSentence, hParams, -⟩ := Query.build_spec t calls
  obtain ⟨hText, hArgs⟩ := build_parts placeholder t calls
  rw [hText, hArgs, hSentence, hParams, args_calls]
  clear hText hArgs hSentence hParams
  induction calls with
  | nil => exact ⟨rfl, rfl⟩
  | cons c calls ih =>
    rw [List.flatMap_cons, List.flatMap_cons, render_append, ih.1, ih.2]
    cases c with
    | condition c =>
      rw [← pieceText_cond]
      exact ⟨rfl, rfl⟩
    | andQ => exact ⟨rfl, rfl⟩
    | _ => exact ⟨String.empty_append, rfl⟩

/-- The text between the start of a statement and what is behind its conditions. -/
theorem aligned_statement (t : Table) {head tail : String} (hHead : Free head) (hTail : Free tail)
    {calls : List Query.Call} (h : ∀ c ∈ calls, NameFree c) :
    Aligned (fun write => head ++ (build write t calls).whereText ++ tail)
      (build placeholder t calls).params (calls.flatMap strings) :=
  aligned_of_parts (plain_statementParts hHead hTail h)
    (fun write => (render_statementParts write t head tail calls).symm)
    ((build_parts placeholder t calls).2.trans (args_statementParts head tail calls).symm)
    ((args_statementParts head tail calls).trans (args_calls calls))

theorem whereText_eraseStrings (t : Table) (calls : List Query.Call) :
    (build placeholder t calls).whereText =
      (build placeholder t (calls.map eraseStrings)).whereText := by
  have hText := render_placeholder_congr (shape_statementParts "" "" calls)
  rw [render_statementParts placeholder t, render_statementParts placeholder t] at hText
  simpa using hText

/-- The text before the conditions of `SQLQuery::find`. -/
def selectHead (t : Table) : String :=
  "SELECT " ++ commas (t.fields.map Field.name) ++ " FROM " ++ t.cls

theorem build_table (write : String → String) (t : Table) (calls : List Query.Call) :
    (build write t calls).table = t := by
  induction calls using List.reverseRecOn with
  | nil => rfl
  | append_singleton calls c ih =>
    rw [build_concat]
    cases c with
    | condition c => cases c <;> exact ih
    | _ => exact ih

theorem tailText_rest (q : SQLQuery) : q.rest.tailText = q.tailText := rfl

theorem selectText_build (write : String → String) (t : Table) (calls : List Query.Call) :
    (build write t calls).selectText =
      selectHead t ++ (build write t calls).whereText ++
        (build placeholder t (calls.map eraseStrings)).tailText := by
  rw [selectText, build_table, ← tailText_rest, rest_build, tailText_rest]
  rfl

theorem deleteText_build (write : String → String) (t : Table) (calls : List Query.Call) :
    (build write t calls).deleteText =
      ("DELETE " ++ " FROM " ++ t.cls) ++ (build write t calls).whereText ++ ";" := by
  rw [deleteText, build_table]

end SQLQuery

/-- Two objects differ only in their strings. -/
def SameButText (t : Table) (o o' : Object) : Prop :=
  o.identifier = o'.identifier ∧ ∀ f ∈ t.stored, f.type ≠ .text → o.get f = o'.get f

/-- The strings of an object, in the order of the columns. -/
def Object.texts (t : Table) (o : Object) : List String :=
  (t.stored.filter fun f => f.type = .text).map fun f => o.members .text f.name

theorem params_eq_texts (t : Table) (o : Object) : SQLite.params t o = o.texts t := by
  rw [SQLite.params, Object.texts]
  induction t.stored with
  | nil => rfl
  | cons f fields ih =>
    obtain ⟨name, index, primary, nullable, type⟩ := f
    rw [List.filterMap_cons, ih]
    cases type <;> rfl

/-- In every statement of a query and of `SQLite::update` the placeholders go with the parameters,
and the text does not depend on the strings. -/
theorem placeholders_aligned (t : Table) (hCls : Free t.cls) (hFields : ∀ f ∈ t.fields, Free f.name) :
    (∀ calls : List Query.Call, (∀ c ∈ calls, SQLQuery.NameFree c) →
      Aligned (fun write => (SQLQuery.build write t calls).selectText)
          (SQLQuery.build placeholder t calls).params (calls.flatMap SQLQuery.strings) ∧
        Aligned (fun write => (SQLQuery.build write t calls).deleteText)
          (SQLQuery.build placeholder t calls).params (calls.flatMap SQLQuery.strings) ∧
        ∀ calls' : List Query.Call,
          calls.map SQLQuery.eraseStrings = calls'.map SQLQuery.eraseStrings →
          (SQLQuery.build placeholder t calls).selectText =
              (SQLQuery.build placeholder t calls').selectText ∧
            (SQLQuery.build placeholder t calls).deleteText =
              (SQLQuery.build placeholder t calls').deleteText) ∧
    ∀ o : Object,
      Aligned (fun write => SQLite.updateText write t o) (SQLite.params t o) (o.texts t) ∧
        ∀ o' : Object, SameButText t o o' →
          SQLite.updateText placeholder t o = SQLite.updateText placeholder t o' := by
  have hNames : Free (commas (t.fields.map Field.name)) := by
    apply free_commas
    intro s hs
    obtain ⟨f, hf, rfl⟩ := List.mem_map.mp hs
    exact hFields f hf
  have hSelect : Free (SQLQuery.selectHead t) := by
    simp only [SQLQuery.selectHead, free_append]
    exact ⟨⟨⟨by decide, hNames⟩, by decide⟩, hCls⟩
  have hDelete : Free ("DELETE " ++ " FROM " ++ t.cls) :=
    free_append.mpr ⟨by decide, hCls⟩
  refine ⟨?_, ?_⟩
  · intro calls hCalls
    refine ⟨?_, ?_, ?_⟩
    · simp only [SQLQuery.selectText_build]
      have hErased : ∀ c ∈ calls.map SQLQuery.eraseStrings, SQLQuery.NameFree c := by
        intro c hc
        obtain ⟨d, hd, rfl⟩ := List.mem_map.mp hc
        exact SQLQuery.nameFree_eraseStrings (hCalls d hd)
      exact SQLQuery.aligned_statement t hSelect
        (SQLQuery.free_tailText (SQLQuery.free_sortBys placeholder t hErased)) hCalls
    · simp only [SQLQuery.deleteText_build]
      exact SQLQuery.aligned_statement t hDelete (by decide) hCalls
    · intro calls' hSame
      rw [SQLQuery.selectText_build, SQLQuery.selectText_build, SQLQuery.deleteText_build,
        SQLQuery.deleteText_build, SQLQuery.whereText_eraseStrings t calls,
        SQLQuery.whereText_eraseStrings t calls', hSame]
      exact ⟨rfl, rfl⟩
  · intro o
    refine ⟨?_, ?_⟩
    · exact aligned_of_parts (SQLite.plain_updateParts hCls hFields o)
        (fun write => (SQLite.render_updateParts write t o).symm) (SQLite.args_updateParts t o).symm
        ((SQLite.args_updateParts t o).trans (params_eq_texts t o))
    · intro o' hSame
      rw [← SQLite.render_updateParts, ← SQLite.render_updateParts]
      exact render_placeholder_congr (SQLite.shape_updateParts hSame.1 hSame.2)

/-- Two strings and a number: a string with a `?` of its own does not count. -/
theorem placeholders_aligned_info :
    Free SQLite.info.cls ∧ (∀ f ∈ SQLite.info.fields, Free f.name) ∧
      count (SQLQuery.build placeholder SQLite.info
        [.condition (.compare "table_name" .equal (.text "why?")), .andQ,
          .condition (.among "ver" [.int 1, .text "2"])]).selectText = 2 ∧
      Aligned (fun write => SQLite.updateText write SQLite.info .zero) [""] [""] := by
  have hCls : Free SQLite.info.cls := by decide
  have hFields : ∀ f ∈ SQLite.info.fields, Free f.name := by decide
  obtain ⟨hQuery, hUpdate⟩ := placeholders_aligned SQLite.info hCls hFields
  refine ⟨hCls, hFields, (hQuery _ ?_).1.count, (hUpdate .zero).1⟩
  intro c hc
  simp only [List.mem_cons, List.not_mem_nil, or_false] at hc
  rcases hc with rfl | rfl | rfl
  · exact (by decide : Free "table_name")
  · trivial
  · exact (by decide : Free "ver")

end RetroConfig
