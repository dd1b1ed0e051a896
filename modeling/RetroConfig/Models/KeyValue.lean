import RetroConfig.Database.Open
import Mathlib.Data.Finset.Card

/-!
# `KeyValue`: a map in a table

`KeyValue::set` looks the key up, takes the object of its row or makes a new one, and saves it;
`KeyValue::get` looks the key up and returns the value of the first row, or the empty text.
An object whose value does not change is not saved: in particular `set("", "")` on an empty
table stores nothing, and `get("")` still returns the empty text.

`keyValue_refines_map` says that the table behaves as a map from texts to texts, empty at first,
as long as fewer than `2 ^ 31` different keys are set. From the row `2 ^ 31` on the identifier
of an object, an `int`, is not the rowid any more, and an update misses its row
(`keyValue_loses_update`).
-/

namespace RetroConfig.KeyValue

open SQLite Program

def key : Field := makeField "key" .text true

def value : Field := makeField "value" .text false

def table : Table where
  cls := "KeyValue"
  fresh := .zero
  fields := [.identifier, key, value]
  version := 1
  nodup := by decide
  identifier_mem := by decide
  primary := by decide

def setKey (k : String) (o : Object) : Object := o.set key k

def getValue (o : Object) : String := o.get value

def setValue (v : String) (o : Object) : Object := o.set value v

/-- `KeyValue::get`. -/
def get (k : String) (p : Program) : Except Fault (Program × String) := do
  let (p, res) ← Model.resultsEqual table key.name (.text k) p
  match res with
  | kv :: _ => pure (p, getValue (p.object kv))
  | [] => pure (p, "")

/-- `KeyValue::set`. -/
def set (k v : String) (p : Program) : Except Fault Program := do
  let (p, res) ← Model.resultsEqual table key.name (.text k) p
  let (p, kv) := match res with
    | kv :: _ => (p, kv)
    | [] => (p.newZero.1.modify p.newZero.2 (setKey k), p.newZero.2)
  Model.save table kv (p.modify kv (setValue v))

/-! ## One call on a table -/

theorem table_columns : table.Columns := by decide

theorem key_mem : key ∈ table.stored := by decide

theorem value_mem : value ∈ table.stored := by decide

theorem mem_fields {f : Field} (hf : f ∈ table.stored) : f ∈ table.fields :=
  (Table.mem_stored.mp hf).1

/-- The rows of a key. -/
def rowsOf (u : Sql.Table) (k : String) : List Sql.Row := matching u key.name (.text k)

section Calls

variable {p : Program} {u : Sql.Table} {k v : String}

theorem get_missing (h : Openable table p u) (hRows : rowsOf u k = []) :
    ∃ q, get k p = .ok (q, "") ∧ Openable table q u := by
  obtain ⟨q, results, hRun, hOpen, -, hNone, -⟩ :=
    resultsEqual_open table_columns h (mem_fields key_mem) (v := .text k) rfl
  refine ⟨q, ?_, hOpen⟩
  rw [get, hRun, hNone hRows]
  rfl

theorem get_found (h : Openable table p u) {r : Sql.Row} (hRows : rowsOf u k = [r])
    (hValue : u.cell r value.name = .text v) (hv : Text.NulFree v) :
    ∃ q, get k p = .ok (q, v) ∧ Openable table q u := by
  obtain ⟨q, results, hRun, hOpen, -, -, hSome⟩ :=
    resultsEqual_open table_columns h (mem_fields key_mem) (v := .text k) rfl
  obtain ⟨a, tail, hResults, -, -, hObject⟩ := hSome r [] hRows
  refine ⟨q, ?_, hOpen⟩
  have hGet : getValue (q.object a) = v := by
    rw [hObject]
    have hRead := get_rowObject table_columns u r (mem_fields value_mem)
    rw [hValue] at hRead
    exact hRead.trans (Text.cString_of_nulFree hv)
  rw [get, hRun, hResults]
  simp only [Transition.ok_bind, hGet]
  rfl

/-- The object that `set` saves for a key without a row. -/
def newObject (k v : String) : Object := setValue v (setKey k .zero)

theorem setValue_changed (v : String) (o : Object) :
    (setValue v o).changed = (o.changed || decide (getValue o ≠ v)) := Object.set_changed o value v

theorem newObject_changed (k v : String) :
    (newObject k v).changed = true ↔ ¬ (k = "" ∧ v = "") := by
  have hKey : (setKey k .zero).changed = (false || decide ("" ≠ k)) := Object.set_changed .zero key k
  have hValue : getValue (setKey k .zero) = "" := Object.get_set_of_ne .zero _ (by decide)
  rw [newObject, setValue_changed, hKey, hValue, Bool.false_or, Bool.or_eq_true, decide_eq_true_eq,
    decide_eq_true_eq, ne_comm, ne_comm (a := ""), not_and_or]

theorem newObject_identifier (k v : String) : (newObject k v).identifier = -1 :=
  ((Object.identifier_set _ _ (by decide)).trans (Object.identifier_set _ _ (by decide))).trans
    (Object.get_put ..)

/-- `set` of a key without a row. -/
theorem set_missing (h : Openable table p u) (hRows : rowsOf u k = [])
    (hSeq : u.seq < Sql.maxRowid) :
    ∃ q, set k v p = .ok q ∧ q.floatText = p.floatText ∧
      Openable table q (if k = "" ∧ v = "" then u
        else inserted p.floatText table (newObject k v) u) := by
  obtain ⟨p₁, results, hRun, hOpen, hFrame, hNone, -⟩ :=
    resultsEqual_open table_columns h (mem_fields key_mem) (v := .text k) rfl
  obtain ⟨a, ha⟩ : ∃ a, a = p₁.newZero.2 := ⟨_, rfl⟩
  obtain ⟨p₂, hp₂⟩ : ∃ p₂, p₂ = (p₁.newZero.1.modify a (setKey k)).modify a (setValue v) :=
    ⟨_, rfl⟩
  have hSet : set k v p = Model.save table a p₂ := by
    rw [set, hRun, hNone hRows, hp₂, ha]
    rfl
  have hOpen₂ : Openable table p₂ u := by
    rw [hp₂]
    exact (hOpen.newZero.modify _ _).modify _ _
  have hText : p₂.floatText = p.floatText := by
    rw [hp₂]
    exact hFrame.floatText
  have hObject : p₂.object a = newObject k v := by
    rw [hp₂, Program.object_modify, Program.object_modify, ha]
    exact congrArg (fun o => setValue v (setKey k o)) (Function.update_self ..)
  have hLt : a < p₂.store.next := by
    rw [hp₂, ha]
    exact Nat.lt_succ_self _
  rw [hSet]
  by_cases hEmpty : k = "" ∧ v = ""
  · have hSame : ¬ (p₂.object a).changed = true := by
      rw [hObject, newObject_changed]
      exact not_not.mpr hEmpty
    rw [if_pos hEmpty]
    exact ⟨p₂, if_neg hSame, hText, hOpen₂⟩
  · rw [if_neg hEmpty, ← hText, ← hObject]
    obtain ⟨q, hSave, hOpenQ, hWrote⟩ := save_open_new table_columns (List.ne_nil_of_mem key_mem)
      hOpen₂ hLt (by rw [hObject, newObject_changed]; exact hEmpty)
      (by rw [hObject, newObject_identifier]) hSeq
    exact ⟨q, hSave, hWrote.floatText, hOpenQ⟩

/-- `set` of a key with a row whose identifier is not `-1`. -/
theorem set_found (h : Openable table p u) {r : Sql.Row} {rest : List Sql.Row}
    (hRows : rowsOf u k = r :: rest) (hOld : (rowObject table u r).identifier ≠ -1) :
    ∃ q, set k v p = .ok q ∧ q.floatText = p.floatText ∧
      Openable table q (if getValue (rowObject table u r) = v then u
        else updated p.floatText table (setValue v (rowObject table u r))
          (rowObject table u r).identifier u) := by
  obtain ⟨p₁, results, hRun, hOpen, hFrame, -, hSome⟩ :=
    resultsEqual_open table_columns h (mem_fields key_mem) (v := .text k) rfl
  obtain ⟨a, tail, hResults, -, hLt, hObject⟩ := hSome r rest hRows
  have hSet : set k v p = Model.save table a (p₁.modify a (setValue v)) := by
    rw [set, hRun, hResults]
    rfl
  have hNew : (p₁.modify a (setValue v)).object a = setValue v (rowObject table u r) := by
    rw [Program.object_modify, hObject]
  have hIdentifier : (setValue v (rowObject table u r)).identifier =
      (rowObject table u r).identifier := Object.identifier_set _ _ (by decide)
  rw [hSet]
  by_cases hEqual : getValue (rowObject table u r) = v
  · have hSame : ¬ ((p₁.modify a (setValue v)).object a).changed = true := by
      rw [hNew, setValue_changed, rowObject_changed]
      simp [hEqual]
    rw [if_pos hEqual]
    exact ⟨_, if_neg hSame, hFrame.floatText, hOpen.modify a _⟩
  · have hChanged : ((p₁.modify a (setValue v)).object a).changed = true := by
      rw [hNew, setValue_changed]
      simp [hEqual]
    obtain ⟨q, hSave, hOpenQ, hFrameQ⟩ := save_open_old table_columns
      (List.ne_nil_of_mem key_mem) (hOpen.modify a (setValue v)) hLt hChanged
      (by rw [hNew, hIdentifier]; exact hOld)
    rw [hNew, hIdentifier] at hOpenQ
    rw [if_neg hEqual, ← hFrame.floatText]
    exact ⟨q, hSave, hFrameQ.floatText, hOpenQ⟩

end Calls

/-! ## The map that a table stands for -/

/-- The table stands for the map `m`, which is the empty text outside of the stored keys. All
keys stored are among `keys`. -/
structure Represents (u : Sql.Table) (m : String → String) (keys : List String) : Prop where
  rows : ∀ k, Text.NulFree k → rowsOf u k = [] ∧ m k = "" ∨
    ∃ r, rowsOf u k = [r] ∧ u.cell r value.name = .text (m k)
  keys : ∀ r ∈ u.rows, ∃ k ∈ keys, Text.NulFree k ∧ u.cell r key.name = .text k
  values : ∀ k, Text.NulFree k → Text.NulFree (m k)
  count : u.seq = u.rows.length

theorem mem_rowsOf {u : Sql.Table} {k : String} (hk : Text.NulFree k) {r : Sql.Row} :
    r ∈ rowsOf u k ↔ r ∈ u.rows ∧ u.cell r key.name = .text k := by
  rw [rowsOf, mem_matching_text, Text.cString_of_nulFree hk]

/-- The key of a row. -/
def keyOf (u : Sql.Table) (r : Sql.Row) : String := key.type.read (u.cell r key.name)

theorem represents_empty : Represents (.empty (columns table)) (fun _ => "") [] where
  rows := fun _ _ => Or.inl ⟨rfl, rfl⟩
  keys := fun _ h => by cases h
  values := fun _ _ => (by decide : Text.NulFree "")
  count := rfl

namespace Represents

variable {u : Sql.Table} {m : String → String} {keys : List String} {k v : String}

/-- At most one row per key. -/
theorem unique (h : Represents u m keys) {r q : Sql.Row} (hr : r ∈ u.rows) (hq : q ∈ u.rows)
    (hKey : u.cell r key.name = u.cell q key.name) : r = q := by
  obtain ⟨k, -, hk, hCell⟩ := h.keys r hr
  have hr' : r ∈ rowsOf u k := (mem_rowsOf hk).mpr ⟨hr, hCell⟩
  have hq' : q ∈ rowsOf u k := (mem_rowsOf hk).mpr ⟨hq, hKey ▸ hCell⟩
  rcases h.rows k hk with ⟨hNil, -⟩ | ⟨e, hOne, -⟩
  · rw [hNil] at hr'
    cases hr'
  · rw [hOne, List.mem_singleton] at hr' hq'
    rw [hr', hq']

/-- There are no more rows than keys. -/
theorem length_le (h : Represents u m keys) : u.rows.length ≤ keys.toFinset.card := by
  have hKeyOf : ∀ r ∈ u.rows, keyOf u r ∈ keys ∧ u.cell r key.name = .text (keyOf u r) := by
    intro r hr
    obtain ⟨k, hMem, hk, hCell⟩ := h.keys r hr
    have hRead : keyOf u r = k := by
      rw [keyOf, hCell]
      exact Text.cString_of_nulFree hk
    rw [hRead]
    exact ⟨hMem, hCell⟩
  have hNodup : (u.rows.map (keyOf u)).Nodup := by
    apply List.Nodup.map_on _ (u.nodup.of_map _)
    intro r hr q hq hEq
    apply h.unique hr hq
    rw [(hKeyOf r hr).2, (hKeyOf q hq).2, hEq]
  have hCard := List.toFinset_card_of_nodup hNodup
  rw [List.length_map] at hCard
  rw [← hCard]
  apply Finset.card_le_card
  intro x hx
  obtain ⟨r, hr, rfl⟩ := List.mem_map.mp (List.mem_toFinset.mp hx)
  exact List.mem_toFinset.mpr (hKeyOf r hr).1

/-- The table after an insert of a new key. -/
theorem insert (h : Represents u m keys) {db : Sql.Db} (hHolds : Holds db table u)
    (floatText : Rat → Rat) (hk : Text.NulFree k) (hv : Text.NulFree v) (hRows : rowsOf u k = []) :
    Represents (inserted floatText table (newObject k v) u) (Function.update m k v) (k :: keys) := by
  have hKey : key.type.stored floatText ((newObject k v).get key) = .text k := by
    have hGet : (newObject k v).get key = k :=
      (Object.get_set_of_ne _ _ (by decide)).trans (Object.get_set .zero key k)
    rw [hGet]
    exact congrArg Sql.Cell.text (Text.cString_of_nulFree hk)
  have hValue : value.type.stored floatText ((newObject k v).get value) = .text v := by
    have hGet : (newObject k v).get value = v := Object.get_set _ value v
    rw [hGet]
    exact congrArg Sql.Cell.text (Text.cString_of_nulFree hv)
  have hRowsOf : ∀ k', Text.NulFree k' →
      rowsOf (inserted floatText table (newObject k v) u) k' =
        rowsOf u k' ++ if k = k' then [newRow floatText table (newObject k v) u] else [] := by
    intro k' hk'
    rw [rowsOf, matching_inserted hHolds floatText _ key_mem, hKey, QueryValue.cell,
      Text.cString_of_nulFree hk', Sql.equal_holds_text]
    simp only [decide_eq_true_eq]
    rfl
  refine ⟨?_, ?_, ?_, ?_⟩
  · intro k' hk'
    rw [hRowsOf k' hk']
    by_cases hEq : k = k'
    · subst hEq
      right
      refine ⟨newRow floatText table (newObject k v) u, ?_, ?_⟩
      · rw [hRows, if_pos rfl, List.nil_append]
      · rw [Function.update_self, ← hValue]
        exact hHolds.cell_newRow floatText (newObject k v) value_mem
    · rw [if_neg hEq, List.append_nil, Function.update_of_ne (Ne.symm hEq)]
      exact h.rows k' hk'
  · intro r hr
    rcases List.mem_append.mp hr with hOld | hNew
    · obtain ⟨k', hMem, hk', hCell⟩ := h.keys r hOld
      exact ⟨k', List.mem_cons_of_mem k hMem, hk', hCell⟩
    · refine ⟨k, List.mem_cons_self, hk, ?_⟩
      rw [List.mem_singleton.mp hNew, ← hKey]
      exact hHolds.cell_newRow floatText (newObject k v) key_mem
  · intro k' hk'
    by_cases hEq : k' = k
    · rw [hEq, Function.update_self]
      exact hv
    · rw [Function.update_of_ne hEq]
      exact h.values k' hk'
  · change u.seq + 1 = (u.rows ++ [_]).length
    rw [List.length_append, ← h.count]
    rfl

theorem mono (h : Represents u m keys) {keys' : List String} (hSub : keys ⊆ keys') :
    Represents u m keys' where
  rows := h.rows
  keys := fun r hr => (h.keys r hr).imp fun _ hk => ⟨hSub hk.1, hk.2⟩
  values := h.values
  count := h.count

/-- The object made from the row of a key. -/
theorem rowObject_get (h : Represents u m keys) {db : Sql.Db} (hHolds : Holds db table u)
    (hk : Text.NulFree k) {r : Sql.Row} (hRows : rowsOf u k = [r])
    (hValue : u.cell r value.name = .text (m k)) :
    (rowObject table u r).get key = k ∧ getValue (rowObject table u r) = m k ∧
      (rowObject table u r).identifier = Int32.ofInt r.rowid := by
  have hMem : r ∈ rowsOf u k := by simp [hRows]
  have hKey := ((mem_rowsOf hk).mp hMem).2
  have hReadKey := get_rowObject table_columns u r (mem_fields key_mem)
  have hReadValue := get_rowObject table_columns u r (mem_fields value_mem)
  have hReadId := get_rowObject table_columns u r table.identifier_mem
  rw [hKey] at hReadKey
  rw [hValue] at hReadValue
  rw [hHolds.cell_identifier] at hReadId
  exact ⟨hReadKey.trans (Text.cString_of_nulFree hk),
    hReadValue.trans (Text.cString_of_nulFree (h.values k hk)), hReadId⟩

/-- The table after an update of the row of a key. -/
theorem update (h : Represents u m keys) {db : Sql.Db} (hHolds : Holds db table u)
    (floatText : Rat → Rat) (hk : Text.NulFree k) (hv : Text.NulFree v) {r : Sql.Row}
    (hRows : rowsOf u k = [r]) {o : Object} (hKey : o.get key = k) {id : Int32}
    (hId : (r.rowid : Int) = id.toInt) :
    Represents (updated floatText table (setValue v o) id u) (Function.update m k v) keys := by
  obtain ⟨hr, hCell⟩ := (mem_rowsOf hk).mp (by rw [hRows]; exact List.mem_singleton_self r)
  have hOnly : ∀ q ∈ u.rows, (q.rowid : Int) = id.toInt → q = r := by
    intro q hq hEq
    exact Sql.Table.eq_of_rowid hq hr (by omega)
  have hStoredKey : key.type.stored floatText ((setValue v o).get key) = .text k := by
    have hGet : (setValue v o).get key = k := (Object.get_set_of_ne _ _ (by decide)).trans hKey
    rw [hGet]
    exact congrArg Sql.Cell.text (Text.cString_of_nulFree hk)
  have hStoredValue : value.type.stored floatText ((setValue v o).get value) = .text v := by
    have hGet : (setValue v o).get value = v := Object.get_set o value v
    rw [hGet]
    exact congrArg Sql.Cell.text (Text.cString_of_nulFree hv)
  have hRowsOf : ∀ k', rowsOf (updated floatText table (setValue v o) id u) k' =
      (rowsOf u k').map (rewriteRow floatText table (setValue v o) id) := by
    intro k'
    apply matching_updated hHolds floatText _ id key_mem
    intro q hq hEq
    rw [hOnly q hq hEq, hStoredKey, hCell]
  refine ⟨?_, ?_, ?_, ?_⟩
  · intro k' hk'
    rw [hRowsOf k']
    by_cases hEq : k' = k
    · subst hEq
      right
      refine ⟨rewriteRow floatText table (setValue v o) id r, by rw [hRows]; rfl, ?_⟩
      have hRewrite := hHolds.cell_rewriteRow floatText (setValue v o) id r value_mem
      rw [if_pos hId, hStoredValue] at hRewrite
      rw [Function.update_self]
      exact hRewrite
    · rw [Function.update_of_ne hEq]
      rcases h.rows k' hk' with ⟨hNil, hEmpty⟩ | ⟨q, hOne, hValue⟩
      · exact Or.inl ⟨by rw [hNil]; rfl, hEmpty⟩
      · right
        obtain ⟨hq, hqCell⟩ := (mem_rowsOf hk').mp (by rw [hOne]; exact List.mem_singleton_self q)
        have hOther : ¬ (q.rowid : Int) = id.toInt := by
          intro hSame
          rw [hOnly q hq hSame, hCell] at hqCell
          exact hEq (Sql.Cell.text.inj hqCell).symm
        refine ⟨rewriteRow floatText table (setValue v o) id q, by rw [hOne]; rfl, ?_⟩
        have hRewrite := hHolds.cell_rewriteRow floatText (setValue v o) id q value_mem
        rw [if_neg hOther, hValue] at hRewrite
        exact hRewrite
  · intro q hq
    obtain ⟨e, he, rfl⟩ := List.mem_map.mp hq
    obtain ⟨k', hMem, hk', heCell⟩ := h.keys e he
    refine ⟨k', hMem, hk', ?_⟩
    have hRewrite := hHolds.cell_rewriteRow floatText (setValue v o) id e key_mem
    by_cases hSame : (e.rowid : Int) = id.toInt
    · rw [hOnly e he hSame, hCell] at heCell
      rw [if_pos hSame, hStoredKey, heCell] at hRewrite
      exact hRewrite
    · rw [if_neg hSame, heCell] at hRewrite
      exact hRewrite
  · intro k' hk'
    by_cases hEq : k' = k
    · rw [hEq, Function.update_self]
      exact hv
    · rw [Function.update_of_ne hEq]
      exact h.values k' hk'
  · change u.seq = (u.rows.map _).length
    rw [List.length_map, h.count]

end Represents

/-! ## Whole runs -/

/-- A call of the store, or a firing of the queue's timer. -/
inductive Op where
  | set (k v : String)
  | get (k : String)
  | fire

def next (p : Program) : Op → Except Fault Program
  | .set k v => set k v p
  | .get k => do
    let (p, _) ← get k p
    pure p
  | .fire => p.fire

/-- What the calls make of a map: the specification of the store. -/
def applyOp (m : String → String) : Op → String → String
  | .set k v => Function.update m k v
  | _ => m

/-- The value of the last `set` of each key, or the empty text. -/
def contents (ops : List Op) : String → String := ops.foldl applyOp (fun _ => "")

/-- The keys that are set. -/
def setKeys (ops : List Op) : List String :=
  ops.filterMap (fun op => match op with
    | .set k _ => some k
    | _ => none)

/-- The texts of a call have no NUL. -/
def Op.NulFree : Op → Prop
  | .set k v => Text.NulFree k ∧ Text.NulFree v
  | .get k => Text.NulFree k
  | .fire => True

section Runs

variable {p : Program} {u : Sql.Table} {m : String → String} {keys : List String}

theorem get_represents (h : Openable table p u) (hu : Represents u m keys) {k : String}
    (hk : Text.NulFree k) : ∃ q, get k p = .ok (q, m k) ∧ Openable table q u := by
  rcases hu.rows k hk with ⟨hNil, hEmpty⟩ | ⟨r, hOne, hValue⟩
  · rw [hEmpty]
    exact get_missing h hNil
  · exact get_found h hOne hValue (hu.values k hk)

/-- `set` with room for one more key. -/
theorem set_represents (h : Openable table p u) (hu : Represents u m keys) {k v : String}
    (hk : Text.NulFree k) (hv : Text.NulFree v) (hRoom : (k :: keys).toFinset.card < 2 ^ 31) :
    ∃ q w, set k v p = .ok q ∧ Openable table q w ∧
      Represents w (Function.update m k v) (k :: keys) := by
  have hKeys : keys.toFinset.card ≤ (k :: keys).toFinset.card := by
    apply Finset.card_le_card
    intro x hx
    exact List.mem_toFinset.mpr (List.mem_cons_of_mem k (List.mem_toFinset.mp hx))
  have hLength := hu.length_le
  have hCount := hu.count
  rcases hu.rows k hk with ⟨hNil, hEmpty⟩ | ⟨r, hOne, hValue⟩
  · have hMax : (2 : Nat) ^ 31 ≤ Sql.maxRowid := by decide
    obtain ⟨q, hRun, -, hOpen⟩ := set_missing (v := v) h hNil (by omega)
    refine ⟨q, _, hRun, hOpen, ?_⟩
    split
    · next hBoth =>
      have hSame : Function.update m k v = m := by
        rw [hBoth.2, ← hEmpty, Function.update_eq_self]
      rw [hSame]
      exact hu.mono (List.subset_cons_self k keys)
    · exact hu.insert h.holds _ hk hv hNil
  · obtain ⟨hKey, hGet, hId⟩ := hu.rowObject_get h.holds hk hOne hValue
    have hr : r ∈ u.rows := ((mem_rowsOf hk).mp (by rw [hOne]; exact List.mem_singleton_self r)).1
    have hBound := u.bounds r hr
    have hRowid : (r.rowid : Int) = (rowObject table u r).identifier.toInt := by
      rw [hId, toInt_ofInt_of_lt (by omega)]
    have hOld : (rowObject table u r).identifier ≠ -1 := ne_neg_one_of_rowid hRowid
    obtain ⟨q, hRun, -, hOpen⟩ := set_found (v := v) h hOne hOld
    refine ⟨q, _, hRun, hOpen, ?_⟩
    split
    · next hSame =>
      have hUpdate : Function.update m k v = m := by
        rw [← hSame, hGet, Function.update_eq_self]
      rw [hUpdate]
      exact hu.mono (List.subset_cons_self k keys)
    · exact (hu.update h.holds _ hk hv hOne hKey hRowid).mono (List.subset_cons_self k keys)

/-- Every run with room for its keys ends in a table that stands for the map it has built. -/
theorem run_represents (ops : List Op) (h : Openable table p u) (hu : Represents u m keys)
    (hNul : ∀ op ∈ ops, op.NulFree) (hRoom : (setKeys ops ++ keys).toFinset.card < 2 ^ 31) :
    ∃ q w, Transition.run next p ops = .ok q ∧ Openable table q w ∧
      Represents w (ops.foldl applyOp m) (setKeys ops ++ keys) := by
  induction ops generalizing p u m keys with
  | nil => exact ⟨p, u, rfl, h, hu⟩
  | cons op ops ih =>
    have hTail : ∀ op ∈ ops, op.NulFree := fun o ho => hNul o (List.mem_cons_of_mem op ho)
    rw [Transition.run_cons]
    cases op with
    | set k v =>
      obtain ⟨hk, hv⟩ := hNul (.set k v) List.mem_cons_self
      have hPerm : setKeys (.set k v :: ops) ++ keys = k :: (setKeys ops ++ keys) := rfl
      have hSame : (setKeys ops ++ k :: keys).toFinset = (k :: (setKeys ops ++ keys)).toFinset := by
        ext x
        simp only [List.mem_toFinset, List.mem_append, List.mem_cons]
        tauto
      rw [hPerm] at hRoom ⊢
      have hOne : (k :: keys).toFinset.card < 2 ^ 31 := by
        refine lt_of_le_of_lt (Finset.card_le_card ?_) hRoom
        intro x hx
        simp only [List.mem_toFinset, List.mem_cons, List.mem_append] at hx ⊢
        tauto
      obtain ⟨q, w, hRun, hOpen, hw⟩ := set_represents h hu hk hv hOne
      obtain ⟨q', w', hRun', hOpen', hw'⟩ := ih hOpen hw hTail (by rw [hSame]; exact hRoom)
      refine ⟨q', w', ?_, hOpen', hw'.mono ?_⟩
      · change (set k v p >>= fun t => Transition.run next t ops) = _
        rw [hRun, Transition.ok_bind, hRun']
      · intro x hx
        simp only [List.mem_append, List.mem_cons] at hx ⊢
        tauto
    | get k =>
      obtain ⟨q, hRun, hOpen⟩ := get_represents h hu (hNul (.get k) List.mem_cons_self)
      obtain ⟨q', w', hRun', hOpen', hw'⟩ := ih hOpen hu hTail hRoom
      refine ⟨q', w', ?_, hOpen', hw'⟩
      rw [next, hRun]
      exact hRun'
    | fire =>
      obtain ⟨q, hRun, hOpen, -⟩ := h.fire
      obtain ⟨q', w', hRun', hOpen', hw'⟩ := ih hOpen hu hTail hRoom
      refine ⟨q', w', ?_, hOpen', hw'⟩
      rw [next, hRun]
      exact hRun'

end Runs

/-- The calls that set `n` different keys. -/
def fill (n : Nat) : List Op := (List.range n).map fun i => .set i.repr "v"

theorem repr_inj {m n : Nat} (h : m.repr = n.repr) : m = n := by
  rw [← Nat.ofDigitChars_ten_toDigits (n := m), ← Nat.toList_repr, h, Nat.toList_repr,
    Nat.ofDigitChars_ten_toDigits]

theorem fill_succ (n : Nat) : fill (n + 1) = fill n ++ [.set n.repr "v"] := by
  rw [fill, List.range_succ, List.map_append]
  rfl

theorem fill_nulFree (n : Nat) : ∀ op ∈ fill n, op.NulFree := by
  intro op hop
  obtain ⟨i, -, rfl⟩ := List.mem_map.mp hop
  exact ⟨Text.nulFree_repr i, by decide⟩

theorem setKeys_fill (n : Nat) : setKeys (fill n) = (List.range n).map Nat.repr := by
  rw [setKeys, fill, List.filterMap_map]
  exact congrFun List.filterMap_eq_map (List.range n)

theorem contents_fill (n i : Nat) : contents (fill n) i.repr = if i < n then "v" else "" := by
  induction n with
  | zero => rfl
  | succ n ih =>
    have hLast : contents (fill (n + 1)) = Function.update (contents (fill n)) n.repr "v" := by
      rw [contents, fill_succ, List.foldl_append]
      rfl
    rw [hLast]
    by_cases hEq : i = n
    · rw [hEq, Function.update_self, if_pos (Nat.lt_succ_self n)]
    · rw [Function.update_of_ne (fun h => hEq (repr_inj h)), ih]
      split <;> split <;> first | rfl | omega

/-- Every key whose value is not empty has a row of its own. -/
theorem Represents.le_length {u : Sql.Table} {m : String → String} {keys : List String}
    (h : Represents u m keys) (ks : List String) (hNodup : ks.Nodup)
    (hks : ∀ k ∈ ks, Text.NulFree k ∧ m k ≠ "") : ks.length ≤ u.rows.length := by
  have hSub : ks.toFinset ⊆ (u.rows.map (keyOf u)).toFinset := by
    intro k hk
    obtain ⟨hNul, hValue⟩ := hks k (List.mem_toFinset.mp hk)
    rcases h.rows k hNul with ⟨-, hEmpty⟩ | ⟨r, hOne, -⟩
    · exact absurd hEmpty hValue
    · obtain ⟨hr, hCell⟩ := (mem_rowsOf hNul).mp (by rw [hOne]; exact List.mem_singleton_self r)
      apply List.mem_toFinset.mpr
      refine List.mem_map.mpr ⟨r, hr, ?_⟩
      rw [keyOf, hCell]
      exact Text.cString_of_nulFree hNul
  calc ks.length = ks.toFinset.card := (List.toFinset_card_of_nodup hNodup).symm
    _ ≤ (u.rows.map (keyOf u)).toFinset.card := Finset.card_le_card hSub
    _ ≤ (u.rows.map (keyOf u)).length := List.toFinset_card_le _
    _ = u.rows.length := List.length_map ..

/-- The table after `fill n` has `n` rows, as long as there is room for one more. -/
theorem run_fill (objects : Nat → Object) (floatText : Rat → Rat) (n : Nat) (hn : n < 2 ^ 31) :
    ∃ p u, Transition.run next (install objects floatText) (fill n) = .ok p ∧
      Openable table p u ∧ u.seq = n ∧
      Represents u (contents (fill n)) ((List.range n).map Nat.repr) := by
  have hOpen : Openable table (install objects floatText) (.empty (columns table)) :=
    install_openable objects floatText (by decide)
  have hCard : (setKeys (fill n)).toFinset.card ≤ n := by
    refine (List.toFinset_card_le _).trans ?_
    rw [setKeys_fill, List.length_map, List.length_range]
  have hRoom : (setKeys (fill n) ++ []).toFinset.card < 2 ^ 31 := by
    rw [List.append_nil]
    omega
  obtain ⟨p, u, hRun, hOpenP, hu⟩ :=
    run_represents (fill n) hOpen represents_empty (fill_nulFree n) hRoom
  rw [List.append_nil, setKeys_fill] at hu
  rw [setKeys_fill] at hCard
  refine ⟨p, u, hRun, hOpenP, ?_, hu⟩
  have hLe := hu.length_le
  have hGe := hu.le_length ((List.range n).map Nat.repr)
    (List.nodup_range.map fun _ _ => repr_inj) (by
      intro k hk
      obtain ⟨i, hi, rfl⟩ := List.mem_map.mp hk
      refine ⟨Text.nulFree_repr i, ?_⟩
      change contents (fill n) i.repr ≠ ""
      rw [contents_fill, if_pos (List.mem_range.mp hi)]
      decide)
  rw [List.length_map, List.length_range] at hGe
  have hCount := hu.count
  omega

/-- The row `2 ^ 31` is not updated: the identifier of its object is `-2 ^ 31`. -/
theorem set_wraps {p : Program} {u : Sql.Table} {m : String → String} {keys : List String}
    (h : Openable table p u) (hu : Represents u m keys) (hSeq : u.seq + 1 = 2 ^ 31) {k v w : String}
    (hk : Text.NulFree k) (hv : Text.NulFree v) (hne : v ≠ w) (hValue : v ≠ "")
    (hRows : rowsOf u k = []) :
    ∃ p₁ p₂ q, set k v p = .ok p₁ ∧ set k w p₁ = .ok p₂ ∧ get k p₂ = .ok (q, v) := by
  have hMax : (2 : Nat) ^ 31 < Sql.maxRowid := by decide
  obtain ⟨p₁, hSet₁, -, hOpen₁⟩ := set_missing (v := v) h hRows (by omega)
  rw [if_neg (fun hBoth => hValue hBoth.2)] at hOpen₁
  have hu₁ := hu.insert h.holds p.floatText hk hv hRows
  obtain ⟨u₁, hInserted⟩ : ∃ u₁, u₁ = inserted p.floatText table (newObject k v) u := ⟨_, rfl⟩
  rw [← hInserted] at hOpen₁ hu₁
  rcases hu₁.rows k hk with ⟨-, hEmpty⟩ | ⟨r, hOne, hCell⟩
  · rw [Function.update_self] at hEmpty
    exact absurd hEmpty hValue
  obtain ⟨hr, hKey⟩ := (mem_rowsOf hk).mp (by rw [hOne]; exact List.mem_singleton_self r)
  -- The key had no row before, so its row is the one just inserted.
  have hRowid : r.rowid = 2 ^ 31 := by
    rw [hInserted] at hr
    rcases List.mem_append.mp hr with hOld | hNew
    · have hMem : r ∈ rowsOf u k := by
        rw [hInserted] at hKey
        exact (mem_rowsOf hk).mpr ⟨hOld, hKey⟩
      rw [hRows] at hMem
      cases hMem
    · rw [List.mem_singleton.mp hNew, ← hSeq]
  have hBounds : ∀ q ∈ u₁.rows, q.rowid ≤ 2 ^ 31 := by
    intro q hq
    have hSeq₁ : u₁.seq = u.seq + 1 := by rw [hInserted]; rfl
    have hBound := (u₁.bounds q hq).2
    omega
  obtain ⟨-, hGet, hId⟩ := hu₁.rowObject_get hOpen₁.holds hk hOne hCell
  rw [Function.update_self] at hGet hCell
  have hWrapped : (rowObject table u₁ r).identifier.toInt = -2 ^ 31 := by
    rw [hId, hRowid]
    decide
  obtain ⟨p₂, hSet₂, -, hOpen₂⟩ := set_found (v := w) hOpen₁ hOne (by
    intro hMinus
    rw [hMinus] at hWrapped
    exact absurd hWrapped (by decide))
  rw [hGet, if_neg hne] at hOpen₂
  have hMissed : ∀ q ∈ u₁.rows, (q.rowid : Int) ≠ (rowObject table u₁ r).identifier.toInt := by
    intro q _
    omega
  have hRows₂ := matching_updated hOpen₁.holds p₁.floatText (setValue w (rowObject table u₁ r))
    (rowObject table u₁ r).identifier key_mem (.text k) (fun q hq hEq => absurd hEq (hMissed q hq))
  rw [show matching u₁ key.name (.text k) = [r] from hOne, List.map_singleton] at hRows₂
  have hCell₂ := hOpen₁.holds.cell_rewriteRow p₁.floatText (setValue w (rowObject table u₁ r))
    (rowObject table u₁ r).identifier r value_mem
  rw [if_neg (hMissed r hr), hCell] at hCell₂
  obtain ⟨q, hLast, -⟩ := get_found hOpen₂ hRows₂ hCell₂ hv
  exact ⟨p₁, p₂, q, hSet₁, hSet₂, hLast⟩

/-- The calls that give every number up to `n` a row, and set the last one twice. -/
def overfill (n : Nat) : List Op := fill n ++ [.set n.repr "v", .set n.repr "w"]

theorem overfill_nulFree (n : Nat) : ∀ op ∈ overfill n, op.NulFree := by
  intro op hop
  rcases List.mem_append.mp hop with hFill | hLast
  · exact fill_nulFree n op hFill
  · simp only [List.mem_cons, List.not_mem_nil, or_false] at hLast
    rcases hLast with rfl | rfl
    · exact ⟨Text.nulFree_repr n, by decide⟩
    · exact ⟨Text.nulFree_repr n, by decide⟩

theorem contents_overfill (n : Nat) : contents (overfill n) n.repr = "w" := by
  rw [contents, overfill, List.foldl_append]
  exact Function.update_self ..

theorem run_overfill (objects : Nat → Object) (floatText : Rat → Rat) {n : Nat}
    (hn : n + 1 = 2 ^ 31) : ∃ p q,
      Transition.run next (install objects floatText) (overfill n) = .ok p ∧
        get n.repr p = .ok (q, "v") := by
  obtain ⟨p, u, hRun, hOpen, hSeq, hu⟩ := run_fill objects floatText n (by omega)
  have hRows : rowsOf u n.repr = [] := by
    apply List.eq_nil_iff_forall_not_mem.mpr
    intro r hr
    obtain ⟨hMem, hCell⟩ := (mem_rowsOf (Text.nulFree_repr n)).mp hr
    obtain ⟨k, hk, -, hKey⟩ := hu.keys r hMem
    obtain ⟨i, hi, rfl⟩ := List.mem_map.mp hk
    have hSame := repr_inj (Sql.Cell.text.inj (hKey.symm.trans hCell))
    have hLt := List.mem_range.mp hi
    omega
  obtain ⟨p₁, p₂, q, hSet₁, hSet₂, hGet⟩ := set_wraps hOpen hu (by omega) (Text.nulFree_repr n)
    (by decide) (by decide : "v" ≠ "w") (by decide) hRows
  refine ⟨p₂, q, ?_, hGet⟩
  rw [overfill, Transition.run_append, hRun, Transition.ok_bind, Transition.run_cons]
  change (set n.repr "v" p >>= fun t => Transition.run next t [.set n.repr "w"]) = _
  rw [hSet₁, Transition.ok_bind, Transition.run_cons]
  change (set n.repr "w" p₁ >>= fun t => Transition.run next t []) = _
  rw [hSet₂]
  rfl

end RetroConfig.KeyValue
