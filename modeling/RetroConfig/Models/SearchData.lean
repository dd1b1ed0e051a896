import RetroConfig.Database.Open

/-!
# `SearchData`: the keys searched for

`SearchData::insert` looks the key up, takes the object of its row or makes a new one, sets the date
and saves it. `Stores` says that the rows are the entries of a list in which no key occurs twice;
`insert_stores` and `remove_stores` say what becomes of the list, as long as the identifier of an
object, an `int`, is the rowid of its row.
-/

namespace RetroConfig.SearchData

open SQLite Program

def key : Field := makeField "key" .text true

def date : Field := makeField "date" .long true

def table : Table where
  cls := "SearchData"
  fresh := .zero
  fields := [.identifier, key, date]
  version := 1
  nodup := by decide
  identifier_mem := by decide
  primary := by decide

def getKey (o : Object) : String := o.get key

def getDate (o : Object) : Int64 := o.get date

def setKey (k : String) (o : Object) : Object := o.set key k

def setDate (d : Int64) (o : Object) : Object := o.set date d

/-- `SearchData::insert`. -/
def insert (k : String) (d : Int64) (p : Program) : Except Fault Program := do
  let (p, res) ← Model.resultsEqual table key.name (.text k) p
  let (p, data) := match res with
    | data :: _ => (p, data)
    | [] => (p.newZero.1.modify p.newZero.2 (setKey k), p.newZero.2)
  Model.save table data (p.modify data (setDate d))

theorem table_columns : table.Columns := by decide

theorem key_mem : key ∈ table.stored := by decide

theorem date_mem : date ∈ table.stored := by decide

theorem mem_fields {f : Field} (hf : f ∈ table.stored) : f ∈ table.fields :=
  (Table.mem_stored.mp hf).1

/-! ## The entries of a table -/

/-- A key and its date. -/
abbrev Entry := String × Int64

/-- The entries of a table, and how many rows it has ever had. -/
structure Keys where
  entries : List Entry
  rows : Nat

namespace Keys

/-- `SearchData::insert`. With the empty key and the date `0` nothing of a new object changes, so it is
not saved. -/
def insert (k : String) (d : Int64) (s : Keys) : Keys :=
  if Text.cString k ∈ s.entries.map Prod.fst then
    { s with entries := s.entries.map fun e => if e.1 = Text.cString k then (e.1, d) else e }
  else if k = "" ∧ d = 0 then s
  else ⟨s.entries ++ [(Text.cString k, d)], s.rows + 1⟩

def remove (k : String) (s : Keys) : Keys :=
  { s with entries := s.entries.filter fun e => decide (e.1 ≠ Text.cString k) }

theorem rows_le_insert (k : String) (d : Int64) (s : Keys) : s.rows ≤ (s.insert k d).rows := by
  unfold insert
  split
  · exact Nat.le_refl _
  · split
    · exact Nat.le_refl _
    · exact Nat.le_succ _

end Keys

/-- The entry of a row. -/
def entry (u : Sql.Table) (r : Sql.Row) : Entry :=
  (key.type.read (u.cell r key.name), date.type.read (u.cell r date.name))

/-- The rows of the table are the entries, and no key occurs twice. -/
structure Stores (u : Sql.Table) (s : Keys) : Prop where
  entries : u.rows.map (entry u) = s.entries
  keys : ∀ r ∈ u.rows, u.cell r key.name = .text (entry u r).1
  dates : ∀ r ∈ u.rows, u.cell r date.name = .int (entry u r).2.toInt
  nodup : (s.entries.map Prod.fst).Nodup
  rows : u.seq = s.rows

theorem stores_empty : Stores (.empty (columns table)) ⟨[], 0⟩ where
  entries := rfl
  keys := fun _ h => by cases h
  dates := fun _ h => by cases h
  nodup := List.nodup_nil
  rows := rfl

/-- The rows of a key. -/
def rowsOf (u : Sql.Table) (k : String) : List Sql.Row := matching u key.name (.text k)

namespace Stores

variable {u : Sql.Table} {s : Keys} {k : String} {d : Int64}

theorem mem_rowsOf (h : Stores u s) {r : Sql.Row} :
    r ∈ rowsOf u k ↔ r ∈ u.rows ∧ (entry u r).1 = Text.cString k := by
  rw [rowsOf, mem_matching_text]
  refine and_congr_right fun hr => ?_
  rw [h.keys r hr, Sql.Cell.text.injEq]

theorem eq_of_key (h : Stores u s) {r q : Sql.Row} (hr : r ∈ u.rows) (hq : q ∈ u.rows)
    (hKey : (entry u r).1 = (entry u q).1) : r = q := by
  have hNodup := h.nodup
  rw [← h.entries, List.map_map] at hNodup
  exact List.inj_on_of_nodup_map hNodup hr hq hKey

theorem mem_keys_iff (h : Stores u s) :
    Text.cString k ∈ s.entries.map Prod.fst ↔ ∃ r ∈ u.rows, (entry u r).1 = Text.cString k := by
  rw [← h.entries, List.map_map, List.mem_map]
  rfl

/-- A key has no row or one. -/
theorem rowsOf_cases (h : Stores u s) :
    (rowsOf u k = [] ∧ Text.cString k ∉ s.entries.map Prod.fst) ∨
      ∃ r, rowsOf u k = [r] ∧ r ∈ u.rows ∧ (entry u r).1 = Text.cString k ∧
        Text.cString k ∈ s.entries.map Prod.fst := by
  rcases hRows : rowsOf u k with _ | ⟨r, rest⟩
  · refine .inl ⟨rfl, fun hMem => ?_⟩
    obtain ⟨r, hr, hKey⟩ := h.mem_keys_iff.mp hMem
    have hIn := h.mem_rowsOf.mpr ⟨hr, hKey⟩
    rw [hRows] at hIn
    cases hIn
  · have hAll : ∀ q ∈ r :: rest, q ∈ u.rows ∧ (entry u q).1 = Text.cString k := by
      intro q hq
      rw [← hRows] at hq
      exact h.mem_rowsOf.mp hq
    obtain ⟨hr, hKey⟩ := hAll r List.mem_cons_self
    refine .inr ⟨r, ?_, hr, hKey, h.mem_keys_iff.mpr ⟨r, hr, hKey⟩⟩
    have hNodup : (r :: rest).Nodup := by
      rw [← hRows]
      exact (u.nodup.of_map _).filter _
    cases rest with
    | nil => rfl
    | cons q rest =>
      obtain ⟨hq, hOther⟩ := hAll q (List.mem_cons_of_mem r List.mem_cons_self)
      have hSame : r = q := h.eq_of_key hr hq (hKey.trans hOther.symm)
      exact absurd (hSame ▸ List.mem_cons_self) (List.nodup_cons.mp hNodup).1

end Stores

/-! ## `insert` -/

section Insert

variable {p : Program} {u : Sql.Table} {s : Keys} {k : String} {d : Int64}

/-- The object that `insert` saves for a key without a row. -/
def newObject (k : String) (d : Int64) : Object := setDate d (setKey k .zero)

theorem setDate_changed (d : Int64) (o : Object) :
    (setDate d o).changed = (o.changed || decide (getDate o ≠ d)) := Object.set_changed o date d

theorem newObject_changed (k : String) (d : Int64) :
    (newObject k d).changed = true ↔ ¬ (k = "" ∧ d = 0) := by
  have hKey : (setKey k .zero).changed = (false || decide ("" ≠ k)) := Object.set_changed .zero key k
  have hDate : getDate (setKey k .zero) = 0 := Object.get_set_of_ne .zero _ (by decide)
  rw [newObject, setDate_changed, hKey, hDate, Bool.false_or, Bool.or_eq_true, decide_eq_true_eq,
    decide_eq_true_eq, ne_comm, ne_comm (a := (0 : Int64)), not_and_or]

theorem newObject_identifier (k : String) (d : Int64) : (newObject k d).identifier = -1 :=
  ((Object.identifier_set _ _ (by decide)).trans (Object.identifier_set _ _ (by decide))).trans
    (Object.get_put ..)

theorem newObject_key (k : String) (d : Int64) : (newObject k d).get key = k :=
  (Object.get_set_of_ne _ _ (by decide)).trans (Object.get_set .zero key k)

theorem newObject_date (k : String) (d : Int64) : getDate (newObject k d) = d :=
  Object.get_set _ date d

/-- `insert` of a key without a row. -/
theorem insert_missing (h : Openable table p u) (hRows : rowsOf u k = [])
    (hSeq : u.seq < Sql.maxRowid) :
    ∃ q, insert k d p = .ok q ∧ Openable table q (if k = "" ∧ d = 0 then u
      else inserted p.floatText table (newObject k d) u) := by
  obtain ⟨p₁, results, hRun, hOpen, hFrame, hNone, -⟩ :=
    resultsEqual_open table_columns h (mem_fields key_mem) (v := .text k) rfl
  obtain ⟨a, ha⟩ : ∃ a, a = p₁.newZero.2 := ⟨_, rfl⟩
  obtain ⟨p₂, hp₂⟩ : ∃ p₂, p₂ = (p₁.newZero.1.modify a (setKey k)).modify a (setDate d) := ⟨_, rfl⟩
  have hInsert : insert k d p = Model.save table a p₂ := by
    rw [insert, hRun, hNone hRows, hp₂, ha]
    rfl
  have hOpen₂ : Openable table p₂ u := by
    rw [hp₂]
    exact (hOpen.newZero.modify _ _).modify _ _
  have hText : p₂.floatText = p.floatText := by
    rw [hp₂]
    exact hFrame.floatText
  have hObject : p₂.object a = newObject k d := by
    rw [hp₂, Program.object_modify, Program.object_modify, ha]
    exact congrArg (fun o => setDate d (setKey k o)) (Function.update_self ..)
  have hLt : a < p₂.store.next := by
    rw [hp₂, ha]
    exact Nat.lt_succ_self _
  rw [hInsert]
  by_cases hEmpty : k = "" ∧ d = 0
  · have hSame : ¬ (p₂.object a).changed = true := by
      rw [hObject, newObject_changed]
      exact not_not.mpr hEmpty
    rw [if_pos hEmpty]
    exact ⟨p₂, if_neg hSame, hOpen₂⟩
  · rw [if_neg hEmpty, ← hText, ← hObject]
    obtain ⟨q, hSave, hOpenQ, -⟩ := save_open_new table_columns (List.ne_nil_of_mem key_mem)
      hOpen₂ hLt (by rw [hObject, newObject_changed]; exact hEmpty)
      (by rw [hObject, newObject_identifier]) hSeq
    exact ⟨q, hSave, hOpenQ⟩

/-- `insert` of a key with a row whose identifier is not `-1`. -/
theorem insert_found (h : Openable table p u) {r : Sql.Row} (hRows : rowsOf u k = [r])
    (hOld : (rowObject table u r).identifier ≠ -1) :
    ∃ q, insert k d p = .ok q ∧ Openable table q (if getDate (rowObject table u r) = d then u
      else updated p.floatText table (setDate d (rowObject table u r))
        (rowObject table u r).identifier u) := by
  obtain ⟨p₁, results, hRun, hOpen, hFrame, -, hSome⟩ :=
    resultsEqual_open table_columns h (mem_fields key_mem) (v := .text k) rfl
  obtain ⟨a, tail, hResults, -, hLt, hObject⟩ := hSome r [] hRows
  have hInsert : insert k d p = Model.save table a (p₁.modify a (setDate d)) := by
    rw [insert, hRun, hResults]
    rfl
  have hNew : (p₁.modify a (setDate d)).object a = setDate d (rowObject table u r) := by
    rw [Program.object_modify, hObject]
  have hIdentifier : (setDate d (rowObject table u r)).identifier =
      (rowObject table u r).identifier := Object.identifier_set _ _ (by decide)
  rw [hInsert]
  by_cases hEqual : getDate (rowObject table u r) = d
  · have hSame : ¬ ((p₁.modify a (setDate d)).object a).changed = true := by
      rw [hNew, setDate_changed, rowObject_changed]
      simp [hEqual]
    rw [if_pos hEqual]
    exact ⟨_, if_neg hSame, hOpen.modify a _⟩
  · have hChanged : ((p₁.modify a (setDate d)).object a).changed = true := by
      rw [hNew, setDate_changed]
      simp [hEqual]
    obtain ⟨q, hSave, hOpenQ, -⟩ := save_open_old table_columns (List.ne_nil_of_mem key_mem)
      (hOpen.modify a (setDate d)) hLt hChanged (by rw [hNew, hIdentifier]; exact hOld)
    rw [hNew, hIdentifier] at hOpenQ
    rw [if_neg hEqual, ← hFrame.floatText]
    exact ⟨q, hSave, hOpenQ⟩

end Insert

/-! ## What becomes of the entries -/

section Entries

variable {p : Program} {u : Sql.Table} {s : Keys} {k : String} {d : Int64} {r : Sql.Row}

/-- The object made from a row. -/
theorem rowObject_get (hHolds : Holds (fun _ => some u) table u) (r : Sql.Row) :
    getKey (rowObject table u r) = (entry u r).1 ∧ getDate (rowObject table u r) = (entry u r).2 ∧
      (rowObject table u r).identifier = Int32.ofInt r.rowid := by
  have hReadId := get_rowObject table_columns u r table.identifier_mem
  rw [hHolds.cell_identifier] at hReadId
  exact ⟨get_rowObject table_columns u r (mem_fields key_mem),
    get_rowObject table_columns u r (mem_fields date_mem), hReadId⟩

/-- The entry and the cells of a row that was written from an object. -/
theorem entry_of_cells {r : Sql.Row} (floatText : Rat → Rat) {o : Object}
    (hKey : u.cell r key.name = key.type.stored floatText (o.get key))
    (hDate : u.cell r date.name = date.type.stored floatText (o.get date)) :
    entry u r = (Text.cString (getKey o), getDate o) ∧
      u.cell r key.name = .text (entry u r).1 ∧ u.cell r date.name = .int (entry u r).2.toInt := by
  have hEntry : entry u r = (Text.cString (getKey o), getDate o) := by
    rw [entry, hKey, hDate]
    exact Prod.ext (Text.cString_cString _) (Int64.ofInt_toInt _)
  rw [hEntry]
  exact ⟨rfl, hKey, hDate⟩

theorem Stores.inserted (h : Stores u s) (hHolds : Holds (fun _ => some u) table u)
    (floatText : Rat → Rat) (hNew : Text.cString k ∉ s.entries.map Prod.fst) :
    Stores (inserted floatText table (newObject k d) u)
      ⟨s.entries ++ [(Text.cString k, d)], s.rows + 1⟩ := by
  obtain ⟨w, hw⟩ : ∃ w, w = RetroConfig.inserted floatText table (newObject k d) u := ⟨_, rfl⟩
  obtain ⟨new, hn⟩ : ∃ new, new = newRow floatText table (newObject k d) u := ⟨_, rfl⟩
  have hRows : w.rows = u.rows ++ [new] := by
    rw [hw, hn]
    rfl
  have hEntry : entry w = entry u := by
    rw [hw]
    rfl
  have hCell : ∀ q name, w.cell q name = u.cell q name := by
    intro q name
    rw [hw]
    rfl
  obtain ⟨hSame, hKey, hDate⟩ := entry_of_cells (u := u) (r := new) floatText (o := newObject k d)
    (by rw [hn]; exact hHolds.cell_newRow floatText _ key_mem)
    (by rw [hn]; exact hHolds.cell_newRow floatText _ date_mem)
  rw [getKey, newObject_key, newObject_date] at hSame
  rw [← hw]
  refine ⟨?_, ?_, ?_, ?_, ?_⟩
  · rw [hRows, hEntry, List.map_append, h.entries, List.map_singleton, hSame]
  · intro q hq
    rw [hRows] at hq
    rw [hCell, hEntry]
    rcases List.mem_append.mp hq with hOld | hq
    · exact h.keys q hOld
    · rw [List.mem_singleton.mp hq]
      exact hKey
  · intro q hq
    rw [hRows] at hq
    rw [hCell, hEntry]
    rcases List.mem_append.mp hq with hOld | hq
    · exact h.dates q hOld
    · rw [List.mem_singleton.mp hq]
      exact hDate
  · rw [List.map_append]
    apply List.Nodup.append h.nodup (List.nodup_singleton _)
    intro x hx hSingle
    rw [List.mem_singleton.mp hSingle] at hx
    exact hNew hx
  · rw [hw]
    exact congrArg (· + 1) h.rows

/-- An update of the row `r`. -/
theorem Stores.updated (h : Stores u s) (hHolds : Holds (fun _ => some u) table u)
    (floatText : Rat → Rat) (hr : r ∈ u.rows) (hKey : (entry u r).1 = Text.cString k) {id : Int32}
    (hId : (r.rowid : Int) = id.toInt) :
    Stores (updated floatText table (setDate d (rowObject table u r)) id u)
      { s with entries := s.entries.map fun e => if e.1 = Text.cString k then (e.1, d) else e } := by
  obtain ⟨o, ho⟩ : ∃ o, o = setDate d (rowObject table u r) := ⟨_, rfl⟩
  obtain ⟨w, hw⟩ : ∃ w, w = RetroConfig.updated floatText table o id u := ⟨_, rfl⟩
  have hRows : w.rows = u.rows.map (rewriteRow floatText table o id) := by
    rw [hw]
    rfl
  have hEntry : entry w = entry u := by
    rw [hw]
    rfl
  have hCell : ∀ q name, w.cell q name = u.cell q name := by
    intro q name
    rw [hw]
    rfl
  have hObject : getKey o = Text.cString k ∧ getDate o = d := by
    rw [ho]
    refine ⟨?_, Object.get_set _ date d⟩
    exact (Object.get_set_of_ne _ _ (by decide)).trans
      ((rowObject_get hHolds r).1.trans hKey)
  -- What the update makes of a row, by its entry.
  have hRow : ∀ q ∈ u.rows,
      entry u (rewriteRow floatText table o id q) =
        (if (entry u q).1 = Text.cString k then ((entry u q).1, d) else entry u q) ∧
      u.cell (rewriteRow floatText table o id q) key.name =
        .text (entry u (rewriteRow floatText table o id q)).1 ∧
      u.cell (rewriteRow floatText table o id q) date.name =
        .int (entry u (rewriteRow floatText table o id q)).2.toInt := by
    intro q hq
    by_cases hSame : q = r
    · subst hSame
      obtain ⟨hNew, hCells⟩ := entry_of_cells (u := u) (r := rewriteRow floatText table o id q)
        floatText (o := o) ((hHolds.cell_rewriteRow floatText o id q key_mem).trans (if_pos hId))
        ((hHolds.cell_rewriteRow floatText o id q date_mem).trans (if_pos hId))
      refine ⟨?_, hCells⟩
      rw [hNew, if_pos hKey, hObject.1, hObject.2, hKey, Text.cString_cString]
    · have hOther : (q.rowid : Int) ≠ id.toInt := by
        intro hEq
        exact hSame (Sql.Table.eq_of_rowid hq hr (by omega))
      rw [rewriteRow_other _ _ _ hOther, if_neg]
      · exact ⟨rfl, h.keys q hq, h.dates q hq⟩
      · intro hEq
        exact hSame (h.eq_of_key hq hr (hEq.trans hKey.symm))
  rw [← ho, ← hw]
  refine ⟨?_, ?_, ?_, ?_, ?_⟩
  · rw [hRows, hEntry, List.map_map, ← h.entries, List.map_map]
    apply List.map_congr_left
    intro q hq
    exact (hRow q hq).1
  · intro q hq
    rw [hRows] at hq
    obtain ⟨e, he, rfl⟩ := List.mem_map.mp hq
    rw [hCell, hEntry]
    exact (hRow e he).2.1
  · intro q hq
    rw [hRows] at hq
    obtain ⟨e, he, rfl⟩ := List.mem_map.mp hq
    rw [hCell, hEntry]
    exact (hRow e he).2.2
  · rw [List.map_map]
    have hFst : (Prod.fst ∘ fun e : Entry => if e.1 = Text.cString k then (e.1, d) else e) =
        Prod.fst := by
      funext e
      rw [Function.comp_apply]
      split <;> rfl
    rw [hFst]
    exact h.nodup
  · rw [hw]
    exact h.rows

/-- Without the row of a key. -/
theorem Stores.deleted (h : Stores u s) {id : Int32} (hr : r ∈ u.rows)
    (hKey : (entry u r).1 = Text.cString k) (hId : (r.rowid : Int) = id.toInt) :
    Stores (deleted id u) (s.remove k) := by
  have hSub : ∀ q ∈ (RetroConfig.deleted id u).rows, q ∈ u.rows :=
    fun q hq => (List.mem_filter.mp hq).1
  refine ⟨?_, fun q hq => h.keys q (hSub q hq), fun q hq => h.dates q (hSub q hq), ?_, h.rows⟩
  · change (u.rows.filter fun q => !decide ((q.rowid : Int) = id.toInt)).map (entry u) = _
    rw [Keys.remove, ← h.entries, List.filter_map]
    refine congrArg (List.map (entry u)) (List.filter_congr fun q hq => ?_)
    rw [Function.comp_apply, ← decide_not]
    apply decide_eq_decide.mpr
    apply not_congr
    constructor
    · intro hEq
      obtain rfl : q = r := Sql.Table.eq_of_rowid hq hr (by omega)
      exact hKey
    · intro hEq
      rw [h.eq_of_key hq hr (hEq.trans hKey.symm)]
      exact hId
  · exact h.nodup.sublist (List.filter_sublist.map _)

/-- A date that is set again changes nothing. -/
theorem Stores.same (h : Stores u s) (hr : r ∈ u.rows) (hKey : (entry u r).1 = Text.cString k)
    (hDate : (entry u r).2 = d) :
    (s.entries.map fun e => if e.1 = Text.cString k then (e.1, d) else e) = s.entries := by
  rw [← h.entries, List.map_map]
  apply List.map_congr_left
  intro q hq
  rw [Function.comp_apply]
  split
  · next hEq =>
    rw [h.eq_of_key hq hr (hEq.trans hKey.symm)]
    exact Prod.ext rfl hDate.symm
  · rfl

/-- `insert` of a new key, which may get a row behind those that are there. -/
theorem insert_new (h : Openable table p u) (hStores : Stores u s)
    (hNew : Text.cString k ∉ s.entries.map Prod.fst) (hSeq : u.seq < Sql.maxRowid) :
    ∃ q w, insert k d p = .ok q ∧ Openable table q w ∧ Stores w (s.insert k d) ∧
      ∀ r ∈ w.rows, r ∈ u.rows ∨ r.rowid = u.seq + 1 := by
  obtain ⟨hRows, -⟩ | ⟨-, -, -, -, hMem⟩ := hStores.rowsOf_cases (k := k)
  · obtain ⟨q, hRun, hOpen⟩ := insert_missing (d := d) h hRows hSeq
    rw [Keys.insert, if_neg hNew]
    by_cases hEmpty : k = "" ∧ d = 0
    · rw [if_pos hEmpty] at hOpen ⊢
      exact ⟨q, u, hRun, hOpen, hStores, fun r hr => .inl hr⟩
    · rw [if_neg hEmpty] at hOpen ⊢
      refine ⟨q, _, hRun, hOpen, hStores.inserted h.holds p.floatText hNew, fun r hr => ?_⟩
      rcases List.mem_append.mp hr with hOld | hLast
      · exact .inl hOld
      · rw [List.mem_singleton.mp hLast]
        exact .inr rfl
  · exact absurd hMem hNew

/-- `insert` of a key whose row is behind the row `2 ^ 31` does not find the row that it is to change. -/
theorem insert_missed (h : Openable table p u) (hStores : Stores u s)
    (hMem : Text.cString k ∈ s.entries.map Prod.fst)
    (hLate : ∀ r ∈ u.rows, 2 ^ 31 ≤ r.rowid ∧ r.rowid < 2 ^ 32 - 1) :
    ∃ q w, insert k d p = .ok q ∧ Openable table q w ∧ Stores w s := by
  obtain ⟨-, hNot⟩ | ⟨r, hRows, hr, -, -⟩ := hStores.rowsOf_cases (k := k)
  · exact absurd hMem hNot
  · have hNegative : (rowObject table u r).identifier.toInt = r.rowid - 2 ^ 32 := by
      have hRowid := hLate r hr
      rw [(rowObject_get h.holds r).2.2, Int32.toInt_ofInt, Int.bmod_def, Int32.size]
      omega
    have hRowid := hLate r hr
    have hOld : (rowObject table u r).identifier ≠ -1 := by
      intro hMinus
      rw [hMinus, toInt_neg_one] at hNegative
      omega
    obtain ⟨q, hRun, hOpen⟩ := insert_found (d := d) h hRows hOld
    refine ⟨q, _, hRun, hOpen, ?_⟩
    split
    · exact hStores
    · have hSame : (updated p.floatText table (setDate d (rowObject table u r))
          (rowObject table u r).identifier u).rows = u.rows := by
        apply (List.map_congr_left fun e he => ?_).trans (List.map_id _)
        have hOther : (e.rowid : Int) ≠ (rowObject table u r).identifier.toInt := by
          rw [hNegative]
          omega
        exact rewriteRow_other _ _ _ hOther
      exact ⟨by rw [hSame]; exact hStores.entries, by rw [hSame]; exact hStores.keys,
        by rw [hSame]; exact hStores.dates, hStores.nodup, hStores.rows⟩

/-- `insert`, as long as the rowids fit an `int`. -/
theorem insert_stores (h : Openable table p u) (hStores : Stores u s)
    (hRoom : (s.insert k d).rows < 2 ^ 31) :
    ∃ q w, insert k d p = .ok q ∧ Openable table q w ∧ Stores w (s.insert k d) := by
  have hMax : (2 : Nat) ^ 31 < Sql.maxRowid := by decide
  have hLe := Keys.rows_le_insert k d s
  have hCount := hStores.rows
  obtain ⟨-, hNew⟩ | ⟨r, hRows, hr, hKey, hMem⟩ := hStores.rowsOf_cases (k := k)
  · obtain ⟨q, w, hRun, hOpen, hNext, -⟩ := insert_new (d := d) h hStores hNew (by omega)
    exact ⟨q, w, hRun, hOpen, hNext⟩
  · obtain ⟨-, hDate, hId⟩ := rowObject_get h.holds r
    have hBound := u.bounds r hr
    have hRowid : (r.rowid : Int) = (rowObject table u r).identifier.toInt := by
      rw [hId, toInt_ofInt_of_lt (by omega)]
    have hOld : (rowObject table u r).identifier ≠ -1 := ne_neg_one_of_rowid hRowid
    obtain ⟨q, hRun, hOpen⟩ := insert_found (d := d) h hRows hOld
    refine ⟨q, _, hRun, hOpen, ?_⟩
    rw [Keys.insert, if_pos hMem]
    split
    · next hSame =>
      rw [hStores.same hr hKey (hDate.symm.trans hSame)]
      exact hStores
    · exact hStores.updated h.holds p.floatText hr hKey hRowid

end Entries

end RetroConfig.SearchData
