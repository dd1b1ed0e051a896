import RetroConfig.Database.Open

/-!
# An object and its row

A program keeps objects in memory and changes and saves them again and again. `Mirrors` says that a row
is the one of an object: it has its identifier, and the cells of some fields are those that a save
writes. A new object that is saved has such a row (`mirrors_newRow`), an object that was made from a
row too (`mirrors_rowObject`), and an object that has one keeps it when it is saved again, while all
other rows stay as they are (`Mirrors.saved`).
-/

namespace RetroConfig

open SQLite

/-- Changing an object and then writing it. -/
theorem Wrote.of_modify {p q : Program} {a : Nat} {f : Object → Object} {o : Object}
    (h : Wrote (p.modify a f) q a o) : Wrote p q a o where
  floatText := h.floatText
  next := h.next
  object := h.object
  others := fun b hb hNe => (h.others b hb hNe).trans (Program.object_modify_of_ne _ _ hNe)

/-- The row has the identifier of the object, and the cells of some fields are those that a save of it
writes. -/
structure Mirrors (floatText : Rat → Rat) (fs : List Field) (o : Object) (r : Sql.Row) : Prop where
  rowid : (r.rowid : Int) = o.identifier.toInt
  cells : ∀ f ∈ fs, r.cells f.name = f.type.stored floatText (o.get f)

section

variable {floatText : Rat → Rat} {t : Table} {fs : List Field} {o o' : Object} {u : Sql.Table}
  {db : Sql.Db} {r : Sql.Row}

theorem Mirrors.congr (h : Mirrors floatText fs o r) (hId : o'.identifier = o.identifier)
    (hGet : ∀ f ∈ fs, o'.get f = o.get f) : Mirrors floatText fs o' r :=
  ⟨by rw [hId]; exact h.rowid, fun f hf => by rw [hGet f hf]; exact h.cells f hf⟩

theorem Mirrors.small (h : Mirrors floatText fs o r) : r.rowid < 2 ^ 31 := by
  have hId := h.rowid
  have hLt := o.identifier.toInt_lt
  omega

/-- The object that was made from a row whose cells are ones that saves write. -/
theorem mirrors_rowObject (h : Holds db t u) (hColumns : t.Columns) (hFields : ∀ f ∈ fs, f ∈ t.stored)
    (hSmall : r.rowid < 2 ^ 31)
    (hCells : ∀ f ∈ fs, f.type.stored floatText (f.type.read (r.cells f.name)) = r.cells f.name) :
    Mirrors floatText fs (rowObject t u r) r := by
  refine ⟨?_, fun f hf => ?_⟩
  · rw [h.identifier_rowObject hColumns, toInt_ofInt_of_lt hSmall]
  · have hGet := get_rowObject hColumns u r (Table.mem_stored.mp (hFields f hf)).1
    rw [h.cell_stored r (hFields f hf)] at hGet
    rw [hGet, hCells f hf]

/-- The row that an insert appends, and the object with its identifier. -/
theorem mirrors_newRow (hFields : ∀ f ∈ fs, f ∈ t.stored) (hSeq : u.seq + 1 < 2 ^ 31)
    (hId : o'.identifier = Int32.ofNat (u.seq + 1)) (hGet : ∀ f ∈ t.stored, o'.get f = o.get f) :
    Mirrors floatText fs o' (newRow floatText t o u) := by
  have hRowid : (newRow floatText t o u).rowid = u.seq + 1 := rfl
  refine ⟨?_, fun f hf => ?_⟩
  · rw [hRowid, hId, ← Int32.ofInt_eq_ofNat, toInt_ofInt_of_lt hSeq]
  · rw [hGet f (hFields f hf)]
    exact assign_writes floatText o (fun _ => .null) (hFields f hf)

/-- The object has changed and is saved: its row is written again, and no other. -/
theorem Mirrors.saved (h : Mirrors floatText fs o r) (hFields : ∀ f ∈ fs, f ∈ t.stored)
    (hr : r ∈ u.rows) (hId : o'.identifier = o.identifier)
    (hSame : o'.changed = false → ∀ f ∈ fs, o'.get f = o.get f) :
    ∃ g : Sql.Row → Sql.Row, (RetroConfig.saved floatText t o' u).rows = u.rows.map g ∧
      Mirrors floatText fs o' (g r) ∧ (∀ q, (g q).rowid = q.rowid) ∧
      ∀ q ∈ u.rows, q ≠ r → g q = q := by
  cases hChanged : o'.changed with
  | false =>
    refine ⟨id, ?_, h.congr hId (hSame hChanged), fun _ => rfl, fun _ _ _ => rfl⟩
    rw [RetroConfig.saved, hChanged, if_neg Bool.false_ne_true, List.map_id]
  | true =>
    have hRowid : (r.rowid : Int) = o'.identifier.toInt := by
      rw [hId]
      exact h.rowid
    have hOld : o'.identifier ≠ -1 := ne_neg_one_of_rowid hRowid
    refine ⟨rewriteRow floatText t o' o'.identifier, ?_, ?_, fun q => ?_, fun q hq hNe => ?_⟩
    · rw [RetroConfig.saved, hChanged, if_pos rfl, if_neg hOld]
      rfl
    · rw [rewriteRow, decide_eq_true hRowid, if_pos rfl]
      exact ⟨hRowid, fun f hf => assign_writes floatText o' r.cells (hFields f hf)⟩
    · rw [rewriteRow]
      split <;> rfl
    · refine rewriteRow_other floatText t o' fun hEq => hNe (Sql.Table.eq_of_rowid hq hr ?_)
      omega

/-- The rows that are left when the row of the object is deleted. -/
theorem Mirrors.mem_deleted (h : Mirrors floatText fs o r) (hr : r ∈ u.rows) {q : Sql.Row} :
    q ∈ (deleted o.identifier u).rows ↔ q ∈ u.rows ∧ q ≠ r := by
  change q ∈ u.rows.filter _ ↔ _
  rw [List.mem_filter, ← h.rowid]
  refine and_congr_right fun hq => ?_
  rw [Bool.not_eq_true', decide_eq_false_iff_not, not_iff_not]
  constructor
  · exact fun hRowid => Sql.Table.eq_of_rowid hq hr (by omega)
  · rintro rfl
    rfl

end

end RetroConfig
