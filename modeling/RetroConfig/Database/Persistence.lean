import RetroConfig.Database.Open

/-!
# Objects survive in the database

A session creates objects of one class with `new`, assigns their fields, saves and removes
them and looks them up, while the timer of the queue fires at any moment. Beside the program it
remembers, for each object, the assignments made and its contents at the latest `save`, and
the identifiers that `remove` has taken away.

`objects_persist` is the result for whole sessions: what `find` returns is always the contents
at the latest `save`, until the object is removed.
-/

namespace RetroConfig

open SQLite Program

/-- One call of the session. -/
inductive SessionOp where
  | new
  | assign (a : Nat) (f : Field) (v : f.type.Value)
  | save (a : Nat)
  | remove (a : Nat)
  | find (id : Int32)
  | fire

/-- The program, the objects created so far with what they held at first and the assignments
made to them, their contents at the latest `save`, and the identifiers of removed objects. -/
structure Session where
  program : Program
  created : List Nat
  initial : Nat → Object
  assigned : Nat → List (Σ f : Field, f.type.Value)
  saved : Nat → Option Object
  removed : List Int32

namespace Session

def start (p : Program) : Session where
  program := p
  created := []
  initial := p.object
  assigned := fun _ => []
  saved := fun _ => none
  removed := []

def object (s : Session) (a : Nat) : Object := s.program.object a

/-- One call, and what the session remembers of it. -/
def next (t : Table) (s : Session) : SessionOp → Except Fault Session
  | .new =>
    let (p, a) := s.program.new
    pure { s with
      program := p
      created := a :: s.created
      initial := Function.update s.initial a (p.object a)
      assigned := Function.update s.assigned a [] }
  | .assign a f v =>
    pure { s with
      program := s.program.modify a (fun o => o.set f v)
      assigned := Function.update s.assigned a (⟨f, v⟩ :: s.assigned a) }
  | .save a => do
    let p ← Model.save t a s.program
    pure { s with program := p, saved := Function.update s.saved a (some (p.object a)) }
  | .remove a => do
    let p ← Model.remove t a s.program
    pure { s with
      program := p
      saved := Function.update s.saved a none
      removed := (s.object a).identifier :: s.removed }
  | .find id => do
    let (p, _) ← Model.find t id s.program
    pure { s with program := p }
  | .fire => do
    let p ← s.program.fire
    pure { s with program := p }

/-- When a call may be made: on an object of the session, with a value the column can keep;
and an object is saved only after all its fields were assigned, one of them to something else
than it held at first, and while rowids stay below `2 ^ 31`. -/
def Allowed (t : Table) (s : Session) : SessionOp → Prop
  | .assign a f v => a ∈ s.created ∧ f ∈ t.stored ∧ f.type.Kept v
  | .save a => a ∈ s.created ∧ (∀ f ∈ t.stored, ∃ v, ⟨f, v⟩ ∈ s.assigned a) ∧
      (∃ x ∈ s.assigned a, x.2 ≠ (s.initial a).get x.1) ∧
      ((s.object a).identifier = -1 → ∀ u, s.program.table t.cls = some u → u.seq + 1 < 2 ^ 31)
  | .remove a => a ∈ s.created
  | _ => True

/-! ## The invariant -/

/-- What the session knows of one object. -/
structure Tracked where
  object : Object
  initial : Object
  assigned : List (Σ f : Field, f.type.Value)
  saved : Option Object

def track (s : Session) (a : Nat) : Tracked :=
  ⟨s.object a, s.initial a, s.assigned a, s.saved a⟩

/-- An object, its history and the table `u` agree. -/
structure Tracked.Good (t : Table) (u : Sql.Table) (x : Tracked) : Prop where
  kept : ∀ y ∈ x.assigned, y.1 ∈ t.stored ∧ y.1.type.Kept (x.object.get y.1)
  changed : x.object.changed = true ∨ (∀ f ∈ t.stored, x.object.get f = x.initial.get f) ∧
    ∀ y ∈ x.assigned, y.2 = x.initial.get y.1
  saved : ∀ o, x.saved = some o → o.identifier = x.object.identifier ∧
    ∃ r, u.byKey o.identifier.toInt = some r ∧ ∀ f ∈ t.fields, (rowObject t u r).get f = o.get f
  unsaved : x.saved = none → x.object.identifier = -1

/-- The session and the table `u` agree. -/
structure Good (t : Table) (s : Session) (u : Sql.Table) : Prop where
  table : Openable t s.program u
  bound : ∀ a ∈ s.created, a < s.program.store.next
  objects : ∀ a ∈ s.created, (s.track a).Good t u
  owned : ∀ a o, s.saved a = some o → a ∈ s.created
  distinct : ∀ a b oa ob, s.saved a = some oa → s.saved b = some ob →
    oa.identifier = ob.identifier → a = b
  removed : ∀ id ∈ s.removed, id.toInt ≤ u.seq ∧ u.byKey id.toInt = none

theorem start_good {t : Table} {p : Program} {u : Sql.Table} (h : Openable t p u) :
    Good t (start p) u where
  table := h
  bound := fun _ ha => by cases ha
  objects := fun _ ha => by cases ha
  owned := fun _ _ h => by cases h
  distinct := fun _ _ _ _ h => by cases h
  removed := fun _ h => by cases h

variable {t : Table} {s : Session} {u : Sql.Table}

theorem Good.bounds (h : Good t s u) {a : Nat} {o : Object} (ho : s.saved a = some o) :
    0 < o.identifier.toInt ∧ o.identifier.toInt ≤ u.seq := by
  obtain ⟨-, r, hRow, -⟩ := (h.objects a (h.owned a o ho)).saved o ho
  exact Sql.Table.byKey_bounds hRow

/-- A saved object has an identifier of its own, also against an object that was not saved. -/
theorem Good.identifier_ne (h : Good t s u) {a b : Nat} (ha : a ∈ s.created) (hba : b ≠ a)
    {ob : Object} (hob : s.saved b = some ob) :
    ob.identifier.toInt ≠ (s.object a).identifier.toInt := by
  intro hEq
  have hPositive := (h.bounds hob).1
  cases hSaved : s.saved a with
  | none =>
    have hMinus : (s.object a).identifier = -1 := (h.objects a ha).unsaved hSaved
    rw [hEq, hMinus, toInt_neg_one] at hPositive
    omega
  | some o =>
    have hSame : o.identifier = (s.object a).identifier := ((h.objects a ha).saved o hSaved).1
    exact hba (h.distinct b a ob o hob hSaved ((Int32.toInt_inj.mp hEq).trans hSame.symm))

/-- An object stays good while its row does. -/
theorem Tracked.Good.row {x : Tracked} (h : x.Good t u) {v : Sql.Table}
    (hColumns : v.columns = u.columns)
    (hRow : ∀ o r, x.saved = some o → u.byKey o.identifier.toInt = some r →
      v.byKey o.identifier.toInt = some r) : x.Good t v where
  kept := h.kept
  changed := h.changed
  saved := by
    intro o ho
    obtain ⟨hId, r, hr, hFields⟩ := h.saved o ho
    refine ⟨hId, r, hRow o r ho hr, ?_⟩
    rw [rowObject_congr t hColumns]
    exact hFields
  unsaved := h.unsaved

/-- What keeps the objects and the table keeps the session. -/
theorem Good.frame (h : Good t s u) {q : Program} (hTable : Openable t q u)
    (hFrame : Frame s.program q) : Good t { s with program := q } u where
  table := hTable
  bound := fun a ha => lt_of_lt_of_le (h.bound a ha) hFrame.next
  objects := by
    intro a ha
    have hSame : Session.track { s with program := q } a = s.track a := by
      rw [track, object, hFrame.objects a (h.bound a ha)]
      rfl
    rw [hSame]
    exact h.objects a ha
  owned := h.owned
  distinct := h.distinct
  removed := h.removed

/-- A call that deals with the object at `a` keeps the invariant if it leaves the other objects
and their rows alone and gives `a` no identifier of another object. -/
theorem Good.touch (h : Good t s u) {s' : Session} {v : Sql.Table} {a : Nat} (ha : a ∈ s.created)
    (hTable : Openable t s'.program v) (hColumns : v.columns = u.columns)
    (hNext : s.program.store.next ≤ s'.program.store.next) (hCreated : s'.created = s.created)
    (hTrack : ∀ b ∈ s.created, b ≠ a → s'.track b = s.track b)
    (hSaved : ∀ b, b ≠ a → s'.saved b = s.saved b) (hGood : (s'.track a).Good t v)
    (hRows : ∀ b o r, b ≠ a → s.saved b = some o → u.byKey o.identifier.toInt = some r →
      v.byKey o.identifier.toInt = some r)
    (hDistinct : ∀ b o oa, b ≠ a → s.saved b = some o → s'.saved a = some oa →
      o.identifier ≠ oa.identifier)
    (hRemoved : ∀ id ∈ s'.removed, id.toInt ≤ v.seq ∧ v.byKey id.toInt = none) :
    Good t s' v where
  table := hTable
  bound := by
    intro b hb
    rw [hCreated] at hb
    exact lt_of_lt_of_le (h.bound b hb) hNext
  objects := by
    intro b hb
    rw [hCreated] at hb
    by_cases hba : b = a
    · rw [hba]
      exact hGood
    · rw [hTrack b hb hba]
      exact (h.objects b hb).row hColumns (fun o r ho => hRows b o r hba ho)
  owned := by
    intro b o ho
    rw [hCreated]
    by_cases hba : b = a
    · rw [hba]
      exact ha
    · rw [hSaved b hba] at ho
      exact h.owned b o ho
  distinct := by
    intro b c ob oc hob hoc hId
    by_cases hba : b = a
    · by_cases hca : c = a
      · rw [hba, hca]
      · rw [hSaved c hca] at hoc
        rw [hba] at hob
        exact absurd hId.symm (hDistinct c oc ob hca hoc hob)
    · rw [hSaved b hba] at hob
      by_cases hca : c = a
      · rw [hca] at hoc
        exact absurd hId (hDistinct b ob oc hba hob hoc)
      · rw [hSaved c hca] at hoc
        exact h.distinct b c ob oc hob hoc hId
  removed := hRemoved

/-! ## The calls -/

theorem Good.new (h : Good t s u) : ∃ s', next t s .new = .ok s' ∧ Good t s' u := by
  obtain ⟨a, ha⟩ : ∃ a, a = s.program.new.2 := ⟨_, rfl⟩
  have hGood := h.frame h.table.new (.new _)
  have hOld : ∀ b ∈ s.created, b ≠ a := by
    intro b hb
    rw [ha]
    exact Nat.ne_of_lt (h.bound b hb)
  have hNone : s.saved a = none := by
    cases hSaved : s.saved a with
    | none => rfl
    | some o => exact absurd rfl (hOld a (h.owned a o hSaved))
  refine ⟨{ s with
      program := s.program.new.1
      created := a :: s.created
      initial := Function.update s.initial a (s.program.new.1.object a)
      assigned := Function.update s.assigned a [] },
    by rw [ha]; rfl, hGood.table, ?_, ?_, ?_, hGood.distinct, hGood.removed⟩
  · intro b hb
    rcases List.mem_cons.mp hb with hHead | hTail
    · rw [hHead, ha]
      exact Nat.lt_succ_self _
    · exact hGood.bound b hTail
  · intro b hb
    rcases List.mem_cons.mp hb with hHead | hTail
    · rw [hHead]
      simp only [track, Function.update_self, hNone]
      refine ⟨by simp, Or.inr ⟨fun _ _ => rfl, by simp⟩, by simp, ?_⟩
      intro _
      rw [object, ha, object_new, Object.identifier_construct]
    · have hb' := hOld b hTail
      have hTrack := hGood.objects b hTail
      simp only [track, Function.update_of_ne hb']
      exact hTrack
  · exact fun b o ho => List.mem_cons_of_mem _ (h.owned b o ho)

theorem Good.assign (h : Good t s u) {a : Nat} {f : Field} {v : f.type.Value}
    (hAllowed : Allowed t s (.assign a f v)) :
    ∃ s', next t s (.assign a f v) = .ok s' ∧ Good t s' u := by
  obtain ⟨ha, hf, hv⟩ := hAllowed
  have hName : ∀ g ∈ t.stored, g ≠ f → f.name ≠ g.name := by
    intro g hg hne hName
    exact hne (Table.eq_of_name (Table.mem_stored.mp hg).1 (Table.mem_stored.mp hf).1 hName.symm)
  have hObject := h.objects a ha
  refine ⟨_, rfl, h.touch ha (h.table.modify a (fun o => o.set f v)) rfl le_rfl rfl ?_ (fun _ _ => rfl) ?_
    (fun _ _ _ _ _ hr => hr) ?_ h.removed⟩
  · intro b _ hba
    simp only [track, Function.update_of_ne hba, object]
    rw [show (s.program.modify a (fun o => o.set f v)).object b = s.program.object b from
      Function.update_of_ne hba ..]
  · simp only [track, Function.update_self, object, object_modify]
    refine ⟨?_, ?_, ?_, ?_⟩
    · intro y hy
      rcases List.mem_cons.mp hy with rfl | hOld
      · exact ⟨hf, by rw [Object.get_set]; exact hv⟩
      · obtain ⟨hStored, hKept⟩ := hObject.kept y hOld
        refine ⟨hStored, ?_⟩
        by_cases hyf : y.1 = f
        · obtain ⟨g, w⟩ := y
          obtain rfl : g = f := hyf
          rw [Object.get_set]
          exact hv
        · rw [Object.get_set_of_ne _ _ (hName y.1 hStored hyf)]
          exact hKept
    · rw [Object.set_changed]
      by_cases hSame : (s.program.object a).get f = v
      · rcases hObject.changed with hChanged | ⟨hInitial, hAssigned⟩
        · left
          rw [show (s.program.object a).changed = true from hChanged, Bool.true_or]
        · right
          rw [Object.set_of_eq hSame]
          refine ⟨hInitial, ?_⟩
          intro y hy
          rcases List.mem_cons.mp hy with rfl | hOld
          · exact hSame.symm.trans (hInitial f hf)
          · exact hAssigned y hOld
      · left
        rw [decide_eq_true hSame, Bool.or_true]
    · intro o ho
      obtain ⟨hId, hRow⟩ := hObject.saved o ho
      refine ⟨?_, hRow⟩
      rw [Object.identifier_set _ _ (Table.stored_name_ne hf)]
      exact hId
    · intro hNone
      rw [Object.identifier_set _ _ (Table.stored_name_ne hf)]
      exact hObject.unsaved hNone
  · intro b o oa hba ho hoa hId
    exact hba (h.distinct b a o oa ho hoa hId)

/-- A call that saves is made on a changed object whose columns can keep its values. -/
theorem Good.savable (h : Good t s u) {a : Nat} (hAllowed : Allowed t s (.save a)) :
    (s.object a).changed = true ∧ (∀ f ∈ t.stored, f.type.Kept ((s.object a).get f)) ∧
      t.stored ≠ [] := by
  obtain ⟨ha, hAll, ⟨x, hx, hDiffers⟩, -⟩ := hAllowed
  have hObject := h.objects a ha
  refine ⟨?_, ?_, ?_⟩
  · rcases hObject.changed with hChanged | ⟨-, hAssigned⟩
    · exact hChanged
    · exact absurd (hAssigned x hx) hDiffers
  · intro f hf
    obtain ⟨v, hv⟩ := hAll f hf
    exact (hObject.kept ⟨f, v⟩ hv).2
  · exact List.ne_nil_of_mem (hObject.kept x hx).1

theorem Good.save_new (h : Good t s u) (hColumns : t.Columns) {a : Nat}
    (hAllowed : Allowed t s (.save a)) (hNew : (s.object a).identifier = -1) :
    ∃ s', next t s (.save a) = .ok s' ∧
      Good t s' (inserted s.program.floatText t (s.object a) u) ∧
      (s'.object a).identifier = Int32.ofNat (u.seq + 1) ∧ u.seq + 1 < 2 ^ 31 := by
  obtain ⟨hChanged, hKept, hStored⟩ := h.savable hAllowed
  obtain ⟨ha, -, -, hRoom⟩ := hAllowed
  have hSmall : u.seq + 1 < 2 ^ 31 := by
    rcases h.table.table with hTable | ⟨-, hEmpty⟩
    · exact hRoom hNew u hTable
    · rw [hEmpty]
      exact (by decide : 0 + 1 < 2 ^ 31)
  have hKey : (Int32.ofNat (u.seq + 1)).toInt = u.seq + 1 := by
    rw [Int32.toInt_ofNat_of_lt hSmall]
    rfl
  have hSeq : u.seq < Sql.maxRowid := by
    have : (2 : Nat) ^ 31 ≤ Sql.maxRowid := by decide
    omega
  obtain ⟨q, hRun, hOpen, hWrote⟩ :=
    save_open_new hColumns hStored h.table (h.bound a ha) hChanged hNew hSeq
  have hObject := h.objects a ha
  have hId : (q.object a).identifier = Int32.ofNat (u.seq + 1) := by
    rw [hWrote.object, Object.identifier_setIdentifier]
  refine ⟨{ s with program := q, saved := Function.update s.saved a (some (q.object a)) }, ?_,
    h.touch ha hOpen rfl hWrote.next rfl ?_ ?_ ?_ ?_ ?_ ?_, hId, hSmall⟩
  · rw [next, hRun]
    rfl
  · intro b hb hba
    rw [track, object, hWrote.others b (h.bound b hb) hba]
    simp only [Function.update_of_ne hba]
    rfl
  · intro b hba
    exact Function.update_of_ne hba ..
  · simp only [track, object, Function.update_self]
    refine ⟨?_, Or.inl ?_, ?_, by simp⟩
    · intro y hy
      obtain ⟨hy, hyKept⟩ := hObject.kept y hy
      rw [hWrote.object, Object.get_setIdentifier _ _ (Table.stored_name_ne hy)]
      exact ⟨hy, hyKept⟩
    · rw [hWrote.object]
      exact Object.changed_setIdentifier hChanged
    · intro o ho
      obtain rfl : q.object a = o := Option.some.inj ho
      refine ⟨rfl, newRow s.program.floatText t (s.object a) u, ?_, ?_⟩
      · rw [hId, hKey, byKey_inserted, if_pos rfl]
        rfl
      · intro f hf
        rw [hWrote.object]
        exact h.table.holds.get_newRow hColumns _ hKept hf
  · intro b o r _ ho hr
    have := h.bounds ho
    rw [byKey_inserted, if_neg (by omega)]
    exact hr
  · intro b o oa _ ho hoa hSame
    have hUpdate : Function.update s.saved a (some (q.object a)) a = some oa := hoa
    rw [Function.update_self] at hUpdate
    obtain rfl : q.object a = oa := Option.some.inj hUpdate
    have := h.bounds ho
    rw [hSame, hId, hKey] at this
    omega
  · intro id hid
    obtain ⟨hBound, hNone⟩ := h.removed id hid
    refine ⟨?_, ?_⟩
    · change id.toInt ≤ ((u.seq + 1 : Nat) : Int)
      omega
    · rw [byKey_inserted, if_neg (by omega)]
      exact hNone

theorem Good.save_old (h : Good t s u) (hColumns : t.Columns) {a : Nat}
    (hAllowed : Allowed t s (.save a)) (hOld : (s.object a).identifier ≠ -1) :
    ∃ s', next t s (.save a) = .ok s' ∧
      Good t s' (updated s.program.floatText t (s.object a) (s.object a).identifier u) ∧
      s'.object a = s.object a := by
  obtain ⟨hChanged, hKept, hStored⟩ := h.savable hAllowed
  obtain ⟨ha, -, -, -⟩ := hAllowed
  have hObject := h.objects a ha
  obtain ⟨o, ho⟩ : ∃ o, s.saved a = some o := by
    cases hSaved : s.saved a with
    | none => exact absurd (hObject.unsaved hSaved) hOld
    | some o => exact ⟨o, rfl⟩
  obtain ⟨hSame, r, hRow, -⟩ := hObject.saved o ho
  have hSame : o.identifier = (s.object a).identifier := hSame
  rw [hSame] at hRow
  obtain ⟨q, hRun, hOpen, hFrame⟩ :=
    save_open_old hColumns hStored h.table (h.bound a ha) hChanged hOld
  have hOpen : Openable t q
      (updated s.program.floatText t (s.object a) (s.object a).identifier u) := hOpen
  have hObjects : ∀ b ∈ s.created, q.object b = s.object b :=
    fun b hb => hFrame.objects b (h.bound b hb)
  refine ⟨{ s with program := q, saved := Function.update s.saved a (some (q.object a)) }, ?_,
    h.touch ha hOpen rfl hFrame.next rfl ?_ ?_ ?_ ?_ ?_ ?_, hObjects a ha⟩
  · rw [next, hRun]
    rfl
  · intro b hb hba
    rw [track, object, hObjects b hb]
    simp only [Function.update_of_ne hba]
    rfl
  · intro b hba
    exact Function.update_of_ne hba ..
  · simp only [track, object, Function.update_self]
    rw [hObjects a ha]
    refine ⟨hObject.kept, hObject.changed, ?_, by simp⟩
    intro o' ho'
    obtain rfl : s.object a = o' := Option.some.inj ho'
    obtain ⟨-, hKey⟩ := Sql.Table.byKey_eq_some.mp hRow
    have hNew : (updated s.program.floatText t (s.object a) (s.object a).identifier u).byKey
        (s.object a).identifier.toInt =
        some (rewriteRow s.program.floatText t (s.object a) (s.object a).identifier r) := by
      rw [byKey_updated, if_pos rfl, hRow]
      rfl
    refine ⟨rfl, _, hNew, ?_⟩
    intro f hf
    exact h.table.holds.get_rewriteRow hColumns _ hKept hKey hf
  · intro b ob q' hba hob hq
    rw [byKey_updated, if_neg (h.identifier_ne ha hba hob)]
    exact hq
  · intro b ob oa hba hob hoa hEq
    have hUpdate : Function.update s.saved a (some (q.object a)) a = some oa := hoa
    rw [Function.update_self] at hUpdate
    obtain rfl : q.object a = oa := Option.some.inj hUpdate
    rw [hObjects a ha] at hEq
    exact h.identifier_ne ha hba hob (congrArg Int32.toInt hEq)
  · intro id hid
    obtain ⟨hBound, hNone⟩ := h.removed id hid
    refine ⟨hBound, ?_⟩
    have hOther : id.toInt ≠ (s.object a).identifier.toInt := by
      intro hEq
      rw [hEq, hRow] at hNone
      cases hNone
    rw [byKey_updated, if_neg hOther]
    exact hNone

theorem Good.remove (h : Good t s u) (hColumns : t.Columns) {a : Nat}
    (hAllowed : Allowed t s (.remove a)) :
    ∃ s', next t s (.remove a) = .ok s' ∧ Good t s' (deleted (s.object a).identifier u) ∧
      (s'.object a).identifier = -1 := by
  have ha : a ∈ s.created := hAllowed
  have hObject := h.objects a ha
  obtain ⟨q, hRun, hOpen, hWrote⟩ := remove_open hColumns h.table (h.bound a ha)
  have hBound : (s.object a).identifier.toInt ≤ u.seq := by
    cases hSaved : s.saved a with
    | none =>
      have hMinus : (s.object a).identifier = -1 := hObject.unsaved hSaved
      rw [hMinus, toInt_neg_one]
      omega
    | some o =>
      have hSame : o.identifier = (s.object a).identifier := (hObject.saved o hSaved).1
      rw [← hSame]
      exact (h.bounds hSaved).2
  refine ⟨{ s with
      program := q
      saved := Function.update s.saved a none
      removed := (s.object a).identifier :: s.removed }, ?_,
    h.touch ha hOpen rfl hWrote.next rfl ?_ ?_ ?_ ?_ ?_ ?_, ?_⟩
  · rw [next, hRun]
    rfl
  · intro b hb hba
    rw [track, object, hWrote.others b (h.bound b hb) hba]
    simp only [Function.update_of_ne hba]
    rfl
  · intro b hba
    exact Function.update_of_ne hba ..
  · simp only [track, object, Function.update_self]
    rw [hWrote.object]
    refine ⟨?_, ?_, by simp, fun _ => Object.identifier_setIdentifier _ _⟩
    · intro y hy
      obtain ⟨hy, hyKept⟩ := hObject.kept y hy
      rw [Object.get_setIdentifier _ _ (Table.stored_name_ne hy)]
      exact ⟨hy, hyKept⟩
    · rcases hObject.changed with hChanged | ⟨hInitial, hAssigned⟩
      · exact Or.inl (Object.changed_setIdentifier hChanged)
      · refine Or.inr ⟨?_, hAssigned⟩
        intro f hf
        rw [Object.get_setIdentifier _ _ (Table.stored_name_ne hf)]
        exact hInitial f hf
  · intro b ob r hba hob hr
    rw [deleted, Sql.Table.byKey_delete, if_neg (h.identifier_ne ha hba hob)]
    exact hr
  · intro b ob oa _ _ hoa _
    have hNone : some oa = none := hoa.symm.trans (Function.update_self ..)
    cases hNone
  · intro id hid
    rw [deleted, Sql.Table.byKey_delete]
    rcases List.mem_cons.mp hid with hHead | hTail
    · rw [hHead]
      exact ⟨hBound, if_pos rfl⟩
    · obtain ⟨hOld, hNone⟩ := h.removed id hTail
      refine ⟨hOld, ?_⟩
      split
      · rfl
      · exact hNone
  · change (q.object a).identifier = -1
    rw [hWrote.object, Object.identifier_setIdentifier]

/-- Every allowed call succeeds and keeps the invariant, and rowids are never taken back. -/
theorem next_good (hColumns : t.Columns) (h : Good t s u) {op : SessionOp}
    (hAllowed : Allowed t s op) :
    ∃ s' v, next t s op = .ok s' ∧ Good t s' v ∧ u.seq ≤ v.seq := by
  cases op with
  | new =>
    obtain ⟨s', hRun, hGood⟩ := h.new
    exact ⟨s', u, hRun, hGood, le_rfl⟩
  | assign a f v =>
    obtain ⟨s', hRun, hGood⟩ := h.assign hAllowed
    exact ⟨s', u, hRun, hGood, le_rfl⟩
  | save a =>
    by_cases hNew : (s.object a).identifier = -1
    · obtain ⟨s', hRun, hGood, -, -⟩ := h.save_new hColumns hAllowed hNew
      exact ⟨s', _, hRun, hGood, Nat.le_succ _⟩
    · obtain ⟨s', hRun, hGood, -⟩ := h.save_old hColumns hAllowed hNew
      exact ⟨s', _, hRun, hGood, le_rfl⟩
  | remove a =>
    obtain ⟨s', hRun, hGood, -⟩ := h.remove hColumns hAllowed
    exact ⟨s', _, hRun, hGood, le_rfl⟩
  | find id =>
    obtain ⟨q, b, hRun, hOpen, hFrame, -⟩ := find_open hColumns h.table id
    refine ⟨_, u, ?_, h.frame hOpen hFrame, le_rfl⟩
    rw [next, hRun]
    rfl
  | fire =>
    obtain ⟨q, hRun, hOpen, -, hText, hObjects, hNext⟩ := h.table.fire
    refine ⟨_, u, ?_, h.frame hOpen ⟨hText, hNext.ge, ?_⟩, le_rfl⟩
    · rw [next, hRun]
      rfl
    · intro a _
      rw [Program.object, hObjects]
      rfl

/-! ## Whole sessions -/

/-- The values of the fields of an object. -/
def values (t : Table) (o : Object) : List (Σ τ : FieldType, τ.Value) :=
  t.fields.map (fun f => ⟨f.type, o.get f⟩)

/-- `find` returns an object with these values, or `null`. -/
def Finds (t : Table) (p : Program) (id : Int32)
    (result : Option (List (Σ τ : FieldType, τ.Value))) : Prop :=
  ∃ q b, Model.find t id p = .ok (q, b) ∧ b.map (fun b => values t (q.object b)) = result

/-- `find` returns the row with the identifier. -/
theorem finds_iff (hColumns : t.Columns) {p : Program} (h : Openable t p u) (id : Int32)
    (result : Option (List (Σ τ : FieldType, τ.Value))) :
    Finds t p id result ↔
      (u.byKey id.toInt).map (fun r => values t (rowObject t u r)) = result := by
  obtain ⟨q, b, hRun, -, -, hObject⟩ := find_open hColumns h id
  have hValues : b.map (fun b => values t (q.object b)) =
      (u.byKey id.toInt).map (fun r => values t (rowObject t u r)) := by
    have hMap := congrArg (Option.map (values t)) hObject
    rwa [Option.map_map, Option.map_map] at hMap
  rw [← hValues]
  constructor
  · intro hFinds
    obtain ⟨q', b', hRun', hResult⟩ := hFinds
    rw [hRun] at hRun'
    obtain ⟨rfl, rfl⟩ := Prod.mk.inj (Except.ok.inj hRun')
    exact hResult
  · exact fun hResult => ⟨q, b, hRun, hResult⟩

theorem values_congr {o o' : Object} (h : ∀ f ∈ t.fields, o.get f = o'.get f) :
    values t o = values t o' := by
  apply List.map_congr_left
  intro f hf
  rw [h f hf]

/-- Every allowed session runs to its end, in a state that agrees with the table, and the
rowids of its table only grow. -/
theorem run_good (hColumns : t.Columns) (h : Good t s u) {ops : List SessionOp}
    (hLegal : Transition.Legal (Allowed t) (next t) s ops) :
    ∃ s', Transition.run (next t) s ops = .ok s' ∧ ∃ v, Good t s' v ∧ u.seq ≤ v.seq := by
  refine Transition.run_legal (I := fun s => ∃ v, Good t s v ∧ u.seq ≤ v.seq) ?_ ⟨u, h, le_rfl⟩ hLegal
  intro s₁ op hs₁ hAllowed
  obtain ⟨v, hGood, hSeq⟩ := hs₁
  obtain ⟨s₂, w, hNext, hGood₂, hSeq₂⟩ := next_good hColumns hGood hAllowed
  exact ⟨s₂, hNext, w, hGood₂, hSeq.trans hSeq₂⟩

/-- The first save gives an object a row that no earlier state of the session had. -/
theorem Good.fresh_identifier (hColumns : t.Columns) {p : Program} {w : Sql.Table}
    (hOpen : Openable t p w) {ops : List SessionOp}
    (hLegal : Transition.Legal (Allowed t) (next t) (start p) ops)
    (hRun : Transition.run (next t) (start p) ops = .ok s) {a : Nat}
    (hAllowed : Allowed t s (.save a)) (hNone : s.saved a = none) :
    ∃ s', next t s (.save a) = .ok s' ∧ (s'.object a).identifier ≠ -1 ∧
      ∀ before rest s₀, ops = before ++ rest →
        Transition.run (next t) (start p) before = .ok s₀ →
        Finds t s₀.program (s'.object a).identifier none := by
  obtain ⟨s₁, hRun₁, u, hGood, -⟩ := run_good hColumns (start_good hOpen) hLegal
  obtain rfl : s = s₁ := Except.ok.inj (hRun.symm.trans hRun₁)
  obtain ⟨s', hNext, -, hId, hSmall⟩ := hGood.save_new hColumns hAllowed
    ((hGood.objects a hAllowed.1).unsaved hNone)
  have hKey : (s'.object a).identifier.toInt = u.seq + 1 := by
    rw [hId, Int32.toInt_ofNat_of_lt hSmall]
    rfl
  refine ⟨s', hNext, ?_, ?_⟩
  · intro hMinus
    rw [hMinus, toInt_neg_one] at hKey
    omega
  · intro before rest s₀ hOps hBefore
    rw [hOps] at hLegal hRun
    obtain ⟨hLegalBefore, hLegalRest⟩ := hLegal.append
    obtain ⟨s₂, hRun₂, v, hGood₂, -⟩ := run_good hColumns (start_good hOpen) hLegalBefore
    obtain rfl : s₀ = s₂ := Except.ok.inj (hBefore.symm.trans hRun₂)
    obtain ⟨s₃, hRun₃, v', hGood₃, hSeq⟩ := run_good hColumns hGood₂ (hLegalRest s₀ hBefore)
    rw [Transition.run_append, hBefore, Transition.ok_bind, hRun₃] at hRun
    obtain rfl : s₃ = s := Except.ok.inj hRun
    -- the table of the final state is the same, whichever way the run was cut
    obtain ⟨s₄, hNext₄, -, hId₄, hSmall₄⟩ := hGood₃.save_new hColumns hAllowed
      ((hGood₃.objects a hAllowed.1).unsaved hNone)
    obtain rfl : s' = s₄ := Except.ok.inj (hNext.symm.trans hNext₄)
    rw [finds_iff hColumns hGood₂.table]
    have hAbsent : v.byKey (s'.object a).identifier.toInt = none := by
      rw [hId₄, Int32.toInt_ofNat_of_lt hSmall₄, Sql.Table.byKey_eq_none]
      intro r hr
      have := (v.bounds r hr).2
      omega
    rw [hAbsent]
    rfl

/-- Saving or removing an object changes what `find` returns for no other identifier. -/
theorem Good.others (hColumns : t.Columns) (h : Good t s u) {op : SessionOp} {a : Nat}
    (hOp : op = .save a ∨ op = .remove a) (hAllowed : Allowed t s op) :
    ∃ s', next t s op = .ok s' ∧ ∀ id result, id ≠ (s.object a).identifier →
      id ≠ (s'.object a).identifier →
      (Finds t s'.program id result ↔ Finds t s.program id result) := by
  have hSame : ∀ (s' : Session) (v : Sql.Table), Good t s' v → v.columns = u.columns →
      ∀ id : Int32, v.byKey id.toInt = u.byKey id.toInt →
        ∀ result, Finds t s'.program id result ↔ Finds t s.program id result := by
    intro s' v hv hCols id hRow result
    have hObject : ∀ r, rowObject t v r = rowObject t u r := rowObject_congr t hCols
    rw [finds_iff hColumns hv.table, finds_iff hColumns h.table, hRow]
    simp only [hObject]
  rcases hOp with rfl | rfl
  · by_cases hNew : (s.object a).identifier = -1
    · obtain ⟨s', hNext, hGood, hId, hSmall⟩ := h.save_new hColumns hAllowed hNew
      refine ⟨s', hNext, fun id result _ hne => hSame s' _ hGood rfl id ?_ result⟩
      rw [byKey_inserted, if_neg]
      intro hKey
      apply hne
      rw [hId]
      apply Int32.toInt_inj.mp
      rw [hKey, Int32.toInt_ofNat_of_lt hSmall]
      rfl
    · obtain ⟨s', hNext, hGood, -⟩ := h.save_old hColumns hAllowed hNew
      refine ⟨s', hNext, fun id result hne _ => hSame s' _ hGood rfl id ?_ result⟩
      rw [byKey_updated, if_neg (fun hKey => hne (Int32.toInt_inj.mp hKey))]
  · obtain ⟨s', hNext, hGood, -⟩ := h.remove hColumns hAllowed
    refine ⟨s', hNext, fun id result hne _ => hSame s' _ hGood rfl id ?_ result⟩
    rw [deleted, Sql.Table.byKey_delete, if_neg (fun hKey => hne (Int32.toInt_inj.mp hKey))]

/-- The field of the class `Note`. -/
def noteText : Field := makeField "text" .text false

/-- A class with one text. -/
def note : Table where
  cls := "Note"
  fresh := .zero
  fields := [.identifier, noteText]
  version := 1
  nodup := by decide
  identifier_mem := by decide
  primary := by decide

/-- A note is written, saved and looked up on a new file. -/
def noteOps : List SessionOp := [.new, .assign 0 noteText "a", .save 0, .fire, .find 1]

end Session

end RetroConfig
