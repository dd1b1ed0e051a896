import RetroConfig.Database.Select

/-!
# The results that a query keeps

`Query::res` (`utils/database/Model.cpp`) evaluates the query if `changed` is set, and returns the
results of the last evaluation otherwise. Of the builder methods only `equal`, `greater`, `less` and
`like` set `changed`. A query that is evaluated, then given a sort column, a direction, a limit,
an offset, an `andQ` or an `in`, and evaluated again, returns the old results.

`results_current` says that all results of a query are right if no evaluation follows such
a call without a call that sets `changed` since the last evaluation.
-/

namespace RetroConfig.Query

open SQLite Program

/-- A builder call, or `res()` or `results()`. -/
inductive Step where
  | call (c : Call)
  | res

/-- A query object in a program, with the builder calls that it has received. -/
structure Session where
  program : Program
  query : Query
  calls : List Call

namespace Session

def next (s : Session) : Step → Except Fault Session
  | .call c => .ok { s with query := c.apply s.query, calls := s.calls ++ [c] }
  | .res => do
    let (p, q) ← s.query.res s.program
    pure { s with program := p, query := q }

/-- `res()` returns the objects that a new query returns after the same builder calls. -/
def Current (t : Table) (s : Session) : Prop :=
  ∃ p q p' q', s.query.res s.program = .ok (p, q) ∧ (build t s.calls).res s.program = .ok (p', q') ∧
    q.results.map p.object = q'.results.map p'.object

end Session

/-- Does the method set `changed`? -/
def Call.sets : Call → Bool
  | .condition (.compare _ _ _) => true
  | _ => false

/-- No evaluation comes after a call that does not set `changed` unless a call that does has been
made since the last evaluation. `set` and `other` say whether calls of the two kinds have been
made since then; a new query counts as changed. -/
def Fine : Bool → Bool → List Step → Prop
  | _, _, [] => True
  | set, other, .call c :: steps => Fine (set || c.sets) (other || !c.sets) steps
  | set, other, .res :: steps => (set = true ∨ other = false) ∧ Fine false false steps

namespace Session

/-! ## One step -/

/-- The session after calls and evaluations on a table that does not change. -/
structure Good (t : Table) (u : Sql.Table) (db : Sql.Db) (s : Session) (set other : Bool) : Prop where
  view : View s.program db
  holds : Holds db t u
  query : s.query = { build t s.calls with results := s.query.results, changed := set }
  old : ∀ a ∈ s.query.results, a < s.program.store.next
  kept : set = false → other = false →
    s.query.results.map s.program.object = ((build t s.calls).rows db).map (readRow t)

variable {t : Table} {u : Sql.Table} {db : Sql.Db} {s : Session} {set other : Bool}

/-- A call changes the text, the parameters and the rest of a query, whatever its results are. -/
theorem apply_with (q : Query) (results : List Nat) (changed : Bool) (c : Call) :
    c.apply { q with results := results, changed := changed } =
      { c.apply q with results := results, changed := changed || c.sets } := by
  cases c with
  | condition c =>
    cases c with
    | compare name cmp val => cases val <;> simp [Call.apply, Condition.call, insertAction, Call.sets]
    | among name vals => simp [Call.apply, Condition.call, inArray, Call.sets]
  | _ => simp [Call.apply, andQ, sortBy, setSortAsc, setLimit, setOffset, Call.sets]

theorem Good.call (h : Good t u db s set other) (c : Call) :
    ∃ s', s.next (.call c) = .ok s' ∧ Good t u db s' (set || c.sets) (other || !c.sets) := by
  refine ⟨_, rfl, h.view, h.holds, ?_, ?_, ?_⟩
  · change c.apply s.query = _
    rw [build_concat]
    conv => lhs; rw [h.query, apply_with]
    rw [(apply_kept s.query c).2.1]
  · intro a ha
    rw [(apply_kept s.query c).2.1] at ha
    exact h.old a ha
  · intro hSet hOther
    cases hc : c.sets <;> simp [hc] at hSet hOther

/-- The rows of a query do not depend on its results. -/
theorem rows_with (q : Query) (results : List Nat) (changed : Bool) :
    ({ q with results := results, changed := changed } : Query).rows db = q.rows db := rfl

theorem fresh_res (h : View s.program db) : ∃ p q, (build t s.calls).res s.program = .ok (p, q) ∧
    q.results.map p.object = ((build t s.calls).rows db).map (readRow t) := by
  obtain ⟨hTable, hChanged, -⟩ := build_spec t s.calls
  obtain ⟨d, hRes, -, -, -, hObjects⟩ := h.res hChanged
  rw [hTable] at hObjects
  exact ⟨_, _, hRes, hObjects⟩

/-- An evaluation returns the rows of the query, and leaves a session with right results. -/
theorem Good.res (h : Good t u db s set other) (hFine : set = true ∨ other = false) :
    ∃ p q, s.query.res s.program = .ok (p, q) ∧
      q.results.map p.object = ((build t s.calls).rows db).map (readRow t) ∧
      Good t u db { s with program := p, query := q } false false := by
  obtain ⟨hTable, -⟩ := build_spec t s.calls
  cases set with
  | false =>
    have hChanged : s.query.changed = false := congrArg Query.changed h.query
    have hKept := h.kept rfl (hFine.resolve_left (by simp))
    refine ⟨s.program, s.query, ?_, hKept, h.view, h.holds, h.query, h.old, fun _ _ => hKept⟩
    rw [Query.res, hChanged]
    rfl
  | true =>
    have hChanged : s.query.changed = true := congrArg Query.changed h.query
    have hRows : s.query.rows db = (build t s.calls).rows db := by
      rw [h.query, rows_with]
    have hSame : s.query.table = t := (congrArg Query.table h.query).trans hTable
    obtain ⟨d, hRes, hView, hNext, -, hObjects⟩ := h.view.res hChanged
    rw [hSame, hRows] at hObjects
    rw [hRows] at hRes hNext
    refine ⟨_, _, hRes, hObjects, hView, h.holds, ?_, ?_, fun _ _ => hObjects⟩
    · conv => lhs; rw [h.query]
    · intro a ha
      rw [List.mem_range'_1] at ha
      change a < d.store.next
      omega

/-! ## Every run -/

theorem run_good {before after : List Step} (h : Good t u db s set other)
    (hFine : Fine set other (before ++ .res :: after)) :
    ∃ s' set' other', Transition.run next s before = .ok s' ∧ Good t u db s' set' other' ∧
      (set' = true ∨ other' = false) := by
  induction before generalizing s set other with
  | nil => exact ⟨s, set, other, rfl, h, hFine.1⟩
  | cons step before ih =>
    rw [Transition.run_cons]
    cases step with
    | call c =>
      obtain ⟨s₁, hStep, hGood⟩ := h.call c
      rw [hStep]
      exact ih hGood hFine
    | res =>
      obtain ⟨p, q, hRes, -, hGood⟩ := h.res hFine.1
      have hStep : s.next .res = .ok { s with program := p, query := q } := by
        rw [next, hRes]
        rfl
      rw [hStep]
      exact ih hGood hFine.2

/-- A new query on a table, and any calls and evaluations: if no evaluation comes after a call
that does not set `changed` without one that does, every evaluation returns what a new query
returns after the same calls. -/
theorem results_current {p : Program} (hColumns : t.Columns) (hOpen : Openable t p u)
    (steps : List Step) (hFine : Fine true false steps) :
    ∃ p₁, Model.query t p = .ok (p₁, .ofTable t) ∧
      ∀ before after, steps = before ++ .res :: after →
        ∃ s, Transition.run next ⟨p₁, .ofTable t, []⟩ before = .ok s ∧ s.Current t := by
  obtain ⟨p₁, db, -, -, hQuery, hView, hHolds, -⟩ := res_open hColumns hOpen []
  refine ⟨p₁, hQuery, ?_⟩
  rintro before after rfl
  have hStart : Good t u db ⟨p₁, .ofTable t, []⟩ true false :=
    ⟨hView, hHolds, rfl, fun a ha => (by cases ha), fun hSet => (by cases hSet)⟩
  obtain ⟨s, set, other, hRun, hGood, hLast⟩ := run_good hStart hFine
  obtain ⟨q, q', hRes, hObjects, -⟩ := hGood.res hLast
  obtain ⟨r, r', hFresh, hFreshObjects⟩ := fresh_res (t := t) hGood.view
  exact ⟨s, hRun, q, q', r, r', hRes, hFresh, hObjects.trans hFreshObjects.symm⟩

/-- A query that is evaluated, evaluated again, and evaluated with one more condition. -/
theorem results_current_refined :
    ∃ p₁, Model.query info (opened info (levels info 1)) = .ok (p₁, .ofTable info) ∧
      ∀ before after, [Step.call (.sortBy "ver"), .res, .res, .call .andQ,
          .call (.condition (.compare "ver" .greater (.int 0))), .res] = before ++ .res :: after →
        ∃ s, Transition.run next ⟨p₁, .ofTable info, []⟩ before = .ok s ∧ s.Current info :=
  results_current info_columns (opened_openable rfl) _
    ⟨Or.inl rfl, Or.inr rfl, Or.inl rfl, trivial⟩

/-- A query for two rows that is evaluated, limited to one row, and evaluated again. -/
theorem results_stale :
    ∃ s, Transition.run next ⟨opened info (levels info 1), .ofTable info, []⟩
      [.res, .call (.limit 1)] = .ok s ∧ ¬ s.Current info := by
  obtain ⟨db, hdb⟩ : ∃ db : Sql.Db, db = fun _ => some (levels info 1) := ⟨_, rfl⟩
  have hView : View (opened info (levels info 1)) db := by
    rw [hdb]
    exact (boot_view _ _ _).register info.cls
  have hStart : Good info (levels info 1) db ⟨opened info (levels info 1), .ofTable info, []⟩ true
      false :=
    ⟨hView, by rw [hdb]; exact ⟨rfl, rfl⟩, rfl, fun a ha => (by cases ha), fun hSet => (by cases hSet)⟩
  obtain ⟨p, q, hRes, hObjects, hGood⟩ := hStart.res (Or.inl rfl)
  have hChanged : q.changed = false := congrArg Query.changed hGood.query
  have hTwo : ((build info []).rows fun _ => some (levels info 1)).length = 2 := by decide
  have hOne : ((build info [.limit 1]).rows fun _ => some (levels info 1)).length = 1 := by decide
  refine ⟨⟨p, q.setLimit 1, [.limit 1]⟩, ?_, ?_⟩
  · rw [Transition.run_cons, next, hRes]
    rfl
  · rintro ⟨p', q', p'', q'', hAgain, hFresh, hSame⟩
    obtain ⟨r, r', hFresh', hRows⟩ :=
      fresh_res (t := info) (s := ⟨p, q.setLimit 1, [.limit 1]⟩) hGood.view
    obtain ⟨rfl, rfl⟩ : p'' = r ∧ q'' = r' := Prod.mk.inj (Except.ok.inj (hFresh.symm.trans hFresh'))
    have hKept : (q.setLimit 1).res p = .ok (p, q.setLimit 1) := by
      rw [Query.res, show (q.setLimit 1).changed = false from hChanged]
      rfl
    obtain ⟨rfl, rfl⟩ : p' = p ∧ q' = q.setLimit 1 :=
      Prod.mk.inj (Except.ok.inj (hAgain.symm.trans hKept))
    rw [hRows, show (q.setLimit 1).results = q.results from rfl, hObjects, hdb] at hSame
    have hLength := congrArg List.length hSame
    rw [List.length_map, List.length_map, hTwo, hOne] at hLength
    exact absurd hLength (by decide)

end Session

end RetroConfig.Query
