import RetroConfig.Library.Journal
import RetroConfig.Script.Timers
import Mathlib.Data.List.Induction

/-!
# Runs of timers

`Good` says between two commands what the tables of timers have to do with the journal of the run;
while the one call of a timer that does not repeat is being made, that timer is in the map and Dart
has no timer for it. Each operation keeps it, whatever the code of a callback does.

`timers_lawful` is about the journal: what was called, and when. `callbacks_balanced` is about the
Dart objects of the callbacks: none is destroyed too early, and none is held for ever but those of
timers that Dart refused to start.
-/

namespace RetroConfig.Timers

/-! ## What is in order -/

/-- The timer was started, and since then it has not been cancelled and, if it does not repeat, its
callback has not been called. -/
def Pending (id : Nat) (repeats : Bool) (log : List Event) : Prop :=
  Journal.Since (· = .started id repeats)
    (fun e => e ≠ .cancelled id ∧ (repeats = false → e ≠ .invoked id)) log

/-- The callback has been called, and the timer has not been cancelled since. -/
def Uncancelled (id : Nat) (log : List Event) : Prop :=
  Journal.Since (· = .invoked id) (· ≠ .cancelled id) log

/-- A number is given to one timer only. A callback is called only while its timer is pending. `Step`
does not run after the deletion of its context. The call of a timer that does not repeat ends well
if it does not cancel its own timer, and with an exception if it does. -/
def Lawful (log : List Event) : Event → Prop
  | .started id _ => ∀ repeats, .started id repeats ∉ log
  | .invoked id => ∃ repeats, Pending id repeats log
  | .stepped ctx => .closed ctx ∉ log
  | .released id => Uncancelled id log
  | .threw id => .invoked id ∈ log ∧ ¬ Uncancelled id log
  | _ => True

/-- Between two commands; `running` is the timer whose one call is being made. -/
structure Good (running : Option Nat) (s : State) : Prop where
  lawful : Journal.Each Lawful s.log
  started_lt : ∀ id repeats, .started id repeats ∈ s.log → id < s.timerCount
  refused_lt : ∀ id, .refused id ∈ s.log → id < s.timerCount
  timers_lt : ∀ id info, s.timers id = some info → id < s.timerCount
  refused : ∀ id, .refused id ∈ s.log → s.timers id = none
  active : ∀ id info, s.active id = some info → s.timers id = some info
  held : ∀ id info, s.timers id = some info → s.active id = some info ∨ running = some id
  pending : ∀ id info, s.active id = some info → Pending id info.repeats s.log
  complete : ∀ id repeats, Pending id repeats s.log → .refused id ∉ s.log → (s.active id).isSome
  count : ∀ id, id < s.timerCount →
    s.retainCount id = if (s.timers id).isSome ∨ .refused id ∈ s.log then 1 else 0
  alive : ∀ id info, s.timers id = some info → s.destroyed id = false
  step : ∀ id info ctx, s.active id = some info → info.callback = .step ctx → s.timer ctx = some id
  timer : ∀ ctx id, s.timer ctx = some id → ctx < s.contexts ∧ .closed ctx ∉ s.log
  closed : ∀ ctx, .closed ctx ∈ s.log → ctx < s.contexts
  running : ∀ id, running = some id →
    s.active id = none ∧ .refused id ∉ s.log ∧ id < s.timerCount ∧ .invoked id ∈ s.log ∧
      ((s.timers id).isSome ↔ Uncancelled id s.log)

/-! ## The journal -/

theorem Pending.concat {id : Nat} {repeats : Bool} {log : List Event} {e : Event}
    (h : Pending id repeats log) (hCancelled : e ≠ .cancelled id)
    (hInvoked : repeats = false → e ≠ .invoked id) : Pending id repeats (log ++ [e]) :=
  Journal.since_concat.mpr (Or.inr ⟨⟨hCancelled, hInvoked⟩, h⟩)

theorem Pending.before {id : Nat} {repeats : Bool} {log : List Event} {e : Event}
    (h : Pending id repeats (log ++ [e])) (hStarted : e ≠ .started id repeats) :
    (e ≠ .cancelled id ∧ (repeats = false → e ≠ .invoked id)) ∧ Pending id repeats log :=
  (Journal.since_concat.mp h).resolve_left hStarted

theorem Pending.mem {id : Nat} {repeats : Bool} {log : List Event} (h : Pending id repeats log) :
    .started id repeats ∈ log := by
  obtain ⟨e, hMem, rfl⟩ := h.exists_mem
  exact hMem

/-- A number is given to one timer. -/
theorem started_inj {id : Nat} {r r' : Bool} {log : List Event} (h : Journal.Each Lawful log)
    (hStarted : .started id r ∈ log) (hStarted' : .started id r' ∈ log) : r = r' := by
  induction log using List.reverseRecOn with
  | nil => exact absurd hStarted List.not_mem_nil
  | append_singleton log e ih =>
    obtain ⟨hLog, hLast⟩ := Journal.each_concat.mp h
    rw [List.mem_append, List.mem_singleton] at hStarted hStarted'
    rcases hStarted with hOld | rfl <;> rcases hStarted' with hOld' | hEq
    · exact ih hLog hOld hOld'
    · subst hEq
      exact absurd hOld (hLast r)
    · exact absurd hOld' (hLast r')
    · exact (Event.started.inj hEq).2.symm

theorem uncancelled_concat {id : Nat} {log : List Event} {e : Event} (hInvoked : e ≠ .invoked id)
    (hCancelled : e ≠ .cancelled id) : Uncancelled id (log ++ [e]) ↔ Uncancelled id log :=
  Journal.since_other hInvoked hCancelled

theorem not_uncancelled_cancelled (id : Nat) (log : List Event) :
    ¬ Uncancelled id (log ++ [.cancelled id]) :=
  Journal.not_since_of Event.noConfusion fun h => h rfl

theorem mem_concat_of_ne {log : List Event} {e e' : Event} (h : e' ≠ e) :
    e' ∈ log ++ [e] ↔ e' ∈ log := by
  rw [List.mem_append, List.mem_singleton, or_iff_left h]

theorem start_good : Good none start :=
  { lawful := Journal.each_nil
    started_lt := fun _ _ h => absurd h List.not_mem_nil
    refused_lt := fun _ h => absurd h List.not_mem_nil
    timers_lt := fun _ _ h => (Option.some_ne_none _ h.symm).elim
    refused := fun _ h => absurd h List.not_mem_nil
    active := fun _ _ h => (Option.some_ne_none _ h.symm).elim
    held := fun _ _ h => (Option.some_ne_none _ h.symm).elim
    pending := fun _ _ h => (Option.some_ne_none _ h.symm).elim
    complete := fun _ _ h => absurd h Journal.not_since_nil
    count := fun id _ => by simp [start]
    alive := fun _ _ h => (Option.some_ne_none _ h.symm).elim
    step := fun _ _ _ h => (Option.some_ne_none _ h.symm).elim
    timer := fun _ _ h => (Option.some_ne_none _ h.symm).elim
    closed := fun _ h => absurd h List.not_mem_nil
    running := fun _ h => (Option.some_ne_none _ h.symm).elim }

/-- An event that no field of the invariant speaks of. -/
def Event.Aside : Event → Prop
  | .released _ | .threw _ | .stepped _ => True
  | _ => False

theorem Event.Aside.ne {e : Event} (h : e.Aside) :
    (∀ id repeats, .started id repeats ≠ e) ∧ (∀ id, .refused id ≠ e) ∧ (∀ id, .cancelled id ≠ e) ∧
      (∀ id, .invoked id ≠ e) ∧ ∀ ctx, .closed ctx ≠ e := by
  cases e <;> first | exact False.elim h | simp

variable {running : Option Nat} {s : State}

/-- What is left of a table without one of its entries. -/
theorem removed {α : Type} {f : Nat → Option α} {id i : Nat} {info : α}
    (h : Function.update f id none i = some info) : i ≠ id ∧ f i = some info := by
  rcases eq_or_ne i id with rfl | hNe
  · rw [Function.update_self] at h
    exact absurd h.symm (Option.some_ne_none _)
  · exact ⟨hNe, by rwa [Function.update_of_ne hNe] at h⟩

/-- What is in a table with one more entry. -/
theorem added {α : Type} {f : Nat → Option α} {id i : Nat} {info v : α}
    (h : Function.update f id (some v) i = some info) :
    (i = id ∧ info = v) ∨ (i ≠ id ∧ f i = some info) := by
  rcases eq_or_ne i id with rfl | hNe
  · rw [Function.update_self] at h
    exact Or.inl ⟨rfl, (Option.some.inj h).symm⟩
  · exact Or.inr ⟨hNe, by rwa [Function.update_of_ne hNe] at h⟩

/-- A callback is held while its timer is in the map. -/
theorem Good.retainCount_eq (h : Good running s) {id : Nat} {info : TimerInfo}
    (hTimer : s.timers id = some info) : s.retainCount id = 1 := by
  rw [h.count id (h.timers_lt id info hTimer), hTimer]
  exact if_pos (Or.inl rfl)

/-- The keys of the tables do not matter. -/
theorem Good.setKey (h : Good running s) (ctx handle : Nat) (v : Bool) :
    Good running (s.setKey ctx handle v) :=
  { h with }

/-- An event is written that no field of the invariant speaks of, but that a context without a timer
is closed. -/
theorem Good.write_of (h : Good running s) {e : Event}
    (hStarted : ∀ id repeats, .started id repeats ≠ e) (hRefused : ∀ id, .refused id ≠ e)
    (hCancelled : ∀ id, .cancelled id ≠ e) (hInvoked : ∀ id, .invoked id ≠ e)
    (hClosed : ∀ ctx, .closed ctx = e → ctx < s.contexts ∧ s.timer ctx = none)
    (hLawful : Lawful s.log e) : Good running (s.write e) := by
  have hMem : ∀ {e'}, e' ≠ e → (e' ∈ (s.write e).log ↔ e' ∈ s.log) := fun hNe => mem_concat_of_ne hNe
  exact
    { lawful := Journal.each_concat.mpr ⟨h.lawful, hLawful⟩
      started_lt := fun id r hLog => h.started_lt id r ((hMem (hStarted id r)).mp hLog)
      refused_lt := fun id hLog => h.refused_lt id ((hMem (hRefused id)).mp hLog)
      timers_lt := h.timers_lt
      refused := fun id hLog => h.refused id ((hMem (hRefused id)).mp hLog)
      active := h.active
      held := h.held
      pending := fun id info hActive =>
        (h.pending id info hActive).concat (hCancelled id).symm fun _ => (hInvoked id).symm
      complete := fun id repeats hPending hNot =>
        h.complete id repeats (hPending.before (hStarted id repeats).symm).2
          fun hLog => hNot ((hMem (hRefused id)).mpr hLog)
      count := by
        intro id hLt
        simp only [hMem (hRefused id)]
        exact h.count id hLt
      alive := h.alive
      step := h.step
      timer := by
        intro ctx id hTimer
        obtain ⟨hLt, hNot⟩ := h.timer ctx id hTimer
        have hNe : .closed ctx ≠ e := by
          intro hEq
          exact Option.some_ne_none id (hTimer.symm.trans (hClosed ctx hEq).2)
        exact ⟨hLt, fun hLog => hNot ((hMem hNe).mp hLog)⟩
      closed := by
        intro ctx hLog
        rcases List.mem_append.mp hLog with hOld | hLast
        · exact h.closed ctx hOld
        · exact (hClosed ctx (List.mem_singleton.mp hLast)).1
      running := by
        intro id hRunning
        obtain ⟨hActive, hNot, hLt, hCalled, hIff⟩ := h.running id hRunning
        refine ⟨hActive, fun hLog => hNot ((hMem (hRefused id)).mp hLog), hLt,
          (hMem (hInvoked id)).mpr hCalled, ?_⟩
        exact hIff.trans (uncancelled_concat (hInvoked id).symm (hCancelled id).symm).symm }

theorem Good.write (h : Good running s) {e : Event} (hAside : e.Aside) (hLawful : Lawful s.log e) :
    Good running (s.write e) := by
  obtain ⟨hStarted, hRefused, hCancelled, hInvoked, hClosed⟩ := hAside.ne
  exact h.write_of hStarted hRefused hCancelled hInvoked (fun ctx hEq => absurd hEq (hClosed ctx))
    hLawful

/-! ## The operations -/

theorem release_eq (s : State) (id : Nat) (h : s.retainCount id = 1) :
    release s id = some { s with retainCount := Function.update s.retainCount id 0 } := by
  rw [release, if_neg (by omega), h]
  rfl

theorem Good.fresh (h : Good running s) :
    (∀ repeats, .started s.timerCount repeats ∉ s.log) ∧ .refused s.timerCount ∉ s.log ∧
      s.timers s.timerCount = none := by
  refine ⟨fun repeats hLog => ?_, fun hLog => ?_, ?_⟩
  · exact absurd (h.started_lt _ repeats hLog) (Nat.lt_irrefl _)
  · exact absurd (h.refused_lt _ hLog) (Nat.lt_irrefl _)
  · cases hTimer : s.timers s.timerCount with
    | none => rfl
    | some info => exact absurd (h.timers_lt _ info hTimer) (Nat.lt_irrefl _)

/-- The number of a new timer is written down. -/
theorem lawful_started (h : Good running s) (repeats : Bool) :
    Journal.Each Lawful (s.log ++ [.started s.timerCount repeats]) :=
  Journal.each_concat.mpr ⟨h.lawful, h.fresh.1⟩

/-- `startTimer` with a finite time. -/
theorem Good.startTimer_finite (h : Good running s) (callback : Callback) (repeats : Bool)
    (hStep : ∀ ctx, callback = .step ctx → s.timer ctx = some s.timerCount) :
    Good running (startTimer s callback true repeats) := by
  obtain ⟨-, hRefused, hNone⟩ := h.fresh
  have hMem : ∀ {e}, (∀ repeats, e ≠ .started s.timerCount repeats) →
      (e ∈ s.log ++ [.started s.timerCount repeats] ↔ e ∈ s.log) :=
    fun hNe => mem_concat_of_ne (hNe repeats)
  constructor
  case lawful => exact lawful_started h repeats
  case started_lt =>
    intro id r hLog
    rcases List.mem_append.mp hLog with hOld | hLast
    · exact Nat.lt_succ_of_lt (h.started_lt id r hOld)
    · cases List.mem_singleton.mp hLast
      exact Nat.lt_succ_self _
  case refused_lt =>
    intro id hLog
    exact Nat.lt_succ_of_lt (h.refused_lt id ((hMem fun _ => Event.noConfusion).mp hLog))
  case timers_lt =>
    intro id info hTimer
    rcases added hTimer with ⟨rfl, -⟩ | ⟨-, hOld⟩
    · exact Nat.lt_succ_self _
    · exact Nat.lt_succ_of_lt (h.timers_lt id info hOld)
  case refused =>
    intro id hLog
    have hOld := (hMem fun _ => Event.noConfusion).mp hLog
    have hNe : id ≠ s.timerCount := by
      rintro rfl
      exact hRefused hOld
    exact (Function.update_of_ne hNe _ _).trans (h.refused id hOld)
  case active =>
    intro id info hTimer
    rcases added hTimer with ⟨rfl, rfl⟩ | ⟨hNe, hOld⟩
    · exact Function.update_self ..
    · exact (Function.update_of_ne hNe _ _).trans (h.active id info hOld)
  case held =>
    intro id info hTimer
    rcases added hTimer with ⟨rfl, rfl⟩ | ⟨hNe, hOld⟩
    · exact Or.inl (Function.update_self ..)
    · exact (h.held id info hOld).imp_left (Function.update_of_ne hNe _ _).trans
  case pending =>
    intro id info hTimer
    rcases added hTimer with ⟨rfl, rfl⟩ | ⟨-, hOld⟩
    · exact Journal.since_self rfl
    · exact (h.pending id info hOld).concat Event.noConfusion fun _ => Event.noConfusion
  case complete =>
    intro id r hPending hNot
    rcases eq_or_ne id s.timerCount with rfl | hNe
    · simp only [startTimer, if_true, Function.update_self, Option.isSome_some]
    · have hBefore := (hPending.before fun hEq => hNe (Event.started.inj hEq).1.symm).2
      have hSome := h.complete id r hBefore
        fun hLog => hNot ((hMem fun _ => Event.noConfusion).mpr hLog)
      simpa only [startTimer, if_true, Function.update_of_ne hNe] using hSome
  case count =>
    intro id hLt
    have hSame : .refused id ∈ s.log ++ [.started s.timerCount repeats] ↔ .refused id ∈ s.log :=
      hMem fun _ => Event.noConfusion
    simp only [startTimer, if_true, hSame]
    rcases eq_or_ne id s.timerCount with rfl | hNe
    · simp only [Function.update_self, Option.isSome_some, true_or, if_true]
    · simp only [Function.update_of_ne hNe]
      exact h.count id (Nat.lt_of_le_of_ne (Nat.le_of_lt_succ hLt) hNe)
  case alive =>
    intro id info hTimer
    rcases added hTimer with ⟨rfl, -⟩ | ⟨hNe, hOld⟩
    · exact Function.update_self ..
    · exact (Function.update_of_ne hNe _ _).trans (h.alive id info hOld)
  case step =>
    intro id info ctx hTimer hCallback
    rcases added hTimer with ⟨rfl, rfl⟩ | ⟨-, hOld⟩
    · exact hStep ctx hCallback
    · exact h.step id info ctx hOld hCallback
  case timer =>
    intro ctx id hTimer
    obtain ⟨hLt, hNot⟩ := h.timer ctx id hTimer
    exact ⟨hLt, fun hLog => hNot ((hMem fun _ => Event.noConfusion).mp hLog)⟩
  case closed => exact fun ctx hLog => h.closed ctx ((hMem fun _ => Event.noConfusion).mp hLog)
  case running =>
    intro id hRunning
    obtain ⟨hNot, hHeld, hLt, hCalled, hIff⟩ := h.running id hRunning
    have hNe : id ≠ s.timerCount := Nat.ne_of_lt hLt
    refine ⟨(Function.update_of_ne hNe _ _).trans hNot,
      fun hLog => hHeld ((hMem fun _ => Event.noConfusion).mp hLog), Nat.lt_succ_of_lt hLt,
      (hMem fun _ => Event.noConfusion).mpr hCalled, ?_⟩
    rw [show (startTimer s callback true repeats).timers id = s.timers id from
      Function.update_of_ne hNe _ _, hIff]
    exact (uncancelled_concat Event.noConfusion Event.noConfusion).symm

/-- `startTimer` with a time that is not finite. -/
theorem Good.startTimer_refused (h : Good running s) (callback : Callback) (repeats : Bool) :
    Good running (startTimer s callback false repeats) := by
  obtain ⟨hStarted, hRefused, hNone⟩ := h.fresh
  have hLogEq : (startTimer s callback false repeats).log =
      s.log ++ [.started s.timerCount repeats] ++ [.refused s.timerCount] := rfl
  have hMem : ∀ {e}, (∀ repeats, e ≠ .started s.timerCount repeats) → e ≠ .refused s.timerCount →
      (e ∈ (startTimer s callback false repeats).log ↔ e ∈ s.log) := by
    intro e hNe hNe'
    rw [hLogEq, mem_concat_of_ne hNe', mem_concat_of_ne (hNe repeats)]
  have hOld : ∀ {id}, id ≠ s.timerCount →
      (.refused id ∈ (startTimer s callback false repeats).log ↔ .refused id ∈ s.log) := by
    intro id hNe
    exact hMem (fun _ => Event.noConfusion) fun hEq => hNe (Event.refused.inj hEq)
  have hLast : .refused s.timerCount ∈ (startTimer s callback false repeats).log :=
    List.mem_append_right _ (List.mem_singleton_self _)
  constructor
  case lawful =>
    rw [hLogEq]
    exact Journal.each_concat.mpr ⟨lawful_started h repeats, trivial⟩
  case started_lt =>
    intro id r hLog
    rw [hLogEq, mem_concat_of_ne Event.noConfusion] at hLog
    rcases List.mem_append.mp hLog with hBefore | hNew
    · exact Nat.lt_succ_of_lt (h.started_lt id r hBefore)
    · cases List.mem_singleton.mp hNew
      exact Nat.lt_succ_self _
  case refused_lt =>
    intro id hLog
    rcases eq_or_ne id s.timerCount with rfl | hNe
    · exact Nat.lt_succ_self _
    · exact Nat.lt_succ_of_lt (h.refused_lt id ((hOld hNe).mp hLog))
  case timers_lt => exact fun id info hTimer => Nat.lt_succ_of_lt (h.timers_lt id info hTimer)
  case refused =>
    intro id hLog
    rcases eq_or_ne id s.timerCount with rfl | hNe
    · exact hNone
    · exact h.refused id ((hOld hNe).mp hLog)
  case active => exact h.active
  case held => exact h.held
  case pending =>
    intro id info hActive
    exact ((h.pending id info hActive).concat Event.noConfusion fun _ => Event.noConfusion).concat
      Event.noConfusion fun _ => Event.noConfusion
  case complete =>
    intro id r hPending hNot
    have hNe : id ≠ s.timerCount := by
      rintro rfl
      exact hNot hLast
    rw [hLogEq] at hPending
    have hBefore := (hPending.before Event.noConfusion).2
    exact h.complete id r (hBefore.before fun hEq => hNe (Event.started.inj hEq).1.symm).2
      fun hLog => hNot ((hOld hNe).mpr hLog)
  case count =>
    intro id hLt
    rcases eq_or_ne id s.timerCount with rfl | hNe
    · rw [if_pos (Or.inr hLast)]
      exact Function.update_self ..
    · simp only [hOld hNe]
      exact (Function.update_of_ne hNe _ _).trans
        (h.count id (Nat.lt_of_le_of_ne (Nat.le_of_lt_succ hLt) hNe))
  case alive =>
    intro id info hTimer
    have hNe : id ≠ s.timerCount := Nat.ne_of_lt (h.timers_lt id info hTimer)
    exact (Function.update_of_ne hNe _ _).trans (h.alive id info hTimer)
  case step => exact h.step
  case timer =>
    intro ctx id hTimer
    obtain ⟨hLt, hNot⟩ := h.timer ctx id hTimer
    exact ⟨hLt, fun hLog => hNot ((hMem (fun _ => Event.noConfusion) Event.noConfusion).mp hLog)⟩
  case closed =>
    exact fun ctx hLog => h.closed ctx ((hMem (fun _ => Event.noConfusion) Event.noConfusion).mp hLog)
  case running =>
    intro id hRunning
    obtain ⟨hNot, hHeld, hLt, hCalled, hIff⟩ := h.running id hRunning
    refine ⟨hNot, fun hLog => hHeld ((hOld (Nat.ne_of_lt hLt)).mp hLog), Nat.lt_succ_of_lt hLt,
      (hMem (fun _ => Event.noConfusion) Event.noConfusion).mpr hCalled, hIff.trans ?_⟩
    rw [hLogEq, uncancelled_concat Event.noConfusion Event.noConfusion,
      uncancelled_concat Event.noConfusion Event.noConfusion]

/-- The state after `cancelTimer`: the release never fails. -/
theorem Good.cancelTimer_eq (h : Good running s) (id : Nat) :
    cancelTimer s id =
      { s with
        timers := Function.update s.timers id none
        active := Function.update s.active id none
        retainCount := if (s.timers id).isSome then Function.update s.retainCount id 0
          else s.retainCount
        log := s.log ++ [.cancelled id] } := by
  cases hTimer : s.timers id with
  | none =>
    have hActive : s.active id = none := by
      cases hActive : s.active id with
      | none => rfl
      | some info =>
        exact absurd ((h.active id info hActive).symm.trans hTimer) (Option.some_ne_none _)
    simp only [cancelTimer, State.write, hTimer, Option.isSome_none, Bool.false_eq_true, if_false]
    rw [← hTimer, Function.update_eq_self, hTimer, ← hActive, Function.update_eq_self]
  | some info =>
    have hCount : s.retainCount id = 1 := h.retainCount_eq hTimer
    simp only [cancelTimer, State.write, hTimer, Option.isSome_some, if_true]
    rw [release_eq { s with
      active := Function.update s.active id none
      log := s.log ++ [Event.cancelled id] } id hCount]

theorem Good.cancelTimer (h : Good running s) (id : Nat) : Good running (cancelTimer s id) := by
  have hMem : ∀ {e}, e ≠ .cancelled id → (e ∈ s.log ++ [.cancelled id] ↔ e ∈ s.log) :=
    fun hNe => mem_concat_of_ne hNe
  rw [h.cancelTimer_eq id]
  constructor
  case lawful => exact Journal.each_concat.mpr ⟨h.lawful, trivial⟩
  case started_lt => exact fun i r hLog => h.started_lt i r ((hMem Event.noConfusion).mp hLog)
  case refused_lt => exact fun i hLog => h.refused_lt i ((hMem Event.noConfusion).mp hLog)
  case timers_lt => exact fun i info hTimer => h.timers_lt i info (removed hTimer).2
  case refused =>
    intro i hLog
    rcases eq_or_ne i id with rfl | hNe
    · exact Function.update_self ..
    · exact (Function.update_of_ne hNe _ _).trans (h.refused i ((hMem Event.noConfusion).mp hLog))
  case active =>
    intro i info hActive
    obtain ⟨hNe, hOld⟩ := removed hActive
    exact (Function.update_of_ne hNe _ _).trans (h.active i info hOld)
  case held =>
    intro i info hTimer
    obtain ⟨hNe, hOld⟩ := removed hTimer
    exact (h.held i info hOld).imp_left (Function.update_of_ne hNe _ _).trans
  case pending =>
    intro i info hActive
    obtain ⟨hNe, hOld⟩ := removed hActive
    exact (h.pending i info hOld).concat (fun hEq => hNe (Event.cancelled.inj hEq).symm)
      fun _ => Event.noConfusion
  case complete =>
    intro i r hPending hNot
    obtain ⟨⟨hCancelled, -⟩, hBefore⟩ := hPending.before Event.noConfusion
    have hNe : i ≠ id := by
      rintro rfl
      exact hCancelled rfl
    have hSome := h.complete i r hBefore fun hLog => hNot ((hMem Event.noConfusion).mpr hLog)
    simpa only [Function.update_of_ne hNe] using hSome
  case count =>
    intro i hLt
    have hSame : .refused i ∈ s.log ++ [.cancelled id] ↔ .refused i ∈ s.log := hMem Event.noConfusion
    simp only [hSame]
    rcases eq_or_ne i id with rfl | hNe
    · simp only [Function.update_self, Option.isSome_none, Bool.false_eq_true, false_or]
      cases hTimer : s.timers i with
      | none =>
        rw [if_neg (by simp), h.count i hLt, hTimer]
        simp
      | some info =>
        have hNot : .refused i ∉ s.log := fun hLog => by simp [h.refused i hLog] at hTimer
        rw [if_pos Option.isSome_some, if_neg hNot, Function.update_self]
    · simp only [Function.update_of_ne hNe]
      rw [← h.count i hLt]
      split
      · exact Function.update_of_ne hNe _ _
      · rfl
  case alive => exact fun i info hTimer => h.alive i info (removed hTimer).2
  case step => exact fun i info ctx hActive hStep => h.step i info ctx (removed hActive).2 hStep
  case timer =>
    intro ctx i hTimer
    obtain ⟨hLt, hNot⟩ := h.timer ctx i hTimer
    exact ⟨hLt, fun hLog => hNot ((hMem Event.noConfusion).mp hLog)⟩
  case closed => exact fun ctx hLog => h.closed ctx ((hMem Event.noConfusion).mp hLog)
  case running =>
    intro i hRunning
    obtain ⟨hNot, hHeld, hLt, hCalled, hIff⟩ := h.running i hRunning
    have hActive : Function.update s.active id none i = none := by
      rcases eq_or_ne i id with rfl | hNe
      · exact Function.update_self ..
      · exact (Function.update_of_ne hNe _ _).trans hNot
    refine ⟨hActive, fun hLog => hHeld ((hMem Event.noConfusion).mp hLog), hLt,
      (hMem Event.noConfusion).mpr hCalled, ?_⟩
    rcases eq_or_ne i id with rfl | hNe
    · refine iff_of_false ?_ (not_uncancelled_cancelled i s.log)
      simp only [Function.update_self, Option.isSome_none, Bool.false_eq_true, not_false_eq_true]
    · simp only [Function.update_of_ne hNe]
      rw [hIff, uncancelled_concat Event.noConfusion fun hEq => hNe (Event.cancelled.inj hEq).symm]

/-! ## Contexts -/

theorem Good.openContext (h : Good running s) : Good running (exec s .openContext) := by
  have hOpened : Good running { s with
      contexts := s.contexts + 1
      timer := Function.update s.timer s.contexts (some s.timerCount) } := by
    refine { h with step := ?_, timer := ?_, closed := ?_ }
    · intro id info ctx hActive hStep
      have hTimer := h.step id info ctx hActive hStep
      have hNe : ctx ≠ s.contexts := Nat.ne_of_lt (h.timer ctx id hTimer).1
      exact (Function.update_of_ne hNe _ _).trans hTimer
    · intro ctx id hTimer
      rcases eq_or_ne ctx s.contexts with rfl | hNe
      · exact ⟨Nat.lt_succ_self _, fun hLog => absurd (h.closed _ hLog) (Nat.lt_irrefl _)⟩
      · simp only [Function.update_of_ne hNe] at hTimer
        exact ⟨Nat.lt_succ_of_lt (h.timer ctx id hTimer).1, (h.timer ctx id hTimer).2⟩
    · exact fun ctx hLog => Nat.lt_succ_of_lt (h.closed ctx hLog)
  refine hOpened.startTimer_finite (.step s.contexts) true fun ctx hEq => ?_
  rw [← Callback.step.inj hEq]
  exact Function.update_self ..

theorem Good.closeContext (h : Good running s) (ctx : Nat) :
    Good running (exec s (.closeContext ctx)) := by
  rw [exec]
  cases hTimer : s.timer ctx with
  | none => exact h
  | some id =>
    have hCancelled := h.cancelTimer id
    have hStays : (RetroConfig.Timers.cancelTimer s id).timer = s.timer := by
      rw [h.cancelTimer_eq id]
    have hOut : Good running { RetroConfig.Timers.cancelTimer s id with
        timer := Function.update s.timer ctx none } := by
      refine { hCancelled with step := ?_, timer := ?_ }
      · intro i info ctx' hActive hStep
        have hOld := hCancelled.step i info ctx' hActive hStep
        rw [hStays] at hOld
        have hNe : ctx' ≠ ctx := by
          rintro rfl
          obtain rfl : id = i := Option.some.inj (hTimer.symm.trans hOld)
          simp only [h.cancelTimer_eq id] at hActive
          exact (removed hActive).1 rfl
        exact (Function.update_of_ne hNe _ _).trans hOld
      · intro ctx' i hOpen
        have hOld := (removed hOpen).2
        rw [← hStays] at hOld
        exact hCancelled.timer ctx' i hOld
    refine hOut.write_of (e := .closed ctx) (fun _ _ => Event.noConfusion)
      (fun _ => Event.noConfusion) (fun _ => Event.noConfusion) (fun _ => Event.noConfusion) ?_
      trivial
    intro ctx' hEq
    obtain rfl := Event.closed.inj hEq
    refine ⟨?_, Function.update_self ..⟩
    rw [← hStays] at hTimer
    exact (hCancelled.timer ctx' id hTimer).1

theorem exec_good (h : Good running s) (c : Command) : Good running (exec s c) := by
  cases c with
  | setTimeout ctx finite =>
    rw [exec]
    split
    · exact h
    · cases finite with
      | true => exact (h.startTimer_finite _ false fun _ => Callback.noConfusion).setKey ..
      | false => exact (h.startTimer_refused _ false).setKey ..
  | setInterval ctx finite =>
    rw [exec]
    split
    · exact h
    · cases finite with
      | true => exact (h.startTimer_finite _ true fun _ => Callback.noConfusion).setKey ..
      | false => exact (h.startTimer_refused _ true).setKey ..
  | clearTimeout ctx handle =>
    rw [exec]
    split
    · exact h
    · exact (h.cancelTimer handle).setKey ..
  | openContext => exact h.openContext
  | closeContext ctx => exact h.closeContext ctx

theorem foldl_exec_good (h : Good running s) (body : List Command) :
    Good running (body.foldl exec s) := by
  induction body generalizing s with
  | nil => exact h
  | cons c body ih => exact ih (exec_good h c)

/-! ## A timer fires -/

/-- The call of a callback is written down. -/
theorem Good.invoked (h : Good none s) {id : Nat} {info : TimerInfo}
    (hActive : s.active id = some info) (hRepeats : info.repeats = true) :
    Good none (s.write (.invoked id)) := by
  have hMem : ∀ {e}, e ≠ .invoked id → (e ∈ (s.write (.invoked id)).log ↔ e ∈ s.log) :=
    fun hNe => mem_concat_of_ne hNe
  refine { h with lawful := ?_, started_lt := ?_, refused_lt := ?_, refused := ?_, pending := ?_
                  complete := ?_, count := ?_, timer := ?_, closed := ?_, running := ?_ }
  · exact Journal.each_concat.mpr ⟨h.lawful, info.repeats, h.pending id info hActive⟩
  · exact fun i r hLog => h.started_lt i r ((hMem Event.noConfusion).mp hLog)
  · exact fun i hLog => h.refused_lt i ((hMem Event.noConfusion).mp hLog)
  · exact fun i hLog => h.refused i ((hMem Event.noConfusion).mp hLog)
  · intro i info' hActive'
    refine (h.pending i info' hActive').concat Event.noConfusion fun hOnce hEq => ?_
    obtain rfl := Event.invoked.inj hEq
    obtain rfl : info = info' := Option.some.inj (hActive.symm.trans hActive')
    exact absurd (hRepeats.symm.trans hOnce) (by decide)
  · exact fun i r hPending hNot => h.complete i r (hPending.before Event.noConfusion).2
      fun hLog => hNot ((hMem Event.noConfusion).mpr hLog)
  · intro i hLt
    have hSame : .refused i ∈ (s.write (.invoked id)).log ↔ .refused i ∈ s.log :=
      hMem Event.noConfusion
    simp only [hSame]
    exact h.count i hLt
  · intro ctx i hTimer
    obtain ⟨hLt, hNot⟩ := h.timer ctx i hTimer
    exact ⟨hLt, fun hLog => hNot ((hMem Event.noConfusion).mp hLog)⟩
  · exact fun ctx hLog => h.closed ctx ((hMem Event.noConfusion).mp hLog)
  · exact fun i hRunning => (Option.some_ne_none i hRunning.symm).elim

/-- The one call of a callback begins. -/
theorem Good.invoked_once (h : Good none s) {id : Nat} {info : TimerInfo}
    (hActive : s.active id = some info) (hRepeats : info.repeats = false) :
    Good (some id) ({ s with active := Function.update s.active id none }.write (.invoked id)) := by
  have hMem : ∀ {e}, e ≠ .invoked id → (e ∈ s.log ++ [.invoked id] ↔ e ∈ s.log) :=
    fun hNe => mem_concat_of_ne hNe
  have hHeld := h.active id info hActive
  constructor
  case lawful => exact Journal.each_concat.mpr ⟨h.lawful, info.repeats, h.pending id info hActive⟩
  case started_lt => exact fun i r hLog => h.started_lt i r ((hMem Event.noConfusion).mp hLog)
  case refused_lt => exact fun i hLog => h.refused_lt i ((hMem Event.noConfusion).mp hLog)
  case timers_lt => exact h.timers_lt
  case refused => exact fun i hLog => h.refused i ((hMem Event.noConfusion).mp hLog)
  case active => exact fun i info' hEq => h.active i info' (removed hEq).2
  case held =>
    intro i info' hTimer
    rcases eq_or_ne i id with rfl | hNe
    · exact Or.inr rfl
    · refine Or.inl ((Function.update_of_ne hNe _ _).trans ?_)
      exact (h.held i info' hTimer).resolve_right fun hNone => Option.some_ne_none _ hNone.symm
  case pending =>
    intro i info' hEq
    obtain ⟨hNe, hOld⟩ := removed hEq
    exact (h.pending i info' hOld).concat Event.noConfusion
      fun _ hEq => hNe (Event.invoked.inj hEq).symm
  case complete =>
    intro i r hPending hNot
    obtain ⟨⟨-, hOnce⟩, hBefore⟩ := hPending.before Event.noConfusion
    have hNe : i ≠ id := by
      rintro rfl
      obtain rfl := started_inj h.lawful hBefore.mem (h.pending i info hActive).mem
      exact hOnce hRepeats rfl
    have hSome := h.complete i r hBefore fun hLog => hNot ((hMem Event.noConfusion).mpr hLog)
    simpa only [State.write, Function.update_of_ne hNe] using hSome
  case count =>
    intro i hLt
    have hSame : .refused i ∈ s.log ++ [.invoked id] ↔ .refused i ∈ s.log := hMem Event.noConfusion
    simp only [State.write, hSame]
    exact h.count i hLt
  case alive => exact h.alive
  case step => exact fun i info' ctx hEq hStep => h.step i info' ctx (removed hEq).2 hStep
  case timer =>
    intro ctx i hTimer
    obtain ⟨hLt, hNot⟩ := h.timer ctx i hTimer
    exact ⟨hLt, fun hLog => hNot ((hMem Event.noConfusion).mp hLog)⟩
  case closed => exact fun ctx hLog => h.closed ctx ((hMem Event.noConfusion).mp hLog)
  case running =>
    intro i hRunning
    obtain rfl := Option.some.inj hRunning
    refine ⟨Function.update_self .., fun hLog => ?_, h.timers_lt id info hHeld,
      List.mem_append_right _ (List.mem_singleton_self _), iff_of_true ?_ (Journal.since_self rfl)⟩
    · exact absurd ((h.refused id ((hMem Event.noConfusion).mp hLog)).symm.trans hHeld).symm
        (Option.some_ne_none _)
    · exact Option.isSome_iff_exists.mpr ⟨info, hHeld⟩

/-- The call begins. -/
theorem Good.begins {id : Nat} {callback : Callback} (h : Good running (s.write (.invoked id)))
    (hStep : ∀ ctx, callback = .step ctx → .closed ctx ∉ s.log) :
    Good running (enter s id callback) := by
  cases callback with
  | step ctx =>
    refine h.write trivial ?_
    intro hLog
    exact hStep ctx rfl ((mem_concat_of_ne Event.noConfusion).mp hLog)
  | timeout ctx handle => exact h
  | interval ctx => exact h

/-- The rest of a call. -/
theorem Good.invoke {id : Nat} {callback : Callback} (body : List Command)
    (hEnter : Good running (enter s id callback)) : Good running (invoke s id callback body) := by
  rw [RetroConfig.Timers.invoke]
  split
  · exact hEnter
  · split
    · exact (foldl_exec_good hEnter body).setKey ..
    · exact foldl_exec_good hEnter body

/-- The one call of a callback ends: well exactly if the timer is still there. -/
theorem Good.ends {id : Nat} (h : Good (some id) s) :
    Good none
      (match release s id with
      | none => s.write (.threw id)
      | some s => { s with timers := Function.update s.timers id none }.write (.released id)) := by
  obtain ⟨hNot, hHeld, hLt, hCalled, hIff⟩ := h.running id rfl
  have hOther : ∀ {i info}, i ≠ id → s.timers i = some info → s.active i = some info :=
    fun hNe hTimer => (h.held _ _ hTimer).resolve_right fun hEq => hNe (Option.some.inj hEq).symm
  cases hTimer : s.timers id with
  | none =>
    have hCount := h.count id hLt
    rw [hTimer, if_neg (by simp [hHeld])] at hCount
    rw [hTimer] at hIff
    have hThrew : release s id = none := if_pos (Int.le_of_eq hCount)
    have hGone : ∀ {i info}, s.timers i = some info → i ≠ id := by
      rintro i info hSome rfl
      exact Option.some_ne_none _ (hSome.symm.trans hTimer)
    rw [hThrew]
    refine { h.write (e := .threw id) trivial ⟨hCalled, fun h => ?_⟩ with held := ?_, running := ?_ }
    · exact absurd (hIff.mpr h) (by simp)
    · exact fun i info hSome => Or.inl (hOther (hGone hSome) hSome)
    · exact fun i hRunning => (Option.some_ne_none i hRunning.symm).elim
  | some info =>
    rw [hTimer] at hIff
    rw [release_eq s id (h.retainCount_eq hTimer)]
    have hWritten := h.write (e := .released id) trivial (hIff.mp rfl)
    refine { hWritten with timers_lt := ?_, refused := ?_, active := ?_, held := ?_, count := ?_
                           alive := ?_, running := ?_ }
    · exact fun i info hEq => h.timers_lt i info (removed hEq).2
    · intro i hLog
      rcases eq_or_ne i id with rfl | hNe
      · exact Function.update_self ..
      · exact (Function.update_of_ne hNe _ _).trans (hWritten.refused i hLog)
    · intro i info hActive
      have hNe : i ≠ id := by
        rintro rfl
        exact Option.some_ne_none _ (hActive.symm.trans hNot)
      exact (Function.update_of_ne hNe _ _).trans (h.active i info hActive)
    · exact fun i info hEq => Or.inl (hOther (removed hEq).1 (removed hEq).2)
    · intro i hLt
      rcases eq_or_ne i id with rfl | hNe
      · have hNever : ¬ ((Function.update s.timers i none i).isSome ∨
            .refused i ∈ (s.write (.released i)).log) := by
          rw [Function.update_self]
          rintro (hFalse | hLog)
          · exact Bool.noConfusion hFalse
          · exact hHeld ((mem_concat_of_ne Event.noConfusion).mp hLog)
        exact (Function.update_self ..).trans (if_neg hNever).symm
      · refine (Function.update_of_ne hNe _ _).trans ((hWritten.count i hLt).trans ?_)
        simp only [State.write, Function.update_of_ne hNe]
        exact if_congr Iff.rfl rfl rfl
    · exact fun i info hEq => h.alive i info (removed hEq).2
    · exact fun i hRunning => (Option.some_ne_none i hRunning.symm).elim

theorem fire_good (h : Good none s) (id : Nat) (body : List Command) :
    Good none (fire s id body) := by
  rw [fire]
  split
  · exact h
  next info hActive =>
  have hAlive : s.destroyed id = false := h.alive id info (h.active id info hActive)
  have hStep : ∀ ctx, info.callback = .step ctx → .closed ctx ∉ s.log :=
    fun ctx hEq => (h.timer ctx id (h.step id info ctx hActive hEq)).2
  split
  case isTrue hRepeats =>
    rw [if_neg (by simp [hAlive])]
    exact ((h.invoked hActive hRepeats).begins hStep).invoke body
  case isFalse hRepeats =>
    simp only [hAlive, Bool.false_eq_true, if_false]
    exact (((h.invoked_once hActive (Bool.eq_false_iff.mpr hRepeats)).begins hStep).invoke body).ends

theorem next_good (h : Good none s) (op : Op) : Good none (next s op) := by
  cases op with
  | command c => exact exec_good h c
  | fire id body => exact fire_good h id body
  | tick =>
    refine { h with alive := ?_ }
    intro id info hTimer
    have hHeld : s.timers id = some info := hTimer
    simp only [next, h.alive id info hHeld, h.retainCount_eq hHeld, Bool.false_or]
    decide

theorem run_good (h : Good none s) (ops : List Op) : Good none (run s ops) := by
  induction ops generalizing s with
  | nil => exact h
  | cons op ops ih => exact ih (next_good h op)

/-- In every run, whatever the callbacks do: no number is given to two timers; a callback is called
only while its timer is pending; `Step` does not run after the deletion of its context; and the call
of a timer that does not repeat ends with an exception exactly if it cancels its own timer. After
the run Dart has a timer for exactly those that are pending and were not refused. -/
theorem timers_lawful (ops : List Op) :
    Journal.Each Lawful (run start ops).log ∧
      ∀ id, ((run start ops).active id).isSome ↔
        (∃ repeats, Pending id repeats (run start ops).log) ∧ .refused id ∉ (run start ops).log := by
  have h := run_good start_good ops
  refine ⟨h.lawful, fun id => ⟨fun hSome => ?_, ?_⟩⟩
  · obtain ⟨info, hActive⟩ := Option.isSome_iff_exists.mp hSome
    refine ⟨⟨info.repeats, h.pending id info hActive⟩, fun hLog => ?_⟩
    exact Option.some_ne_none info ((h.active id info hActive).symm.trans (h.refused id hLog))
  · rintro ⟨⟨repeats, hPending⟩, hNot⟩
    exact h.complete id repeats hPending hNot

/-- After every run: the timers in the map are those that are active; the callback of a timer that was
started is held, exactly once, if the timer is in the map or if Dart refused to start it, and
otherwise by nothing; and the callback of a timer in the map is not destroyed. -/
theorem callbacks_balanced (ops : List Op) (id : Nat) :
    (run start ops).timers id = (run start ops).active id ∧
      (id < (run start ops).timerCount → (run start ops).retainCount id =
        if ((run start ops).timers id).isSome ∨ .refused id ∈ (run start ops).log then 1 else 0) ∧
      (((run start ops).timers id).isSome → (run start ops).destroyed id = false) := by
  have h := run_good start_good ops
  refine ⟨?_, h.count id, ?_⟩
  · cases hTimer : (run start ops).timers id with
    | some info =>
      exact ((h.held id info hTimer).resolve_right
        fun hNone => Option.some_ne_none id hNone.symm).symm
    | none =>
      cases hActive : (run start ops).active id with
      | none => rfl
      | some info => exact hTimer.symm.trans (h.active id info hActive)
  · intro hSome
    obtain ⟨info, hTimer⟩ := Option.isSome_iff_exists.mp hSome
    exact h.alive id info hTimer

end RetroConfig.Timers
