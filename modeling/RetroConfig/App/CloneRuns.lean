import RetroConfig.App.GitItem
import Mathlib.Data.List.Basic

/-!
# What holds of a clone and its dialog

`Good` holds in every state of every run (`Good.run`): the queue of callbacks has reports of the last
clone, with the callback that tells that it has ended behind them, until the item has dropped its
action.
-/

namespace RetroConfig.GitItem

open State

/-! ## Invariant -/

/-- A report of the progress of an action. -/
def Posted.Reports (p : Posted) (id : Nat) : Prop :=
  ∃ text received total, p = .onProgress id text received total

/-- The last clone has not reported how it ended: its callback is the last one, or not posted yet,
and the other clones have ended. -/
structure Working (s : State) (id : Nat) (a : GitAction) : Prop where
  last : s.started = id + 1
  status : s.status = .progress
  act : s.actions id = some a
  held : a.held = true
  listening : a.listening = true
  unset : a.thread = .running → a.error = none
  queue : ∃ reports, (∀ p ∈ reports, p.Reports id) ∧
    s.callbacks = reports ++ if a.thread = .ended then [.onComplete id] else []
  others : ∀ j b, j ≠ id → s.actions j = some b → b.thread = .ended

/-- The last clone has failed, and nothing is on its way. -/
structure Failed (s : State) : Prop where
  status : s.status = .failed
  error : ∃ id a, s.started = id + 1 ∧ s.actions id = some a ∧ a.error = some s.processText
  queue : s.callbacks = []
  ended : ∀ j b, s.actions j = some b → b.thread = .ended

/-- The last clone has returned without a message. -/
def Succeeded (s : State) : Prop :=
  ∃ id a, s.started = id + 1 ∧ s.actions id = some a ∧ a.thread = .ended ∧ a.error = none

structure Good (s : State) : Prop where
  fresh : ∀ id, s.started ≤ id → s.actions id = none
  working : ∀ id, s.action = some id → ∃ a, Working s id a
  failed : s.action = none → s.route = .shown → Failed s
  closed : s.pops = [] ∨ ∃ p, s.pops = [p] ∧ s.action = none ∧ s.route ≠ .shown ∧
    (p.result = .success → Succeeded s)

section Steps

variable {s : State} {id : Nat} {a : GitAction}

theorem Good.pops_eq_nil (h : Good s) (hOpen : s.action ≠ none ∨ s.route = .shown) : s.pops = [] := by
  rcases h.closed with hNil | ⟨p, -, hAction, hRoute, -⟩
  · exact hNil
  · rcases hOpen with hSome | hShown
    · exact absurd hAction hSome
    · exact absurd hShown hRoute

/-- Only the clone that the item waits for can run. -/
theorem Good.eq_current {j : Nat} (h : Good s) (hAction : s.action = some j)
    (hAct : s.actions id = some a) (hRun : a.thread ≠ .ended) : id = j ∧ Working s id a := by
  obtain ⟨b, hWorking⟩ := h.working j hAction
  by_cases hEq : id = j
  · subst hEq
    obtain rfl := Option.some.inj (hWorking.act.symm.trans hAct)
    exact ⟨rfl, hWorking⟩
  · exact absurd (hWorking.others id a hEq hAct) hRun

theorem Good.ended (h : Good s) (hAction : s.action = none) (hShown : s.route = .shown)
    (hAct : s.actions id = some a) : a.thread = .ended :=
  (h.failed hAction hShown).ended id a hAct

@[simp] theorem put_actions (s : State) (id : Nat) (b : GitAction) (j : Nat) :
    (s.put id b).actions j = if j = id then some b else s.actions j := by
  simp only [put, Function.update_apply]

theorem Succeeded.put {b : GitAction} (h : Succeeded s) (hAct : s.actions id = some a)
    (hEnded : a.thread = .ended → b.thread = .ended ∧ b.error = a.error) :
    Succeeded (s.put id b) := by
  obtain ⟨j, c, hLast, hc, hThread, hError⟩ := h
  by_cases hEq : j = id
  · subst hEq
    obtain rfl := Option.some.inj (hc.symm.trans hAct)
    obtain ⟨hThread', hError'⟩ := hEnded hThread
    exact ⟨j, b, hLast, by simp, hThread', hError'.trans hError⟩
  · exact ⟨j, c, hLast, by simp [hEq, hc], hThread, hError⟩

/-- An action changes. It stays ended once it is, and the one that the item has stays usable. -/
theorem Good.put {b : GitAction} (h : Good s) (hAct : s.actions id = some a)
    (hEnded : a.thread = .ended → b.thread = .ended ∧ b.error = a.error)
    (hCurrent : s.action = some id → b.held = true ∧ b.listening = true ∧
      (b.thread = .ended → a.thread = .ended) ∧ (b.thread = .running → b.error = none)) :
    Good (s.put id b) := by
  have hEndedAt : ∀ j c, (∀ d, s.actions j = some d → d.thread = .ended) →
      (s.put id b).actions j = some c → c.thread = .ended := by
    intro j c hAll hc
    rw [put_actions] at hc
    by_cases hEq : j = id
    · subst hEq
      rw [if_pos rfl] at hc
      obtain rfl := Option.some.inj hc
      exact (hEnded (hAll a hAct)).1
    · rw [if_neg hEq] at hc
      exact hAll c hc
  constructor
  case fresh =>
    intro j hj
    have hNe : j ≠ id := by
      rintro rfl
      rw [h.fresh j hj] at hAct
      cases hAct
    rw [put_actions, if_neg hNe]
    exact h.fresh j hj
  case working =>
    intro j hAction
    obtain ⟨c, hWorking⟩ := h.working j hAction
    by_cases hEq : j = id
    · subst hEq
      obtain rfl := Option.some.inj (hWorking.act.symm.trans hAct)
      obtain ⟨hHeld, hListening, hThread, hUnset⟩ := hCurrent hAction
      have hIff : b.thread = .ended ↔ c.thread = .ended := ⟨hThread, fun hc => (hEnded hc).1⟩
      refine ⟨b, hWorking.last, hWorking.status, by simp, hHeld, hListening, hUnset, ?_, ?_⟩
      · obtain ⟨reports, hReports, hQueue⟩ := hWorking.queue
        exact ⟨reports, hReports, by simp only [hIff]; exact hQueue⟩
      · intro k d hk hd
        exact hEndedAt k d (fun d hd => hWorking.others k d hk hd) hd
    · refine ⟨c, hWorking.last, hWorking.status, ?_, hWorking.held, hWorking.listening,
        hWorking.unset, hWorking.queue, ?_⟩
      · rw [put_actions, if_neg hEq]
        exact hWorking.act
      · intro k d hk hd
        exact hEndedAt k d (fun d hd => hWorking.others k d hk hd) hd
  case failed =>
    intro hAction hShown
    have hFailed := h.failed hAction hShown
    obtain ⟨j, c, hLast, hc, hError⟩ := hFailed.error
    refine ⟨hFailed.status, ?_, hFailed.queue, fun k d hd => hEndedAt k d (hFailed.ended k) hd⟩
    by_cases hEq : j = id
    · subst hEq
      obtain rfl := Option.some.inj (hc.symm.trans hAct)
      exact ⟨j, b, hLast, by simp, (hEnded (hFailed.ended j c hAct)).2.trans hError⟩
    · exact ⟨j, c, hLast, by simp [hEq, hc], hError⟩
  case closed =>
    rcases h.closed with hNil | ⟨p, hPops, hAction, hRoute, hSuccess⟩
    · exact .inl hNil
    · exact .inr ⟨p, hPops, hAction, hRoute, fun hp => (hSuccess hp).put hAct hEnded⟩

/-! ## The thread of a clone -/

theorem Good.report (h : Good s) (hAct : s.actions id = some a) (hRun : a.thread = .running)
    {p : Posted} (hp : p.Reports id) : Good (s.doOnMainThread p) := by
  have hNot : a.thread ≠ .ended := by simp [hRun]
  refine ⟨h.fresh, ?_, ?_, h.closed⟩
  · intro j hAction
    obtain ⟨rfl, hWorking⟩ := h.eq_current hAction hAct hNot
    obtain ⟨reports, hReports, hQueue⟩ := hWorking.queue
    refine ⟨a, { hWorking with queue := ⟨reports ++ [p], ?_, ?_⟩ }⟩
    · simp only [List.mem_append, List.mem_singleton]
      rintro q (hq | rfl)
      · exact hReports q hq
      · exact hp
    · rw [if_neg hNot] at hQueue ⊢
      simp [doOnMainThread, hQueue]
  · intro hAction hShown
    exact absurd (h.ended hAction hShown hAct) hNot

theorem Good.fetchProgress (h : Good s) (id received total : Nat) :
    Good (s.fetchProgress id received total) := by
  unfold State.fetchProgress
  cases hAct : s.actions id with
  | none => exact h
  | some a =>
    dsimp only
    split
    case isTrue hIf => exact h.report hAct hIf.1 ⟨_, _, _, rfl⟩
    case isFalse => exact h

theorem Good.checkoutProgress (h : Good s) (id completed total : Nat) :
    Good (s.checkoutProgress id completed total) := by
  unfold State.checkoutProgress
  cases hAct : s.actions id with
  | none => exact h
  | some a =>
    dsimp only
    split
    case isTrue hIf => exact h.report hAct hIf.1 ⟨_, _, _, rfl⟩
    case isFalse => exact h

theorem Good.returned (h : Good s) (id : Nat) (err : Option String) : Good (s.returned id err) := by
  unfold State.returned
  cases hAct : s.actions id with
  | none => exact h
  | some a =>
    dsimp only
    split
    case isFalse => exact h
    case isTrue hRun =>
      have hNot : a.thread ≠ .ended := by simp [hRun]
      split
      case isTrue hAlive =>
        apply h.put hAct
        · intro hEnded
          exact absurd hEnded hNot
        · intro hAction
          obtain ⟨-, hWorking⟩ := h.eq_current hAction hAct hNot
          exact ⟨hWorking.held, hWorking.listening, nofun, nofun⟩
      case isFalse hDead =>
        apply h.put hAct
        · intro hEnded
          exact absurd hEnded hNot
        · intro hAction
          obtain ⟨-, hWorking⟩ := h.eq_current hAction hAct hNot
          -- the object of the item keeps the action alive
          exact absurd (by simp [alive, hWorking.held]) hDead

theorem Good.finish (h : Good s) (id : Nat) : Good (s.finish id) := by
  unfold State.finish
  cases hAct : s.actions id with
  | none => exact h
  | some a =>
    dsimp only
    split
    case isFalse => exact h
    case isTrue hFinished =>
      have hNot : a.thread ≠ .ended := by simp [hFinished]
      constructor
      case fresh =>
        intro j hj
        have hNe : j ≠ id := by
          rintro rfl
          rw [h.fresh j hj] at hAct
          cases hAct
        show (s.put id _).actions j = none
        rw [put_actions, if_neg hNe]
        exact h.fresh j hj
      case working =>
        intro j hAction
        obtain ⟨rfl, hWorking⟩ := h.eq_current hAction hAct hNot
        obtain ⟨reports, hReports, hQueue⟩ := hWorking.queue
        refine ⟨{ a with thread := .ended }, hWorking.last, hWorking.status,
          by simp [doOnMainThread], hWorking.held, hWorking.listening, nofun, ⟨reports, hReports, ?_⟩,
          ?_⟩
        · rw [if_neg hNot] at hQueue
          simp [doOnMainThread, State.put, hQueue]
        · intro k b hk hb
          simp only [doOnMainThread, put_actions, if_neg hk] at hb
          exact hWorking.others k b hk hb
      case failed =>
        intro hAction hShown
        exact absurd (h.ended hAction hShown hAct) hNot
      case closed =>
        rcases h.closed with hNil | ⟨p, hPops, hAction, hRoute, hSuccess⟩
        · exact .inl hNil
        · refine .inr ⟨p, hPops, hAction, hRoute, fun hp => ?_⟩
          exact (hSuccess hp).put hAct (fun hEnded => absurd hEnded hNot)

/-! ## The main thread -/

/-- The dialog is closed and the item has dropped its action: what is posted only changes a text. -/
theorem Good.of_closed {t : State} (h : Good s) (hAction : s.action = none)
    (hRoute : s.route ≠ .shown) (hStarted : t.started = s.started) (hActions : t.actions = s.actions)
    (hAction' : t.action = s.action) (hRoute' : t.route = s.route) (hPops : t.pops = s.pops) :
    Good t := by
  refine ⟨?_, ?_, ?_, ?_⟩
  · rw [hStarted, hActions]
    exact h.fresh
  · intro id hSome
    rw [hAction', hAction] at hSome
    cases hSome
  · intro _ hShown
    exact absurd (hRoute'.symm.trans hShown) hRoute
  · simp only [Succeeded, hStarted, hActions, hAction', hRoute', hPops]
    exact h.closed

theorem progress_frame (s : State) (text : String) :
    (s.progress text).started = s.started ∧ (s.progress text).actions = s.actions ∧
      (s.progress text).action = s.action ∧ (s.progress text).route = s.route ∧
      (s.progress text).pops = s.pops ∧ (s.progress text).status = s.status ∧
      (s.progress text).callbacks = s.callbacks := by
  unfold progress
  split <;> exact ⟨rfl, rfl, rfl, rfl, rfl, rfl, rfl⟩

/-- The clone that the item waits for has reported something. -/
theorem Good.progress {rest : List Posted} (h : Good s) (hAction : s.action = some id)
    (hWorking : Working { s with callbacks := rest } id a) (text : String) :
    Good ({ s with callbacks := rest }.progress text) := by
  obtain ⟨hStarted, hActions, hItem, hRoute, hPops, hStatus, hCallbacks⟩ :=
    progress_frame { s with callbacks := rest } text
  refine ⟨?_, ?_, ?_, ?_⟩
  · rw [hStarted, hActions]
    exact h.fresh
  · intro j hj
    rw [hItem] at hj
    obtain rfl : id = j := Option.some.inj (hAction.symm.trans hj)
    exact ⟨a, hStarted.trans hWorking.last, hStatus.trans hWorking.status,
      by rw [hActions]; exact hWorking.act, hWorking.held, hWorking.listening, hWorking.unset,
      by rw [hCallbacks]; exact hWorking.queue, by rw [hActions]; exact hWorking.others⟩
  · intro hNone
    rw [hItem, hAction] at hNone
    cases hNone
  · exact .inl (hPops.trans (h.pops_eq_nil (.inl (by simp [hAction]))))

/-- The item has dropped its action, and the dialog pops for the first time. -/
theorem good_pop (hFresh : ∀ j, s.started ≤ j → s.actions j = none) (hAction : s.action = none)
    (hPops : s.pops = []) (result : ProgressResult) (hSuccess : result = .success → Succeeded s) :
    Good (s.pop result) := by
  have hNone : ∀ j, s.action ≠ some j := by simp [hAction]
  unfold State.pop
  split
  case h_1 =>
    exact ⟨hFresh, fun j hj => absurd hj (hNone j), fun _ => nofun,
      .inr ⟨⟨true, result⟩, by simp [hPops], hAction, nofun, hSuccess⟩⟩
  case h_2 hLeaving =>
    have hNot : s.route ≠ .shown := by simp [hLeaving]
    exact ⟨hFresh, fun j hj => absurd hj (hNone j), fun _ hShown => absurd hShown hNot,
      .inr ⟨⟨false, result⟩, by simp [hPops], hAction, hNot, hSuccess⟩⟩
  case h_3 hDisposed =>
    have hNot : s.route ≠ .shown := by simp [hDisposed]
    exact ⟨hFresh, fun j hj => absurd hj (hNone j), fun _ hShown => absurd hShown hNot, .inl hPops⟩

/-- It has reported how it ended, and nothing else is on its way. -/
theorem good_completed (hFresh : ∀ j, s.started ≤ j → s.actions j = none)
    (hAction : s.action = some id) (hAct : s.actions id = some a) (hLast : s.started = id + 1)
    (hEnded : ∀ j b, s.actions j = some b → b.thread = .ended) (hQueue : s.callbacks = [])
    (hPops : s.pops = []) : Good s.completed := by
  have hError : s.error id = a.error := by rw [State.error, hAct]; rfl
  unfold State.completed
  rw [hAction]
  dsimp only
  rw [hError]
  cases hMsg : a.error with
  | some msg =>
    dsimp only
    unfold State.fail
    split
    case isTrue hDisposed =>
      exact ⟨hFresh, nofun, fun _ hShown => absurd (hDisposed.symm.trans hShown) nofun, .inl hPops⟩
    case isFalse =>
      exact ⟨hFresh, nofun, fun _ _ => ⟨rfl, ⟨id, a, hLast, hAct, hMsg⟩, hQueue, hEnded⟩, .inl hPops⟩
  | none =>
    have hSuccess : Succeeded { s with action := none, status := .done } :=
      ⟨id, a, hLast, hAct, hEnded id a hAct, hMsg⟩
    exact good_pop (s := { s with action := none, status := .done }) hFresh rfl hPops .success
      fun _ => hSuccess

theorem completed_of_none (h : s.action = none) : s.completed = s := by
  unfold State.completed
  rw [h]

theorem call_onProgress (s : State) (id : Nat) (text : String) (received total : Nat) :
    s.call (.onProgress id text received total) =
      if s.listening id = true then s.progress (title text received total) else s := rfl

theorem call_onComplete (s : State) (id : Nat) :
    s.call (.onComplete id) = if s.listening id = true then s.completed else s := rfl

/-- A callback that the clone has posted which the item waits for. -/
theorem Good.call_current {rest : List Posted} {p : Posted} (h : Good s)
    (hAction : s.action = some id) (hQueue : s.callbacks = p :: rest) :
    Good ({ s with callbacks := rest }.call p) := by
  obtain ⟨a, hWorking⟩ := h.working id hAction
  have hListening : { s with callbacks := rest }.listening id = true := by
    unfold State.listening
    rw [hWorking.act]
    exact hWorking.listening
  obtain ⟨reports, hReports, hShape⟩ := hWorking.queue
  rw [hQueue] at hShape
  cases reports with
  | cons q reports =>
    obtain ⟨hHead, hRest⟩ := List.cons.inj hShape
    obtain ⟨text, received, total, rfl⟩ := hReports q List.mem_cons_self
    have hNext : Working { s with callbacks := rest } id a :=
      { hWorking with queue := ⟨reports, fun q hq => hReports q (List.mem_cons_of_mem _ hq), hRest⟩ }
    rw [hHead, call_onProgress, if_pos hListening]
    exact h.progress hAction hNext _
  | nil =>
    by_cases hEnded : a.thread = .ended
    · rw [if_pos hEnded] at hShape
      obtain ⟨rfl, rfl⟩ := List.cons.inj hShape
      rw [call_onComplete, if_pos hListening]
      refine good_completed (s := { s with callbacks := [] }) h.fresh hAction hWorking.act
        hWorking.last (fun j b hb => ?_) rfl (h.pops_eq_nil (.inl (by simp [hAction])))
      by_cases hEq : j = id
      · subst hEq
        obtain rfl := Option.some.inj (hWorking.act.symm.trans hb)
        exact hEnded
      · exact hWorking.others j b hEq hb
    · rw [if_neg hEnded] at hShape
      cases hShape

/-- A callback that is called after the item has dropped its action. -/
theorem Good.call_late (h : Good s) (hAction : s.action = none) (hRoute : s.route ≠ .shown)
    (rest : List Posted) (p : Posted) : Good ({ s with callbacks := rest }.call p) := by
  have hRest : Good { s with callbacks := rest } := h.of_closed hAction hRoute rfl rfl rfl rfl rfl
  cases p with
  | onProgress id text received total =>
    rw [call_onProgress]
    split
    case isFalse => exact hRest
    case isTrue =>
      obtain ⟨hStarted, hActions, hItem, hRoute', hPops, -⟩ :=
        progress_frame { s with callbacks := rest } (title text received total)
      exact h.of_closed hAction hRoute hStarted hActions hItem hRoute' hPops
  | onComplete id =>
    rw [call_onComplete, completed_of_none (s := { s with callbacks := rest }) hAction, ite_self]
    exact hRest

theorem Good.onSignal (h : Good s) : Good s.onSignal := by
  unfold State.onSignal
  cases hQueue : s.callbacks with
  | nil => exact h
  | cons p rest =>
    dsimp only
    cases hAction : s.action with
    | some id =>
      have hNext := h.call_current hAction hQueue
      rwa [hAction] at hNext
    | none =>
      have hRoute : s.route ≠ .shown := by
        intro hShown
        rw [(h.failed hAction hShown).queue] at hQueue
        cases hQueue
      have hNext := h.call_late hAction hRoute rest p
      rwa [hAction] at hNext

/-! ## The user, and release -/

theorem Good.onCancel (h : Good s) : Good s.onCancel := by
  unfold State.onCancel
  split
  case isFalse => exact h
  case isTrue hIf =>
    have hPops := h.pops_eq_nil (.inr hIf.1)
    cases hAction : s.action with
    | none =>
      have hCancel : s.cancel = s := by
        unfold State.cancel
        rw [hAction]
      rw [hCancel]
      exact good_pop h.fresh hAction hPops .failed nofun
    | some id =>
      obtain ⟨a, hWorking⟩ := h.working id hAction
      have hCancel : s.cancel = { s.put id { a with isCancel := true } with action := none } := by
        unfold State.cancel
        rw [hAction]
        dsimp only
        rw [hWorking.act]
      rw [hCancel]
      refine good_pop (s := { s.put id { a with isCancel := true } with action := none })
        (fun j hj => ?_) rfl hPops .failed nofun
      have hNe : j ≠ id := by
        have hLast := hWorking.last
        change s.started ≤ j at hj
        omega
      show (s.put id _).actions j = none
      rw [put_actions, if_neg hNe]
      exact h.fresh j hj

theorem Good.onRetry (h : Good s) (isCancel : Bool) : Good (s.onRetry isCancel) := by
  unfold State.onRetry
  split
  case isFalse => exact h
  case isTrue hIf =>
    obtain ⟨hShown, hStatus⟩ := hIf
    have hAction : s.action = none := by
      cases hAction : s.action with
      | none => rfl
      | some id =>
        obtain ⟨a, hWorking⟩ := h.working id hAction
        exact absurd (hWorking.status.symm.trans hStatus) nofun
    have hFailed := h.failed hAction hShown
    refine ⟨fun j hj => ?_, fun j hj => ?_, nofun, .inl (h.pops_eq_nil (.inr hShown))⟩
    · change s.started + 1 ≤ j at hj
      simp only [start, Function.update_apply]
      rw [if_neg (by omega)]
      exact h.fresh j (by omega)
    · obtain rfl : s.started = j := Option.some.inj hj
      refine ⟨⟨.running, isCancel, none, true, true⟩, rfl, rfl, by simp [start], rfl, rfl,
        fun _ => rfl, ⟨[], nofun, by simp [start, hFailed.queue]⟩, fun k b hk hb => ?_⟩
      simp only [start, Function.update_apply, if_neg hk] at hb
      exact hFailed.ended k b hb

theorem Good.back (h : Good s) : Good s.back := by
  unfold State.back
  split
  case isFalse => exact h
  case isTrue hShown =>
    refine ⟨h.fresh, fun id hAction => ?_, fun _ => nofun, .inl (h.pops_eq_nil (.inr hShown))⟩
    obtain ⟨a, hWorking⟩ := h.working id hAction
    exact ⟨a, { hWorking with }⟩

theorem Good.dispose (h : Good s) : Good s.dispose := by
  unfold State.dispose
  split
  case isFalse => exact h
  case isTrue hLeaving =>
    refine ⟨h.fresh, fun id hAction => ?_, fun _ => nofun, ?_⟩
    · obtain ⟨a, hWorking⟩ := h.working id hAction
      exact ⟨a, { hWorking with }⟩
    · rcases h.closed with hNil | ⟨p, hPops, hAction, -, hSuccess⟩
      · exact .inl hNil
      · exact .inr ⟨p, hPops, hAction, nofun, hSuccess⟩

theorem Good.destroy (h : Good s) (id : Nat) : Good (s.destroy id) := by
  unfold State.destroy
  cases hAct : s.actions id with
  | none => exact h
  | some a =>
    dsimp only
    split
    case isTrue => exact h
    case isFalse hNot =>
      exact h.put hAct (fun hEnded => ⟨hEnded, rfl⟩) (fun hAction => absurd hAction hNot)

theorem Good.destroyCallbacks (h : Good s) (id : Nat) : Good (s.destroyCallbacks id) := by
  unfold State.destroyCallbacks
  cases hAct : s.actions id with
  | none => exact h
  | some a =>
    dsimp only
    split
    case isTrue => exact h
    case isFalse hNot =>
      refine h.put hAct (fun hEnded => ⟨hEnded, rfl⟩) (fun hAction => ?_)
      obtain ⟨b, hWorking⟩ := h.working id hAction
      obtain rfl := Option.some.inj (hWorking.act.symm.trans hAct)
      exact absurd hWorking.held hNot

theorem Good.next (h : Good s) (op : Op) : Good (s.next op) := by
  cases op with
  | fetchProgress id received total => exact h.fetchProgress id received total
  | checkoutProgress id completed total => exact h.checkoutProgress id completed total
  | returned id err => exact h.returned id err
  | finish id => exact h.finish id
  | onSignal => exact h.onSignal
  | onCancel => exact h.onCancel
  | onRetry isCancel => exact h.onRetry isCancel
  | back => exact h.back
  | dispose => exact h.dispose
  | destroy id => exact h.destroy id
  | destroyCallbacks id => exact h.destroyCallbacks id

theorem Good.run (h : Good s) (ops : List Op) : Good (s.run ops) := by
  induction ops generalizing s with
  | nil => exact h
  | cons op ops ih => exact ih (h.next op)

theorem good_clone (url : String) (isCancel : Bool) : Good (clone url isCancel) := by
  refine ⟨fun j hj => ?_, fun j hj => ?_, nofun, .inl rfl⟩
  · change 0 + 1 ≤ j at hj
    simp only [clone, start, Function.update_apply]
    rw [if_neg (by omega)]
  · obtain rfl : 0 = j := Option.some.inj hj
    refine ⟨⟨.running, isCancel, none, true, true⟩, rfl, rfl, by simp [clone, start], rfl, rfl,
      fun _ => rfl, ⟨[], nofun, rfl⟩, fun k b hk hb => ?_⟩
    simp only [clone, start, Function.update_apply, if_neg hk] at hb
    cases hb

end Steps

end RetroConfig.GitItem
