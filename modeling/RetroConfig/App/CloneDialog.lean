import RetroConfig.App.CloneRuns

/-!
# What the dialog of a clone shows

Whatever the order in which the threads of the clones, the main thread and the user take their
steps, the dialog shows the progress of the last clone until that has reported, and then its error
until the user acts (`dialog_moves`); the report is not lost (`outcome_delivered`); and there is at
most one call of `Navigator.pop` (`pop_once`).
-/

namespace RetroConfig.GitItem

open State

section Steps

variable {s : State} {id : Nat} {a : GitAction}

/-! ## What is shown -/

/-- What the dialog shows. -/
inductive Screen where
  | working (text : String)
  | failed (message : String)
  | closed

def screen (s : State) : Screen :=
  match s.route, s.status with
  | .shown, .progress => .working s.processText
  | .shown, .failed => .failed s.processText
  | _, _ => .closed

/-- What an operation may do to it: only what a clone has posted changes a dialog that works, and only
the user one that has failed. -/
def Screen.Moves (url : String) (op : Op) (x y : Screen) : Prop :=
  match op, x with
  | .onCancel, _ | .back, _ => y = .closed
  | .onRetry _, .failed _ => y = .working (defaultText url)
  | .onSignal, .working _ => True
  | _, _ => y = x

/-- The threads and the release of objects leave alone what the user sees. -/
structure Quiet (s t : State) : Prop where
  action : t.action = s.action
  status : t.status = s.status
  processText : t.processText = s.processText
  route : t.route = s.route
  pops : t.pops = s.pops

theorem Quiet.screen_eq {t : State} (h : Quiet s t) : screen t = screen s := by
  simp only [screen, h.route, h.status, h.processText]

theorem quiet_fetchProgress (s : State) (id received total : Nat) :
    Quiet s (s.fetchProgress id received total) := by
  unfold State.fetchProgress
  cases s.actions id with
  | none => exact ⟨rfl, rfl, rfl, rfl, rfl⟩
  | some a =>
    dsimp only
    split <;> exact ⟨rfl, rfl, rfl, rfl, rfl⟩

theorem quiet_checkoutProgress (s : State) (id completed total : Nat) :
    Quiet s (s.checkoutProgress id completed total) := by
  unfold State.checkoutProgress
  cases s.actions id with
  | none => exact ⟨rfl, rfl, rfl, rfl, rfl⟩
  | some a =>
    dsimp only
    split <;> exact ⟨rfl, rfl, rfl, rfl, rfl⟩

theorem quiet_returned (s : State) (id : Nat) (err : Option String) :
    Quiet s (s.returned id err) := by
  unfold State.returned
  cases s.actions id with
  | none => exact ⟨rfl, rfl, rfl, rfl, rfl⟩
  | some a =>
    dsimp only
    split
    case isFalse => exact ⟨rfl, rfl, rfl, rfl, rfl⟩
    case isTrue => split <;> exact ⟨rfl, rfl, rfl, rfl, rfl⟩

theorem quiet_finish (s : State) (id : Nat) : Quiet s (s.finish id) := by
  unfold State.finish
  cases s.actions id with
  | none => exact ⟨rfl, rfl, rfl, rfl, rfl⟩
  | some a =>
    dsimp only
    split <;> exact ⟨rfl, rfl, rfl, rfl, rfl⟩

theorem quiet_destroy (s : State) (id : Nat) : Quiet s (s.destroy id) := by
  unfold State.destroy
  cases s.actions id with
  | none => exact ⟨rfl, rfl, rfl, rfl, rfl⟩
  | some a =>
    dsimp only
    split <;> exact ⟨rfl, rfl, rfl, rfl, rfl⟩

theorem quiet_destroyCallbacks (s : State) (id : Nat) : Quiet s (s.destroyCallbacks id) := by
  unfold State.destroyCallbacks
  cases s.actions id with
  | none => exact ⟨rfl, rfl, rfl, rfl, rfl⟩
  | some a =>
    dsimp only
    split <;> exact ⟨rfl, rfl, rfl, rfl, rfl⟩

theorem screen_of_not_shown (h : s.route ≠ .shown) : screen s = .closed := by
  unfold screen
  split
  case h_1 hShown _ => exact absurd hShown h
  case h_2 hShown _ => exact absurd hShown h
  case h_3 => rfl

/-- An open dialog works or has failed. -/
theorem Good.screen_cases (h : Good s) (hShown : s.route = .shown) :
    (s.status = .progress ∧ screen s = .working s.processText) ∨
      (Failed s ∧ screen s = .failed s.processText) := by
  cases hAction : s.action with
  | some id =>
    obtain ⟨a, hWorking⟩ := h.working id hAction
    exact .inl ⟨hWorking.status, by simp only [screen, hShown, hWorking.status]⟩
  | none =>
    have hFailed := h.failed hAction hShown
    exact .inr ⟨hFailed, by simp only [screen, hShown, hFailed.status]⟩

theorem route_pop (s : State) (result : ProgressResult) : (s.pop result).route ≠ .shown := by
  unfold State.pop
  split
  case h_1 => exact nofun
  case h_2 hLeaving => exact fun hShown => absurd (hLeaving.symm.trans hShown) nofun
  case h_3 hDisposed => exact fun hShown => absurd (hDisposed.symm.trans hShown) nofun

theorem route_call (h : s.route ≠ .shown) (p : Posted) : (s.call p).route ≠ .shown := by
  cases p with
  | onProgress id text received total =>
    rw [call_onProgress]
    split
    case isTrue => rwa [(progress_frame s _).2.2.2.1]
    case isFalse => exact h
  | onComplete id =>
    rw [call_onComplete]
    split
    case isFalse => exact h
    case isTrue =>
      unfold State.completed
      cases s.action with
      | none => exact h
      | some id =>
        dsimp only
        cases s.error id with
        | none => exact route_pop _ _
        | some msg =>
          dsimp only
          unfold State.fail
          split <;> exact h

theorem Good.moves_onSignal (h : Good s) :
    Screen.Moves s.url .onSignal (screen s) (screen s.onSignal) := by
  by_cases hShown : s.route = .shown
  · rcases h.screen_cases hShown with ⟨-, hScreen⟩ | ⟨hFailed, hScreen⟩
    · rw [hScreen]
      trivial
    · have hSame : s.onSignal = s := by
        unfold State.onSignal
        rw [hFailed.queue]
      rw [hScreen, hSame]
      exact hScreen
  · rw [screen_of_not_shown hShown]
    show screen s.onSignal = .closed
    unfold State.onSignal
    cases s.callbacks with
    | nil => exact screen_of_not_shown hShown
    | cons p rest =>
      have hNot : { s with callbacks := rest }.route ≠ .shown := hShown
      exact screen_of_not_shown (route_call hNot p)

theorem Good.moves (h : Good s) (op : Op) :
    Screen.Moves s.url op (screen s) (screen (s.next op)) := by
  cases op with
  | fetchProgress id received total => exact (quiet_fetchProgress s id received total).screen_eq
  | checkoutProgress id completed total =>
    exact (quiet_checkoutProgress s id completed total).screen_eq
  | returned id err => exact (quiet_returned s id err).screen_eq
  | finish id => exact (quiet_finish s id).screen_eq
  | destroy id => exact (quiet_destroy s id).screen_eq
  | destroyCallbacks id => exact (quiet_destroyCallbacks s id).screen_eq
  | onSignal => exact h.moves_onSignal
  | onCancel =>
    show screen s.onCancel = .closed
    apply screen_of_not_shown
    unfold State.onCancel
    split
    case isTrue => exact route_pop _ _
    case isFalse hNot =>
      intro hShown
      rcases h.screen_cases hShown with ⟨hStatus, -⟩ | ⟨hFailed, -⟩
      · exact hNot ⟨hShown, by simp [hStatus]⟩
      · exact hNot ⟨hShown, by simp [hFailed.status]⟩
  | onRetry isCancel =>
    show Screen.Moves s.url (.onRetry isCancel) (screen s) (screen (s.onRetry isCancel))
    unfold State.onRetry
    split
    case isTrue hIf =>
      have hScreen : screen s = .failed s.processText := by simp only [screen, hIf.1, hIf.2]
      rw [hScreen]
      show screen _ = .working _
      simp only [screen, start, hIf.1]
    case isFalse hNot =>
      by_cases hShown : s.route = .shown
      · rcases h.screen_cases hShown with ⟨-, hScreen⟩ | ⟨hFailed, -⟩
        · rw [hScreen]
          rfl
        · exact absurd ⟨hShown, hFailed.status⟩ hNot
      · rw [screen_of_not_shown hShown]
        rfl
  | back =>
    show screen s.back = .closed
    apply screen_of_not_shown
    unfold State.back
    split
    case isTrue => exact Route.noConfusion
    case isFalse hNot => exact hNot
  | dispose =>
    show screen s.dispose = screen s
    unfold State.dispose
    split
    case isFalse => rfl
    case isTrue hLeaving =>
      rw [screen_of_not_shown (s := s) (by simp [hLeaving])]
      exact screen_of_not_shown Route.noConfusion

/-! ## The report arrives -/

theorem run_append (s : State) (ops rest : List Op) : s.run (ops ++ rest) = (s.run ops).run rest :=
  List.foldl_append

/-- The reports before the last callback change only the text. -/
theorem run_reports {reports : List Posted} {p : Posted} (hReports : ∀ q ∈ reports, q.Reports id)
    (hQueue : s.callbacks = reports ++ [p]) (hListening : s.listening id = true) :
    ∃ text, s.run (List.replicate reports.length .onSignal) =
      { s with callbacks := [p], processText := text } := by
  induction reports generalizing s with
  | nil =>
    refine ⟨s.processText, ?_⟩
    rw [← hQueue.trans (List.nil_append [p])]
    rfl
  | cons q reports ih =>
    obtain ⟨text, received, total, rfl⟩ := hReports q List.mem_cons_self
    have hNext : s.onSignal =
        { s with callbacks := reports ++ [p] }.progress (title text received total) := by
      unfold State.onSignal
      rw [hQueue, List.cons_append]
      dsimp only
      rw [call_onProgress]
      exact if_pos hListening
    obtain ⟨shown, hProgress⟩ : ∃ shown, s.onSignal =
        { s with callbacks := reports ++ [p], processText := shown } := by
      rw [hNext]
      unfold State.progress
      split
      · exact ⟨s.processText, rfl⟩
      · exact ⟨_, rfl⟩
    obtain ⟨last, hRun⟩ := ih (s := { s with callbacks := reports ++ [p], processText := shown })
      (fun q hq => hReports q (List.mem_cons_of_mem _ hq)) rfl hListening
    refine ⟨last, ?_⟩
    rw [List.length_cons, List.replicate_succ]
    show s.onSignal.run _ = _
    rw [hProgress, hRun]

/-- With what a clone returns, or has returned. -/
def GitAction.outcome (a : GitAction) (err : Option String) : Option String :=
  if a.thread = .running then err else a.error

/-- The dialog shows the message, or has been closed with success. -/
def Reported (t : State) : Option String → Prop
  | some msg => screen t = .failed msg
  | none => t.route = .leaving ∧ t.pops = [⟨true, .success⟩]

/-- The callback of the last clone is called. -/
theorem reported_completed (hShown : s.route = .shown) (hAction : s.action = some id)
    (hAct : s.actions id = some a) (hPops : s.pops = []) : Reported s.completed a.error := by
  have hError : s.error id = a.error := by rw [State.error, hAct]; rfl
  unfold State.completed
  rw [hAction]
  dsimp only
  rw [hError]
  cases a.error with
  | some msg =>
    show screen (s.fail msg) = .failed msg
    unfold State.fail
    rw [if_neg (by simp [hShown])]
    simp only [screen, hShown]
  | none =>
    show s.complete.route = .leaving ∧ s.complete.pops = [⟨true, .success⟩]
    simp [State.complete, State.pop, hShown, hPops]

/-- The function of the last clone returns, and its thread ends. -/
theorem Working.ends (h : Working s id a) (err : Option String) :
    ∃ reports b, (∀ p ∈ reports, p.Reports id) ∧ reports.length ≤ s.callbacks.length ∧
      b.error = a.outcome err ∧ b.listening = true ∧
      s.run [.returned id err, .finish id] =
        { s.put id b with callbacks := reports ++ [.onComplete id] } := by
  obtain ⟨reports, hReports, hQueue⟩ := h.queue
  have hLength : reports.length ≤ s.callbacks.length := by simp [hQueue]
  have hSame : Function.update s.actions id (some a) = s.actions := by
    rw [← h.act, Function.update_eq_self]
  show ∃ reports b, _ ∧ _ ∧ _ ∧ _ ∧ (s.returned id err).finish id = _
  cases hThread : a.thread with
  | running =>
    have hReturned : s.returned id err = s.put id { a with thread := .finished, error := err } := by
      unfold State.returned
      rw [h.act]
      dsimp only
      rw [if_pos hThread, if_pos (by simp [alive, h.held]), h.unset hThread, Option.or_none]
    have hNext : (s.put id { a with thread := .finished, error := err }).finish id =
        { s.put id { a with thread := .ended, error := err } with
          callbacks := s.callbacks ++ [.onComplete id] } := by
      simp [State.finish, State.put, doOnMainThread]
    refine ⟨reports, { a with thread := .ended, error := err }, hReports, hLength, ?_, h.listening,
      ?_⟩
    · rw [GitAction.outcome, if_pos hThread]
    · rw [hReturned, hNext, hQueue, if_neg (by simp [hThread]), List.append_nil]
  | finished =>
    have hReturned : s.returned id err = s := by
      unfold State.returned
      rw [h.act]
      dsimp only
      rw [if_neg (by simp [hThread])]
    have hNext : s.finish id =
        { s.put id { a with thread := .ended } with
          callbacks := s.callbacks ++ [.onComplete id] } := by
      unfold State.finish
      rw [h.act]
      dsimp only
      rw [if_pos hThread]
      rfl
    refine ⟨reports, { a with thread := .ended }, hReports, hLength, ?_, h.listening, ?_⟩
    · rw [GitAction.outcome, if_neg (by simp [hThread])]
    · rw [hReturned, hNext, hQueue, if_neg (by simp [hThread]), List.append_nil]
  | ended =>
    have hReturned : s.returned id err = s := by
      unfold State.returned
      rw [h.act]
      dsimp only
      rw [if_neg (by simp [hThread])]
    have hNext : s.finish id = s := by
      unfold State.finish
      rw [h.act]
      dsimp only
      rw [if_neg (by simp [hThread])]
    refine ⟨reports, a, hReports, hLength, ?_, h.listening, ?_⟩
    · rw [GitAction.outcome, if_neg (by simp [hThread])]
    · rw [if_pos hThread] at hQueue
      rw [hReturned, hNext, ← hQueue]
      simp only [State.put, hSame]

end Steps

/-- An item has an action only while its dialog is open, and only that has been popped. -/
structure Attended (s : State) : Prop where
  shown : s.action ≠ none → s.route = .shown
  own : ∀ p ∈ s.pops, p.own = true

theorem Quiet.attended {s t : State} (h : Quiet s t) (hs : Attended s) : Attended t := by
  refine ⟨?_, ?_⟩
  · rw [h.action, h.route]
    exact hs.shown
  · rw [h.pops]
    exact hs.own

theorem attended_pop {s : State} (hAction : s.action = none) (hShown : s.route = .shown)
    (hOwn : ∀ p ∈ s.pops, p.own = true) (result : ProgressResult) : Attended (s.pop result) := by
  unfold State.pop
  rw [hShown]
  refine ⟨fun hNot => absurd hAction hNot, ?_⟩
  simp only [List.mem_append, List.mem_singleton]
  rintro p (hp | rfl)
  · exact hOwn p hp
  · rfl

theorem Attended.call {s : State} (h : Attended s) (p : Posted) : Attended (s.call p) := by
  cases p with
  | onProgress id text received total =>
    rw [call_onProgress]
    split
    case isFalse => exact h
    case isTrue =>
      obtain ⟨-, -, hAction, hRoute, hPops, -⟩ := progress_frame s (title text received total)
      exact ⟨by rw [hAction, hRoute]; exact h.shown, by rw [hPops]; exact h.own⟩
  | onComplete id =>
    rw [call_onComplete]
    split
    case isFalse => exact h
    case isTrue =>
      unfold State.completed
      cases hAction : s.action with
      | none => exact h
      | some j =>
        have hShown := h.shown (by simp [hAction])
        dsimp only
        cases s.error j with
        | none =>
          exact attended_pop (s := { s with action := none, status := .done }) rfl hShown h.own _
        | some msg =>
          dsimp only
          unfold State.fail
          split <;> exact ⟨fun hNot => absurd rfl hNot, h.own⟩

theorem Attended.next {s : State} (h : Attended s) {op : Op} (hOp : op ≠ .back) :
    Attended (s.next op) := by
  cases op with
  | fetchProgress id received total => exact (quiet_fetchProgress s id received total).attended h
  | checkoutProgress id completed total =>
    exact (quiet_checkoutProgress s id completed total).attended h
  | returned id err => exact (quiet_returned s id err).attended h
  | finish id => exact (quiet_finish s id).attended h
  | destroy id => exact (quiet_destroy s id).attended h
  | destroyCallbacks id => exact (quiet_destroyCallbacks s id).attended h
  | back => exact absurd rfl hOp
  | onSignal =>
    show Attended s.onSignal
    unfold State.onSignal
    cases s.callbacks with
    | nil => exact h
    | cons p rest => exact Attended.call (s := { s with callbacks := rest }) ⟨h.shown, h.own⟩ p
  | onCancel =>
    show Attended s.onCancel
    unfold State.onCancel
    split
    case isFalse => exact h
    case isTrue hIf =>
      have hCancel : s.cancel.action = none ∧ s.cancel.route = s.route ∧ s.cancel.pops = s.pops := by
        unfold State.cancel
        cases hAction : s.action with
        | none => exact ⟨hAction, rfl, rfl⟩
        | some id =>
          dsimp only
          cases s.actions id <;> exact ⟨rfl, rfl, rfl⟩
      obtain ⟨hAction, hRoute, hPops⟩ := hCancel
      exact attended_pop hAction (hRoute.trans hIf.1) (by rw [hPops]; exact h.own) _
  | onRetry isCancel =>
    show Attended (s.onRetry isCancel)
    unfold State.onRetry
    split
    case isFalse => exact h
    case isTrue hIf => exact ⟨fun _ => hIf.1, h.own⟩
  | dispose =>
    show Attended s.dispose
    unfold State.dispose
    split
    case isFalse => exact h
    case isTrue hLeaving =>
      refine ⟨fun hNot => ?_, h.own⟩
      exact absurd ((h.shown hNot).symm.trans hLeaving) nofun

/-- Over every run `Navigator.pop` is called at most once, with success only if the last clone has
returned without a message; and it pops the dialog itself unless the user has gone back while the
clone was at work. -/
theorem pop_once (url : String) (isCancel : Bool) (ops : List Op) :
    let s := (clone url isCancel).run ops
    s.pops.length ≤ 1 ∧ (∀ p ∈ s.pops, p.result = .success → Succeeded s) ∧
      (.back ∉ ops → ∀ p ∈ s.pops, p.own = true) := by
  intro s
  have h : Good s := (good_clone url isCancel).run ops
  refine ⟨?_, ?_, fun hBack => ?_⟩
  · rcases h.closed with hNil | ⟨p, hPops, -⟩
    · simp [hNil]
    · simp [hPops]
  · intro p hp hResult
    rcases h.closed with hNil | ⟨q, hPops, -, -, hSuccess⟩
    · rw [hNil] at hp
      cases hp
    · rw [hPops] at hp
      obtain rfl := List.mem_singleton.mp hp
      exact hSuccess hResult
  · have hRun : ∀ (rest : List Op) (t : State), .back ∉ rest → Attended t →
        Attended (t.run rest) := by
      intro rest
      induction rest with
      | nil => exact fun t _ ht => ht
      | cons op rest ih =>
        intro t hNot ht
        rw [List.mem_cons, not_or] at hNot
        exact ih _ hNot.2 (ht.next (Ne.symm hNot.1))
    have hFirst : Attended (clone url isCancel) := by
      refine ⟨fun _ => rfl, fun p hp => ?_⟩
      cases hp
    exact (hRun ops _ hBack hFirst).own

end RetroConfig.GitItem
