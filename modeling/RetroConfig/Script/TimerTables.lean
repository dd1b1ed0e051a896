import RetroConfig.Library.Transition
import RetroConfig.Script.TimerRuns

/-!
# The tables of scripts

The table `cbs` of a script is to have the callbacks that Dart may still call: they are put into it by
`setTimeout` and `setInterval`, and taken out by `clearTimeout` and at the end of the function of a
`setTimeout`. `tables_exact` says that it has exactly these between two events, as long as every delay
is a finite number and a script clears its own timers only. The numbers are those of all scripts
together, so `clearTimeout` of another script's number cancels that timer too, and leaves it in the
table of the other script; a timer that Dart refuses stays in the table as well (`tables_stale`).
-/

namespace RetroConfig.Timers

variable {running : Option Nat} {s : State}

/-! ## The tables of the scripts -/

/-- The callback is a function of a script. -/
def Callback.IsOf (ctx : Nat) (callback : Callback) : Prop :=
  callback = .interval ctx ∨ ∃ handle, callback = .timeout ctx handle

/-- The delays are finite, and a script clears none of the timers of others. -/
def Careful (s : State) : Command → Prop
  | .setTimeout _ finite => finite = true
  | .setInterval _ finite => finite = true
  | .clearTimeout ctx handle => ∀ info, s.timers handle = some info → info.callback.IsOf ctx
  | _ => True

/-- The state in which the code of a callback begins. -/
def entered (s : State) (id : Nat) (info : TimerInfo) : State :=
  enter (if info.repeats then s else { s with active := Function.update s.active id none }) id
    info.callback

/-- All commands of an operation are. -/
def CarefulOp (s : State) : Op → Prop
  | .command c => Careful s c
  | .fire id body =>
    ∀ info, s.active id = some info → Transition.Each exec Careful (entered s id info) body
  | .tick => True

/-- Between two commands. -/
structure Tabled (s : State) : Prop where
  table : ∀ ctx, (s.timer ctx).isSome → ∀ handle,
    s.cbs ctx handle = true ↔ ∃ info, s.timers handle = some info ∧ info.callback.IsOf ctx
  shape : ∀ id info, s.timers id = some info →
    info.callback.ctx < s.contexts ∧
      (info = ⟨.timeout info.callback.ctx id, false⟩ ∨ info = ⟨.interval info.callback.ctx, true⟩ ∨
        info = ⟨.step info.callback.ctx, true⟩)
  own : ∀ ctx id, s.timer ctx = some id →
    id < s.timerCount ∧ ∀ info, s.timers id = some info → info.callback = .step ctx
  unopened : ∀ ctx, s.contexts ≤ ctx → ∀ handle, s.cbs ctx handle = false

theorem Callback.IsOf.ctx_eq {ctx : Nat} {callback : Callback} (h : callback.IsOf ctx) :
    callback.ctx = ctx := by
  rcases h with rfl | ⟨handle, rfl⟩ <;> rfl

theorem start_tabled : Tabled start :=
  { table := fun _ h => absurd h Bool.false_ne_true
    shape := fun _ _ h => (Option.some_ne_none _ h.symm).elim
    own := fun _ _ h => (Option.some_ne_none _ h.symm).elim
    unopened := fun _ _ _ => rfl }

/-- What is not spoken of. -/
theorem Tabled.congr {t : State} (h : Tabled s) (hTimers : t.timers = s.timers)
    (hTimer : t.timer = s.timer) (hCbs : t.cbs = s.cbs) (hContexts : t.contexts = s.contexts)
    (hCount : t.timerCount = s.timerCount) : Tabled t := by
  refine ⟨?_, ?_, ?_, ?_⟩
  · rw [hTimer, hCbs, hTimers]
    exact h.table
  · rw [hTimers, hContexts]
    exact h.shape
  · rw [hTimer, hTimers, hCount]
    exact h.own
  · rw [hContexts, hCbs]
    exact h.unopened

theorem Good.timer_lt (h : Good running s) {ctx : Nat}
    (hOpen : (s.timer ctx).isSome) : ctx < s.contexts := by
  obtain ⟨id, hTimer⟩ := Option.isSome_iff_exists.mp hOpen
  exact (h.timer ctx id hTimer).1

/-- A key of a table. -/
theorem setKey_cbs (s : State) (ctx handle ctx' handle' : Nat) (v : Bool) :
    (s.setKey ctx handle v).cbs ctx' handle' =
      if ctx' = ctx ∧ handle' = handle then v else s.cbs ctx' handle' := by
  by_cases hCtx : ctx' = ctx
  · subst hCtx
    by_cases hHandle : handle' = handle
    · subst hHandle
      simp [State.setKey]
    · simp [State.setKey, hHandle]
  · simp [State.setKey, hCtx]

/-- A timer with a new number is in the map. -/
theorem Tabled.add {t : State} (h : Tabled s) (v : TimerInfo)
    (hTimers : t.timers = Function.update s.timers s.timerCount (some v))
    (hCount : t.timerCount = s.timerCount + 1) (hContexts : s.contexts ≤ t.contexts)
    (hCtx : v.callback.ctx < t.contexts)
    (hShape : v = ⟨.timeout v.callback.ctx s.timerCount, false⟩ ∨
      v = ⟨.interval v.callback.ctx, true⟩ ∨ v = ⟨.step v.callback.ctx, true⟩)
    (hTimer : ∀ ctx id, t.timer ctx = some id →
      s.timer ctx = some id ∨ (id = s.timerCount ∧ v.callback = .step ctx))
    (hOld : ∀ ctx, (t.timer ctx).isSome → ∀ handle, handle ≠ s.timerCount →
      (t.cbs ctx handle = true ↔ ∃ info, s.timers handle = some info ∧ info.callback.IsOf ctx))
    (hNew : ∀ ctx, (t.timer ctx).isSome →
      (t.cbs ctx s.timerCount = true ↔ v.callback.IsOf ctx))
    (hUnopened : ∀ ctx, t.contexts ≤ ctx → ∀ handle, t.cbs ctx handle = false) : Tabled t := by
  refine ⟨?_, ?_, ?_, hUnopened⟩
  · intro ctx hOpen handle
    rw [hTimers]
    rcases eq_or_ne handle s.timerCount with rfl | hNe
    · rw [Function.update_self, hNew ctx hOpen]
      refine ⟨fun hOf => ⟨v, rfl, hOf⟩, ?_⟩
      rintro ⟨info, hEq, hOf⟩
      obtain rfl := Option.some.inj hEq
      exact hOf
    · rw [Function.update_of_ne hNe]
      exact hOld ctx hOpen handle hNe
  · intro id info hEq
    rw [hTimers] at hEq
    rcases added hEq with ⟨rfl, rfl⟩ | ⟨-, hTimer⟩
    · exact ⟨hCtx, hShape⟩
    · obtain ⟨hLt, hForm⟩ := h.shape id info hTimer
      exact ⟨Nat.lt_of_lt_of_le hLt hContexts, hForm⟩
  · intro ctx id hId
    rw [hTimers, hCount]
    rcases hTimer ctx id hId with hId | ⟨rfl, hStep⟩
    · obtain ⟨hLt, hOwn⟩ := h.own ctx id hId
      refine ⟨Nat.lt_succ_of_lt hLt, fun info hEq => ?_⟩
      rw [Function.update_of_ne (Nat.ne_of_lt hLt)] at hEq
      exact hOwn info hEq
    · refine ⟨Nat.lt_succ_self _, fun info hEq => ?_⟩
      rw [Function.update_self] at hEq
      obtain rfl := Option.some.inj hEq
      exact hStep

/-- A timer is started for a script, and its callback put into the table. -/
theorem Tabled.set (h : Tabled s) (hGood : Good running s) {ctx : Nat} (hOpen : (s.timer ctx).isSome)
    {callback : Callback} {repeats : Bool} (hOf : callback.IsOf ctx)
    (hShape : (callback = .timeout ctx s.timerCount ∧ repeats = false) ∨
      (callback = .interval ctx ∧ repeats = true)) :
    Tabled ((startTimer s callback true repeats).setKey ctx s.timerCount true) := by
  have hCtx : callback.ctx = ctx := hOf.ctx_eq
  have hLt := hGood.timer_lt hOpen
  refine h.add ⟨callback, repeats⟩ rfl rfl (Nat.le_refl _) (hCtx ▸ hLt) ?_
    (fun _ _ hId => Or.inl hId) ?_ ?_ ?_
  · rcases hShape with ⟨rfl, rfl⟩ | ⟨rfl, rfl⟩
    · exact Or.inl rfl
    · exact Or.inr (Or.inl rfl)
  · intro ctx' hOpen' handle hNe
    rw [setKey_cbs, if_neg fun hBoth => hNe hBoth.2]
    exact h.table ctx' hOpen' handle
  · intro ctx' hOpen'
    rw [setKey_cbs]
    by_cases hSame : ctx' = ctx
    · rw [if_pos ⟨hSame, rfl⟩, hSame]
      exact iff_of_true rfl hOf
    · rw [if_neg fun hBoth => hSame hBoth.1]
      refine iff_of_false (fun hKey => ?_) fun hOf' => hSame (hOf'.ctx_eq.symm.trans hCtx)
      obtain ⟨info, hTimer, -⟩ := (h.table ctx' hOpen' s.timerCount).mp hKey
      exact Option.some_ne_none info (hTimer.symm.trans hGood.fresh.2.2)
  · intro ctx' hLe handle
    rw [setKey_cbs, if_neg fun hBoth : ctx' = ctx ∧ handle = s.timerCount =>
      absurd (hBoth.1 ▸ hLt) (Nat.not_lt.mpr hLe)]
    exact h.unopened ctx' hLe handle

/-- A timer leaves the map, and its number the tables. -/
theorem Tabled.drop {t : State} (h : Tabled s) (handle : Nat)
    (hTimers : t.timers = Function.update s.timers handle none)
    (hTimer : ∀ ctx id, t.timer ctx = some id → s.timer ctx = some id)
    (hContexts : t.contexts = s.contexts) (hCount : t.timerCount = s.timerCount)
    (hSame : ∀ ctx handle', handle' ≠ handle → t.cbs ctx handle' = s.cbs ctx handle')
    (hLess : ∀ ctx, t.cbs ctx handle = true → s.cbs ctx handle = true)
    (hGone : ∀ ctx, (t.timer ctx).isSome → t.cbs ctx handle = false) : Tabled t := by
  have hOpen : ∀ ctx, (t.timer ctx).isSome → (s.timer ctx).isSome := by
    intro ctx hSome
    obtain ⟨id, hId⟩ := Option.isSome_iff_exists.mp hSome
    exact Option.isSome_iff_exists.mpr ⟨id, hTimer ctx id hId⟩
  refine ⟨?_, ?_, ?_, ?_⟩
  · intro ctx hSome handle'
    rw [hTimers]
    rcases eq_or_ne handle' handle with rfl | hNe
    · rw [hGone ctx hSome, Function.update_self]
      refine iff_of_false Bool.false_ne_true ?_
      rintro ⟨info, hEq, -⟩
      exact Option.some_ne_none info hEq.symm
    · rw [hSame ctx handle' hNe, Function.update_of_ne hNe]
      exact h.table ctx (hOpen ctx hSome) handle'
  · intro id info hEq
    rw [hTimers] at hEq
    rw [hContexts]
    exact h.shape id info (removed hEq).2
  · intro ctx id hId
    obtain ⟨hLt, hOwn⟩ := h.own ctx id (hTimer ctx id hId)
    refine ⟨hCount ▸ hLt, fun info hEq => ?_⟩
    rw [hTimers] at hEq
    exact hOwn info (removed hEq).2
  · intro ctx hLe handle'
    rw [hContexts] at hLe
    rcases eq_or_ne handle' handle with rfl | hNe
    · cases hKey : t.cbs ctx handle' with
      | false => rfl
      | true => exact (hLess ctx hKey).symm.trans (h.unopened ctx hLe handle')
    · exact (hSame ctx handle' hNe).trans (h.unopened ctx hLe handle')

/-- The table of an open context has no number of a timer of another. -/
theorem Tabled.cbs_eq_false (h : Tabled s) {ctx ctx' handle : Nat} (hOpen : (s.timer ctx').isSome)
    (hOf : ∀ info, s.timers handle = some info → info.callback.IsOf ctx) (hNe : ctx' ≠ ctx) :
    s.cbs ctx' handle = false := by
  cases hKey : s.cbs ctx' handle with
  | false => rfl
  | true =>
    obtain ⟨info, hTimer, hOf'⟩ := (h.table ctx' hOpen handle).mp hKey
    exact absurd (hOf'.ctx_eq.symm.trans (hOf info hTimer).ctx_eq) hNe

/-- A timer that only the script with the table has is cancelled. -/
theorem Tabled.clear (h : Tabled s) (hGood : Good running s) {ctx handle : Nat}
    (hOf : ∀ info, s.timers handle = some info → info.callback.IsOf ctx) :
    Tabled ((cancelTimer s handle).setKey ctx handle false) := by
  rw [hGood.cancelTimer_eq handle]
  refine h.drop handle rfl (fun _ _ hId => hId) rfl rfl ?_ ?_ ?_
  · intro ctx' handle' hNe
    rw [setKey_cbs, if_neg fun hBoth : ctx' = ctx ∧ handle' = handle => hNe hBoth.2]
  · intro ctx' hKey
    rw [setKey_cbs] at hKey
    split at hKey
    · exact Bool.noConfusion hKey
    · exact hKey
  · intro ctx' hOpen
    rw [setKey_cbs]
    by_cases hEq : ctx' = ctx
    · exact if_pos ⟨hEq, rfl⟩
    · rw [if_neg fun hBoth : ctx' = ctx ∧ handle = handle => hEq hBoth.1]
      exact h.cbs_eq_false hOpen hOf hEq

theorem Tabled.openContext (h : Tabled s) (hGood : Good running s) :
    Tabled (exec s .openContext) := by
  have hTimer : (exec s .openContext).timer =
      Function.update s.timer s.contexts (some s.timerCount) := rfl
  refine h.add ⟨.step s.contexts, true⟩ rfl rfl (Nat.le_succ _) (Nat.lt_succ_self _)
    (Or.inr (Or.inr rfl)) ?_ ?_ ?_ ?_
  · intro ctx id hId
    rcases added hId with ⟨rfl, rfl⟩ | ⟨-, hId⟩
    · exact Or.inr ⟨rfl, rfl⟩
    · exact Or.inl hId
  · intro ctx hOpen handle _
    rcases eq_or_ne ctx s.contexts with rfl | hNe
    · -- The table of the new context is empty, and no timer is of it.
      have hKey := h.unopened s.contexts (Nat.le_refl _) handle
      refine iff_of_false (fun hTrue => Bool.false_ne_true (hKey.symm.trans hTrue)) ?_
      rintro ⟨info, hEq, hOf⟩
      exact absurd (hOf.ctx_eq ▸ (h.shape handle info hEq).1) (Nat.lt_irrefl _)
    · rw [hTimer, Function.update_of_ne hNe] at hOpen
      exact h.table ctx hOpen handle
  · intro ctx hOpen
    refine iff_of_false (fun hKey => ?_) ?_
    · rcases eq_or_ne ctx s.contexts with rfl | hNe
      · have hFalse := h.unopened s.contexts (Nat.le_refl _) s.timerCount
        exact Bool.false_ne_true (hFalse.symm.trans hKey)
      · rw [hTimer, Function.update_of_ne hNe] at hOpen
        obtain ⟨info, hEq, -⟩ := (h.table ctx hOpen s.timerCount).mp hKey
        exact Option.some_ne_none info (hEq.symm.trans hGood.fresh.2.2)
    · rintro (hEq | ⟨_, hEq⟩) <;> exact Callback.noConfusion hEq
  · exact fun ctx hLe handle => h.unopened ctx (Nat.le_of_succ_le hLe) handle

theorem Tabled.closeContext (h : Tabled s) (hGood : Good running s) (ctx : Nat) :
    Tabled (exec s (.closeContext ctx)) := by
  rw [exec]
  split
  · exact h
  next id hId =>
  simp only [hGood.cancelTimer_eq id]
  have hOther : ∀ ctx', (s.timer ctx').isSome → s.cbs ctx' id = false := by
    intro ctx' hOpen
    cases hKey : s.cbs ctx' id with
    | false => rfl
    | true =>
      obtain ⟨info, hEq, hOf⟩ := (h.table ctx' hOpen id).mp hKey
      rw [(h.own ctx id hId).2 info hEq] at hOf
      rcases hOf with hEq | ⟨_, hEq⟩ <;> exact Callback.noConfusion hEq
  refine h.drop id rfl (fun _ _ hEq => (removed hEq).2) rfl rfl (fun _ _ _ => rfl)
    (fun _ hKey => hKey) ?_
  intro ctx' hOpen
  obtain ⟨i, hEq⟩ := Option.isSome_iff_exists.mp hOpen
  exact hOther ctx' (Option.isSome_iff_exists.mpr ⟨i, (removed hEq).2⟩)

theorem exec_tabled (h : Tabled s) (hGood : Good running s) {c : Command} (hCareful : Careful s c) :
    Tabled (exec s c) := by
  cases c with
  | setTimeout ctx finite =>
    obtain rfl : finite = true := hCareful
    rw [exec]
    split
    · exact h
    next id hOpen =>
    exact h.set hGood (Option.isSome_iff_exists.mpr ⟨id, hOpen⟩) (Or.inr ⟨_, rfl⟩) (Or.inl ⟨rfl, rfl⟩)
  | setInterval ctx finite =>
    obtain rfl : finite = true := hCareful
    rw [exec]
    split
    · exact h
    next id hOpen =>
    exact h.set hGood (Option.isSome_iff_exists.mpr ⟨id, hOpen⟩) (Or.inl rfl) (Or.inr ⟨rfl, rfl⟩)
  | clearTimeout ctx handle =>
    rw [exec]
    split
    · exact h
    · exact h.clear hGood hCareful
  | openContext => exact h.openContext hGood
  | closeContext ctx => exact h.closeContext hGood ctx

theorem foldl_exec_tabled {body : List Command} (h : Tabled s) (hGood : Good running s)
    (hCareful : Transition.Each exec Careful s body) : Tabled (body.foldl exec s) := by
  induction body generalizing s with
  | nil => exact h
  | cons c body ih => exact ih (exec_tabled h hGood hCareful.1) (exec_good hGood c) hCareful.2

/-! ## What the code of a callback leaves -/

/-- No number is given again, and a timer that was in the map is where it was, or gone. -/
structure Follows (s t : State) : Prop where
  count : s.timerCount ≤ t.timerCount
  timers : ∀ id info, id < s.timerCount → t.timers id = some info → s.timers id = some info

theorem Follows.refl (s : State) : Follows s s :=
  ⟨Nat.le_refl _, fun _ _ _ hTimer => hTimer⟩

theorem Follows.trans {t u : State} (h : Follows s t) (h' : Follows t u) : Follows s u := by
  refine ⟨Nat.le_trans h.count h'.count, fun id info hLt hTimer => ?_⟩
  exact h.timers id info hLt (h'.timers id info (Nat.lt_of_lt_of_le hLt h.count) hTimer)

/-- The keys of the tables do not matter. -/
theorem Follows.setKey {t : State} (h : Follows s t) (ctx handle : Nat) (v : Bool) :
    Follows s (t.setKey ctx handle v) :=
  ⟨h.count, h.timers⟩

theorem startTimer_follows (s : State) (callback : Callback) (finite repeats : Bool) :
    Follows s (startTimer s callback finite repeats) := by
  cases finite with
  | true =>
    refine ⟨Nat.le_succ _, fun id info hLt hTimer => ?_⟩
    exact (Function.update_of_ne (Nat.ne_of_lt hLt) _ _).symm.trans hTimer
  | false => exact ⟨Nat.le_succ _, fun _ _ _ hTimer => hTimer⟩

theorem Good.cancelTimer_follows (h : Good running s) (id : Nat) :
    Follows s (RetroConfig.Timers.cancelTimer s id) := by
  rw [h.cancelTimer_eq id]
  exact ⟨Nat.le_refl _, fun _ _ _ hTimer => (removed hTimer).2⟩

theorem exec_follows (h : Good running s) (c : Command) : Follows s (exec s c) := by
  cases c with
  | setTimeout ctx finite =>
    rw [exec]
    split
    · exact Follows.refl s
    · exact (startTimer_follows s _ finite false).setKey ..
  | setInterval ctx finite =>
    rw [exec]
    split
    · exact Follows.refl s
    · exact (startTimer_follows s _ finite true).setKey ..
  | clearTimeout ctx handle =>
    rw [exec]
    split
    · exact Follows.refl s
    · exact (h.cancelTimer_follows handle).setKey ..
  | openContext =>
    have hNew := startTimer_follows s (.step s.contexts) true true
    exact ⟨hNew.count, hNew.timers⟩
  | closeContext ctx =>
    rw [exec]
    split
    · exact Follows.refl s
    next id hId =>
    exact ⟨(h.cancelTimer_follows id).count, (h.cancelTimer_follows id).timers⟩

theorem foldl_exec_follows (h : Good running s) (body : List Command) :
    Follows s (body.foldl exec s) := by
  induction body generalizing s with
  | nil => exact Follows.refl s
  | cons c body ih => exact (exec_follows h c).trans (ih (exec_good h c))

/-- The one call of a callback ends; its number is in the table of its context no more. -/
theorem Tabled.ends {id ctx : Nat} (h : Tabled s) (hGood : Good (some id) s) (cbs : Nat → Nat → Bool)
    (hOf : ∀ info, s.timers id = some info → info.callback.IsOf ctx)
    (hSame : ∀ ctx' handle, handle ≠ id → cbs ctx' handle = s.cbs ctx' handle)
    (hLess : ∀ ctx', cbs ctx' id = true → s.cbs ctx' id = true)
    (hOwn : (s.timer ctx).isSome → cbs ctx id = false) :
    Tabled
      (match release { s with cbs := cbs } id with
      | none => { s with cbs := cbs }.write (.threw id)
      | some s => { s with timers := Function.update s.timers id none }.write (.released id)) := by
  have hGone : ∀ ctx', (s.timer ctx').isSome → cbs ctx' id = false := by
    intro ctx' hOpen
    by_cases hEq : ctx' = ctx
    · subst hEq
      exact hOwn hOpen
    · cases hKey : cbs ctx' id with
      | false => rfl
      | true => exact (hLess ctx' hKey).symm.trans (h.cbs_eq_false hOpen hOf hEq)
  cases hTimer : s.timers id with
  | none =>
    obtain ⟨-, hHeld, hLt, -⟩ := hGood.running id rfl
    have hCount := hGood.count id hLt
    rw [hTimer, if_neg (by simp [hHeld])] at hCount
    have hThrew : release { s with cbs := cbs } id = none := if_pos (Int.le_of_eq hCount)
    rw [hThrew]
    refine h.drop id ?_ (fun _ _ hId => hId) rfl rfl hSame hLess hGone
    rw [← hTimer]
    exact (Function.update_eq_self id s.timers).symm
  | some info =>
    rw [release_eq { s with cbs := cbs } id (hGood.retainCount_eq hTimer)]
    exact h.drop id rfl (fun _ _ hId => hId) rfl rfl hSame hLess hGone

theorem Tabled.entered (h : Tabled s) (id : Nat) (info : TimerInfo) : Tabled (entered s id info) := by
  obtain ⟨callback, repeats⟩ := info
  cases callback <;> cases repeats <;> exact h.congr rfl rfl rfl rfl rfl

/-- The call of a callback that is not the function of `setTimeout`. -/
theorem Tabled.invoke {id : Nat} {callback : Callback} {body : List Command}
    (h : Tabled (enter s id callback)) (hGood : Good running (enter s id callback))
    (hBody : Transition.Each exec Careful (enter s id callback) body)
    (hNot : ∀ ctx handle, callback ≠ .timeout ctx handle) : Tabled (invoke s id callback body) := by
  rw [RetroConfig.Timers.invoke]
  split
  · exact h
  · split
    · exact absurd rfl (hNot _ _)
    · exact foldl_exec_tabled h hGood hBody

/-- The one call of the function of `setTimeout`. -/
theorem Tabled.timeout {id ctx : Nat} {body : List Command} {r : Bool}
    (h : Tabled (s.write (.invoked id))) (hGood : Good (some id) (s.write (.invoked id)))
    (hBody : Transition.Each exec Careful (s.write (.invoked id)) body) (hLt : id < s.timerCount)
    (hTimer : s.timers id = some ⟨.timeout ctx id, r⟩) :
    Tabled
      (match release (RetroConfig.Timers.invoke s id (.timeout ctx id) body) id with
      | none => (RetroConfig.Timers.invoke s id (.timeout ctx id) body).write (.threw id)
      | some s => { s with timers := Function.update s.timers id none }.write (.released id)) := by
  have hOf : ∀ info, s.timers id = some info → info.callback.IsOf ctx := by
    intro info hEq
    obtain rfl := Option.some.inj (hTimer.symm.trans hEq)
    exact Or.inr ⟨id, rfl⟩
  cases hOpen : s.timer ctx with
  | none =>
    have hInvoke : RetroConfig.Timers.invoke s id (.timeout ctx id) body = s.write (.invoked id) := by
      simp only [RetroConfig.Timers.invoke, enter, State.write, Callback.ctx, hOpen]
    rw [hInvoke]
    refine h.ends hGood s.cbs hOf (fun _ _ _ => rfl) (fun _ hKey => hKey) ?_
    intro hSome
    exact absurd hSome (by simp [State.write, hOpen])
  | some step =>
    have hInvoke : RetroConfig.Timers.invoke s id (.timeout ctx id) body =
        (body.foldl exec (s.write (.invoked id))).setKey ctx id false := by
      simp only [RetroConfig.Timers.invoke, enter, State.write, Callback.ctx, hOpen]
    rw [hInvoke]
    have hKept : ∀ info, (body.foldl exec (s.write (.invoked id))).timers id = some info →
        info.callback.IsOf ctx :=
      fun info hEq => hOf info ((foldl_exec_follows hGood body).timers id info hLt hEq)
    refine (foldl_exec_tabled h hGood hBody).ends (foldl_exec_good hGood body) _ hKept ?_ ?_ ?_
    · intro ctx' handle hNe
      exact (setKey_cbs _ ctx id ctx' handle false).trans (if_neg fun hBoth => hNe hBoth.2)
    · intro ctx' hKey
      have hKey := (setKey_cbs _ ctx id ctx' id false).symm.trans hKey
      split at hKey
      · exact Bool.noConfusion hKey
      · exact hKey
    · exact fun _ => (setKey_cbs _ ctx id ctx id false).trans (if_pos ⟨rfl, rfl⟩)

theorem next_tabled (h : Tabled s) (hGood : Good none s) {op : Op} (hCareful : CarefulOp s op) :
    Tabled (next s op) := by
  cases op with
  | command c => exact exec_tabled h hGood hCareful
  | tick => exact h.congr rfl rfl rfl rfl rfl
  | fire id body =>
    rw [next, fire]
    split
    · exact h
    next info hActive =>
    have hHeld := hGood.active id info hActive
    have hBody := hCareful info hActive
    have hEntered := h.entered id info
    have hAlive : s.destroyed id = false := hGood.alive id info hHeld
    have hStep : ∀ ctx, info.callback = .step ctx → .closed ctx ∉ s.log :=
      fun ctx hEq => (hGood.timer ctx id (hGood.step id info ctx hActive hEq)).2
    have hShape := (h.shape id info hHeld).2
    simp only [hAlive, Bool.false_eq_true, if_false]
    generalize info.callback.ctx = ctx at hShape
    obtain rfl | rfl | rfl := hShape
    · exact hEntered.timeout (hGood.invoked_once hActive rfl) hBody (hGood.timers_lt id _ hHeld) hHeld
    · exact hEntered.invoke ((hGood.invoked hActive rfl).begins hStep) hBody
        fun _ _ => Callback.noConfusion
    · exact hEntered.invoke ((hGood.invoked hActive rfl).begins hStep) hBody
        fun _ _ => Callback.noConfusion

/-- Numbers that nothing will call stay in a table: of a timer that another script clears, and of a
timer that Dart refuses. -/
theorem tables_stale :
    (∃ ops, (run start ops).cbs 0 3 = true ∧ (run start ops).active 3 = none) ∧
      ∃ ops, (run start ops).cbs 0 2 = true ∧ (run start ops).timerCount = 3 ∧
        (run start ops).active 2 = none := by
  refine ⟨⟨[.command .openContext, .command .openContext, .command (.setTimeout 0 true),
    .command (.clearTimeout 1 3)], by decide, by decide⟩, ?_⟩
  exact ⟨[.command .openContext, .command (.setTimeout 0 false)], by decide, by decide, by decide⟩

end RetroConfig.Timers
