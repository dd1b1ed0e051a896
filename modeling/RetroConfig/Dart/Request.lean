import RetroConfig.Library.Transition
import Mathlib.Data.List.Induction
import Mathlib.Tactic.Common

/-!
# `Request`: a download and its callbacks

`Request.start` (`lib/utils/request.dart`) downloads a resource, from the cache manager or by a
request of its own, and calls `onComplete` at its end. It gives up control at every `await`, and
there the response, the chunks of the body, an error, the time limit and calls of `cancel` and
`start` may come in any order; the callbacks that it calls may call `cancel` and `start` as well.

`onComplete` is called from two places, the handler of exceptions and the end of the body. The
first is followed by `cancel`, which drops the callback, so `completes_once` finds that it is called
at most once in every run, never after `cancel`, and exactly once if the body ends without a
`cancel` of the client.

The model has the fields that decide what is called. The numbers and texts of the response are
left out. A callback does not throw (`FunctionCallback._invoke` catches everything).
-/

namespace RetroConfig

namespace Request

/-- Where the body of the first `start` waits. -/
inductive Phase where
  | idle
  /-- `await for` over the stream of the cache manager. -/
  | file
  /-- `await res.file.readAsBytes()`. -/
  | read
  /-- `await dio.requestUri(..)`. -/
  | response
  /-- `await _subscription.asFuture().timeout(..)`. -/
  | stream
  | finished
  deriving DecidableEq

/-- What the client sees of the order of things. -/
inductive Mark where
  /-- `onComplete` is invoked. -/
  | completed
  /-- A `cancel` of the client has returned. -/
  | canceled
  deriving DecidableEq

end Request

open Request in
/-- `Request`. A callback is there or null; `raised` says that an exception was raised in the body
of `start`. -/
structure Request where
  cacheResponse : Bool
  onResponse : Bool
  onDownloadProgress : Bool
  onComplete : Bool
  started : Bool
  canceled : Bool
  subscription : Bool
  error : Option String
  raised : Bool
  phase : Phase
  log : List Mark

namespace Request

/-- A request whose `onComplete` is set, before `start`. -/
def fresh (cacheResponse onResponse onDownloadProgress : Bool) : Request :=
  { cacheResponse := cacheResponse
    onResponse := onResponse
    onDownloadProgress := onDownloadProgress
    onComplete := true
    started := false
    canceled := false
    subscription := false
    error := none
    raised := false
    phase := .idle
    log := [] }

/-- `freeCallbacks`. -/
def freeCallbacks (r : Request) : Request := { r with onDownloadProgress := false, onComplete := false }

/-- `cancel`. -/
def cancel (r : Request) : Request :=
  { freeCallbacks { r with canceled := true } with subscription := false }

/-- `start` up to its first `await`. -/
def start (r : Request) : Request :=
  if r.started then r
  else { r with started := true, phase := if r.cacheResponse then .file else .response }

/-- What a callback of the client does with the request. -/
inductive Act where
  | cancel
  | start

/-- A call of `cancel` by the client. -/
def clientCancel (r : Request) : Request := { r.cancel with log := r.log ++ [.canceled] }

def act (r : Request) : Act → Request
  | .cancel => r.clientCancel
  | .start => r.start

/-- What the callbacks do when they are invoked. -/
structure Client where
  onResponse : List Act
  onDownloadProgress : List Act
  onComplete : List Act

/-- `if (onComplete != null) onComplete.invoke([])`. -/
def complete (c : Client) (r : Request) : Request :=
  if r.onComplete then c.onComplete.foldl act { r with log := r.log ++ [.completed] } else r

/-- The end of the body, after the `try` statement. -/
def finish (c : Client) (r : Request) : Request := { r.complete c with phase := .finished }

/-- The handler of exceptions, and the end of the body after it. -/
def fail (c : Client) (e : String) (r : Request) : Request :=
  finish c (cancel (complete c { r with raised := true, error := some e }))

/-- `onDownloadProgress?.invoke(..)`. -/
def progress (c : Client) (r : Request) : Request :=
  if r.onDownloadProgress then c.onDownloadProgress.foldl act r else r

/-- `onResponse?.invoke([])`. -/
def respond (c : Client) (r : Request) : Request :=
  if r.onResponse then c.onResponse.foldl act r else r

inductive Event where
  | start
  | cancel
  /-- The response is there. -/
  | response
  /-- The request failed, or its response could not be read. -/
  | responseError (e : String)
  | chunk
  | streamError (e : String)
  | streamDone
  | timeout
  /-- The cache manager reports progress. -/
  | fileProgress
  /-- The cache manager has the file. -/
  | fileInfo
  /-- The file has been read. -/
  | fileRead
  | fileError (e : String)
  | fileDone

/-- One event, and what the callbacks do that it leads to. An event that the body does not wait
for changes nothing. The end of the stream and its errors may be on their way when `cancel` is
called; chunks are no longer delivered then. -/
def next (r : Request) (event : Event × Client) : Request :=
  let c := event.2
  match event.1, r.phase with
  | .start, _ => r.start
  | .cancel, _ => r.clientCancel
  | .response, .response =>
    if r.canceled then { r with phase := .finished }
    else { respond c r with subscription := true, phase := .stream }
  | .responseError e, .response => fail c e r
  | .chunk, .stream => if r.subscription then progress c r else r
  | .streamError e, .stream => fail c e r
  | .streamDone, .stream => finish c r
  | .timeout, .stream => if !r.canceled then fail c "Exception: Timeout" r else finish c r
  | .fileProgress, .file => progress c r
  | .fileInfo, .file => { r with phase := .read }
  | .fileRead, .read => { r with phase := .file }
  | .fileError e, .file => fail c e r
  | .fileError e, .read => fail c e r
  | .fileDone, .file => finish c r
  | _, _ => r

/-- What the client may rely on. -/
structure Honest (r : Request) : Prop where
  once : r.log.count .completed ≤ 1
  notAfter : r.log.Pairwise fun a b => ¬ (a = .canceled ∧ b = .completed)
  exact : r.phase = .finished → .canceled ∉ r.log →
    r.log.count .completed = 1 ∧ (r.error.isSome = true ↔ r.raised = true)

/-! ## Callbacks -/

/-- What callbacks can do to a request that has been started: cancel it, `n` times. -/
structure After (n : Nat) (r t : Request) : Prop where
  phase : t.phase = r.phase
  started : t.started = r.started
  error : t.error = r.error
  raised : t.raised = r.raised
  log : t.log = r.log ++ List.replicate n .canceled
  onComplete : t.onComplete = true ↔ r.onComplete = true ∧ n = 0
  canceled : t.canceled = true ↔ r.canceled = true ∨ n ≠ 0

theorem After.refl (r : Request) : After 0 r r := by
  refine ⟨rfl, rfl, rfl, rfl, ?_, ?_, ?_⟩
  · simp
  · simp
  · simp

theorem After.clientCancel {n : Nat} {r t : Request} (h : After n r t) :
    After (n + 1) r t.clientCancel := by
  refine ⟨h.phase, h.started, h.error, h.raised, ?_, ?_, ?_⟩
  · rw [Request.clientCancel]
    dsimp only
    rw [h.log, List.append_assoc, List.replicate_succ']
  · simp [Request.clientCancel, Request.cancel, freeCallbacks]
  · simp [Request.clientCancel, Request.cancel, freeCallbacks]

theorem acts_after {r : Request} (hStarted : r.started = true) (acts : List Act) :
    ∃ n, After n r (acts.foldl act r) := by
  induction acts using List.reverseRecOn with
  | nil => exact ⟨0, After.refl r⟩
  | append_singleton acts a ih =>
    obtain ⟨n, h⟩ := ih
    rw [List.foldl_append, List.foldl_cons, List.foldl_nil]
    cases a with
    | cancel => exact ⟨n + 1, h.clientCancel⟩
    | start =>
      rw [act, Request.start, if_pos (h.started.trans hStarted)]
      exact ⟨n, h⟩

theorem progress_after {r : Request} (hStarted : r.started = true) (c : Client) :
    ∃ n, After n r (r.progress c) := by
  rw [progress]
  split
  · exact acts_after hStarted _
  · exact ⟨0, After.refl r⟩

theorem respond_after {r : Request} (hStarted : r.started = true) (c : Client) :
    ∃ n, After n r (r.respond c) := by
  rw [respond]
  split
  · exact acts_after hStarted _
  · exact ⟨0, After.refl r⟩

/-! ## The body of `start` -/

/-- The body has not ended: the client has canceled `n` times, and nothing has been called. -/
structure Body (n : Nat) (r : Request) : Prop where
  log : r.log = List.replicate n .canceled
  onComplete : r.onComplete = true ↔ n = 0
  canceled : r.canceled = true ↔ n ≠ 0
  error : r.error = none
  raised : r.raised = false

/-- The body has ended: `onComplete` has been called once before any `cancel`, or there was a `cancel`
first. -/
structure Ended (r : Request) : Prop where
  log : ∃ k n, r.log = List.replicate k .completed ++ List.replicate n .canceled ∧ k ≤ 1 ∧
    (k = 0 → n ≠ 0)
  error : r.error.isSome = true ↔ r.raised = true

structure Good (r : Request) : Prop where
  started : r.started = true ↔ r.phase ≠ .idle
  body : r.phase ≠ .finished → ∃ n, Body n r
  ended : r.phase = .finished → Ended r

theorem fresh_good (cacheResponse onResponse onDownloadProgress : Bool) :
    Good (fresh cacheResponse onResponse onDownloadProgress) := by
  refine ⟨by simp [fresh], fun _ => ⟨0, ?_⟩, fun h => by cases h⟩
  exact ⟨rfl, by simp [fresh], by simp [fresh], rfl, rfl⟩

theorem Good.honest {r : Request} (h : Good r) : Honest r := by
  by_cases hPhase : r.phase = .finished
  · obtain ⟨⟨k, n, hLog, hk, hZero⟩, hError⟩ := h.ended hPhase
    refine ⟨?_, ?_, ?_⟩
    · rw [hLog, List.count_append, List.count_replicate_self, List.count_replicate]
      simpa using hk
    · rw [hLog, List.pairwise_append]
      refine ⟨?_, ?_, ?_⟩
      · exact List.pairwise_replicate.mpr (Or.inr (by decide))
      · exact List.pairwise_replicate.mpr (Or.inr (by decide))
      · rintro a - b hb ⟨-, rfl⟩
        cases List.eq_of_mem_replicate hb
    · intro _ hNot
      obtain rfl : n = 0 := by
        by_contra hn
        exact hNot (hLog ▸ List.mem_append_right _ (List.mem_replicate.mpr ⟨hn, rfl⟩))
      refine ⟨?_, hError⟩
      rw [hLog, List.count_append, List.count_replicate_self]
      simp
      omega
  · obtain ⟨n, hBody⟩ := h.body hPhase
    refine ⟨?_, ?_, fun hEnd => absurd hEnd hPhase⟩
    · rw [hBody.log, List.count_replicate]
      simp
    · rw [hBody.log]
      exact List.pairwise_replicate.mpr (Or.inr (by decide))

theorem Body.after {n m : Nat} {r t : Request} (h : Body n r) (hAfter : After m r t) :
    Body (n + m) t := by
  refine ⟨?_, ?_, ?_, hAfter.error.trans h.error, hAfter.raised.trans h.raised⟩
  · rw [hAfter.log, h.log, List.replicate_append_replicate]
  · rw [hAfter.onComplete, h.onComplete]
    omega
  · rw [hAfter.canceled, h.canceled]
    omega

/-- The log after `onComplete` has been called, unless it was dropped. -/
theorem complete_log {n : Nat} {r : Request} {c : Client} (hStarted : r.started = true)
    (hLog : r.log = List.replicate n .canceled) (hComplete : r.onComplete = true ↔ n = 0) :
    ∃ k m, (r.complete c).log = List.replicate k .completed ++ List.replicate m .canceled ∧
      k ≤ 1 ∧ (k = 0 → m ≠ 0) := by
  rw [complete]
  split
  · next hSet =>
    obtain rfl := hComplete.mp hSet
    obtain ⟨m, hAfter⟩ := acts_after (r := { r with log := r.log ++ [.completed] }) hStarted
      c.onComplete
    refine ⟨1, m, ?_, Nat.le_refl 1, fun h => absurd h (by decide)⟩
    rw [hAfter.log, hLog]
    rfl
  · next hNull =>
    refine ⟨0, n, hLog, by decide, fun _ hn => hNull (hComplete.mpr hn)⟩

theorem complete_kept {r : Request} (hStarted : r.started = true) (c : Client) :
    (r.complete c).started = true ∧ (r.complete c).error = r.error ∧
      (r.complete c).raised = r.raised := by
  rw [complete]
  split
  · obtain ⟨m, hAfter⟩ := acts_after (r := { r with log := r.log ++ [.completed] }) hStarted
      c.onComplete
    exact ⟨hAfter.started.trans hStarted, hAfter.error, hAfter.raised⟩
  · exact ⟨hStarted, rfl, rfl⟩

theorem finish_good {n : Nat} {r : Request} (hStarted : r.started = true) (h : Body n r)
    (c : Client) : Good (r.finish c) := by
  obtain ⟨hStarted', hError, hRaised⟩ := complete_kept hStarted c
  refine ⟨iff_of_true hStarted' (by simp [finish]), fun hNot => absurd rfl hNot, fun _ => ?_⟩
  refine ⟨complete_log hStarted h.log h.onComplete, ?_⟩
  rw [finish]
  dsimp only
  rw [hError, hRaised, h.error, h.raised]
  decide

theorem fail_good {n : Nat} {r : Request} (hStarted : r.started = true) (h : Body n r) (c : Client)
    (e : String) : Good (r.fail c e) := by
  obtain ⟨hStarted', hError, hRaised⟩ :=
    complete_kept (r := { r with raised := true, error := some e }) hStarted c
  have hFail : r.fail c e = { cancel (complete c { r with raised := true, error := some e }) with
      phase := .finished } := by
    rw [fail, finish, complete, if_neg (by simp [cancel, freeCallbacks])]
  rw [hFail]
  refine ⟨iff_of_true hStarted' (by simp), fun hNot => absurd rfl hNot, fun _ => ⟨?_, ?_⟩⟩
  · exact complete_log (r := { r with raised := true, error := some e }) hStarted h.log h.onComplete
  · simp only [cancel, freeCallbacks]
    rw [hError, hRaised]
    exact iff_of_true rfl rfl

/-- A step within the body: callbacks may have run, and the body waits somewhere else. -/
theorem Good.resume {n m : Nat} {r t : Request} (hStarted : r.started = true) (h : Body n r)
    (hAfter : After m r t) {phase : Phase} (hIdle : phase ≠ .idle) (hEnd : phase ≠ .finished)
    (subscription : Bool) : Good { t with phase := phase, subscription := subscription } := by
  have hBody := h.after hAfter
  refine ⟨iff_of_true (hAfter.started.trans hStarted) hIdle, fun _ => ⟨n + m, ?_⟩,
    fun hPhase => absurd hPhase hEnd⟩
  exact ⟨hBody.log, hBody.onComplete, hBody.canceled, hBody.error, hBody.raised⟩

theorem start_good {r : Request} (h : Good r) : Good r.start := by
  rw [start]
  split
  · exact h
  · next hStarted =>
    have hIdle : r.phase = .idle := by
      by_contra hPhase
      exact hStarted (h.started.mpr hPhase)
    obtain ⟨n, hBody⟩ := h.body (by rw [hIdle]; decide)
    refine ⟨iff_of_true rfl ?_, fun _ => ⟨n, ?_⟩, fun hPhase => ?_⟩
    · dsimp only
      split <;> decide
    · exact ⟨hBody.log, hBody.onComplete, hBody.canceled, hBody.error, hBody.raised⟩
    · dsimp only at hPhase
      split at hPhase <;> cases hPhase

theorem clientCancel_good {r : Request} (h : Good r) : Good r.clientCancel := by
  refine ⟨h.started, fun hPhase => ?_, fun hPhase => ?_⟩
  · obtain ⟨n, hBody⟩ := h.body hPhase
    exact ⟨n + 1, hBody.after (After.refl r).clientCancel⟩
  · obtain ⟨⟨k, n, hLog, hk, hZero⟩, hError⟩ := h.ended hPhase
    refine ⟨⟨k, n + 1, ?_, hk, fun _ => Nat.succ_ne_zero n⟩, hError⟩
    rw [clientCancel]
    dsimp only
    rw [hLog, List.append_assoc, List.replicate_succ']

/-- While the body waits somewhere, the request has been started and nothing has been called. -/
theorem Good.waits {r : Request} (h : Good r) {phase : Phase} (hPhase : r.phase = phase)
    (hIdle : phase ≠ .idle) (hEnd : phase ≠ .finished) : r.started = true ∧ ∃ n, Body n r :=
  ⟨h.started.mpr (hPhase ▸ hIdle), h.body (hPhase ▸ hEnd)⟩

theorem progress_good {r : Request} (h : Good r) {phase : Phase} (hPhase : r.phase = phase)
    (hIdle : phase ≠ .idle) (hEnd : phase ≠ .finished) (c : Client) : Good (r.progress c) := by
  obtain ⟨hStarted, n, hBody⟩ := h.waits hPhase hIdle hEnd
  obtain ⟨m, hAfter⟩ := progress_after hStarted c
  refine ⟨iff_of_true (hAfter.started.trans hStarted) (hAfter.phase.trans hPhase ▸ hIdle),
    fun _ => ⟨n + m, hBody.after hAfter⟩, fun hFinished => ?_⟩
  exact absurd (hPhase.symm.trans (hAfter.phase.symm.trans hFinished)) hEnd

/-- The response: a canceled body ends, any other goes on to the stream. -/
theorem response_good {r : Request} (h : Good r) (hPhase : r.phase = .response) (c : Client) :
    Good (if r.canceled then { r with phase := .finished }
      else { respond c r with subscription := true, phase := .stream }) := by
  obtain ⟨hStarted, n, hBody⟩ := h.waits hPhase (by decide) (by decide)
  split
  · next hCanceled =>
    refine ⟨iff_of_true hStarted (by simp), fun hNot => absurd rfl hNot, fun _ => ⟨?_, ?_⟩⟩
    · exact ⟨0, n, hBody.log, Nat.zero_le 1, fun _ => hBody.canceled.mp hCanceled⟩
    · dsimp only
      rw [hBody.error, hBody.raised]
      decide
  · obtain ⟨m, hAfter⟩ := respond_after hStarted c
    exact Good.resume hStarted hBody hAfter (by decide) (by decide) true

theorem next_good {r : Request} (h : Good r) (event : Event × Client) : Good (r.next event) := by
  rw [next]
  dsimp only
  split
  · exact start_good h
  · exact clientCancel_good h
  · next hPhase => exact response_good h hPhase event.2
  · next e _ hPhase =>
    obtain ⟨hStarted, n, hBody⟩ := h.waits hPhase (by decide) (by decide)
    exact fail_good hStarted hBody event.2 e
  · next hPhase =>
    split
    · exact progress_good h hPhase (by decide) (by decide) event.2
    · exact h
  · next e _ hPhase =>
    obtain ⟨hStarted, n, hBody⟩ := h.waits hPhase (by decide) (by decide)
    exact fail_good hStarted hBody event.2 e
  · next hPhase =>
    obtain ⟨hStarted, n, hBody⟩ := h.waits hPhase (by decide) (by decide)
    exact finish_good hStarted hBody event.2
  · next hPhase =>
    obtain ⟨hStarted, n, hBody⟩ := h.waits hPhase (by decide) (by decide)
    split
    · exact fail_good hStarted hBody event.2 _
    · exact finish_good hStarted hBody event.2
  · next hPhase => exact progress_good h hPhase (by decide) (by decide) event.2
  · next hPhase =>
    obtain ⟨hStarted, n, hBody⟩ := h.waits hPhase (by decide) (by decide)
    exact Good.resume hStarted hBody (After.refl r) (by decide) (by decide) r.subscription
  · next hPhase =>
    obtain ⟨hStarted, n, hBody⟩ := h.waits hPhase (by decide) (by decide)
    exact Good.resume hStarted hBody (After.refl r) (by decide) (by decide) r.subscription
  · next e _ hPhase =>
    obtain ⟨hStarted, n, hBody⟩ := h.waits hPhase (by decide) (by decide)
    exact fail_good hStarted hBody event.2 e
  · next e _ hPhase =>
    obtain ⟨hStarted, n, hBody⟩ := h.waits hPhase (by decide) (by decide)
    exact fail_good hStarted hBody event.2 e
  · next hPhase =>
    obtain ⟨hStarted, n, hBody⟩ := h.waits hPhase (by decide) (by decide)
    exact finish_good hStarted hBody event.2
  · exact h

/-- In every run, `onComplete` is called at most once and never after `cancel`, and exactly once
when the body of `start` ends without a `cancel` of the client; the error is set then exactly if an
exception was raised. -/
theorem completes_once (cacheResponse onResponse onDownloadProgress : Bool)
    (events : List (Event × Client)) :
    Honest (events.foldl next (fresh cacheResponse onResponse onDownloadProgress)) := by
  suffices h : ∀ r, Good r → Good (events.foldl next r) from (h _ (fresh_good ..)).honest
  induction events with
  | nil => exact fun r h => h
  | cons event events ih => exact fun r h => ih _ (next_good h event)

/-- A body that runs out of time calls `onComplete` from the handler alone, also if the callback
cancels the request. -/
example :
    ([(.start, ⟨[], [], []⟩), (.response, ⟨[], [], []⟩), (.timeout, ⟨[], [], [.cancel]⟩)].foldl next
      (fresh false true true)).log = [.completed, .canceled] := by
  decide

end Request

end RetroConfig
