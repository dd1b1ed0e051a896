import RetroConfig.Library.Transition
import Mathlib.Data.List.Basic
import Mathlib.Tactic.Common

/-!
# `DownloadItem`: watching a download

A `DownloadItem` (`lib/utils/download_manager.dart`) hands a download to the platform
(`downloader_manager.dart`) and watches it: every five seconds a timer asks for the state of the
downloader, and the platform reports when the download is complete, after which the item looks
whether the file is there. Each of the three answers comes after some time, and each of them sets the
status and may cancel the timer, whatever has happened to the item in the meantime.

An answer that comes late can leave an item downloading that nothing watches, or end the watch of
the next download. `monitored_always_iff` says exactly which answers come too late.
-/

namespace RetroConfig

inductive DownloadStatus where
  | none
  | downloading
  | complete
  deriving DecidableEq

/-- `Status` of a `DownloadState`, as the platform answers it. -/
inductive Downloader.Status where
  | none
  | downloading
  | complete
  deriving DecidableEq

/-- A `DownloadItem`. Downloaders are numbered in the order in which `start` makes them, the one the
item is set up with being the first; a timer has the number of the downloader it was made for.
`timer` is the field `_timer`, `running` the timers that have not been cancelled. The questions that
wait for an answer, and the looks for the file, have the downloader they are about. `causes` has an
entry for each step in which the status has left `downloading` or the timer was cancelled: the
downloader that the step was about, if any, and the downloader of the item. -/
structure DownloadItem where
  status : DownloadStatus
  downloader : Nat
  timer : Option Nat
  running : List Nat
  registered : List Nat
  queries : List Nat
  checks : List Nat
  causes : List (Option Nat × Nat)

namespace DownloadItem

/-- The constructor `_`, by whether the file is there. -/
def new (found : Bool) : DownloadItem :=
  ⟨if found then .complete else .none, 0, none, [], [], [], [], []⟩

/-- `_cancelTimer`. -/
def cancelTimer (item : DownloadItem) : DownloadItem :=
  match item.timer with
  | none => item
  | some t => { item with timer := none, running := item.running.erase t }

/-- `_processDownloader`; the callbacks are registered later, when the downloader has an id. -/
def processDownloader (item : DownloadItem) : DownloadItem :=
  { item with timer := some item.downloader, running := item.running ++ [item.downloader] }

/-- The constructor `_setup`, by the state of the downloader. -/
def setup : Downloader.Status → DownloadItem
  | .none => new false
  | .downloading => processDownloader { new false with status := .downloading }
  | .complete => new true

/-- `start`. -/
def start (item : DownloadItem) : DownloadItem :=
  if item.status = .none then
    processDownloader { item with downloader := item.downloader + 1, status := .downloading }
  else item

/-- The rest of the callback of the timer, with the state that was answered. -/
def answered (item : DownloadItem) : Downloader.Status → DownloadItem
  | .none => cancelTimer { item with status := .none }
  | .downloading => { item with status := .downloading }
  | .complete => cancelTimer { item with status := .complete }

/-- `_checkStatus` up to its `await`. -/
def checkStatus (item : DownloadItem) (d : Nat) : DownloadItem :=
  { cancelTimer item with checks := item.checks ++ [d] }

inductive Event where
  | start
  /-- The platform has given the downloader an id, and `onComplete` is registered. -/
  | ready (downloader : Nat)
  | tick (timer : Nat)
  /-- The answer to a question, by its place among those that wait. -/
  | reply (query : Nat) (state : Downloader.Status)
  /-- The platform reports that the download is complete. -/
  | complete (downloader : Nat)
  /-- The answer of `file.exists()`. -/
  | fileExists (check : Nat) (found : Bool)

/-- What an event does to an item. -/
def step (item : DownloadItem) : Event → DownloadItem
  | .start => item.start
  | .ready d => { item with registered := d :: item.registered }
  | .tick t =>
    if t ∈ item.running then { item with queries := item.queries ++ [item.downloader] } else item
  | .reply i state =>
    match item.queries[i]? with
    | none => item
    | some _ => answered { item with queries := item.queries.eraseIdx i } state
  | .complete d => if d ∈ item.registered then item.checkStatus d else item
  | .fileExists i found =>
    match item.checks[i]? with
    | none => item
    | some _ =>
      { item with
        checks := item.checks.eraseIdx i
        status := if found then .complete else .none }

/-- The downloader that an event is about. -/
def about (item : DownloadItem) : Event → Option Nat
  | .reply i _ => item.queries[i]?
  | .complete d => some d
  | .fileExists i _ => item.checks[i]?
  | _ => none

/-- A step after which the status has left `downloading`, or the timer is cancelled. -/
def Ends (item after : DownloadItem) : Prop :=
  item.status = .downloading ∧ after.status ≠ .downloading ∨ item.timer ≠ none ∧ after.timer = none

instance (item after : DownloadItem) : Decidable (Ends item after) :=
  inferInstanceAs (Decidable (_ ∨ _))

/-- A step, with its cause if it ends something. -/
def next (item : DownloadItem) (event : Event) : DownloadItem :=
  let after := item.step event
  if Ends item after then
    { after with causes := item.causes ++ [(item.about event, item.downloader)] }
  else after

/-- The timer of the item runs, or it is looking for the file. -/
def Watched (item : DownloadItem) : Prop :=
  (∃ t, item.timer = some t ∧ t ∈ item.running) ∨ item.checks ≠ []

/-- An item that is downloading is watched, and only what is about its own downloader has ended a
download or its watch. -/
structure Monitored (item : DownloadItem) : Prop where
  watched : item.status = .downloading → item.Watched
  causes : ∀ c ∈ item.causes, c.1 = some c.2

/-- An answer that does not come too late: the platform says `downloading` only of an item that is
watched, and anything else that is about an earlier downloader finds nothing to end. -/
def Timely (item : DownloadItem) : Event → Prop
  | .reply i .downloading => item.queries[i]? ≠ none → item.Watched
  | .reply i _ => ∀ d, item.queries[i]? = some d →
      d = item.downloader ∨ (item.status ≠ .downloading ∧ item.timer = none)
  | .complete d => d ∈ item.registered → d = item.downloader ∨ item.timer = none
  | .fileExists i _ => ∀ d, item.checks[i]? = some d → d = item.downloader ∨ item.status ≠ .downloading
  | _ => True

/-! ## One event -/

@[simp] theorem cancelTimer_status (item : DownloadItem) :
    item.cancelTimer.status = item.status := by
  rw [cancelTimer]
  split <;> rfl

@[simp] theorem cancelTimer_timer (item : DownloadItem) : item.cancelTimer.timer = none := by
  rw [cancelTimer]
  split
  · next hTimer => exact hTimer
  · rfl

@[simp] theorem cancelTimer_causes (item : DownloadItem) :
    item.cancelTimer.causes = item.causes := by
  rw [cancelTimer]
  split <;> rfl

theorem step_causes (item : DownloadItem) (event : Event) :
    (item.step event).causes = item.causes := by
  cases event with
  | start =>
    rw [step, start]
    split <;> rfl
  | ready d => rfl
  | tick t =>
    rw [step]
    split <;> rfl
  | reply i state =>
    rw [step]
    split
    · rfl
    · cases state <;> simp [answered]
  | complete d =>
    rw [step]
    split
    · simp [checkStatus]
    · rfl
  | fileExists i found =>
    rw [step]
    split <;> rfl

/-- What a step has to do so that the item is still watched as it should be. -/
theorem next_monitored {item : DownloadItem} (h : Monitored item) (event : Event) :
    Monitored (item.next event) ↔
      ((item.step event).status = .downloading → (item.step event).Watched) ∧
        (Ends item (item.step event) → item.about event = some item.downloader) := by
  rw [next]
  split
  · next hEnds =>
    constructor
    · intro hNext
      refine ⟨hNext.watched, fun _ => ?_⟩
      exact hNext.causes (item.about event, item.downloader) (List.mem_append_right _ (by simp))
    · rintro ⟨hWatched, hAbout⟩
      refine ⟨hWatched, fun c hc => ?_⟩
      rcases List.mem_append.mp hc with hOld | hNew
      · exact h.causes c hOld
      · rw [List.mem_singleton.mp hNew]
        exact hAbout hEnds
  · next hEnds =>
    constructor
    · exact fun hNext => ⟨hNext.watched, fun hEnd => absurd hEnd hEnds⟩
    · rintro ⟨hWatched, -⟩
      refine ⟨hWatched, ?_⟩
      rw [step_causes]
      exact h.causes

/-- A step that ends nothing: the timer stays, and the status does not leave `downloading`. -/
theorem not_ends {item after : DownloadItem} (hTimer : after.timer = none → item.timer = none)
    (hStatus : item.status = .downloading → after.status = .downloading) : ¬ Ends item after := by
  rintro (⟨hOld, hNew⟩ | ⟨hOld, hNew⟩)
  · exact hNew (hStatus hOld)
  · exact hOld (hTimer hNew)

/-- A step that ends whatever there is to end. -/
theorem stop_monitored_iff {item after : DownloadItem} {about : Option Nat}
    (hStatus : after.status ≠ .downloading) (hTimer : after.timer = none) :
    ((after.status = .downloading → after.Watched) ∧
        (Ends item after → about = some item.downloader)) ↔
      (about = some item.downloader ∨ (item.status ≠ .downloading ∧ item.timer = none)) := by
  have hEnds : Ends item after ↔ ¬ (item.status ≠ .downloading ∧ item.timer = none) := by
    rw [Ends]
    simp only [hStatus, hTimer, ne_eq, not_false_eq_true, and_true, not_and_or, not_not]
  rw [hEnds]
  constructor
  · rintro ⟨-, hAbout⟩
    by_cases hIdle : item.status ≠ .downloading ∧ item.timer = none
    · exact Or.inr hIdle
    · exact Or.inl (hAbout hIdle)
  · rintro (hAbout | hIdle)
    · exact ⟨fun hNot => absurd hNot hStatus, fun _ => hAbout⟩
    · exact ⟨fun hNot => absurd hNot hStatus, fun hNot => absurd hIdle hNot⟩

/-- A step that does not touch the status or the timer, and takes no look for the file away. -/
theorem keep_monitored {item after : DownloadItem} {about : Option Nat} (h : Monitored item)
    (hStatus : after.status = item.status) (hTimer : after.timer = item.timer)
    (hRunning : after.running = item.running) (hChecks : after.checks = item.checks) :
    (after.status = .downloading → after.Watched) ∧
      (Ends item after → about = some item.downloader) := by
  refine ⟨fun hDown => ?_, fun hEnds => absurd hEnds (not_ends ?_ ?_)⟩
  · rw [Watched, hTimer, hRunning, hChecks]
    exact h.watched (hStatus ▸ hDown)
  · exact fun hNone => hTimer ▸ hNone
  · exact fun hDown => hStatus ▸ hDown

theorem reply_monitored_iff {item : DownloadItem} (h : Monitored item) (i : Nat)
    (state : Downloader.Status) :
    (((item.step (.reply i state)).status = .downloading → (item.step (.reply i state)).Watched) ∧
        (Ends item (item.step (.reply i state)) → item.queries[i]? = some item.downloader)) ↔
      item.Timely (.reply i state) := by
  cases hQuery : item.queries[i]? with
  | none =>
    have hStep : item.step (.reply i state) = item := by
      simp only [step, hQuery]
    rw [hStep]
    refine iff_of_true (keep_monitored h rfl rfl rfl rfl) ?_
    cases state <;> simp [Timely, hQuery]
  | some d =>
    have hStep : item.step (.reply i state) =
        answered { item with queries := item.queries.eraseIdx i } state := by
      simp only [step, hQuery]
    rw [hStep]
    cases state with
    | none =>
      rw [stop_monitored_iff (by simp [answered]) (by simp [answered])]
      simp [Timely, hQuery]
    | complete =>
      rw [stop_monitored_iff (by simp [answered]) (by simp [answered])]
      simp [Timely, hQuery]
    | downloading =>
      have hEnds : ¬ Ends item
          (answered { item with queries := item.queries.eraseIdx i } .downloading) :=
        not_ends id fun _ => rfl
      simp only [Timely, hQuery, ne_eq, reduceCtorEq, not_false_eq_true, forall_const]
      exact ⟨fun hStep => hStep.1 rfl, fun hWatched => ⟨fun _ => hWatched, fun hEnd => absurd hEnd hEnds⟩⟩

theorem complete_monitored_iff {item : DownloadItem} (h : Monitored item) (d : Nat) :
    (((item.step (.complete d)).status = .downloading → (item.step (.complete d)).Watched) ∧
        (Ends item (item.step (.complete d)) → some d = some item.downloader)) ↔
      item.Timely (.complete d) := by
  by_cases hRegistered : d ∈ item.registered
  · have hStep : item.step (.complete d) = item.checkStatus d := by
      rw [step, if_pos hRegistered]
    have hWatched : (item.checkStatus d).Watched := Or.inr (by simp [checkStatus])
    have hEnds : Ends item (item.checkStatus d) ↔ item.timer ≠ none := by
      rw [Ends]
      simp [checkStatus]
    rw [hStep, hEnds, Option.some.injEq, Timely]
    constructor
    · rintro ⟨-, hAbout⟩ -
      by_cases hTimer : item.timer = none
      · exact Or.inr hTimer
      · exact Or.inl (hAbout hTimer)
    · intro hTimely
      exact ⟨fun _ => hWatched, fun hTimer => (hTimely hRegistered).resolve_right hTimer⟩
  · have hStep : item.step (.complete d) = item := by
      rw [step, if_neg hRegistered]
    rw [hStep]
    exact iff_of_true (keep_monitored h rfl rfl rfl rfl) fun hMem => absurd hMem hRegistered

theorem fileExists_monitored_iff {item : DownloadItem} (h : Monitored item) (i : Nat) (found : Bool) :
    (((item.step (.fileExists i found)).status = .downloading →
          (item.step (.fileExists i found)).Watched) ∧
        (Ends item (item.step (.fileExists i found)) → item.checks[i]? = some item.downloader)) ↔
      item.Timely (.fileExists i found) := by
  cases hCheck : item.checks[i]? with
  | none =>
    have hStep : item.step (.fileExists i found) = item := by
      simp only [step, hCheck]
    rw [hStep]
    exact iff_of_true (keep_monitored h rfl rfl rfl rfl) fun d hd => by rw [hCheck] at hd; cases hd
  | some d =>
    have hStep : item.step (.fileExists i found) =
        { item with
          checks := item.checks.eraseIdx i
          status := if found then .complete else .none } := by
      simp only [step, hCheck]
    have hStatus : (if found then DownloadStatus.complete else .none) ≠ .downloading := by
      split <;> decide
    have hEnds : Ends item (item.step (.fileExists i found)) ↔ item.status = .downloading := by
      rw [hStep, Ends]
      simp [hStatus]
    rw [hEnds, hStep, Option.some.injEq]
    simp only [Timely, hCheck, Option.some.injEq, forall_eq']
    constructor
    · rintro ⟨-, hAbout⟩
      by_cases hDown : item.status = .downloading
      · exact Or.inl (hAbout hDown)
      · exact Or.inr hDown
    · intro hTimely
      exact ⟨fun hDown => absurd hDown hStatus, fun hDown => hTimely.resolve_right (not_not.mpr hDown)⟩

theorem next_monitored_iff {item : DownloadItem} {event : Event} (h : Monitored item) :
    Monitored (item.next event) ↔ item.Timely event := by
  rw [next_monitored h]
  cases event with
  | start =>
    refine iff_of_true ?_ trivial
    rw [step, start]
    split
    · next hStatus =>
      refine ⟨fun _ => Or.inl ⟨_, rfl, List.mem_append_right _ (List.mem_singleton_self _)⟩, ?_⟩
      refine fun hEnds => absurd hEnds (not_ends (fun hNone => by cases hNone) fun hDown => ?_)
      rw [hStatus] at hDown
      cases hDown
    · exact keep_monitored h rfl rfl rfl rfl
  | ready d => exact iff_of_true (keep_monitored h rfl rfl rfl rfl) trivial
  | tick t =>
    refine iff_of_true ?_ trivial
    rw [step]
    split <;> exact keep_monitored h rfl rfl rfl rfl
  | reply i state => exact reply_monitored_iff h i state
  | complete d => exact complete_monitored_iff h d
  | fileExists i found => exact fileExists_monitored_iff h i found

/-! ## Runs -/

/-- The items that the constructors make. -/
inductive Made : DownloadItem → Prop where
  | new (found : Bool) : Made (new found)
  | setup (state : Downloader.Status) : Made (setup state)

theorem Made.monitored {item : DownloadItem} (h : Made item) : Monitored item := by
  have hNew : ∀ found, Monitored (DownloadItem.new found) := by
    intro found
    refine ⟨fun hDown => ?_, fun c hc => by cases hc⟩
    cases found <;> cases hDown
  cases h with
  | new found => exact hNew found
  | setup state =>
    cases state with
    | none => exact hNew false
    | complete => exact hNew true
    | downloading =>
      exact ⟨fun _ => Or.inl ⟨0, rfl, List.mem_singleton_self 0⟩, fun c hc => by cases hc⟩

/-- In every run of an item, it is watched while it downloads, and only what is about its own
downloader ends the download or the watch, exactly if no answer comes too late. -/
theorem monitored_always_iff {item : DownloadItem} {events : List Event} (h : Made item) :
    Transition.Always next Monitored item events ↔ Transition.Each next Timely item events :=
  Transition.always_iff (I := fun _ => True) (fun _ _ hMonitored _ _ => next_monitored_iff hMonitored)
    (fun _ _ _ _ _ _ => trivial) h.monitored trivial
    (Transition.each_of_forall (fun _ _ => trivial) _ events)

/-- Two downloads, the first of which fails; its answer comes before the second one starts. -/
theorem monitored_retry :
    Transition.Always next Monitored (new false)
      [.start, .ready 1, .tick 1, .reply 0 .none, .start, .ready 2, .tick 2, .reply 0 .downloading,
        .complete 2, .fileExists 0 true] := by
  refine (monitored_always_iff (.new false)).mpr
    ⟨trivial, trivial, trivial, ?_, trivial, trivial, trivial, ?_, ?_, ?_, trivial⟩
  · intro d hQuery
    exact Or.inl (Option.some.inj (hQuery.symm.trans rfl))
  · exact fun _ => Or.inl ⟨2, rfl, by decide⟩
  · exact fun _ => Or.inl rfl
  · intro d hCheck
    exact Or.inl (Option.some.inj (hCheck.symm.trans rfl))

/-- The second answer about a download that has failed ends the next one; and an answer from
before the end of a download leaves the item downloading without a timer. -/
theorem monitored_fails :
    ¬ Transition.Always next Monitored (new false)
        [.start, .ready 1, .tick 1, .tick 1, .reply 0 .none, .start, .reply 0 .none] ∧
      ¬ Transition.Always next Monitored (new false)
        [.start, .ready 1, .tick 1, .complete 1, .fileExists 0 false, .reply 0 .downloading] := by
  constructor
  · intro h
    exact absurd (h.2.2.2.2.2.2.2.causes (some 1, 2) (by decide)) (by decide)
  · intro h
    rcases h.2.2.2.2.2.2.watched (by decide) with ⟨t, hTimer, -⟩ | hChecks
    · cases hTimer
    · exact absurd hChecks (by decide)

end DownloadItem

end RetroConfig
