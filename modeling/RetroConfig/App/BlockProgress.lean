import RetroConfig.App.BlockAssembly
import RetroConfig.App.BlockBookkeeping

/-!
# `MultiDownloader`: what goes on

A download that is not done goes on as long as something is in flight: a request for a block, or a
step of `start`, of a rebuild or of a test. `_checkDownload` requests blocks only while the tasks in
`_downloading` and `_failedCount` are together below `maxThreading`. A task that fails stays in
`_downloading`, and `_failedCount` is reset only when a block is done while others wait. So the last
request can end with no other begun, and without a call of `onFailed`.

`lively_iff` says which step does so: over every run, a download that is not done is always in
flight or has reported a failure, exactly if no step is one of these. What other activities do is
kept by every step (`Proceeds`), and `active_checkDownload` says when `_checkDownload` requests a
block.
-/

namespace RetroConfig.MultiDownloader

/-- Part of the download in blocks: a request, or a step of `start`, of a rebuild or of a test. -/
def Activity.Drives : Activity → Prop
  | .direct _ => False
  | _ => True

def Callback.isFailure : Callback → Bool
  | .onComplete _ => false
  | .onFailed _ => true

namespace State

/-- Something is in flight. -/
def Active (s : State) : Prop := ∃ id a, s.activities id = some a ∧ a.Drives

/-- Something else is in flight. -/
def Others (s : State) (id : Nat) : Prop := ∃ j a, j ≠ id ∧ s.activities j = some a ∧ a.Drives

/-- The file of a block is not there. -/
def Missing (s : State) : Prop := ∃ i < s.count, s.disk.blocks i = none

/-- A download in blocks that is not done. -/
def Lacks (s : State) : Prop := s.parting = true ∧ s.isDownloading = true ∧ s.Missing

/-- `_checkDownload` requests a task of the queue. -/
def Room (s : State) (queue : List Task) (running failures : Nat) : Prop :=
  queue ≠ [] ∧ running + failures < s.maxThreading ∧ s.totalLength ≠ none

/-- The answer is the last one that a block needs. -/
def finishes (s : State) : Op → Bool
  | .resume id .filed =>
    match s.activities id with
    | some (.request ⟨_, _, .writing _⟩) => true
    | _ => false
  | _ => false

/-- The calls that a step makes. -/
def newCalls (s : State) (op : Op) : List Callback := (s.next op).calls.drop s.calls.length

end State

/-- A state, and whether `onFailed` has been called since the last block was done. -/
structure Watch where
  state : State
  told : Bool

namespace Watch

open State

def next (w : Watch) (op : Op) : Watch :=
  ⟨w.state.next op, if w.state.finishes op then false
    else w.told || (w.state.newCalls op).any Callback.isFailure⟩

/-- What is not done is in flight, or a failure has been reported. -/
def Lively (w : Watch) : Prop :=
  w.state.parting = true → w.state.isDownloading = true →
    (∃ i < w.state.count, ¬ w.state.Finished i) → w.state.Active ∨ w.told = true

/-- A failure past the limit is reported; another one leaves room to request the queue, to which the
task is added, while it counts as one that is being downloaded. -/
def Retries (s : State) (task : Task) : Prop :=
  s.failedCount + 1 ≤ 5 → s.Lacks →
    s.Room (s.requeue task).pending s.downloading.length (s.failedCount + 1)

/-- A block that is done is the last of all, or leaves room to request the queue. -/
def Advances (s : State) (task : Task) : Prop :=
  s.parting = true → s.isDownloading = true →
    (∃ i < s.count, i ≠ task.index ∧ s.disk.blocks i = none) →
      s.queue = some [] ∧ s.downloading.erase task = [] ∨
        s.Room s.pending (s.downloading.erase task).length 0

/-- An answer has something else begin, if there is something left to do. -/
def Continues (s : State) (id : Nat) (answer : Answer) : Prop :=
  match s.activities id, answer with
  | some .head, .head eTag acceptRanges _ =>
    s.eTag ≠ none → s.eTag = eTag → acceptRanges = some "bytes" → s.isDownloading = true → s.Missing →
      s.Room s.pending s.downloading.length s.failedCount
  | some .head, .error _ => ¬ s.Lacks
  | some .clear, .filed =>
    s.totalLength = none → s.parting = true → s.isDownloading = true → s.count = 0
  | some (.build i restart), .filed =>
    s.count ≤ i + 1 → s.Lacks → restart = false ∧
      s.Room (if s.disk.blocks i = none then s.addTask i else s).pending s.downloading.length
        s.failedCount
  | some (.test i _), .filed => s.disk.blocks i = none → s.totalLength = none → ¬ s.Lacks
  | some (.request r), answer =>
    (r.phase.fails answer = true → Retries s r.task) ∧
      (s.finishes (.resume id answer) = true → Advances s r.task)
  | _, _ => True

/-- What a step is to meet. -/
def Moves (w : Watch) : Op → Prop
  | .resume id answer =>
    w.state.Others id ∨ (w.told = true ∧ w.state.finishes (.resume id answer) = false) ∨
      Continues w.state id answer
  | _ => True

end Watch

namespace State

variable {s t u : State} {id : Nat}

/-! ## What a step leaves -/

/-- A step of an activity leaves the others, and begins new ones at most. -/
structure Proceeds (s t : State) (id : Nat) : Prop where
  next : s.nextId ≤ t.nextId
  fresh : ∀ j, t.nextId ≤ j → t.activities j = none
  others : ∀ j < s.nextId, j ≠ id → t.activities j = s.activities j
  same : t.isComplete = s.isComplete

theorem Proceeds.refl (hFresh : ∀ j, s.nextId ≤ j → s.activities j = none) : Proceeds s s id :=
  ⟨Nat.le_refl _, hFresh, fun _ _ _ => rfl, rfl⟩

theorem Proceeds.trans (h : Proceeds s t id) (h' : Proceeds t u id) : Proceeds s u id := by
  refine ⟨Nat.le_trans h.next h'.next, h'.fresh, fun j hj hNe => ?_, h'.same.trans h.same⟩
  exact (h'.others j (Nat.lt_of_lt_of_le hj h.next) hNe).trans (h.others j hj hNe)

/-- A change that is not one of activities. -/
theorem Proceeds.congr (h : Proceeds s t id) (hAct : u.activities = t.activities)
    (hNext : u.nextId = t.nextId) (hSame : u.isComplete = t.isComplete) : Proceeds s u id := by
  refine ⟨?_, ?_, ?_, hSame.trans h.same⟩
  · rw [hNext]
    exact h.next
  · rw [hAct, hNext]
    exact h.fresh
  · rw [hAct]
    exact h.others

theorem Proceeds.put (h : Proceeds s t id) (hId : id < s.nextId) (a : Option Activity) :
    Proceeds s (t.put id a) id := by
  refine ⟨h.next, fun j hj => ?_, fun j hj hNe => ?_, h.same⟩
  · have hLe : t.nextId ≤ j := hj
    have hNe : j ≠ id := Nat.ne_of_gt (Nat.lt_of_lt_of_le hId (Nat.le_trans h.next hLe))
    rw [put_activities, if_neg hNe]
    exact h.fresh j hLe
  · rw [put_activities, if_neg hNe]
    exact h.others j hj hNe

theorem Proceeds.spawn (h : Proceeds s t id) (a : Activity) : Proceeds s (t.spawn a) id := by
  refine ⟨Nat.le_succ_of_le h.next, fun j hj => ?_, fun j hj hNe => ?_, h.same⟩
  · have hLt : t.nextId < j := hj
    exact (Function.update_of_ne (Nat.ne_of_gt hLt) _ _).trans (h.fresh j (Nat.le_of_lt hLt))
  · have hLt := Nat.lt_of_lt_of_le hj h.next
    exact (Function.update_of_ne (Nat.ne_of_lt hLt) _ _).trans (h.others j hj hNe)

theorem Proceeds.launch (h : Proceeds s t id) (task : Task) : Proceeds s (t.launch task) id := by
  have hAdd : Proceeds s { t with downloading := if task ∈ t.downloading then t.downloading
      else t.downloading ++ [task] } id := h.congr rfl rfl rfl
  unfold State.launch
  dsimp only
  split
  · exact hAdd
  · exact hAdd.spawn _

theorem Proceeds.checkDownload (h : Proceeds s t id) : Proceeds s t.checkDownload id :=
  checkDownload_induction (P := fun v _ => Proceeds s v id) (fun _ task _ h => h.launch task)
    (fun _ _ h => h.congr rfl rfl rfl) h

theorem Proceeds.start (h : Proceeds s t id) : Proceeds s t.start id := by
  rw [State.start]
  split
  · exact h
  · have hSet : Proceeds s { t with isDownloading := true } id := h.congr rfl rfl rfl
    exact hSet.spawn _

theorem Proceeds.download (h : Proceeds s t id) (hId : id < s.nextId) :
    Proceeds s (t.download id) id := by
  rw [State.download]
  split
  · exact (h.put hId _).checkDownload
  · exact h.put hId _

theorem Proceeds.buildFrom (h : Proceeds s t id) (hId : id < s.nextId) (restart : Bool) (i : Nat) :
    Proceeds s (t.buildFrom id restart i) id := by
  rw [State.buildFrom]
  split
  · exact h.put hId _
  · split
    · exact h.put hId _
    · split
      · exact (h.put hId _).start
      · exact h.download hId

theorem Proceeds.freshQueue (h : Proceeds s t id) (hId : id < s.nextId) (restart : Bool) :
    Proceeds s (t.freshQueue id restart) id := by
  rw [State.freshQueue]
  split
  · exact h.put hId _
  · next total _ =>
    have hSet : Proceeds s { t with blockCount := some (blockCountOf total), queue := some [] } id :=
      h.congr rfl rfl rfl
    exact hSet.buildFrom hId _ _

theorem Proceeds.addTask (h : Proceeds s t id) (i : Nat) : Proceeds s (t.addTask i) id :=
  ⟨Nat.le_succ_of_le h.next, fun j hj => h.fresh j (Nat.le_of_succ_le hj), h.others, h.same⟩

theorem Proceeds.stated (h : Proceeds s t id) (hId : id < s.nextId) (i : Nat) (restart : Bool) :
    Proceeds s (t.stated id i restart) id := by
  rw [State.stated]
  split
  · exact (h.addTask i).buildFrom hId _ _
  · exact h.buildFrom hId _ _

theorem Proceeds.answered (h : Proceeds s t id) (hId : id < s.nextId)
    (eTag acceptRanges : Option String) (contentLength : Option Nat) :
    Proceeds s (t.answered id eTag acceptRanges contentLength) id := by
  unfold State.answered
  dsimp only
  split
  · split
    · refine Proceeds.put ?_ hId _
      exact h.congr rfl rfl rfl
    · refine Proceeds.put ?_ hId _
      exact h.congr rfl rfl rfl
  · refine Proceeds.download ?_ hId
    exact h.congr rfl rfl rfl

theorem Proceeds.cleared (h : Proceeds s t id) (hId : id < s.nextId) :
    Proceeds s (t.cleared id) id := by
  have hEmpty : Proceeds s t.emptyDirectory id := h.congr rfl rfl rfl
  rw [State.cleared]
  split
  · exact hEmpty.freshQueue hId _
  · exact hEmpty.download hId

theorem Proceeds.testFrom (h : Proceeds s t id) (hId : id < s.nextId) (i offset : Nat) :
    Proceeds s (t.testFrom id i offset) id := by
  rw [State.testFrom]
  split
  · exact h.put hId _
  · split
    · exact h.put hId _
    · exact (h.put hId none).congr rfl rfl rfl

theorem Proceeds.tested (h : Proceeds s t id) (hId : id < s.nextId) (i offset : Nat) :
    Proceeds s (t.tested id i offset) id := by
  rw [State.tested]
  split
  · exact h.freshQueue hId _
  · next bytes _ =>
    have hAdd : Proceeds s (t.addStream offset bytes) id := h.congr rfl rfl rfl
    exact hAdd.testFrom hId _ _

theorem Proceeds.completed (h : Proceeds s t id) (hId : id < s.nextId) (task : Task) :
    Proceeds s (t.completed id task) id := by
  have hRemove : Proceeds s (t.remove task) id := h.congr rfl rfl rfl
  unfold State.completed
  dsimp only
  split
  · split
    · have hOutput : Proceeds s ((t.remove task).writeOutput []) id := hRemove.congr rfl rfl rfl
      exact hOutput.testFrom hId _ _
    · exact hRemove.put hId _
  · have hReset : Proceeds s { t.remove task with failedCount := 0 } id := hRemove.congr rfl rfl rfl
    exact (hReset.put hId _).checkDownload

theorem Proceeds.failed (h : Proceeds s t id) (hId : id < s.nextId) (task : Task) (message : String) :
    Proceeds s (t.failed id task message) id := by
  have hNote : Proceeds s (t.noteFailure id message) id := (h.put hId none).congr rfl rfl rfl
  unfold State.failed
  dsimp only
  split
  · exact hNote.congr rfl rfl rfl
  · have hBack : Proceeds s ((t.noteFailure id message).requeue task) id := hNote.congr rfl rfl rfl
    exact hBack.checkDownload

theorem Proceeds.requestStep (h : Proceeds s s id) (hId : id < s.nextId) (r : Request)
    (answer : Answer) : Proceeds s (s.requestStep id r answer) id := by
  have hStep := requestStep_cases s id r answer
  generalize s.requestStep id r answer = t at hStep ⊢
  cases hStep with
  | ignored => exact h
  | listens =>
    have hListen : Proceeds s (s.listen r.task id) id := h.congr rfl rfl rfl
    exact hListen.put hId _
  | receives | ends => exact h.put hId _
  | opens =>
    have hWrite : Proceeds s (s.writeBlock r.task.index []) id := h.congr rfl rfl rfl
    exact hWrite.put hId _
  | completes body =>
    have hWrite : Proceeds s (s.writeBlock r.task.index body) id := h.congr rfl rfl rfl
    exact hWrite.completed hId _
  | fails message => exact h.failed hId _ _

theorem Proceeds.directStep (h : Proceeds s s id) (hId : id < s.nextId) (phase : Phase)
    (answer : Answer) : Proceeds s (s.directStep id phase answer) id := by
  have hFailed : ∀ message, Proceeds s (s.directFailed id message) id := fun _ =>
    (h.put hId none).congr rfl rfl rfl
  unfold State.directStep
  split
  · split
    · exact h.put hId _
    · exact hFailed _
  · exact hFailed _
  · exact h.put hId _
  · exact h.put hId _
  · exact hFailed _
  · have hOutput : Proceeds s (s.writeOutput []) id := h.congr rfl rfl rfl
    exact hOutput.put hId _
  · next body =>
    have hOutput : Proceeds s (s.writeOutput body) id := h.congr rfl rfl rfl
    exact (hOutput.put hId none).congr rfl rfl rfl
  · exact h

theorem Proceeds.resume (hFresh : ∀ j, s.nextId ≤ j → s.activities j = none) (answer : Answer) :
    Proceeds s (s.resume id answer) id := by
  have h : Proceeds s s id := .refl hFresh
  cases hAct : s.activities id with
  | none =>
    rw [resume_of_none answer hAct]
    exact h
  | some a =>
    have hId : id < s.nextId := by
      by_contra hLe
      rw [hFresh id (Nat.le_of_not_lt hLe)] at hAct
      cases hAct
    unfold State.resume
    split
    · exact h.answered hId _ _ _
    · exact h.put hId _
    · exact h.cleared hId
    · exact h.stated hId _ _
    · exact h.tested hId _ _
    · exact h.directStep hId _ _
    · exact h.requestStep hId _ _
    · exact h

/-! ## Every state of a run -/

/-- New activities have new numbers; an output that was there from the start is not built. -/
structure Wired (s : State) : Prop where
  fresh : ∀ j, s.nextId ≤ j → s.activities j = none
  complete : s.isComplete = true → s.queue = none ∧ s.blockCount = none ∧
    ∀ j a, s.activities j = some a → Calm a

theorem stopLoop_frame (s : State) (rest : List Task) :
    (s.stopLoop rest).isComplete = s.isComplete ∧ (s.stopLoop rest).nextId = s.nextId ∧
      (s.stopLoop rest).isDownloading = s.isDownloading ∧
        (s.stopLoop rest).blockCount = s.blockCount ∧
          (s.queue = none → (s.stopLoop rest).queue = none) ∧
            ∀ j a, (s.stopLoop rest).activities j = some a → s.activities j = some a := by
  induction rest generalizing s with
  | nil => exact ⟨rfl, rfl, rfl, rfl, fun h => h, fun _ _ h => h⟩
  | cons task rest ih =>
    rw [stopLoop]
    split
    · exact ⟨rfl, rfl, rfl, rfl, fun h => h, fun _ _ h => h⟩
    · next id _ =>
      obtain ⟨-, hCount, hQueue, hNext, -⟩ := cancel_frame s id
      have hSame : (s.cancel id).isComplete = s.isComplete ∧
          (s.cancel id).isDownloading = s.isDownloading := by
        unfold cancel
        split <;> exact ⟨rfl, rfl⟩
      obtain ⟨hComplete', hNext', hDown', hCount', hQueue', hBack'⟩ :=
        ih { s.cancel id with queue := (s.cancel id).queue.map (task :: ·) }
      refine ⟨hComplete'.trans hSame.1, hNext'.trans hNext, hDown'.trans hSame.2,
        hCount'.trans hCount, fun hNone => hQueue' ?_,
        fun j a hAct => cancel_activities (hBack' j a hAct)⟩
      rw [hQueue, hNone]
      rfl

theorem checkDownload_of_none (h : s.queue = none) : s.checkDownload = s := by
  rw [checkDownload, h]

/-- An activity that has nothing to do with blocks goes on as such an activity. -/
theorem Wired.calm (h : Wired s) (hComplete : s.isComplete = true) {answer : Answer} :
    (s.resume id answer).queue = none ∧ (s.resume id answer).blockCount = none ∧
      ∀ j a, (s.resume id answer).activities j = some a → Calm a := by
  obtain ⟨hQueue, hCount, hCalm⟩ := h.complete hComplete
  have hPut : ∀ (t : State) (b : Option Activity), t.activities = s.activities →
      (∀ a, b = some a → Calm a) → ∀ j a, (t.put id b).activities j = some a → Calm a := by
    intro t b hSame hb j a hAct
    rw [put_activities, hSame] at hAct
    split at hAct
    · exact hb a hAct
    · exact hCalm j a hAct
  have hEnd : ∀ t : State, t.activities = s.activities →
      ∀ j a, (t.put id none).activities j = some a → Calm a :=
    fun t hSame => hPut t none hSame fun _ => nofun
  have hDirect : ∀ (t : State) phase, t.activities = s.activities →
      ∀ j a, (t.put id (some (.direct phase))).activities j = some a → Calm a :=
    fun t phase hSame => hPut t _ hSame fun a ha => Option.some.inj ha ▸ trivial
  unfold State.resume
  split
  · unfold State.answered
    simp only [hComplete, if_true]
    split
    · exact ⟨hQueue, hCount, hEnd _ rfl⟩
    · rw [State.download]
      split
      · have hNone : ∀ t : State, t.queue = none → t.blockCount = none →
            t.activities = s.activities → (t.put id none).checkDownload.queue = none ∧
              (t.put id none).checkDownload.blockCount = none ∧
                ∀ j a, (t.put id none).checkDownload.activities j = some a → Calm a := by
          intro t hNil hZero hSame
          have hStill : (t.put id none).checkDownload = t.put id none := checkDownload_of_none hNil
          rw [hStill]
          exact ⟨hNil, hZero, hEnd t hSame⟩
        exact hNone _ hQueue hCount rfl
      · exact ⟨hQueue, hCount, hDirect _ _ rfl⟩
  · exact ⟨hQueue, hCount, hEnd s rfl⟩
  · next hAct => exact (hCalm id _ hAct).elim
  · next hAct => exact (hCalm id _ hAct).elim
  · next hAct => exact (hCalm id _ hAct).elim
  · next hAct =>
    have hAside := fun answer => aside_directStep answer h.fresh hAct
    refine ⟨(hAside _).queue.trans hQueue, (hAside _).blockCount.trans hCount, fun j a ha => ?_⟩
    rcases (hAside _).old ha with hNew | ⟨-, hOld⟩
    · exact hNew
    · exact hCalm j a hOld
  · next hAct => exact (hCalm id _ hAct).elim
  · exact ⟨hQueue, hCount, hCalm⟩

theorem Wired.next (h : Wired s) (op : Op) : Wired (s.next op) := by
  cases op with
  | start =>
    have hStart : Proceeds s s.start s.nextId := Proceeds.start (.refl h.fresh)
    refine ⟨hStart.fresh, fun hComplete => ?_⟩
    obtain ⟨hQueue, hCount, hCalm⟩ := h.complete (hStart.same ▸ hComplete)
    rw [State.next, State.start]
    split
    · exact ⟨hQueue, hCount, hCalm⟩
    · refine ⟨hQueue, hCount, fun j a hAct => ?_⟩
      have hAct : Function.update s.activities s.nextId (some .head) j = some a := hAct
      rw [Function.update_apply] at hAct
      split at hAct
      · exact Option.some.inj hAct ▸ trivial
      · exact hCalm j a hAct
  | stop =>
    rw [State.next, State.stop]
    split
    · obtain ⟨hSame, hNext, -, hCount, hQueue, hBack⟩ :=
        stopLoop_frame { s with isDownloading := false } s.downloading
      refine ⟨fun j hj => ?_, fun hComplete => ?_⟩
      · rw [hNext] at hj
        cases hAct : ({ s with isDownloading := false }.stopLoop s.downloading).activities j with
        | none => rfl
        | some a =>
          have hOld := hBack j a hAct
          rw [h.fresh j hj] at hOld
          cases hOld
      · obtain ⟨hNone, hZero, hCalm⟩ := h.complete (hSame ▸ hComplete)
        exact ⟨hQueue hNone, hCount.trans hZero, fun j a hAct => hCalm j a (hBack j a hAct)⟩
    · exact h
  | resume id answer =>
    have hResume : Proceeds s (s.resume id answer) id := .resume h.fresh answer
    exact ⟨hResume.fresh, fun hComplete => h.calm (hResume.same ▸ hComplete)⟩

theorem wired_prepare (maxThreading : Nat) (disk : Disk) : Wired (prepare maxThreading disk) := by
  have hQuiet : ∀ t : State, t.activities = (fun _ => none) → t.isComplete = false → Wired t := by
    intro t hNone hNot
    refine ⟨fun j _ => by rw [hNone], fun hComplete => ?_⟩
    rw [hNot] at hComplete
    cases hComplete
  unfold prepare
  split
  · exact ⟨fun _ _ => rfl, fun _ => ⟨rfl, rfl, fun _ _ => nofun⟩⟩
  · split <;> exact hQuiet _ rfl rfl

/-! ## What is in flight after a step -/

theorem active_put_none : (s.put id none).Active ↔ s.Others id := by
  constructor
  · rintro ⟨j, a, hAct, hDrives⟩
    obtain ⟨hNe, hOld⟩ := put_none_activities hAct
    exact ⟨j, a, hNe, hOld, hDrives⟩
  · rintro ⟨j, a, hNe, hAct, hDrives⟩
    refine ⟨j, a, ?_, hDrives⟩
    rw [put_activities, if_neg hNe]
    exact hAct

theorem active_put {a : Activity} (h : a.Drives) : (s.put id (some a)).Active :=
  ⟨id, a, by rw [put_activities, if_pos rfl], h⟩

theorem active_spawn {a : Activity} (h : a.Drives) : (s.spawn a).Active :=
  ⟨s.nextId, a, Function.update_self _ _ _, h⟩

/-- What else is in flight is there after the step. -/
theorem Proceeds.active (h : Proceeds s t id) (hFresh : ∀ j, s.nextId ≤ j → s.activities j = none)
    (hOthers : s.Others id) : t.Active := by
  obtain ⟨j, a, hNe, hAct, hDrives⟩ := hOthers
  have hLt : j < s.nextId := by
    by_contra hLe
    rw [hFresh j (Nat.le_of_not_lt hLe)] at hAct
    cases hAct
  exact ⟨j, a, (h.others j hLt hNe).trans hAct, hDrives⟩

/-- `launch` begins a request if the total length is known. -/
theorem active_launch (s : State) (task : Task) :
    (s.launch task).Active ↔ s.Active ∨ s.totalLength ≠ none := by
  unfold launch
  dsimp only
  split
  · next hNone =>
    rw [hNone]
    exact ⟨.inl, fun h => h.resolve_right fun hNot => hNot rfl⟩
  · next total hSome =>
    refine ⟨fun _ => .inr ?_, fun _ => active_spawn trivial⟩
    rw [hSome]
    exact Option.some_ne_none total

theorem active_checkLoop (hFresh : ∀ j, s.nextId ≤ j → s.activities j = none) (rest : List Task) :
    (s.checkLoop rest).Active ↔ s.Active ∨ s.Room rest s.downloading.length s.failedCount := by
  induction rest generalizing s with
  | nil => exact ⟨.inl, fun h => h.resolve_right fun hRoom => hRoom.1 rfl⟩
  | cons task rest ih =>
    obtain ⟨-, -, hTotal, -, -, -⟩ := launch_frame s task
    rw [checkLoop]
    split
    · next hRoom =>
      rw [ih (launch_fresh hFresh task), active_launch]
      constructor
      · rintro ((hOld | hKnown) | hLater)
        · exact .inl hOld
        · exact .inr ⟨List.cons_ne_nil _ _, hRoom, hKnown⟩
        · exact .inr ⟨List.cons_ne_nil _ _, hRoom, hTotal ▸ hLater.2.2⟩
      · rintro (hOld | hNow)
        · exact .inl (.inl hOld)
        · exact .inl (.inr hNow.2.2)
    · next hFull => exact ⟨.inl, fun h => h.resolve_right fun hRoom => hFull hRoom.2.1⟩

/-- `_checkDownload` requests a block if there is room. -/
theorem active_checkDownload (hFresh : ∀ j, s.nextId ≤ j → s.activities j = none) :
    s.checkDownload.Active ↔ s.Active ∨ s.Room s.pending s.downloading.length s.failedCount := by
  unfold checkDownload pending
  cases s.queue with
  | none => exact ⟨.inl, fun h => h.resolve_right fun hRoom => hRoom.1 rfl⟩
  | some q => exact active_checkLoop hFresh q

theorem checkDownload_parting (s : State) : s.checkDownload.parting = s.parting := by
  refine checkDownload_induction (P := fun t _ => t.parting = s.parting) (fun t task _ h => ?_)
    (fun _ _ h => h) rfl
  rw [← h]
  unfold launch
  dsimp only
  split <;> rfl

theorem lacks_checkDownload (s : State) : s.checkDownload.Lacks ↔ s.Lacks := by
  obtain ⟨hDisk, hCount, -, hDown, -⟩ := checkDownload_frame s
  rw [Lacks, Lacks, Missing, Missing, count, count, hDisk, hCount, hDown, checkDownload_parting]

end State

namespace Watch

open State

variable {w : Watch} {id : Nat} {answer : Answer}

theorem lively_iff_lacks : w.Lively ↔ (w.state.Lacks → w.state.Active ∨ w.told = true) := by
  constructor
  · rintro h ⟨hParting, hDown, i, hi, hNone⟩
    exact h hParting hDown ⟨i, hi, fun hFinished => hFinished.1 hNone⟩
  · rintro h hParting hDown ⟨i, hi, hNot⟩
    by_cases hNone : w.state.disk.blocks i = none
    · exact h ⟨hParting, hDown, i, hi, hNone⟩
    · -- the file is still being written
      by_contra hIdle
      refine hNot ⟨hNone, fun id r body hAct _ _ => hIdle (.inl ⟨id, _, hAct, trivial⟩)⟩

theorem told_of_calls {op : Op} (hNot : w.state.finishes op = false)
    (hCalls : (w.state.next op).calls = w.state.calls) : (w.next op).told = w.told := by
  rw [next, hNot, newCalls, hCalls, List.drop_length]
  exact Bool.or_false _

theorem told_mono {op : Op} (hNot : w.state.finishes op = false) (h : w.told = true) :
    (w.next op).told = true := by
  rw [next, hNot, h]
  rfl

/-- With nothing else in flight, a step that makes no call leaves a download in flight if it has
something begin. -/
theorem lively_quiet {p : Prop} {op : Op} (hNot : w.state.finishes op = false)
    (hCalls : (w.state.next op).calls = w.state.calls)
    (hBegins : ((w.state.next op).Lacks → (w.state.next op).Active) ↔ p) :
    (w.next op).Lively ↔ (w.told = true ∧ w.state.finishes op = false) ∨ p := by
  rw [lively_iff_lacks, told_of_calls hNot hCalls, ← hBegins]
  constructor
  · intro h
    by_cases hTold : w.told = true
    · exact .inl ⟨hTold, hNot⟩
    · exact .inr fun hLacks => (h hLacks).resolve_right hTold
  · rintro (⟨hTold, -⟩ | hBegin) hLacks
    · exact .inr hTold
    · exact .inl (hBegin hLacks)

/-- A step after which something is in flight, or nothing is left to do. -/
theorem lively_moves {op : Op} {p q : Prop}
    (hLively : (w.next op).state.Lacks → (w.next op).state.Active) (hp : p) :
    (w.next op).Lively ↔ q ∨ p :=
  iff_of_true (lively_iff_lacks.mpr fun hLacks => .inl (hLively hLacks)) (.inr hp)

theorem not_lacks_of_count {s : State} (h : s.count = 0) : ¬ s.Lacks := by
  rintro ⟨-, -, i, hi, -⟩
  omega

theorem count_of_none {s : State} (h : s.blockCount = none) : s.count = 0 := congrArg (·.getD 0) h

theorem finishes_eq {s : State} (h : ∀ r, s.activities id ≠ some (.request r)) :
    s.finishes (.resume id answer) = false := by
  unfold finishes
  split
  · next h' =>
    split
    · next hAct =>
      obtain ⟨rfl, rfl⟩ := Op.resume.inj h'
      exact absurd hAct (h _)
    · rfl
  · rfl

theorem finishes_of_act {s : State} {a : Activity} (hAct : s.activities id = some a)
    (hNot : ∀ r, a ≠ .request r) : s.finishes (.resume id answer) = false := by
  refine finishes_eq fun r hSame => ?_
  rw [hAct] at hSame
  exact hNot r (Option.some.inj hSame)

/-- An answer that nothing waits for. -/
theorem lively_same {op : Op} (h : w.Lively) (hNot : w.state.finishes op = false)
    (hSame : w.state.next op = w.state) : (w.next op).Lively := by
  have hTold : (w.next op).told = w.told := told_of_calls hNot (by rw [hSame])
  have hState : (w.next op).state = w.state := hSame
  rw [lively_iff_lacks, hTold, hState]
  exact lively_iff_lacks.mp h

theorem lacks_put_checkDownload (s : State) (id : Nat) :
    (s.put id none).checkDownload.Lacks ↔ s.Lacks :=
  lacks_checkDownload _

/-- `_checkDownload` when nothing else is in flight. -/
theorem active_put_checkDownload {s : State} (hFresh : ∀ j, s.nextId ≤ j → s.activities j = none)
    (hAlone : ¬ s.Others id) : (s.put id none).checkDownload.Active ↔
      s.Room s.pending s.downloading.length s.failedCount := by
  have hPut : ∀ j, (s.put id none).nextId ≤ j → (s.put id none).activities j = none := by
    intro j hj
    rw [put_activities]
    split
    · rfl
    · exact hFresh j hj
  rw [active_checkDownload hPut, active_put_none]
  exact ⟨fun h => h.resolve_left hAlone, .inr⟩

/-- The end of `start`, when nothing else is in flight. -/
theorem download_begins {s : State} (hFresh : ∀ j, s.nextId ≤ j → s.activities j = none)
    (hAlone : ¬ s.Others id) : ((s.download id).Lacks → (s.download id).Active) ↔
      (s.Lacks → s.Room s.pending s.downloading.length s.failedCount) := by
  rw [download]
  split
  · rw [lacks_put_checkDownload, active_put_checkDownload hFresh hAlone]
  · next hDirect =>
    exact iff_of_true (fun hLacks => absurd hLacks.1 hDirect) fun hLacks => absurd hLacks.1 hDirect

theorem download_calls (s : State) (id : Nat) : (s.download id).calls = s.calls := by
  rw [download]
  split
  · exact checkDownload_calls _
  · rfl

theorem lively_head (hWired : Wired w.state) (hLively : w.Lively)
    (hAct : w.state.activities id = some .head) (hAlone : ¬ w.state.Others id) :
    (w.next (.resume id answer)).Lively ↔
      (w.told = true ∧ w.state.finishes (.resume id answer) = false) ∨
        Continues w.state id answer := by
  have hNot : w.state.finishes (.resume id answer) = false := finishes_of_act hAct fun _ => nofun
  unfold Continues
  cases answer with
  | head eTag acceptRanges contentLength =>
    have hNext : w.state.next (.resume id (.head eTag acceptRanges contentLength)) =
        w.state.answered id eTag acceptRanges contentLength := by
      simp only [State.next, State.resume, hAct]
    simp only [hAct]
    by_cases hChanged : w.state.eTag = none ∨ w.state.eTag ≠ eTag
    · refine lively_moves ?_ fun hSome hEq => (hChanged.elim hSome fun hNe => hNe hEq).elim
      have hState : (w.next (.resume id (.head eTag acceptRanges contentLength))).state =
        w.state.answered id eTag acceptRanges contentLength := hNext
      rw [hState, answered]
      dsimp only
      rw [if_pos hChanged]
      split
      · next hComplete =>
        obtain ⟨-, hCount, -⟩ := hWired.complete hComplete
        exact fun hLacks => absurd hLacks (not_lacks_of_count (count_of_none hCount))
      · exact fun _ => active_put trivial
    · obtain ⟨hSome, hSame⟩ := not_or.mp hChanged
      have hState : w.state.next (.resume id (.head eTag acceptRanges contentLength)) =
          { w.state with parting := decide (acceptRanges = some "bytes") }.download id := by
        rw [hNext, answered]
        dsimp only
        rw [if_neg hChanged]
      refine lively_quiet hNot (by rw [hState]; exact download_calls _ _) ?_
      have hBegins := download_begins
        (s := { w.state with parting := decide (acceptRanges = some "bytes") }) hWired.fresh hAlone
      rw [hState]
      refine hBegins.trans ⟨fun h _ _ hBytes hDown hMissing => ?_, fun h hLacks => ?_⟩
      · exact h ⟨decide_eq_true hBytes, hDown, hMissing⟩
      · exact h hSome (not_not.mp hSame) (of_decide_eq_true hLacks.1) hLacks.2.1 hLacks.2.2
  | error message =>
    have hNext : w.state.next (.resume id (.error message)) = w.state.put id none := by
      simp only [State.next, State.resume, hAct]
    simp only [hAct]
    refine lively_quiet hNot (by rw [hNext]; rfl) ?_
    rw [hNext, active_put_none]
    exact ⟨fun h hLacks => hAlone (h hLacks), fun h hLacks => absurd hLacks h⟩
  | _ =>
    simp only [hAct]
    refine iff_of_true (lively_same hLively hNot ?_) (.inr trivial)
    simp only [State.next, State.resume, hAct]

/-- `start` while nothing is in flight. -/
theorem start_begins {s : State} (hIdle : ¬ s.Active) :
    (s.start.Lacks → s.start.Active) ↔ ¬ s.Lacks := by
  rw [State.start]
  split
  · exact ⟨fun h hLacks => hIdle (h hLacks), fun h hLacks => absurd hLacks h⟩
  · next hStopped =>
    exact iff_of_true (fun _ => active_spawn trivial) fun hLacks => hStopped hLacks.2.1

theorem start_calls (s : State) : s.start.calls = s.calls := by
  rw [State.start]
  split <;> rfl

/-- A rebuild goes on with the next block, or ends. -/
theorem buildFrom_begins {s : State} (hFresh : ∀ j, s.nextId ≤ j → s.activities j = none)
    (hAlone : ¬ s.Others id) (restart : Bool) (i : Nat) :
    ((s.buildFrom id restart i).Lacks → (s.buildFrom id restart i).Active) ↔
      (s.count ≤ i → s.Lacks → restart = false ∧
        s.Room s.pending s.downloading.length s.failedCount) := by
  rw [buildFrom]
  split
  · next hNone =>
    have hZero := not_lacks_of_count (count_of_none hNone)
    exact iff_of_true (fun hLacks => absurd hLacks hZero) fun _ hLacks => absurd hLacks hZero
  · next n hSome =>
    rw [count_eq hSome]
    split
    · next hLt => exact iff_of_true (fun _ => active_put trivial) fun hLe => by omega
    · next hLe =>
      have hLe : n ≤ i := Nat.le_of_not_lt hLe
      split
      · next hRestart =>
        rw [start_begins (by rwa [active_put_none])]
        refine ⟨fun h _ hLacks => absurd hLacks h, fun h hLacks => ?_⟩
        rw [hRestart] at h
        cases (h hLe hLacks).1
      · next hFirst =>
        rw [download_begins hFresh hAlone]
        refine ⟨fun h _ hLacks => ⟨?_, h hLacks⟩, fun h hLacks => (h hLe hLacks).2⟩
        exact Bool.eq_false_iff.mpr hFirst

theorem buildFrom_calls (s : State) (id : Nat) (restart : Bool) (i : Nat) :
    (s.buildFrom id restart i).calls = s.calls := by
  rw [buildFrom]
  split
  · rfl
  · split
    · rfl
    · split
      · exact start_calls _
      · exact download_calls _ _

/-- `_freshQueue` when nothing else is in flight. -/
theorem freshQueue_begins {s : State} (hFresh : ∀ j, s.nextId ≤ j → s.activities j = none)
    (hAlone : ¬ s.Others id) (restart : Bool) :
    ((s.freshQueue id restart).Lacks → (s.freshQueue id restart).Active) ↔
      (s.totalLength = none → ¬ s.Lacks) := by
  rw [freshQueue]
  split
  · next hNone =>
    rw [active_put_none]
    refine ⟨fun h _ hLacks => hAlone (h hLacks), fun h hLacks => absurd hLacks (h hNone)⟩
  · next total hSome =>
    refine iff_of_true ?_ fun hNone => by rw [hSome] at hNone; cases hNone
    have hBegins := buildFrom_begins
      (s := { s with blockCount := some (blockCountOf total), queue := some [] }) hFresh hAlone
      restart 0
    refine hBegins.mpr fun hLe hLacks => absurd hLacks (not_lacks_of_count (Nat.le_zero.mp hLe))

theorem freshQueue_calls (s : State) (id : Nat) (restart : Bool) :
    (s.freshQueue id restart).calls = s.calls := by
  rw [freshQueue]
  split
  · rfl
  · exact buildFrom_calls _ _ _ _

theorem lively_clear (hWired : Wired w.state) (hLively : w.Lively)
    (hAct : w.state.activities id = some .clear) (hAlone : ¬ w.state.Others id) :
    (w.next (.resume id answer)).Lively ↔
      (w.told = true ∧ w.state.finishes (.resume id answer) = false) ∨
        Continues w.state id answer := by
  have hNot : w.state.finishes (.resume id answer) = false := finishes_of_act hAct fun _ => nofun
  unfold Continues
  cases answer with
  | filed =>
    have hNext : w.state.next (.resume id .filed) = w.state.cleared id := by
      simp only [State.next, State.resume, hAct]
    simp only [hAct]
    refine lively_quiet hNot ?_ ?_
    · rw [hNext, cleared]
      split
      · exact freshQueue_calls _ _ _
      · exact download_calls _ _
    · rw [hNext, cleared]
      split
      · next hParting =>
        have hBegins := freshQueue_begins (s := w.state.emptyDirectory) hWired.fresh hAlone false
        refine hBegins.trans ⟨fun h hNone _ hDown => ?_, fun h hNone hLacks => ?_⟩
        · by_contra hCount
          exact h hNone ⟨hParting, hDown, 0, Nat.pos_of_ne_zero hCount, rfl⟩
        · have hCount : w.state.emptyDirectory.count = 0 := h hNone hLacks.1 hLacks.2.1
          exact not_lacks_of_count hCount hLacks
      · next hDirect =>
        have hBegins := download_begins (s := w.state.emptyDirectory) hWired.fresh hAlone
        refine hBegins.trans (iff_of_true (fun hLacks => absurd hLacks.1 hDirect) ?_)
        exact fun _ hParting => absurd hParting hDirect
  | _ =>
    simp only [hAct]
    refine iff_of_true (lively_same hLively hNot ?_) (.inr trivial)
    simp only [State.next, State.resume, hAct]

theorem lively_build (hWired : Wired w.state) (hLively : w.Lively) {i : Nat} {restart : Bool}
    (hAct : w.state.activities id = some (.build i restart)) (hAlone : ¬ w.state.Others id) :
    (w.next (.resume id answer)).Lively ↔
      (w.told = true ∧ w.state.finishes (.resume id answer) = false) ∨
        Continues w.state id answer := by
  have hNot : w.state.finishes (.resume id answer) = false := finishes_of_act hAct fun _ => nofun
  unfold Continues
  cases answer with
  | filed =>
    have hNext : w.state.next (.resume id .filed) = w.state.stated id i restart := by
      simp only [State.next, State.resume, hAct]
    simp only [hAct]
    refine lively_quiet hNot ?_ ?_
    · rw [hNext, stated, buildFrom_calls]
      split <;> rfl
    · rw [hNext, stated]
      split
      · have hFresh : ∀ j, (w.state.addTask i).nextId ≤ j → (w.state.addTask i).activities j = none :=
          fun j hj => hWired.fresh j (Nat.le_of_succ_le hj)
        exact buildFrom_begins (s := w.state.addTask i) hFresh hAlone restart (i + 1)
      · exact buildFrom_begins hWired.fresh hAlone restart (i + 1)
  | _ =>
    simp only [hAct]
    refine iff_of_true (lively_same hLively hNot ?_) (.inr trivial)
    simp only [State.next, State.resume, hAct]

theorem testFrom_begins (s : State) (id i offset : Nat) (hLacks : (s.testFrom id i offset).Lacks) :
    (s.testFrom id i offset).Active := by
  rw [testFrom] at hLacks ⊢
  split at hLacks
  · next hNone => exact absurd hLacks (not_lacks_of_count (count_of_none hNone))
  · split at hLacks
    · next hLt =>
      rw [if_pos hLt]
      exact active_put trivial
    · cases hLacks.2.1

theorem lively_test (hWired : Wired w.state) (hLively : w.Lively) {i offset : Nat}
    (hAct : w.state.activities id = some (.test i offset)) (hAlone : ¬ w.state.Others id) :
    (w.next (.resume id answer)).Lively ↔
      (w.told = true ∧ w.state.finishes (.resume id answer) = false) ∨
        Continues w.state id answer := by
  have hNot : w.state.finishes (.resume id answer) = false := finishes_of_act hAct fun _ => nofun
  unfold Continues
  cases answer with
  | filed =>
    have hNext : w.state.next (.resume id .filed) = w.state.tested id i offset := by
      simp only [State.next, State.resume, hAct]
    simp only [hAct]
    cases hBlock : w.state.disk.blocks i with
    | none =>
      have hState : w.state.next (.resume id .filed) = w.state.freshQueue id true := by
        rw [hNext, tested, hBlock]
      refine lively_quiet hNot (by rw [hState]; exact freshQueue_calls _ _ _) ?_
      rw [hState, freshQueue_begins hWired.fresh hAlone]
      exact ⟨fun h _ => h, fun h => h rfl⟩
    | some bytes =>
      refine lively_moves ?_ nofun
      have hState : (w.next (.resume id .filed)).state =
          (w.state.addStream offset bytes).testFrom id (i + 1) (offset + bytes.length) := by
        show w.state.next (.resume id .filed) = _
        rw [hNext, tested, hBlock]
      rw [hState]
      exact testFrom_begins _ _ _ _
  | _ =>
    simp only [hAct]
    refine iff_of_true (lively_same hLively hNot ?_) (.inr trivial)
    simp only [State.next, State.resume, hAct]

/-- A direct download goes on, or nothing is being downloaded any more. -/
theorem lacks_directStep {s : State} {phase : Phase} (h : (s.directStep id phase answer).Lacks) :
    s.Lacks := by
  unfold directStep at h
  split at h
  · split at h
    · exact h
    · cases h.2.1
  · cases h.2.1
  · exact h
  · exact h
  · cases h.2.1
  · exact h
  · cases h.2.1
  · exact h

theorem lively_direct (hLively : w.Lively) {phase : Phase}
    (hAct : w.state.activities id = some (.direct phase)) (hAlone : ¬ w.state.Others id) :
    (w.next (.resume id answer)).Lively := by
  have hNot : w.state.finishes (.resume id answer) = false := finishes_of_act hAct fun _ => nofun
  have hNext : w.state.next (.resume id answer) = w.state.directStep id phase answer := by
    cases answer <;> simp only [State.next, State.resume, hAct]
  have hIdle : ¬ w.state.Active := by
    rintro ⟨j, a, ha, hDrives⟩
    by_cases hj : j = id
    · rw [hj, hAct] at ha
      cases ha
      exact hDrives
    · exact hAlone ⟨j, a, hj, ha, hDrives⟩
  rw [lively_iff_lacks] at hLively ⊢
  intro hLacks
  have hState : (w.next (.resume id answer)).state = w.state.directStep id phase answer := hNext
  rw [hState] at hLacks
  exact .inr (told_mono hNot ((hLively (lacks_directStep hLacks)).resolve_left hIdle))

/-! ## Requests -/

theorem requestStep_of_fails {s : State} {r : Request} (h : r.phase.fails answer = true) :
    ∃ message, s.requestStep id r answer = s.failed id r.task message := by
  obtain ⟨task, range, phase⟩ := r
  cases phase with
  | waiting =>
    cases answer with
    | status code =>
      have hCode : ¬ (200 ≤ code ∧ code < 300) := by
        rintro ⟨hLe, hLt⟩
        simp [Phase.fails, hLe, hLt] at h
      exact ⟨"Status code " ++ toString code, if_neg hCode⟩
    | error message => exact ⟨message, rfl⟩
    | _ => cases h
  | receiving body =>
    cases answer with
    | error message => exact ⟨message, rfl⟩
    | _ => cases h
  | saving body =>
    cases answer with
    | filed =>
      have hBody : body = [] := List.isEmpty_iff.mp h
      exact ⟨"Response body is empty.", if_pos hBody⟩
    | _ => cases h
  | writing body => cases answer <;> cases h

theorem finishes_iff {s : State} {r : Request} (hAct : s.activities id = some (.request r)) :
    s.finishes (.resume id answer) = true ↔ (∃ body, r.phase = .writing body) ∧ answer = .filed := by
  obtain ⟨task, range, phase⟩ := r
  cases answer with
  | filed =>
    simp only [finishes, hAct]
    cases phase with
    | writing body => exact iff_of_true rfl ⟨⟨body, rfl⟩, trivial⟩
    | _ => exact iff_of_false nofun (by rintro ⟨⟨body, hPhase⟩, -⟩; cases hPhase)
  | _ => exact iff_of_false nofun (by rintro ⟨-, hAnswer⟩; cases hAnswer)

/-- A request that neither fails nor is done goes on. -/
theorem active_requestStep {s : State} {r : Request} (hAct : s.activities id = some (.request r))
    (hFails : r.phase.fails answer = false) (hNot : s.finishes (.resume id answer) = false) :
    (s.requestStep id r answer).Active := by
  have hGoes : ∀ (t : State) phase, (t.setPhase id r phase).Active := fun t phase =>
    active_put trivial
  unfold requestStep
  split
  · next code hPhase =>
    split
    · exact hGoes _ _
    · next hCode =>
      rw [hPhase, Phase.fails, Bool.not_eq_false', Bool.and_eq_true, decide_eq_true_iff,
        decide_eq_true_iff] at hFails
      exact absurd hFails hCode
  · next hPhase =>
    rw [hPhase] at hFails
    cases hFails
  · exact hGoes _ _
  · exact hGoes _ _
  · next hPhase =>
    rw [hPhase] at hFails
    cases hFails
  · next body hPhase =>
    split
    · next hBody =>
      rw [hPhase, hBody] at hFails
      cases hFails
    · exact hGoes _ _
  · next body hPhase =>
    rw [(finishes_iff hAct).mpr ⟨⟨body, hPhase⟩, rfl⟩] at hNot
    cases hNot
  · exact ⟨id, _, hAct, trivial⟩

theorem lively_failed (hWired : Wired w.state) {r : Request} {message : String}
    (hNext : w.state.next (.resume id answer) = w.state.failed id r.task message)
    (hFails : r.phase.fails answer = true) (hNot : w.state.finishes (.resume id answer) = false)
    (hAlone : ¬ w.state.Others id) :
    (w.next (.resume id answer)).Lively ↔
      (w.told = true ∧ w.state.finishes (.resume id answer) = false) ∨
        ((r.phase.fails answer = true → Retries w.state r.task) ∧
          (w.state.finishes (.resume id answer) = true → Advances w.state r.task)) := by
  have hNoted : (w.state.noteFailure id message).failedCount = w.state.failedCount + 1 := rfl
  by_cases hLimit : w.state.failedCount + 1 ≤ 5
  · have hState : w.state.next (.resume id answer) =
        ((w.state.noteFailure id message).requeue r.task).checkDownload := by
      rw [hNext, failed]
      exact if_neg (by rw [hNoted]; omega)
    refine lively_quiet hNot (by rw [hState, checkDownload_calls]; rfl) ?_
    have hFresh : ∀ j, ((w.state.noteFailure id message).requeue r.task).nextId ≤ j →
        ((w.state.noteFailure id message).requeue r.task).activities j = none := by
      intro j hj
      show (w.state.put id none).activities j = none
      rw [put_activities]
      split
      · rfl
      · exact hWired.fresh j hj
    have hIdle : ¬ ((w.state.noteFailure id message).requeue r.task).Active := fun hActive =>
      hAlone (active_put_none.mp hActive)
    have hLacks : ((w.state.noteFailure id message).requeue r.task).Lacks ↔ w.state.Lacks := Iff.rfl
    have hRoom : ((w.state.noteFailure id message).requeue r.task).Room
        ((w.state.noteFailure id message).requeue r.task).pending
        ((w.state.noteFailure id message).requeue r.task).downloading.length
        ((w.state.noteFailure id message).requeue r.task).failedCount ↔
        w.state.Room (w.state.requeue r.task).pending w.state.downloading.length
          (w.state.failedCount + 1) := Iff.rfl
    rw [hState, lacks_checkDownload, active_checkDownload hFresh, hLacks, hRoom, or_iff_right hIdle]
    constructor
    · refine fun h => ⟨fun _ _ => h, fun hTrue => ?_⟩
      rw [hNot] at hTrue
      cases hTrue
    · exact fun h => h.1 hFails hLimit
  · refine iff_of_true ?_ (.inr ⟨fun _ hLe => absurd hLe hLimit, fun hTrue => ?_⟩)
    · have hState : w.state.next (.resume id answer) = { w.state.noteFailure id message with
          calls := w.state.calls ++ [.onFailed message] } := by
        rw [hNext, failed]
        exact if_pos (by rw [hNoted]; omega)
      have hCalls : (w.state.next (.resume id answer)).calls =
          w.state.calls ++ [.onFailed message] := by
        rw [hState]
      rw [lively_iff_lacks, next, hNot, newCalls, hCalls, List.drop_left]
      exact fun _ => .inr (Bool.or_true _)
    · rw [hNot] at hTrue
      cases hTrue

theorem missing_writeBlock (s : State) (k : Nat) (body : List UInt8) :
    (s.writeBlock k body).Missing ↔ ∃ i < s.count, i ≠ k ∧ s.disk.blocks i = none := by
  constructor
  · rintro ⟨i, hi, hNone⟩
    have hUpdate : Function.update s.disk.blocks k (some body) i = none := hNone
    rw [Function.update_apply] at hUpdate
    split at hUpdate
    · cases hUpdate
    · next hNe => exact ⟨i, hi, hNe, hUpdate⟩
  · rintro ⟨i, hi, hNe, hNone⟩
    exact ⟨i, hi, (Function.update_of_ne hNe _ _).trans hNone⟩

/-- A block is done, and nothing else is in flight. -/
theorem completed_begins {s : State} (hFresh : ∀ j, s.nextId ≤ j → s.activities j = none)
    (hAlone : ¬ s.Others id) (task : Task) :
    ((s.completed id task).Lacks → (s.completed id task).Active) ↔
      (s.Lacks → s.queue = some [] ∧ s.downloading.erase task = [] ∨
        s.Room s.pending (s.downloading.erase task).length 0) := by
  unfold completed
  dsimp only
  split
  · next hQueue =>
    have hQueue : s.queue = some [] := hQueue
    have hNoRoom : ∀ n, ¬ s.Room s.pending n 0 := by
      intro n hRoom
      exact hRoom.1 (congrArg (·.getD []) hQueue)
    split
    · next hNone => exact iff_of_true (testFrom_begins _ _ _ _) fun _ => .inl ⟨hQueue, hNone⟩
    · next hLeft =>
      rw [active_put_none]
      constructor
      · exact fun h hLacks => absurd (h hLacks) hAlone
      · exact fun h hLacks => ((h hLacks).elim (fun hNone => hLeft hNone.2) (hNoRoom _)).elim
  · next hQueue =>
    rw [lacks_put_checkDownload,
      active_put_checkDownload (s := { s.remove task with failedCount := 0 }) hFresh hAlone]
    constructor
    · exact fun h hLacks => .inr (h hLacks)
    · exact fun h hLacks => (h hLacks).resolve_left fun hNone => hQueue hNone.1

theorem lively_request (hWired : Wired w.state) {r : Request}
    (hAct : w.state.activities id = some (.request r)) (hAlone : ¬ w.state.Others id) :
    (w.next (.resume id answer)).Lively ↔
      (w.told = true ∧ w.state.finishes (.resume id answer) = false) ∨
        Continues w.state id answer := by
  have hNext : w.state.next (.resume id answer) = w.state.requestStep id r answer := by
    cases answer <;> simp only [State.next, State.resume, hAct]
  have hContinues : Continues w.state id answer ↔
      (r.phase.fails answer = true → Retries w.state r.task) ∧
        (w.state.finishes (.resume id answer) = true → Advances w.state r.task) := by
    unfold Continues
    cases answer <;> simp only [hAct]
  rw [hContinues]
  by_cases hDone : w.state.finishes (.resume id answer) = true
  · obtain ⟨⟨body, hPhase⟩, rfl⟩ := (finishes_iff hAct).mp hDone
    have hState : w.state.next (.resume id .filed) =
        (w.state.writeBlock r.task.index body).completed id r.task := by
      rw [hNext]
      unfold requestStep
      rw [hPhase]
    have hTold : (w.next (.resume id .filed)).told = false := by
      rw [next, hDone]
      rfl
    have hBegins := completed_begins (s := w.state.writeBlock r.task.index body) hWired.fresh hAlone
      r.task
    have hMissing := missing_writeBlock w.state r.task.index body
    rw [lively_iff_lacks, hTold, hDone]
    show ((w.state.next (.resume id .filed)).Lacks →
      (w.state.next (.resume id .filed)).Active ∨ _) ↔ _
    rw [hState]
    constructor
    · refine fun h => .inr ⟨fun hFails => ?_, fun _ hParting hDown hLeft => ?_⟩
      · exact absurd hPhase (Phase.not_writing_of_fails hFails body)
      · refine hBegins.mp (fun hLacks => (h hLacks).resolve_right nofun) ⟨hParting, hDown, ?_⟩
        exact hMissing.mpr hLeft
    · rintro (⟨-, hFalse⟩ | ⟨-, h⟩)
      · cases hFalse
      · refine fun hLacks => .inl (hBegins.mpr (fun hLeft => ?_) hLacks)
        exact h rfl hLeft.1 hLeft.2.1 (hMissing.mp hLeft.2.2)
  · have hNot : w.state.finishes (.resume id answer) = false := Bool.eq_false_iff.mpr hDone
    by_cases hFails : r.phase.fails answer = true
    · have hStep : ∃ message, w.state.requestStep id r answer = w.state.failed id r.task message :=
        requestStep_of_fails hFails
      obtain ⟨message, hStep⟩ := hStep
      exact lively_failed hWired (hNext.trans hStep) hFails hNot hAlone
    · have hGoes := active_requestStep hAct (Bool.eq_false_iff.mpr hFails) hNot
      refine lively_moves (fun _ => ?_)
        ⟨fun hTrue => absurd hTrue hFails, fun hTrue => absurd hTrue hDone⟩
      show (w.state.next (.resume id answer)).Active
      rw [hNext]
      exact hGoes

/-! ## Runs -/

/-- A step keeps a download in flight exactly if it has something begin, or something else is in
flight. -/
theorem lively_next (hWired : Wired w.state) (hLively : w.Lively) (op : Op) :
    (w.next op).Lively ↔ w.Moves op := by
  cases op with
  | start =>
    refine iff_of_true ?_ trivial
    by_cases hDown : w.state.isDownloading = true
    · exact lively_same hLively rfl (by rw [State.next, State.start, if_pos hDown])
    · refine lively_iff_lacks.mpr fun _ => .inl ?_
      show w.state.start.Active
      rw [State.start, if_neg hDown]
      exact active_spawn trivial
  | stop =>
    refine iff_of_true ?_ trivial
    by_cases hDown : w.state.isDownloading = true
    · refine lively_iff_lacks.mpr fun hLacks => ?_
      obtain ⟨-, -, hStopped, -⟩ :=
        stopLoop_frame { w.state with isDownloading := false } w.state.downloading
      have hDown' : w.state.stop.isDownloading = true := hLacks.2.1
      rw [State.stop, if_pos hDown, hStopped] at hDown'
      cases hDown'
    · exact lively_same hLively rfl (by rw [State.next, State.stop, if_neg hDown])
  | resume id answer =>
    by_cases hAlone : w.state.Others id
    · refine iff_of_true (lively_iff_lacks.mpr fun _ => .inl ?_) (.inl hAlone)
      exact (Proceeds.resume hWired.fresh answer).active hWired.fresh hAlone
    · have hMoves : w.Moves (.resume id answer) ↔
          (w.told = true ∧ w.state.finishes (.resume id answer) = false) ∨
            Continues w.state id answer := ⟨fun h => h.resolve_left hAlone, .inr⟩
      rw [hMoves]
      cases hAct : w.state.activities id with
      | none =>
        have hNot : w.state.finishes (.resume id answer) = false :=
          finishes_eq fun r => by rw [hAct]; exact (Option.some_ne_none _).symm
        refine iff_of_true (lively_same hLively hNot (resume_of_none answer hAct)) (.inr ?_)
        unfold Continues
        simp only [hAct]
      | some a =>
        cases a with
        | head => exact lively_head hWired hLively hAct hAlone
        | clear => exact lively_clear hWired hLively hAct hAlone
        | build i restart => exact lively_build hWired hLively hAct hAlone
        | test i offset => exact lively_test hWired hLively hAct hAlone
        | direct phase =>
          refine iff_of_true (lively_direct hLively hAct hAlone) (.inr ?_)
          unfold Continues
          cases answer <;> simp only [hAct]
        | request r => exact lively_request hWired hAct hAlone

end Watch

open State Watch

/-- Over every run of `start`, `stop` and answers: in every state of it a download in blocks that is
not done is in flight or has reported a failure since the last block was done, exactly if every step
has something begin, or something else is in flight. -/
theorem lively_iff (maxThreading : Nat) (disk : Disk) (ops : List Op) :
    Transition.Always Watch.next Lively ⟨prepare maxThreading disk, false⟩ ops ↔
      Transition.Each Watch.next Moves ⟨prepare maxThreading disk, false⟩ ops := by
  have hLegal : Transition.Each Watch.next (fun _ _ => True) ⟨prepare maxThreading disk, false⟩ ops :=
    Transition.each_of_forall (fun _ _ => trivial) _ _
  refine Transition.always_iff (I := fun w => Wired w.state) (fun w op hLively hWired _ => ?_)
    (fun w op _ hWired _ _ => hWired.next op) (fun _ hDown _ => ?_) (wired_prepare maxThreading disk)
    hLegal
  · exact lively_next hWired hLively op
  · have hStopped : (prepare maxThreading disk).isDownloading = false := by
      unfold prepare
      split
      · rfl
      · split <;> rfl
    rw [hStopped] at hDown
    cases hDown

/-- With the default `maxThreading` the only block fails four times. -/
theorem lively_fails : ¬ Transition.Always Watch.next Lively ⟨prepare 5 noFiles, false⟩
    [.start, .resume 0 (.head (some "a") (some "bytes") (some 3)), .resume 0 .filed,
      .resume 0 .filed, .resume 2 (.error ""), .resume 3 (.error ""), .resume 4 (.error ""),
      .resume 5 (.error "")] := by
  intro h
  have hLast := h.2.2.2.2.2.2.2.2
  rcases hLast rfl rfl ⟨0, by decide, fun hDone => hDone.1 rfl⟩ with ⟨id, a, hAct, -⟩ | hTold
  · rcases id with _ | _ | _ | _ | _ | _ | id <;> cases hAct
  · cases hTold

end RetroConfig.MultiDownloader
