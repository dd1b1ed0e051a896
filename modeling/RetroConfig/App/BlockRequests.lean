import RetroConfig.App.MultiDownloader
import Mathlib.Data.List.Nodup

/-!
# `MultiDownloader`: requests in flight

However blocks fail and are requested again, a request in flight is of a task in `_downloading`,
and of a block that is not in the queue; no two are of the same block. `_checkDownload` keeps this, and
`checkDownload_induction` is its rule for other invariants. `requestStep_cases` says what an
answer does to a request.
-/

namespace RetroConfig.MultiDownloader

/-- An answer after which a request fails. -/
def Phase.fails : Phase → State.Answer → Bool
  | .waiting, .status code => !(200 ≤ code && code < 300)
  | .waiting, .error _ => true
  | .receiving _, .error _ => true
  | .saving body, .filed => body.isEmpty
  | _, _ => false

namespace State

variable {s t : State} {q d rest : List Task}

/-- The tasks in the queue. -/
def pending (s : State) : List Task := s.queue.getD []

def count (s : State) : Nat := s.blockCount.getD 0

theorem count_eq {n : Nat} (h : s.blockCount = some n) : s.count = n := congrArg (·.getD 0) h

/-- Requests in flight are of tasks in `d`, one of a block, and of no block that waits in `q`. -/
structure Requests (s : State) (q d : List Task) : Prop where
  fresh : ∀ id, s.nextId ≤ id → s.activities id = none
  tracked : ∀ id r, s.activities id = some (.request r) → r.task ∈ d
  single : ∀ i j r r', s.activities i = some (.request r) → s.activities j = some (.request r') →
    r.task.index = r'.task.index → i = j
  listed : (q.map Task.index).Nodup
  apart : ∀ task ∈ q, ∀ id r, s.activities id = some (.request r) → r.task.index ≠ task.index

/-- Requests that are there were there before, for the same tasks. -/
theorem Requests.of_back (h : Requests s q d) (hFresh : ∀ id, t.nextId ≤ id → t.activities id = none)
    (hBack : ∀ j r, t.activities j = some (.request r) →
      ∃ r', s.activities j = some (.request r') ∧ r'.task = r.task) : Requests t q d := by
  refine ⟨hFresh, fun id r hr => ?_, fun i j r r' hr hr' hIndex => ?_, h.listed,
    fun task hTask id r hr => ?_⟩
  · obtain ⟨r₀, hr₀, hTask⟩ := hBack id r hr
    exact hTask ▸ h.tracked id r₀ hr₀
  · obtain ⟨r₀, hr₀, hTask⟩ := hBack i r hr
    obtain ⟨r₁, hr₁, hTask'⟩ := hBack j r' hr'
    exact h.single i j r₀ r₁ hr₀ hr₁ (by rw [hTask, hTask', hIndex])
  · obtain ⟨r₀, hr₀, hSame⟩ := hBack id r hr
    exact hSame ▸ h.apart task hTask id r₀ hr₀

@[simp] theorem put_activities (s : State) (id : Nat) (a : Option Activity) (j : Nat) :
    (s.put id a).activities j = if j = id then a else s.activities j := Function.update_apply ..

theorem lt_nextId (h : Requests s q d) {id : Nat} {a : Activity} (hAct : s.activities id = some a) :
    id < s.nextId := by
  by_contra hLe
  rw [h.fresh id (Nat.le_of_not_lt hLe)] at hAct
  cases hAct

theorem launch_downloading (s : State) (task : Task) : (s.launch task).downloading =
    if task ∈ s.downloading then s.downloading else s.downloading ++ [task] := by
  unfold launch
  dsimp only
  split <;> rfl

theorem launch_frame (s : State) (task : Task) :
    (s.launch task).disk = s.disk ∧ (s.launch task).blockCount = s.blockCount ∧
      (s.launch task).totalLength = s.totalLength ∧ (s.launch task).failedCount = s.failedCount ∧
        (s.launch task).maxThreading = s.maxThreading ∧
          (s.launch task).isDownloading = s.isDownloading := by
  unfold launch
  dsimp only
  split <;> exact ⟨rfl, rfl, rfl, rfl, rfl, rfl⟩

/-- What `launch` adds is a request for its task. -/
theorem launch_activities {task : Task} {id : Nat} {a : Activity}
    (h : (s.launch task).activities id = some a) : s.activities id = some a ∨
      id = s.nextId ∧ ∃ total, s.totalLength = some total ∧
        a = .request ⟨task, range total task.index, .waiting⟩ := by
  unfold launch at h
  dsimp only at h
  cases hTotal : s.totalLength with
  | none =>
    rw [hTotal] at h
    exact .inl h
  | some total =>
    rw [hTotal] at h
    have h : Function.update s.activities s.nextId
      (some (.request ⟨task, range total task.index, .waiting⟩)) id = some a := h
    rw [Function.update_apply] at h
    split at h
    · next hId => exact .inr ⟨hId, total, rfl, (Option.some.inj h).symm⟩
    · exact .inl h

theorem launch_keeps (h : Requests s q d) {task : Task} {id : Nat} {a : Activity}
    (hAct : s.activities id = some a) : (s.launch task).activities id = some a := by
  have hId : id ≠ s.nextId := Nat.ne_of_lt (lt_nextId h hAct)
  unfold launch
  dsimp only
  split
  · exact hAct
  · rw [spawn]
    exact (Function.update_of_ne hId _ _).trans hAct

theorem launch_fresh (hFresh : ∀ id, s.nextId ≤ id → s.activities id = none) (task : Task) :
    ∀ id, (s.launch task).nextId ≤ id → (s.launch task).activities id = none := by
  intro id hId
  unfold launch at hId ⊢
  dsimp only at hId ⊢
  split at hId
  · next hTotal =>
    rw [hTotal]
    exact hFresh id hId
  · next total hTotal =>
    rw [hTotal]
    have hLt : s.nextId < id := hId
    exact (Function.update_of_ne (Nat.ne_of_gt hLt) _ _).trans (hFresh id (Nat.le_of_lt hLt))

theorem mem_launch {task other : Task} :
    other ∈ (s.launch task).downloading ↔ other ∈ s.downloading ∨ other = task := by
  rw [launch_downloading]
  split
  · next hMem =>
    refine ⟨.inl, fun hOr => hOr.elim id fun hEq => hEq ▸ hMem⟩
  · rw [List.mem_append, List.mem_singleton]

/-- `launch` takes the first task of the queue. -/
theorem Requests.launch {task : Task} (h : Requests s (task :: rest) s.downloading) :
    Requests (s.launch task) rest (s.launch task).downloading := by
  have hNodup := h.listed
  rw [List.map_cons, List.nodup_cons] at hNodup
  refine ⟨launch_fresh h.fresh task, fun id r hr => ?_, fun i j r r' hr hr' hIndex => ?_, hNodup.2,
    fun other hOther id r hr => ?_⟩
  · rw [mem_launch]
    rcases launch_activities hr with hOld | ⟨-, total, -, hNew⟩
    · exact .inl (h.tracked id r hOld)
    · obtain rfl := Activity.request.inj hNew
      exact .inr rfl
  · rcases launch_activities hr with hOld | ⟨hi, total, -, hNew⟩ <;>
      rcases launch_activities hr' with hOld' | ⟨hj, total', -, hNew'⟩
    · exact h.single i j r r' hOld hOld' hIndex
    · obtain rfl := Activity.request.inj hNew'
      exact absurd hIndex (h.apart task List.mem_cons_self i r hOld)
    · obtain rfl := Activity.request.inj hNew
      exact absurd hIndex.symm (h.apart task List.mem_cons_self j r' hOld')
    · rw [hi, hj]
  · rcases launch_activities hr with hOld | ⟨-, total, -, hNew⟩
    · exact h.apart other (List.mem_cons_of_mem _ hOther) id r hOld
    · obtain rfl := Activity.request.inj hNew
      exact fun hIndex => hNodup.1 (hIndex ▸ List.mem_map_of_mem hOther)

/-- An activity ends. -/
theorem put_none_activities {id j : Nat} {a : Activity} (h : (s.put id none).activities j = some a) :
    j ≠ id ∧ s.activities j = some a := by
  rw [put_activities] at h
  split at h
  · cases h
  · next hj => exact ⟨hj, h⟩

/-- A request ends, and its task goes back to the queue. -/
theorem Requests.requeue (h : Requests s q d) {id : Nat} {r : Request}
    (hAct : s.activities id = some (.request r)) : Requests (s.put id none) (q ++ [r.task]) d := by
  refine ⟨fun j hj => ?_, fun j r' hr' => h.tracked j r' (put_none_activities hr').2,
    fun j k r₁ r₂ h₁ h₂ => h.single j k r₁ r₂ (put_none_activities h₁).2 (put_none_activities h₂).2, ?_,
    fun task hq j r' hr' => ?_⟩
  · rw [put_activities]
    split
    · rfl
    · exact h.fresh j hj
  · rw [List.map_append, List.nodup_append]
    refine ⟨h.listed, List.nodup_singleton _, fun i hi j hj hEq => ?_⟩
    obtain ⟨task, hMem, rfl⟩ := List.mem_map.mp hi
    obtain rfl := List.mem_singleton.mp hj
    exact h.apart task hMem id r hAct hEq.symm
  · obtain ⟨hj, hOld⟩ := put_none_activities hr'
    rcases List.mem_append.mp hq with hMem | hLast
    · exact h.apart task hMem j r' hOld
    · rw [List.mem_singleton.mp hLast]
      exact fun hEq => hj (h.single j id r' r hOld hAct hEq)

theorem Requests.sublist {q' : List Task} (h : Requests s q d) (hSub : q'.Sublist q) : Requests s q' d :=
  ⟨h.fresh, h.tracked, h.single, h.listed.sublist (hSub.map _), fun task hq => h.apart task (hSub.subset hq)⟩

theorem requeue_sublist (s : State) (task : Task) :
    (s.requeue task).pending.Sublist (s.pending ++ [task]) := by
  rw [pending, State.requeue, pending]
  cases s.queue with
  | none => exact List.nil_sublist _
  | some q => exact .refl _

/-! ## `_checkDownload` -/

/-- What `launch` keeps, for the queue without its first task, the loop keeps. -/
theorem checkLoop_induction {P : State → List Task → Prop}
    (hLaunch : ∀ s task rest, P s (task :: rest) → P (s.launch task) rest)
    (hQueue : ∀ s rest, P s rest → P { s with queue := some rest } rest) (h : P s rest) :
    P (s.checkLoop rest) (s.checkLoop rest).pending := by
  induction rest generalizing s with
  | nil => exact hQueue s [] h
  | cons task rest ih =>
    rw [checkLoop]
    split
    · exact ih (hLaunch s task rest h)
    · exact hQueue s (task :: rest) h

theorem checkDownload_induction {P : State → List Task → Prop}
    (hLaunch : ∀ s task rest, P s (task :: rest) → P (s.launch task) rest)
    (hQueue : ∀ s rest, P s rest → P { s with queue := some rest } rest) (h : P s s.pending) :
    P s.checkDownload s.checkDownload.pending := by
  rw [pending] at h
  unfold checkDownload
  split
  · next hNone =>
    rw [hNone] at h
    rw [pending, hNone]
    exact h
  · next q hSome =>
    rw [hSome] at h
    exact checkLoop_induction hLaunch hQueue h

/-- With room for all tasks, the loop requests all of them. -/
theorem checkLoop_empties (hRoom : s.downloading.length + rest.length + s.failedCount ≤ s.maxThreading) :
    (s.checkLoop rest).queue = some [] := by
  induction rest generalizing s with
  | nil => rfl
  | cons task rest ih =>
    obtain ⟨-, -, -, hFailed, hMax, -⟩ := launch_frame s task
    have hLength : (s.launch task).downloading.length ≤ s.downloading.length + 1 := by
      rw [launch_downloading]
      split <;> simp
    rw [List.length_cons] at hRoom
    rw [checkLoop, if_pos (by omega)]
    exact ih (by omega)

theorem checkDownload_frame (s : State) :
    s.checkDownload.disk = s.disk ∧ s.checkDownload.blockCount = s.blockCount ∧
      s.checkDownload.totalLength = s.totalLength ∧
        s.checkDownload.isDownloading = s.isDownloading ∧
          (s.checkDownload.queue = none ↔ s.queue = none) := by
  refine ⟨?_, ?_, ?_, ?_, ?_⟩
  · exact checkDownload_induction (P := fun t _ => t.disk = s.disk)
      (fun t task _ h => (launch_frame t task).1.trans h) (fun _ _ h => h) rfl
  · exact checkDownload_induction (P := fun t _ => t.blockCount = s.blockCount)
      (fun t task _ h => (launch_frame t task).2.1.trans h) (fun _ _ h => h) rfl
  · exact checkDownload_induction (P := fun t _ => t.totalLength = s.totalLength)
      (fun t task _ h => (launch_frame t task).2.2.1.trans h) (fun _ _ h => h) rfl
  · exact checkDownload_induction (P := fun t _ => t.isDownloading = s.isDownloading)
      (fun t task _ h => (launch_frame t task).2.2.2.2.2.trans h) (fun _ _ h => h) rfl
  · cases hQueue : s.queue with
    | none => rw [checkDownload, hQueue]; simp [hQueue]
    | some q =>
      have hLoop : ∀ (t : State) (l : List Task), (t.checkLoop l).queue ≠ none := by
        intro t l
        induction l generalizing t with
        | nil => exact Option.some_ne_none _
        | cons task l ih =>
          rw [checkLoop]
          split
          · exact ih _
          · exact Option.some_ne_none _
      rw [checkDownload, hQueue]
      simp [hLoop]

theorem checkDownload_activities {id : Nat} {a : Activity}
    (h : s.checkDownload.activities id = some a) :
    s.activities id = some a ∨ ∃ r, a = .request r := by
  revert h
  refine checkDownload_induction (P := fun t _ => t.activities id = some a →
    s.activities id = some a ∨ ∃ r, a = .request r) (fun t task _ hOld h => ?_) (fun _ _ h => h) .inl
  rcases launch_activities h with h | ⟨-, total, -, rfl⟩
  · exact hOld h
  · exact .inr ⟨_, rfl⟩

theorem checkDownload_calls (s : State) : s.checkDownload.calls = s.calls := by
  refine checkDownload_induction (P := fun t _ => t.calls = s.calls) (fun t task _ h => ?_)
    (fun _ _ h => h) rfl
  rw [← h]
  unfold launch
  dsimp only
  split <;> rfl

theorem Requests.checkDownload (h : Requests s s.pending s.downloading) :
    Requests s.checkDownload s.checkDownload.pending s.checkDownload.downloading :=
  checkDownload_induction (P := fun t rest => Requests t rest t.downloading)
    (fun _ _ _ h => h.launch) (fun _ _ h => ⟨h.fresh, h.tracked, h.single, h.listed, h.apart⟩) h

/-- With an empty queue nothing happens. -/
theorem checkDownload_of_nil (h : s.pending = []) :
    s.checkDownload.pending = [] ∧ s.checkDownload.downloading = s.downloading := by
  unfold checkDownload
  split
  · exact ⟨h, rfl⟩
  · next q hQueue =>
    rw [pending, hQueue] at h
    have hNil : q = [] := h
    subst hNil
    exact ⟨rfl, rfl⟩

/-! ## Answers -/

/-- What an answer does to a request. -/
inductive RequestStep (s : State) (id : Nat) (r : Request) (answer : Answer) : State → Prop where
  | ignored : RequestStep s id r answer s
  | listens (hPhase : r.phase = .waiting) :
      RequestStep s id r answer ((s.listen r.task id).setPhase id r (.receiving []))
  | receives (body bytes : List UInt8) (hPhase : r.phase = .receiving body) :
      RequestStep s id r answer (s.setPhase id r (.receiving (body ++ bytes)))
  | ends (body : List UInt8) (hPhase : r.phase = .receiving body) (hAnswer : answer = .done) :
      RequestStep s id r answer (s.setPhase id r (.saving body))
  | opens (body : List UInt8) (hPhase : r.phase = .saving body) (hBody : body ≠ []) :
      RequestStep s id r answer ((s.writeBlock r.task.index []).setPhase id r (.writing body))
  | completes (body : List UInt8) (hPhase : r.phase = .writing body) :
      RequestStep s id r answer ((s.writeBlock r.task.index body).completed id r.task)
  | fails (message : String) (hFails : r.phase.fails answer = true) :
      RequestStep s id r answer (s.failed id r.task message)

theorem requestStep_cases (s : State) (id : Nat) (r : Request) (answer : Answer) :
    RequestStep s id r answer (s.requestStep id r answer) := by
  unfold requestStep
  split
  · next code hPhase =>
    split
    · exact .listens hPhase
    · next hCode =>
      refine .fails _ ?_
      rw [hPhase, Phase.fails, Bool.not_eq_true', Bool.and_eq_false_iff, decide_eq_false_iff_not,
        decide_eq_false_iff_not]
      omega
  · next message hPhase => exact .fails _ (by rw [hPhase]; rfl)
  · next body bytes hPhase => exact .receives body bytes hPhase
  · next body hPhase => exact .ends body hPhase rfl
  · next body message hPhase => exact .fails _ (by rw [hPhase]; rfl)
  · next body hPhase =>
    split
    · next hBody => exact .fails _ (by rw [hPhase, hBody]; rfl)
    · next hBody => exact .opens body hPhase hBody
  · next body hPhase => exact .completes body hPhase
  · exact .ignored

theorem Phase.not_writing_of_fails {phase : Phase} {answer : Answer} (h : phase.fails answer = true)
    (body : List UInt8) : phase ≠ .writing body := by
  rintro rfl
  cases answer <;> cases h

end State

end RetroConfig.MultiDownloader
