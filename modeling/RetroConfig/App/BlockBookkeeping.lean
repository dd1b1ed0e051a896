import RetroConfig.App.BlockPlaces

/-!
# `MultiDownloader`: where each block is

A block that is to be downloaded moves between `_queue`, `_downloading` and the disk; the answer
to a request, a failure and `stop` each move it. A task that fails goes back to the queue and stays
in `_downloading`, `stop` does not cancel what is not receiving, and the queue can be built
anew while blocks are downloaded.

`booked_always` says that in a run whose steps avoid these three, every block is in exactly one
place, and is requested at most once at a time.
-/

namespace RetroConfig.MultiDownloader

namespace State

variable {s t : State} {q d rest : List Task} {n : Nat} {dup : Task → Prop}

/-- The file of a block has been written. -/
def Finished (s : State) (i : Nat) : Prop :=
  s.disk.blocks i ≠ none ∧ ∀ id r body, s.activities id = some (.request r) → r.task.index = i →
    r.phase ≠ .writing body

/-- `_freshQueue` is to be called, or goes through the files. -/
def Rebuilding (s : State) : Prop :=
  ∃ id, s.activities id = some .clear ∨ ∃ i restart, s.activities id = some (.build i restart)

/-- A block is in the queue, once, or in `_downloading`, or finished. -/
inductive InOnePlace (s : State) (i : Nat) : Prop where
  | waits (hQueue : s.pending.countP (·.index = i) = 1) (hNot : i ∉ s.downloading.map Task.index)
      (hDisk : ¬ s.Finished i)
  | loads (hQueue : s.pending.countP (·.index = i) = 0) (hDown : i ∈ s.downloading.map Task.index)
      (hDisk : ¬ s.Finished i)
  | finished (hQueue : s.pending.countP (·.index = i) = 0)
      (hNot : i ∉ s.downloading.map Task.index) (hDisk : s.Finished i)

/-- Every block is in one place when the queue has been built, and none is requested twice. -/
structure Booked (s : State) : Prop where
  place : s.queue ≠ none → ¬ s.Rebuilding → ∀ i < s.count, s.InOnePlace i
  single : ∀ i j r r', s.activities i = some (.request r) → s.activities j = some (.request r') →
    r.task.index = r'.task.index → i = j

/-! ## Steps in order -/

/-- `stop` breaks off before it has moved a task, or cancels every request in flight. -/
def StopsWell (s : State) : Prop :=
  (∃ task, s.downloading.head? = some task ∧ s.subscription task = none) ∨
    ∀ task ∈ s.downloading, ∃ id, s.subscription task = some id ∧
      ∀ j r, s.activities j = some (.request r) → r.task = task →
        j = id ∧ ∃ body, r.phase = .receiving body

/-- A task that fails is not put back, or there is room to request it again at once. -/
def Roomy (s : State) : Prop :=
  5 < s.failedCount + 1 ∨
    s.downloading.length + s.pending.length + s.failedCount + 1 < s.maxThreading

/-- An answer to `HEAD` finds no queue being built. If it has one built, nothing is being downloaded or
put together, and the new queue is built indeed, or no block is there. -/
structure HeadsWell (s : State) (eTag acceptRanges : Option String) (contentLength : Option Nat) :
    Prop where
  settled : ¬ s.Rebuilding
  idle : s.eTag = none ∨ s.eTag ≠ eTag → s.downloading = [] ∧
    (∀ id i offset, s.activities id ≠ some (.test i offset)) ∧
      (acceptRanges = some "bytes" ∧ contentLength ≠ none ∨ ∀ i < s.count, s.disk.blocks i = none)

/-- What a step is to avoid. -/
def Orderly (s : State) : Op → Prop
  | .start => True
  | .stop => s.isDownloading → s.StopsWell
  | .resume id answer =>
    match s.activities id, answer with
    | some .head, .head eTag acceptRanges contentLength => s.HeadsWell eTag acceptRanges contentLength
    | some (.request r), answer => r.phase.fails answer → s.Roomy
    | _, _ => True

/-! ## The invariant -/

/-- An activity that has nothing to do with blocks. -/
def Calm : Activity → Prop
  | .head => True
  | .direct _ => True
  | _ => False

/-- No queue is being built, and the files are put together only when all are there. -/
def Sound (s : State) : Activity → Prop
  | .clear => False
  | .build .. => False
  | .test i _ => i < s.count ∧ s.pending = [] ∧ s.downloading = []
  | _ => True

structure Settled (s : State) : Prop where
  kept : Kept s s.pending s.downloading s.count fun _ => False
  sound : ∀ id a, s.activities id = some a → s.Sound a
  built : s.queue = none → s.blockCount = none

/-- Nothing is done about blocks but by one activity. -/
structure Alone (s : State) (id : Nat) : Prop where
  fresh : ∀ j, s.nextId ≤ j → s.activities j = none
  calm : ∀ j a, j ≠ id → s.activities j = some a → Calm a
  idle : s.downloading = []

/-- While a queue is built, it has the blocks that the files have been looked at for. -/
inductive Inv (s : State) : Prop where
  | settled (h : Settled s)
  | clearing (id : Nat) (hAct : s.activities id = some .clear) (hAlone : Alone s id)
      (hKept : Kept s s.pending [] s.count fun _ => False)
      (hBuilt : s.queue = none → s.blockCount = none)
      (hNext : s.parting = true ∧ s.totalLength ≠ none ∨ ∀ i < s.count, s.disk.blocks i = none)
  | building (id i n : Nat) (q : List Task) (hAct : s.activities id = some (.build i false))
      (hAlone : Alone s id) (hCount : s.blockCount = some n) (hQueue : s.queue = some q) (hLt : i < n)
      (hKept : Kept s q [] i fun _ => False)

theorem Settled.place (h : Settled s) {i : Nat} (hi : i < s.count) : s.InOnePlace i := by
  have hCount : ∀ task ∈ s.pending, s.pending.countP (·.index = task.index) = 1 := by
    intro task hTask
    have hOne := List.count_eq_one_of_mem h.kept.listed (List.mem_map_of_mem hTask)
    rw [List.count, List.countP_map] at hOne
    rw [← hOne]
    exact List.countP_congr fun x _ => by simp
  have hZero : i ∉ s.pending.map Task.index → s.pending.countP (·.index = i) = 0 := by
    intro hNot
    rw [List.countP_eq_zero]
    intro x hx hEq
    exact hNot (of_decide_eq_true hEq ▸ List.mem_map_of_mem hx)
  have hApart : i ∈ s.pending.map Task.index → i ∉ s.downloading.map Task.index := by
    intro hQueue hDown
    obtain ⟨task, hTask, rfl⟩ := List.mem_map.mp hQueue
    obtain ⟨other, hOther, hEq⟩ := List.mem_map.mp hDown
    exact (h.kept.disjoint task hTask other hOther hEq.symm).2
  by_cases hQueue : i ∈ s.pending.map Task.index
  · have hNot := hApart hQueue
    obtain ⟨task, hTask, rfl⟩ := List.mem_map.mp hQueue
    exact .waits (hCount task hTask) hNot fun hDone => hDone.1 (h.kept.absent task hTask)
  · by_cases hDown : i ∈ s.downloading.map Task.index
    · refine .loads (hZero hQueue) hDown fun hDone => ?_
      obtain ⟨task, hTask, rfl⟩ := List.mem_map.mp hDown
      rcases h.kept.opened task hTask with hNone | ⟨id, r, body, hAct, rfl, hPhase⟩
      · exact hDone.1 hNone
      · exact hDone.2 id r body hAct rfl hPhase
    · refine .finished (hZero hQueue) hDown ⟨?_, fun id r body hAct hEq _ => ?_⟩
      · exact ((h.kept.covered i hi).resolve_left hQueue).resolve_left hDown
      · exact hDown (hEq ▸ List.mem_map_of_mem (h.kept.tracked id r hAct))

theorem Inv.settled_of (h : Inv s) (hNot : ¬ s.Rebuilding) : Settled s := by
  cases h with
  | settled h => exact h
  | clearing id hAct => exact absurd ⟨id, .inl hAct⟩ hNot
  | building id i n q hAct => exact absurd ⟨id, .inr ⟨i, false, hAct⟩⟩ hNot

theorem Inv.booked (h : Inv s) : Booked s := by
  refine ⟨fun _ hNot i hi => (h.settled_of hNot).place hi, ?_⟩
  cases h with
  | settled h => exact h.kept.single
  | clearing _ _ _ hKept => exact hKept.single
  | building _ _ _ _ _ _ _ _ _ hKept => exact hKept.single

/-! ## Settled states -/

theorem Settled.congr (h : Settled s) (hDisk : t.disk.blocks = s.disk.blocks)
    (hAct : t.activities = s.activities) (hId : t.nextId = s.nextId) (hQueue : t.queue = s.queue)
    (hDown : t.downloading = s.downloading) (hCount : t.blockCount = s.blockCount) : Settled t := by
  have hPending : t.pending = s.pending := congrArg (·.getD []) hQueue
  have hCount' : t.count = s.count := congrArg (·.getD 0) hCount
  refine ⟨?_, fun id a ha => ?_, ?_⟩
  · rw [hPending, hDown, hCount']
    exact h.kept.congr hDisk hAct hId
  · have hSound := h.sound id a (hAct ▸ ha)
    cases a with
    | test i offset =>
      rw [Sound, hPending, hDown, hCount']
      exact hSound
    | _ => exact hSound
  · rw [hQueue, hCount]
    exact h.built

theorem Settled.put (h : Settled s) {id : Nat} {x : Activity} {a : Option Activity}
    (hAct : s.activities id = some x) (hNot : ∀ r body, x = .request r → r.phase ≠ .writing body)
    (hSame : ∀ r, a = some (.request r) → ∃ r', x = .request r' ∧ r'.task = r.task)
    (hSound : ∀ b, a = some b → s.Sound b) : Settled (s.put id a) := by
  refine ⟨h.kept.put hAct hNot hSame, fun j b hb => ?_, h.built⟩
  rw [put_activities] at hb
  split at hb
  · exact hSound b hb
  · exact h.sound j b hb

theorem sound_checkDownload (hSound : ∀ id a, s.activities id = some a → s.Sound a) {id : Nat}
    {a : Activity} (hAct : s.checkDownload.activities id = some a) : s.checkDownload.Sound a := by
  rcases checkDownload_activities hAct with hOld | ⟨r, rfl⟩
  · have hOld := hSound id a hOld
    cases a with
    | test i offset =>
      obtain ⟨hLt, hQueue, hDown⟩ := hOld
      obtain ⟨hQueue', hDown'⟩ := checkDownload_of_nil hQueue
      refine ⟨?_, hQueue', hDown'.trans hDown⟩
      rw [count, (checkDownload_frame s).2.1]
      exact hLt
    | _ => exact hOld
  · trivial

theorem Settled.checkDownload (h : Settled s) : Settled s.checkDownload := by
  obtain ⟨-, hCount, -, -, hQueue⟩ := checkDownload_frame s
  refine ⟨?_, fun id a hAct => sound_checkDownload h.sound hAct, ?_⟩
  · rw [count, hCount]
    exact h.kept.checkDownload
  · rw [hQueue, hCount]
    exact h.built

/-- The end of `start`. -/
theorem settled_download {id : Nat} {x : Activity}
    (hKept : Kept s s.pending s.downloading s.count fun _ => False) (hAct : s.activities id = some x)
    (hNot : ∀ r, x ≠ .request r) (hSound : ∀ j a, j ≠ id → s.activities j = some a → s.Sound a)
    (hBuilt : s.queue = none → s.blockCount = none) : Settled (s.download id) := by
  have hPut : ∀ a, (∀ r, a ≠ some (.request r)) → (∀ b, a = some b → s.Sound b) →
      Settled (s.put id a) := by
    intro a hNone hLast
    refine ⟨hKept.put hAct (fun r _ hEq => absurd hEq (hNot r)) (fun r hEq => absurd hEq (hNone r)),
      fun j b hb => ?_, hBuilt⟩
    rw [put_activities] at hb
    split at hb
    · exact hLast b hb
    · next hj => exact hSound j b hj hb
  rw [download]
  split
  · exact (hPut none (fun _ => nofun) (fun _ => nofun)).checkDownload
  · refine hPut _ (fun _ => nofun) ?_
    rintro b ⟨⟩
    trivial

/-! ## Steps that are not about blocks -/

/-- Only an activity has changed that has nothing to do with blocks. -/
structure Aside (s t : State) (id : Nat) : Prop where
  activities : ∃ a, (∀ b, a = some b → Calm b) ∧
    t.activities = Function.update s.activities id a
  nextId : s.nextId ≤ t.nextId ∧ id < t.nextId
  blocks : t.disk.blocks = s.disk.blocks
  queue : t.queue = s.queue
  downloading : t.downloading = s.downloading
  blockCount : t.blockCount = s.blockCount
  totalLength : t.totalLength = s.totalLength
  parting : t.parting = s.parting

theorem Aside.old {id : Nat} (h : Aside s t id) {j : Nat} {a : Activity}
    (hAct : t.activities j = some a) : Calm a ∨ j ≠ id ∧ s.activities j = some a := by
  obtain ⟨x, hx, hEq⟩ := h.activities
  rw [hEq, Function.update_apply] at hAct
  split at hAct
  · exact .inl (hx a hAct)
  · next hj => exact .inr ⟨hj, hAct⟩

theorem Calm.not_request {a : Activity} (h : Calm a) (r : Request) : a ≠ .request r := by
  rintro rfl
  exact h

theorem Calm.sound {a : Activity} (h : Calm a) (s : State) : s.Sound a := by
  cases a with
  | head => trivial
  | direct phase => trivial
  | _ => exact h.elim

/-- An activity that has to do with blocks stays. -/
theorem Aside.stays {id : Nat} (h : Aside s t id) (hCalm : ∀ a, s.activities id = some a → Calm a)
    {j : Nat} {a : Activity} (hAct : s.activities j = some a) (hNot : ¬ Calm a) :
    t.activities j = some a := by
  obtain ⟨x, -, hEq⟩ := h.activities
  rw [hEq, Function.update_of_ne, hAct]
  rintro rfl
  exact hNot (hCalm a hAct)

theorem Aside.fresh {id : Nat} (h : Aside s t id) (hFresh : ∀ j, s.nextId ≤ j → s.activities j = none) :
    ∀ j, t.nextId ≤ j → t.activities j = none := by
  intro j hj
  obtain ⟨x, -, hEq⟩ := h.activities
  obtain ⟨hLe, hLt⟩ := h.nextId
  rw [hEq, Function.update_of_ne (by omega)]
  exact hFresh j (by omega)

theorem Aside.kept {id : Nat} (h : Aside s t id) (hCalm : ∀ a, s.activities id = some a → Calm a)
    (hKept : Kept s q d n dup) : Kept t q d n dup := by
  refine hKept.of_back h.blocks (h.fresh hKept.fresh) (fun j r hr => ?_) fun j r body hr _ => ?_
  · rcases h.old hr with hNew | ⟨-, hOld⟩
    · exact absurd rfl (hNew.not_request r)
    · exact ⟨r, hOld, rfl⟩
  · exact h.stays hCalm hr fun hNew => hNew.not_request r rfl

theorem Aside.alone {id k : Nat} (h : Aside s t id) (hAlone : Alone s k) : Alone t k := by
  refine ⟨h.fresh hAlone.fresh, fun j a hj ha => ?_, h.downloading.trans hAlone.idle⟩
  rcases h.old ha with hNew | ⟨-, hOld⟩
  · exact hNew
  · exact hAlone.calm j a hj hOld

theorem Inv.aside {k : Nat} (hInv : Inv s) (h : Aside s t k)
    (hCalm : ∀ a, s.activities k = some a → Calm a) : Inv t := by
  have hPending : t.pending = s.pending := congrArg (·.getD []) h.queue
  have hCount : t.count = s.count := congrArg (·.getD 0) h.blockCount
  cases hInv with
  | settled hSettled =>
    refine .settled ⟨?_, fun j a ha => ?_, ?_⟩
    · rw [hPending, h.downloading, hCount]
      exact h.kept hCalm hSettled.kept
    · rcases h.old ha with hNew | ⟨-, hOld⟩
      · exact hNew.sound t
      · have hSound := hSettled.sound j a hOld
        cases a with
        | test i offset =>
          rw [Sound, hPending, h.downloading, hCount]
          exact hSound
        | _ => exact hSound
    · rw [h.queue, h.blockCount]
      exact hSettled.built
  | clearing k hAct hAlone hKept hBuilt hNext =>
    refine .clearing k (h.stays hCalm hAct id) (h.alone hAlone) ?_ ?_ ?_
    · rw [hPending, hCount]
      exact h.kept hCalm hKept
    · rw [h.queue, h.blockCount]
      exact hBuilt
    · rw [h.parting, h.totalLength, hCount, h.blocks]
      exact hNext
  | building k i n q hAct hAlone hCount' hQueue hLt hKept =>
    exact .building k i n q (h.stays hCalm hAct id) (h.alone hAlone) (h.blockCount.trans hCount')
      (h.queue.trans hQueue) hLt (h.kept hCalm hKept)

theorem aside_put {id : Nat} {x : Activity} {a : Option Activity}
    (hFresh : ∀ j, s.nextId ≤ j → s.activities j = none) (hAct : s.activities id = some x)
    (ha : ∀ b, a = some b → Calm b) : Aside s (s.put id a) id := by
  refine ⟨⟨a, ha, rfl⟩, ⟨Nat.le_refl _, ?_⟩, rfl, rfl, rfl, rfl, rfl, rfl⟩
  by_contra hLe
  rw [hFresh id (Nat.le_of_not_lt hLe)] at hAct
  cases hAct

theorem aside_directStep {id : Nat} {phase : Phase} (answer : Answer)
    (hFresh : ∀ j, s.nextId ≤ j → s.activities j = none)
    (hAct : s.activities id = some (.direct phase)) :
    Aside s (s.directStep id phase answer) id := by
  have hDirect : ∀ p, Aside s (s.put id (some (.direct p))) id := fun p =>
    aside_put hFresh hAct fun b hb => Option.some.inj hb ▸ trivial
  have hEnd : Aside s (s.put id none) id := aside_put hFresh hAct fun _ => nofun
  have hFailed : ∀ message, Aside s (s.directFailed id message) id := fun _ =>
    ⟨hEnd.activities, hEnd.nextId, rfl, rfl, rfl, rfl, rfl, rfl⟩
  unfold directStep
  split
  · split
    · exact hDirect _
    · exact hFailed _
  · exact hFailed _
  · exact hDirect _
  · exact hDirect _
  · exact hFailed _
  · next body =>
    have h := hDirect (.writing body)
    exact ⟨h.activities, h.nextId, rfl, rfl, rfl, rfl, rfl, rfl⟩
  · exact ⟨hEnd.activities, hEnd.nextId, rfl, rfl, rfl, rfl, rfl, rfl⟩
  · refine ⟨⟨some (.direct phase), fun b hb => Option.some.inj hb ▸ trivial, ?_⟩, hEnd.nextId, rfl,
      rfl, rfl, rfl, rfl, rfl⟩
    rw [← hAct, Function.update_eq_self]

theorem Inv.fresh (h : Inv s) : ∀ j, s.nextId ≤ j → s.activities j = none := by
  cases h with
  | settled h => exact h.kept.fresh
  | clearing _ _ hAlone => exact hAlone.fresh
  | building _ _ _ _ _ hAlone => exact hAlone.fresh

theorem Inv.start (h : Inv s) : Inv s.start := by
  rw [State.start]
  split
  · exact h
  · have hAside : Aside s ({ s with isDownloading := true }.spawn .head) s.nextId :=
      ⟨⟨some .head, fun b hb => Option.some.inj hb ▸ trivial, rfl⟩, ⟨Nat.le_succ _, Nat.lt_succ_self _⟩,
        rfl, rfl, rfl, rfl, rfl, rfl⟩
    refine h.aside hAside fun a ha => ?_
    rw [h.fresh _ (Nat.le_refl _)] at ha
    cases ha

/-! ## Building the queue -/

theorem Alone.put {id : Nat} {x : Activity} (h : Alone s id) (hAct : s.activities id = some x)
    (a : Option Activity) : Alone (s.put id a) id := by
  refine ⟨fun j hj => ?_, fun j b hj hb => ?_, h.idle⟩
  · rw [put_activities]
    split
    · next hEq =>
      rw [hEq] at hj
      rw [h.fresh id hj] at hAct
      cases hAct
    · exact h.fresh j hj
  · rw [put_activities, if_neg hj] at hb
    exact h.calm j b hj hb

theorem Inv.buildFrom {id i : Nat} {x : Activity} (hAct : s.activities id = some x)
    (hNot : ∀ r, x ≠ .request r) (hAlone : Alone s id) (hCount : s.blockCount = some n)
    (hQueue : s.queue = some q) (hLe : i ≤ n) (hKept : Kept s q [] i fun _ => False) :
    Inv (s.buildFrom id false i) := by
  unfold State.buildFrom
  rw [hCount]
  dsimp only
  split
  · next hLt =>
    refine .building id i n q ?_ (hAlone.put hAct _) hCount hQueue hLt ?_
    · rw [put_activities, if_pos rfl]
    · exact hKept.put hAct (fun r _ hEq => absurd hEq (hNot r)) fun _ hEq => (by cases hEq)
  · next hEnd =>
    obtain rfl : i = n := by omega
    rw [if_neg Bool.false_ne_true]
    refine .settled (settled_download ?_ hAct hNot
      (fun j a hj ha => (hAlone.calm j a hj ha).sound s) ?_)
    · rw [pending, hQueue, hAlone.idle, count, hCount]
      exact hKept
    · rw [hQueue]
      exact fun hEq => absurd hEq (Option.some_ne_none q)

theorem Inv.freshQueue {id total : Nat} {x : Activity} (hAct : s.activities id = some x)
    (hNot : ∀ r, x ≠ .request r) (hAlone : Alone s id) (hTotal : s.totalLength = some total) :
    Inv (s.freshQueue id false) := by
  have hRequest : ∀ j r, s.activities j ≠ some (.request r) := by
    intro j r hr
    by_cases hj : j = id
    · rw [hj, hAct] at hr
      exact hNot r (Option.some.inj hr)
    · exact (hAlone.calm j _ hj hr).not_request r rfl
  unfold State.freshQueue
  rw [hTotal]
  refine .buildFrom hAct hNot ⟨hAlone.fresh, hAlone.calm, hAlone.idle⟩ rfl rfl (Nat.zero_le _) ?_
  exact ⟨⟨hAlone.fresh, fun j r hr => absurd hr (hRequest j r), fun j _ r _ hr => absurd hr (hRequest j r),
    List.nodup_nil, fun _ hq => (by cases hq)⟩, List.nodup_nil, fun _ hq => (by cases hq),
    fun _ hq => (by cases hq), fun _ hd => (by cases hd), fun _ hOr => hOr.elim nofun nofun,
    fun i hi => absurd hi (Nat.not_lt_zero i)⟩

/-- The file of one more block has been looked at. -/
theorem Inv.stated {id i : Nat} (hAct : s.activities id = some (.build i false))
    (hAlone : Alone s id) (hCount : s.blockCount = some n) (hQueue : s.queue = some q) (hLt : i < n)
    (hKept : Kept s q [] i fun _ => False) : Inv (s.stated id i false) := by
  have hCover : ∀ j, j < i + 1 → j ≠ i → j < i := fun j hj hNe => by omega
  unfold State.stated
  split
  · next hNone =>
    have hAlone' : Alone (s.addTask i) id :=
      ⟨fun j hj => hAlone.fresh j (Nat.le_of_succ_le hj), hAlone.calm, hAlone.idle⟩
    have hQueue' : (s.addTask i).queue = some (q ++ [⟨s.nextId, i⟩]) := by
      rw [addTask, hQueue]
      rfl
    refine .buildFrom hAct (fun _ => nofun) hAlone' hCount hQueue' hLt ⟨⟨hAlone'.fresh, hKept.tracked,
      hKept.single, ?_, fun task _ id r hr => (by cases hKept.tracked id r hr)⟩, List.nodup_nil,
      fun _ _ _ hd => (by cases hd), fun task hq => ?_, fun _ hd => (by cases hd), fun task hOr => ?_,
      fun j hj => ?_⟩
    · rw [List.map_append, List.nodup_append]
      refine ⟨hKept.listed, List.nodup_singleton _, fun j hj k hk hEq => ?_⟩
      obtain ⟨task, hTask, rfl⟩ := List.mem_map.mp hj
      obtain rfl := List.mem_singleton.mp hk
      exact Nat.ne_of_lt (hKept.bound task (.inl hTask)) hEq
    · rcases List.mem_append.mp hq with hOld | hNew
      · exact hKept.absent task hOld
      · rw [List.mem_singleton.mp hNew]
        exact hNone
    · rcases List.mem_append.mp (hOr.resolve_right nofun) with hOld | hNew
      · exact Nat.lt_succ_of_lt (hKept.bound task (.inl hOld))
      · rw [List.mem_singleton.mp hNew]
        exact Nat.lt_succ_self i
    · rw [List.map_append]
      by_cases hEq : j = i
      · exact .inl (List.mem_append_right _ (List.mem_singleton.mpr hEq))
      · exact (hKept.covered j (hCover j hj hEq)).imp_left (List.mem_append_left _)
  · next hSome =>
    refine .buildFrom hAct (fun _ => nofun) hAlone hCount hQueue hLt ⟨hKept.toRequests, hKept.distinct,
      hKept.disjoint, hKept.absent, hKept.opened, fun task hOr => ?_, fun j hj => ?_⟩
    · exact Nat.lt_succ_of_lt (hKept.bound task hOr)
    · by_cases hEq : j = i
      · exact .inr (.inr (hEq ▸ hSome))
      · exact hKept.covered j (hCover j hj hEq)

/-- The directory has been emptied. -/
theorem Inv.cleared {id : Nat} (hAct : s.activities id = some .clear) (hAlone : Alone s id)
    (hKept : Kept s s.pending [] s.count fun _ => False) (hBuilt : s.queue = none → s.blockCount = none)
    (hNext : s.parting = true ∧ s.totalLength ≠ none ∨ ∀ i < s.count, s.disk.blocks i = none) :
    Inv (s.cleared id) := by
  unfold State.cleared
  have hSound : ∀ j a, j ≠ id → s.activities j = some a → s.Sound a :=
    fun j a hj ha => (hAlone.calm j a hj ha).sound s
  by_cases hBuild : s.parting = true ∧ s.totalLength ≠ none
  · obtain ⟨hParting, hSome⟩ := hBuild
    obtain ⟨total, hTotal⟩ := Option.ne_none_iff_exists'.mp hSome
    rw [if_pos hParting]
    exact .freshQueue hAct (fun _ => nofun) ⟨hAlone.fresh, hAlone.calm, hAlone.idle⟩ hTotal
  · have hNone := hNext.resolve_left hBuild
    have hKept' : Kept s.emptyDirectory s.pending s.downloading s.count fun _ => False := by
      rw [hAlone.idle]
      refine ⟨⟨hKept.fresh, hKept.tracked, hKept.single, hKept.listed, hKept.apart⟩, hKept.distinct,
        hKept.disjoint, fun _ _ => rfl, fun _ _ => .inl rfl, hKept.bound, fun i hi => .inl ?_⟩
      rcases hKept.covered i hi with hQueue | hDown | hBlock
      · exact hQueue
      · cases hDown
      · exact absurd (hNone i hi) hBlock
    split
    · next hParting =>
      have hTotal : s.totalLength = none := by
        by_contra hSome
        exact hBuild ⟨hParting, hSome⟩
      have hQueue : s.emptyDirectory.freshQueue id false = s.emptyDirectory.put id none := by
        unfold State.freshQueue
        split
        · rfl
        · next total hSome => exact absurd (hTotal.symm.trans hSome) nofun
      rw [hQueue]
      refine .settled ⟨hKept'.put hAct (fun _ _ => nofun) fun _ => nofun, fun j a ha => ?_, hBuilt⟩
      rw [put_activities] at ha
      split at ha
      · cases ha
      · next hj => exact hSound j a hj ha
    · exact .settled (settled_download hKept' hAct (fun _ => nofun) hSound hBuilt)

/-- `start` has the answer to `HEAD`. -/
theorem Settled.answered (h : Settled s) {id : Nat} (hAct : s.activities id = some .head)
    {eTag acceptRanges : Option String} {contentLength : Option Nat}
    (hWell : HeadsWell s eTag acceptRanges contentLength) :
    Inv (s.answered id eTag acceptRanges contentLength) := by
  unfold State.answered
  dsimp only
  split
  · next hRebuild =>
    obtain ⟨hIdle, hNoTest, hNext⟩ := hWell.idle hRebuild
    have h' : Settled { s with
        parting := decide (acceptRanges = some "bytes"), eTag := eTag, totalLength := contentLength } :=
      h.congr rfl rfl rfl rfl rfl rfl
    split
    · exact .settled (h'.put hAct (fun _ _ => nofun) (fun _ => nofun) fun _ => nofun)
    · have hKept := h.kept
      rw [hIdle] at hKept
      have hKept' : Kept { s with
          parting := decide (acceptRanges = some "bytes"), eTag := eTag, totalLength := contentLength }
          s.pending [] s.count fun _ => False := hKept.congr rfl rfl rfl
      refine .clearing id (by rw [put_activities, if_pos rfl]) ⟨fun j hj => ?_, fun j a hj ha => ?_, hIdle⟩
        (hKept'.put hAct (fun _ _ => nofun) fun _ => nofun) h.built ?_
      · have hLt := lt_nextId h.kept.toRequests hAct
        have hj : s.nextId ≤ j := hj
        rw [put_activities, if_neg (by omega)]
        exact h.kept.fresh j hj
      · rw [put_activities, if_neg hj] at ha
        have hSound := h.sound j a ha
        cases a with
        | head => trivial
        | direct phase => trivial
        | clear => exact hSound.elim
        | build i restart => exact hSound.elim
        | test i offset => exact absurd ha (hNoTest j i offset)
        | request r =>
          have hMem := h.kept.tracked j r ha
          rw [hIdle] at hMem
          cases hMem
      · exact hNext.imp_left fun hBoth => ⟨decide_eq_true hBoth.1, hBoth.2⟩
  · have h' : Settled { s with parting := decide (acceptRanges = some "bytes") } :=
      h.congr rfl rfl rfl rfl rfl rfl
    exact .settled (settled_download h'.kept hAct (fun _ => nofun) (fun j a _ ha => h'.sound j a ha)
      h'.built)

/-! ## Requests and files -/

/-- A request in flight leaves no file to be put together. -/
theorem Settled.no_test (h : Settled s) {id : Nat} {r : Request}
    (hAct : s.activities id = some (.request r)) (j i offset : Nat) :
    s.activities j ≠ some (.test i offset) := by
  intro hTest
  have hMem := h.kept.tracked id r hAct
  rw [(h.sound j _ hTest).2.2] at hMem
  cases hMem

/-- A request goes on, for the same task. -/
theorem Settled.setPhase (h : Settled s) {id : Nat} {r : Request} {phase : Phase}
    (hAct : s.activities id = some (.request r)) (hNot : ∀ body, r.phase ≠ .writing body) :
    Settled (s.setPhase id r phase) := by
  refine h.put hAct (fun r' body hr' => Activity.request.inj hr' ▸ hNot body) (fun r' hr' => ?_)
    fun b hb => ?_
  · obtain rfl := Activity.request.inj (Option.some.inj hr')
    exact ⟨r, rfl, rfl⟩
  · obtain rfl := Option.some.inj hb
    trivial

theorem Settled.opens (h : Settled s) {id : Nat} {r : Request} (body : List UInt8)
    (hAct : s.activities id = some (.request r)) :
    Settled ((s.writeBlock r.task.index []).setPhase id r (.writing body)) := by
  refine ⟨h.kept.write hAct, fun j a ha => ?_, h.built⟩
  rw [State.setPhase, put_activities] at ha
  split at ha
  · obtain rfl := Option.some.inj ha
    trivial
  · exact h.sound j a ha

/-- Where an activity has ended and nothing is left to download, the files are put together from a
block on, or the download is complete. -/
theorem Settled.testFrom {id i offset : Nat} (h : Settled (s.put id none)) (hId : id < s.nextId)
    (hQueue : s.pending = []) (hDown : s.downloading = []) : Settled (s.testFrom id i offset) := by
  unfold State.testFrom
  split
  · exact h
  · next n hCount =>
    split
    · next hLt =>
      refine ⟨h.kept.of_back rfl (fun j hj => ?_) (fun j r hr => ?_) fun j r body hr _ => ?_,
        fun j a ha => ?_, h.built⟩
      · have hj : s.nextId ≤ j := hj
        have hFresh := h.kept.fresh j hj
        rwa [put_activities, if_neg (by omega)] at hFresh ⊢
      · rw [put_activities] at hr
        split at hr
        · cases hr
        · next hNe => exact ⟨r, (put_activities s id none j).trans ((if_neg hNe).trans hr), rfl⟩
      · obtain ⟨hNe, hOld⟩ := put_none_activities hr
        exact (put_activities s id _ j).trans ((if_neg hNe).trans hOld)
      · rw [put_activities] at ha
        split at ha
        · obtain rfl := Option.some.inj ha
          refine ⟨?_, hQueue, hDown⟩
          rw [count]
          exact hCount ▸ hLt
        · next hNe => exact h.sound j a ((put_activities s id none j).trans ((if_neg hNe).trans ha))
    · exact h.congr rfl rfl rfl rfl rfl rfl

theorem Settled.tested (h : Settled s) {id i offset : Nat}
    (hAct : s.activities id = some (.test i offset)) : Settled (s.tested id i offset) := by
  obtain ⟨hLt, hQueue, hDown⟩ := h.sound id _ hAct
  unfold State.tested
  split
  · next hNone =>
    rcases h.kept.covered i hLt with hIn | hIn | hSome
    · rw [hQueue] at hIn
      cases hIn
    · rw [hDown] at hIn
      cases hIn
    · exact absurd hNone hSome
  · next bytes hSome =>
    have hEnd : Settled (s.put id none) :=
      h.put hAct (fun _ _ => nofun) (fun _ => nofun) fun _ => nofun
    have hEnd' : Settled ((s.addStream offset bytes).put id none) :=
      hEnd.congr rfl rfl rfl rfl rfl rfl
    exact hEnd'.testFrom (lt_nextId h.kept.toRequests hAct) hQueue hDown

/-- The file of a block is written, and its request ends. -/
theorem Settled.finish (h : Settled s) {id : Nat} {r : Request} (body : List UInt8)
    (hAct : s.activities id = some (.request r)) :
    Settled (((s.writeBlock r.task.index body).remove r.task).put id none) := by
  refine ⟨(h.kept.finish hAct).congr rfl rfl rfl, fun j a ha => ?_, h.built⟩
  rw [put_activities] at ha
  split at ha
  · cases ha
  · have hSound := h.sound j a ha
    cases a with
    | test i offset => exact absurd ha (h.no_test hAct j i offset)
    | _ => exact hSound

theorem Settled.completed (h : Settled s) {id : Nat} {r : Request} (body : List UInt8)
    (hAct : s.activities id = some (.request r)) :
    Settled ((s.writeBlock r.task.index body).completed id r.task) := by
  have hEnd := h.finish body hAct
  unfold State.completed
  dsimp only
  split
  · next hQueue =>
    split
    · next hDown =>
      have hOutput : Settled ((((s.writeBlock r.task.index body).remove r.task).writeOutput []).put
          id none) := hEnd.congr rfl rfl rfl rfl rfl rfl
      have hPending : s.pending = [] := congrArg (·.getD []) hQueue
      exact hOutput.testFrom (lt_nextId h.kept.toRequests hAct) hPending hDown
    · exact hEnd
  · exact Settled.checkDownload (hEnd.congr rfl rfl rfl rfl rfl rfl)

theorem Settled.failed (h : Settled s) {id : Nat} {r : Request} (message : String)
    (hAct : s.activities id = some (.request r)) (hNot : ∀ body, r.phase ≠ .writing body)
    (hRoomy : Roomy s) : Settled (s.failed id r.task message) := by
  have hEnd : Settled (s.put id none) :=
    h.put hAct (fun r' body hr' => Activity.request.inj hr' ▸ hNot body) (fun _ => nofun)
      fun _ => nofun
  unfold State.failed
  dsimp only
  split
  · exact hEnd.congr rfl rfl rfl rfl rfl rfl
  · next hFew =>
    have hFew : ¬ s.failedCount + 1 > 5 := hFew
    have hRoom := hRoomy.resolve_left fun hMany => hFew hMany
    cases hQueue : s.queue with
    | none =>
      have hBound := h.kept.bound r.task (.inr (h.kept.tracked id r hAct))
      rw [count, h.built hQueue] at hBound
      exact absurd hBound (Nat.not_lt_zero _)
    | some q =>
      have hRequeue := h.kept.requeue hAct hNot
      rw [pending, hQueue] at hRequeue hRoom
      have hQueue' : ((s.noteFailure id message).requeue r.task).queue = some (q ++ [r.task]) := by
        rw [State.requeue, noteFailure, State.put, hQueue]
        rfl
      have hKept : Kept ((s.noteFailure id message).requeue r.task)
          ((s.noteFailure id message).requeue r.task).pending s.downloading s.count (· = r.task) := by
        rw [pending, hQueue']
        exact hRequeue.congr rfl rfl rfl
      have hEmpty : ((s.noteFailure id message).requeue r.task).checkDownload.queue = some [] := by
        rw [State.checkDownload, hQueue']
        refine checkLoop_empties ?_
        have hRoom : s.downloading.length + q.length + s.failedCount + 1 < s.maxThreading := hRoom
        have hAll : s.downloading.length + (q ++ [r.task]).length + (s.failedCount + 1) ≤ s.maxThreading := by
          rw [List.length_append, List.length_singleton]
          omega
        exact hAll
      have hAfter := hKept.checkDownload
      have hBlocks := (checkDownload_frame ((s.noteFailure id message).requeue r.task)).2.1
      refine ⟨?_, fun j a ha => ?_, fun hNone => ?_⟩
      · rw [pending, hEmpty] at hAfter ⊢
        rw [count, hBlocks]
        exact hAfter.of_nil
      · rcases checkDownload_activities ha with hOld | ⟨r', rfl⟩
        · have hOld : (s.put id none).activities j = some a := hOld
          obtain ⟨-, hBefore⟩ := put_none_activities hOld
          have hSound := h.sound j a hBefore
          cases a with
          | test i offset => exact absurd hBefore (h.no_test hAct j i offset)
          | _ => exact hSound
        · trivial
      · rw [hEmpty] at hNone
        cases hNone

/-! ## `stop` -/

/-- The tasks of `rest` can be cancelled. -/
def Cancellable (s : State) (rest : List Task) : Prop :=
  ∀ task ∈ rest, ∃ id, s.subscription task = some id ∧
    ∀ j r, s.activities j = some (.request r) → r.task = task →
      j = id ∧ ∃ body, r.phase = .receiving body

/-- The loop of `stop` over tasks that can be cancelled. -/
theorem settled_stopLoop (hKept : Kept s s.pending rest s.count fun _ => False)
    (hCancel : Cancellable s rest)
    (hSound : ∀ j a, s.activities j = some a → (∃ r, a = .request r) ∨ Calm a)
    (hBuilt : s.queue = none → s.blockCount = none) : Settled (s.stopLoop rest) := by
  induction rest generalizing s with
  | nil =>
    refine ⟨hKept.congr rfl rfl rfl, fun j a ha => ?_, hBuilt⟩
    rcases hSound j a ha with ⟨r, rfl⟩ | hCalm
    · trivial
    · exact hCalm.sound _
  | cons task rest ih =>
    obtain ⟨id, hId, hRequest⟩ := hCancel task List.mem_cons_self
    obtain ⟨-, hCount, hQueue, -, hSub⟩ := cancel_frame s id
    rw [stopLoop, hId]
    dsimp only
    cases hSome : s.queue with
    | none =>
      have hBound := hKept.bound task (.inr List.mem_cons_self)
      rw [count, hBuilt hSome] at hBound
      exact absurd hBound (Nat.not_lt_zero _)
    | some q =>
      have hNext : Kept (s.cancel id) (task :: q) rest s.count fun _ => False := by
        rw [pending, hSome] at hKept
        exact hKept.stop hRequest
      refine ih ?_ (fun other hOther => ?_) (fun j a ha => hSound j a (cancel_activities ha)) ?_
      · have hPending : ({ s.cancel id with
            queue := (s.cancel id).queue.map (task :: ·) } : State).pending = task :: q := by
          rw [pending, hQueue, hSome]
          rfl
        rw [hPending, count, hCount]
        exact hNext.congr rfl rfl rfl
      · obtain ⟨k, hk, hOnly⟩ := hCancel other (List.mem_cons_of_mem _ hOther)
        refine ⟨k, ?_, fun j r hr => hOnly j r (cancel_activities hr)⟩
        rw [← hk]
        exact congrFun hSub other
      · intro hNone
        rw [hQueue, hSome] at hNone
        cases hNone

theorem stopLoop_breaks {task : Task} (hHead : rest.head? = some task)
    (hNone : s.subscription task = none) : s.stopLoop rest = s := by
  cases rest with
  | nil => cases hHead
  | cons first rest =>
    obtain rfl := Option.some.inj hHead
    rw [stopLoop, hNone]

theorem Inv.stop (h : Inv s) (hWell : s.isDownloading → s.StopsWell) : Inv s.stop := by
  rw [State.stop]
  split
  · next hDownloading =>
    have hIdle : s.downloading = [] → Inv ({ s with isDownloading := false }.stopLoop s.downloading) := by
      intro hNil
      rw [hNil, stopLoop]
      cases h with
      | settled h => exact .settled (h.congr rfl rfl rfl rfl hNil.symm rfl)
      | clearing id hAct hAlone hKept hBuilt hNext =>
        exact .clearing id hAct ⟨hAlone.fresh, hAlone.calm, rfl⟩ (hKept.congr rfl rfl rfl) hBuilt hNext
      | building id i n q hAct hAlone hCount hQueue hLt hKept =>
        exact .building id i n q hAct ⟨hAlone.fresh, hAlone.calm, rfl⟩ hCount hQueue hLt
          (hKept.congr rfl rfl rfl)
    by_cases hNil : s.downloading = []
    · exact hIdle hNil
    · have hSettled : Settled s := by
        cases h with
        | settled h => exact h
        | clearing _ _ hAlone => exact absurd hAlone.idle hNil
        | building _ _ _ _ _ hAlone => exact absurd hAlone.idle hNil
      have hStopped : Settled { s with isDownloading := false } :=
        hSettled.congr rfl rfl rfl rfl rfl rfl
      rcases hWell hDownloading with ⟨task, hHead, hNone⟩ | hCancel
      · have hNone' : ({ s with isDownloading := false } : State).subscription task = none := hNone
        rw [stopLoop_breaks hHead hNone']
        exact .settled hStopped
      · refine .settled (settled_stopLoop hStopped.kept hCancel (fun j a ha => ?_) hSettled.built)
        have hSound := hSettled.sound j a ha
        cases a with
        | request r => exact .inl ⟨r, rfl⟩
        | head => exact .inr trivial
        | direct phase => exact .inr trivial
        | test i offset => exact absurd hSound.2.2 hNil
        | clear => exact hSound.elim
        | build i restart => exact hSound.elim
  · exact h

/-! ## Every run -/

/-- What has to do with blocks is done by the one activity. -/
theorem Alone.only {id k : Nat} {a : Activity} (h : Alone s k) (hAct : s.activities id = some a)
    (hNot : ¬ Calm a) : id = k := by
  by_contra hNe
  exact hNot (h.calm id a hNe hAct)

/-- A file that is put together, or a request, is there only when no queue is being built. -/
theorem Inv.settled_at (h : Inv s) {id : Nat} {a : Activity} (hAct : s.activities id = some a)
    (hNot : ¬ Calm a) (hClear : a ≠ .clear) (hBuild : ∀ i restart, a ≠ .build i restart) :
    Settled s := by
  cases h with
  | settled h => exact h
  | clearing k hK hAlone =>
    rw [hAlone.only hAct hNot, hK] at hAct
    exact absurd (Option.some.inj hAct).symm hClear
  | building k i n q hK hAlone =>
    rw [hAlone.only hAct hNot, hK] at hAct
    exact absurd (Option.some.inj hAct).symm (hBuild i false)

theorem Inv.request (h : Inv s) {id : Nat} {r : Request} {answer : Answer}
    (hAct : s.activities id = some (.request r)) (hRoomy : r.phase.fails answer → s.Roomy) :
    Inv (s.requestStep id r answer) := by
  have hSettled := h.settled_at hAct (fun hCalm => hCalm) nofun fun _ _ => nofun
  have hStep := requestStep_cases s id r answer
  refine .settled ?_
  generalize s.requestStep id r answer = t at hStep ⊢
  cases hStep with
  | ignored => exact hSettled
  | listens hPhase =>
    have hListen : Settled (s.listen r.task id) := hSettled.congr rfl rfl rfl rfl rfl rfl
    exact hListen.setPhase hAct fun body => by rw [hPhase]; nofun
  | receives body bytes hPhase => exact hSettled.setPhase hAct fun body => by rw [hPhase]; nofun
  | ends body hPhase => exact hSettled.setPhase hAct fun body => by rw [hPhase]; nofun
  | opens body => exact hSettled.opens body hAct
  | completes body => exact hSettled.completed body hAct
  | fails message hFails =>
    exact hSettled.failed message hAct (Phase.not_writing_of_fails hFails) (hRoomy hFails)

theorem Inv.resume (h : Inv s) {id : Nat} {answer : Answer} (hOrderly : s.Orderly (.resume id answer)) :
    Inv (s.resume id answer) := by
  unfold Orderly at hOrderly
  dsimp only at hOrderly
  unfold State.resume
  split
  · next eTag acceptRanges contentLength hAct =>
    rw [hAct] at hOrderly
    exact (h.settled_of hOrderly.settled).answered hAct hOrderly
  · next message hAct =>
    refine h.aside (aside_put h.fresh hAct fun _ => nofun) fun a ha => ?_
    rw [hAct] at ha
    exact Option.some.inj ha ▸ trivial
  · next hAct =>
    cases h with
    | settled h => exact (h.sound id _ hAct).elim
    | clearing k hK hAlone hKept hBuilt hNext =>
      exact .cleared hAct (hAlone.only hAct (fun hCalm => hCalm) ▸ hAlone) hKept hBuilt hNext
    | building k i n q hK hAlone =>
      rw [hAlone.only hAct fun hCalm => hCalm, hK] at hAct
      cases hAct
  · next i restart hAct =>
    cases h with
    | settled h => exact (h.sound id _ hAct).elim
    | clearing k hK hAlone =>
      rw [hAlone.only hAct fun hCalm => hCalm, hK] at hAct
      cases hAct
    | building k j n q hK hAlone hCount hQueue hLt hKept =>
      have hId := hAlone.only hAct fun hCalm => hCalm
      rw [← hId, hAct] at hK
      obtain ⟨rfl, rfl⟩ := Activity.build.inj (Option.some.inj hK)
      exact .stated hAct (hId ▸ hAlone) hCount hQueue hLt hKept
  · next i offset hAct =>
    have hSettled := h.settled_at hAct (fun hCalm => hCalm) nofun fun _ _ => nofun
    exact .settled (hSettled.tested hAct)
  · next phase _ hAct =>
    refine h.aside (aside_directStep _ h.fresh hAct) fun a ha => ?_
    rw [hAct] at ha
    exact Option.some.inj ha ▸ trivial
  · next r _ hAct =>
    rw [hAct] at hOrderly
    exact h.request hAct hOrderly
  · exact h

theorem Inv.next (h : Inv s) (op : Op) (hOrderly : s.Orderly op) : Inv (s.next op) := by
  cases op with
  | start => exact h.start
  | stop => exact h.stop hOrderly
  | resume id answer => exact h.resume hOrderly

end State

open State

/-- The queue that `_freshQueue` builds from files that stay as they are. -/
theorem settled_missing (hQuiet : ∀ id, s.activities id = none) (hIdle : s.downloading = [])
    (hCount : s.blockCount = some n)
    (hQueue : s.queue = some ((missing s.disk.blocks n).map fun i => ⟨i, i⟩)) : Settled s := by
  have hNone : ∀ id a, s.activities id ≠ some a := by
    intro id a
    rw [hQuiet id]
    exact (Option.some_ne_none a).symm
  have hMap : ∀ l : List Nat, (l.map fun i => (⟨i, i⟩ : Task)).map Task.index = l := by
    intro l
    rw [List.map_map]
    exact List.map_id _
  have hMissing : ∀ {i}, i ∈ missing s.disk.blocks n ↔ i < n ∧ s.disk.blocks i = none := by
    intro i
    simp [missing]
  refine ⟨?_, fun id a hAct => absurd hAct (hNone id a), fun hQueue' => absurd hQueue' (by simp [hQueue])⟩
  rw [hIdle, pending, hQueue, count, hCount]
  refine ⟨⟨fun id _ => hQuiet id, fun id r hAct => absurd hAct (hNone id _),
    fun i j r r' hAct => absurd hAct (hNone i _), ?_, fun task _ id r hAct => absurd hAct (hNone id _)⟩,
    List.nodup_nil, fun _ _ _ hd => (by cases hd), fun task hq => ?_, fun _ hd => (by cases hd),
    fun task hOr => ?_, fun i hi => ?_⟩
  · rw [Option.getD_some, hMap]
    exact List.nodup_range.filter _
  · obtain ⟨i, hi, rfl⟩ := List.mem_map.mp hq
    exact (hMissing.mp hi).2
  · obtain ⟨i, hi, rfl⟩ := List.mem_map.mp (hOr.resolve_right List.not_mem_nil)
    exact (hMissing.mp hi).1
  · rw [Option.getD_some, hMap]
    by_cases hBlock : s.disk.blocks i = none
    · exact .inl (hMissing.mpr ⟨hi, hBlock⟩)
    · exact .inr (.inr hBlock)

theorem settled_created (maxThreading : Nat) (disk : Disk) : Settled (created maxThreading disk) := by
  refine ⟨⟨⟨fun _ _ => rfl, fun _ _ => nofun, fun _ _ _ _ => nofun, List.nodup_nil,
    fun _ hq => (by cases hq)⟩, List.nodup_nil, fun _ hq => (by cases hq), fun _ hq => (by cases hq),
    fun _ hd => (by cases hd), fun _ hOr => hOr.elim nofun nofun, fun i hi => ?_⟩, fun _ _ => nofun,
    fun _ => rfl⟩
  exact absurd hi (Nat.not_lt_zero i)

theorem settled_prepare (maxThreading : Nat) (disk : Disk) : Settled (prepare maxThreading disk) := by
  have hCreated := settled_created maxThreading disk
  unfold prepare
  split
  · exact hCreated.congr rfl rfl rfl rfl rfl rfl
  · split
    · exact hCreated
    · exact hCreated.congr rfl rfl rfl rfl rfl rfl
    · exact settled_missing (fun _ => rfl) rfl rfl rfl

/-- Over every run of `start`, `stop` and answers, in every state of it: every block is in exactly one
place and is requested at most once at a time, if every step is in order. -/
theorem booked_always (maxThreading : Nat) (disk : Disk) (ops : List Op)
    (h : Transition.Each next Orderly (prepare maxThreading disk) ops) :
    Transition.Always next Booked (prepare maxThreading disk) ops := by
  have hLegal : Transition.Each next (fun _ _ => True) (prepare maxThreading disk) ops :=
    Transition.each_of_forall (fun _ _ => trivial) _ _
  exact Transition.always_of_each (I := Inv) (fun _ op hInv _ hOrderly => hInv.next op hOrderly)
    (fun _ hInv => hInv.booked) (.settled (settled_prepare maxThreading disk)) hLegal h

/-- A download of one block that is stopped while it receives. -/
theorem booked_stopped : Transition.Always next Booked (prepare 5 noFiles)
    [.start, .resume 0 (.head (some "a") (some "bytes") (some 3)), .resume 0 .filed,
      .resume 0 .filed, .resume 2 (.status 200), .stop] := by
  refine booked_always 5 noFiles _ ⟨trivial, ?_, trivial, trivial, ?_, ?_, trivial⟩
  · refine ⟨?_, fun _ => ⟨rfl, ?_, .inl ⟨rfl, nofun⟩⟩⟩
    · rintro ⟨id | id, hAct | ⟨i, restart, hAct⟩⟩ <;> cases hAct
    · rintro (id | id) i offset hAct <;> cases hAct
  · exact nofun
  · refine fun _ => .inr fun task hTask => ⟨2, ?_, fun j r hAct _ => ?_⟩
    · obtain rfl := List.mem_singleton.mp hTask
      rfl
    · rcases j with _ | _ | _ | j
      · cases hAct
      · cases hAct
      · obtain rfl := Activity.request.inj (Option.some.inj hAct)
        exact ⟨rfl, _, rfl⟩
      · cases hAct

/-- The first of two blocks fails, and waits in the queue while it is in `_downloading`. -/
theorem booked_fails : ¬ Transition.Always next Booked (prepare 1 noFiles)
    [.start, .resume 0 (.head (some "a") (some "bytes") (some (blockSize + 1))), .resume 0 .filed,
      .resume 0 .filed, .resume 0 .filed, .resume 3 (.error "")] := by
  intro h
  have hLast := h.2.2.2.2.2.2
  have hPlace := hLast.place nofun (by
    rintro ⟨_ | _ | _ | _ | id, hAct | ⟨i, restart, hAct⟩⟩ <;> cases hAct) 0 (by decide)
  cases hPlace with
  | waits _ hNot => exact hNot (by decide)
  | loads hQueue => exact absurd hQueue (by decide)
  | finished hQueue => exact absurd hQueue (by decide)

end RetroConfig.MultiDownloader
