import RetroConfig.App.BlockRequests

/-!
# `MultiDownloader`: blocks and tasks

`Kept` says that each block waits, is being downloaded or is on disk. A task goes from the queue to
`_downloading` (`Kept.launch`), its file is opened (`Kept.write`) and written (`Kept.finish`); it goes back
when it fails (`Kept.requeue`) or is cancelled (`Kept.stop`).
-/

namespace RetroConfig.MultiDownloader.State

variable {s t : State} {q d rest : List Task} {n : Nat} {dup : Task → Prop}

/-- Each of the first `n` blocks waits in `q`, is in `d` or is on disk; a block in `d` is on disk only
while its file is written. A task that is in both `q` and `d` is one of `dup`. -/
structure Kept (s : State) (q d : List Task) (n : Nat) (dup : Task → Prop) : Prop
    extends Requests s q d where
  distinct : (d.map Task.index).Nodup
  disjoint : ∀ task ∈ q, ∀ other ∈ d, task.index = other.index → task = other ∧ dup task
  absent : ∀ task ∈ q, s.disk.blocks task.index = none
  opened : ∀ task ∈ d, s.disk.blocks task.index = none ∨
    ∃ id r body, s.activities id = some (.request r) ∧ r.task = task ∧ r.phase = .writing body
  bound : ∀ task, task ∈ q ∨ task ∈ d → task.index < n
  covered : ∀ i < n, i ∈ q.map Task.index ∨ i ∈ d.map Task.index ∨ s.disk.blocks i ≠ none

/-- What is on disk stays, requests go on for their tasks, and files being written are still
being written. -/
theorem Kept.of_back (h : Kept s q d n dup) (hDisk : t.disk.blocks = s.disk.blocks)
    (hFresh : ∀ id, t.nextId ≤ id → t.activities id = none)
    (hBack : ∀ j r, t.activities j = some (.request r) →
      ∃ r', s.activities j = some (.request r') ∧ r'.task = r.task)
    (hWriting : ∀ j r body, s.activities j = some (.request r) → r.phase = .writing body →
      t.activities j = some (.request r)) : Kept t q d n dup := by
  refine ⟨h.toRequests.of_back hFresh hBack, h.distinct, h.disjoint, ?_, fun task hTask => ?_, h.bound, ?_⟩
  · rw [hDisk]
    exact h.absent
  · rw [hDisk]
    refine (h.opened task hTask).imp_right ?_
    rintro ⟨id, r, body, hAct, hSame, hPhase⟩
    exact ⟨id, r, body, hWriting id r body hAct hPhase, hSame, hPhase⟩
  · rw [hDisk]
    exact h.covered

theorem Kept.congr (h : Kept s q d n dup) (hDisk : t.disk.blocks = s.disk.blocks)
    (hAct : t.activities = s.activities) (hId : t.nextId = s.nextId) : Kept t q d n dup := by
  refine h.of_back hDisk ?_ ?_ ?_
  · rw [hAct, hId]
    exact h.fresh
  · rw [hAct]
    exact fun j r hr => ⟨r, hr, rfl⟩
  · rw [hAct]
    exact fun j r body hr _ => hr

/-- An activity that is not writing goes on, a request for its task, or ends. -/
theorem Kept.put (h : Kept s q d n dup) {id : Nat} {x : Activity} {a : Option Activity}
    (hAct : s.activities id = some x) (hNot : ∀ r body, x = .request r → r.phase ≠ .writing body)
    (hSame : ∀ r, a = some (.request r) → ∃ r', x = .request r' ∧ r'.task = r.task) :
    Kept (s.put id a) q d n dup := by
  refine h.of_back rfl (fun j hj => ?_) (fun j r hr => ?_) (fun j r body hr hPhase => ?_)
  · have hLt := lt_nextId h.toRequests hAct
    have hj : s.nextId ≤ j := hj
    rw [put_activities, if_neg (by omega)]
    exact h.fresh j hj
  · rw [put_activities] at hr
    split at hr
    · next hId =>
      obtain ⟨r', rfl, hTask⟩ := hSame r hr
      exact ⟨r', hId ▸ hAct, hTask⟩
    · exact ⟨r, hr, rfl⟩
  · rw [put_activities]
    split
    · next hId =>
      rw [hId, hAct] at hr
      exact absurd hPhase (hNot r body (Option.some.inj hr))
    · exact hr

/-- The first task of the queue goes to `_downloading`. -/
theorem Kept.launch {task : Task} (h : Kept s (task :: rest) s.downloading n dup) :
    Kept (s.launch task) rest (s.launch task).downloading n dup := by
  have hNodup := h.listed
  rw [List.map_cons, List.nodup_cons] at hNodup
  obtain ⟨hDisk, -⟩ := launch_frame s task
  refine ⟨h.toRequests.launch, ?_, fun other hOther x hx hIndex => ?_, fun other hOther => ?_,
    fun x hx => ?_, fun x hx => ?_, fun i hi => ?_⟩
  · rw [launch_downloading]
    split
    · exact h.distinct
    · next hNot =>
      rw [List.map_append, List.nodup_append]
      refine ⟨h.distinct, List.nodup_singleton _, fun i hi j hj hEq => ?_⟩
      obtain ⟨x, hx, rfl⟩ := List.mem_map.mp hi
      obtain rfl := List.mem_singleton.mp hj
      have hSame := (h.disjoint task List.mem_cons_self x hx hEq.symm).1
      exact hNot (hSame ▸ hx)
  · rcases mem_launch.mp hx with hOld | rfl
    · exact h.disjoint other (List.mem_cons_of_mem _ hOther) x hOld hIndex
    · exact absurd (hIndex ▸ List.mem_map_of_mem hOther) hNodup.1
  · rw [hDisk]
    exact h.absent other (List.mem_cons_of_mem _ hOther)
  · rw [hDisk]
    rcases mem_launch.mp hx with hOld | rfl
    · refine (h.opened x hOld).imp_right ?_
      rintro ⟨id, r, body, hAct, hSame, hPhase⟩
      exact ⟨id, r, body, launch_keeps h.toRequests hAct, hSame, hPhase⟩
    · exact .inl (h.absent x List.mem_cons_self)
  · rcases hx with hx | hx
    · exact h.bound x (.inl (List.mem_cons_of_mem _ hx))
    · rcases mem_launch.mp hx with hOld | rfl
      · exact h.bound x (.inr hOld)
      · exact h.bound x (.inl List.mem_cons_self)
  · rw [hDisk]
    rcases h.covered i hi with hQueue | hDown | hBlock
    · rw [List.map_cons, List.mem_cons] at hQueue
      rcases hQueue with rfl | hRest
      · exact .inr (.inl (List.mem_map_of_mem (mem_launch.mpr (.inr rfl))))
      · exact .inl hRest
    · obtain ⟨x, hx, rfl⟩ := List.mem_map.mp hDown
      exact .inr (.inl (List.mem_map_of_mem (mem_launch.mpr (.inl hx))))
    · exact .inr (.inr hBlock)

theorem Kept.checkDownload (h : Kept s s.pending s.downloading n dup) :
    Kept s.checkDownload s.checkDownload.pending s.checkDownload.downloading n dup :=
  checkDownload_induction (P := fun t rest => Kept t rest t.downloading n dup)
    (fun _ _ _ h => h.launch) (fun _ _ h => h.congr rfl rfl rfl) h

/-- The file of a block is there, truncated. -/
theorem Kept.write (h : Kept s q d n fun _ => False) {id : Nat} {r : Request} {body : List UInt8}
    (hAct : s.activities id = some (.request r)) :
    Kept ((s.writeBlock r.task.index []).setPhase id r (.writing body)) q d n fun _ => False := by
  have hTask := h.tracked id r hAct
  have hBlocks : ∀ i, i ≠ r.task.index →
      ((s.writeBlock r.task.index []).setPhase id r (.writing body)).disk.blocks i = s.disk.blocks i :=
    fun i hi => Function.update_of_ne hi _ _
  have hSelf : ((s.writeBlock r.task.index []).setPhase id r (.writing body)).disk.blocks
      r.task.index = some [] := Function.update_self ..
  have hKeep : ∀ j r' body', s.activities j = some (.request r') → r'.phase = .writing body' →
      ∃ r'' body'', ((s.writeBlock r.task.index []).setPhase id r (.writing body)).activities j =
        some (.request r'') ∧ r''.task = r'.task ∧ r''.phase = .writing body'' := by
    intro j r' body' hr' hPhase
    rw [setPhase, put_activities]
    split
    · next hj =>
      rw [hj, hAct] at hr'
      obtain rfl := Activity.request.inj (Option.some.inj hr')
      exact ⟨_, _, rfl, rfl, rfl⟩
    · exact ⟨r', body', hr', rfl, hPhase⟩
  refine ⟨h.toRequests.of_back (fun j hj => ?_) fun j r' hr' => ?_, h.distinct, h.disjoint,
    fun task hq => ?_, fun task hd => ?_, h.bound, fun i hi => ?_⟩
  · have hLt := lt_nextId h.toRequests hAct
    have hj : s.nextId ≤ j := hj
    rw [setPhase, put_activities, if_neg (by omega)]
    exact h.fresh j hj
  · rw [setPhase, put_activities] at hr'
    split at hr'
    · next hj =>
      obtain rfl := Activity.request.inj (Option.some.inj hr')
      exact ⟨r, hj ▸ hAct, rfl⟩
    · exact ⟨r', hr', rfl⟩
  · rw [hBlocks task.index fun hEq => (h.disjoint task hq r.task hTask hEq).2]
    exact h.absent task hq
  · by_cases hEq : task.index = r.task.index
    · have hSame : task = r.task := List.inj_on_of_nodup_map h.distinct hd hTask hEq
      refine .inr ⟨id, { r with phase := .writing body }, body, ?_, hSame.symm, rfl⟩
      rw [setPhase, put_activities, if_pos rfl]
    · rw [hBlocks task.index hEq]
      refine (h.opened task hd).imp_right ?_
      rintro ⟨j, r', body', hr', hSame, hPhase⟩
      obtain ⟨r'', body'', hr'', hTask'', hPhase''⟩ := hKeep j r' body' hr' hPhase
      exact ⟨j, r'', body'', hr'', hTask''.trans hSame, hPhase''⟩
  · rcases h.covered i hi with hQueue | hDown | hBlock
    · exact .inl hQueue
    · exact .inr (.inl hDown)
    · refine .inr (.inr ?_)
      by_cases hEq : i = r.task.index
      · rw [hEq, hSelf]
        exact Option.some_ne_none _
      · rw [hBlocks i hEq]
        exact hBlock

/-- The file of a block has been written, and its task is removed. -/
theorem Kept.finish (h : Kept s q d n fun _ => False) {id : Nat} {r : Request} {body : List UInt8}
    (hAct : s.activities id = some (.request r)) :
    Kept ((s.writeBlock r.task.index body).put id none) q (d.erase r.task) n fun _ => False := by
  have hTask := h.tracked id r hAct
  have hNodup : d.Nodup := .of_map _ h.distinct
  have hBlocks : ∀ i, i ≠ r.task.index →
      ((s.writeBlock r.task.index body).put id none).disk.blocks i = s.disk.blocks i :=
    fun i hi => Function.update_of_ne hi _ _
  have hSelf : ((s.writeBlock r.task.index body).put id none).disk.blocks r.task.index = some body :=
    Function.update_self ..
  have hErase : ∀ task ∈ d.erase r.task, task ∈ d ∧ task.index ≠ r.task.index := by
    intro task hErased
    obtain ⟨hNe, hMem⟩ := hNodup.mem_erase_iff.mp hErased
    exact ⟨hMem, fun hEq => hNe (List.inj_on_of_nodup_map h.distinct hMem hTask hEq)⟩
  have hOld : ∀ j r', ((s.writeBlock r.task.index body).put id none).activities j =
      some (.request r') → j ≠ id ∧ s.activities j = some (.request r') :=
    fun j r' hr' => put_none_activities hr'
  refine ⟨⟨fun j hj => ?_, fun j r' hr' => ?_, fun i j r₁ r₂ h₁ h₂ => ?_, h.listed,
    fun task hq j r' hr' => ?_⟩, ?_, fun task hq other hOther hIndex => ?_, fun task hq => ?_,
    fun task hd => ?_, fun task hOr => ?_, fun i hi => ?_⟩
  · rw [put_activities]
    split
    · rfl
    · exact h.fresh j hj
  · obtain ⟨hNe, hr'⟩ := hOld j r' hr'
    refine hNodup.mem_erase_iff.mpr ⟨fun hEq => hNe ?_, h.tracked j r' hr'⟩
    exact h.single j id r' r hr' hAct (congrArg Task.index hEq)
  · exact h.single i j r₁ r₂ (hOld i r₁ h₁).2 (hOld j r₂ h₂).2
  · exact h.apart task hq j r' (hOld j r' hr').2
  · exact h.distinct.sublist (List.erase_sublist.map _)
  · exact h.disjoint task hq other (hErase other hOther).1 hIndex
  · rw [hBlocks task.index fun hEq => (h.disjoint task hq r.task hTask hEq).2]
    exact h.absent task hq
  · obtain ⟨hMem, hNe⟩ := hErase task hd
    rw [hBlocks task.index hNe]
    refine (h.opened task hMem).imp_right ?_
    rintro ⟨j, r', body', hr', hSame, hPhase⟩
    refine ⟨j, r', body', ?_, hSame, hPhase⟩
    rw [put_activities, if_neg fun hj => ?_]
    · exact hr'
    · rw [hj, hAct] at hr'
      obtain rfl := Activity.request.inj (Option.some.inj hr')
      exact hNe (congrArg Task.index hSame.symm)
  · exact h.bound task (hOr.imp_right fun hd => (hErase task hd).1)
  · by_cases hEq : i = r.task.index
    · exact .inr (.inr (by rw [hEq, hSelf]; exact Option.some_ne_none _))
    · rcases h.covered i hi with hQueue | hDown | hBlock
      · exact .inl hQueue
      · obtain ⟨task, hMem, rfl⟩ := List.mem_map.mp hDown
        refine .inr (.inl (List.mem_map_of_mem (hNodup.mem_erase_iff.mpr ⟨fun hSame => ?_, hMem⟩)))
        exact hEq (congrArg Task.index hSame)
      · exact .inr (.inr (by rw [hBlocks i hEq]; exact hBlock))

/-- A task that failed goes back to the queue. -/
theorem Kept.requeue (h : Kept s q d n fun _ => False) {id : Nat} {r : Request}
    (hAct : s.activities id = some (.request r)) (hNot : ∀ body, r.phase ≠ .writing body) :
    Kept (s.put id none) (q ++ [r.task]) d n (· = r.task) := by
  have hTask := h.tracked id r hAct
  have hPut : Kept (s.put id none) q d n fun _ => False :=
    h.put hAct (fun r' body hr' => Activity.request.inj hr' ▸ hNot body) fun _ hr' => (by cases hr')
  refine ⟨h.toRequests.requeue hAct, hPut.distinct, fun task hq other hd hIndex => ?_, fun task hq => ?_,
    hPut.opened, fun task hOr => ?_, fun i hi => ?_⟩
  · rcases List.mem_append.mp hq with hMem | hLast
    · exact (h.disjoint task hMem other hd hIndex).2.elim
    · obtain rfl := List.mem_singleton.mp hLast
      exact ⟨List.inj_on_of_nodup_map h.distinct hTask hd hIndex, rfl⟩
  · rcases List.mem_append.mp hq with hMem | hLast
    · exact h.absent task hMem
    · rw [List.mem_singleton.mp hLast]
      refine (h.opened r.task hTask).resolve_right ?_
      rintro ⟨j, r', body, hr', hSame, hPhase⟩
      have hj := h.single j id r' r hr' hAct (congrArg Task.index hSame)
      rw [hj, hAct] at hr'
      obtain rfl := Activity.request.inj (Option.some.inj hr')
      exact hNot body hPhase
  · refine hOr.elim (fun hq => ?_) fun hd => h.bound task (.inr hd)
    rcases List.mem_append.mp hq with hMem | hLast
    · exact h.bound task (.inl hMem)
    · exact h.bound task (.inr (List.mem_singleton.mp hLast ▸ hTask))
  · refine (h.covered i hi).imp_left fun hQueue => ?_
    rw [List.map_append]
    exact List.mem_append_left _ hQueue

/-- If no task is left in the queue, none is in both places. -/
theorem Kept.of_nil (h : Kept s [] d n dup) : Kept s [] d n fun _ => False :=
  ⟨h.toRequests, h.distinct, fun _ hq => (by cases hq), h.absent, h.opened, h.bound, h.covered⟩

/-! ## `stop` -/

theorem cancel_frame (s : State) (id : Nat) : (s.cancel id).disk = s.disk ∧
    (s.cancel id).blockCount = s.blockCount ∧ (s.cancel id).queue = s.queue ∧
      (s.cancel id).nextId = s.nextId ∧ (s.cancel id).subscription = s.subscription := by
  unfold cancel
  split <;> exact ⟨rfl, rfl, rfl, rfl, rfl⟩

/-- What is there after a request was cancelled was there before. -/
theorem cancel_activities {id j : Nat} {a : Activity} (h : (s.cancel id).activities j = some a) :
    s.activities j = some a := by
  unfold cancel at h
  split at h
  · rw [put_activities] at h
    split at h
    · cases h
    · exact h
  · exact h

theorem cancel_keeps {id j : Nat} {r : Request} {body : List UInt8}
    (hAct : s.activities j = some (.request r)) (hPhase : r.phase = .writing body) :
    (s.cancel id).activities j = some (.request r) := by
  unfold cancel
  split
  · next task range body' hOld =>
    rw [put_activities, if_neg]
    · exact hAct
    · rintro rfl
      rw [hAct] at hOld
      obtain rfl := Activity.request.inj (Option.some.inj hOld)
      cases hPhase
  · exact hAct

/-- The request of a task that receives is gone. -/
theorem cancel_receiving {id : Nat} {r : Request} {body : List UInt8} (hPhase : r.phase = .receiving body) :
    (s.cancel id).activities id ≠ some (.request r) := by
  intro hAct
  have hOld := cancel_activities hAct
  unfold cancel at hAct
  rw [hOld] at hAct
  obtain ⟨task, range, phase⟩ := r
  obtain rfl : phase = .receiving body := hPhase
  dsimp only at hAct
  rw [put_activities, if_pos rfl] at hAct
  cases hAct

/-- One task goes back to the queue. -/
theorem Kept.stop {task : Task} {id : Nat} (h : Kept s q (task :: rest) n fun _ => False)
    (hRequest : ∀ j r, s.activities j = some (.request r) → r.task = task →
      j = id ∧ ∃ body, r.phase = .receiving body) :
    Kept (s.cancel id) (task :: q) rest n fun _ => False := by
  obtain ⟨hDisk, -, -, hId, -⟩ := cancel_frame s id
  have hNodup := h.distinct
  rw [List.map_cons, List.nodup_cons] at hNodup
  have hGone : ∀ j r, (s.cancel id).activities j = some (.request r) → r.task ≠ task := by
    intro j r hr hEq
    obtain ⟨rfl, body, hPhase⟩ := hRequest j r (cancel_activities hr) hEq
    exact cancel_receiving hPhase hr
  have hBack : Requests (s.cancel id) q (task :: rest) := by
    refine h.toRequests.of_back (fun j hj => ?_) fun j r hr => ⟨r, cancel_activities hr, rfl⟩
    rw [hId] at hj
    by_contra hSome
    obtain ⟨a, ha⟩ := Option.ne_none_iff_exists'.mp hSome
    have hOld := cancel_activities ha
    rw [h.fresh j hj] at hOld
    cases hOld
  have hTask : task ∈ task :: rest := List.mem_cons_self
  refine ⟨⟨hBack.fresh, fun j r hr => ?_, hBack.single, ?_, fun other hq j r hr => ?_⟩, hNodup.2,
    fun other hq x hx hIndex => ?_, fun other hq => ?_, fun other hd => ?_, fun other hOr => ?_,
    fun i hi => ?_⟩
  · exact (List.mem_cons.mp (hBack.tracked j r hr)).resolve_left (hGone j r hr)
  · rw [List.map_cons, List.nodup_cons]
    refine ⟨fun hIn => ?_, h.listed⟩
    obtain ⟨other, hOther, hEq⟩ := List.mem_map.mp hIn
    exact (h.disjoint other hOther task hTask hEq).2
  · rcases List.mem_cons.mp hq with rfl | hOld
    · intro hIndex
      have hIn := (List.mem_cons.mp (hBack.tracked j r hr)).resolve_left (hGone j r hr)
      exact hNodup.1 (hIndex ▸ List.mem_map_of_mem hIn)
    · exact hBack.apart other hOld j r hr
  · rcases List.mem_cons.mp hq with rfl | hOld
    · exact absurd (hIndex ▸ List.mem_map_of_mem hx) hNodup.1
    · exact h.disjoint other hOld x (List.mem_cons_of_mem _ hx) hIndex
  · rw [hDisk]
    rcases List.mem_cons.mp hq with rfl | hOld
    · refine (h.opened other hTask).resolve_right ?_
      rintro ⟨j, r, body, hr, hSame, hPhase⟩
      obtain ⟨-, body', hPhase'⟩ := hRequest j r hr hSame
      rw [hPhase] at hPhase'
      cases hPhase'
    · exact h.absent other hOld
  · rw [hDisk]
    refine (h.opened other (List.mem_cons_of_mem _ hd)).imp_right ?_
    rintro ⟨j, r, body, hr, hSame, hPhase⟩
    exact ⟨j, r, body, cancel_keeps hr hPhase, hSame, hPhase⟩
  · refine h.bound other ?_
    rcases hOr with hq | hd
    · rcases List.mem_cons.mp hq with rfl | hOld
      · exact .inr hTask
      · exact .inl hOld
    · exact .inr (List.mem_cons_of_mem _ hd)
  · rw [hDisk, List.map_cons]
    rcases h.covered i hi with hQueue | hDown | hBlock
    · exact .inl (List.mem_cons_of_mem _ hQueue)
    · rw [List.map_cons] at hDown
      rcases List.mem_cons.mp hDown with rfl | hRest
      · exact .inl List.mem_cons_self
      · exact .inr (.inl hRest)
    · exact .inr (.inr hBlock)

end RetroConfig.MultiDownloader.State
