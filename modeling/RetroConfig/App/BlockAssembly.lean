import RetroConfig.App.BlockRequests
import Mathlib.Algebra.Order.Ring.Int

/-!
# `MultiDownloader`: putting the blocks together

`_testComplete` writes the files of the blocks to the output one after the other. It asks only whether
they are there: a body that is not empty is accepted whatever its length, and a file that an earlier
run has left is trusted.

`assembled_each` says that the output has the bytes of the ranges, in order, whenever the block-wise path
reports completion, if every accepted body and every trusted file has the length of its range.
-/

namespace RetroConfig.MultiDownloader

/-! ## The ranges of a total length -/

/-- The division rounds up the exact quotient, and the ends of blocks are below `2 ^ 63`. -/
structure Splits (total : Nat) : Prop where
  exact : blockCountOf total = (total + (blockSize - 1)) / blockSize
  fits : blockCountOf total * blockSize < 2 ^ 63

/-- Every offset is in the range of exactly one block, and no range has others. -/
structure Partition (total n : Nat) : Prop where
  covers : ∀ x : Int, (∃ i < n, (range total i).start ≤ x ∧ x < (range total i).end') ↔
    0 ≤ x ∧ x < total
  apart : ∀ x : Int, ∀ i < n, ∀ j < n, (range total i).start ≤ x → x < (range total i).end' →
    (range total j).start ≤ x → x < (range total j).end' → i = j

theorem toDouble_of_lt {n : Nat} (h : n < 2 ^ 53) : toDouble n = n := by
  have hLog : Nat.log2 n - 52 = 0 := by
    by_cases hZero : n = 0
    · rw [hZero]
      rfl
    · have hLt := (Nat.log2_lt hZero).mpr h
      omega
  unfold toDouble
  rw [hLog]
  simp [Nat.mod_one]

/-- Lengths below `2 ^ 53` are not rounded. -/
theorem splits_of_lt {total : Nat} (h : total < 2 ^ 53) : Splits total := by
  have hExact : blockCountOf total = (total + (blockSize - 1)) / blockSize := by
    rw [blockCountOf, toDouble_of_lt h]
  refine ⟨hExact, ?_⟩
  rw [hExact]
  have hMul := Nat.div_mul_le_self (total + (blockSize - 1)) blockSize
  have hSize : blockSize = 2097152 := rfl
  omega

theorem int64_of_lt {n : Nat} (h : n < 2 ^ 63) : int64 n = n := by
  rw [int64]
  exact Int.bmod_eq_of_le (by omega) (by omega)

theorem range_eq {total i : Nat} (h : Splits total) (hi : i < blockCountOf total) :
    range total i = ⟨(i * blockSize : Nat), (min ((i + 1) * blockSize) total : Nat)⟩ := by
  have hSucc : (i + 1) * blockSize ≤ blockCountOf total * blockSize :=
    Nat.mul_le_mul_right _ hi
  have hLe : i * blockSize ≤ (i + 1) * blockSize := Nat.mul_le_mul_right _ (Nat.le_succ i)
  have hFits := h.fits
  have hStart : int64 ((i * blockSize : Nat) : Int) = (i * blockSize : Nat) := int64_of_lt (by omega)
  have hEnd : int64 (((i + 1) * blockSize : Nat) : Int) = ((i + 1) * blockSize : Nat) :=
    int64_of_lt (by omega)
  have hMin : min (((i + 1) * blockSize : Nat) : Int) total = (min ((i + 1) * blockSize) total : Nat) := by
    omega
  have hMul : (i : Int) * (blockSize : Int) = (i * blockSize : Nat) := by push_cast; rfl
  have hMul' : ((i : Int) + 1) * (blockSize : Int) = ((i + 1) * blockSize : Nat) := by push_cast; rfl
  rw [range, hMul, hMul', hStart, hEnd, hMin]

/-- A block starts below the total length. -/
theorem start_lt {total i : Nat} (h : Splits total) (hi : i < blockCountOf total) :
    i * blockSize < total := by
  rw [h.exact, Nat.lt_div_iff_mul_lt (by decide)] at hi
  have hSize : blockSize = 2097152 := rfl
  omega

theorem total_le {total : Nat} (h : Splits total) : total ≤ blockCountOf total * blockSize := by
  rw [h.exact]
  have hSize : blockSize = 2097152 := rfl
  rw [hSize]
  omega

theorem Splits.partition {total : Nat} (h : Splits total) : Partition total (blockCountOf total) := by
  have hSize : 0 < blockSize := by decide
  have hIndex : ∀ {x : Int} {i : Nat}, i < blockCountOf total → (range total i).start ≤ x →
      x < (range total i).end' → 0 ≤ x ∧ x < total ∧ x.toNat / blockSize = i := by
    intro x i hi hStart hEnd
    rw [range_eq h hi] at hStart hEnd
    dsimp only at hStart hEnd
    have hLow : i * blockSize ≤ x.toNat := by omega
    have hHigh : x.toNat < (i + 1) * blockSize := by omega
    exact ⟨by omega, by omega, Nat.div_eq_of_lt_le hLow hHigh⟩
  refine ⟨fun x => ⟨?_, ?_⟩, fun x i hi j hj hStart hEnd hStart' hEnd' => ?_⟩
  · rintro ⟨i, hi, hStart, hEnd⟩
    obtain ⟨hLow, hHigh, -⟩ := hIndex hi hStart hEnd
    exact ⟨hLow, hHigh⟩
  · rintro ⟨hLow, hHigh⟩
    have hTotal := total_le h
    have hi : x.toNat / blockSize < blockCountOf total := by
      rw [Nat.div_lt_iff_lt_mul hSize]
      omega
    refine ⟨x.toNat / blockSize, hi, ?_⟩
    rw [range_eq h hi]
    have hMul := Nat.div_mul_le_self x.toNat blockSize
    have hLt := Nat.lt_mul_div_succ x.toNat hSize
    rw [Nat.mul_comm] at hLt
    dsimp only
    omega
  · rw [← (hIndex hi hStart hEnd).2.2, (hIndex hj hStart' hEnd').2.2]

namespace State

variable {s t : State} {q : List Task} {total : Nat}

/-- The first `k` blocks one after the other. -/
def joined (s : State) (k : Nat) : List UInt8 :=
  (List.range k).flatMap fun i => (s.disk.blocks i).getD []

/-- The output has the bytes of the ranges of all blocks, in order. -/
structure Assembled (s : State) (total : Nat) : Prop where
  totalLength : s.totalLength = some total
  present : ∀ i < s.count, ∃ bytes, s.disk.blocks i = some bytes ∧
    (bytes.length : Int) = (range total i).length
  output : s.disk.output = some (s.joined s.count)
  partition : Partition total s.count
  length : (s.joined s.count).length = total

/-- `onComplete` is called from the block-wise path. -/
def Completes (s : State) (op : Op) : Prop := (s.next op).calls = s.calls ++ [.onComplete true]

/-- Files have the lengths of their ranges. -/
def Fits (s : State) (total : Nat) : Prop :=
  ∀ i < s.count, ∀ bytes, s.disk.blocks i = some bytes →
    (bytes.length : Int) = (range total i).length

/-- The queue and the files that a `start` goes on with are of the total length. -/
def Trusted (s : State) : Prop :=
  ∀ total, s.totalLength = some total → s.queue ≠ none →
    s.blockCount = some (blockCountOf total) ∧ Splits total ∧ s.Fits total

/-- A body that has been received is empty or has the length of its range; the answer to `HEAD` has a
length that can be split, or finds what can be trusted. -/
def Exact (s : State) : Op → Prop
  | .resume id answer =>
    match s.activities id, answer with
    | some .head, .head eTag acceptRanges contentLength => acceptRanges = some "bytes" →
        if s.eTag = none ∨ s.eTag ≠ eTag then ∀ total, contentLength = some total → Splits total
        else s.Trusted
    | some (.request ⟨_, range, .receiving body⟩), .done =>
        body = [] ∨ (body.length : Int) = range.length
    | _, _ => True
  | _ => True

/-! ## Lengths -/

theorem joined_succ (s : State) (k : Nat) :
    s.joined (k + 1) = s.joined k ++ (s.disk.blocks k).getD [] := by
  rw [joined, joined, List.range_succ, List.flatMap_append, List.flatMap_singleton]

theorem joined_length (hSplits : Splits total) (hCount : s.count = blockCountOf total)
    (hPresent : ∀ i < s.count, ∃ bytes, s.disk.blocks i = some bytes ∧
      (bytes.length : Int) = (range total i).length) :
    ∀ k ≤ s.count, (s.joined k).length = min (k * blockSize) total := by
  intro k hk
  induction k with
  | zero => simp [joined]
  | succ k ih =>
    obtain ⟨bytes, hBytes, hLength⟩ := hPresent k hk
    have hLt : k < blockCountOf total := hCount ▸ hk
    have hStart := start_lt hSplits hLt
    have hLe : k * blockSize ≤ (k + 1) * blockSize := Nat.mul_le_mul_right _ (Nat.le_succ k)
    rw [range_eq hSplits hLt, Range.length] at hLength
    dsimp only at hLength
    rw [joined_succ, hBytes, Option.getD_some, List.length_append, ih (Nat.le_of_succ_le hk)]
    omega

theorem writeAt_length (file bytes : List UInt8) : writeAt file file.length bytes = file ++ bytes := by
  have hDrop : file.drop (file.length + bytes.length) = [] :=
    List.drop_eq_nil_of_le (Nat.le_add_right _ _)
  rw [writeAt, List.take_length, Nat.sub_self, List.replicate_zero, List.append_nil, hDrop,
    List.append_nil]

/-! ## Stages of a run without `stop` -/

/-- Nothing goes on but one activity. -/
structure Solo (s : State) (id : Nat) (a : Activity) : Prop where
  act : s.activities id = some a
  only : ∀ j, j ≠ id → s.activities j = none
  lt : id < s.nextId
  idle : s.downloading = []
  busy : s.isDownloading = true

/-- What an accepted body has to be. -/
def Phase.Sized (length : Int) : Phase → Prop
  | .saving body => body = [] ∨ (body.length : Int) = length
  | .writing body => (body.length : Int) = length
  | _ => True

/-- Blocks are downloaded. A file that is not being written has the length of its range. -/
structure Loads (s : State) (q : List Task) (total : Nat) : Prop where
  requests : Requests s q s.downloading
  others : ∀ id a, s.activities id = some a → ∃ r, a = .request r
  busy : s.isDownloading = true
  totalLength : s.totalLength = some total
  blockCount : s.blockCount = some (blockCountOf total)
  splits : Splits total
  asked : ∀ id r, s.activities id = some (.request r) → r.range = range total r.task.index
  sized : ∀ id r, s.activities id = some (.request r) → Phase.Sized r.range.length r.phase
  files : ∀ i < s.count, ∀ bytes, s.disk.blocks i = some bytes →
    (bytes.length : Int) = (range total i).length ∨
      ∃ id r body, s.activities id = some (.request r) ∧ r.task.index = i ∧ r.phase = .writing body

/-- The stages of a run: at rest, between `start` and the first request, building a queue, downloading
blocks, and putting them together. -/
inductive Stage (s : State) : Prop where
  | rest (hQuiet : ∀ id, s.activities id = none) (hIdle : s.isDownloading = false → s.downloading = [])
      (hListed : (s.pending.map Task.index).Nodup)
  | starts (id : Nat) (a : Activity) (hSolo : Solo s id a)
      (hKind : a = .head ∨ (∃ phase, a = .direct phase) ∨ a = .clear ∧
        (s.parting = true → ∀ total, s.totalLength = some total → Splits total))
      (hListed : (s.pending.map Task.index).Nodup)
  | builds (id i : Nat) (restart : Bool) (total : Nat) (hSolo : Solo s id (.build i restart))
      (hTotal : s.totalLength = some total) (hCount : s.blockCount = some (blockCountOf total))
      (hSplits : Splits total) (hFits : s.Fits total) (hQueue : s.queue ≠ none)
      (hListed : (s.pending.map Task.index).Nodup) (hBound : ∀ task ∈ s.pending, task.index < i)
  | loads (total : Nat) (h : Loads s s.pending total)
  | tests (id i total : Nat) (hSolo : Solo s id (.test i (s.joined i).length))
      (hTotal : s.totalLength = some total) (hCount : s.blockCount = some (blockCountOf total))
      (hSplits : Splits total) (hFits : s.Fits total) (hQueue : s.pending = [])
      (hLt : i < s.count) (hOutput : s.disk.output = some (s.joined i))
      (hPresent : ∀ j < i, s.disk.blocks j ≠ none)

/-- What a step reports. -/
inductive Reports (s t : State) : Prop where
  | none (h : t.calls = s.calls)
  | other (c : Callback) (hNot : c ≠ .onComplete true) (h : t.calls = s.calls ++ [c])
  | complete (total : Nat) (h : Assembled t total)

theorem Reports.of_calls {u : State} (h : Reports u t) (hCalls : u.calls = s.calls) : Reports s t := by
  cases h with
  | none hSame => exact .none (hSame.trans hCalls)
  | other c hNot hSame => exact .other c hNot (hCalls ▸ hSame)
  | complete total hAssembled => exact .complete total hAssembled

/-! ## Between `start` and the first request -/

theorem Solo.requests {id : Nat} {a : Activity} (h : Solo s id a) (hNot : ∀ r, a ≠ .request r)
    (hListed : (q.map Task.index).Nodup) : Requests s q s.downloading := by
  have hNone : ∀ j r, s.activities j ≠ some (.request r) := by
    intro j r hr
    by_cases hj : j = id
    · rw [hj, h.act] at hr
      exact hNot r (Option.some.inj hr)
    · rw [h.only j hj] at hr
      cases hr
  refine ⟨fun j hj => h.only j ?_, fun j r hr => absurd hr (hNone j r),
    fun j k r r' hr => absurd hr (hNone j r), hListed, fun _ _ j r hr => absurd hr (hNone j r)⟩
  have hLt := h.lt
  omega

theorem Solo.quiet {id : Nat} {a : Activity} (h : Solo s id a) :
    ∀ j, (s.put id none).activities j = none := by
  intro j
  rw [put_activities]
  split
  · rfl
  · next hj => exact h.only j hj

theorem Solo.put {id : Nat} {a : Activity} (h : Solo s id a) (b : Activity) :
    Solo (s.put id (some b)) id b := by
  refine ⟨?_, fun j hj => ?_, h.lt, h.idle, h.busy⟩
  · rw [put_activities, if_pos rfl]
  · rw [put_activities, if_neg hj]
    exact h.only j hj

/-- The activity ends, and nothing goes on. -/
theorem Solo.rest {id : Nat} {a : Activity} (h : Solo s id a) (hListed : (s.pending.map Task.index).Nodup) :
    Stage (s.put id none) :=
  .rest h.quiet (fun _ => h.idle) hListed

theorem Loads.launch {task : Task} (h : Loads s (task :: q) total) : Loads (s.launch task) q total := by
  obtain ⟨hDisk, hCount, hTotal, -, -, hBusy⟩ := launch_frame s task
  have hCount' : (s.launch task).count = s.count := congrArg (·.getD 0) hCount
  refine ⟨h.requests.launch, fun id a ha => ?_, hBusy.trans h.busy, hTotal.trans h.totalLength,
    hCount.trans h.blockCount, h.splits, fun id r hr => ?_, fun id r hr => ?_, fun i hi bytes hBytes => ?_⟩
  · rcases launch_activities ha with hOld | ⟨-, total', -, rfl⟩
    · exact h.others id a hOld
    · exact ⟨_, rfl⟩
  · rcases launch_activities hr with hOld | ⟨-, total', hTotal', hNew⟩
    · exact h.asked id r hOld
    · rw [h.totalLength] at hTotal'
      obtain rfl := Option.some.inj hTotal'
      obtain rfl := Activity.request.inj hNew
      rfl
  · rcases launch_activities hr with hOld | ⟨-, total', -, hNew⟩
    · exact h.sized id r hOld
    · obtain rfl := Activity.request.inj hNew
      trivial
  · rw [hDisk] at hBytes
    rw [hCount'] at hi
    refine (h.files i hi bytes hBytes).imp_right ?_
    rintro ⟨id, r, body, hAct, hIndex, hPhase⟩
    exact ⟨id, r, body, launch_keeps h.requests hAct, hIndex, hPhase⟩

theorem Loads.checkDownload (h : Loads s s.pending total) :
    Loads s.checkDownload s.checkDownload.pending total :=
  checkDownload_induction (P := fun t rest => Loads t rest total) (fun _ _ _ h => h.launch)
    (fun _ _ h => ⟨⟨h.requests.fresh, h.requests.tracked, h.requests.single, h.requests.listed,
      h.requests.apart⟩, h.others, h.busy, h.totalLength, h.blockCount, h.splits, h.asked, h.sized, h.files⟩) h

/-- The end of `start`. -/
theorem Solo.download {id : Nat} {a : Activity} (h : Solo s id a) (hNot : ∀ r, a ≠ .request r)
    (hListed : (s.pending.map Task.index).Nodup) (hTrusted : s.parting = true → s.Trusted) :
    Stage (s.download id) ∧ (s.download id).calls = s.calls := by
  unfold State.download
  split
  · next hParting =>
    refine ⟨?_, checkDownload_calls _⟩
    have hPut : Requests (s.put id none) s.pending s.downloading := by
      refine (h.requests hNot hListed).of_back (fun j _ => h.quiet j) fun j r hr => ?_
      rw [h.quiet j] at hr
      cases hr
    cases hQueue : s.queue with
    | none =>
      have hSame : (s.put id none).checkDownload = s.put id none := by
        unfold State.checkDownload
        split
        · rfl
        · next q hSome => exact absurd (hQueue.symm.trans hSome) nofun
      rw [hSame]
      exact h.rest hListed
    | some q =>
      cases hTotal : s.totalLength with
      | none =>
        -- No request can be made without a total length.
        have hQuiet : (s.put id none).checkDownload.totalLength = none ∧
            ∀ j, (s.put id none).checkDownload.activities j = none := by
          refine checkDownload_induction
            (P := fun t _ => t.totalLength = none ∧ ∀ j, t.activities j = none)
            (fun t task _ hOld => ?_) (fun _ _ hOld => hOld) ⟨hTotal, h.quiet⟩
          obtain ⟨-, -, hTotal', -⟩ := launch_frame t task
          refine ⟨hTotal'.trans hOld.1, fun j => ?_⟩
          by_contra hSome
          obtain ⟨a, ha⟩ := Option.ne_none_iff_exists'.mp hSome
          rcases launch_activities ha with ha | ⟨-, total, hSome', -⟩
          · rw [hOld.2 j] at ha
            cases ha
          · rw [hOld.1] at hSome'
            cases hSome'
        refine .rest hQuiet.2 (fun hIdle => ?_) hPut.checkDownload.listed
        rw [(checkDownload_frame _).2.2.2.1] at hIdle
        have hIdle : s.isDownloading = false := hIdle
        rw [h.busy] at hIdle
        cases hIdle
      | some total =>
        obtain ⟨hCount, hSplits, hFits⟩ := hTrusted hParting total hTotal (by rw [hQueue]; nofun)
        refine .loads total (Loads.checkDownload ⟨hPut, fun j a ha => ?_, h.busy, hTotal, hCount, hSplits,
          fun j r hr => ?_, fun j r hr => ?_, fun i hi bytes hBytes => .inl (hFits i hi bytes hBytes)⟩)
        all_goals
          first
          | rw [h.quiet j] at ha; cases ha
          | rw [h.quiet j] at hr; cases hr
  · exact ⟨.starts id _ (h.put _) (.inr (.inl ⟨_, rfl⟩)) hListed, rfl⟩

/-- The loop of `_freshQueue` goes on with the next block, or ends. -/
theorem Solo.buildFrom {id i : Nat} {a : Activity} {restart : Bool} (h : Solo s id a)
    (hNot : ∀ r, a ≠ .request r) (hTotal : s.totalLength = some total)
    (hCount : s.blockCount = some (blockCountOf total)) (hSplits : Splits total) (hFits : s.Fits total)
    (hQueue : s.queue ≠ none) (hListed : (s.pending.map Task.index).Nodup)
    (hBound : ∀ task ∈ s.pending, task.index < i) :
    Stage (s.buildFrom id restart i) ∧ (s.buildFrom id restart i).calls = s.calls := by
  unfold State.buildFrom
  rw [hCount]
  dsimp only
  split
  · exact ⟨.builds id i restart total (h.put _) hTotal hCount hSplits hFits hQueue hListed hBound, rfl⟩
  · split
    · have hStart : (s.put id none).start = s.put id none := by
        rw [State.start, if_pos]
        exact h.busy
      rw [hStart]
      exact ⟨h.rest hListed, rfl⟩
    · refine h.download hNot hListed fun _ total' hTotal' _ => ?_
      rw [hTotal] at hTotal'
      obtain rfl := Option.some.inj hTotal'
      exact ⟨hCount, hSplits, hFits⟩

theorem Solo.freshQueue {id : Nat} {a : Activity} {restart : Bool} (h : Solo s id a)
    (hNot : ∀ r, a ≠ .request r) (hListed : (s.pending.map Task.index).Nodup)
    (hFits : ∀ total, s.totalLength = some total → Splits total ∧
      ∀ i bytes, s.disk.blocks i = some bytes → i < blockCountOf total →
        (bytes.length : Int) = (range total i).length) :
    Stage (s.freshQueue id restart) ∧ (s.freshQueue id restart).calls = s.calls := by
  unfold State.freshQueue
  split
  · exact ⟨h.rest hListed, rfl⟩
  · next total hTotal =>
    obtain ⟨hSplits, hFits⟩ := hFits total hTotal
    generalize hFresh : ({ s with
      blockCount := some (blockCountOf total), queue := some [] } : State) = fresh
    have hCount : fresh.blockCount = some (blockCountOf total) := hFresh ▸ rfl
    have hPending : fresh.pending = [] := hFresh ▸ rfl
    have hSolo : Solo fresh id a := hFresh ▸ ⟨h.act, h.only, h.lt, h.idle, h.busy⟩
    have hBlocks : fresh.disk.blocks = s.disk.blocks := hFresh ▸ rfl
    have hBuild : Stage (fresh.buildFrom id restart 0) ∧
        (fresh.buildFrom id restart 0).calls = fresh.calls :=
      hSolo.buildFrom hNot (hFresh ▸ hTotal) hCount hSplits
      (fun i hi bytes hBytes => hFits i bytes (hBlocks ▸ hBytes) (count_eq hCount ▸ hi))
      (hFresh ▸ nofun) (by rw [hPending]; exact List.nodup_nil) (by rw [hPending]; nofun)
    exact ⟨hBuild.1, hBuild.2.trans (hFresh ▸ rfl)⟩

theorem stage_stated {id i : Nat} {restart : Bool} (h : Solo s id (.build i restart))
    (hTotal : s.totalLength = some total) (hCount : s.blockCount = some (blockCountOf total))
    (hSplits : Splits total) (hFits : s.Fits total) (hQueue : s.queue ≠ none)
    (hListed : (s.pending.map Task.index).Nodup) (hBound : ∀ task ∈ s.pending, task.index < i) :
    Stage (s.stated id i restart) ∧ (s.stated id i restart).calls = s.calls := by
  unfold State.stated
  split
  · obtain ⟨q, hSome⟩ := Option.ne_none_iff_exists'.mp hQueue
    have hPending : (s.addTask i).pending = s.pending ++ [⟨s.nextId, i⟩] := by
      rw [addTask, pending, pending, hSome]
      rfl
    have hSolo : Solo (s.addTask i) id (.build i restart) :=
      ⟨h.act, h.only, Nat.lt_succ_of_lt h.lt, h.idle, h.busy⟩
    refine hSolo.buildFrom (fun _ hEq => Activity.noConfusion hEq) hTotal hCount hSplits hFits ?_ ?_
      fun task hTask => ?_
    · rw [addTask, hSome]
      exact Option.some_ne_none _
    · rw [hPending, List.map_append, List.nodup_append]
      refine ⟨hListed, List.nodup_singleton _, fun j hj k hk hEq => ?_⟩
      obtain ⟨task, hTask, rfl⟩ := List.mem_map.mp hj
      obtain rfl := List.mem_singleton.mp hk
      exact Nat.ne_of_lt (hBound task hTask) hEq
    · rw [hPending] at hTask
      rcases List.mem_append.mp hTask with hOld | hNew
      · exact Nat.lt_succ_of_lt (hBound task hOld)
      · rw [List.mem_singleton.mp hNew]
        exact Nat.lt_succ_self i
  · exact h.buildFrom (fun _ hEq => Activity.noConfusion hEq) hTotal hCount hSplits hFits hQueue hListed
      fun task hTask => Nat.lt_succ_of_lt (hBound task hTask)

theorem stage_cleared {id : Nat} (h : Solo s id .clear) (hListed : (s.pending.map Task.index).Nodup)
    (hSplits : s.parting = true → ∀ total, s.totalLength = some total → Splits total) :
    Stage (s.cleared id) ∧ (s.cleared id).calls = s.calls := by
  have hEmpty : Solo s.emptyDirectory id .clear := ⟨h.act, h.only, h.lt, h.idle, h.busy⟩
  unfold State.cleared
  split
  · next hParting =>
    exact hEmpty.freshQueue (fun _ => nofun) hListed fun total hTotal =>
      ⟨hSplits hParting total hTotal, fun _ _ => nofun⟩
  · next hParting => exact hEmpty.download (fun _ => nofun) hListed fun h => absurd h hParting

theorem stage_answered {id : Nat} (h : Solo s id .head) (hListed : (s.pending.map Task.index).Nodup)
    {eTag acceptRanges : Option String} {contentLength : Option Nat}
    (hExact : acceptRanges = some "bytes" →
      if s.eTag = none ∨ s.eTag ≠ eTag then ∀ total, contentLength = some total → Splits total
      else s.Trusted) :
    Stage (s.answered id eTag acceptRanges contentLength) ∧
      (s.answered id eTag acceptRanges contentLength).calls = s.calls := by
  unfold State.answered
  dsimp only
  split
  · next hRebuild =>
    have hSolo : Solo { s with
        parting := decide (acceptRanges = some "bytes"), eTag := eTag, totalLength := contentLength }
        id .head := ⟨h.act, h.only, h.lt, h.idle, h.busy⟩
    split
    · exact ⟨hSolo.rest hListed, rfl⟩
    · refine ⟨.starts id _ (hSolo.put _) (.inr (.inr ⟨rfl, fun hParting => ?_⟩)) hListed, rfl⟩
      have hSplits := hExact (of_decide_eq_true hParting)
      rw [if_pos hRebuild] at hSplits
      exact hSplits
  · next hSame =>
    have hSolo : Solo { s with parting := decide (acceptRanges = some "bytes") } id .head :=
      ⟨h.act, h.only, h.lt, h.idle, h.busy⟩
    refine hSolo.download (fun _ => nofun) hListed fun hParting => ?_
    have hTrusted := hExact (of_decide_eq_true hParting)
    rw [if_neg hSame] at hTrusted
    exact hTrusted

/-! ## Putting together -/

/-- The loop of `_testComplete` goes on with the next block, or completes. -/
theorem stage_testFrom {id i : Nat} (hOnly : ∀ j, j ≠ id → s.activities j = none) (hId : id < s.nextId)
    (hIdle : s.downloading = []) (hBusy : s.isDownloading = true) (hTotal : s.totalLength = some total)
    (hCount : s.blockCount = some (blockCountOf total)) (hSplits : Splits total) (hFits : s.Fits total)
    (hQueue : s.pending = []) (hLe : i ≤ s.count) (hOutput : s.disk.output = some (s.joined i))
    (hPresent : ∀ j < i, s.disk.blocks j ≠ none) :
    Stage (s.testFrom id i (s.joined i).length) ∧ Reports s (s.testFrom id i (s.joined i).length) := by
  have hCount' := count_eq hCount
  unfold State.testFrom
  rw [hCount]
  dsimp only
  split
  · next hLt =>
    refine ⟨.tests id i total ⟨?_, fun j hj => ?_, hId, hIdle, hBusy⟩ hTotal hCount hSplits hFits hQueue
      (hCount'.symm ▸ hLt) hOutput hPresent, .none rfl⟩
    · rw [put_activities, if_pos rfl]
      rfl
    · rw [put_activities, if_neg hj]
      exact hOnly j hj
  · next hEnd =>
    obtain rfl : i = s.count := by omega
    have hAll : ∀ j < s.count, ∃ bytes, s.disk.blocks j = some bytes ∧
        (bytes.length : Int) = (range total j).length := by
      intro j hj
      obtain ⟨bytes, hBytes⟩ := Option.ne_none_iff_exists'.mp (hPresent j hj)
      exact ⟨bytes, hBytes, hFits j hj bytes hBytes⟩
    refine ⟨.rest (fun j => ?_) (fun _ => hIdle) ?_, .complete total ⟨hTotal, hAll, hOutput, ?_, ?_⟩⟩
    · exact (put_activities s id none j).trans (by split <;> [rfl; exact hOnly j ‹_›])
    · have hNil : (s.pending.map Task.index).Nodup := by
        rw [hQueue]
        exact List.nodup_nil
      exact hNil
    · have hPartition := hSplits.partition
      rw [← hCount'] at hPartition
      exact hPartition
    · have hLength := joined_length hSplits hCount' hAll s.count (Nat.le_refl _)
      have hWhole := total_le hSplits
      rw [hCount', Nat.min_eq_right hWhole, ← hCount'] at hLength
      exact hLength

theorem stage_tested {id i : Nat} (h : Solo s id (.test i (s.joined i).length))
    (hTotal : s.totalLength = some total) (hCount : s.blockCount = some (blockCountOf total))
    (hSplits : Splits total) (hFits : s.Fits total) (hQueue : s.pending = []) (hLt : i < s.count)
    (hOutput : s.disk.output = some (s.joined i)) (hPresent : ∀ j < i, s.disk.blocks j ≠ none) :
    Stage (s.tested id i (s.joined i).length) ∧ Reports s (s.tested id i (s.joined i).length) := by
  have hCount' := count_eq hCount
  unfold State.tested
  split
  · have hListed : (s.pending.map Task.index).Nodup := by
      rw [hQueue]
      exact List.nodup_nil
    refine (h.freshQueue (fun _ => nofun) hListed fun total' hTotal' => ?_).imp_right .none
    rw [hTotal] at hTotal'
    obtain rfl := Option.some.inj hTotal'
    exact ⟨hSplits, fun j bytes hBytes hj => hFits j (hCount'.symm ▸ hj) bytes hBytes⟩
  · next bytes hBytes =>
    have hJoined : (s.addStream (s.joined i).length bytes).joined (i + 1) = s.joined i ++ bytes := by
      rw [joined_succ, addStream, hBytes]
      rfl
    have hLength : (s.joined i).length + bytes.length =
        ((s.addStream (s.joined i).length bytes).joined (i + 1)).length := by
      rw [hJoined, List.length_append]
    have hOutput' : (s.addStream (s.joined i).length bytes).disk.output =
        some ((s.addStream (s.joined i).length bytes).joined (i + 1)) := by
      rw [hJoined, addStream]
      dsimp only
      rw [hOutput, Option.map_some, writeAt_length]
    have hPresent' : ∀ j < i + 1, s.disk.blocks j ≠ none := by
      intro j hj
      rcases Nat.lt_succ_iff_lt_or_eq.mp hj with hOld | rfl
      · exact hPresent j hOld
      · exact fun hNone => Option.some_ne_none bytes (hBytes.symm.trans hNone)
    rw [hLength]
    obtain ⟨hStage, hReports⟩ := stage_testFrom (s := s.addStream (s.joined i).length bytes) h.only h.lt
      h.idle h.busy hTotal hCount hSplits hFits hQueue hLt hOutput' hPresent'
    exact ⟨hStage, hReports.of_calls rfl⟩

/-! ## Requests -/

theorem setPhase_activities {id j : Nat} {r : Request} {phase : Phase} {a : Activity}
    (h : (s.setPhase id r phase).activities j = some a) :
    j = id ∧ a = .request { r with phase := phase } ∨ j ≠ id ∧ s.activities j = some a := by
  rw [setPhase, put_activities] at h
  split at h
  · next hj => exact .inl ⟨hj, (Option.some.inj h).symm⟩
  · next hj => exact .inr ⟨hj, h⟩

theorem Requests.setPhase {d : List Task} (h : Requests s q d) {id : Nat} {r : Request} {phase : Phase}
    (hAct : s.activities id = some (.request r)) : Requests (s.setPhase id r phase) q d := by
  refine h.of_back (fun j hj => ?_) fun j r' hr' => ?_
  · have hLt := lt_nextId h hAct
    have hj : s.nextId ≤ j := hj
    rw [State.setPhase, put_activities, if_neg (by omega)]
    exact h.fresh j hj
  · rcases setPhase_activities hr' with ⟨rfl, hEq⟩ | ⟨-, hOld⟩
    · obtain rfl := Activity.request.inj hEq
      exact ⟨r, hAct, rfl⟩
    · exact ⟨r', hOld, rfl⟩

/-- A request goes on. Its file stays, or is opened for writing. -/
theorem Loads.setPhase (h : Loads s q total) {id : Nat} {r : Request} {phase : Phase}
    (hAct : s.activities id = some (.request r)) (hSized : Phase.Sized r.range.length phase)
    (hFile : (∀ body, r.phase ≠ .writing body) ∨ ∃ body, phase = .writing body) :
    Loads (s.setPhase id r phase) q total := by
  refine ⟨h.requests.setPhase hAct, fun j a ha => ?_, h.busy, h.totalLength, h.blockCount, h.splits,
    fun j r' hr' => ?_, fun j r' hr' => ?_, fun i hi bytes hBytes => ?_⟩
  · rcases setPhase_activities ha with ⟨-, hEq⟩ | ⟨-, hOld⟩
    · exact ⟨_, hEq⟩
    · exact h.others j a hOld
  · rcases setPhase_activities hr' with ⟨-, hEq⟩ | ⟨-, hOld⟩
    · obtain rfl := Activity.request.inj hEq
      exact h.asked id r hAct
    · exact h.asked j r' hOld
  · rcases setPhase_activities hr' with ⟨-, hEq⟩ | ⟨-, hOld⟩
    · obtain rfl := Activity.request.inj hEq
      exact hSized
    · exact h.sized j r' hOld
  · refine (h.files i hi bytes hBytes).imp_right ?_
    rintro ⟨j, r', body, hr', hIndex, hPhase⟩
    by_cases hj : j = id
    · rw [hj, hAct] at hr'
      obtain rfl := Activity.request.inj (Option.some.inj hr')
      rcases hFile with hNot | ⟨body', hWriting⟩
      · exact absurd hPhase (hNot body)
      · refine ⟨id, { r with phase := phase }, body', ?_, hIndex, hWriting⟩
        rw [State.setPhase, put_activities, if_pos rfl]
    · refine ⟨j, r', body, ?_, hIndex, hPhase⟩
      rw [State.setPhase, put_activities, if_neg hj]
      exact hr'

theorem Loads.opens (h : Loads s q total) {id : Nat} {r : Request} {body : List UInt8}
    (hAct : s.activities id = some (.request r)) (hSized : (body.length : Int) = r.range.length) :
    Loads ((s.writeBlock r.task.index []).setPhase id r (.writing body)) q total := by
  have hPhase : Loads (s.setPhase id r (.writing body)) q total := h.setPhase hAct hSized (.inr ⟨body, rfl⟩)
  refine ⟨⟨hPhase.requests.fresh, hPhase.requests.tracked, hPhase.requests.single,
    hPhase.requests.listed, hPhase.requests.apart⟩, hPhase.others, h.busy, h.totalLength, h.blockCount,
    h.splits, hPhase.asked, hPhase.sized, fun i hi bytes hBytes => ?_⟩
  by_cases hIndex : i = r.task.index
  · refine .inr ⟨id, { r with phase := .writing body }, body, ?_, hIndex.symm, rfl⟩
    rw [State.setPhase, put_activities, if_pos rfl]
  · have hOld : Function.update s.disk.blocks r.task.index (some []) i = some bytes := hBytes
    rw [Function.update_of_ne hIndex] at hOld
    exact hPhase.files i hi bytes hOld

/-- A file has been written. -/
theorem Loads.finish (h : Loads s q total) {id : Nat} {r : Request} {body : List UInt8}
    (hAct : s.activities id = some (.request r)) (hPhase : r.phase = .writing body) :
    Loads (((s.writeBlock r.task.index body).remove r.task).put id none) q total := by
  have hOld : ∀ j a, ((s.writeBlock r.task.index body).put id none).activities j = some a →
      j ≠ id ∧ s.activities j = some a := fun j a ha => put_none_activities ha
  have hSized := h.sized id r hAct
  rw [hPhase] at hSized
  refine ⟨⟨fun j hj => ?_, fun j r' hr' => ?_, fun j k r₁ r₂ h₁ h₂ => ?_, h.requests.listed,
    fun task hq j r' hr' => ?_⟩, fun j a ha => h.others j a (hOld j a ha).2, h.busy, h.totalLength,
    h.blockCount, h.splits, fun j r' hr' => h.asked j r' (hOld j _ hr').2,
    fun j r' hr' => h.sized j r' (hOld j _ hr').2, fun i hi bytes hBytes => ?_⟩
  · refine (put_activities _ id none j).trans ?_
    split
    · rfl
    · exact h.requests.fresh j hj
  · obtain ⟨hj, hr'⟩ := hOld j _ hr'
    have hNe : r'.task ≠ r.task := fun hEq : r'.task = r.task =>
      hj (h.requests.single j id r' r hr' hAct (congrArg Task.index hEq))
    exact (List.mem_erase_of_ne hNe).mpr (h.requests.tracked j r' hr')
  · exact h.requests.single j k r₁ r₂ (hOld j _ h₁).2 (hOld k _ h₂).2
  · exact h.requests.apart task hq j r' (hOld j _ hr').2
  · by_cases hIndex : i = r.task.index
    · have hSame : Function.update s.disk.blocks r.task.index (some body) i = some bytes := hBytes
      rw [hIndex, Function.update_self] at hSame
      obtain rfl := Option.some.inj hSame
      refine .inl ?_
      rw [hIndex, ← h.asked id r hAct]
      exact hSized
    · have hBefore : Function.update s.disk.blocks r.task.index (some body) i = some bytes := hBytes
      rw [Function.update_of_ne hIndex] at hBefore
      refine (h.files i hi bytes hBefore).imp_right ?_
      rintro ⟨j, r', body', hr', hIndex', hPhase'⟩
      refine ⟨j, r', body', (put_activities _ id none j).trans ?_, hIndex', hPhase'⟩
      rw [if_neg]
      · exact hr'
      · rintro rfl
        rw [hAct] at hr'
        obtain rfl := Activity.request.inj (Option.some.inj hr')
        exact hIndex hIndex'.symm

theorem stage_completed (h : Loads s s.pending total) {id : Nat} {r : Request} {body : List UInt8}
    (hAct : s.activities id = some (.request r)) (hPhase : r.phase = .writing body) :
    Stage ((s.writeBlock r.task.index body).completed id r.task) ∧
      Reports s ((s.writeBlock r.task.index body).completed id r.task) := by
  have hEnd := h.finish hAct hPhase
  unfold State.completed
  dsimp only
  split
  · next hQueue =>
    have hPending : s.pending = [] := congrArg (·.getD []) hQueue
    split
    · next hDown =>
      have hDown : s.downloading.erase r.task = [] := hDown
      have hQuiet : ∀ j, j ≠ id → s.activities j = none := by
        intro j hj
        by_contra hSome
        obtain ⟨a, ha⟩ := Option.ne_none_iff_exists'.mp hSome
        obtain ⟨r', rfl⟩ := h.others j a ha
        have hMem := hEnd.requests.tracked j r' ((put_activities _ id none j).trans ((if_neg hj).trans ha))
        have hMem : r'.task ∈ s.downloading.erase r.task := hMem
        rw [hDown] at hMem
        cases hMem
      have hFits : (((s.writeBlock r.task.index body).remove r.task).writeOutput []).Fits total := by
        intro i hi bytes hBytes
        refine (hEnd.files i hi bytes hBytes).resolve_right ?_
        rintro ⟨j, r', body', hr', -⟩
        obtain ⟨hj, hOld⟩ := put_none_activities hr'
        have hNone : s.activities j = none := hQuiet j hj
        rw [show s.activities j = some (.request r') from hOld] at hNone
        cases hNone
      obtain ⟨hStage, hReports⟩ := stage_testFrom
        (s := ((s.writeBlock r.task.index body).remove r.task).writeOutput []) (i := 0) hQuiet
        (lt_nextId h.requests hAct) hDown h.busy h.totalLength h.blockCount h.splits hFits hPending
        (Nat.zero_le _) rfl nofun
      exact ⟨hStage, hReports.of_calls rfl⟩
    · exact ⟨.loads total hEnd, .none rfl⟩
  · refine ⟨.loads total (Loads.checkDownload ?_), .none (checkDownload_calls _)⟩
    exact ⟨⟨hEnd.requests.fresh, hEnd.requests.tracked, hEnd.requests.single, hEnd.requests.listed,
      hEnd.requests.apart⟩, hEnd.others, hEnd.busy, hEnd.totalLength, hEnd.blockCount, hEnd.splits,
      hEnd.asked, hEnd.sized, hEnd.files⟩

/-- A request ends without writing its file. -/
theorem Loads.drop (h : Loads s q total) {id : Nat} {r : Request}
    (hAct : s.activities id = some (.request r)) (hNot : ∀ body, r.phase ≠ .writing body) :
    Loads (s.put id none) q total := by
  have hOld : ∀ j a, (s.put id none).activities j = some a → s.activities j = some a :=
    fun j a ha => (put_none_activities ha).2
  refine ⟨h.requests.of_back (fun j hj => ?_) fun j r' hr' => ⟨r', hOld j _ hr', rfl⟩,
    fun j a ha => h.others j a (hOld j a ha), h.busy, h.totalLength, h.blockCount, h.splits,
    fun j r' hr' => h.asked j r' (hOld j _ hr'), fun j r' hr' => h.sized j r' (hOld j _ hr'),
    fun i hi bytes hBytes => ?_⟩
  · rw [put_activities]
    split
    · rfl
    · exact h.requests.fresh j hj
  · refine (h.files i hi bytes hBytes).imp_right ?_
    rintro ⟨j, r', body, hr', hIndex, hPhase⟩
    refine ⟨j, r', body, ?_, hIndex, hPhase⟩
    rw [put_activities, if_neg]
    · exact hr'
    · rintro rfl
      rw [hAct] at hr'
      obtain rfl := Activity.request.inj (Option.some.inj hr')
      exact hNot body hPhase

theorem stage_failed (h : Loads s s.pending total) {id : Nat} {r : Request} (message : String)
    (hAct : s.activities id = some (.request r)) (hNot : ∀ body, r.phase ≠ .writing body) :
    Stage (s.failed id r.task message) ∧ Reports s (s.failed id r.task message) := by
  have hDrop := h.drop hAct hNot
  have hFrame : ∀ {u : State} {q' : List Task}, u.activities = (s.put id none).activities →
      u.nextId = s.nextId → u.downloading = s.downloading → u.isDownloading = s.isDownloading →
      u.totalLength = s.totalLength → u.blockCount = s.blockCount → u.disk = s.disk →
      Requests (s.put id none) q' s.downloading → Loads u q' total := by
    intro u q' hA hN hD hB hT hC hF hRequests
    have hCount : u.count = s.count := congrArg (·.getD 0) hC
    refine ⟨?_, ?_, hB.trans h.busy, hT.trans h.totalLength, hC.trans h.blockCount, h.splits, ?_, ?_, ?_⟩
    · rw [hD]
      refine hRequests.of_back ?_ ?_
      · rw [hA, hN]
        exact hRequests.fresh
      · rw [hA]
        exact fun j r' hr' => ⟨r', hr', rfl⟩
    · rw [hA]
      exact hDrop.others
    · rw [hA]
      exact hDrop.asked
    · rw [hA]
      exact hDrop.sized
    · rw [hA, hF, hCount]
      exact hDrop.files
  unfold State.failed
  dsimp only
  split
  · exact ⟨.loads total (hFrame rfl rfl rfl rfl rfl rfl rfl hDrop.requests),
      .other (.onFailed message) nofun rfl⟩
  · have hRequests : Requests (s.put id none) ((s.noteFailure id message).requeue r.task).pending
        s.downloading :=
      (h.requests.requeue hAct).sublist (requeue_sublist _ _)
    exact ⟨.loads total (Loads.checkDownload (hFrame rfl rfl rfl rfl rfl rfl rfl hRequests)),
      .none (checkDownload_calls _)⟩

theorem stage_requestStep (h : Loads s s.pending total) {id : Nat} {r : Request} {answer : Answer}
    (hAct : s.activities id = some (.request r))
    (hExact : ∀ body, r.phase = .receiving body → answer = .done →
      body = [] ∨ (body.length : Int) = r.range.length) :
    Stage (s.requestStep id r answer) ∧ Reports s (s.requestStep id r answer) := by
  have hStep := requestStep_cases s id r answer
  have hSized := h.sized id r hAct
  generalize s.requestStep id r answer = t at hStep ⊢
  cases hStep with
  | ignored => exact ⟨.loads total h, .none rfl⟩
  | listens hPhase =>
    have hListen : Loads (s.listen r.task id) s.pending total :=
      ⟨⟨h.requests.fresh, h.requests.tracked, h.requests.single, h.requests.listed, h.requests.apart⟩,
        h.others, h.busy, h.totalLength, h.blockCount, h.splits, h.asked, h.sized, h.files⟩
    refine ⟨.loads total (hListen.setPhase hAct trivial (.inl fun body => ?_)), .none rfl⟩
    rw [hPhase]
    nofun
  | receives body bytes hPhase =>
    refine ⟨.loads total (h.setPhase hAct trivial (.inl fun body => ?_)), .none rfl⟩
    rw [hPhase]
    nofun
  | ends body hPhase hAnswer =>
    refine ⟨.loads total (h.setPhase hAct (hExact body hPhase hAnswer) (.inl fun body => ?_)), .none rfl⟩
    rw [hPhase]
    nofun
  | opens body hPhase hBody =>
    rw [hPhase] at hSized
    exact ⟨.loads total (h.opens hAct (hSized.resolve_left hBody)), .none rfl⟩
  | completes body hPhase => exact stage_completed h hAct hPhase
  | fails message hFails => exact stage_failed h message hAct (Phase.not_writing_of_fails hFails)

/-! ## Every run -/

theorem stage_directStep {id : Nat} {phase : Phase} (answer : Answer) (h : Solo s id (.direct phase))
    (hListed : (s.pending.map Task.index).Nodup) :
    Stage (s.directStep id phase answer) ∧ Reports s (s.directStep id phase answer) := by
  have hStarts : ∀ {u : State} {p : Phase}, Solo u id (.direct p) → u.pending = s.pending → Stage u :=
    fun hSolo hSame => .starts id _ hSolo (.inr (.inl ⟨_, rfl⟩)) (hSame ▸ hListed)
  have hFailed : ∀ message, Stage (s.directFailed id message) ∧ Reports s (s.directFailed id message) :=
    fun message => ⟨.rest h.quiet (fun _ => h.idle) hListed, .other (.onFailed message) nofun rfl⟩
  unfold directStep
  split
  · split
    · exact ⟨hStarts (h.put _) rfl, .none rfl⟩
    · exact hFailed _
  · exact hFailed _
  · exact ⟨hStarts (h.put _) rfl, .none rfl⟩
  · exact ⟨hStarts (h.put _) rfl, .none rfl⟩
  · exact hFailed _
  · next body =>
    have hPut := h.put (.direct (.writing body))
    exact ⟨hStarts (u := (s.writeOutput []).put id _) ⟨hPut.act, hPut.only, h.lt, h.idle, h.busy⟩ rfl,
      .none rfl⟩
  · exact ⟨.rest h.quiet (fun _ => h.idle) hListed, .other (.onComplete false) nofun rfl⟩
  · exact ⟨hStarts h rfl, .none rfl⟩

theorem resume_of_none {id : Nat} (answer : Answer) (h : s.activities id = none) :
    s.resume id answer = s := by
  unfold resume
  rw [h]

theorem Stage.start (h : Stage s) : Stage s.start ∧ Reports s s.start := by
  by_cases hBusy : s.isDownloading = true
  · rw [State.start, if_pos hBusy]
    exact ⟨h, .none rfl⟩
  · rw [State.start, if_neg hBusy]
    cases h with
    | rest hQuiet hIdle hListed =>
      refine ⟨.starts s.nextId .head ⟨?_, fun j hj => ?_, Nat.lt_succ_self _,
        hIdle (Bool.eq_false_of_not_eq_true hBusy), rfl⟩ (.inl rfl) hListed, .none rfl⟩
      · exact Function.update_self ..
      · exact (Function.update_of_ne hj _ _).trans (hQuiet j)
    | starts _ _ hSolo => exact absurd hSolo.busy hBusy
    | builds _ _ _ _ hSolo => exact absurd hSolo.busy hBusy
    | loads _ h => exact absurd h.busy hBusy
    | tests _ _ _ hSolo => exact absurd hSolo.busy hBusy

theorem Stage.resume (h : Stage s) {id : Nat} {answer : Answer} (hExact : s.Exact (.resume id answer)) :
    Stage (s.resume id answer) ∧ Reports s (s.resume id answer) := by
  have hSame : Stage s ∧ Reports s s := ⟨h, .none rfl⟩
  by_cases hSome : s.activities id = none
  · rw [resume_of_none answer hSome]
    exact hSame
  cases h with
  | rest hQuiet => exact absurd (hQuiet id) hSome
  | starts k a hSolo hKind hListed =>
    obtain rfl : id = k := by
      by_contra hNe
      exact hSome (hSolo.only id hNe)
    unfold Exact at hExact
    dsimp only at hExact
    unfold State.resume
    rw [hSolo.act] at hExact ⊢
    rcases hKind with rfl | ⟨phase, rfl⟩ | ⟨rfl, hSplits⟩
    · cases answer with
      | head eTag acceptRanges contentLength =>
        exact (stage_answered hSolo hListed hExact).imp_right .none
      | error message => exact ⟨hSolo.rest hListed, .none rfl⟩
      | _ => exact hSame
    · exact stage_directStep answer hSolo hListed
    · cases answer with
      | filed => exact (stage_cleared hSolo hListed hSplits).imp_right .none
      | _ => exact hSame
  | builds k i restart total hSolo hTotal hCount hSplits hFits hQueue hListed hBound =>
    obtain rfl : id = k := by
      by_contra hNe
      exact hSome (hSolo.only id hNe)
    unfold State.resume
    rw [hSolo.act]
    cases answer with
    | filed =>
      exact (stage_stated hSolo hTotal hCount hSplits hFits hQueue hListed hBound).imp_right .none
    | _ => exact hSame
  | loads total hLoads =>
    obtain ⟨a, hAct⟩ := Option.ne_none_iff_exists'.mp hSome
    obtain ⟨r, rfl⟩ := hLoads.others id a hAct
    have hResume : s.resume id answer = s.requestStep id r answer := by
      unfold State.resume
      rw [hAct]
    rw [hResume]
    refine stage_requestStep hLoads hAct fun body hPhase hAnswer => ?_
    obtain ⟨task, range, phase⟩ := r
    obtain rfl : phase = .receiving body := hPhase
    unfold Exact at hExact
    dsimp only at hExact
    rw [hAct, hAnswer] at hExact
    exact hExact
  | tests k i total hSolo hTotal hCount hSplits hFits hQueue hLt hOutput hPresent =>
    obtain rfl : id = k := by
      by_contra hNe
      exact hSome (hSolo.only id hNe)
    unfold State.resume
    rw [hSolo.act]
    cases answer with
    | filed => exact stage_tested hSolo hTotal hCount hSplits hFits hQueue hLt hOutput hPresent
    | _ => exact hSame

theorem Reports.assembled (h : Reports s t) (hComplete : t.calls = s.calls ++ [.onComplete true]) :
    ∃ total, Assembled t total := by
  cases h with
  | none hSame =>
    rw [hSame] at hComplete
    have hLength := congrArg List.length hComplete
    rw [List.length_append, List.length_singleton] at hLength
    omega
  | other c hNot hSame =>
    rw [hSame] at hComplete
    exact absurd (List.singleton_inj.mp (List.append_cancel_left hComplete)) hNot
  | complete total h => exact ⟨total, h⟩

/-- The blocks that are missing are in the queue once. -/
theorem missing_listed {blocks : Nat → Option (List UInt8)} {n : Nat}
    (hQueue : s.queue = some ((missing blocks n).map fun i => ⟨i, i⟩)) :
    (s.pending.map Task.index).Nodup := by
  have hPending : s.pending = (missing blocks n).map fun i => (⟨i, i⟩ : Task) :=
    congrArg (·.getD []) hQueue
  have hMap : ((missing blocks n).map fun i => (⟨i, i⟩ : Task)).map Task.index = missing blocks n := by
    rw [List.map_map]
    exact List.map_id _
  rw [hPending, hMap]
  exact List.nodup_range.filter _

theorem stage_prepare (maxThreading : Nat) (disk : Disk) : Stage (prepare maxThreading disk) := by
  unfold prepare
  split
  · exact .rest (fun _ => rfl) (fun _ => rfl) List.nodup_nil
  · split
    · exact .rest (fun _ => rfl) (fun _ => rfl) List.nodup_nil
    · exact .rest (fun _ => rfl) (fun _ => rfl) List.nodup_nil
    · exact .rest (fun _ => rfl) (fun _ => rfl) (missing_listed rfl)

/-- Over every run of `start` and answers on what earlier runs have left on disk: whenever the
block-wise path calls `onComplete`, the output has exactly the bytes of the ranges, in order, if the
bodies that are accepted and the files that are trusted have the lengths of their ranges. -/
theorem assembled_each (maxThreading : Nat) (disk : Disk) (ops : List Op) (hStop : Op.stop ∉ ops)
    (hExact : Transition.Each next Exact (prepare maxThreading disk) ops) :
    Transition.Each next (fun s op => Completes s op → ∃ total, Assembled (s.next op) total)
      (prepare maxThreading disk) ops := by
  have hLegal : Transition.Each next (fun _ op => op ≠ Op.stop) (prepare maxThreading disk) ops :=
    Transition.each_of_mem (P := (· ≠ Op.stop)) (fun op hOp hEq => hStop (hEq ▸ hOp)) _
  refine Transition.each_of_each (I := Stage) (fun s op hStage hNot hExact => ?_)
    (stage_prepare maxThreading disk) hLegal hExact
  cases op with
  | start => exact hStage.start.imp_right fun hReports => hReports.assembled
  | stop => exact absurd rfl hNot
  | resume id answer => exact (hStage.resume hExact).imp_right fun hReports => hReports.assembled

/-- A download of one block of three bytes. -/
theorem assembled_three : Transition.Each next
    (fun s op => Completes s op → ∃ total, Assembled (s.next op) total) (prepare 5 noFiles)
    [.start, .resume 0 (.head (some "a") (some "bytes") (some 3)), .resume 0 .filed, .resume 0 .filed,
      .resume 2 (.status 206), .resume 2 (.chunk [1, 2]), .resume 2 (.chunk [3]), .resume 2 .done,
      .resume 2 .filed, .resume 2 .filed, .resume 2 .filed] := by
  refine assembled_each 5 noFiles _ (by decide)
    ⟨trivial, ?_, trivial, trivial, trivial, trivial, trivial, ?_, trivial, trivial, trivial, trivial⟩
  · intro _
    rw [if_pos (.inl rfl)]
    rintro total ⟨⟩
    exact splits_of_lt (by decide)
  · exact .inr (by decide)

/-- The body of the only block ends after one byte, and the download is complete. -/
theorem assembled_short : ¬ Transition.Each next
    (fun s op => Completes s op → ∃ total, Assembled (s.next op) total) (prepare 5 noFiles)
    [.start, .resume 0 (.head (some "a") (some "bytes") (some 3)), .resume 0 .filed, .resume 0 .filed,
      .resume 2 (.status 206), .resume 2 (.chunk [1]), .resume 2 .done, .resume 2 .filed,
      .resume 2 .filed, .resume 2 .filed] := by
  intro h
  obtain ⟨total, hAssembled⟩ := h.2.2.2.2.2.2.2.2.2.1 rfl
  have hTotal : some 3 = some total := hAssembled.totalLength
  have hLength : 1 = total := hAssembled.length
  rw [← hLength] at hTotal
  cases hTotal

end State

end RetroConfig.MultiDownloader
