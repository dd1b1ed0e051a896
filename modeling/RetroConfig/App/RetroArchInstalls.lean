import RetroConfig.App.RetroArchConfig
import RetroConfig.Library.Transition

/-!
# Several installations into one playlist

Every installation looks for the playlist, reads it, hashes its rom and writes the playlist, and waits
before each of these; what it does after that does not touch the playlist. The steps of one
installation with nothing in between are `install` (`install_alone`). What another installation has
written between the reading and the writing is lost: the playlist has every rom that was installed and
what it had before exactly if no installation writes an older playlist (`installs_keep_iff`). Reading a
file and writing one are single steps.
-/

namespace RetroConfig.RetroArchConfig

variable {δ τ ι : Type}

/-- How far an installation has got. -/
inductive Phase (δ : Type) where
  | start
  /-- `configFile.exists()` was true. -/
  | found
  | loaded (configs : List (Entry δ))
  | written
  | failed

/-- The playlist and the installations into it. -/
structure State (ι δ τ : Type) where
  file : Option τ
  phase : ι → Phase δ

/-- What the installation `i` awaits next comes. -/
inductive Op (ι : Type) where
  | exist (i : ι)
  | read (i : ι)
  /-- The rom has been hashed, and the playlist is written. -/
  | write (i : ι)
  | fail (i : ι)

section

variable [DecidableEq ι]

def State.to (s : State ι δ τ) (i : ι) (phase : Phase δ) : State ι δ τ :=
  { s with phase := Function.update s.phase i phase }

/-- One step of an installation; nothing comes that it does not await. -/
def next (json : JsonCodec δ τ) (calls : ι → Call) (s : State ι δ τ) : Op ι → State ι δ τ
  | .exist i =>
    match s.phase i with
    | .start => s.to i (if s.file.isSome then .found else .loaded [])
    | _ => s
  | .read i =>
    match s.phase i with
    | .found =>
      match load json s.file with
      | some configs => s.to i (.loaded configs)
      | none => s.to i .failed
    | _ => s
  | .write i =>
    match s.phase i with
    | .loaded configs =>
      { s.to i .written with
        file := some (json.encode (playlist (update (calls i) configs))) }
    | _ => s
  | .fail i =>
    match s.phase i with
    | .written => s
    | _ => s.to i .failed

/-- Before the installations. -/
def started (file : Option τ) : State ι δ τ := ⟨file, fun _ => .start⟩

/-- The playlist has an entry for every rom that has been installed, and all entries that it had
before for other roms. -/
def Kept (json : JsonCodec δ τ) (calls : ι → Call) (olds : List (Entry δ)) (s : State ι δ τ) : Prop :=
  ∃ configs, load json s.file = some configs ∧
    (∀ i, s.phase i = .written → (calls i).entry ∈ configs) ∧
    ∀ old ∈ olds, old ∈ configs ∨ ∃ i, s.phase i = .written ∧ hasPath (calls i).path old = true

/-- An installation writes only if the playlist that it has read has every rom that has been installed
by then. -/
def Fresh (calls : ι → Call) (s : State ι δ τ) : Op ι → Prop
  | .write i => ∀ configs, s.phase i = .loaded configs → ∀ j, s.phase j = .written →
      (calls j).entry ∈ configs
  | _ => True

/-- What has been read was there. -/
def Read (calls : ι → Call) (olds : List (Entry δ)) (s : State ι δ τ) : Prop :=
  ∀ i configs, s.phase i = .loaded configs →
    (∀ config ∈ configs, (ValueTree.object config).Distinct) ∧
    ∀ old ∈ olds, old ∈ configs ∨ ∃ j, s.phase j = .written ∧ hasPath (calls j).path old = true

theorem written_to {s : State ι δ τ} {i : ι} {phase : Phase δ} (hOld : s.phase i ≠ .written)
    (hNew : phase ≠ .written) (j : ι) : (s.to i phase).phase j = .written ↔ s.phase j = .written := by
  by_cases hj : j = i
  · subst hj
    simp [State.to, hOld, hNew]
  · simp [State.to, hj]

theorem written_to_written {s : State ι δ τ} {i j : ι} :
    (s.to i .written).phase j = .written ↔ j = i ∨ s.phase j = .written := by
  by_cases hj : j = i
  · simp [State.to, hj]
  · simp [State.to, hj]

theorem loaded_to {s : State ι δ τ} {i j : ι} {phase : Phase δ} {configs : List (Entry δ)}
    (h : (s.to i phase).phase j = .loaded configs) :
    phase = .loaded configs ∨ s.phase j = .loaded configs := by
  by_cases hj : j = i
  · subst hj
    exact Or.inl (by simpa [State.to] using h)
  · exact Or.inr (by simpa [State.to, hj] using h)

/-- What a step can do. -/
theorem next_cases (json : JsonCodec δ τ) (calls : ι → Call) (s : State ι δ τ) (op : Op ι) :
    (next json calls s op = s ∧ Fresh calls s op) ∨
    (∃ i phase, s.phase i ≠ .written ∧ phase ≠ .written ∧
      (∀ configs, phase = .loaded configs → load json s.file = some configs) ∧
      next json calls s op = s.to i phase ∧ Fresh calls s op) ∨
    ∃ i configs, op = .write i ∧ s.phase i = .loaded configs ∧
      next json calls s op = { s.to i .written with
        file := some (json.encode (playlist (update (calls i) configs))) } := by
  cases op with
  | exist i =>
    rw [next]
    split
    · next hStart =>
      refine Or.inr (Or.inl ⟨i, _, by simp [hStart], ?_, ?_, rfl, trivial⟩)
      · split <;> simp
      · intro configs h
        cases hFile : s.file with
        | none =>
          simp only [hFile, Option.isSome_none, Bool.false_eq_true, if_false, Phase.loaded.injEq] at h
          rw [← h]
          rfl
        | some text => simp [hFile] at h
    · exact Or.inl ⟨rfl, trivial⟩
  | read i =>
    rw [next]
    split
    · next hFound =>
      split
      · next configs hLoad =>
        refine Or.inr (Or.inl ⟨i, _, by simp [hFound], by simp, ?_, rfl, trivial⟩)
        rintro _ ⟨⟩
        exact hLoad
      · exact Or.inr (Or.inl ⟨i, _, by simp [hFound], by simp, by simp, rfl, trivial⟩)
    · exact Or.inl ⟨rfl, trivial⟩
  | write i =>
    rw [next]
    split
    · next configs hLoaded => exact Or.inr (Or.inr ⟨i, configs, rfl, hLoaded, rfl⟩)
    · next hOther => exact Or.inl ⟨rfl, fun configs hLoaded => absurd hLoaded (hOther configs)⟩
  | fail i =>
    rw [next]
    split
    · exact Or.inl ⟨rfl, trivial⟩
    · next hOther => exact Or.inr (Or.inl ⟨i, _, hOther, by simp, by simp, rfl, trivial⟩)

theorem kept_to {json : JsonCodec δ τ} {calls : ι → Call} {olds : List (Entry δ)} {s : State ι δ τ}
    {i : ι} {phase : Phase δ} (hOld : s.phase i ≠ .written) (hNew : phase ≠ .written)
    (h : Kept json calls olds s) : Kept json calls olds (s.to i phase) := by
  obtain ⟨configs, hLoad, hInstalled, hOlds⟩ := h
  refine ⟨configs, hLoad, ?_, ?_⟩
  · intro j hj
    exact hInstalled j ((written_to hOld hNew j).mp hj)
  · intro old hMem
    rcases hOlds old hMem with hIn | ⟨j, hj, hPath⟩
    · exact Or.inl hIn
    · exact Or.inr ⟨j, (written_to hOld hNew j).mpr hj, hPath⟩

theorem read_to {json : JsonCodec δ τ} {calls : ι → Call} {olds : List (Entry δ)} {s : State ι δ τ}
    {i : ι} {phase : Phase δ} (hOld : s.phase i ≠ .written) (hNew : phase ≠ .written)
    (hLoad : ∀ configs, phase = .loaded configs → load json s.file = some configs)
    (hKept : Kept json calls olds s) (h : Read calls olds s) : Read calls olds (s.to i phase) := by
  obtain ⟨kept, hFile, -, hOlds⟩ := hKept
  intro j configs hj
  have hThere : (∀ config ∈ configs, (ValueTree.object config).Distinct) ∧
      ∀ old ∈ olds, old ∈ configs ∨ ∃ j, s.phase j = .written ∧ hasPath (calls j).path old = true := by
    rcases loaded_to hj with hPhase | hPhase
    · have hConfigs := hLoad configs hPhase
      obtain rfl := Option.some.inj (hFile.symm.trans hConfigs)
      exact ⟨load_distinct json hConfigs, hOlds⟩
    · exact h j configs hPhase
  refine ⟨hThere.1, ?_⟩
  intro old hMem
  rcases hThere.2 old hMem with hIn | ⟨k, hk, hPath⟩
  · exact Or.inl hIn
  · exact Or.inr ⟨k, (written_to hOld hNew k).mpr hk, hPath⟩

theorem read_write {calls : ι → Call} {olds : List (Entry δ)} {s : State ι δ τ} {i : ι}
    {file : Option τ} (h : Read calls olds s) : Read calls olds { s.to i .written with file := file } := by
  intro j configs hj
  rcases loaded_to hj with hPhase | hPhase
  · cases hPhase
  · refine ⟨(h j configs hPhase).1, ?_⟩
    intro old hMem
    rcases (h j configs hPhase).2 old hMem with hIn | ⟨k, hk, hPath⟩
    · exact Or.inl hIn
    · exact Or.inr ⟨k, written_to_written.mpr (Or.inr hk), hPath⟩

/-- A playlist that is written has what it should exactly if what was read has the entries of all
installed roms. -/
theorem kept_write_iff {json : JsonCodec δ τ} {calls : ι → Call} {olds : List (Entry δ)}
    {s : State ι δ τ} {i : ι} {configs : List (Entry δ)}
    (hCalls : ∀ i j, i ≠ j → (calls i).path ≠ (calls j).path) (hRead : Read calls olds s)
    (hPhase : s.phase i = .loaded configs) :
    Kept json calls olds { s.to i .written with
        file := some (json.encode (playlist (update (calls i) configs))) } ↔
      ∀ j, s.phase j = .written → (calls j).entry ∈ configs := by
  obtain ⟨hDistinct, hThere⟩ := hRead i configs hPhase
  have hLoad := load_playlist json (update_distinct (calls i) hDistinct)
  constructor
  · rintro ⟨kept, hKept, hInstalled, -⟩ j hj
    obtain rfl := Option.some.inj (hLoad.symm.trans hKept)
    have hNe : j ≠ i := by
      rintro rfl
      rw [hPhase] at hj
      cases hj
    exact (mem_update_iff (hCalls j i hNe)).mp (hInstalled j (written_to_written.mpr (Or.inr hj)))
  · intro hFresh
    refine ⟨_, hLoad, ?_, ?_⟩
    · intro j hj
      by_cases hNe : j = i
      · rw [hNe]
        exact List.mem_cons_self
      · have hOther := (written_to_written.mp hj).resolve_left hNe
        exact (mem_update_iff (hCalls j i hNe)).mpr (hFresh j hOther)
    · intro old hMem
      rcases hThere old hMem with hIn | ⟨j, hj, hPath⟩
      · rcases mem_update_of_mem (calls i) hIn with hNew | hPath
        · exact Or.inl hNew
        · exact Or.inr ⟨i, written_to_written.mpr (Or.inl rfl), hPath⟩
      · exact Or.inr ⟨j, written_to_written.mpr (Or.inr hj), hPath⟩

theorem kept_next_iff {json : JsonCodec δ τ} {calls : ι → Call} {olds : List (Entry δ)}
    {s : State ι δ τ} (op : Op ι) (hCalls : ∀ i j, i ≠ j → (calls i).path ≠ (calls j).path)
    (hKept : Kept json calls olds s) (hRead : Read calls olds s) :
    Kept json calls olds (next json calls s op) ↔ Fresh calls s op := by
  obtain ⟨hNext, hFresh⟩ | ⟨i, phase, hOld, hNew, -, hNext, hFresh⟩ |
    ⟨i, configs, rfl, hPhase, hNext⟩ := next_cases json calls s op
  · rw [hNext]
    exact iff_of_true hKept hFresh
  · rw [hNext]
    exact iff_of_true (kept_to hOld hNew hKept) hFresh
  · rw [hNext, kept_write_iff hCalls hRead hPhase]
    simp [Fresh, hPhase]

theorem read_next {json : JsonCodec δ τ} {calls : ι → Call} {olds : List (Entry δ)} {s : State ι δ τ}
    (op : Op ι) (hKept : Kept json calls olds s) (hRead : Read calls olds s) :
    Read calls olds (next json calls s op) := by
  obtain ⟨hNext, -⟩ | ⟨i, phase, hOld, hNew, hLoad, hNext, -⟩ | ⟨i, configs, -, -, hNext⟩ :=
    next_cases json calls s op
  · rw [hNext]
    exact hRead
  · rw [hNext]
    exact read_to hOld hNew hLoad hKept hRead
  · rw [hNext]
    exact read_write hRead

/-- The playlist has, all the time, every rom that has been installed and its old entries, exactly if
every installation that writes has read the roms that were installed by then. -/
theorem installs_keep_iff (json : JsonCodec δ τ) (calls : ι → Call)
    (hCalls : ∀ i j, i ≠ j → (calls i).path ≠ (calls j).path) {file : Option τ} {olds : List (Entry δ)}
    (hFile : load json file = some olds) (ops : List (Op ι)) :
    Transition.Always (next json calls) (Kept json calls olds) (started file) ops ↔
      Transition.Each (next json calls) (Fresh calls) (started file) ops := by
  have hKept : Kept json calls olds (started (ι := ι) file) :=
    ⟨olds, hFile, by simp [started], fun old hOld => Or.inl hOld⟩
  have hRead : Read (τ := τ) calls olds (started file) := by
    intro i configs hi
    cases hi
  have hLegal : Transition.Each (next json calls) (fun _ _ => True) (started file) ops :=
    Transition.each_of_forall (fun _ _ => trivial) _ ops
  exact Transition.always_iff (I := Read calls olds)
    (fun s op hP hI _ => kept_next_iff op hCalls hP hI) (fun s op hP hI _ _ => read_next op hP hI)
    hKept hRead hLegal

/-- The steps of one installation, with nothing in between, are `install`. -/
theorem install_alone (json : JsonCodec δ τ) (calls : ι → Call) {o : Outcomes} (s : State ι δ τ)
    (i : ι) (hDirectory : o.directory = true) (hRom : o.rom = true) (hStart : s.phase i = .start) :
    ([.exist i, .read i, .write i].foldl (next json calls) s).file =
      (install json o (calls i) s.file).1 := by
  cases hFile : s.file with
  | none =>
    have hLoad : load json none = some [] := rfl
    rw [install_writes json (calls i) hDirectory hRom hLoad]
    simp [next, hStart, hFile, State.to]
  | some text =>
    cases hLoad : load json (some text) with
    | none => simp [next, install, hStart, hFile, hLoad, hDirectory, State.to]
    | some configs =>
      rw [install_writes json (calls i) hDirectory hRom hLoad]
      simp [next, hStart, hFile, hLoad, State.to]

end

/-- Two installations. -/
def pair : Bool → Call
  | true => mario
  | false => zelda

theorem pair_path : ∀ i j, i ≠ j → (pair i).path ≠ (pair j).path := by decide

/-- One after the other. -/
theorem installs_keep_in_turn :
    Transition.Always (next valueCodec pair) (Kept valueCodec pair ([] : List (Entry Unit)))
      (started none) [.exist true, .write true, .exist false, .read false, .write false] := by
  refine (installs_keep_iff valueCodec pair pair_path rfl _).mpr ⟨trivial, ?_, trivial, trivial, ?_,
    trivial⟩
  · intro configs hConfigs j hj
    cases j <;> cases hj
  · have hLoad : load valueCodec (some (valueCodec.encode (playlist (update mario [])))) =
        some (update mario ([] : List (Entry Unit))) :=
      load_playlist valueCodec (update_distinct mario (by simp))
    intro configs hConfigs j hj
    simp only [next, started, State.to, pair, Option.isSome_none, Bool.false_eq_true, if_false,
      Function.update_self, Option.isSome_some, if_true, hLoad, Phase.loaded.injEq, ne_eq,
      not_false_eq_true, Function.update_of_ne] at hConfigs
    rw [← hConfigs]
    cases j with
    | false =>
      simp [next, started, State.to, pair, hLoad] at hj
    | true => exact List.mem_cons_self

/-- Both look for the playlist before the other one writes it. -/
theorem installs_lose :
    let s := [.exist true, .exist false, .write true, .write false].foldl (next valueCodec pair)
      (started (none : Option (Value Unit)))
    (∀ i, s.phase i = .written) ∧ ¬ Kept valueCodec pair [] s := by
  refine ⟨?_, ?_⟩
  · intro i
    cases i <;> rfl
  · rintro ⟨configs, hConfigs, hInstalled, -⟩
    have hLoad : load valueCodec (some (playlist [zelda.entry])) = some [(zelda.entry : Entry Unit)] :=
      load_playlist valueCodec (by simpa using distinct_entry zelda)
    obtain rfl := Option.some.inj (hLoad.symm.trans hConfigs)
    have hMem := hInstalled true rfl
    have hPath := congrArg (hasPath mario.path) (List.mem_singleton.mp hMem)
    rw [hasPath_entry, hasPath_entry] at hPath
    revert hPath
    decide

end RetroConfig.RetroArchConfig
