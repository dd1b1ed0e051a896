import RetroConfig.Dart.Identity

/-!
# What crosses the bridge again

While the library is set up, the Dart object that a native object is converted to and the native
object that a Dart object is converted to are inverse to each other (`crossings_inverse`), and a
native object is converted to the same Dart object until that is destroyed (`crossing_stays`). An
initializer that runs inside of `createObject` must not hand its own object over to Dart: the
instance is added to the object only after it, and would then be the second one.
-/

namespace RetroConfig.Identity

/-! ## Both sides -/

/-- The lists are linked, `_objectDB` has the instances of the Dart script and leads to the Dart
objects that have them as `_id`, and nothing has crossed of an object whose initializer runs. -/
structure Bridged (s : State) : Prop where
  linked : Linked s
  pending : ∀ d o, (d, o) ∈ s.pending → s.scripts o ≠ none ∧ s.ids d = some none ∧
    ∀ p, s.instances p ≠ some ⟨.dart, some o⟩
  once : (s.pending.map Prod.fst).Nodup ∧ (s.pending.map Prod.snd).Nodup
  database : s.alive = true → ∀ p d, s.objectDB p = some d ↔ s.ids d = some (some p)
  known : s.alive = true → ∀ p, p ∈ s.registry ↔ s.objectDB p ≠ none
  ended : s.alive = false → s.registry = [] ∧ s.pending = []

/-- What a step leaves as it is: the instance that joins a native object and a Dart object, until the
Dart object is destroyed. -/
def Keeps (s t : State) (op : Op) : Prop :=
  ∀ p o d, s.alive = true → s.instances p = some ⟨.dart, some o⟩ → s.ids d = some (some p) →
    op ≠ .destroy d → op ≠ .destroyLibrary →
    t.alive = true ∧ t.instances p = some ⟨.dart, some o⟩ ∧ t.ids d = some (some p)

theorem start_bridged : Bridged start := by
  constructor
  case linked =>
    constructor
    case registered =>
      exact ⟨List.nodup_nil, fun p => iff_of_false (by simp [start]) (by simp [start])⟩
    all_goals simp [start]
  all_goals simp [start]

section Steps

variable {s : State} {o p d : Nat} {l : List Nat}

/-- A step of native code, or of another script. -/
theorem Bridged.native (h : Bridged s) {scripts : Nat → Option (List Nat)} {count : Nat → Nat}
    {instances : Nat → Option ScriptInstance}
    (hLinked : Linked { s with scripts, count, instances })
    (hLive : ∀ o, s.scripts o ≠ none → s.initializing o → scripts o ≠ none)
    (hDart : ∀ p o, instances p = some ⟨.dart, some o⟩ → s.instances p = some ⟨.dart, some o⟩) :
    Bridged { s with scripts, count, instances } := by
  refine ⟨hLinked, fun d o hMem => ?_, h.once, h.database, h.known, h.ended⟩
  obtain ⟨hScripts, hId, hNot⟩ := h.pending d o hMem
  have hIn : s.initializing o := List.mem_map.mpr ⟨(d, o), hMem, rfl⟩
  exact ⟨hLive o hScripts hIn, hId, fun p hp => hNot p (hDart p o hp)⟩

/-- An entry for a new instance and a Dart object that has none. -/
theorem database_insert (hDatabase : ∀ p d, s.objectDB p = some d ↔ s.ids d = some (some p))
    (hp : s.objectDB p = none) (hd : ∀ q, s.ids d ≠ some (some q)) (q e : Nat) :
    Function.update s.objectDB p (some d) q = some e ↔
      Function.update s.ids d (some (some p)) e = some (some q) := by
  simp only [Function.update_apply]
  by_cases hq : q = p
  · subst hq
    rw [if_pos rfl]
    by_cases he : e = d
    · subst he
      simp
    · rw [if_neg he, ← hDatabase q e, hp]
      simp [Ne.symm he]
  · rw [if_neg hq]
    by_cases he : e = d
    · subst he
      rw [if_pos rfl, hDatabase q e]
      simp [hd q, Ne.symm hq]
    · rw [if_neg he, hDatabase q e]

/-- The entry of a Dart object is taken away. -/
theorem database_remove (hDatabase : ∀ p d, s.objectDB p = some d ↔ s.ids d = some (some p))
    (hd : s.ids d = some (some p)) (q e : Nat) :
    Function.update s.objectDB p none q = some e ↔
      Function.update s.ids d (some none) e = some (some q) := by
  simp only [Function.update_apply]
  by_cases hq : q = p
  · subst hq
    rw [if_pos rfl]
    by_cases he : e = d
    · simp [he]
    · rw [if_neg he, ← hDatabase q e, (hDatabase q d).mpr hd]
      simp [Ne.symm he]
  · rw [if_neg hq]
    by_cases he : e = d
    · subst he
      rw [if_pos rfl, hDatabase q e, hd]
      simp [Ne.symm hq]
    · rw [if_neg he, hDatabase q e]

/-- Nothing is at the address of a new instance yet, neither here nor there. -/
theorem Bridged.objectDB_free (h : Bridged s) (hAlive : s.alive = true) (hp : s.instances p = none) :
    s.objectDB p = none := by
  by_contra hSome
  obtain ⟨target, hIns⟩ := (h.linked.registered.2 p).mp ((h.known hAlive p).mpr hSome)
  rw [hp] at hIns
  cases hIns

theorem known_insert (hKnown : ∀ p, p ∈ s.registry ↔ s.objectDB p ≠ none) (q : Nat) :
    q ∈ p :: s.registry ↔ Function.update s.objectDB p (some d) q ≠ none := by
  rw [List.mem_cons, hKnown q, Function.update_apply]
  by_cases hq : q = p
  · simp [hq]
  · simp [hq]

/-- The end of `allocate`. -/
theorem Bridged.endAllocate (h : Bridged s) (hPending : s.pending ≠ []) (hp : s.instances p = none) :
    ∃ t, s.endAllocate p = .ok t ∧ Bridged t ∧ Keeps s t (.endAllocate p) := by
  obtain ⟨⟨d, o⟩, pending, hEq⟩ := List.exists_cons_of_ne_nil hPending
  obtain ⟨hLive, hId, hNot⟩ := h.pending d o (hEq ▸ List.mem_cons_self)
  obtain ⟨l, ho⟩ := Option.ne_none_iff_exists'.mp hLive
  have hAlive : s.alive = true := by
    by_contra hDead
    exact hPending (h.ended (Bool.eq_false_iff.mpr hDead)).2
  have hAdded := linked_added h.linked ho hp hNot
  have hIds : ∀ {e q}, s.ids e = some (some q) → e ≠ d := by
    rintro e q hSome rfl
    rw [hId] at hSome
    cases hSome
  have hFst : d ∉ pending.map Prod.fst := by
    have := h.once.1
    rw [hEq] at this
    exact (List.nodup_cons.mp this).1
  have hSnd : o ∉ pending.map Prod.snd := by
    have := h.once.2
    rw [hEq] at this
    exact (List.nodup_cons.mp this).1
  rw [State.endAllocate, hEq]
  dsimp only
  rw [makeInstance_eq ho]
  refine ⟨_, rfl, ⟨?_, ?_, ?_, ?_, ?_, ?_⟩, ?_⟩
  · refine hAdded.frame rfl rfl rfl (fun o' l' h' => hAdded.length o' l' h') fun o' hScripts hIn => ?_
    by_cases ho' : o' = o
    · subst ho'
      simp [State.added]
    · refine hAdded.held o' hScripts fun hIn' => ?_
      have hCons : o' ∈ s.pending.map Prod.snd := hIn'
      rw [hEq, List.map_cons, List.mem_cons] at hCons
      exact hIn (hCons.resolve_left ho')
  · intro e o' hMem
    obtain ⟨hLive', hId', hNot'⟩ := h.pending e o' (hEq ▸ List.mem_cons_of_mem _ hMem)
    have he : e ≠ d := by
      rintro rfl
      exact hFst (List.mem_map.mpr ⟨_, hMem, rfl⟩)
    have ho' : o' ≠ o := by
      rintro rfl
      exact hSnd (List.mem_map.mpr ⟨_, hMem, rfl⟩)
    refine ⟨?_, ?_, fun q => ?_⟩
    · simp only [State.added, Function.update_of_ne ho']
      exact hLive'
    · simp only [Function.update_of_ne he]
      exact hId'
    · simp only [State.added, Function.update_apply]
      split
      · simp [Ne.symm ho']
      · exact hNot' q
  · have hOnce := h.once
    rw [hEq] at hOnce
    exact ⟨(List.nodup_cons.mp hOnce.1).2, (List.nodup_cons.mp hOnce.2).2⟩
  · intro _
    refine database_insert (h.database hAlive) (h.objectDB_free hAlive hp) fun q hSome => ?_
    exact hIds hSome rfl
  · intro _
    exact known_insert (h.known hAlive)
  · intro hDead
    rw [show s.alive = false from hDead] at hAlive
    cases hAlive
  · intro q o' e _ hIns hSome _ _
    refine ⟨hAlive, ?_, ?_⟩
    · have hq : q ≠ p := by
        rintro rfl
        rw [hp] at hIns
        cases hIns
      simp only [State.added, Function.update_of_ne hq]
      exact hIns
    · simp only [Function.update_of_ne (hIds hSome)]
      exact hSome

theorem pending_ne (hNot : ¬ s.initializing o) {e o' : Nat}
    (hMem : (e, o') ∈ s.pending) : o' ≠ o := by
  rintro rfl
  exact hNot (List.mem_map.mpr ⟨_, hMem, rfl⟩)

/-- An object crosses to Dart. -/
theorem Bridged.toDart (h : Bridged s) (hAlive : s.alive = true) (hLive : s.scripts o ≠ none)
    (hNot : ¬ s.initializing o) (hp : s.instances p = none) (hd : s.ids d = none) (found : Bool) :
    ∃ t v, s.toDart o p d found = .ok (t, v) ∧ Bridged t ∧ Keeps s t (.toDart o p d found) := by
  obtain ⟨l, ho⟩ := Option.ne_none_iff_exists'.mp hLive
  obtain ⟨r, hFind, hIff⟩ := h.linked.findScript_ok .dart ho
  rw [State.toDart, hFind]
  simp only [Transition.ok_bind]
  cases r with
  | some q => exact ⟨s, some q, rfl, h, fun _ _ _ hAlive hIns hId _ _ => ⟨hAlive, hIns, hId⟩⟩
  | none =>
    have hNew : ∀ q, s.instances q ≠ some ⟨.dart, some o⟩ := fun q hq => by
      cases (hIff q).mpr hq
    have hAdded := linked_added h.linked ho hp hNew
    have hOther : ∀ {q ins}, s.instances q = some ins → q ≠ p := by
      rintro q ins hIns rfl
      rw [hp] at hIns
      cases hIns
    have hIds : ∀ {e x}, s.ids e = some x → e ≠ d := by
      rintro e x hSome rfl
      rw [hd] at hSome
      cases hSome
    dsimp only
    rw [hAlive, makeInstance_eq ho]
    simp only [Bool.not_true, Bool.false_eq_true, if_false, Transition.ok_bind]
    cases found with
    | true =>
      refine ⟨_, _, if_pos rfl, ⟨?_, ?_, h.once, ?_, ?_, ?_⟩, ?_⟩
      · exact hAdded.frame rfl rfl rfl hAdded.length hAdded.held
      · intro e o' hMem
        obtain ⟨hLive', hId, hNone⟩ := h.pending e o' hMem
        have ho' := pending_ne hNot hMem
        refine ⟨?_, ?_, fun q => ?_⟩
        · simp only [State.added, Function.update_of_ne ho']
          exact hLive'
        · simp only [Function.update_of_ne (hIds hId)]
          exact hId
        · simp only [State.added, Function.update_apply]
          split
          · simp [Ne.symm ho']
          · exact hNone q
      · intro _
        refine database_insert (h.database hAlive) (h.objectDB_free hAlive hp) fun q hSome => ?_
        exact hIds hSome rfl
      · exact fun _ => known_insert (h.known hAlive)
      · intro hDead
        rw [show s.alive = false from hDead] at hAlive
        cases hAlive
      · intro q o' e _ hIns hId _ _
        refine ⟨hAlive, ?_, ?_⟩
        · simp only [State.added, Function.update_of_ne (hOther hIns)]
          exact hIns
        · simp only [Function.update_of_ne (hIds hId)]
          exact hId
    | false =>
      -- the instance that was made is deleted again
      have hScripts : (s.added .dart o p l).scripts o = some (l ++ [p]) := Function.update_self _ _ _
      have hIns : (s.added .dart o p l).instances p = some ⟨.dart, some o⟩ :=
        Function.update_self _ _ _
      have hRemoved := linked_removed hAdded hIns hScripts fun hIn => absurd hIn hNot
      rw [if_neg Bool.false_ne_true, hAdded.deleteInstance_eq hIns hScripts]
      have hEq : (s.added .dart o p l).removed .dart o p (l ++ [p]) = { s with
          scripts := ((s.added .dart o p l).removed .dart o p (l ++ [p])).scripts
          count := ((s.added .dart o p l).removed .dart o p (l ++ [p])).count
          instances := ((s.added .dart o p l).removed .dart o p (l ++ [p])).instances } := by
        simp [State.added, State.removed]
      refine ⟨_, _, rfl, ?_, ?_⟩
      · rw [hEq] at hRemoved ⊢
        refine h.native hRemoved (fun o' hLive' hIn => ?_) fun q o' hq => ?_
        · have ho' : o' ≠ o := by
            rintro rfl
            exact hNot hIn
          simp only [State.removed, State.added, Function.update_of_ne ho']
          exact hLive'
        · simp only [State.removed, State.added, Function.update_apply] at hq
          split at hq
          · cases hq
          · exact hq
      · intro q o' e _ hq hId _ _
        refine ⟨hAlive, ?_, hId⟩
        simp only [State.removed, State.added, Function.update_of_ne (hOther hq)]
        exact hq

/-- A Dart object is destroyed, and with it the instance. -/
theorem Bridged.destroy (h : Bridged s) (hd : s.ids d ≠ none) :
    ∃ t, s.destroy d = .ok t ∧ Bridged t ∧ Keeps s t (.destroy d) := by
  obtain ⟨x, hId⟩ := Option.ne_none_iff_exists'.mp hd
  rw [State.destroy, hId]
  cases x with
  | none => exact ⟨s, rfl, h, fun _ _ _ hAlive hIns hId _ _ => ⟨hAlive, hIns, hId⟩⟩
  | some p =>
    have hPendingIds : ∀ {e o'}, (e, o') ∈ s.pending → e ≠ d := by
      rintro e o' hMem rfl
      rw [(h.pending e o' hMem).2.1] at hId
      cases hId
    dsimp only
    cases hAlive : s.alive with
    | false =>
      refine ⟨_, rfl, ⟨?_, ?_, h.once, ?_, ?_, h.ended⟩, ?_⟩
      · exact h.linked.frame rfl rfl rfl h.linked.length h.linked.held
      · intro e o' hMem
        rw [(h.ended hAlive).2] at hMem
        cases hMem
      · intro hTrue
        rw [show s.alive = true from hTrue] at hAlive
        cases hAlive
      · intro hTrue
        rw [show s.alive = true from hTrue] at hAlive
        cases hAlive
      · intro q o' e hTrue
        rw [hTrue] at hAlive
        cases hAlive
    | true =>
      have hEntry : s.objectDB p = some d := (h.database hAlive p d).mpr hId
      obtain ⟨target, hIns⟩ := (h.linked.registered.2 p).mp
        ((h.known hAlive p).mpr (by simp [hEntry]))
      obtain ⟨o, l, hTarget, ho, hMem⟩ := h.linked.target p _ hIns
      obtain rfl : target = some o := hTarget
      have hNot : ¬ s.initializing o := by
        intro hIn
        obtain ⟨⟨e, o'⟩, hPending, rfl⟩ := List.mem_map.mp hIn
        exact (h.pending e o' hPending).2.2 p hIns
      have hRemoved := linked_removed h.linked hIns ho fun hIn => absurd hIn hNot
      rw [if_pos rfl, h.linked.deleteInstance_eq hIns ho]
      refine ⟨_, rfl, ⟨?_, ?_, h.once, ?_, ?_, ?_⟩, ?_⟩
      · exact hRemoved.frame rfl rfl rfl hRemoved.length hRemoved.held
      · intro e o' hPending
        obtain ⟨hLive', hId', hNone⟩ := h.pending e o' hPending
        have ho' := pending_ne hNot hPending
        refine ⟨?_, ?_, fun q => ?_⟩
        · simp only [State.removed, Function.update_of_ne ho']
          exact hLive'
        · simp only [Function.update_of_ne (hPendingIds hPending)]
          exact hId'
        · simp only [State.removed, Function.update_apply]
          split
          · simp
          · exact hNone q
      · exact fun _ => database_remove (h.database hAlive) hId
      · intro _ q
        show q ∈ s.registry.erase p ↔ _
        rw [h.linked.registered.1.mem_erase_iff, h.known hAlive q]
        simp only [State.removed, Function.update_apply]
        by_cases hq : q = p
        · simp [hq]
        · simp [hq]
      · intro hDead
        rw [show s.alive = false from hDead] at hAlive
        cases hAlive
      · intro q o' e _ hq hIdq hNe _
        have hed : e ≠ d := by
          rintro rfl
          exact hNe rfl
        have hqp : q ≠ p := by
          rintro rfl
          have hOther := (h.database hAlive q e).mpr hIdq
          rw [hEntry] at hOther
          exact hed (Option.some.inj hOther).symm
        refine ⟨hAlive, ?_, ?_⟩
        · simp only [State.removed, Function.update_of_ne hqp]
          exact hq
        · simp only [Function.update_of_ne hed]
          exact hIdq

/-- The instances of the Dart script are deleted one after the other. -/
theorem clear_spec {s : State} (h : Linked s) (hPending : s.pending = []) (r : List Nat)
    (hRegistry : s.registry = r) :
    ∃ t, r.foldlM (fun s p => s.deleteInstance p) s = .ok t ∧ Linked t ∧ t.registry = [] ∧
      t.pending = [] := by
  induction r generalizing s with
  | nil => exact ⟨s, rfl, h, hRegistry, hPending⟩
  | cons p r ih =>
    obtain ⟨target, hIns⟩ := (h.registered.2 p).mp (hRegistry ▸ List.mem_cons_self)
    obtain ⟨o, l, hTarget, ho, hMem⟩ := h.target p _ hIns
    obtain rfl : target = some o := hTarget
    have hNot : ¬ s.initializing o := by
      rw [State.initializing, hPending]
      exact List.not_mem_nil
    have hRemoved := linked_removed h hIns ho fun hIn => absurd hIn hNot
    have hRest : (s.removed .dart o p l).registry = r := by
      show s.registry.erase p = r
      rw [hRegistry, List.erase_cons_head]
    obtain ⟨t, hFold, hLinked, hEmpty, hNone⟩ := ih hRemoved hPending hRest
    refine ⟨t, ?_, hLinked, hEmpty, hNone⟩
    rw [List.foldlM_cons, h.deleteInstance_eq hIns ho]
    exact hFold

theorem Bridged.destroyLibrary (h : Bridged s) (hPending : s.pending = []) :
    ∃ t, s.destroyLibrary = .ok t ∧ Bridged t := by
  obtain ⟨t, hFold, hLinked, hEmpty, hNone⟩ := clear_spec h.linked hPending s.registry rfl
  rw [State.destroyLibrary, State.clear, hFold]
  refine ⟨_, rfl, ⟨hLinked.frame rfl rfl rfl hLinked.length hLinked.held, ?_, ?_, nofun, nofun, ?_⟩⟩
  · intro e o' hMem
    rw [show t.pending = [] from hNone] at hMem
    cases hMem
  · simp [hNone]
  · exact fun _ => ⟨hEmpty, hNone⟩

end Steps

/-! ## Runs -/

theorem next_bridged (s : State) (op : Op) (h : Bridged s) (hAllowed : Allowed s op) :
    ∃ t, next s op = .ok t ∧ Bridged t ∧ Keeps s t op := by
  cases op with
  | make o =>
    have hFresh : s.scripts o = none := hAllowed
    refine ⟨_, rfl, ?_, fun _ _ _ hAlive hIns hId _ _ => ⟨hAlive, hIns, hId⟩⟩
    refine h.native (linked_fresh h.linked hFresh 1 rfl rfl rfl rfl (fun _ hIn => hIn)
      (.inr Nat.one_pos)) (fun o' hLive _ => ?_) fun _ _ hq => hq
    have hNe : o' ≠ o := by
      rintro rfl
      exact hLive hFresh
    rwa [Function.update_of_ne hNe]
  | hold o =>
    obtain ⟨l, ho⟩ := Option.ne_none_iff_exists'.mp hAllowed
    refine ⟨_, retain_eq ho, ?_, fun _ _ _ hAlive hIns hId _ _ => ⟨hAlive, hIns, hId⟩⟩
    exact h.native (linked_retained h.linked) (fun _ hLive _ => hLive) fun _ _ hq => hq
  | letGo o =>
    obtain ⟨⟨l, ho, hOwn⟩, hCount⟩ := hAllowed
    obtain ⟨scripts, count, hRelease, hLinked, hLive⟩ := release_spec h.linked ho hOwn hCount
    refine ⟨_, hRelease, ?_, fun _ _ _ hAlive hIns hId _ _ => ⟨hAlive, hIns, hId⟩⟩
    exact h.native hLinked hLive fun _ _ hq => hq
  | beginAllocate d o =>
    obtain ⟨hAlive, hd, hFresh⟩ := hAllowed
    have hLinked : Linked (s.beginAllocate d o) :=
      linked_fresh h.linked hFresh 0 rfl rfl rfl rfl
        (fun _ hIn => List.mem_cons_of_mem _ hIn) (.inl List.mem_cons_self)
    have hIds : ∀ {e x}, s.ids e = some x → e ≠ d := by
      rintro e x hSome rfl
      rw [hd] at hSome
      cases hSome
    refine ⟨_, rfl, ⟨hLinked, ?_, ?_, ?_, h.known, ?_⟩, ?_⟩
    · intro e o' hMem
      rcases List.mem_cons.mp hMem with hEq | hMem
      · obtain ⟨rfl, rfl⟩ := Prod.mk.inj hEq
        refine ⟨?_, Function.update_self _ _ _, fun p => h.linked.no_target hFresh p .dart⟩
        simp [State.beginAllocate]
      · obtain ⟨hLive, hId, hNone⟩ := h.pending e o' hMem
        have hNe : o' ≠ o := by
          rintro rfl
          exact hLive hFresh
        refine ⟨?_, (Function.update_of_ne (hIds hId) _ _).trans hId, hNone⟩
        simp only [State.beginAllocate, Function.update_of_ne hNe]
        exact hLive
    · refine ⟨List.nodup_cons.mpr ⟨?_, h.once.1⟩, List.nodup_cons.mpr ⟨?_, h.once.2⟩⟩
      · intro hMem
        obtain ⟨⟨e, o'⟩, hPending, rfl⟩ := List.mem_map.mp hMem
        exact hIds (h.pending e o' hPending).2.1 rfl
      · intro hMem
        obtain ⟨⟨e, o'⟩, hPending, rfl⟩ := List.mem_map.mp hMem
        exact (h.pending e o' hPending).1 hFresh
    · intro _ q e
      show s.objectDB q = some e ↔ _
      rw [h.database hAlive q e]
      simp only [State.beginAllocate, Function.update_apply]
      split
      · next hEq => simp [hEq, hd]
      · rfl
    · intro hDead
      rw [show s.alive = false from hDead] at hAlive
      cases hAlive
    · intro q o' e hTrue hIns hId _ _
      exact ⟨hTrue, hIns, (Function.update_of_ne (hIds hId) _ _).trans hId⟩
  | endAllocate p => exact h.endAllocate hAllowed.1 hAllowed.2
  | toDart o p d found =>
    obtain ⟨hAlive, hLive, hNot, hp, hd⟩ := hAllowed
    obtain ⟨t, v, hEq, hBridged, hKeeps⟩ := h.toDart hAlive hLive hNot hp hd found
    refine ⟨t, ?_, hBridged, hKeeps⟩
    rw [next, hEq]
    rfl
  | destroy d => exact h.destroy hAllowed
  | toScript n o p =>
    obtain ⟨hLive, hFind, hp⟩ := hAllowed
    obtain ⟨l, ho⟩ := Option.ne_none_iff_exists'.mp hLive
    have hAdded := linked_added h.linked ho hp (h.linked.of_findScript_none hFind)
    refine ⟨_, makeInstance_eq ho, ?_, ?_⟩
    · refine h.native hAdded (fun o' hLive' _ => ?_) fun q o' hq => ?_
      · simp only [Function.update_apply]
        split
        · exact Option.some_ne_none _
        · exact hLive'
      · simp only [Function.update_apply] at hq
        split at hq
        · cases hq
        · exact hq
    · intro q o' d hAlive hIns hId _ _
      have hqp : q ≠ p := by
        rintro rfl
        rw [hp] at hIns
        cases hIns
      exact ⟨hAlive, (Function.update_of_ne hqp _ _).trans hIns, hId⟩
  | freeScript p =>
    obtain ⟨n, o, hIns, hCount⟩ := hAllowed
    obtain ⟨o', l, hTarget, ho, -⟩ := h.linked.target p _ hIns
    obtain rfl := Option.some.inj hTarget
    have hRemoved := linked_removed h.linked hIns ho hCount
    refine ⟨_, h.linked.deleteInstance_eq hIns ho, ?_, ?_⟩
    · refine h.native hRemoved (fun o' hLive hIn => ?_) fun q o' hq => ?_
      · simp only [Function.update_apply]
        split
        · next hEq =>
          subst hEq
          have := hCount hIn
          rw [if_neg (by omega)]
          exact Option.some_ne_none _
        · exact hLive
      · simp only [Function.update_apply] at hq
        split at hq
        · cases hq
        · exact hq
    · intro q o' d hAlive hq hId _ _
      have hqp : q ≠ p := by
        rintro rfl
        rw [hIns] at hq
        cases hq
      exact ⟨hAlive, (Function.update_of_ne hqp _ _).trans hq, hId⟩
  | destroyLibrary =>
    obtain ⟨t, hEq, hBridged⟩ := h.destroyLibrary hAllowed.2
    exact ⟨t, hEq, hBridged, fun _ _ _ _ _ _ _ hNot => absurd rfl hNot⟩

/-- The instance of a native object is found, and its Dart object in `_objectDB`. -/
theorem Bridged.received_iff (h : Bridged s) {o d : Nat} :
    s.received o = some d ↔ ∃ p, s.instances p = some ⟨.dart, some o⟩ ∧ s.objectDB p = some d := by
  cases ho : s.scripts o with
  | none =>
    have hFind : s.findScript .dart o = .error .deadObject := by
      rw [State.findScript, State.getScripts, ho]
      rfl
    rw [State.received, hFind]
    refine iff_of_false (fun hNone => Option.some_ne_none d hNone.symm) ?_
    rintro ⟨p, hp, -⟩
    exact h.linked.no_target ho p .dart hp
  | some l =>
    obtain ⟨r, hFind, hIff⟩ := h.linked.findScript_ok .dart ho
    rw [State.received, hFind]
    show r.bind s.objectDB = some d ↔ _
    rw [Option.bind_eq_some_iff]
    simp only [hIff]

theorem Bridged.sent_iff (h : Bridged s) (hAlive : s.alive = true) {o d : Nat} :
    s.sent d = some o ↔ ∃ p, s.instances p = some ⟨.dart, some o⟩ ∧ s.objectDB p = some d := by
  rw [State.sent, Option.bind_eq_some_iff]
  constructor
  · rintro ⟨p, hId, hTarget⟩
    obtain ⟨ins, hIns, hTarget⟩ := Option.bind_eq_some_iff.mp hTarget
    have hEntry : s.objectDB p = some d := by
      rw [h.database hAlive p d]
      exact Option.join_eq_some_iff.mp hId
    obtain ⟨target, hDart⟩ := (h.linked.registered.2 p).mp
      ((h.known hAlive p).mpr (by simp [hEntry]))
    obtain rfl := Option.some.inj (hIns.symm.trans hDart)
    exact ⟨p, by rw [hDart, ← hTarget], hEntry⟩
  · rintro ⟨p, hIns, hEntry⟩
    have hId := (h.database hAlive p d).mp hEntry
    exact ⟨p, Option.join_eq_some_iff.mpr hId, by rw [hIns]; rfl⟩

theorem run_bridged {ops : List Op} (hLegal : Transition.Legal Allowed next start ops) :
    ∃ s, Transition.run next start ops = .ok s ∧ Bridged s :=
  Transition.run_legal (I := Bridged) (fun s op h hAllowed => by
    obtain ⟨t, hNext, hBridged, -⟩ := next_bridged s op h hAllowed
    exact ⟨t, hNext, hBridged⟩) start_bridged hLegal

/-- In every run nothing that was deleted is used. While the library is set up, the Dart object that
a native object has and the native object that a Dart object is converted to are inverse to each
other, and the native object of a Dart object is alive. -/
theorem crossings_inverse (ops : List Op) (hLegal : Transition.Legal Allowed next start ops) :
    ∃ s, Transition.run next start ops = .ok s ∧
      (s.alive = true → ∀ o d, (s.received o = some d ↔ s.sent d = some o) ∧
        (s.sent d = some o → s.scripts o ≠ none)) := by
  obtain ⟨s, hRun, h⟩ := run_bridged hLegal
  refine ⟨s, hRun, fun hAlive o d => ⟨h.received_iff.trans (h.sent_iff hAlive).symm, ?_⟩⟩
  intro hSent hDead
  obtain ⟨p, hIns, -⟩ := (h.sent_iff hAlive).mp hSent
  exact h.linked.no_target hDead p .dart hIns

/-- An object crosses to Dart, another one is allocated and destroyed, and its address is used for a
third one. -/
theorem crossings_inverse_reused :
    let ops : List Op := [.make 0, .toDart 0 5 0 true, .beginAllocate 1 1, .endAllocate 6, .destroy 1,
      .make 2, .toDart 2 6 2 true]
    Transition.Legal Allowed next start ops ∧
      ∃ s, Transition.run next start ops = .ok s ∧
        (s.alive = true → ∀ o d, (s.received o = some d ↔ s.sent d = some o) ∧
          (s.sent d = some o → s.scripts o ≠ none)) := by
  intro ops
  have hLegal : Transition.Legal Allowed next start ops := by
    refine ⟨rfl, ?_⟩
    rintro t ⟨⟩
    refine ⟨⟨rfl, nofun, List.not_mem_nil, rfl, rfl⟩, ?_⟩
    rintro t ⟨⟩
    refine ⟨⟨rfl, rfl, rfl⟩, ?_⟩
    rintro t ⟨⟩
    refine ⟨⟨nofun, rfl⟩, ?_⟩
    rintro t ⟨⟩
    refine ⟨nofun, ?_⟩
    rintro t ⟨⟩
    refine ⟨rfl, ?_⟩
    rintro t ⟨⟩
    exact ⟨⟨rfl, nofun, List.not_mem_nil, rfl, rfl⟩, fun _ _ => trivial⟩
  exact ⟨hLegal, crossings_inverse ops hLegal⟩

/-- Once a native object has a Dart object, it keeps it, whatever else happens, until the Dart object
is destroyed: whenever it crosses again it is converted to that one, and nothing is made. -/
theorem crossing_stays (ops rest : List Op)
    (hLegal : Transition.Legal Allowed next start (ops ++ rest)) {s : State}
    (hRun : Transition.run next start ops = .ok s) (hAlive : s.alive = true) {o d : Nat}
    (hHas : s.received o = some d) (hKept : ∀ op ∈ rest, op ≠ .destroy d ∧ op ≠ .destroyLibrary) :
    ∃ t, Transition.run next s rest = .ok t ∧ t.sent d = some o ∧
      ∀ p e found, ∃ v, t.toDart o p e found = .ok (t, v) ∧ t.convert v = some d := by
  obtain ⟨hBefore, hAfter⟩ := hLegal.append
  have hBridged : Bridged s := by
    obtain ⟨s', hRun', h⟩ := run_bridged hBefore
    obtain rfl := Except.ok.inj (hRun.symm.trans hRun')
    exact h
  obtain ⟨p, hIns, hEntry⟩ := hBridged.received_iff.mp hHas
  have hId := (hBridged.database hAlive p d).mp hEntry
  -- the instance is the same one all the time
  obtain ⟨t, hRest, h, hAlive', hIns', hId'⟩ := Transition.run_legal
    (I := fun s => Bridged s ∧ s.alive = true ∧ s.instances p = some ⟨.dart, some o⟩ ∧
      s.ids d = some (some p))
    (fun s op hs hOp => by
      obtain ⟨hs, hAlive, hIns, hId⟩ := hs
      obtain ⟨hAllowed, hNe, hNe'⟩ := hOp
      obtain ⟨t, hNext, hBridged, hKeeps⟩ := next_bridged s op hs hAllowed
      exact ⟨t, hNext, hBridged, hKeeps p o d hAlive hIns hId hNe hNe'⟩)
    ⟨hBridged, hAlive, hIns, hId⟩ ((hAfter s hRun).and_mem hKept)
  have hEntry' := (h.database hAlive' p d).mpr hId'
  refine ⟨t, hRest, (h.sent_iff hAlive').mpr ⟨p, hIns', hEntry'⟩, fun q e found => ⟨some p, ?_, ?_⟩⟩
  · rw [State.toDart, h.linked.findScript_eq_some hIns']
    rfl
  · exact hEntry'

/-- Native code lets go of the object, and another one comes and goes. -/
theorem crossing_stays_alone :
    ∃ s, Transition.run next start [.make 0, .toDart 0 5 0 true] = .ok s ∧
      ∃ t, Transition.run next s [.letGo 0, .beginAllocate 1 1, .endAllocate 6, .destroy 1] = .ok t ∧
        t.sent 0 = some 0 ∧
        ∀ p e found, ∃ v, t.toDart 0 p e found = .ok (t, v) ∧ t.convert v = some 0 := by
  have hLegal : Transition.Legal Allowed next start ([.make 0, .toDart 0 5 0 true] ++
      [.letGo 0, .beginAllocate 1 1, .endAllocate 6, .destroy 1]) := by
    refine ⟨rfl, ?_⟩
    rintro t ⟨⟩
    refine ⟨⟨rfl, nofun, List.not_mem_nil, rfl, rfl⟩, ?_⟩
    rintro t ⟨⟩
    refine ⟨⟨⟨_, rfl, Nat.one_lt_two⟩, fun hIn => absurd hIn List.not_mem_nil⟩, ?_⟩
    rintro t ⟨⟩
    refine ⟨⟨rfl, rfl, rfl⟩, ?_⟩
    rintro t ⟨⟩
    refine ⟨⟨nofun, rfl⟩, ?_⟩
    rintro t ⟨⟩
    exact ⟨nofun, fun _ _ => trivial⟩
  refine ⟨_, rfl, crossing_stays _ _ hLegal rfl rfl rfl ?_⟩
  simp

/-- An initializer that hands its object over: the object has another Dart object than the one that
was allocated with it. -/
example : ∃ s, Transition.run next start [.beginAllocate 1 0, .toDart 0 5 2 true, .endAllocate 6] =
    .ok s ∧ s.received 0 = some 2 ∧ s.sent 1 = some 0 := ⟨_, rfl, rfl, rfl⟩

end RetroConfig.Identity
