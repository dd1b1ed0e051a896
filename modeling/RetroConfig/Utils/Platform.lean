import RetroConfig.Library.Transition
import Mathlib.Logic.Function.Basic
import Mathlib.Tactic.Common

/-!
# `Platform`: callbacks for the main thread

`Platform::doOnMainThread` (`utils/Platform.h`) appends a callback to a list and sends a signal;
`Platform::onSignal` calls the callbacks of the list in order and clears it. Both do so under
one mutex, and `onSignal` holds it while the callbacks run.

Threads take steps one at a time; between two steps of one any number of steps of others may
happen. `dispatch_always_iff` says that every callback is called once and in order, and no thread
locks the mutex twice, exactly if no callback that `onSignal` calls posts another one.
-/

namespace RetroConfig.Platform

variable {τ κ : Type} [DecidableEq τ]

/-- Where a thread is. -/
inductive Place (κ : Type) where
  | outside
  /-- In `doOnMainThread`, waiting for the mutex. -/
  | posting (callback : κ)
  /-- Before `push_back`. -/
  | pushing (callback : κ)
  /-- After `push_back`. -/
  | pushed
  /-- Before `sendSignal`. -/
  | sending
  /-- In `onSignal`, waiting for the mutex. -/
  | entering
  /-- In the loop; `it` is at the position `i`. -/
  | looping (i : Nat)
  /-- The callback at the position `i` runs. -/
  | calling (i : Nat)
  /-- After `callbacks.clear()`. -/
  | cleared

/-- The two static members, the places of the threads and the signals on their way. The others
record which callbacks were appended and called, and that a thread locked the mutex that it held. -/
structure State (τ κ : Type) where
  callbacks : List κ
  holder : Option τ
  place : τ → Place κ
  signals : Nat
  posted : List κ
  ran : List κ
  relocked : Bool

/-- Before the first call. -/
def start (τ κ : Type) : State τ κ := ⟨[], none, fun _ => .outside, 0, [], [], false⟩

inductive Op (τ κ : Type) where
  /-- The thread calls `doOnMainThread`, maybe from a callback. -/
  | doOnMainThread (t : τ) (callback : κ)
  /-- The thread calls `onSignal`. -/
  | onSignal (t : τ)
  /-- The thread goes on. -/
  | step (t : τ)

namespace State

def move (s : State τ κ) (t : τ) (p : Place κ) : State τ κ :=
  { s with place := Function.update s.place t p }

/-- `mtx.lock()`: the thread waits, or goes on. -/
def lock (s : State τ κ) (t : τ) (wait go : Place κ) : State τ κ :=
  match s.holder with
  | none => { s.move t go with holder := some t }
  | some u => if u = t then { s with relocked := true } else s.move t wait

/-- `mtx.unlock()`. -/
def unlock (s : State τ κ) (t : τ) (p : Place κ) : State τ κ := { s.move t p with holder := none }

/-- What a thread does next. -/
def advance (s : State τ κ) (t : τ) : State τ κ :=
  match s.place t with
  | .outside => s
  | .posting callback => s.lock t (.posting callback) (.pushing callback)
  | .pushing callback =>
    { s.move t .pushed with
      callbacks := s.callbacks ++ [callback], posted := s.posted ++ [callback] }
  | .pushed => s.unlock t .sending
  | .sending => { s.move t .outside with signals := s.signals + 1 }
  | .entering => s.lock t .entering (.looping 0)
  | .looping i =>
    match s.callbacks[i]? with
    | some callback => { s.move t (.calling i) with ran := s.ran ++ [callback] }
    | none => { s.move t .cleared with callbacks := [] }
  | .calling i => s.move t (.looping (i + 1))
  | .cleared => s.unlock t .outside

/-- A call or a step of a thread. A call is made outside of the two functions, or by a callback. -/
def act (s : State τ κ) : Op τ κ → State τ κ
  | .doOnMainThread t callback =>
    match s.place t with
    | .outside => s.lock t (.posting callback) (.pushing callback)
    | .calling _ => s.lock t (.posting callback) (.pushing callback)
    | _ => s
  | .onSignal t =>
    match s.place t with
    | .outside => { s with signals := s.signals - 1 }.lock t .entering (.looping 0)
    | _ => s
  | .step t => s.advance t

/-- A thread that locks the mutex twice never comes back, and what happens then is undefined. -/
def next (s : State τ κ) (op : Op τ κ) : State τ κ := if s.relocked then s else s.act op

end State

/-! ## What holds in every state -/

namespace Place

/-- A thread at this place holds the mutex. -/
def holds : Place κ → Bool
  | .pushing _ | .pushed | .looping _ | .calling _ | .cleared => true
  | _ => false

/-- A thread at this place will send a signal, or call the callbacks. -/
def owes : Place κ → Bool
  | .pushed | .sending | .entering | .looping _ | .calling _ => true
  | _ => false

/-- How many callbacks of the list have been called. -/
def called : Place κ → Nat
  | .looping i => i
  | .calling i => i + 1
  | _ => 0

/-- The position is inside the list, which is empty once it was cleared. -/
def Inside (callbacks : List κ) : Place κ → Prop
  | .looping i => i ≤ callbacks.length
  | .calling i => i < callbacks.length
  | .cleared => callbacks = []
  | _ => True

end Place

namespace State

/-- How many callbacks of the list have been called. -/
def called (s : State τ κ) : Nat :=
  match s.holder with
  | none => 0
  | some t => (s.place t).called

/-- The callbacks that have not been called yet. -/
def pending (s : State τ κ) : List κ := s.callbacks.drop s.called

/-- Every callback that was posted has been called, in order, or waits to be called; after the loop of
`onSignal`, and when nothing is on its way, none waits; nobody waits for a mutex that it holds. -/
structure Dispatched (s : State τ κ) : Prop where
  noRelock : s.relocked = false
  order : s.ran ++ s.pending = s.posted
  looped : ∀ t, s.place t = .cleared → s.ran = s.posted
  settled : (∀ t, s.place t = .outside) → s.signals = 0 → s.ran = s.posted
  others : ∀ t callback, s.place t = .posting callback ∨ s.place t = .entering →
    s.holder ≠ some t

/-- The callback that `onSignal` calls on a thread does not post. -/
def Careful (s : State τ κ) : Op τ κ → Prop
  | .doOnMainThread t _ => ∀ i, s.place t ≠ .calling i
  | _ => True

/-- The mutex has the holder that the places say, and callbacks that wait will be called. -/
structure Good (s : State τ κ) : Prop where
  noRelock : s.relocked = false
  order : s.ran ++ s.pending = s.posted
  holder : ∀ t, (s.place t).holds = true ↔ s.holder = some t
  inside : ∀ t, (s.place t).Inside s.callbacks
  owed : s.callbacks ≠ [] → 0 < s.signals ∨ ∃ t, (s.place t).owes = true

variable {s : State τ κ}

omit [DecidableEq τ] in
theorem called_of_holder {t : τ} (h : s.holder = some t) : s.called = (s.place t).called := by
  rw [called, h]

omit [DecidableEq τ] in
theorem called_of_free (h : s.holder = none) : s.called = 0 := by
  rw [called, h]

omit [DecidableEq τ] in
theorem Good.dispatched (h : Good s) : Dispatched s where
  noRelock := h.noRelock
  order := h.order
  looped := by
    intro t ht
    have hEmpty : s.callbacks = [] := by
      have hInside := h.inside t
      rw [ht] at hInside
      exact hInside
    have hOrder := h.order
    rw [pending, hEmpty, List.drop_nil, List.append_nil] at hOrder
    exact hOrder
  settled := by
    intro hOutside hSignals
    have hEmpty : s.callbacks = [] := by
      by_contra hNe
      rcases h.owed hNe with hSignal | ⟨t, ht⟩
      · omega
      · rw [hOutside t] at ht
        cases ht
    have hOrder := h.order
    rw [pending, hEmpty, List.drop_nil, List.append_nil] at hOrder
    exact hOrder
  others := by
    intro t callback ht hHolder
    have hHolds := (h.holder t).mpr hHolder
    rcases ht with ht | ht <;> rw [ht] at hHolds <;> cases hHolds

/-! ## Single steps -/

theorem place_move_self (s : State τ κ) (t : τ) (p : Place κ) : (s.move t p).place t = p :=
  Function.update_self ..

theorem place_move_of_ne (s : State τ κ) {t u : τ} (h : u ≠ t) (p : Place κ) :
    (s.move t p).place u = s.place u := Function.update_of_ne h ..

theorem called_move (s : State τ κ) {t : τ} (h : s.holder = some t) (p : Place κ) :
    (s.move t p).called = p.called := by
  rw [called_of_holder (s := s.move t p) h, place_move_self]

/-- The thread that moves is not the one in the loop. -/
theorem called_move_of_ne (s : State τ κ) {t : τ} (h : s.holder ≠ some t) (p : Place κ) :
    (s.move t p).called = s.called := by
  cases hHolder : s.holder with
  | none => rw [called_of_free hHolder, called_of_free (s := s.move t p) hHolder]
  | some u =>
    have hNe : u ≠ t := by
      rintro rfl
      exact h hHolder
    rw [called_of_holder hHolder, called_of_holder (s := s.move t p) hHolder,
      place_move_of_ne s hNe]

/-- What the places say stays right if one thread moves. -/
theorem forall_move {t : τ} {p : Place κ} {Q : τ → Place κ → Prop} (hSelf : Q t p)
    (hOther : ∀ u, u ≠ t → Q u (s.place u)) : ∀ u, Q u ((s.move t p).place u) := by
  intro u
  by_cases hu : u = t
  · subst hu
    rw [place_move_self]
    exact hSelf
  · rw [place_move_of_ne s hu]
    exact hOther u hu

/-- Who owes a call of the callbacks goes on owing it if a thread moves that owes none, and a thread
that moves to a place that owes one makes up for all. -/
theorem owes_move {t : τ} {p : Place κ} (h : p.owes = true ∨ (s.place t).owes = false)
    (hOwed : ∃ u, (s.place u).owes = true) : ∃ u, ((s.move t p).place u).owes = true := by
  rcases h with hNew | hOld
  · exact ⟨t, by rw [place_move_self]; exact hNew⟩
  · obtain ⟨u, hu⟩ := hOwed
    have hNe : u ≠ t := by
      rintro rfl
      rw [hOld] at hu
      cases hu
    exact ⟨u, by rw [place_move_of_ne s hNe]; exact hu⟩

/-- A thread that does not hold the mutex locks it, or waits. -/
theorem Good.lock (h : Good s) {t : τ} (wait go : Place κ) (hHolds : (s.place t).holds = false)
    (hWait : wait.holds = false) (hWaitInside : wait.Inside s.callbacks) (hGo : go.holds = true)
    (hGoInside : go.Inside s.callbacks) (hCalled : go.called = 0) (n : Nat)
    (hOwes : wait.owes = true ∧ go.owes = true ∨ n = s.signals ∧ (s.place t).owes = false) :
    Good ({ s with signals := n }.lock t wait go) := by
  have hOwed : ∀ p : Place κ, p = wait ∨ p = go → s.callbacks ≠ [] →
      0 < n ∨ ∃ u, ((s.move t p).place u).owes = true := by
    intro p hp hNe
    rcases hOwes with ⟨hWaitOwes, hGoOwes⟩ | ⟨rfl, hOld⟩
    · refine Or.inr ⟨t, ?_⟩
      rw [place_move_self]
      rcases hp with rfl | rfl
      · exact hWaitOwes
      · exact hGoOwes
    · exact (h.owed hNe).imp_right (owes_move (Or.inr hOld))
  unfold State.lock
  dsimp only
  split
  · next hFree =>
    have hPending : s.pending = s.callbacks := by
      rw [pending, called_of_free hFree, List.drop_zero]
    refine ⟨h.noRelock, ?_, ?_, ?_, hOwed go (Or.inr rfl)⟩
    · have hNew := called_move { s with signals := n, holder := some t } rfl go
      have hAll : s.callbacks.drop
          (({ s with signals := n, holder := some t } : State τ κ).move t go).called = s.callbacks := by
        rw [hNew, hCalled, List.drop_zero]
      exact (congrArg (s.ran ++ ·) (hAll.trans hPending.symm)).trans h.order
    · refine forall_move (s := s) (Q := fun u p => p.holds = true ↔ some t = some u) ?_ ?_
      · exact iff_of_true hGo rfl
      · intro u hu
        rw [h.holder u, hFree]
        exact iff_of_false nofun fun hEq => hu (Option.some.inj hEq).symm
    · exact forall_move (s := s) (Q := fun _ p => p.Inside s.callbacks) hGoInside fun u _ => h.inside u
  · next u hHolder =>
    have hNe : u ≠ t := by
      rintro rfl
      rw [(h.holder u).mpr hHolder] at hHolds
      cases hHolds
    rw [if_neg hNe]
    have hOther : s.holder ≠ some t := fun hEq => hNe (Option.some.inj (hHolder.symm.trans hEq))
    refine ⟨h.noRelock, ?_, ?_, ?_, hOwed wait (Or.inl rfl)⟩
    · rw [pending, called_move_of_ne { s with signals := n } hOther]
      exact h.order
    · refine forall_move (s := s) (Q := fun u p => p.holds = true ↔ s.holder = some u) ?_ ?_
      · rw [hWait, hHolder]
        exact iff_of_false nofun fun hEq => hNe (Option.some.inj hEq)
      · exact fun v _ => h.holder v
    · exact forall_move (s := s) (Q := fun _ p => p.Inside s.callbacks) hWaitInside
        fun u _ => h.inside u

/-- A thread that holds the mutex unlocks it when it has called all or appended its own. -/
theorem Good.unlock (h : Good s) {t : τ} {p : Place κ} (hHolder : s.holder = some t)
    (hCalled : (s.place t).called = 0) (hHolds : p.holds = false) (hInside : p.Inside s.callbacks)
    (hOwed : s.callbacks ≠ [] → p.owes = true) : Good (s.unlock t p) where
  noRelock := h.noRelock
  order := by
    have hOrder := h.order
    rw [pending, called_of_holder hHolder, hCalled] at hOrder
    exact hOrder
  holder := by
    refine forall_move (s := s) (Q := fun u p => p.holds = true ↔ none = some u) ?_ ?_
    · rw [hHolds]
      exact iff_of_false nofun nofun
    · intro u hu
      rw [h.holder u, hHolder]
      exact iff_of_false (fun hEq => hu (Option.some.inj hEq).symm) nofun
  inside := forall_move (s := s) (Q := fun _ p => p.Inside s.callbacks) hInside fun u _ => h.inside u
  owed := by
    intro hNe
    exact Or.inr ⟨t, by rw [State.unlock, place_move_self]; exact hOwed hNe⟩

/-- A thread that holds the mutex goes on with the list and the loop. -/
theorem Good.hold (h : Good s) {t : τ} {p : Place κ} {callbacks posted ran : List κ}
    (hHolder : s.holder = some t) (hHolds : p.holds = true) (hInside : p.Inside callbacks)
    (hOrder : ran ++ callbacks.drop p.called = posted) (hOwed : callbacks ≠ [] → p.owes = true) :
    Good { s.move t p with callbacks := callbacks, posted := posted, ran := ran } where
  noRelock := h.noRelock
  order := by
    change ran ++ callbacks.drop (s.move t p).called = posted
    rw [called_move s hHolder]
    exact hOrder
  holder := by
    refine forall_move (s := s) (Q := fun u p => p.holds = true ↔ s.holder = some u) ?_ ?_
    · exact iff_of_true hHolds hHolder
    · exact fun u _ => h.holder u
  inside := by
    refine forall_move (s := s) (Q := fun _ p => p.Inside callbacks) hInside ?_
    intro u hu
    -- no other thread is in the loop, since it would hold the mutex
    have hOther : (s.place u).holds = false := by
      by_contra hTrue
      rw [Bool.not_eq_false, h.holder u, hHolder] at hTrue
      exact hu (Option.some.inj hTrue).symm
    cases hPlace : s.place u <;> rw [hPlace] at hOther <;> trivial
  owed := by
    intro hNe
    exact Or.inr ⟨t, by dsimp only; rw [place_move_self]; exact hOwed hNe⟩

/-- A thread that goes on keeps the invariant. -/
theorem Good.advance (h : Good s) (t : τ) : Good (s.advance t) := by
  have hInside := h.inside t
  have hOrder := h.order
  unfold State.advance
  split
  · exact h
  · next callback hPlace =>
    exact h.lock (.posting callback) (.pushing callback) (by rw [hPlace]; rfl) rfl trivial rfl trivial
      rfl s.signals (Or.inr ⟨rfl, by rw [hPlace]; rfl⟩)
  · next callback hPlace =>
    have hHolder := (h.holder t).mp (by rw [hPlace]; rfl)
    rw [pending, called_of_holder hHolder, hPlace] at hOrder
    refine h.hold hHolder rfl trivial ?_ fun _ => rfl
    exact (List.append_assoc ..).symm.trans (congrArg (· ++ [callback]) hOrder)
  · next hPlace =>
    have hHolder := (h.holder t).mp (by rw [hPlace]; rfl)
    exact h.unlock hHolder (by rw [hPlace]; rfl) rfl trivial fun _ => rfl
  · next hPlace =>
    refine ⟨h.noRelock, ?_, ?_, ?_, fun _ => Or.inl (Nat.succ_pos _)⟩
    · have hOther : s.holder ≠ some t := by
        intro hHolder
        have hHolds := (h.holder t).mpr hHolder
        rw [hPlace] at hHolds
        cases hHolds
      have hCalled := called_move_of_ne s hOther .outside
      exact (congrArg (fun k => s.ran ++ s.callbacks.drop k) hCalled).trans hOrder
    · refine forall_move (s := s) (Q := fun u p => p.holds = true ↔ s.holder = some u) ?_ ?_
      · rw [← h.holder t, hPlace]
        rfl
      · exact fun u _ => h.holder u
    · exact forall_move (s := s) (Q := fun _ p => p.Inside s.callbacks) trivial fun u _ => h.inside u
  · next hPlace =>
    exact h.lock .entering (.looping 0) (by rw [hPlace]; rfl) rfl trivial rfl (Nat.zero_le _) rfl
      s.signals (Or.inl ⟨rfl, rfl⟩)
  · next i hPlace =>
    have hHolder := (h.holder t).mp (by rw [hPlace]; rfl)
    rw [pending, called_of_holder hHolder, hPlace, Place.called] at hOrder
    split
    · next callback hGet =>
      obtain ⟨hLt, hCallback⟩ := List.getElem?_eq_some_iff.mp hGet
      refine h.hold hHolder rfl hLt ?_ fun _ => rfl
      rw [List.drop_eq_getElem_cons hLt, hCallback] at hOrder
      rw [Place.called, List.append_assoc]
      exact hOrder
    · next hGet =>
      rw [List.drop_eq_nil_of_le (List.getElem?_eq_none_iff.mp hGet)] at hOrder
      exact h.hold hHolder rfl rfl hOrder fun hNe => absurd rfl hNe
  · next i hPlace =>
    have hHolder := (h.holder t).mp (by rw [hPlace]; rfl)
    rw [pending, called_of_holder hHolder, hPlace] at hOrder
    rw [hPlace] at hInside
    exact h.hold hHolder rfl hInside hOrder fun _ => rfl
  · next hPlace =>
    have hHolder := (h.holder t).mp (by rw [hPlace]; rfl)
    rw [hPlace] at hInside
    exact h.unlock hHolder (by rw [hPlace]; rfl) rfl trivial fun hNe => absurd hInside hNe

theorem Good.next_eq (h : Good s) (op : Op τ κ) : s.next op = s.act op := by
  rw [State.next, h.noRelock, if_neg Bool.false_ne_true]

/-- A step keeps the invariant unless a callback that `onSignal` calls posts another one. -/
theorem next_good {op : Op τ κ} (h : Good s) (hCareful : Careful s op) : Good (s.next op) := by
  rw [h.next_eq]
  cases op with
  | doOnMainThread t callback =>
    rw [act]
    split
    · next hPlace =>
      exact h.lock (.posting callback) (.pushing callback) (by rw [hPlace]; rfl) rfl trivial rfl trivial
        rfl s.signals (Or.inr ⟨rfl, by rw [hPlace]; rfl⟩)
    · next i hPlace => exact absurd hPlace (hCareful i)
    · exact h
  | onSignal t =>
    rw [act]
    split
    · next hPlace =>
      exact h.lock .entering (.looping 0) (by rw [hPlace]; rfl) rfl trivial rfl (Nat.zero_le _) rfl
        (s.signals - 1) (Or.inl ⟨rfl, rfl⟩)
    · exact h
  | step t => exact h.advance t

/-- A callback that posts another one locks the mutex that its thread holds. -/
theorem careful_of_noRelock {op : Op τ κ} (h : Good s) (hNext : (s.next op).relocked = false) :
    Careful s op := by
  cases op with
  | doOnMainThread t callback =>
    intro i hPlace
    have hHolder := (h.holder t).mp (by rw [hPlace]; rfl)
    have hLock : s.lock t (.posting callback) (.pushing callback) = { s with relocked := true } := by
      rw [State.lock, hHolder]
      exact if_pos rfl
    rw [h.next_eq, act, hPlace] at hNext
    dsimp only at hNext
    rw [hLock] at hNext
    cases hNext
  | onSignal t => trivial
  | step t => trivial

/-! ## Every run -/

omit [DecidableEq τ] in
theorem start_good : Good (start τ κ) where
  noRelock := rfl
  order := rfl
  holder := fun _ => iff_of_false nofun nofun
  inside := fun _ => trivial
  owed := fun hNe => absurd rfl hNe

/-- Over every interleaving of any number of threads: in every state every callback that was posted has
been called once, in order, or waits for an `onSignal`, and no thread locks the mutex twice,
exactly if no callback that `onSignal` calls posts a callback. -/
theorem dispatch_always_iff (ops : List (Op τ κ)) :
    Transition.Always next Dispatched (start τ κ) ops ↔
      Transition.Each next Careful (start τ κ) ops := by
  have hLegal : Transition.Each next (fun _ _ => True) (start τ κ) ops :=
    Transition.each_of_forall (fun _ _ => trivial) _ _
  refine Transition.always_iff (I := Good) ?_ ?_ start_good.dispatched start_good hLegal
  · intro s op _ hGood _
    exact ⟨fun hNext => careful_of_noRelock hGood hNext.noRelock,
      fun hCareful => (next_good hGood hCareful).dispatched⟩
  · intro s op _ hGood _ hNext
    exact next_good hGood (careful_of_noRelock hGood hNext.noRelock)

/-- The main thread serves a callback while another thread posts one, which waits for the mutex. -/
def twoThreads : List (Op Bool Nat) :=
  [.doOnMainThread false 1, .step false, .step false, .step false, .onSignal true, .step true,
    .doOnMainThread false 2, .step false, .step true, .step true, .step true]

theorem dispatch_two_threads : Transition.Always next Dispatched (start Bool Nat) twoThreads := by
  refine (dispatch_always_iff twoThreads).mpr
    ⟨?_, trivial, trivial, trivial, trivial, trivial, ?_, trivial, trivial, trivial, trivial, trivial⟩
  · intro i hPlace
    cases hPlace.symm.trans (rfl : _ = Place.outside)
  · intro i hPlace
    cases hPlace.symm.trans (rfl : _ = Place.outside)

/-- A callback that posts another one locks the mutex twice. -/
theorem dispatch_relocks :
    ¬ Transition.Always next Dispatched (start Bool Nat)
        [.doOnMainThread true 1, .step true, .step true, .step true, .onSignal true, .step true,
          .doOnMainThread true 2] := by
  intro h
  exact absurd h.2.2.2.2.2.2.2.noRelock (by decide)

end State

end RetroConfig.Platform
