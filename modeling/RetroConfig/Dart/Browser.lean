import RetroConfig.Library.OrderedMap
import RetroConfig.Library.Transition
import Mathlib.Data.String.Basic

/-!
# `Browser`: a page that is opened for its cookies

`Browser.start` (`lib/utils/browser.dart`) opens a page in an overlay entry. Each load event of the
page starts a check, which asks for the cookies and, if one of the wanted cookies is there, for the
user agent of the page; the first check that gets both completes the task. The handler of the task
removes the entry and calls `onComplete`.

The time limit is put on the handled task. When it has passed, its own handler removes the entry
and calls `onComplete`, but the task is still waited for: a check that is finished after that removes
the entry and calls `onComplete` again. `completion_always_iff` says that nothing else can go wrong.
-/

namespace RetroConfig

namespace Browser

/-- A call of the callback of the page, by what it waits for. -/
inductive Check where
  /-- `await cookieManager.getCookies(..)`. -/
  | cookies
  /-- `await controller.evaluateJavascript(..)`, with the cookies found. -/
  | userAgent (map : List (String × String))
  | ended
  deriving DecidableEq

inductive Phase where
  | idle
  /-- `await cookieManager.deleteAllCookies()`. -/
  | deleting
  /-- `runTask` has been called, and its task is waited for. -/
  | running
  deriving DecidableEq

end Browser

open Browser in
/-- `Browser`, with its overlay entry and the task of `runTask`. `delivered` says that the handler of
the task has run, `timedOut` that the time limit has passed, `removals` how often the entry was
removed, and `invocations` what `onComplete` was called with. -/
structure Browser where
  globalKey : Bool
  cookieList : List String
  phase : Phase
  complete : Bool
  checks : List Check
  delivered : Bool
  timedOut : Bool
  error : Option String
  removals : Nat
  invocations : List (Option (List (String × String)))

namespace Browser

/-- A browser whose `onComplete` is set, before `start`. -/
def fresh (globalKey : Bool) (cookieList : List String) : Browser :=
  { globalKey := globalKey
    cookieList := cookieList
    phase := .idle
    complete := false
    checks := []
    delivered := false
    timedOut := false
    error := none
    removals := 0
    invocations := [] }

/-- `start` up to its `await`. -/
def start (b : Browser) : Browser := if b.globalKey then { b with phase := .deleting } else b

/-- The cookies of the page that are wanted. -/
def wanted (b : Browser) (gotCookies : List (String × String)) : List (String × String) :=
  gotCookies.filter fun item => b.cookieList.contains item.1

/-- `testRules` after the cookies are there. -/
def gotCookies (b : Browser) (gotCookies : List (String × String)) : Browser × Check :=
  let found := b.wanted gotCookies
  if found = [] then (b, .ended)
  else if b.complete then (b, .ended)
  else ({ b with complete := true }, .userAgent (OrderedMap.ofPairs found))

/-- The handler of the task. -/
def deliver (b : Browser) (map : List (String × String)) : Browser :=
  { b with
    delivered := true
    removals := b.removals + 1
    invocations := b.invocations ++ [some map] }

/-- The handler of the time limit. -/
def onTimeout (b : Browser) : Browser :=
  { b with
    timedOut := true
    error := some "timeout"
    removals := b.removals + 1
    invocations := b.invocations ++ [none] }

inductive Event where
  | start
  /-- All cookies have been deleted. -/
  | cookiesDeleted
  /-- The page starts or stops to load. -/
  | page
  /-- The cookies for a check, or an exception. -/
  | cookies (check : Nat) (gotCookies : Option (List (String × String)))
  /-- The user agent for a check, or an exception of the page or of `jsonDecode`. -/
  | userAgent (check : Nat) (userAgent : Option String)
  /-- Fifteen seconds after `runTask`, unless the handler of the task has run. -/
  | timeout

/-- One event. An event that nothing waits for changes nothing; `start` is called once, so that it
finds the browser idle. -/
def next (b : Browser) : Event → Browser
  | .start =>
    match b.phase with
    | .idle => b.start
    | _ => b
  | .cookiesDeleted =>
    match b.phase with
    | .deleting => { b with phase := .running }
    | _ => b
  | .page =>
    match b.phase with
    | .running => { b with checks := b.checks ++ [.cookies] }
    | _ => b
  | .cookies check got =>
    match b.checks[check]?, got with
    | some .cookies, none => { b with checks := b.checks.set check .ended }
    | some .cookies, some got =>
      { (b.gotCookies got).1 with checks := b.checks.set check (b.gotCookies got).2 }
    | _, _ => b
  | .userAgent check got =>
    match b.checks[check]?, got with
    | some (.userAgent _), none => { b with checks := b.checks.set check .ended }
    | some (.userAgent map), some userAgent =>
      deliver { b with checks := b.checks.set check .ended }
        (OrderedMap.insert "user-agent" userAgent map)
    | _, _ => b
  | .timeout =>
    match b.phase with
    | .running => if b.delivered || b.timedOut then b else b.onTimeout
    | _ => b

/-- `onComplete` is called and the entry removed at most once. -/
structure Single (b : Browser) : Prop where
  invocations : b.invocations.length ≤ 1
  removals : b.removals ≤ 1

/-- The check waits for the user agent of the page. -/
def WaitsForUserAgent (b : Browser) (check : Nat) : Prop := ∃ map, b.checks[check]? = some (.userAgent map)

/-- No check gets its user agent after the time limit. -/
def Prompt (b : Browser) : Event → Prop
  | .userAgent check (some _) => b.timedOut = true → ¬ b.WaitsForUserAgent check
  | _ => True

/-- At most one check has found cookies, and none is left when the task has been handled. -/
structure Good (b : Browser) : Prop where
  invocations : b.invocations.length = b.delivered.toNat + b.timedOut.toNat
  removals : b.removals = b.delivered.toNat + b.timedOut.toNat
  complete : b.complete = false → ∀ i, ¬ b.WaitsForUserAgent i
  delivered : b.delivered = true → b.complete = true ∧ ∀ i, ¬ b.WaitsForUserAgent i
  single : ∀ i j, b.WaitsForUserAgent i → b.WaitsForUserAgent j → i = j

theorem fresh_good (globalKey : Bool) (cookieList : List String) : Good (fresh globalKey cookieList) := by
  have hNone : ∀ i, ¬ (fresh globalKey cookieList).WaitsForUserAgent i := by
    rintro i ⟨map, h⟩
    simp [fresh] at h
  exact ⟨rfl, rfl, fun _ => hNone, fun h => (by cases h), fun i _ hi => absurd hi (hNone i)⟩

/-- A check that has ended waits for nothing; the others are as before. -/
theorem waits_ended {b : Browser} {i j : Nat}
    (h : ({ b with checks := b.checks.set i .ended } : Browser).WaitsForUserAgent j) :
    b.WaitsForUserAgent j ∧ j ≠ i := by
  obtain ⟨map, hMap⟩ := h
  dsimp only at hMap
  rw [List.getElem?_set] at hMap
  split at hMap
  · split at hMap
    · cases hMap
    · cases hMap
  · next hne => exact ⟨⟨map, hMap⟩, Ne.symm hne⟩

theorem Good.ended {b : Browser} (h : Good b) (i : Nat) :
    Good { b with checks := b.checks.set i .ended } :=
  { invocations := h.invocations
    removals := h.removals
    complete := fun hComplete j hj => h.complete hComplete j (waits_ended hj).1
    delivered := fun hDelivered =>
      ⟨(h.delivered hDelivered).1, fun j hj => (h.delivered hDelivered).2 j (waits_ended hj).1⟩
    single := fun j k hj hk => h.single j k (waits_ended hj).1 (waits_ended hk).1 }

theorem page_good {b : Browser} (h : Good b) : Good { b with checks := b.checks ++ [.cookies] } := by
  have hOld : ∀ j, ({ b with checks := b.checks ++ [.cookies] } : Browser).WaitsForUserAgent j →
      b.WaitsForUserAgent j := by
    rintro j ⟨map, hMap⟩
    dsimp only at hMap
    rw [List.getElem?_append] at hMap
    split at hMap
    · exact ⟨map, hMap⟩
    · cases List.mem_singleton.mp (List.mem_of_getElem? hMap)
  exact
    { invocations := h.invocations
      removals := h.removals
      complete := fun hComplete j hj => h.complete hComplete j (hOld j hj)
      delivered := fun hDelivered =>
        ⟨(h.delivered hDelivered).1, fun j hj => (h.delivered hDelivered).2 j (hOld j hj)⟩
      single := fun j k hj hk => h.single j k (hOld j hj) (hOld k hk) }

theorem gotCookies_good {b : Browser} (h : Good b) (i : Nat) (got : List (String × String)) :
    Good { (b.gotCookies got).1 with checks := b.checks.set i (b.gotCookies got).2 } := by
  rw [gotCookies]
  dsimp only
  split
  · exact h.ended i
  · split
    · exact h.ended i
    · next hComplete =>
      have hNone := h.complete (by simpa using hComplete)
      have hOnly : ∀ j, ({ b with
          complete := true
          checks := b.checks.set i (.userAgent (OrderedMap.ofPairs (b.wanted got))) } :
          Browser).WaitsForUserAgent j → j = i := by
        rintro j ⟨map, hMap⟩
        dsimp only at hMap
        rw [List.getElem?_set] at hMap
        split at hMap
        · next hEq => exact hEq.symm
        · exact absurd ⟨map, hMap⟩ (hNone j)
      refine ⟨h.invocations, h.removals, fun hFalse => (by cases hFalse), ?_, ?_⟩
      · intro hDelivered
        exact absurd (h.delivered hDelivered).1 (by simpa using hComplete)
      · exact fun j k hj hk => (hOnly j hj).trans (hOnly k hk).symm

theorem deliver_good {b : Browser} (h : Good b) {i : Nat} (hWaits : b.WaitsForUserAgent i)
    (map : List (String × String)) :
    Good (deliver { b with checks := b.checks.set i .ended } map) := by
  have hNot : b.delivered = false := by
    by_contra hDelivered
    exact (h.delivered (by simpa using hDelivered)).2 i hWaits
  have hNone : ∀ j, ¬ ({ b with checks := b.checks.set i .ended } : Browser).WaitsForUserAgent j := by
    intro j hj
    obtain ⟨hOld, hne⟩ := waits_ended hj
    exact hne (h.single j i hOld hWaits)
  have hComplete : b.complete = true := by
    by_contra hComplete
    exact h.complete (by simpa using hComplete) i hWaits
  refine ⟨?_, ?_, fun _ => hNone, fun _ => ⟨hComplete, hNone⟩, fun j _ hj => absurd hj (hNone j)⟩
  · simp only [deliver, List.length_append, List.length_singleton, h.invocations, hNot,
      Bool.toNat_false, Bool.toNat_true]
    omega
  · simp only [deliver, h.removals, hNot, Bool.toNat_false, Bool.toNat_true]
    omega

theorem onTimeout_good {b : Browser} (h : Good b) (hDelivered : b.delivered = false)
    (hTimedOut : b.timedOut = false) : Good b.onTimeout := by
  refine ⟨?_, ?_, h.complete, h.delivered, h.single⟩
  · simp only [onTimeout, List.length_append, List.length_singleton, h.invocations, hDelivered,
      hTimedOut, Bool.toNat_false, Bool.toNat_true]
  · simp only [onTimeout, h.removals, hDelivered, hTimedOut, Bool.toNat_false, Bool.toNat_true]

theorem next_good {b : Browser} (h : Good b) (event : Event) : Good (b.next event) := by
  cases event with
  | start =>
    rw [next, start]
    split
    · split
      · exact ⟨h.invocations, h.removals, h.complete, h.delivered, h.single⟩
      · exact h
    · exact h
  | cookiesDeleted =>
    rw [next]
    split
    · exact ⟨h.invocations, h.removals, h.complete, h.delivered, h.single⟩
    · exact h
  | page =>
    rw [next]
    split
    · exact page_good h
    · exact h
  | cookies check got =>
    unfold next
    dsimp only
    split
    · exact h.ended check
    · exact gotCookies_good h check _
    · exact h
  | userAgent check got =>
    unfold next
    dsimp only
    split
    · exact h.ended check
    · next map _ hCheck => exact deliver_good h ⟨map, hCheck⟩ _
    · exact h
  | timeout =>
    rw [next]
    split
    · split
      · exact h
      · next hNot =>
        simp only [Bool.or_eq_true, not_or, Bool.not_eq_true] at hNot
        exact onTimeout_good h hNot.1 hNot.2
    · exact h

theorem Good.single_iff {b : Browser} (h : Good b) :
    Single b ↔ ¬ (b.delivered = true ∧ b.timedOut = true) := by
  have hSum : Single b ↔ b.delivered.toNat + b.timedOut.toNat ≤ 1 := by
    rw [← h.invocations]
    exact ⟨fun hSingle => hSingle.invocations,
      fun hLe => ⟨hLe, (h.removals.trans h.invocations.symm).trans_le hLe⟩⟩
  rw [hSum]
  cases b.delivered <;> cases b.timedOut <;> decide

/-- The cookies of a check run no handler. -/
theorem next_cookies_handlers (b : Browser) (check : Nat) (got : Option (List (String × String))) :
    (b.next (.cookies check got)).delivered = b.delivered ∧
      (b.next (.cookies check got)).timedOut = b.timedOut := by
  unfold next
  dsimp only
  split
  · exact ⟨rfl, rfl⟩
  · next got _ =>
    rw [gotCookies]
    dsimp only
    split
    · exact ⟨rfl, rfl⟩
    · split <;> exact ⟨rfl, rfl⟩
  · exact ⟨rfl, rfl⟩

/-- What the user agent of a check can do. -/
theorem next_userAgent_cases (b : Browser) (check : Nat) (got : Option String) :
    (∃ userAgent map, got = some userAgent ∧ b.checks[check]? = some (.userAgent map) ∧
      b.next (.userAgent check got) = deliver { b with checks := b.checks.set check .ended }
        (OrderedMap.insert "user-agent" userAgent map)) ∨
    (b.Prompt (.userAgent check got) ∧ (b.next (.userAgent check got)).delivered = b.delivered ∧
      (b.next (.userAgent check got)).timedOut = b.timedOut) := by
  cases got with
  | none =>
    refine Or.inr ⟨trivial, ?_⟩
    unfold next
    dsimp only
    split
    · exact ⟨rfl, rfl⟩
    · next hNone => cases hNone
    · exact ⟨rfl, rfl⟩
  | some userAgent =>
    by_cases hWaits : b.WaitsForUserAgent check
    · obtain ⟨map, hMap⟩ := hWaits
      exact Or.inl ⟨userAgent, map, rfl, hMap, by simp only [next, hMap]⟩
    · have hNext : b.next (.userAgent check (some userAgent)) = b := by
        unfold next
        dsimp only
        split
        · next hNone => cases hNone
        · next map _ hMap _ => exact absurd ⟨map, hMap⟩ hWaits
        · rfl
      exact Or.inr ⟨fun _ => hWaits, by rw [hNext], by rw [hNext]⟩

/-- Both handlers have run after an event if they had before it, or if a check gets its user agent
after the time limit. -/
theorem next_handlers (b : Browser) (event : Event) :
    ((b.next event).delivered = true ∧ (b.next event).timedOut = true) ↔
      (b.delivered = true ∧ b.timedOut = true) ∨ ¬ b.Prompt event := by
  cases event with
  | start =>
    simp only [next, start, Prompt, not_true_eq_false, or_false]
    split
    · split <;> exact Iff.rfl
    · exact Iff.rfl
  | cookiesDeleted =>
    simp only [next, Prompt, not_true_eq_false, or_false]
    split <;> exact Iff.rfl
  | page =>
    simp only [next, Prompt, not_true_eq_false, or_false]
    split <;> exact Iff.rfl
  | cookies check got =>
    obtain ⟨hDelivered, hTimedOut⟩ := next_cookies_handlers b check got
    rw [hDelivered, hTimedOut]
    simp [Prompt]
  | userAgent check got =>
    obtain ⟨userAgent, map, rfl, hMap, hNext⟩ | ⟨hPrompt, hDelivered, hTimedOut⟩ :=
      next_userAgent_cases b check got
    · rw [hNext]
      simp only [deliver, true_and, Prompt, Classical.not_imp, not_not]
      exact ⟨fun hTimedOut => Or.inr ⟨hTimedOut, map, hMap⟩, fun h => h.elim And.right And.left⟩
    · rw [hDelivered, hTimedOut]
      exact (or_iff_left (not_not.mpr hPrompt)).symm
  | timeout =>
    simp only [next, Prompt, not_true_eq_false, or_false]
    split
    · split
      · exact Iff.rfl
      · next hNot =>
        simp only [Bool.or_eq_true, not_or, Bool.not_eq_true] at hNot
        simp [onTimeout, hNot.1]
    · exact Iff.rfl

theorem next_single_iff {b : Browser} (h : Good b) (hSingle : Single b) (event : Event) :
    Single (b.next event) ↔ b.Prompt event := by
  have hNot := h.single_iff.mp hSingle
  rw [(next_good h event).single_iff, next_handlers, not_or, not_not]
  exact and_iff_right hNot

end Browser

end RetroConfig
