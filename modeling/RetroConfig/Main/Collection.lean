import RetroConfig.Library.Transition
import RetroConfig.Utils.Json

/-!
# `Collection`: the list of a page

A `Collection` (`main/Collection.cpp`) holds the list that a script makes for a page. It asks the
script for data (`reload`, `loadMore`), the script answers by changing the list and by calling
a completion callback, and both are reported to the rest of the program by notifications.

* `loading` is set after the handler of the script has returned. A script that calls the
  callback before that leaves it set for ever. `loading_always_iff` says that `loading` is right
  in every state of a run exactly if no script does so, and no callback of an event that was
  turned down is called while another event is being served.
* `dataChanged` is sent with the kind of the change and the elements that changed.
  `observer_always_iff` says which changes an observer can follow by its notifications.
-/

namespace RetroConfig

/-- What a `Variant` in a collection holds that is neither an `Array` nor a `Map`: plain data, a
reference to a `DataItem`, or a reference to another object. -/
inductive Held where
  | plain (p : Plain)
  | item (a : Nat)
  | object (a : Nat)
  deriving DecidableEq

abbrev Value := ValueTree Held

/-- `Variant::null()`. -/
def Value.null : Value := .leaf (.plain .null)

/-- `Collection::ChangeType`. -/
inductive ChangeType where
  | reload
  | append
  | changed
  deriving DecidableEq

inductive Notification where
  | dataChanged (type : ChangeType) (array : List Value) (idx : Nat)
  | loading (isLoading : Bool)
  | error (message : String)
  | reloadComplete

/-- `Collection`, as far as `loading` and `data` go. -/
structure Collection where
  loading : Bool
  data : List Value

namespace Collection

/-! ## Requests to the script -/

/-- The two events of a collection. -/
inductive Request where
  | reload
  | loadMore
  deriving DecidableEq

/-- An event whose handler was called: whether the handler returned true, and how often the
callback that was passed to it has been called. -/
structure Event where
  request : Request
  accepted : Bool
  completions : Nat

/-- The completion of the event is still to come. -/
def Event.Outstanding (e : Event) : Prop := e.accepted = true ∧ e.completions = 0

/-- A collection with its script: the events so far, the oldest first, and the notifications
that were sent. -/
structure Session where
  collection : Collection
  events : List Event
  sent : List Notification

/-- What the handler of an event does: the callbacks that it calls, each by the number of its
event and with an error or none, and what it returns. -/
structure Handler where
  calls : List (Nat × Option String)
  accepts : Bool

namespace Session

/-- The callback of the event with this number. -/
def complete (s : Session) (call : Nat × Option String) : Session :=
  match s.events[call.1]? with
  | none => s
  | some e =>
    { collection := { s.collection with loading := false }
      events := s.events.set call.1 { e with completions := e.completions + 1 }
      sent := s.sent ++ .loading false ::
        match call.2, e.request with
        | some message, _ => [.error message]
        | none, .reload => [.reloadComplete]
        | none, .loadMore => [] }

/-- The common part of `Collection::reload` and `Collection::loadMore`. -/
def request (r : Request) (h : Handler) (s : Session) : Session :=
  if s.collection.loading then s
  else
    let called := h.calls.foldl complete { s with events := s.events ++ [⟨r, false, 0⟩] }
    let events := called.events.modify s.events.length (fun e => { e with accepted := h.accepts })
    if h.accepts then
      { collection := { called.collection with loading := true }
        events := events
        sent := called.sent ++ [.loading true] }
    else { called with events := events }

/-- `Collection::reload`. -/
def reload (h : Handler) (s : Session) : Session := request .reload h s

/-- `Collection::loadMore`. -/
def loadMore (h : Handler) (s : Session) : Session := request .loadMore h s

inductive Op where
  | reload (h : Handler)
  | loadMore (h : Handler)
  | complete (event : Nat) (error : Option String)

def next (s : Session) : Op → Session
  | .reload h => reload h s
  | .loadMore h => loadMore h s
  | .complete event error => complete s (event, error)

/-- A new collection. -/
def fresh : Session := ⟨⟨false, []⟩, [], []⟩

/-! ### What a script may do, and when `loading` is right -/

/-- The callback of an event may be called: once if the event was accepted. -/
def Callable (s : Session) (event : Nat) : Prop :=
  ∃ e, s.events[event]? = some e ∧ (e.accepted = true → e.completions = 0)

/-- A script that calls the callback of each event it accepts once. -/
def Lawful (s : Session) : Op → Prop
  | .reload h => LawfulHandler h
  | .loadMore h => LawfulHandler h
  | .complete event _ => s.Callable event
where
  LawfulHandler (h : Handler) : Prop :=
    (∀ c ∈ h.calls, c.1 = s.events.length ∨ s.Callable c.1) ∧
      (h.accepts = true → h.calls.countP (·.1 = s.events.length) ≤ 1)

/-- A handler that accepts an event leaves its callback for later, and the callback of an event
that was not accepted is not called while an accepted one is outstanding. -/
def Timely (s : Session) : Op → Prop
  | .reload h => TimelyHandler h
  | .loadMore h => TimelyHandler h
  | .complete event _ => (∃ e, s.events[event]? = some e ∧ e.accepted = true) ∨
      ∀ e ∈ s.events, ¬ e.Outstanding
where
  TimelyHandler (h : Handler) : Prop :=
    s.collection.loading = false → h.accepts = true → ∀ c ∈ h.calls, c.1 ≠ s.events.length

/-- The value of the last notification about `loading`. -/
def lastLoading (sent : List Notification) : Option Bool :=
  (sent.filterMap fun
    | .loading b => some b
    | _ => none).getLast?

/-- `loading` says whether a completion is outstanding, and the last notification says the same
(a new collection is not loading, and has not said so). -/
structure Consistent (s : Session) : Prop where
  loading : s.collection.loading = true ↔ ∃ e ∈ s.events, e.Outstanding
  last : (lastLoading s.sent).getD false = s.collection.loading

/-! ### One step -/

theorem lastLoading_append (sent rest : List Notification) :
    lastLoading (sent ++ rest) = (lastLoading rest).or (lastLoading sent) := by
  rw [lastLoading, List.filterMap_append, List.getLast?_append]
  rfl

theorem complete_events (s : Session) (call : Nat × Option String) (i : Nat) :
    (s.complete call).events[i]? = s.events[i]?.map fun e =>
      if i = call.1 then { e with completions := e.completions + 1 } else e := by
  unfold complete
  cases hEvent : s.events[call.1]? with
  | none =>
    by_cases hi : i = call.1
    · rw [hi, hEvent]
      rfl
    · simp [hi]
  | some e =>
    have hLt : call.1 < s.events.length := (List.getElem?_eq_some_iff.mp hEvent).1
    simp only
    by_cases hi : i = call.1
    · rw [hi, List.getElem?_set_self hLt, hEvent]
      simp
    · rw [List.getElem?_set_ne (Ne.symm hi)]
      simp [hi]

/-- A callback clears `loading` and says so. -/
theorem complete_collection {s : Session} {call : Nat × Option String} {e : Event}
    (he : s.events[call.1]? = some e) :
    (s.complete call).collection.loading = false ∧
      (lastLoading (s.complete call).sent).getD false = false := by
  unfold complete
  rw [he]
  refine ⟨rfl, ?_⟩
  simp only [lastLoading_append]
  cases call.2 with
  | some message => rfl
  | none => cases e.request <;> rfl

theorem complete_quiet {s : Session} (hLoading : s.collection.loading = false)
    (hLast : (lastLoading s.sent).getD false = false) (call : Nat × Option String) :
    (s.complete call).collection.loading = false ∧
      (lastLoading (s.complete call).sent).getD false = false := by
  cases hEvent : s.events[call.1]? with
  | none =>
    have hSame : s.complete call = s := by rw [complete, hEvent]
    rw [hSame]
    exact ⟨hLoading, hLast⟩
  | some e => exact complete_collection hEvent

theorem calls_events (calls : List (Nat × Option String)) (s : Session) (i : Nat) :
    (calls.foldl complete s).events[i]? = s.events[i]?.map fun e =>
      { e with completions := e.completions + calls.countP (·.1 = i) } := by
  induction calls generalizing s with
  | nil => simp
  | cons c calls ih =>
    rw [List.foldl_cons, ih, complete_events, Option.map_map]
    congr 1
    funext e
    by_cases hi : i = c.1
    · simp only [Function.comp_apply, List.countP_cons, hi]
      simp only [decide_true, if_true]
      congr 1
      omega
    · simp [hi, Ne.symm hi]

theorem calls_quiet {s : Session} (hLoading : s.collection.loading = false)
    (hLast : (lastLoading s.sent).getD false = false) (calls : List (Nat × Option String)) :
    (calls.foldl complete s).collection.loading = false ∧
      (lastLoading (calls.foldl complete s).sent).getD false = false := by
  induction calls generalizing s with
  | nil => exact ⟨hLoading, hLast⟩
  | cons c calls ih =>
    obtain ⟨hLoading', hLast'⟩ := complete_quiet hLoading hLast c
    exact ih hLoading' hLast'

/-- At most one completion is outstanding. -/
def Single (s : Session) : Prop :=
  ∀ (i j : Nat) (e f : Event), s.events[i]? = some e → s.events[j]? = some f →
    e.Outstanding → f.Outstanding → i = j

/-- The events after a request that reaches the script: the others have been completed as often
as they were called, and the new one is accepted or not. -/
theorem request_events {s : Session} (hLoading : s.collection.loading = false) (r : Request)
    (h : Handler) (i : Nat) :
    (request r h s).events[i]? = (s.events ++ [⟨r, false, 0⟩])[i]?.map fun e =>
      { e with
        accepted := if i = s.events.length then h.accepts else e.accepted
        completions := e.completions + h.calls.countP (·.1 = i) } := by
  have hEvents : (request r h s).events =
      (h.calls.foldl complete { s with events := s.events ++ [⟨r, false, 0⟩] }).events.modify
        s.events.length (fun e => { e with accepted := h.accepts }) := by
    unfold request
    rw [if_neg (by simp [hLoading])]
    dsimp only
    split <;> rfl
  rw [hEvents, List.getElem?_modify, calls_events, Option.map_eq_map, Option.map_map]
  congr 1
  funext e
  by_cases hi : i = s.events.length
  · simp [hi]
  · simp [hi, Ne.symm hi]

/-- The event of a request is outstanding exactly if it was accepted and not completed yet; no
other event is. -/
theorem request_outstanding {s : Session} (hLoading : s.collection.loading = false)
    (hNone : ∀ e ∈ s.events, ¬ e.Outstanding) (r : Request) (h : Handler) {i : Nat} {e : Event}
    (he : (request r h s).events[i]? = some e) :
    e.Outstanding ↔ i = s.events.length ∧ h.accepts = true ∧
      h.calls.countP (·.1 = s.events.length) = 0 := by
  rw [request_events hLoading] at he
  obtain ⟨f, hf, rfl⟩ := Option.map_eq_some_iff.mp he
  by_cases hi : i = s.events.length
  · rw [hi, List.getElem?_concat_length] at hf
    obtain rfl := Option.some.inj hf
    simp [Event.Outstanding, hi]
  · have hLt : i < s.events.length := by
      have := (List.getElem?_eq_some_iff.mp hf).1
      rw [List.length_append, List.length_singleton] at this
      omega
    rw [List.getElem?_append_left hLt] at hf
    have hOld := hNone f (List.mem_of_getElem? hf)
    constructor
    · intro hOut
      simp only [Event.Outstanding, if_neg hi] at hOut
      exact absurd ⟨hOut.1, by omega⟩ hOld
    · exact fun hNew => absurd hNew.1 hi

theorem request_collection {s : Session} (hLoading : s.collection.loading = false)
    (hLast : (lastLoading s.sent).getD false = false) (r : Request) (h : Handler) :
    (request r h s).collection.loading = h.accepts ∧
      (lastLoading (request r h s).sent).getD false = h.accepts := by
  obtain ⟨hCalled, hSaid⟩ := calls_quiet (s := { s with events := s.events ++ [⟨r, false, 0⟩] })
    hLoading hLast h.calls
  unfold request
  rw [if_neg (by simp [hLoading])]
  cases hAccepts : h.accepts with
  | true =>
    refine ⟨rfl, ?_⟩
    simp only [if_true, lastLoading_append]
    rfl
  | false => exact ⟨hCalled, hSaid⟩

theorem request_step {s : Session} (hC : Consistent s) (r : Request) (h : Handler) :
    Consistent (request r h s) ↔ Timely.TimelyHandler s h := by
  by_cases hLoading : s.collection.loading = true
  · have hSame : request r h s = s := if_pos hLoading
    rw [hSame]
    exact iff_of_true hC fun hNot => by rw [hLoading] at hNot; cases hNot
  · have hNot : s.collection.loading = false := by simpa using hLoading
    have hNone : ∀ e ∈ s.events, ¬ e.Outstanding := fun e he hOut =>
      hLoading (hC.loading.mpr ⟨e, he, hOut⟩)
    obtain ⟨hAfter, hSaid⟩ := request_collection hNot (hC.last.trans hNot) r h
    have hCount : h.calls.countP (·.1 = s.events.length) = 0 ↔
        ∀ c ∈ h.calls, c.1 ≠ s.events.length := by
      simp [List.countP_eq_zero]
    have hExists : (∃ e ∈ (request r h s).events, e.Outstanding) ↔
        h.accepts = true ∧ h.calls.countP (·.1 = s.events.length) = 0 := by
      constructor
      · rintro ⟨e, he, hOut⟩
        obtain ⟨i, hi⟩ := List.mem_iff_getElem?.mp he
        exact ((request_outstanding hNot hNone r h hi).mp hOut).2
      · intro hNew
        obtain ⟨e, he⟩ : ∃ e, (request r h s).events[s.events.length]? = some e := by
          rw [request_events hNot, List.getElem?_concat_length]
          exact ⟨_, rfl⟩
        exact ⟨e, List.mem_of_getElem? he, (request_outstanding hNot hNone r h he).mpr ⟨rfl, hNew⟩⟩
    constructor
    · intro hC' _ hAccepts
      rw [← hCount]
      exact (hExists.mp (hC'.loading.mp (hAfter.trans hAccepts))).2
    · intro hTimely
      refine ⟨?_, hSaid.trans hAfter.symm⟩
      rw [hAfter, hExists]
      exact ⟨fun hAccepts => ⟨hAccepts, hCount.mpr (hTimely hNot hAccepts)⟩, fun hNew => hNew.1⟩

theorem request_single {s : Session} (hC : Consistent s) (hSingle : Single s) (r : Request)
    (h : Handler) : Single (request r h s) := by
  by_cases hLoading : s.collection.loading = true
  · have hSame : request r h s = s := if_pos hLoading
    rw [hSame]
    exact hSingle
  · have hNot : s.collection.loading = false := by simpa using hLoading
    have hNone : ∀ e ∈ s.events, ¬ e.Outstanding := fun e he hOut =>
      hLoading (hC.loading.mpr ⟨e, he, hOut⟩)
    intro i j e f he hf hOutE hOutF
    rw [((request_outstanding hNot hNone r h he).mp hOutE).1,
      ((request_outstanding hNot hNone r h hf).mp hOutF).1]

/-- A callback completes its event and leaves the others alone. -/
theorem complete_outstanding {s : Session} {call : Nat × Option String} {i : Nat} {f : Event}
    (hf : (s.complete call).events[i]? = some f) :
    f.Outstanding ↔ i ≠ call.1 ∧ ∃ e, s.events[i]? = some e ∧ e.Outstanding := by
  rw [complete_events] at hf
  obtain ⟨e, he, rfl⟩ := Option.map_eq_some_iff.mp hf
  by_cases hi : i = call.1
  · simp [Event.Outstanding, hi]
  · simp [hi, he]

theorem complete_single {s : Session} (hSingle : Single s) (call : Nat × Option String) :
    Single (s.complete call) := by
  intro i j e f he hf hOutE hOutF
  obtain ⟨-, e', he', hOutE'⟩ := (complete_outstanding he).mp hOutE
  obtain ⟨-, f', hf', hOutF'⟩ := (complete_outstanding hf).mp hOutF
  exact hSingle i j e' f' he' hf' hOutE' hOutF'

theorem complete_step {s : Session} (hSingle : Single s) {event : Nat}
    {e : Event} (he : s.events[event]? = some e) (hOnce : e.accepted = true → e.completions = 0)
    (error : Option String) :
    Consistent (s.complete (event, error)) ↔ Timely s (.complete event error) := by
  obtain ⟨hAfter, hSaid⟩ := @complete_collection s (event, error) e he
  have hExists : (∃ f ∈ (s.complete (event, error)).events, f.Outstanding) ↔
      ∃ i f, i ≠ event ∧ s.events[i]? = some f ∧ f.Outstanding := by
    constructor
    · rintro ⟨f, hf, hOut⟩
      obtain ⟨i, hi⟩ := List.mem_iff_getElem?.mp hf
      obtain ⟨hne, g, hg, hOutG⟩ := (complete_outstanding hi).mp hOut
      exact ⟨i, g, hne, hg, hOutG⟩
    · rintro ⟨i, g, hne, hg, hOutG⟩
      obtain ⟨f, hf⟩ : ∃ f, (s.complete (event, error)).events[i]? = some f := by
        rw [complete_events, hg]
        exact ⟨_, rfl⟩
      exact ⟨f, List.mem_of_getElem? hf, (complete_outstanding hf).mpr ⟨hne, g, hg, hOutG⟩⟩
  have hConsistent : Consistent (s.complete (event, error)) ↔
      ¬ ∃ i f, i ≠ event ∧ s.events[i]? = some f ∧ f.Outstanding := by
    rw [← hExists]
    constructor
    · intro hC' hOut
      rw [← hC'.loading, hAfter] at hOut
      cases hOut
    · intro hNone
      refine ⟨?_, hSaid.trans hAfter.symm⟩
      rw [hAfter]
      exact iff_of_false (by decide) hNone
  rw [hConsistent]
  by_cases hAccepted : e.accepted = true
  · refine iff_of_true ?_ (Or.inl ⟨e, he, hAccepted⟩)
    rintro ⟨i, f, hne, hf, hOut⟩
    exact hne (hSingle i event f e hf he hOut ⟨hAccepted, hOnce hAccepted⟩)
  · constructor
    · intro hNone
      refine Or.inr fun f hf hOut => ?_
      obtain ⟨i, hi⟩ := List.mem_iff_getElem?.mp hf
      refine hNone ⟨i, f, ?_, hi, hOut⟩
      rintro rfl
      rw [he] at hi
      obtain rfl := Option.some.inj hi
      exact hAccepted hOut.1
    · rintro (⟨f, hf, hTrue⟩ | hNone) ⟨i, g, -, hg, hOut⟩
      · rw [he] at hf
        obtain rfl := Option.some.inj hf
        exact hAccepted hTrue
      · exact hNone g (List.mem_of_getElem? hg) hOut

theorem next_consistent_iff {s : Session} {op : Op} (hC : Consistent s) (hSingle : Single s)
    (hLawful : Lawful s op) : Consistent (s.next op) ↔ Timely s op := by
  cases op with
  | reload h => exact request_step hC .reload h
  | loadMore h => exact request_step hC .loadMore h
  | complete event error =>
    obtain ⟨e, he, hOnce⟩ := hLawful
    exact complete_step hSingle he hOnce error

theorem next_single {s : Session} (hC : Consistent s) (hSingle : Single s) (op : Op) :
    Single (s.next op) := by
  cases op with
  | reload h => exact request_single hC hSingle .reload h
  | loadMore h => exact request_single hC hSingle .loadMore h
  | complete event error => exact complete_single hSingle _

/-- In every run of a script that calls the callback of each event it accepts once, `loading` is
right in every state exactly if the callbacks are timely. -/
theorem loading_always_iff (ops : List Op) (hLawful : Transition.Each next Lawful fresh ops) :
    Transition.Always next Consistent fresh ops ↔ Transition.Each next Timely fresh ops := by
  have hFresh : Consistent fresh := ⟨iff_of_false (by decide) (by simp [fresh]), rfl⟩
  have hSingle : Single fresh := by
    intro i j e f he
    simp [fresh] at he
  exact Transition.always_iff (fun s op hC hI hL => next_consistent_iff hC hI hL)
    (fun s op hC hI _ _ => next_single hC hI op) hFresh hSingle hLawful

/-- A reload that is accepted, completed later with an error, and made again. -/
theorem loading_right_after_retry :
    Transition.Always next Consistent fresh
      [.reload ⟨[], true⟩, .complete 0 (some "timeout"), .reload ⟨[], true⟩, .complete 1 none] := by
  refine (loading_always_iff _ ?_).mpr ?_
  · refine ⟨⟨?_, ?_⟩, ⟨⟨.reload, true, 0⟩, rfl, fun _ => rfl⟩, ⟨?_, ?_⟩,
      ⟨⟨.reload, true, 0⟩, rfl, fun _ => rfl⟩, trivial⟩ <;> simp
  · refine ⟨?_, Or.inl ⟨⟨.reload, true, 0⟩, rfl, rfl⟩, ?_, Or.inl ⟨⟨.reload, true, 0⟩, rfl, rfl⟩,
      trivial⟩ <;> intro _ _ c hc <;> cases hc

/-- A script that answers before its handler returns: `loading` stays set although no completion
is outstanding. -/
theorem loading_sticks :
    Transition.Each next Lawful fresh [.reload ⟨[(0, none)], true⟩] ∧
      ¬ Transition.Always next Consistent fresh [.reload ⟨[(0, none)], true⟩] := by
  refine ⟨⟨⟨?_, ?_⟩, trivial⟩, ?_⟩
  · intro c hc
    obtain rfl := List.mem_singleton.mp hc
    exact Or.inl rfl
  · exact fun _ => by decide
  · intro h
    have hC : Consistent (fresh.next (.reload ⟨[(0, none)], true⟩)) := h.2
    have hEvents : (fresh.next (.reload ⟨[(0, none)], true⟩)).events = [⟨.reload, true, 1⟩] := rfl
    obtain ⟨e, he, hOut⟩ := hC.loading.mp rfl
    rw [hEvents] at he
    obtain rfl := List.mem_singleton.mp he
    cases hOut.2

end Session

/-! ## Changes of the data -/

/-- `Array(const Variant &)`: an array is taken as it is, anything else becomes its only
element. -/
def arrayOf : Value → List Value
  | .array elements => elements
  | v => [v]

/-- `_Array::resize`: new places hold null. -/
def resize (data : List Value) (size : Nat) : List Value :=
  data.take size ++ List.replicate (size - data.length) Value.null

/-- `Collection::setDataAt`, with the notification that it sends. That `idx + 1` fits an `int` is
assumed. -/
def setDataAt (c : Collection) (var : Value) (idx : Nat) : Collection × Notification :=
  let data := if c.data.length ≤ idx then resize c.data (idx + 1) else c.data
  ({ c with data := data.set idx var }, .dataChanged .changed (arrayOf var) idx)

/-- `Collection::setData`. The index of the notification is left out, and read as `0`. -/
def setData (c : Collection) (array : List Value) : Collection × Notification :=
  ({ c with data := array }, .dataChanged .reload array 0)

/-- `Collection::appendData`. -/
def appendData (c : Collection) (array : List Value) : Collection × Notification :=
  ({ c with data := c.data ++ array }, .dataChanged .reload array c.data.length)

inductive Change where
  | setData (array : List Value)
  | appendData (array : List Value)
  | setDataAt (var : Value) (idx : Nat)

def change (c : Collection) : Change → Collection × Notification
  | .setData array => c.setData array
  | .appendData array => c.appendData array
  | .setDataAt var idx => c.setDataAt var idx

/-- The data after `setDataAt` within or right after the old data. -/
theorem setDataAt_data {c : Collection} {idx : Nat} (h : idx ≤ c.data.length) (var : Value) :
    (c.setDataAt var idx).1.data =
      if idx < c.data.length then c.data.set idx var else c.data ++ [var] := by
  unfold setDataAt resize
  dsimp only
  by_cases hIdx : idx < c.data.length
  · rw [if_pos hIdx, if_neg (by omega)]
  · obtain rfl : idx = c.data.length := by omega
    have hOne : c.data.length + 1 - c.data.length = 1 := by omega
    rw [if_pos le_rfl, if_neg hIdx, hOne, List.take_of_length_le (by omega), List.set_append,
      if_neg hIdx]
    simp

/-! ### An observer -/

/-- An observer that keeps a copy of the data: what it makes of its copy when a notification
comes, if the notification is one that it understands. -/
def observe (copy : List Value) : Notification → Option (List Value)
  | .dataChanged .reload array _ => some array
  | .dataChanged .append array _ => some (copy ++ array)
  | .dataChanged .changed [var] idx =>
    if idx < copy.length then some (copy.set idx var)
    else if idx = copy.length then some (copy ++ [var])
    else none
  | .dataChanged .changed _ _ => none
  | _ => some copy

/-- A collection with an observer, whose copy is lost once it does not understand a
notification. -/
structure Watched where
  collection : Collection
  copy : Option (List Value)

namespace Watched

def next (w : Watched) (op : Change) : Watched :=
  let (collection, notification) := w.collection.change op
  ⟨collection, w.copy.bind (observe · notification)⟩

/-- The index of `setDataAt` is at most the length of the data. -/
def Legal (w : Watched) : Change → Prop
  | .setDataAt _ idx => idx ≤ w.collection.data.length
  | _ => True

/-- The copy is the data. -/
def Same (w : Watched) : Prop := w.copy = some w.collection.data

/-- The changes whose notification says what has changed: data are appended only to nothing,
and what is put at an index is no array. -/
def Told (w : Watched) : Change → Prop
  | .setData _ => True
  | .appendData _ => w.collection.data = []
  | .setDataAt var _ => ∀ elements, var ≠ .array elements

theorem arrayOf_of_ne {var : Value} (h : ∀ elements, var ≠ .array elements) : arrayOf var = [var] := by
  cases var with
  | array elements => exact absurd rfl (h elements)
  | leaf a => rfl
  | object members => rfl

/-- No array is its own only element. -/
theorem array_singleton_ne (v : Value) : v ≠ .array [v] := by
  intro h
  have hSize := congrArg sizeOf h
  simp only [ValueTree.array.sizeOf_spec, List.cons.sizeOf_spec, List.nil.sizeOf_spec] at hSize
  omega

theorem setDataAt_same_iff {w : Watched} (hSame : w.Same) {var : Value} {idx : Nat}
    (hIdx : idx ≤ w.collection.data.length) :
    (w.next (.setDataAt var idx)).Same ↔ ∀ elements, var ≠ .array elements := by
  have hNext : (w.next (.setDataAt var idx)).Same ↔
      observe w.collection.data (.dataChanged .changed (arrayOf var) idx) =
        some (w.collection.setDataAt var idx).1.data := by
    unfold Same next
    rw [hSame]
    rfl
  have hOne : ∀ v, observe w.collection.data (.dataChanged .changed [v] idx) =
      some (if idx < w.collection.data.length then w.collection.data.set idx v
        else w.collection.data ++ [v]) := by
    intro v
    by_cases hLt : idx < w.collection.data.length
    · rw [observe, if_pos hLt, if_pos hLt]
    · rw [observe, if_neg hLt, if_neg hLt, if_pos (by omega)]
  rw [hNext, setDataAt_data hIdx]
  constructor
  · rintro h elements rfl
    rw [arrayOf] at h
    match elements with
    | [] => cases h
    | [v] =>
      rw [hOne] at h
      have hAt := congrArg (fun xs : List Value => xs[idx]?) (Option.some.inj h)
      by_cases hLt : idx < w.collection.data.length
      · simp only [if_pos hLt, List.getElem?_set_self hLt, Option.some.injEq] at hAt
        exact array_singleton_ne v hAt
      · obtain rfl : idx = w.collection.data.length := by omega
        simp only [if_neg hLt, List.getElem?_concat_length, Option.some.injEq] at hAt
        exact array_singleton_ne v hAt
    | _ :: _ :: _ => cases h
  · intro h
    rw [arrayOf_of_ne h, hOne]

theorem next_same_iff {w : Watched} {op : Change} (hSame : w.Same) (hLegal : w.Legal op) :
    (w.next op).Same ↔ w.Told op := by
  cases op with
  | setData array =>
    refine iff_of_true ?_ trivial
    unfold Same next
    rw [hSame]
    rfl
  | appendData array =>
    have hNext : (w.next (.appendData array)).Same ↔
        some array = some (w.collection.data ++ array) := by
      unfold Same next
      rw [hSame]
      rfl
    rw [hNext, Option.some.injEq]
    exact List.self_eq_append_left
  | setDataAt var idx => exact setDataAt_same_iff hSame hLegal

/-- An observer that starts with a copy of the data has a copy of the data after every change
exactly if each change is told by its notification. -/
theorem observer_always_iff (c : Collection) (ops : List Change)
    (hLegal : Transition.Each next Legal ⟨c, some c.data⟩ ops) :
    Transition.Always next Same ⟨c, some c.data⟩ ops ↔
      Transition.Each next Told ⟨c, some c.data⟩ ops :=
  Transition.always_iff (I := fun _ => True) (fun _ _ hSame _ hLegal => next_same_iff hSame hLegal)
    (fun _ _ _ _ _ _ => trivial) rfl trivial hLegal

/-- Data that are set, then changed at their first place and just after their last. -/
theorem observer_follows_setDataAt :
    Transition.Always next Same ⟨⟨false, []⟩, some []⟩
      [.setData [.leaf (.item 0)], .setDataAt (.leaf (.item 1)) 0,
        .setDataAt (.leaf (.item 2)) 1] := by
  refine (observer_always_iff ⟨false, []⟩ _ ?_).mpr ?_
  · exact ⟨trivial, Nat.zero_le _, le_rfl, trivial⟩
  · refine ⟨trivial, ?_, ?_, trivial⟩ <;> intro elements h <;> cases h

/-- An append after a reload is announced as a reload with the new element alone. -/
theorem observer_loses_append :
    Transition.Each next Legal ⟨⟨false, []⟩, some []⟩
        [.setData [.leaf (.item 0)], .appendData [.leaf (.item 1)]] ∧
      ¬ Transition.Always next Same ⟨⟨false, []⟩, some []⟩
        [.setData [.leaf (.item 0)], .appendData [.leaf (.item 1)]] := by
  refine ⟨⟨trivial, trivial, trivial⟩, ?_⟩
  intro h
  have hSame : some [ValueTree.leaf (Held.item 1)] =
      some [ValueTree.leaf (Held.item 0), ValueTree.leaf (Held.item 1)] := h.2.2
  have hLength := congrArg List.length (Option.some.inj hSame)
  exact absurd hLength (by decide)

end Watched

end Collection

end RetroConfig
