import Mathlib.Logic.Function.Basic
import Mathlib.Tactic.Common

/-!
# `GitItem`: a clone and its dialog

`GitItem` (`lib/utils/progress_items.dart`) starts a clone and reports to a `ProgressDialog`
(`lib/widgets/progress_dialog.dart`). The clone runs in a thread (`GitTask`, in
`utils/GitRepository.cpp`), which posts callbacks for the main thread (`Platform::doOnMainThread`)
and knows its `GitAction` by a weak reference only. The main thread calls the callbacks in order; in
between it handles what the user does. A clone that has failed can be retried, with a new `GitAction`.

An operation is a step of one of the threads. What `libgit2` does is left open: it may report
progress any number of times, and returns with or without a message.
-/

namespace RetroConfig.GitItem

/-! ## State -/

/-- Where `GitTask::main` is: its function runs, it has locked the action and set the error, or it
has posted the callback. -/
inductive Thread where
  | running
  | finished
  | ended
  deriving DecidableEq

/-- A `GitAction`, its task and its Dart object: `held` while the Dart object is not destroyed,
`listening` while the Dart objects of its two callbacks are not. -/
structure GitAction where
  thread : Thread
  isCancel : Bool
  error : Option String
  held : Bool
  listening : Bool
  deriving DecidableEq

/-- A callback that a thread has posted. It keeps the action alive. -/
inductive Posted where
  | onProgress (action : Nat) (text : String) (received total : Nat)
  | onComplete (action : Nat)
  deriving DecidableEq

def Posted.action : Posted → Nat
  | .onProgress action _ _ _ => action
  | .onComplete action => action

inductive Status where
  | progress
  | done
  | failed
  deriving DecidableEq

inductive ProgressResult where
  | success
  | failed
  deriving DecidableEq

/-- The route of the dialog: on top, popped but still there for the transition, or disposed. -/
inductive Route where
  | shown
  | leaving
  | disposed
  deriving DecidableEq

/-- A call of `Navigator.pop`, which pops the dialog if it is on top, or else the page below. -/
structure Pop where
  own : Bool
  result : ProgressResult
  deriving DecidableEq

/-- The actions by number, `Platform::callbacks`, the field `action` of the item, and the dialog. -/
structure State where
  url : String
  actions : Nat → Option GitAction
  started : Nat
  callbacks : List Posted
  action : Option Nat
  status : Status
  processText : String
  route : Route
  pops : List Pop

def defaultText (url : String) : String := "Clone from " ++ url

namespace State

def put (s : State) (id : Nat) (a : GitAction) : State :=
  { s with actions := Function.update s.actions id (some a) }

/-! ## The thread of a clone -/

/-- The action can be locked: its Dart object, its thread or a posted callback refers to it. -/
def alive (s : State) (id : Nat) (a : GitAction) : Bool :=
  a.held || a.thread = .finished || s.callbacks.any fun p => p.action = id

/-- `Platform::doOnMainThread`. -/
def doOnMainThread (s : State) (p : Posted) : State := { s with callbacks := s.callbacks ++ [p] }

/-- `fetch_progress`. The destructor of an action cancels its task. -/
def fetchProgress (s : State) (id received total : Nat) : State :=
  match s.actions id with
  | none => s
  | some a =>
    if a.thread = .running ∧ a.isCancel = false ∧ s.alive id a = true then
      s.doOnMainThread (.onProgress id "fetch" received total)
    else s

/-- `checkout_progress`. -/
def checkoutProgress (s : State) (id completed total : Nat) : State :=
  match s.actions id with
  | none => s
  | some a =>
    if a.thread = .running ∧ s.alive id a = true then
      s.doOnMainThread (.onProgress id "checkout" completed total)
    else s

/-- `GitTask::main`, when its function has returned. -/
def returned (s : State) (id : Nat) (err : Option String) : State :=
  match s.actions id with
  | none => s
  | some a =>
    if a.thread = .running then
      if s.alive id a = true then s.put id { a with thread := .finished, error := err.or a.error }
      else s.put id { a with thread := .ended }
    else s

/-- The end of `GitTask::main`. -/
def finish (s : State) (id : Nat) : State :=
  match s.actions id with
  | none => s
  | some a =>
    if a.thread = .finished then
      (s.put id { a with thread := .ended }).doOnMainThread (.onComplete id)
    else s

/-! ## The item -/

/-- `GitItem.start`. The flag of a `GitTask` is not initialized. -/
def start (s : State) (isCancel : Bool) : State :=
  { s with
    actions := Function.update s.actions s.started (some ⟨.running, isCancel, none, true, true⟩)
    started := s.started + 1
    action := some s.started }

/-- The text that is shown for a report. -/
def title (text : String) (receive total : Nat) : String :=
  if text = "checkout" then "Checkout... (" ++ toString receive ++ "/" ++ toString total ++ ")"
  else if text = "fetch" then "Fetch... (" ++ toString receive ++ "/" ++ toString total ++ ")"
  else text

/-- `progress`, with `onProgress` of the dialog. A disposed dialog throws. -/
def progress (s : State) (text : String) : State :=
  if s.route = .disposed then s else { s with processText := text }

/-- `Navigator.of(context).pop`. -/
def pop (s : State) (result : ProgressResult) : State :=
  match s.route with
  | .shown => { s with route := .leaving, pops := s.pops ++ [⟨true, result⟩] }
  | .leaving => { s with pops := s.pops ++ [⟨false, result⟩] }
  | .disposed => s

/-- `complete`, with `onComplete` of the dialog. -/
def complete (s : State) : State := { s with action := none, status := .done }.pop .success

/-- `fail`, with `onFail` of the dialog. -/
def fail (s : State) (msg : String) : State :=
  if s.route = .disposed then { s with action := none }
  else { s with action := none, status := .failed, processText := msg }

def error (s : State) (id : Nat) : Option String := (s.actions id).bind (·.error)

/-- What the item does when an action is complete. It reads the field `action`; if that is null, this
throws, and the bridge drops the exception. -/
def completed (s : State) : State :=
  match s.action with
  | none => s
  | some id =>
    match s.error id with
    | some msg => s.fail msg
    | none => s.complete

def listening (s : State) (id : Nat) : Bool :=
  match s.actions id with
  | none => false
  | some a => a.listening

/-- A posted callback is called. -/
def call (s : State) : Posted → State
  | .onProgress id text received total =>
    if s.listening id = true then s.progress (title text received total) else s
  | .onComplete id => if s.listening id = true then s.completed else s

/-- `Platform::onSignal` calls the next callback. -/
def onSignal (s : State) : State :=
  match s.callbacks with
  | [] => s
  | p :: rest => { s with callbacks := rest }.call p

/-- `cancel` of the item. -/
def cancel (s : State) : State :=
  match s.action with
  | none => s
  | some id =>
    match s.actions id with
    | none => { s with action := none }
    | some a => { s.put id { a with isCancel := true } with action := none }

/-! ## The user -/

/-- The button that cancels, shown unless the clone is done. -/
def onCancel (s : State) : State :=
  if s.route = .shown ∧ s.status ≠ .done then s.cancel.pop .failed else s

/-- The button that retries, shown when the clone has failed. -/
def onRetry (s : State) (isCancel : Bool) : State :=
  if s.route = .shown ∧ s.status = .failed then
    { s.start isCancel with processText := defaultText s.url, status := .progress }
  else s

/-- The system goes back. A clone can be cancelled, so that `onWillPop` lets the route go. -/
def back (s : State) : State := if s.route = .shown then { s with route := .leaving } else s

/-- The transition ends. -/
def dispose (s : State) : State := if s.route = .leaving then { s with route := .disposed } else s

/-! ## Release -/

/-- The Dart object of an action is destroyed, which the item has released. -/
def destroy (s : State) (id : Nat) : State :=
  match s.actions id with
  | none => s
  | some a => if s.action = some id then s else s.put id { a with held := false }

/-- The callbacks of a destroyed action are destroyed. -/
def destroyCallbacks (s : State) (id : Nat) : State :=
  match s.actions id with
  | none => s
  | some a => if a.held = true then s else s.put id { a with listening := false }

inductive Op where
  | fetchProgress (id received total : Nat)
  | checkoutProgress (id completed total : Nat)
  | returned (id : Nat) (err : Option String)
  | finish (id : Nat)
  | onSignal
  | onCancel
  | onRetry (isCancel : Bool)
  | back
  | dispose
  | destroy (id : Nat)
  | destroyCallbacks (id : Nat)
  deriving DecidableEq

def next (s : State) : Op → State
  | .fetchProgress id received total => s.fetchProgress id received total
  | .checkoutProgress id completed total => s.checkoutProgress id completed total
  | .returned id err => s.returned id err
  | .finish id => s.finish id
  | .onSignal => s.onSignal
  | .onCancel => s.onCancel
  | .onRetry isCancel => s.onRetry isCancel
  | .back => s.back
  | .dispose => s.dispose
  | .destroy id => s.destroy id
  | .destroyCallbacks id => s.destroyCallbacks id

def run (s : State) (ops : List Op) : State := ops.foldl next s

end State

/-- `GitItem.clone`, and the dialog that is shown for it. -/
def clone (url : String) (isCancel : Bool) : State :=
  { url, actions := fun _ => none, started := 0, callbacks := [], action := none,
    status := .progress, processText := defaultText url, route := .shown, pops := [] : State }.start
    isCancel

end RetroConfig.GitItem
