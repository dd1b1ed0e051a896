import Mathlib.Logic.Function.Basic
import Mathlib.Tactic.Common

/-!
# Timers of scripts

`setTimeout`, `setInterval` and `clearTimeout` (`env/v8/env.js`) keep the callbacks of a script in its
table `cbs` and start and cancel timers with `Platform` (`utils/dart/DartPlatform.cpp`), which numbers
them for all scripts together and hands them to the Dart object `Platform`
(`lib/utils/platform.dart`). This one keeps a `TimerInfo` for each in a map; it takes hold of the
callback and releases it when the timer leaves the map. A `JavaScriptContext` (`main/Context.cpp`) has
an interval timer of its own, whose callback goes on with the jobs of the script, and cancels it when
it is deleted.

Dart runs a timer from its event loop, so one callback runs at a time, and all that the callback
does is done before the next event: the code of a callback comes with the event that runs it. A timer
may fire at any time after it was started. The Dart object of a callback is made for the one timer it
is given to, and goes by the number of that timer.
-/

namespace RetroConfig.Timers

/-- What a native callback does that is given to `startTimer`. -/
inductive Callback where
  /-- `script->Step()`, of a context. -/
  | step (ctx : Nat)
  /-- The function of `setTimeout`, with the variable `handle`. -/
  | timeout (ctx handle : Nat)
  | interval (ctx : Nat)
  deriving DecidableEq

/-- `TimerInfo`. -/
structure TimerInfo where
  callback : Callback
  repeats : Bool
  deriving DecidableEq

/-- What happens to a timer: it is numbered, `startTimer` of the Dart object throws, it is cancelled,
its callback is called, and its one call ends well or with an exception. -/
inductive Event where
  | started (id : Nat) (repeats : Bool)
  | refused (id : Nat)
  | cancelled (id : Nat)
  | invoked (id : Nat)
  | released (id : Nat)
  | threw (id : Nat)
  /-- `Step` runs. -/
  | stepped (ctx : Nat)
  /-- The context is deleted. -/
  | closed (ctx : Nat)
  deriving DecidableEq

/-- `timer_count`; the map `timers` of the Dart object; the timers of Dart that are active; the count
of each Dart callback and whether it is destroyed; the number of contexts so far; the field `timer` of
those that are there; the keys of the table `cbs` of each. -/
structure State where
  timerCount : Nat
  timers : Nat → Option TimerInfo
  active : Nat → Option TimerInfo
  retainCount : Nat → Int
  destroyed : Nat → Bool
  contexts : Nat
  timer : Nat → Option Nat
  cbs : Nat → Nat → Bool
  log : List Event

def start : State :=
  { timerCount := 1
    timers := fun _ => none
    active := fun _ => none
    retainCount := fun _ => 0
    destroyed := fun _ => false
    contexts := 0
    timer := fun _ => none
    cbs := fun _ _ => false
    log := [] }

def State.write (s : State) (e : Event) : State := { s with log := s.log ++ [e] }

/-- `release` of a callback; an exception is `none`. -/
def release (s : State) (id : Nat) : Option State :=
  if s.retainCount id ≤ 0 then none
  else some { s with retainCount := Function.update s.retainCount id (s.retainCount id - 1) }

/-- `Platform::startTimer` and `startTimer` of the Dart object, which makes the callback, takes hold
of it and then fails if the time is not finite. The timer's number is the count before. -/
def startTimer (s : State) (callback : Callback) (finite repeats : Bool) : State :=
  let id := s.timerCount
  let s := { s with
    timerCount := id + 1
    retainCount := Function.update s.retainCount id 1
    destroyed := Function.update s.destroyed id false
    log := s.log ++ [Event.started id repeats] }
  if finite then
    let info : TimerInfo := ⟨callback, repeats⟩
    { s with
      timers := Function.update s.timers id (some info)
      active := Function.update s.active id (some info) }
  else s.write (.refused id)

/-- `Platform::cancelTimer`, `cancelTimer` of the Dart object and `cancel` of its `TimerInfo`. -/
def cancelTimer (s : State) (id : Nat) : State :=
  let s := s.write (.cancelled id)
  match s.timers id with
  | none => s
  | some _ =>
    let s := { s with active := Function.update s.active id none }
    match release s id with
    | none => s
    | some s => { s with timers := Function.update s.timers id none }

/-- A key of a table `cbs` set or deleted. -/
def State.setKey (s : State) (ctx handle : Nat) (v : Bool) : State :=
  { s with cbs := Function.update s.cbs ctx (Function.update (s.cbs ctx) handle v) }

/-- What scripts do to timers, and the making and the deletion of a context. `finite` says that the
delay is a finite number. -/
inductive Command where
  | setTimeout (ctx : Nat) (finite : Bool)
  | setInterval (ctx : Nat) (finite : Bool)
  | clearTimeout (ctx handle : Nat)
  | openContext
  | closeContext (ctx : Nat)

def exec (s : State) : Command → State
  | .setTimeout ctx finite =>
    match s.timer ctx with
    | none => s
    | some _ =>
      (startTimer s (.timeout ctx s.timerCount) finite false).setKey ctx s.timerCount true
  | .setInterval ctx finite =>
    match s.timer ctx with
    | none => s
    | some _ => (startTimer s (.interval ctx) finite true).setKey ctx s.timerCount true
  | .clearTimeout ctx handle =>
    match s.timer ctx with
    | none => s
    | some _ => (cancelTimer s handle).setKey ctx handle false
  | .openContext =>
    { startTimer s (.step s.contexts) true true with
      contexts := s.contexts + 1
      timer := Function.update s.timer s.contexts (some s.timerCount) }
  | .closeContext ctx =>
    match s.timer ctx with
    | none => s
    | some id =>
      { cancelTimer s id with
        timer := Function.update s.timer ctx none
        log := (cancelTimer s id).log ++ [.closed ctx] }

/-- A callback is called. A function of a script that is gone is not there any more. -/
def enter (s : State) (id : Nat) : Callback → State
  | .step ctx => (s.write (.invoked id)).write (.stepped ctx)
  | _ => s.write (.invoked id)

/-- The context whose code a callback runs. -/
def Callback.ctx : Callback → Nat
  | .step ctx => ctx
  | .timeout ctx _ => ctx
  | .interval ctx => ctx

/-- The function of a callback, with what it does. -/
def invoke (s : State) (id : Nat) (callback : Callback) (body : List Command) : State :=
  let s := enter s id callback
  match s.timer callback.ctx with
  | none => s
  | some _ =>
    let s := body.foldl exec s
    match callback with
    | .timeout ctx handle => s.setKey ctx handle false
    | _ => s

/-- A timer of Dart fires: `repeatTimeup`, or `timeup`. The call of a callback that is destroyed
throws. -/
def fire (s : State) (id : Nat) (body : List Command) : State :=
  match s.active id with
  | none => s
  | some info =>
    if info.repeats then
      if s.destroyed id then s.write (.threw id) else invoke s id info.callback body
    else
      let s := { s with active := Function.update s.active id none }
      if s.destroyed id then s.write (.threw id)
      else
        let s := invoke s id info.callback body
        match release s id with
        | none => s.write (.threw id)
        | some s => { s with timers := Function.update s.timers id none }.write (.released id)

inductive Op where
  | command (c : Command)
  | fire (id : Nat) (body : List Command)
  /-- The objects that nothing holds are destroyed. -/
  | tick

def next (s : State) : Op → State
  | .command c => exec s c
  | .fire id body => fire s id body
  | .tick => { s with destroyed := fun id => s.destroyed id || decide (s.retainCount id ≤ 0) }

def run (s : State) (ops : List Op) : State := ops.foldl next s

end RetroConfig.Timers
