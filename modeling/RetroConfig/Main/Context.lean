import RetroConfig.Library.CString
import Mathlib.Logic.Function.Basic
import Mathlib.Tactic.Common

/-!
# The cache of a Project page

A `Context` of type `Project` (`main/Context.cpp`) keeps the list of its page in two
`KeyValue` entries: the list as JSON and the time it was saved at. `enterView` puts a saved
list back into the target and calls `reload` if the list is old.

Both a delivery of the script and the restoring of a saved list go through
`Collection::setData`, whose notification saves the list with the current time. A visit
that finds a list therefore renews its time, and a page that is visited often enough is
never reloaded. `enterView_reloads_iff` says exactly when a visit to a page whose delivery
has expired reloads it.

Times are those of `currentTime`, in milliseconds. A JSON exception of nlohmann is `none`.
-/

namespace RetroConfig.Context

variable {ι : Type}

/-- What the cache uses of `DataItem`: `toJSON` and `fromJSON` of a list, which may throw,
and `setProjectKey`. -/
structure DataItem (ι : Type) where
  toJSON : List ι → Option String
  fromJSON : String → Option (List ι)
  setProjectKey : String → ι → ι

/-- The page of a context: `project_key`, and the `url` of the target's info data. -/
structure Page where
  projectKey : String
  url : String

/-- The map that the table of `KeyValue` stands for: the value of every key without a NUL, empty
for a key that was never set. -/
def Store : Type := String → String

/-- `KeyValue::get`. -/
def Store.get (store : Store) (key : String) : String := store (Text.cString key)

/-- `KeyValue::set`. -/
def Store.set (store : Store) (key value : String) : Store :=
  Function.update store (Text.cString key) (Text.cString value)

def timeTail : String := "-time"

def expireTime : Nat := 30 * 60 * 100

def saveKey (page : Page) : String := page.projectKey ++ ":" ++ page.url

/-- `atoll` of a text of digits. -/
def atoll (text : String) : Nat := Nat.ofDigitChars 10 (text.toList.takeWhile (·.isDigit)) 0

/-- `Context::saveTime`. -/
def saveTime (now : Nat) (key : String) (store : Store) : Store :=
  store.set (key ++ timeTail) now.repr

/-- `Context::load`: the saved list, and whether it has expired. -/
def load (item : DataItem ι) (page : Page) (now : Nat) (store : Store) :
    Option (List ι × Bool) :=
  let list := store.get (saveKey page)
  let timestr := store.get (saveKey page ++ timeTail)
  let time := if timestr = "" then 0 else atoll timestr
  let update := decide ((expireTime : Int) < (now : Int) - (time : Int))
  if list ≠ "" then do
    let data ← item.fromJSON list
    pure (data, update)
  else pure ([], update)

/-- `Context::save`. -/
def save (item : DataItem ι) (page : Page) (now : Nat) (arr : List ι) (store : Store) :
    Option Store := do
  let json ← item.toJSON arr
  pure (saveTime now (saveKey page) (store.set (saveKey page) json))

/-- `Collection::setData` and the handler that `setupTarget` connects to its notification:
every item is given the project key, and a list that is not empty is saved. -/
def setData (item : DataItem ι) (page : Page) (now : Nat) (array : List ι) (store : Store) :
    Option Store :=
  let data := array.map (item.setProjectKey page.projectKey)
  if 0 < data.length then save item page now data store else some store

/-- `Context::enterView` of a fresh context: whether it calls `reload`, and the store. -/
def enterView (item : DataItem ι) (page : Page) (forceUpdate : Bool) (now : Nat) (store : Store) :
    Option (Bool × Store) := do
  let (data, update) ← load item page now store
  let store ← if 0 < data.length then setData item page now data store else pure store
  pure (update || decide (data.length = 0) || forceUpdate, store)

/-! ## Runs -/

inductive Event (ι : Type) where
  | advance (ms : Nat)
  | visit (forceUpdate : Bool)
  | deliver (array : List ι)

/-- A state of a run: the clock, the store, when the script last delivered, and when a visit
last put a saved list back. -/
structure State where
  clock : Nat
  store : Store
  lastDelivery : Option Nat
  lastRestore : Option Nat

def start : State := ⟨0, fun _ => "", none, none⟩

/-- The saved list that a visit puts back and saves again, unless a JSON exception ends it. -/
def restored (item : DataItem ι) (page : Page) (store : Store) : Option (List ι) := do
  let data ← item.fromJSON (store.get (saveKey page))
  if 0 < data.length then
    let _ ← item.toJSON (data.map (item.setProjectKey page.projectKey))
    pure data
  else pure data

/-- A visit puts a list back if one is saved and it is not empty. -/
def restores (item : DataItem ι) (page : Page) (store : Store) : Bool :=
  decide (store.get (saveKey page) ≠ "") &&
    match restored item page store with
    | some data => decide (0 < data.length)
    | none => false

def next (item : DataItem ι) (page : Page) (s : State) : Event ι → State
  | .advance ms => { s with clock := s.clock + ms }
  | .visit forceUpdate =>
    { s with
      store := match enterView item page forceUpdate s.clock s.store with
        | some (_, store) => store
        | none => s.store
      lastRestore := if restores item page s.store then some s.clock else s.lastRestore }
  | .deliver array =>
    { s with
      store := (setData item page s.clock array s.store).getD s.store
      lastDelivery := some s.clock }

def run (item : DataItem ι) (page : Page) (events : List (Event ι)) : State :=
  events.foldl (next item page) start

/-- The visit calls `reload`. -/
def Reloads (item : DataItem ι) (page : Page) (forceUpdate : Bool) (s : State) : Prop :=
  ∃ store, enterView item page forceUpdate s.clock s.store = some (true, store)

/-- The last delivery of the script, if there was one, is longer ago than `EXPIRE_TIME`. -/
def Expired (s : State) : Prop := ∀ d, s.lastDelivery = some d → expireTime < s.clock - d

/-- When a visit does not take a renewed time for the time of the delivery: nothing is
saved, or what is saved can be put back and is empty, or the visit is forced, or no visit
has put the list back within `EXPIRE_TIME`. -/
def Detects (item : DataItem ι) (page : Page) (forceUpdate : Bool) (s : State) : Prop :=
  s.store.get (saveKey page) = "" ∨ ∃ data, restored item page s.store = some data ∧
    (data = [] ∨ forceUpdate = true ∨ ∀ r, s.lastRestore = some r → expireTime < s.clock - r)

/-! ## One visit -/

theorem atoll_repr (n : Nat) : atoll n.repr = n := by
  have hDigits : n.repr.toList.takeWhile (·.isDigit) = n.repr.toList := by
    rw [List.takeWhile_eq_self_iff, Nat.toList_repr]
    intro c hc
    exact Nat.isDigit_of_mem_toDigits (by omega) (by omega) hc
  rw [atoll, hDigits, Nat.toList_repr, Nat.ofDigitChars_ten_toDigits]

theorem repr_ne_empty (n : Nat) : n.repr ≠ "" := by
  intro h
  have hNil : n.repr.toList = [] := by rw [h]; rfl
  rw [Nat.toList_repr] at hNil
  have hPos : 0 < (Nat.toDigits 10 n).length := Nat.length_toDigits_pos
  rw [hNil] at hPos
  exact absurd hPos (by decide)

theorem get_set (store : Store) (key value key' : String) :
    (store.set key value).get key' =
      if Text.cString key' = Text.cString key then Text.cString value else store.get key' :=
  Function.update_apply ..

/-- The time a saved list was saved at. -/
def savedTime (page : Page) (store : Store) : Nat :=
  let timestr := store.get (saveKey page ++ timeTail)
  if timestr = "" then 0 else atoll timestr

theorem savedTime_of_get {page : Page} {store : Store} {now : Nat}
    (h : store.get (saveKey page ++ timeTail) = now.repr) : savedTime page store = now := by
  rw [savedTime, h, if_neg (repr_ne_empty now), atoll_repr]

theorem save_spec {item : DataItem ι} {page : Page} {now : Nat} {arr : List ι} {store store' : Store}
    (h : save item page now arr store = some store') :
    savedTime page store' = now := by
  obtain ⟨json, -, hStore⟩ := Option.bind_eq_some_iff.mp h
  have hStore' : store' = saveTime now (saveKey page) (store.set (saveKey page) json) :=
    (Option.some.inj hStore).symm
  apply savedTime_of_get
  rw [hStore', saveTime, get_set, if_pos rfl, Text.cString_of_nulFree (Text.nulFree_repr now)]

/-- A visit when a list is saved: a JSON exception ends it, else the list is put back. -/
theorem enterView_saved (item : DataItem ι) {page : Page} (forceUpdate : Bool) (now : Nat)
    {store : Store} (hList : store.get (saveKey page) ≠ "") :
    enterView item page forceUpdate now store = (restored item page store).bind fun data =>
      (if 0 < data.length then setData item page now data store else some store).map fun store' =>
        (decide ((expireTime : Int) < (now : Int) - (savedTime page store : Int)) ||
          decide (data.length = 0) || forceUpdate, store') := by
  have hLoad : load item page now store = (item.fromJSON (store.get (saveKey page))).map fun data =>
      (data, decide ((expireTime : Int) < (now : Int) - (savedTime page store : Int))) := by
    unfold load
    dsimp only
    rw [if_pos hList]
    cases item.fromJSON (store.get (saveKey page)) <;> rfl
  unfold enterView restored
  rw [hLoad]
  cases hJson : item.fromJSON (store.get (saveKey page)) with
  | none => rfl
  | some data =>
    by_cases hPos : 0 < data.length
    · cases hText : item.toJSON (data.map (item.setProjectKey page.projectKey)) with
      | none => simp [hPos, setData, save, hText]
      | some json => simp [hPos, setData, save, hText]
    · simp [hPos]

/-- A list that can be put back is saved again, with the current time. -/
theorem setData_restored {item : DataItem ι} {page : Page} {store : Store} {data : List ι}
    (hData : restored item page store = some data) (hPos : 0 < data.length) (now : Nat) :
    ∃ store', setData item page now data store = some store' ∧ savedTime page store' = now := by
  obtain ⟨data', -, hRest⟩ := Option.bind_eq_some_iff.mp hData
  have hText : data' = data ∧ ∃ json,
      item.toJSON (data'.map (item.setProjectKey page.projectKey)) = some json := by
    by_cases hPos' : 0 < data'.length
    · rw [if_pos hPos'] at hRest
      obtain ⟨json, hText, hEq⟩ := Option.bind_eq_some_iff.mp hRest
      exact ⟨Option.some.inj hEq, json, hText⟩
    · rw [if_neg hPos'] at hRest
      obtain rfl : data' = data := Option.some.inj hRest
      exact absurd hPos hPos'
  obtain ⟨rfl, json, hText⟩ := hText
  have hSave : save item page now (data'.map (item.setProjectKey page.projectKey)) store =
      some (saveTime now (saveKey page) (store.set (saveKey page) json)) := by
    simp [save, hText]
  refine ⟨_, ?_, save_spec hSave⟩
  rw [setData, if_pos (by simpa using hPos)]
  exact hSave

/-- When a visit reloads, from the time the list was saved at. -/
theorem reloads_iff (item : DataItem ι) (page : Page) (forceUpdate : Bool) (s : State) :
    Reloads item page forceUpdate s ↔ s.store.get (saveKey page) = "" ∨
      ∃ data, restored item page s.store = some data ∧ (data = [] ∨ forceUpdate = true ∨
        (expireTime : Int) < (s.clock : Int) - (savedTime page s.store : Int)) := by
  by_cases hList : s.store.get (saveKey page) = ""
  · have hEnter : enterView item page forceUpdate s.clock s.store = some (true, s.store) := by
      simp [enterView, load, hList]
    exact iff_of_true ⟨s.store, hEnter⟩ (Or.inl hList)
  · unfold Reloads
    rw [enterView_saved item forceUpdate s.clock hList]
    cases hData : restored item page s.store with
    | none => simp [hList]
    | some data =>
      have hSet : ∃ store', (if 0 < data.length then setData item page s.clock data s.store
          else some s.store) = some store' := by
        split
        · rename_i hPos
          obtain ⟨store', hStore, -⟩ := setData_restored hData hPos s.clock
          exact ⟨store', hStore⟩
        · exact ⟨s.store, rfl⟩
      obtain ⟨store', hStore⟩ := hSet
      simp only [Option.bind_some, hStore, Option.map_some, hList, false_or, Option.some.injEq]
      constructor
      · rintro ⟨store'', hEq⟩
        refine ⟨data, rfl, ?_⟩
        have hTrue := congrArg Prod.fst hEq
        simp only [Bool.or_eq_true, decide_eq_true_eq, List.length_eq_zero_iff] at hTrue
        tauto
      · rintro ⟨data', rfl, hReload⟩
        refine ⟨store', ?_⟩
        ext
        · simp only [Bool.or_eq_true, decide_eq_true_eq, List.length_eq_zero_iff]
          tauto
        · rfl

/-! ## Every run -/

/-- The invariant of a run: the time of a saved list is not in the future, it is that of a
delivery or of the last visit that put the list back, and no such visit came later. -/
structure Good (page : Page) (s : State) : Prop where
  saved : s.store.get (saveKey page) ≠ "" →
    savedTime page s.store ≤ s.clock ∧
      (s.lastRestore = some (savedTime page s.store) ∨
        ∃ d, s.lastDelivery = some d ∧ savedTime page s.store ≤ d) ∧
      ∀ r, s.lastRestore = some r → r ≤ savedTime page s.store
  restore : ∀ r, s.lastRestore = some r → r ≤ s.clock
  delivery : ∀ d, s.lastDelivery = some d → d ≤ s.clock

theorem start_good (page : Page) : Good page start := by
  refine ⟨?_, ?_, ?_⟩
  · intro h
    exact absurd rfl h
  · intro r hr
    cases hr
  · intro d hd
    cases hd

/-- What `setData` leaves in the store: nothing new, or the current time. -/
theorem setData_time (item : DataItem ι) (page : Page) (now : Nat) (array : List ι) (store : Store) :
    (setData item page now array store).getD store = store ∨
      savedTime page ((setData item page now array store).getD store) = now := by
  unfold setData
  dsimp only
  split
  · cases hSave : save item page now (array.map (item.setProjectKey page.projectKey)) store with
    | none => exact Or.inl rfl
    | some store' => exact Or.inr (save_spec hSave)
  · exact Or.inl rfl

/-- A visit puts a list back and saves the current time, or leaves the store alone. -/
theorem visit_time (item : DataItem ι) (page : Page) (forceUpdate : Bool) (s : State) :
    let t := next item page s (.visit forceUpdate)
    (savedTime page t.store = s.clock ∧ t.lastRestore = some s.clock) ∨
    (t.store = s.store ∧ t.lastRestore = s.lastRestore) := by
  intro t
  by_cases hList : s.store.get (saveKey page) = ""
  · right
    have hEnter : enterView item page forceUpdate s.clock s.store = some (true, s.store) := by
      simp [enterView, load, hList]
    constructor
    · simp [t, next, hEnter]
    · simp [t, next, restores, hList]
  · have hEnter := enterView_saved item forceUpdate s.clock hList
    cases hData : restored item page s.store with
    | none =>
      right
      rw [hData] at hEnter
      constructor
      · simp [t, next, hEnter]
      · simp [t, next, restores, hData]
    | some data =>
      rw [hData] at hEnter
      by_cases hPos : 0 < data.length
      · left
        have hRestores : restores item page s.store = true := by
          simp [restores, hList, hData, hPos]
        obtain ⟨store', hStore, hTime⟩ := setData_restored hData hPos s.clock
        refine ⟨?_, by simp [t, next, hRestores]⟩
        have hNext : t.store = store' := by simp [t, next, hEnter, hPos, hStore]
        rw [hNext, hTime]
      · right
        constructor
        · simp [t, next, hEnter, hPos]
        · simp [t, next, restores, hData, hPos]

theorem next_good {item : DataItem ι} {page : Page} {s : State} (h : Good page s) (e : Event ι) :
    Good page (next item page s e) := by
  cases e with
  | advance ms =>
    refine ⟨?_, ?_, ?_⟩
    · intro hList
      obtain ⟨hNow, hRest⟩ := h.saved hList
      exact ⟨Nat.le_add_right_of_le hNow, hRest⟩
    · exact fun r hr => Nat.le_add_right_of_le (h.restore r hr)
    · exact fun d hd => Nat.le_add_right_of_le (h.delivery d hd)
  | visit forceUpdate =>
    rcases visit_time item page forceUpdate s with ⟨hTime, hRestore⟩ | ⟨hStore, hRestore⟩
    · refine ⟨?_, ?_, h.delivery⟩
      · intro _
        rw [hTime, hRestore]
        refine ⟨le_rfl, Or.inl rfl, ?_⟩
        intro r hr
        exact le_of_eq (Option.some.inj hr).symm
      · intro r hr
        rw [hRestore] at hr
        exact le_of_eq (Option.some.inj hr).symm
    · refine ⟨?_, ?_, h.delivery⟩
      · rw [hStore, hRestore]
        exact h.saved
      · rw [hRestore]
        exact h.restore
  | deliver array =>
    refine ⟨?_, h.restore, ?_⟩
    · intro hList
      rcases setData_time item page s.clock array s.store with hStore | hTime
      · have hStore' : (next item page s (.deliver array)).store = s.store := hStore
        rw [hStore'] at hList ⊢
        obtain ⟨hNow, hFrom, hLater⟩ := h.saved hList
        exact ⟨hNow, Or.inr ⟨s.clock, rfl, hNow⟩, hLater⟩
      · have hTime' : savedTime page (next item page s (.deliver array)).store = s.clock := hTime
        rw [hTime']
        exact ⟨le_rfl, Or.inr ⟨s.clock, rfl, le_rfl⟩, h.restore⟩
    · intro d hd
      exact le_of_eq (Option.some.inj hd).symm

theorem run_good (item : DataItem ι) (page : Page) (events : List (Event ι)) :
    Good page (run item page events) := by
  have aux : ∀ s, Good page s → Good page (events.foldl (next item page) s) := by
    induction events with
    | nil => exact fun s h => h
    | cons e events ih => exact fun s h => ih _ (next_good h e)
  exact aux start (start_good page)

/-- After every run, a visit to a page whose last delivery has expired reloads the page
exactly if it is not deceived by a renewed time or stopped by a JSON exception. -/
theorem enterView_reloads_iff (item : DataItem ι) (page : Page) (events : List (Event ι))
    (forceUpdate : Bool) :
    (Expired (run item page events) → Reloads item page forceUpdate (run item page events)) ↔
      (Expired (run item page events) → Detects item page forceUpdate (run item page events)) := by
  have hGood := run_good item page events
  refine forall_congr' fun hExpired => ?_
  rw [reloads_iff, Detects]
  by_cases hList : (run item page events).store.get (saveKey page) = ""
  · exact iff_of_true (Or.inl hList) (Or.inl hList)
  · obtain ⟨hNow, hFrom, hLater⟩ := hGood.saved hList
    have hTime : (expireTime : Int) < ((run item page events).clock : Int) -
        (savedTime page (run item page events).store : Int) ↔
        ∀ r, (run item page events).lastRestore = some r →
          expireTime < (run item page events).clock - r := by
      constructor
      · intro hOld r hr
        have hr' := hLater r hr
        omega
      · intro hOld
        rcases hFrom with hRestore | ⟨d, hd, hLe⟩
        · have := hOld _ hRestore
          omega
        · have := hExpired d hd
          omega
    rw [hTime]

/-- A page with one item, whose JSON is that of `DataItem::toJSON`. -/
def oneItem : DataItem String where
  toJSON items := if items = ["a"] then some "[\x7b\"title\":\"a\",\"type\":0\x7d]" else none
  fromJSON json := if json = "[\x7b\"title\":\"a\",\"type\":0\x7d]" then some ["a"] else none
  setProjectKey _ title := title

/-- The delivery has expired, but a visit one millisecond before has renewed its time. -/
theorem visit_renews_time :
    ¬ ∀ (events : List (Event String)) (forceUpdate : Bool),
      Expired (run oneItem ⟨"p", "u"⟩ events) →
        Reloads oneItem ⟨"p", "u"⟩ forceUpdate (run oneItem ⟨"p", "u"⟩ events) := by
  intro h
  have hExpired : Expired (run oneItem ⟨"p", "u"⟩
      [.deliver ["a"], .advance expireTime, .visit false, .advance 1]) := by
    intro d hd
    obtain rfl : 0 = d := Option.some.inj hd
    decide
  obtain ⟨store, hReload⟩ := h _ false hExpired
  have hFalse : (enterView oneItem ⟨"p", "u"⟩ false
      (run oneItem ⟨"p", "u"⟩ [.deliver ["a"], .advance expireTime, .visit false, .advance 1]).clock
      (run oneItem ⟨"p", "u"⟩
        [.deliver ["a"], .advance expireTime, .visit false, .advance 1]).store).map Prod.fst =
      some false := by decide
  rw [hReload] at hFalse
  cases hFalse

end RetroConfig.Context
