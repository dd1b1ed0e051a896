import RetroConfig.Library.Transition
import RetroConfig.Main.Context
import RetroConfig.Main.DataItem

/-!
# `Settings`: the settings of a project

A `Settings` object (`main/Settings.cpp`) keeps the settings of a project in memory. The first
`get` or `set` loads the map that is stored for the project, and `save` writes the whole map back
as one JSON text.

* `save` does not load. An object that saves before its first `get` or `set` replaces what is
  stored by an empty map. `settings_always_iff` says that this is the only way to lose a setting
  through one object.
* Each `Project` object has `Settings` of its own, which load once. A save writes back all that
  was loaded then, the settings that other objects have saved in the meantime included.
  `saves_keep_iff` says which saves lose none of them.

A JSON exception of nlohmann is `none`.
-/

namespace RetroConfig

/-- `shared::SETTING_KEY`. -/
def settingKey : String := "SETTING:"

structure Settings where
  projectKey : String
  init : Bool
  map : List (String × Variant)

namespace Settings

/-- The constructor of `Settings`. -/
def new (key : String) : Settings := ⟨key, false, []⟩

/-- `Settings::load`. -/
def load (s : Settings) (store : Context.Store) : Option Settings :=
  let value := store.get (settingKey ++ s.projectKey)
  if value = "" then some s
  else (Json.parse value).map fun json =>
    match JSON.parse json with
    | .object map => { s with map := map }
    | _ => s

/-- What `get` and `set` do first. -/
def ensureLoaded (s : Settings) (store : Context.Store) : Option Settings :=
  if s.init then some s else (s.load store).map fun s => { s with init := true }

/-- `_Map::get`. -/
def value (map : List (String × Variant)) (key : String) : Variant :=
  (map.lookup key).getD (.leaf .null)

/-- `Settings::get`. -/
def get (s : Settings) (store : Context.Store) (key : String) : Option (Variant × Settings) :=
  (s.ensureLoaded store).map fun s => (value s.map key, s)

/-- `Settings::set`. -/
def set (s : Settings) (store : Context.Store) (key : String) (value : Variant) : Option Settings :=
  (s.ensureLoaded store).map fun s => { s with map := OrderedMap.insert key value s.map }

/-- `Settings::save`. -/
def save (s : Settings) (store : Context.Store) : Context.Store :=
  store.set (settingKey ++ s.projectKey) (Json.dump (JSON.serialize (.object s.map)))

/-- The map that is stored for a project: empty if there is none, and nothing if the text is not
that of a map. -/
def stored (store : Context.Store) (projectKey : String) : Option (List (String × Variant)) :=
  let value := store.get (settingKey ++ projectKey)
  if value = "" then some []
  else (Json.parse value).bind fun json =>
    match JSON.parse json with
    | .object map => some map
    | _ => none

/-! ## Maps -/

/-- A map after the assignments of a list. -/
def overridden (map sets : List (String × Variant)) : List (String × Variant) :=
  sets.foldl (fun m p => OrderedMap.insert p.1 p.2 m) map

theorem overridden_nil (map : List (String × Variant)) : overridden map [] = map := rfl

theorem overridden_concat (map sets : List (String × Variant)) (key : String) (value : Variant) :
    overridden map (sets ++ [(key, value)]) = OrderedMap.insert key value (overridden map sets) := by
  simp [overridden]

theorem plain_insert {map : List (String × Variant)} {value : Variant} (key : String)
    (hMap : DataItem.Plain (.object map)) (hValue : DataItem.Plain value) :
    DataItem.Plain (.object (OrderedMap.insert key value map)) := by
  obtain ⟨hSorted, hMembers⟩ := ValueTree.wellFormed_object.mp hMap.wellFormed
  have hFloat := ValueTree.all_object.mp hMap.noFloat
  refine ⟨ValueTree.wellFormed_object.mpr ⟨OrderedMap.sorted_insert _ _ hSorted, ?_⟩,
    ValueTree.all_object.mpr ?_⟩
  · intro m hm
    rcases OrderedMap.mem_insert hm with rfl | hOld
    · exact hValue.wellFormed
    · exact hMembers m hOld
  · intro m hm
    rcases OrderedMap.mem_insert hm with rfl | hOld
    · exact hValue.noFloat
    · exact hFloat m hOld

theorem plain_nil : DataItem.Plain (.object []) :=
  ⟨ValueTree.wellFormed_object.mpr ⟨List.Pairwise.nil, by simp⟩, ValueTree.all_object.mpr (by simp)⟩

/-! ## Loading and saving -/

theorem load_of_stored {s : Settings} {store : Context.Store} {map : List (String × Variant)}
    (hNew : s.map = []) (h : stored store s.projectKey = some map) :
    s.load store = some { s with map := map } := by
  rw [stored] at h
  rw [load]
  split at h
  · next hEmpty =>
    obtain rfl := Option.some.inj h
    rw [if_pos hEmpty, ← hNew]
  · next hEmpty =>
    obtain ⟨json, hJson, hMap⟩ := Option.bind_eq_some_iff.mp h
    rw [if_neg hEmpty, hJson, Option.map_some]
    split at hMap
    · next tree hTree =>
      obtain rfl := Option.some.inj hMap
      rfl
    · cases hMap

theorem dump_serialize_ne_empty {map : List (String × Variant)} (h : DataItem.Plain (.object map)) :
    Json.dump (JSON.serialize (.object map)) ≠ "" :=
  DataItem.dump_ne_empty _ (DataItem.noFloat_serialize h)

/-- A save stores the map of the object. -/
theorem stored_save {s : Settings} (store : Context.Store) (h : DataItem.Plain (.object s.map)) :
    stored (s.save store) s.projectKey = some s.map := by
  have hNul : Text.NulFree (Json.dump (JSON.serialize (.object s.map))) := by
    rw [Text.NulFree, Json.dump, String.toList_ofList]
    exact Json.nul_notMem_dumpTree _
  have hText : (s.save store).get (settingKey ++ s.projectKey) =
      Json.dump (JSON.serialize (.object s.map)) := by
    rw [save, Context.get_set, if_pos rfl, Text.cString_of_nulFree hNul]
  rw [stored, hText, if_neg (dump_serialize_ne_empty h),
    Json.parse_dump (DataItem.noFloat_serialize h) (DataItem.wellFormed_serialize h),
    Option.bind_some, DataItem.parse_rereadTree_serialize h.wellFormed]

/-! ## Runs of one object -/

inductive Op where
  | get (key : String)
  | set (key : String) (value : Variant)
  | save

/-- What the last operation did. -/
inductive Outcome where
  | none
  | got (key : String) (value : Variant)
  | saved
  | threw

/-- An object with the store, the assignments made so far, the oldest first, and what the last
operation did. -/
structure Session where
  store : Context.Store
  settings : Settings
  sets : List (String × Variant)
  last : Outcome

namespace Session

def next (s : Session) : Op → Session
  | .get key =>
    match s.settings.get s.store key with
    | none => { s with last := .threw }
    | some (value, settings) => { s with settings := settings, last := .got key value }
  | .set key value =>
    match s.settings.set s.store key value with
    | none => { s with last := .threw }
    | some settings =>
      { s with settings := settings, sets := s.sets ++ [(key, value)], last := .none }
  | .save => { s with store := s.settings.save s.store, last := .saved }

/-- A new object of a project. -/
def start (store : Context.Store) (projectKey : String) : Session :=
  ⟨store, new projectKey, [], .none⟩

/-- The last operation did what it should, `map` being what was stored before the object was
made. -/
def Right (map : List (String × Variant)) (s : Session) : Prop :=
  match s.last with
  | .none => True
  | .got key v => v = value (overridden map s.sets) key
  | .saved => stored s.store s.settings.projectKey = some (overridden map s.sets)
  | .threw => False

/-- An object that has loaded holds the stored map with its own assignments; one that has not
is new, and the stored map is still there. -/
structure Good (map : List (String × Variant)) (s : Session) : Prop where
  plain : DataItem.Plain (.object (overridden map s.sets))
  loaded : s.settings.init = true → s.settings.map = overridden map s.sets
  new : s.settings.init = false →
    s.settings.map = [] ∧ s.sets = [] ∧ stored s.store s.settings.projectKey = some map

/-- What is assigned is built from null, booleans, integers, strings, arrays and maps. -/
def Lawful (_ : Session) : Op → Prop
  | .set _ value => DataItem.Plain value
  | _ => True

/-- An object saves after it has loaded, unless nothing is stored. -/
def Careful (map : List (String × Variant)) (s : Session) : Op → Prop
  | .save => s.settings.init = true ∨ map = []
  | _ => True

theorem Good.ensureLoaded {map : List (String × Variant)} {s : Session} (h : Good map s) :
    s.settings.ensureLoaded s.store =
      some { s.settings with init := true, map := overridden map s.sets } := by
  rw [Settings.ensureLoaded]
  cases hInit : s.settings.init with
  | true => rw [if_pos rfl, ← h.loaded hInit, ← hInit]
  | false =>
    obtain ⟨hMap, hSets, hStored⟩ := h.new hInit
    rw [if_neg (by decide), load_of_stored hMap hStored, Option.map_some, hSets]
    rfl

theorem Good.next_get {map : List (String × Variant)} {s : Session} (h : Good map s) (key : String) :
    s.next (.get key) = { s with
      settings := { s.settings with init := true, map := overridden map s.sets }
      last := .got key (value (overridden map s.sets) key) } := by
  rw [next, Settings.get, h.ensureLoaded]
  rfl

theorem Good.next_set {map : List (String × Variant)} {s : Session} (h : Good map s) (key : String)
    (value : Variant) :
    s.next (.set key value) = { s with
      settings := { s.settings with
        init := true
        map := overridden map (s.sets ++ [(key, value)]) }
      sets := s.sets ++ [(key, value)]
      last := .none } := by
  rw [next, Settings.set, h.ensureLoaded, overridden_concat]
  rfl

theorem next_save (s : Session) :
    s.next .save = { s with store := s.settings.save s.store, last := .saved } := rfl

theorem right_save {map : List (String × Variant)} {s : Session} :
    Right map (s.next .save) ↔
      stored (s.settings.save s.store) s.settings.projectKey = some (overridden map s.sets) := by
  rw [next_save, Right]

theorem next_good {map : List (String × Variant)} {s : Session} {op : Op} (h : Good map s)
    (hRight : Right map (s.next op)) (hLawful : s.Lawful op) : Good map (s.next op) := by
  cases op with
  | get key =>
    rw [h.next_get]
    exact ⟨h.plain, fun _ => rfl, fun hInit => by cases hInit⟩
  | set key value =>
    rw [h.next_set]
    refine ⟨?_, fun _ => rfl, fun hInit => by cases hInit⟩
    dsimp only
    rw [overridden_concat]
    exact plain_insert key h.plain hLawful
  | save =>
    rw [right_save] at hRight
    rw [next_save]
    refine ⟨h.plain, h.loaded, ?_⟩
    dsimp only
    intro hInit
    obtain ⟨hMap, hSets, -⟩ := h.new hInit
    rw [hSets, overridden_nil] at hRight
    exact ⟨hMap, hSets, hRight⟩

theorem next_right_iff {map : List (String × Variant)} {s : Session} {op : Op} (h : Good map s) :
    Right map (s.next op) ↔ s.Careful map op := by
  cases op with
  | get key =>
    rw [h.next_get]
    exact iff_of_true rfl trivial
  | set key value =>
    rw [h.next_set]
    exact iff_of_true trivial trivial
  | save =>
    rw [right_save, Careful]
    cases hInit : s.settings.init with
    | true =>
      have hMap := h.loaded hInit
      rw [stored_save _ (hMap ▸ h.plain), hMap]
      exact iff_of_true rfl (Or.inl rfl)
    | false =>
      obtain ⟨hMap, hSets, -⟩ := h.new hInit
      rw [stored_save _ (hMap ▸ plain_nil), hMap, hSets, overridden_nil, Option.some.injEq,
        eq_comm]
      simp

theorem start_good {map : List (String × Variant)} {store : Context.Store} {projectKey : String}
    (h : stored store projectKey = some map) (hPlain : DataItem.Plain (.object map)) :
    Good map (start store projectKey) :=
  { plain := hPlain
    loaded := by
      intro hInit
      cases hInit
    new := fun _ => ⟨rfl, rfl, h⟩ }

/-- Once an object has loaded it stays so, and `get` and `set` load. -/
theorem next_init {s : Session} {op : Op} (h : s.settings.init = true) :
    (s.next op).settings.init = true := by
  have hLoaded : s.settings.ensureLoaded s.store = some s.settings := by
    rw [Settings.ensureLoaded, if_pos h]
  cases op with
  | get key =>
    rw [next, Settings.get, hLoaded]
    exact h
  | set key value =>
    rw [next, Settings.set, hLoaded]
    exact h
  | save => exact h

theorem each_careful_of_init {map : List (String × Variant)} {s : Session} {ops : List Op}
    (h : s.settings.init = true ∨ map = []) : Transition.Each next (Careful map) s ops := by
  induction ops generalizing s with
  | nil => trivial
  | cons op ops ih =>
    rw [Transition.each_cons]
    refine ⟨?_, ih (h.imp_left next_init)⟩
    cases op with
    | save => exact h
    | _ => trivial

theorem each_careful_iff {map : List (String × Variant)} {store : Context.Store} {projectKey : String}
    (hGood : Good map (start store projectKey)) (ops : List Op) :
    Transition.Each next (Careful map) (start store projectKey) ops ↔
      map = [] ∨ ops.head? ≠ some .save := by
  cases ops with
  | nil => exact iff_of_true trivial (Or.inr (by simp))
  | cons op ops =>
    rw [Transition.each_cons]
    cases op with
    | save =>
      constructor
      · intro h
        exact Or.inl (h.1.resolve_left (by simp [start, new]))
      · intro h
        have hEmpty : map = [] := h.resolve_right (by simp)
        exact ⟨Or.inr hEmpty, each_careful_of_init (Or.inr hEmpty)⟩
    | get key =>
      refine iff_of_true ⟨trivial, each_careful_of_init (Or.inl ?_)⟩ (Or.inr (by simp))
      rw [hGood.next_get]
    | set key value =>
      refine iff_of_true ⟨trivial, each_careful_of_init (Or.inl ?_)⟩ (Or.inr (by simp))
      rw [hGood.next_set]

/-- In every run of a new object each operation does what it should exactly if the first one is
not a save, or nothing was stored. -/
theorem settings_always_iff {map : List (String × Variant)} {store : Context.Store} {projectKey : String}
    {ops : List Op} (hStored : stored store projectKey = some map)
    (hPlain : DataItem.Plain (.object map))
    (hOps : Transition.Each next Lawful (start store projectKey) ops) :
    Transition.Always next (Right map) (start store projectKey) ops ↔
      map = [] ∨ ops.head? ≠ some .save := by
  have hGood := start_good hStored hPlain
  have hRight : Right map (start store projectKey) := trivial
  rw [← each_careful_iff hGood]
  exact Transition.always_iff (I := Good map) (fun s op _ hGood _ => next_right_iff hGood)
    (fun s op _ hGood hLawful hRight => next_good hGood hRight hLawful) hRight hGood hOps

/-- An object that reads before it saves keeps the setting that was stored. -/
theorem settings_always_read :
    Transition.Always next (Right [("a", .leaf (.long 1))])
      (start ((⟨"p", true, [("a", .leaf (.long 1))]⟩ : Settings).save fun _ => "") "p")
      [.get "a", .set "b" (.leaf (.boolean true)), .save, .get "a", .set "a" (.leaf .null), .save] := by
  have hPlain : DataItem.Plain (.object [("a", .leaf (.long 1))]) :=
    ⟨by simp [OrderedMap.Sorted], by simp⟩
  refine (settings_always_iff (stored_save (s := ⟨"p", true, _⟩) _ hPlain) hPlain ?_).mpr
    (Or.inr (by simp))
  exact ⟨trivial, DataItem.plain_leaf (by simp), trivial, trivial, DataItem.plain_leaf (by simp),
    trivial, trivial⟩

/-- An object that saves first stores an empty map. -/
theorem settings_save_first :
    ¬ Transition.Always next (Right [("a", .leaf (.long 1))])
      (start ((⟨"p", true, [("a", .leaf (.long 1))]⟩ : Settings).save fun _ => "") "p") [.save] := by
  intro h
  have hStored := right_save.mp h.2
  simp only [start] at hStored
  have hEmpty := stored_save (s := new "p")
    ((⟨"p", true, [("a", .leaf (.long 1))]⟩ : Settings).save fun _ => "") plain_nil
  rw [hEmpty] at hStored
  cases hStored

end Session

/-! ## Several objects of one project -/

/-- The objects of one project with the store. `pending` has the keys that an object has set
since it last saved, `saved` the value that a key was last set to and saved with. -/
structure Shared (ι : Type) where
  store : Context.Store
  objects : ι → Settings
  pending : ι → List String
  saved : String → Option Variant

namespace Shared

variable {ι : Type} [DecidableEq ι]

inductive Op (ι : Type) where
  | set (i : ι) (key : String) (value : Variant)
  | save (i : ι)

def next (s : Shared ι) : Op ι → Shared ι
  | .set i key value =>
    match (s.objects i).set s.store key value with
    | none => s
    | some settings =>
      { s with
        objects := Function.update s.objects i settings
        pending := Function.update s.pending i (key :: s.pending i) }
  | .save i =>
    { s with
      store := (s.objects i).save s.store
      pending := Function.update s.pending i []
      saved := fun k => if k ∈ s.pending i then (s.objects i).map.lookup k else s.saved k }

/-- Every value that was set and saved is stored, until another one is. -/
def Kept (projectKey : String) (s : Shared ι) : Prop :=
  ∀ k v, s.saved k = some v →
    ∃ map, stored s.store projectKey = some map ∧ map.lookup k = some v

/-- All objects are of the project and have loaded, and hold what they have set. -/
structure Loaded (projectKey : String) (s : Shared ι) : Prop where
  projectKey : ∀ i, (s.objects i).projectKey = projectKey
  init : ∀ i, (s.objects i).init = true
  plain : ∀ i, DataItem.Plain (.object (s.objects i).map)

def Lawful (_ : Shared ι) : Op ι → Prop
  | .set _ _ value => DataItem.Plain value
  | .save _ => True

/-- An object that saves has the saved value of every key, unless it has set the key anew. -/
def UpToDate (s : Shared ι) : Op ι → Prop
  | .set _ _ _ => True
  | .save i => ∀ k v, s.saved k = some v → k ∉ s.pending i → (s.objects i).map.lookup k = some v

theorem Loaded.next_set {projectKey : String} {s : Shared ι} (h : Loaded projectKey s) (i : ι)
    (key : String) (value : Variant) :
    s.next (.set i key value) = { s with
      objects := Function.update s.objects i
        { s.objects i with map := OrderedMap.insert key value (s.objects i).map }
      pending := Function.update s.pending i (key :: s.pending i) } := by
  rw [next, Settings.set, Settings.ensureLoaded, if_pos (h.init i)]
  rfl

theorem next_loaded {projectKey : String} {s : Shared ι} {op : Op ι} (h : Loaded projectKey s)
    (hLawful : s.Lawful op) : Loaded projectKey (s.next op) := by
  cases op with
  | set i key value =>
    rw [h.next_set]
    refine ⟨fun j => ?_, fun j => ?_, fun j => ?_⟩
    all_goals
      dsimp only
      rcases eq_or_ne j i with rfl | hj
    · rw [Function.update_self]
      exact h.projectKey j
    · rw [Function.update_of_ne hj]
      exact h.projectKey j
    · rw [Function.update_self]
      exact h.init j
    · rw [Function.update_of_ne hj]
      exact h.init j
    · rw [Function.update_self]
      exact plain_insert key (h.plain j) hLawful
    · rw [Function.update_of_ne hj]
      exact h.plain j
  | save i => exact ⟨h.projectKey, h.init, h.plain⟩

theorem next_kept_iff {projectKey : String} {s : Shared ι} {op : Op ι} (hKept : Kept projectKey s)
    (h : Loaded projectKey s) : Kept projectKey (s.next op) ↔ s.UpToDate op := by
  cases op with
  | set i key value =>
    rw [h.next_set]
    exact iff_of_true hKept trivial
  | save i =>
    have hStored : stored ((s.objects i).save s.store) projectKey = some (s.objects i).map := by
      rw [← h.projectKey i]
      exact stored_save _ (h.plain i)
    simp only [Kept, UpToDate, next, hStored, Option.some.injEq, exists_eq_left']
    refine forall₂_congr fun k v => ?_
    by_cases hPending : k ∈ s.pending i
    · simp [hPending]
    · simp [hPending]

/-- In every run of objects that have loaded, each value that was set and saved stays stored
exactly if no object saves an outdated value. -/
theorem saves_keep_iff {projectKey : String} {s : Shared ι} {ops : List (Op ι)}
    (hLoaded : Loaded projectKey s) (hSaved : ∀ k, s.saved k = none)
    (hOps : Transition.Each next Lawful s ops) :
    Transition.Always next (Kept projectKey) s ops ↔ Transition.Each next UpToDate s ops := by
  have hKept : Kept projectKey s := by
    intro k v h
    rw [hSaved k] at h
    cases h
  exact Transition.always_iff (I := Loaded projectKey)
    (fun s op hKept hLoaded _ => next_kept_iff hKept hLoaded)
    (fun s op _ hLoaded hLawful _ => next_loaded hLoaded hLawful) hKept hLoaded hOps

/-- Two objects that set the same key in turn. -/
theorem saves_keep_in_turn :
    Transition.Always next (Kept "p")
      (⟨fun _ => "", fun _ => ⟨"p", true, []⟩, fun _ => [], fun _ => none⟩ : Shared Bool)
      [.set true "a" (.leaf (.long 1)), .save true, .set false "a" (.leaf (.long 2)), .save false] := by
  refine (saves_keep_iff ⟨fun _ => rfl, fun _ => rfl, fun _ => plain_nil⟩ (fun _ => rfl) ?_).mpr ?_
  · exact ⟨DataItem.plain_leaf (by simp), trivial, DataItem.plain_leaf (by simp), trivial, trivial⟩
  · refine ⟨trivial, ?_, trivial, ?_, trivial⟩
    · intro k v h
      cases h
    · intro k v h hPending
      change (if k ∈ ["a"] then _ else none) = some v at h
      split at h
      · next hKey => exact absurd hKey hPending
      · cases h

/-- A save of an object that knows nothing of what another has saved. -/
theorem saves_lose :
    ¬ Transition.Always next (Kept "p")
      (⟨fun _ => "", fun _ => ⟨"p", true, []⟩, fun _ => [], fun _ => none⟩ : Shared Bool)
      [.set true "a" (.leaf (.long 1)), .save true, .save false] := by
  intro h
  have hKept : Kept "p" _ := h.2.2.2
  obtain ⟨map, hMap, hLookup⟩ := hKept "a" (.leaf (.long 1)) rfl
  have hEmpty := stored_save (s := ⟨"p", true, []⟩)
    ((⟨"p", true, [("a", .leaf (.long 1))]⟩ : Settings).save fun _ => "") plain_nil
  obtain rfl : map = [] := Option.some.inj (hMap.symm.trans hEmpty)
  cases hLookup

end Shared

end Settings

end RetroConfig
