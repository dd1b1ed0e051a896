import RetroConfig.Library.Transition
import RetroConfig.Models.KeyValue

/-!
# `Configs`: directories and restarts

`Configs` (`lib/configs.dart`) has three directories. An assignment stores the path with
`KeyValue.set`, and `Configs.setup` looks it up with `KeyValue.get` when the app starts. Both reach the
native store through `Base.s_call`, which answers null for a class that has not been registered, and
`SplashState._setup` (`lib/main.dart`) runs `Configs.setup` before `Glib.setup`, which registers the
classes.

`remembered_always_iff` says that a restart gives back exactly the directories that are the default
ones, whatever the native store does.
-/

namespace RetroConfig.Configs

/-- The classes that `Glib.setup` registers. -/
inductive Class where
  | base | platform | array | gMap | callback | gitRepository | gitAction | gitLibrary | project | bit64
  | context | dataItem | request | data | bufferData | error | keyValue | scriptContext
  | collectionData | libraryContext | settingItem | browser
  deriving DecidableEq

inductive Dir where
  | playlists
  | thumbnails
  | roms
  deriving DecidableEq

/-- `retroarch_playlists_key`, `retroarch_thumbnails_key`, `roms_root_key`. -/
def Dir.key : Dir → String
  | .playlists => "RetroArchPlaylists"
  | .thumbnails => "RetroArchThumbnails"
  | .roms => "RomsRoot"

def Dir.dirName : Dir → String
  | .playlists => "RetroArch/playlists"
  | .thumbnails => "RetroArch/thumbnails"
  | .roms => "ROMs"

/-- `language_key`. -/
def languageKey : String := "language"

/-- The native class `KeyValue`: a call reads or writes what is stored. -/
structure Native (σ : Type) where
  get : String → σ → σ × String
  set : String → String → σ → σ

/-- The calls of `KeyValue` on the database. -/
def Native.program : Native Program where
  get k p := match KeyValue.get k p with
    | .ok result => result
    | .error _ => (p, "")
  set k v p := match KeyValue.set k v p with
    | .ok q => q
    | .error _ => p

/-- A map, which the table behaves as. -/
def Native.map : Native (String → String) where
  get k m := (m, m k)
  set k v m := Function.update m k v

/-- What is stored, the directories that exist, and the statics of the isolate: `_classRef`,
`Glib._isStatic` and the fields of `Configs`. `last` has the directory that was assigned last,
`defaults` the path that `_defaultDirectory` had at hand when it was called last. -/
structure State (σ : Type) where
  store : σ
  exists' : String → Bool
  classRef : List Class
  isStatic : Bool
  field : Dir → Option String
  last : Dir → Option String
  defaults : Dir → String

variable {σ : Type} (kv : Native σ) (external : String)

/-- `"/storage/emulated/0"`, or the directory that the platform gives. -/
def root (exists' : String → Bool) : String :=
  if exists' "/storage/emulated/0" then "/storage/emulated/0" else external

def fallback (exists' : String → Bool) (d : Dir) : String := root external exists' ++ "/" ++ d.dirName

/-- `create(recursive: true)`: the directory and those above it. -/
def createRecursive (path : String) (exists' : String → Bool) : String → Bool :=
  fun d => exists' d || decide (d = path) || (d ++ "/").toList.isPrefixOf path.toList

/-- `if (!await directory.exists()) await directory.create(recursive: true)`. -/
def createIfMissing (path : String) (exists' : String → Bool) : String → Bool :=
  if exists' path then exists' else createRecursive path exists'

namespace State

/-- `Base.s_call`. -/
def sCall {α : Type} (s : State σ) (c : Class) (f : σ → σ × α) : State σ × Option α :=
  if c ∈ s.classRef then ({ s with store := (f s.store).1 }, some (f s.store).2) else (s, none)

/-- `KeyValue.get`. -/
def get (s : State σ) (key : String) : State σ × Option String := s.sCall .keyValue (kv.get key)

/-- `KeyValue.set`. -/
def set (s : State σ) (key value : String) : State σ :=
  (s.sCall .keyValue fun store => (kv.set key value store, ())).1

/-- `_defaultDirectory`. -/
def defaultDirectory (s : State σ) (d : Dir) : State σ × String :=
  let (s, path) := s.get kv d.key
  let default := fallback external s.exists' d
  ({ s with defaults := Function.update s.defaults d default },
    match path with
    | none => default
    | some path => if path = "" then default else if s.exists' path then path else default)

/-- A directory is looked up and its field set. -/
def load (s : State σ) (d : Dir) : State σ :=
  let (s, path) := s.defaultDirectory kv external d
  { s with field := Function.update s.field d (some path) }

/-- The directory of a field is made if it is missing. -/
def create (s : State σ) (d : Dir) : State σ :=
  match s.field d with
  | none => s
  | some path => { s with exists' := createIfMissing path s.exists' }

/-- `Configs.setup`, by whether the storage permission is granted. -/
def configsSetup (s : State σ) (granted : Bool) : State σ :=
  if granted then
    (((((s.load kv external .playlists).load kv external .thumbnails).create .playlists).load kv external
      .roms).create .roms)
  else s

/-- `Glib.setup`. -/
def glibSetup (s : State σ) : State σ :=
  if s.isStatic then s
  else
    { s with
      isStatic := true
      classRef := s.classRef ++ [.base, .platform, .array, .gMap, .callback, .gitRepository, .gitAction,
        .gitRepository, .gitLibrary, .project, .bit64, .context, .dataItem, .request, .data, .bufferData,
        .error, .keyValue, .scriptContext, .collectionData, .libraryContext, .settingItem, .browser] }

/-- `SplashState._setup`: what it does with the store and with directories. -/
def setup (s : State σ) (granted : Bool) : State σ :=
  ((s.configsSetup kv external granted).glibSetup.get kv languageKey).1

/-- The app starts in a new isolate. -/
def restart (s : State σ) (granted : Bool) : State σ :=
  { s with classRef := [], isStatic := false, field := fun _ => none }.setup kv external granted

/-- The setters. -/
def assign (s : State σ) (d : Dir) (path : String) : State σ :=
  if s.exists' path then
    { s with
      field := Function.update s.field d (some path)
      last := Function.update s.last d (some path) }.set kv d.key path
  else s

inductive Op where
  | assign (d : Dir) (path : String)
  | restart (granted : Bool)

def next (s : State σ) : Op → State σ
  | .assign d path => s.assign kv d path
  | .restart granted => s.restart kv external granted

/-- The app has been installed and starts for the first time. -/
def first (store : σ) (exists' : String → Bool) : State σ :=
  restart kv external ⟨store, exists', [], false, fun _ => none, fun _ => none, fun _ => ""⟩ true

/-! ## What is remembered -/

/-- Every directory is the last one that was assigned, or the default one. -/
def Remembered (s : State σ) : Prop := ∀ d, s.field d = some ((s.last d).getD (s.defaults d))

/-- The storage permission is granted. -/
def Granted (_ : State σ) : Op → Prop
  | .restart granted => granted = true
  | .assign .. => True

/-- The default directories of a restart. That of the roms is asked for after that of the playlists
was made. -/
def defaultAt (exists' : String → Bool) : Dir → String
  | .playlists => fallback external exists' .playlists
  | .thumbnails => fallback external exists' .thumbnails
  | .roms => fallback external (createIfMissing (fallback external exists' .playlists) exists') .roms

/-- A restart finds only default directories assigned. -/
def Kept (s : State σ) : Op → Prop
  | .restart _ => ∀ d path, s.last d = some path → path = defaultAt external s.exists' d
  | .assign .. => True

variable {s : State σ}

/-- Before `Glib.setup` the store is not asked. -/
theorem sCall_unregistered {α : Type} (h : s.classRef = []) (c : Class) (f : σ → σ × α) :
    s.sCall c f = (s, none) := by
  rw [sCall, h, if_neg List.not_mem_nil]

theorem load_unregistered (h : s.classRef = []) (d : Dir) :
    s.load kv external d = { s with
      field := Function.update s.field d (some (fallback external s.exists' d))
      defaults := Function.update s.defaults d (fallback external s.exists' d) } := by
  unfold load defaultDirectory get
  rw [sCall_unregistered h]

theorem glibSetup_frame (s : State σ) : s.glibSetup.field = s.field ∧ s.glibSetup.last = s.last ∧
    s.glibSetup.defaults = s.defaults := by
  unfold glibSetup
  split <;> exact ⟨rfl, rfl, rfl⟩

theorem sCall_frame {α : Type} (s : State σ) (c : Class) (f : σ → σ × α) :
    (s.sCall c f).1.field = s.field ∧ (s.sCall c f).1.last = s.last ∧
      (s.sCall c f).1.defaults = s.defaults := by
  unfold sCall
  split <;> exact ⟨rfl, rfl, rfl⟩

theorem create_frame (s : State σ) (d : Dir) : (s.create d).field = s.field ∧ (s.create d).last = s.last ∧
    (s.create d).defaults = s.defaults := by
  unfold create
  split <;> exact ⟨rfl, rfl, rfl⟩

theorem create_eq (d : Dir) (path : String) (h : s.field d = some path) :
    s.create d = { s with exists' := createIfMissing path s.exists' } := by
  rw [create, h]

/-- Before `Glib.setup`, `Configs.setup` finds the default directories. -/
theorem configsSetup_field (h : s.classRef = []) (d : Dir) :
    (s.configsSetup kv external true).field d = some (defaultAt external s.exists' d) ∧
      (s.configsSetup kv external true).defaults d = defaultAt external s.exists' d ∧
        (s.configsSetup kv external true).last = s.last := by
  have hLoad : ∀ (t : State σ) (d : Dir), t.classRef = [] → t.load kv external d = _ :=
    fun _ d ht => load_unregistered kv external ht d
  rw [configsSetup, if_pos rfl, (create_frame _ _).1, (create_frame _ _).2.1, (create_frame _ _).2.2,
    hLoad _ .playlists h, hLoad _ .thumbnails, create_eq .playlists
    (fallback external s.exists' .playlists) rfl, hLoad _ .roms]
  · cases d <;> exact ⟨rfl, rfl, rfl⟩
  · exact h
  · exact h

/-- A restart finds the default directories, and no others. -/
theorem restart_field (s : State σ) (d : Dir) :
    (s.restart kv external true).field d = some (defaultAt external s.exists' d) ∧
      (s.restart kv external true).defaults d = defaultAt external s.exists' d ∧
        (s.restart kv external true).last = s.last := by
  unfold restart setup get
  obtain ⟨hField, hDefaults, hLast⟩ := sCall_frame (State.glibSetup (State.configsSetup kv external
    { s with classRef := [], isStatic := false, field := fun _ => none } true)) .keyValue
    (kv.get languageKey)
  obtain ⟨hField', hDefaults', hLast'⟩ := glibSetup_frame (State.configsSetup kv external
    { s with classRef := [], isStatic := false, field := fun _ => none } true)
  rw [hField, hDefaults, hLast, hField', hDefaults', hLast']
  exact configsSetup_field kv external rfl d

/-- A setter sets the field to the directory that it remembers, whether it is stored or not. -/
theorem assign_remembered (h : Remembered s) (d : Dir) (path : String) :
    Remembered (s.assign kv d path) := by
  unfold assign
  split
  · intro other
    obtain ⟨hField, hLast, hDefaults⟩ := sCall_frame { s with
      field := Function.update s.field d (some path)
      last := Function.update s.last d (some path) } .keyValue
      (fun store => (kv.set d.key path store, ()))
    rw [set, hField, hLast, hDefaults]
    dsimp only
    by_cases hSame : other = d
    · rw [hSame, Function.update_self, Function.update_self]
      rfl
    · rw [Function.update_of_ne hSame, Function.update_of_ne hSame]
      exact h other
  · exact h

theorem restart_remembered_iff (s : State σ) : Remembered (s.restart kv external true) ↔
    ∀ d path, s.last d = some path → path = defaultAt external s.exists' d := by
  constructor
  · intro h d path hLast
    obtain ⟨hField, -, hLast'⟩ := restart_field kv external s d
    have hEq := h d
    rw [hField, hLast', hLast] at hEq
    exact (Option.some.inj hEq).symm
  · intro h d
    obtain ⟨hField, hDefaults, hLast⟩ := restart_field kv external s d
    rw [hField, hDefaults, hLast]
    cases hPath : s.last d with
    | none => rfl
    | some path => exact congrArg some (h d path hPath).symm

theorem first_remembered (store : σ) (exists' : String → Bool) :
    Remembered (first kv external store exists') :=
  (restart_remembered_iff kv external _).mpr fun _ _ => nofun

/-- Over every sequence of assignments and restarts, in every state: every directory is the last one
assigned, or the default one, exactly if no restart comes after an assignment of another directory
than the default one. -/
theorem remembered_always_iff (store : σ) (exists' : String → Bool) (ops : List Op)
    (hGranted : Transition.Each (next kv external) Granted (first kv external store exists') ops) :
    Transition.Always (next kv external) Remembered (first kv external store exists') ops ↔
      Transition.Each (next kv external) (Kept external) (first kv external store exists') ops := by
  refine Transition.always_iff (I := fun _ => True) (fun s op h _ hGranted => ?_)
    (fun _ _ _ _ _ _ => trivial) (first_remembered kv external store exists') trivial hGranted
  cases op with
  | assign d path => exact iff_of_true (assign_remembered kv h d path) trivial
  | restart granted =>
    obtain rfl : granted = true := hGranted
    exact restart_remembered_iff kv external s

/-- The directory of the playlists is assigned again, and the app restarted. -/
theorem remembered_default : Transition.Always (next .map "/ext") Remembered
    (first .map "/ext" (fun _ => "") fun _ => false)
    [.assign .playlists "/ext/RetroArch/playlists", .restart true] := by
  refine (remembered_always_iff .map "/ext" _ _ _ ?_).mpr ?_
  · exact ⟨trivial, rfl, trivial⟩
  refine ⟨trivial, fun d path hLast => ?_, trivial⟩
  cases d with
  | playlists =>
    have hPath : some "/ext/RetroArch/playlists" = some path := hLast
    obtain rfl := Option.some.inj hPath
    decide
  | thumbnails => cases hLast
  | roms => cases hLast

/-- The directory of the roms is `/games`, until the app is restarted. -/
theorem forgotten : ¬ Transition.Always (next .map "/ext") Remembered
    (first .map "/ext" (fun _ => "") (· = "/games")) [.assign .roms "/games", .restart true] := by
  intro h
  have hRoms := h.2.2 .roms
  revert hRoms
  decide

end State

end RetroConfig.Configs
