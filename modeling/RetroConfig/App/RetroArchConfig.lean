import RetroConfig.Library.Tree

/-!
# `RetroArchConfig`: the playlists of RetroArch

`RetroArchConfig.install` (`lib/utils/retroarch_config.dart`) puts a rom at the head of the playlist
of its type, which is a JSON file of RetroArch, and stores three thumbnails for it. It reads the
playlist, hashes the rom, writes the whole playlist anew, and then fetches and stores the images.

* The new playlist has the entries of the old one, but none of its other fields:
  `install_updates_iff`.
* An image that cannot be fetched or stored ends the installation with an exception after the
  playlist has been written: `install_atomic_iff`.

The texts of files are an arbitrary type, with `jsonEncode` and `jsonDecode` of `dart:convert` as a
codec between them and the JSON values of Dart, whose floating-point numbers are an arbitrary type
as well. The names of the thumbnails and the contents of the images are left out.
-/

namespace RetroConfig.RetroArchConfig

variable {δ τ : Type}

/-- A JSON value of Dart that is neither a list nor a map. -/
inductive Scalar (δ : Type) where
  | null
  | boolean (b : Bool)
  | int (n : Int64)
  | double (d : δ)
  | string (s : String)

/-- A JSON value of Dart; a map has its members in the order in which they were added. -/
abbrev Value (δ : Type) := ValueTree (Scalar δ)

/-- An entry of a playlist. -/
abbrev Entry (δ : Type) := List (String × Value δ)

/-- `dart:convert`: a map has no key twice, and `jsonDecode` gives back what `jsonEncode` was
given. -/
structure JsonCodec (δ τ : Type) where
  encode : Value δ → τ
  decode : τ → Option (Value δ)
  decode_distinct : ∀ text value, decode text = some value → value.Distinct
  decode_encode : ∀ value, value.Distinct → decode (encode value) = some value

/-- The arguments of `install` that the playlist depends on: the path of `romFile`, `name`, and
`type`. -/
structure Call where
  path : String
  name : String
  type : String

def Call.dbName (call : Call) : String := call.type ++ ".lpl"

def string (s : String) : Value δ := .leaf (.string s)

/-- An object among the items. `configs.add` takes nothing else but null, of which `removeWhere` then
cannot ask the path: no other items come to be written. -/
def entry : Value δ → Option (Entry δ)
  | .object members => some members
  | _ => none

/-- The loop over `data["items"]`. -/
def items : Value δ → Option (List (Entry δ))
  | .object members =>
    match members.lookup "items" with
    | some (.array elements) => elements.mapM entry
    | _ => none
  | _ => none

/-- The configs that are read from the file, if there is one. -/
def load (json : JsonCodec δ τ) : Option τ → Option (List (Entry δ))
  | none => some []
  | some text => (json.decode text).bind items

/-- `element["path"] == romFile.path`. -/
def hasPath (path : String) (element : Entry δ) : Bool :=
  match element.lookup "path" with
  | some (.leaf (.string s)) => s == path
  | _ => false

/-- The entry of a rom. -/
def Call.entry (call : Call) : Entry δ :=
  [("path", string call.path), ("label", string call.name), ("core_path", string "DETECT"),
    ("core_name", string "DETECT"), ("crc32", string "DETECT"), ("db_name", string call.dbName)]

/-- `removeWhere` and `insert`. -/
def update (call : Call) (configs : List (Entry δ)) : List (Entry δ) :=
  call.entry :: configs.filter fun element => !hasPath call.path element

/-- What is written to the file. -/
def playlist (configs : List (Entry δ)) : Value δ :=
  .object [("version", string "1.0"), ("items", .array (configs.map .object))]

/-! ## One installation -/

/-- What `getImage` and `decodeImage` make of an address. -/
inductive Fetch where
  | image
  | undecodable
  /-- A timeout, or another exception of `getImage`. -/
  | failed
  deriving DecidableEq

/-- What the rest of the world answers: whether the directory of the playlists can be made, whether
the rom can be read, what is fetched for the cover and for each of `images`, and whether the
thumbnails can be written and their directories made. -/
structure Outcomes where
  directory : Bool
  rom : Bool
  cover : Fetch
  images : List Fetch
  titlesDir : Bool
  titles : Bool
  boxartsDir : Bool
  boxarts : Bool
  snapsDir : Bool
  snaps : Bool

/-- Where an exception comes from. -/
inductive Failure where
  | directory
  | playlist
  | rom
  | image
  | thumbnail
  deriving DecidableEq

/-- An image that is fetched and decoded. -/
def fetch : Fetch → Except Failure Unit
  | .image => .ok ()
  | .undecodable => .error .image
  | .failed => .error .image

/-- `_thumbnailsDir`. -/
def thumbnailsDir (made : Bool) : Except Failure Unit :=
  if made then .ok () else .error .thumbnail

/-- `writeAsBytes` of a thumbnail. -/
def store (written : Bool) : Except Failure Unit :=
  if written then .ok () else .error .thumbnail

/-- The first of several images that can be fetched, or else the cover, which has been decoded
before. -/
def firstImage (images : List Fetch) : Fetch :=
  (images.find? fun src => src ≠ .failed).getD .image

/-- `install` after the playlist has been written. -/
def thumbnails (o : Outcomes) : Except Failure Unit := do
  thumbnailsDir o.titlesDir
  fetch o.cover
  store o.titles
  thumbnailsDir o.boxartsDir
  store o.boxarts
  thumbnailsDir o.snapsDir
  match o.images with
  | [] => store o.snaps
  | [src] =>
    fetch src
    store o.snaps
  | images =>
    fetch (firstImage images)
    store o.snaps

/-- `install`: the file of the playlist after it, and whether it throws. -/
def install (json : JsonCodec δ τ) (o : Outcomes) (call : Call) (file : Option τ) :
    Option τ × Except Failure Unit :=
  if !o.directory then (file, .error .directory)
  else
    match load json file with
    | none => (file, .error .playlist)
    | some configs =>
      if !o.rom then (file, .error .rom)
      else (some (json.encode (playlist (update call configs))), thumbnails o)

/-! ## Playlists -/

theorem mapM_entry_iff {elements : List (Value δ)} {configs : List (Entry δ)} :
    elements.mapM entry = some configs ↔ elements = configs.map .object := by
  induction elements generalizing configs with
  | nil =>
    rw [List.mapM_nil]
    cases configs <;> simp
  | cons element elements ih =>
    rw [List.mapM_cons]
    cases element with
    | leaf a => cases configs <;> simp [entry]
    | array ts => cases configs <;> simp [entry]
    | object members =>
      rw [entry, Option.bind_eq_bind, Option.bind_some]
      cases hRest : elements.mapM entry with
      | none =>
        cases configs with
        | nil => simp
        | cons config configs => simp [← ih, hRest]
      | some rest =>
        cases configs with
        | nil => simp
        | cons config configs => simp [← ih, hRest]

theorem items_playlist (configs : List (Entry δ)) : items (playlist configs) = some configs :=
  mapM_entry_iff.mpr rfl

theorem items_distinct {value : Value δ} {configs : List (Entry δ)} (h : items value = some configs)
    (hDistinct : value.Distinct) : ∀ config ∈ configs, (ValueTree.object config).Distinct := by
  cases value with
  | leaf a => cases h
  | array ts => cases h
  | object members =>
    rw [items] at h
    split at h
    · next elements hItems =>
      have hElements := (ValueTree.distinct_object.mp hDistinct).2 _ (OrderedMap.mem_of_lookup hItems)
      intro config hConfig
      apply ValueTree.distinct_array.mp hElements
      rw [mapM_entry_iff.mp h]
      exact List.mem_map_of_mem hConfig
    · cases h

theorem distinct_playlist {configs : List (Entry δ)}
    (h : ∀ config ∈ configs, (ValueTree.object config).Distinct) : (playlist configs).Distinct := by
  refine ValueTree.distinct_object.mpr ⟨?_, ?_⟩
  · change ["version", "items"].Nodup
    decide
  intro m hm
  rcases List.mem_cons.mp hm with rfl | hm
  · exact ValueTree.distinct_leaf
  · rw [List.mem_singleton.mp hm, ValueTree.distinct_array]
    intro element hElement
    obtain ⟨config, hConfig, rfl⟩ := List.mem_map.mp hElement
    exact h config hConfig

theorem distinct_entry (call : Call) : (ValueTree.object (call.entry : Entry δ)).Distinct := by
  refine ValueTree.distinct_object.mpr ⟨?_, ?_⟩
  · change ["path", "label", "core_path", "core_name", "crc32", "db_name"].Nodup
    decide
  · simp [Call.entry, string]

theorem update_distinct {configs : List (Entry δ)} (call : Call)
    (h : ∀ config ∈ configs, (ValueTree.object config).Distinct) :
    ∀ config ∈ update call configs, (ValueTree.object config).Distinct := by
  intro config hConfig
  rcases List.mem_cons.mp hConfig with rfl | hOld
  · exact distinct_entry call
  · exact h config (List.mem_of_mem_filter hOld)

/-- What is written is read back. -/
theorem load_playlist (json : JsonCodec δ τ) {configs : List (Entry δ)}
    (h : ∀ config ∈ configs, (ValueTree.object config).Distinct) :
    load json (some (json.encode (playlist configs))) = some configs := by
  rw [load, json.decode_encode _ (distinct_playlist h), Option.bind_some, items_playlist]

theorem load_distinct (json : JsonCodec δ τ) {file : Option τ} {configs : List (Entry δ)}
    (h : load json file = some configs) : ∀ config ∈ configs, (ValueTree.object config).Distinct := by
  cases file with
  | none =>
    cases h
    intro config hConfig
    cases hConfig
  | some text =>
    obtain ⟨value, hValue, hItems⟩ := Option.bind_eq_some_iff.mp h
    exact items_distinct hItems (json.decode_distinct text value hValue)

theorem hasPath_entry (call : Call) (path : String) :
    hasPath path (call.entry : Entry δ) = (call.path == path) := rfl

theorem update_update (call : Call) (configs : List (Entry δ)) :
    update call (update call configs) = update call configs := by
  rw [update, update, List.filter_cons_of_neg (by simp [hasPath_entry]), List.filter_filter]
  simp only [Bool.and_self]

/-- A playlist that is written has the entry of a rom with another path exactly if what was read
has it. -/
theorem mem_update_iff {call other : Call} {configs : List (Entry δ)}
    (hPath : other.path ≠ call.path) : other.entry ∈ update call configs ↔ other.entry ∈ configs := by
  have hOther : hasPath call.path (other.entry : Entry δ) = false := by
    rw [hasPath_entry]
    exact beq_eq_false_iff_ne.mpr hPath
  have hNe : (other.entry : Entry δ) ≠ call.entry := by
    intro hEq
    rw [hEq, hasPath_entry, beq_self_eq_true] at hOther
    cases hOther
  rw [update, List.mem_cons, or_iff_right hNe, List.mem_filter, hOther]
  simp

theorem mem_update_of_mem (call : Call) {configs : List (Entry δ)} {old : Entry δ}
    (h : old ∈ configs) : old ∈ update call configs ∨ hasPath call.path old = true := by
  cases hPath : hasPath call.path old with
  | false => exact Or.inl (List.mem_cons_of_mem _ (List.mem_filter.mpr ⟨h, by simp [hPath]⟩))
  | true => exact Or.inr rfl

theorem install_writes (json : JsonCodec δ τ) {o : Outcomes} (call : Call) {file : Option τ}
    {configs : List (Entry δ)} (hDirectory : o.directory = true) (hRom : o.rom = true)
    (hLoad : load json file = some configs) :
    install json o call file =
      (some (json.encode (playlist (update call configs))), thumbnails o) := by
  simp only [install, hDirectory, hRom, hLoad, Bool.not_true, Bool.false_eq_true, if_false]

/-- A field of a playlist. -/
def field (key : String) : Value δ → Option (Value δ)
  | .object members => members.lookup key
  | _ => none

/-- What an installation is to make of a playlist: the entry of the rom at the head, then all entries
of other roms, and the same fields. -/
structure Updated (call : Call) (old new : Value δ) : Prop where
  items : ∃ olds head, items old = some olds ∧ hasPath call.path head = true ∧
    items new = some (head :: olds.filter fun element => !hasPath call.path element)
  fields : ∀ key, key ≠ "items" → key ≠ "version" → field key new = field key old

/-- An installation updates the playlist, and the same installation again does not change it,
exactly if the playlist has no field besides its items and its version. -/
theorem install_updates_iff (json : JsonCodec δ τ) {o : Outcomes} (call : Call) {text : τ}
    {old : Value δ} {olds : List (Entry δ)} (hDirectory : o.directory = true) (hRom : o.rom = true)
    (hText : json.decode text = some old) (hItems : items old = some olds) :
    (∃ text' new, (install json o call (some text)).1 = some text' ∧ json.decode text' = some new ∧
        Updated call old new ∧ (install json o call (some text')).1 = some text') ↔
      ∀ key, field key old ≠ none → key = "items" ∨ key = "version" := by
  have hLoad : load json (some text) = some olds := by
    rw [load, hText, Option.bind_some, hItems]
  have hOlds := update_distinct call (load_distinct json hLoad)
  have hFirst := install_writes json call hDirectory hRom hLoad
  have hDecode := json.decode_encode _ (distinct_playlist hOlds)
  have hAgain := install_writes json call hDirectory hRom (load_playlist json hOlds)
  rw [update_update] at hAgain
  have hNew : ∀ key, key ≠ "items" → key ≠ "version" →
      field key (playlist (update call olds)) = none := by
    intro key hKey hVersion
    simp [field, playlist, List.lookup_cons, beq_eq_false_iff_ne.mpr hKey,
      beq_eq_false_iff_ne.mpr hVersion]
  constructor
  · rintro ⟨text', new, hText', hNew', hUpdated, -⟩ key hField
    rw [hFirst] at hText'
    obtain rfl := Option.some.inj hText'
    obtain rfl := Option.some.inj (hDecode.symm.trans hNew')
    by_contra hOther
    obtain ⟨hKey, hVersion⟩ := not_or.mp hOther
    exact hField ((hUpdated.fields key hKey hVersion).symm.trans (hNew key hKey hVersion))
  · intro hFields
    refine ⟨_, _, congrArg Prod.fst hFirst, hDecode, ⟨?_, ?_⟩, congrArg Prod.fst hAgain⟩
    · exact ⟨olds, call.entry, hItems, by simp [hasPath_entry], items_playlist _⟩
    · intro key hKey hVersion
      rw [hNew key hKey hVersion]
      by_contra hField
      rcases hFields key (Ne.symm hField) with rfl | rfl
      · exact hKey rfl
      · exact hVersion rfl

/-- The codec of a world in which files hold values. -/
noncomputable def valueCodec : JsonCodec δ (Value δ) where
  encode := id
  decode value := open Classical in if value.Distinct then some value else none
  decode_distinct := by
    intro text value h
    split at h
    · next hDistinct =>
      cases h
      exact hDistinct
    · cases h
  decode_encode value hDistinct := if_pos hDistinct

/-- Everything succeeds, and there are no screenshots. -/
def allSucceed : Outcomes where
  directory := true
  rom := true
  cover := .image
  images := []
  titlesDir := true
  titles := true
  boxartsDir := true
  boxarts := true
  snapsDir := true
  snaps := true

def mario : Call := ⟨"/roms/mario.zip", "Mario", "NES"⟩

def zelda : Call := ⟨"/roms/zelda.zip", "Zelda", "NES"⟩

/-- A rom is installed twice. -/
theorem install_updates_empty :
    ∃ text' new, (install valueCodec allSucceed mario (some (playlist []))).1 = some text' ∧
      valueCodec.decode text' = some new ∧ Updated mario (playlist ([] : List (Entry Unit))) new ∧
      (install valueCodec allSucceed mario (some text')).1 = some text' := by
  have hDistinct : (playlist ([] : List (Entry Unit))).Distinct := distinct_playlist (by simp)
  refine (install_updates_iff valueCodec mario rfl rfl (valueCodec.decode_encode _ hDistinct)
    (items_playlist [])).mpr ?_
  intro key hKey
  by_contra hOther
  obtain ⟨hItems, hVersion⟩ := not_or.mp hOther
  apply hKey
  simp [field, playlist, List.lookup_cons, beq_eq_false_iff_ne.mpr hItems,
    beq_eq_false_iff_ne.mpr hVersion]

/-- A playlist for which RetroArch has a default core. -/
def coreful : Value Unit :=
  .object [("version", string "1.4"), ("default_core_path", string "/cores/nestopia.so"),
    ("items", .array [])]

/-- The default core is forgotten. -/
theorem install_drops_field :
    valueCodec.decode coreful = some coreful ∧
      (install valueCodec allSucceed mario (some coreful)).1 = some (playlist [mario.entry]) ∧
      ¬ Updated mario coreful (playlist [mario.entry]) := by
  have hDistinct : coreful.Distinct := by
    refine ValueTree.distinct_object.mpr ⟨?_, ?_⟩
    · change ["version", "default_core_path", "items"].Nodup
      decide
    · simp [string]
  have hDecode : valueCodec.decode coreful = some coreful := valueCodec.decode_encode _ hDistinct
  have hLoad : load valueCodec (some coreful) = some [] := by
    rw [load, hDecode]
    rfl
  refine ⟨hDecode, ?_, ?_⟩
  · rw [install_writes valueCodec mario rfl rfl hLoad]
    rfl
  · intro hUpdated
    have hField := hUpdated.fields "default_core_path" (by decide) (by decide)
    cases hField

/-! ## All or nothing -/

/-- The thumbnails can be made: the cover and the screenshot that is used are images, and all files
can be written. -/
structure Stored (o : Outcomes) : Prop where
  cover : o.cover = .image
  screenshot : ∀ src, o.images = [src] → src = .image
  screenshots : o.images.length > 1 → ∀ src, o.images.find? (fun src => src ≠ .failed) = some src →
    src = .image
  directories : o.titlesDir = true ∧ o.boxartsDir = true ∧ o.snapsDir = true
  files : o.titles = true ∧ o.boxarts = true ∧ o.snaps = true

theorem fetch_ok_iff {src : Fetch} : fetch src = .ok () ↔ src = .image := by
  cases src <;> simp [fetch]

theorem thumbnailsDir_ok_iff {made : Bool} : thumbnailsDir made = .ok () ↔ made = true := by
  cases made <;> simp [thumbnailsDir]

theorem store_ok_iff {written : Bool} : store written = .ok () ↔ written = true := by
  cases written <;> simp [store]

theorem firstImage_eq_image_iff {images : List Fetch} :
    firstImage images = .image ↔
      ∀ src, images.find? (fun src => src ≠ .failed) = some src → src = .image := by
  rw [firstImage]
  cases images.find? fun src => src ≠ .failed <;> simp

theorem seq_ok_iff {ε : Type} {a b : Except ε Unit} :
    (a >>= fun _ => b) = .ok () ↔ a = .ok () ∧ b = .ok () := by
  cases a with
  | error e => simp [bind, Except.bind]
  | ok u => simp [bind, Except.bind]

theorem thumbnails_ok_iff (o : Outcomes) : thumbnails o = .ok () ↔ Stored o := by
  have hSnaps : thumbnails o = .ok () ↔
      o.titlesDir = true ∧ o.cover = .image ∧ o.titles = true ∧ o.boxartsDir = true ∧
        o.boxarts = true ∧ o.snapsDir = true ∧
        (∀ src, o.images = [src] → src = .image) ∧
        (o.images.length > 1 → firstImage o.images = .image) ∧ o.snaps = true := by
    rw [thumbnails]
    simp only [seq_ok_iff, thumbnailsDir_ok_iff, fetch_ok_iff, store_ok_iff]
    cases o.images with
    | nil => simp [store_ok_iff]
    | cons src images =>
      cases images with
      | nil => simp [seq_ok_iff, fetch_ok_iff, store_ok_iff]
      | cons src' images => simp [seq_ok_iff, fetch_ok_iff, store_ok_iff]
  rw [hSnaps, firstImage_eq_image_iff]
  constructor
  · rintro ⟨hTitlesDir, hCover, hTitles, hBoxartsDir, hBoxarts, hSnapsDir, hOne, hMany, hSnap⟩
    exact ⟨hCover, hOne, hMany, ⟨hTitlesDir, hBoxartsDir, hSnapsDir⟩, ⟨hTitles, hBoxarts, hSnap⟩⟩
  · rintro ⟨hCover, hOne, hMany, ⟨hTitlesDir, hBoxartsDir, hSnapsDir⟩, ⟨hTitles, hBoxarts, hSnap⟩⟩
    exact ⟨hTitlesDir, hCover, hTitles, hBoxartsDir, hBoxarts, hSnapsDir, hOne, hMany, hSnap⟩

/-- An installation that throws leaves the playlist as it was exactly if it throws before the playlist
is written or not at all, or if the playlist was what is written. -/
theorem install_atomic_iff (json : JsonCodec δ τ) (o : Outcomes) (call : Call) (file : Option τ) :
    (∀ e, (install json o call file).2 = .error e → (install json o call file).1 = file) ↔
      o.directory = false ∨ o.rom = false ∨ load json file = none ∨ Stored o ∨
        ∃ configs, load json file = some configs ∧
          file = some (json.encode (playlist (update call configs))) := by
  cases hDirectory : o.directory with
  | false => simp [install, hDirectory]
  | true =>
    cases hLoad : load json file with
    | none => simp [install, hDirectory, hLoad]
    | some configs =>
      cases hRom : o.rom with
      | false => simp [install, hDirectory, hLoad, hRom]
      | true =>
        rw [install_writes json call hDirectory hRom hLoad, ← thumbnails_ok_iff]
        cases thumbnails o with
        | ok u => simp
        | error e => simp [eq_comm]

/-- The cover cannot be fetched, and the playlist has the rom all the same. -/
theorem install_not_atomic :
    install valueCodec { allSucceed with cover := .failed } mario (none : Option (Value Unit)) =
        (some (playlist [mario.entry]), .error .image) ∧
      some (playlist [mario.entry]) ≠ (none : Option (Value Unit)) := by
  refine ⟨?_, by simp⟩
  have hLoad : load valueCodec (none : Option (Value Unit)) = some [] := rfl
  rw [install_writes valueCodec mario rfl rfl hLoad]
  rfl

end RetroConfig.RetroArchConfig
