import RetroConfig.App.RetroArchConfig

/-!
# `RetroArchConfig`: the thumbnails of a rom

The second half of `RetroArchConfig.install` (`lib/utils/retroarch_config.dart`), now with the images:
what is fetched, which file it is written to, and what the files hold. The cover becomes the thumbnails
`Named_Titles` and `Named_Boxarts`. For `Named_Snaps` there are three branches: the cover if there are
no images, the first image that can be fetched or else the cover if there are several, and a single
image without that fallback.

`storeImages_outcome` connects this with `thumbnails`, which has no images. `install_snapshot_iff` says
when the installation makes a snapshot of the first image that can be fetched, or else of the cover.
-/

namespace RetroConfig.RetroArchConfig

variable {ρ ι : Type}

/-- What is used of the packages `image` and `path`. The contents of files are an arbitrary type, and
so are images; an image can be encoded, and `decodeImage` gives null for anything else. -/
structure Packages (ρ ι : Type) where
  decodeImage : ρ → Option ι
  encodeImage : ι → ρ
  basenameWithoutExtension : String → String

/-- What the rest of the world answers: what each call of `getImage` gives for an address, the first one
having the number 0, which directories can be made and which files can be written. A call that fails or
takes too long gives nothing. -/
structure World (ρ : Type) where
  getImage : Nat → String → Option ρ
  makeDir : String → Bool
  writeFile : String → Bool

/-- The number of calls of `getImage` so far, and the files under the directory of the thumbnails. -/
structure Device (ρ : Type) where
  calls : Nat
  files : String → Option ρ

/-- The arguments of `install`. -/
structure ImageCall extends Call where
  cover : String
  images : List String

/-- A piece of `install`. -/
abbrev Install (ρ α : Type) := EStateM Failure (Device ρ) α

/-! ## The code -/

/-- `RetroArchConfig.getImage` -/
def getImage (w : World ρ) (src : String) : Install ρ ρ := fun d =>
  match w.getImage d.calls src with
  | some file => .ok file { d with calls := d.calls + 1 }
  | none => .error .image { d with calls := d.calls + 1 }

/-- `PngEncoder().encodeImage(decodeImage(await file.readAsBytes()))` -/
def png (p : Packages ρ ι) (file : ρ) : Install ρ ρ := fun d =>
  match p.decodeImage file with
  | some image => .ok (p.encodeImage image) d
  | none => .error .image d

/-- `_thumbnailsDir` -/
def makeThumbnailsDir (w : World ρ) (type name : String) : Install ρ String := fun d =>
  let dir := type ++ "/" ++ name
  if w.makeDir dir then .ok dir d else .error .thumbnail d

/-- `writeAsBytes` -/
def writeAsBytes (w : World ρ) (path : String) (bytes : ρ) : Install ρ Unit := fun d =>
  if w.writeFile path then .ok () { d with files := Function.update d.files path (some bytes) }
  else .error .thumbnail d

/-- The loop over several images. -/
def firstFile (w : World ρ) : List String → Install ρ (Option ρ)
  | [] => pure none
  | src :: images => fun d =>
    match getImage w src d with
    | .ok file d => .ok (some file) d
    | .error _ d => firstFile w images d

/-- `name.replaceAll(RegExp("[&*/:`<>?\\|]"), "_")` -/
def transformedName (name : String) : String :=
  name.map fun c => if c ∈ ['&', '*', '/', ':', '\x60', '<', '>', '?', '|'] then '_' else c

/-- The file of a thumbnail. -/
def thumbnailPath (dir name : String) : String := dir ++ "/" ++ transformedName name ++ ".png"

/-- `install` from the cover to the directory of the snapshots, with that directory, the file of the
cover and its thumbnail. -/
def storeCover (p : Packages ρ ι) (w : World ρ) (call : ImageCall) : Install ρ (String × ρ × ρ) := do
  let typeName := p.basenameWithoutExtension call.dbName
  let dir ← makeThumbnailsDir w typeName "Named_Titles"
  let file ← getImage w call.cover
  let imageBuffer ← png p file
  writeAsBytes w (thumbnailPath dir call.name) imageBuffer
  let dir ← makeThumbnailsDir w typeName "Named_Boxarts"
  writeAsBytes w (thumbnailPath dir call.name) imageBuffer
  let dir ← makeThumbnailsDir w typeName "Named_Snaps"
  pure (dir, file, imageBuffer)

/-- The snapshot. -/
def storeSnapshot (p : Packages ρ ι) (w : World ρ) (path : String) (file imageBuffer : ρ) :
    List String → Install ρ Unit
  | [] => writeAsBytes w path imageBuffer
  | [src] => do
    let file ← getImage w src
    let imageBuffer ← png p file
    writeAsBytes w path imageBuffer
  | images => do
    let imageFile ← firstFile w images
    let imageBuffer ← png p (imageFile.getD file)
    writeAsBytes w path imageBuffer

/-- `install` after the playlist has been written. -/
def storeImages (p : Packages ρ ι) (w : World ρ) (call : ImageCall) : Install ρ Unit := do
  let (dir, file, imageBuffer) ← storeCover p w call
  storeSnapshot p w (thumbnailPath dir call.name) file imageBuffer call.images

variable {δ τ : Type}

/-- `install`, with the playlist and the thumbnails. `directory` and `rom` say whether the directory of
the playlists can be made and the rom can be read. -/
def installImages (json : JsonCodec δ τ) (p : Packages ρ ι) (w : World ρ) (directory rom : Bool)
    (call : ImageCall) (file : Option τ) (d : Device ρ) :
    Option τ × EStateM.Result Failure (Device ρ) Unit :=
  if !directory then (file, .error .directory d)
  else
    match load json file with
    | none => (file, .error .playlist d)
    | some configs =>
      if !rom then (file, .error .rom d)
      else (some (json.encode (playlist (update call.toCall configs))), storeImages p w call d)

/-! ## Fetches -/

section Fetches

variable {α β : Type} {x : Install ρ α} {f : α → Install ρ β} {d d' : Device ρ}

theorem bind_ok {a : α} (h : x d = .ok a d') : (x >>= f) d = f a d' := by
  change EStateM.bind x f d = _
  rw [EStateM.bind, h]

theorem bind_error {e : Failure} (h : x d = .error e d') : (x >>= f) d = .error e d' := by
  change EStateM.bind x f d = _
  rw [EStateM.bind, h]

/-- The files that are fetched for the addresses, from the call of the number on. -/
def fetchedFrom (w : World ρ) : Nat → List String → List (Option ρ)
  | _, [] => []
  | call, src :: images => w.getImage call src :: fetchedFrom w (call + 1) images

/-- The first of the images that can be fetched. The cover is fetched before them. -/
def firstFetched (w : World ρ) (images : List String) : Option ρ :=
  (fetchedFrom w 1 images).findSome? id

theorem getImage_some {w : World ρ} {src : String} {file : ρ}
    (h : w.getImage d.calls src = some file) :
    getImage w src d = .ok file { d with calls := d.calls + 1 } := by
  rw [getImage, h]

theorem getImage_none {w : World ρ} {src : String} (h : w.getImage d.calls src = none) :
    getImage w src d = .error .image { d with calls := d.calls + 1 } := by
  rw [getImage, h]

theorem firstFile_cons (w : World ρ) (src : String) (images : List String) (d : Device ρ) :
    firstFile w (src :: images) d =
      match getImage w src d with
      | .ok file d => .ok (some file) d
      | .error _ d => firstFile w images d := rfl

/-- The loop finds the first file and does not fail. -/
theorem firstFile_eq (w : World ρ) (images : List String) (d : Device ρ) :
    ∃ d', firstFile w images d = .ok ((fetchedFrom w d.calls images).findSome? id) d' ∧
      d'.files = d.files := by
  induction images generalizing d with
  | nil => exact ⟨d, rfl, rfl⟩
  | cons src images ih =>
    rw [firstFile_cons, fetchedFrom, List.findSome?_cons]
    cases hFetch : w.getImage d.calls src with
    | some file =>
      rw [getImage_some hFetch]
      exact ⟨_, rfl, rfl⟩
    | none =>
      rw [getImage_none hFetch]
      exact ih { d with calls := d.calls + 1 }

end Fetches

/-! ## The outcome -/

section Outcome

variable (p : Packages ρ ι) (w : World ρ) (call : ImageCall)

/-- What is fetched, without the image. -/
def fetchOf : Option ρ → Fetch
  | none => .failed
  | some file => if (p.decodeImage file).isSome then .image else .undecodable

/-- The directory of the thumbnails of a kind. -/
def typeDir (kind : String) : String := p.basenameWithoutExtension call.dbName ++ "/" ++ kind

/-- What the world answers, without the images. -/
def outcomes (directory rom : Bool) : Outcomes where
  directory
  rom
  cover := fetchOf p (w.getImage 0 call.cover)
  images := (fetchedFrom w 1 call.images).map (fetchOf p)
  titlesDir := w.makeDir (typeDir p call "Named_Titles")
  titles := w.writeFile (thumbnailPath (typeDir p call "Named_Titles") call.name)
  boxartsDir := w.makeDir (typeDir p call "Named_Boxarts")
  boxarts := w.writeFile (thumbnailPath (typeDir p call "Named_Boxarts") call.name)
  snapsDir := w.makeDir (typeDir p call "Named_Snaps")
  snaps := w.writeFile (thumbnailPath (typeDir p call "Named_Snaps") call.name)

/-- Whether a piece of `install` throws. -/
def outcome {α : Type} : EStateM.Result Failure (Device ρ) α → Except Failure α
  | .ok a _ => .ok a
  | .error e _ => .error e

variable {p w call} {d : Device ρ} {file : ρ} {path : String} {bytes : ρ}

theorem makeThumbnailsDir_eq (type kind : String) :
    makeThumbnailsDir w type kind d =
      if w.makeDir (type ++ "/" ++ kind) then .ok (type ++ "/" ++ kind) d else .error .thumbnail d := rfl

theorem outcome_writeAsBytes : outcome (writeAsBytes w path bytes d) = store (w.writeFile path) := by
  rw [writeAsBytes, store]
  split <;> rfl

/-- The end of `thumbnails`. -/
def snapshotOf (snaps : Bool) : List Fetch → Except Failure Unit
  | [] => store snaps
  | [src] => do
    fetch src
    store snaps
  | images => do
    fetch (firstImage images)
    store snaps

theorem thumbnails_eq (o : Outcomes) :
    thumbnails o =
      (do
        thumbnailsDir o.titlesDir
        fetch o.cover
        store o.titles
        thumbnailsDir o.boxartsDir
        store o.boxarts
        thumbnailsDir o.snapsDir
        snapshotOf o.snaps o.images) := rfl

theorem storeSnapshot_several (imageBuffer : ρ) (src next : String) (images : List String) :
    storeSnapshot p w path file imageBuffer (src :: next :: images) =
      firstFile w (src :: next :: images) >>= fun imageFile =>
        png p (imageFile.getD file) >>= fun imageBuffer => writeAsBytes w path imageBuffer := rfl

theorem outcome_png_write (file : ρ) (d : Device ρ) :
    outcome ((png p file >>= fun imageBuffer => writeAsBytes w path imageBuffer) d) =
      (fetch (fetchOf p (some file)) >>= fun _ => store (w.writeFile path)) := by
  cases hDecode : p.decodeImage file with
  | none =>
    have hPng : png p file d = .error .image d := by rw [png, hDecode]
    rw [bind_error hPng, fetchOf, hDecode]
    rfl
  | some image =>
    have hPng : png p file d = .ok (p.encodeImage image) d := by rw [png, hDecode]
    rw [bind_ok hPng, outcome_writeAsBytes, fetchOf, hDecode]
    rfl

theorem firstImage_map (fetched : List (Option ρ)) :
    firstImage (fetched.map (fetchOf p)) =
      ((fetched.findSome? id).map fun file => fetchOf p (some file)).getD .image := by
  induction fetched with
  | nil => rfl
  | cons first fetched ih =>
    cases first with
    | none => exact ih
    | some file =>
      have hFetched : fetchOf p (some file) ≠ .failed := by
        rw [fetchOf]
        split <;> decide
      rw [List.map_cons, firstImage, List.find?_cons_of_pos (by simpa using hFetched)]
      rfl

/-- The snapshot is made without an exception in the same cases as without images. -/
theorem storeSnapshot_outcome {imageBuffer : ρ} (hCover : (p.decodeImage file).isSome = true)
    (images : List String) :
    outcome (storeSnapshot p w path file imageBuffer images d) =
      snapshotOf (w.writeFile path) ((fetchedFrom w d.calls images).map (fetchOf p)) := by
  match images with
  | [] => exact outcome_writeAsBytes
  | [src] =>
    rw [storeSnapshot, fetchedFrom, fetchedFrom, List.map_singleton, snapshotOf]
    cases hFetch : w.getImage d.calls src with
    | none =>
      rw [bind_error (getImage_none hFetch)]
      rfl
    | some first =>
      rw [bind_ok (getImage_some hFetch)]
      exact outcome_png_write first _
  | src :: next :: images =>
    obtain ⟨d', hFirst, -⟩ := firstFile_eq w (src :: next :: images) d
    have hImage : fetchOf p (some (((fetchedFrom w d.calls (src :: next :: images)).findSome? id).getD
        file)) = firstImage ((fetchedFrom w d.calls (src :: next :: images)).map (fetchOf p)) := by
      rw [firstImage_map]
      cases (fetchedFrom w d.calls (src :: next :: images)).findSome? id with
      | none => exact if_pos hCover
      | some first => rfl
    rw [storeSnapshot_several, bind_ok hFirst, outcome_png_write, hImage]
    rfl

section Binds

variable {α : Type}

theorem outcome_bind_dir {f : String → Install ρ α} (type kind : String) :
    outcome ((makeThumbnailsDir w type kind >>= f) d) =
      (thumbnailsDir (w.makeDir (type ++ "/" ++ kind)) >>= fun _ =>
        outcome (f (type ++ "/" ++ kind) d)) := by
  cases hDir : w.makeDir (type ++ "/" ++ kind) with
  | false =>
    have hFail : makeThumbnailsDir w type kind d = .error .thumbnail d := by
      rw [makeThumbnailsDir_eq, hDir]
      rfl
    rw [bind_error hFail]
    rfl
  | true =>
    have hMake : makeThumbnailsDir w type kind d = .ok (type ++ "/" ++ kind) d := by
      rw [makeThumbnailsDir_eq, hDir]
      rfl
    rw [bind_ok hMake]
    rfl

theorem outcome_bind_write {f : Unit → Install ρ α} :
    outcome ((writeAsBytes w path bytes >>= f) d) =
      (store (w.writeFile path) >>= fun _ =>
        outcome (f () { d with files := Function.update d.files path (some bytes) })) := by
  cases hWrite : w.writeFile path with
  | false =>
    have hFail : writeAsBytes w path bytes d = .error .thumbnail d := by
      rw [writeAsBytes, hWrite]
      rfl
    rw [bind_error hFail]
    rfl
  | true =>
    have hWritten : writeAsBytes w path bytes d =
        .ok () { d with files := Function.update d.files path (some bytes) } := by
      rw [writeAsBytes, hWrite]
      rfl
    rw [bind_ok hWritten]
    rfl

end Binds

/-- `install` throws in the same cases with and without the images. -/
theorem storeImages_outcome (directory rom : Bool) (files : String → Option ρ) :
    outcome (storeImages p w call ⟨0, files⟩) = thumbnails (outcomes p w call directory rom) := by
  rw [thumbnails_eq, storeImages, storeCover]
  simp only [bind_assoc, pure_bind]
  rw [outcome_bind_dir]
  congr 1
  funext _
  cases hFetch : w.getImage 0 call.cover with
  | none =>
    have hFail : getImage w call.cover ⟨0, files⟩ = .error .image ⟨1, files⟩ := getImage_none hFetch
    rw [bind_error hFail, outcomes, hFetch]
    rfl
  | some file =>
    have hFile : getImage w call.cover ⟨0, files⟩ = .ok file ⟨1, files⟩ := getImage_some hFetch
    rw [bind_ok hFile]
    cases hDecode : p.decodeImage file with
    | none =>
      have hFail : png p file ⟨1, files⟩ = .error .image ⟨1, files⟩ := by rw [png, hDecode]
      rw [bind_error hFail, outcomes, hFetch, fetchOf, hDecode]
      rfl
    | some image =>
      have hPng : png p file ⟨1, files⟩ = .ok (p.encodeImage image) ⟨1, files⟩ := by
        rw [png, hDecode]
      have hCover : (outcomes p w call directory rom).cover = .image := by
        rw [outcomes, hFetch, fetchOf, hDecode]
        rfl
      have hDecoded : (p.decodeImage file).isSome = true := by
        rw [hDecode]
        rfl
      rw [bind_ok hPng, hCover, outcome_bind_write, outcome_bind_dir, outcome_bind_write,
        outcome_bind_dir, storeSnapshot_outcome hDecoded]
      rfl

end Outcome

/-! ## The snapshot -/

variable {δ τ : Type} {json : JsonCodec δ τ} {p : Packages ρ ι} {w : World ρ} {call : ImageCall}
  {file : Option τ} {cover : ρ}

/-- The playlist can be read and the cover can be fetched, it is an image, and all directories and files
can be made. -/
structure Ready (json : JsonCodec δ τ) (p : Packages ρ ι) (w : World ρ) (call : ImageCall)
    (file : Option τ) (cover : ρ) : Prop where
  playlist : ∃ configs, load json file = some configs
  fetched : w.getImage 0 call.cover = some cover
  image : (p.decodeImage cover).isSome = true
  directories : ∀ dir, w.makeDir dir = true
  writes : ∀ path, w.writeFile path = true

/-- The file of the snapshot. -/
def snapshotPath (p : Packages ρ ι) (call : ImageCall) : String :=
  thumbnailPath (typeDir p call "Named_Snaps") call.name

/-- The installation does not throw, and it writes the snapshot made from the first image that can be
fetched, or else from the cover. -/
def Snapshot (json : JsonCodec δ τ) (p : Packages ρ ι) (w : World ρ) (call : ImageCall)
    (file : Option τ) (cover : ρ) (files : String → Option ρ) : Prop :=
  ∃ d image, (installImages json p w true true call file ⟨0, files⟩).2 = .ok () d ∧
    p.decodeImage ((firstFetched w call.images).getD cover) = some image ∧
    d.files (snapshotPath p call) = some (p.encodeImage image)

theorem writeAsBytes_ok (hWrites : ∀ path, w.writeFile path = true) (path : String) (bytes : ρ)
    (d : Device ρ) :
    writeAsBytes w path bytes d =
      .ok () { d with files := Function.update d.files path (some bytes) } := by
  rw [writeAsBytes, hWrites path]
  rfl

theorem makeThumbnailsDir_ok (hDirs : ∀ dir, w.makeDir dir = true) (type kind : String) (d : Device ρ) :
    makeThumbnailsDir w type kind d = .ok (type ++ "/" ++ kind) d := by
  rw [makeThumbnailsDir_eq, hDirs]
  rfl

theorem png_some {f : ρ} {image : ι} (h : p.decodeImage f = some image) (d : Device ρ) :
    png p f d = .ok (p.encodeImage image) d := by
  rw [png, h]

theorem png_none {f : ρ} (h : p.decodeImage f = none) (d : Device ρ) :
    png p f d = .error .image d := by
  rw [png, h]

/-- The thumbnails of the cover are written. -/
theorem storeCover_ok (h : Ready json p w call file cover) (files : String → Option ρ) :
    ∃ files' image, p.decodeImage cover = some image ∧ storeCover p w call ⟨0, files⟩ =
      .ok (typeDir p call "Named_Snaps", cover, p.encodeImage image) ⟨1, files'⟩ := by
  obtain ⟨image, hImage⟩ := Option.isSome_iff_exists.mp h.image
  have hCover : getImage w call.cover ⟨0, files⟩ = .ok cover ⟨1, files⟩ := getImage_some h.fetched
  refine ⟨Function.update (Function.update files
      (thumbnailPath (typeDir p call "Named_Titles") call.name) (some (p.encodeImage image)))
      (thumbnailPath (typeDir p call "Named_Boxarts") call.name) (some (p.encodeImage image)),
    image, hImage, ?_⟩
  rw [storeCover, bind_ok (makeThumbnailsDir_ok h.directories _ _ _), bind_ok hCover,
    bind_ok (png_some hImage _), bind_ok (writeAsBytes_ok h.writes _ _ _),
    bind_ok (makeThumbnailsDir_ok h.directories _ _ _), bind_ok (writeAsBytes_ok h.writes _ _ _),
    bind_ok (makeThumbnailsDir_ok h.directories _ _ _)]
  rfl

/-- A thumbnail is made of a file if and only if it is an image. -/
theorem png_write_iff (hWrites : ∀ path, w.writeFile path = true) (path : String) (source : ρ)
    (d : Device ρ) :
    (∃ d' image, (png p source >>= fun imageBuffer => writeAsBytes w path imageBuffer) d = .ok () d' ∧
        p.decodeImage source = some image ∧ d'.files path = some (p.encodeImage image)) ↔
      (p.decodeImage source).isSome = true := by
  cases hDecode : p.decodeImage source with
  | none =>
    rw [bind_error (png_none hDecode d)]
    refine iff_of_false ?_ Bool.false_ne_true
    rintro ⟨d', image, hEq, -⟩
    cases hEq
  | some image =>
    rw [bind_ok (png_some hDecode d), writeAsBytes_ok hWrites]
    exact iff_of_true ⟨_, image, rfl, rfl, Function.update_self ..⟩ rfl

/-- The snapshot is made if and only if there is no single image that cannot be fetched, and the first
image that can be fetched is one. -/
theorem install_snapshot_iff (h : Ready json p w call file cover) (files : String → Option ρ) :
    Snapshot json p w call file cover files ↔
      (∀ src, call.images = [src] → w.getImage 1 src ≠ none) ∧
        ∀ source, firstFetched w call.images = some source → (p.decodeImage source).isSome = true := by
  obtain ⟨configs, hLoad⟩ := h.playlist
  obtain ⟨files', image, hImage, hCover⟩ := storeCover_ok h files
  have hInstall : (installImages json p w true true call file ⟨0, files⟩).2 =
      storeSnapshot p w (snapshotPath p call) cover (p.encodeImage image) call.images ⟨1, files'⟩ := by
    rw [installImages, hLoad]
    change storeImages p w call ⟨0, files⟩ = _
    rw [storeImages, bind_ok hCover]
    rfl
  rw [Snapshot, hInstall]
  cases hImages : call.images with
  | nil =>
    refine iff_of_true ⟨_, image, writeAsBytes_ok h.writes _ _ _, hImage, Function.update_self ..⟩ ?_
    exact ⟨fun src hEq => (by cases hEq), fun source hEq => by cases hEq⟩
  | cons src images =>
    cases images with
    | nil =>
      have hFirst : firstFetched w [src] = w.getImage 1 src := by
        rw [firstFetched, fetchedFrom, fetchedFrom, List.findSome?_cons]
        cases w.getImage 1 src <;> rfl
      have hOnly : (∀ other, [src] = [other] → w.getImage 1 other ≠ none) ↔
          w.getImage 1 src ≠ none :=
        ⟨fun hAll => hAll src rfl, fun hNe other hEq => (List.singleton_inj.mp hEq) ▸ hNe⟩
      rw [hOnly, hFirst, storeSnapshot]
      cases hFetch : w.getImage 1 src with
      | none =>
        rw [bind_error (getImage_none hFetch)]
        refine iff_of_false ?_ fun hBoth => hBoth.1 rfl
        rintro ⟨d', image', hEq, -⟩
        cases hEq
      | some source =>
        rw [bind_ok (getImage_some hFetch), Option.getD_some, snapshotPath, png_write_iff h.writes]
        exact ⟨fun hSome => ⟨Option.some_ne_none _, fun _ hEq => Option.some.inj hEq ▸ hSome⟩,
          fun hBoth => hBoth.2 source rfl⟩
    | cons next images =>
      obtain ⟨d', hLoop, -⟩ := firstFile_eq w (src :: next :: images) ⟨1, files'⟩
      have hSeveral : ∀ other, src :: next :: images = [other] → w.getImage 1 other ≠ none :=
        fun other hEq => by cases hEq
      rw [storeSnapshot_several, bind_ok hLoop, ← firstFetched, snapshotPath, png_write_iff h.writes,
        and_iff_right hSeveral]
      cases hFirst : firstFetched w (src :: next :: images) with
      | none => exact iff_of_true h.image fun source hEq => by cases hEq
      | some source =>
        exact ⟨fun hSome _ hEq => Option.some.inj hEq ▸ hSome, fun hAll => hAll source rfl⟩

/-- Files that hold a number are images. -/
def numbered : Packages (Option Nat) Nat where
  decodeImage := id
  encodeImage := some
  basenameWithoutExtension name := String.ofList (name.toList.take (name.length - ".lpl".length))

/-- Everything succeeds but for some of the calls of `getImage`. -/
def fetching (getImage : Nat → Option (Option Nat)) : World (Option Nat) :=
  ⟨fun call _ => getImage call, fun _ => true, fun _ => true⟩

/-- The cover and the second of two images can be fetched. -/
theorem install_snapshot_second :
    Snapshot (valueCodec : JsonCodec Unit _) numbered
      (fetching fun call => if call = 1 then none else some (some call))
      ⟨mario, "cover.png", ["title.png", "level.png"]⟩ none (some 0) fun _ => none := by
  have hReady : Ready (valueCodec : JsonCodec Unit _) numbered
      (fetching fun call => if call = 1 then none else some (some call))
      ⟨mario, "cover.png", ["title.png", "level.png"]⟩ none (some 0) :=
    ⟨⟨[], rfl⟩, rfl, rfl, fun _ => rfl, fun _ => rfl⟩
  refine (install_snapshot_iff hReady fun _ => none).mpr ⟨fun src hEq => (by cases hEq), ?_⟩
  intro source hFirst
  obtain rfl : some 2 = source := Option.some.inj hFirst
  rfl

/-- A single image cannot be fetched: there is no snapshot, although there is a cover. -/
theorem install_snapshot_fails :
    ¬ ∀ (w : World (Option Nat)) (call : ImageCall) (cover : Option Nat)
      (files : String → Option (Option Nat)),
      Ready (valueCodec : JsonCodec Unit _) numbered w call none cover →
      Snapshot (valueCodec : JsonCodec Unit _) numbered w call none cover files := by
  intro h
  obtain ⟨d, image, hEq, -⟩ := h (fetching fun call => if call = 0 then some (some 1) else none)
    ⟨mario, "cover.png", ["title.png"]⟩ (some 1) (fun _ => none)
    ⟨⟨[], rfl⟩, rfl, rfl, fun _ => rfl, fun _ => rfl⟩
  cases hEq

end RetroConfig.RetroArchConfig
