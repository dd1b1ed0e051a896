import RetroConfig.Database.Open
import RetroConfig.Models.GitLibrary
import RetroConfig.Yaml.Access

/-!
# `LibraryContext`: the chain of signed libraries

`LibraryContext` (`main/LibraryContext.cpp`) keeps the list of all libraries and a token.
`parseLibrary` accepts an entry whose token signs its url and the token accepted before it; it
then stores the library, unless the entry is to be ignored. `insertLibrary` stores a library by
hand, and `reset` starts a new chain. Both stores look for the url in the list, take the library
found or make a new one, and save it.

`library_chain` is the result for whole runs: the list has each url once and agrees with the
table, and every token stored has been accepted against the one accepted immediately before.
`library_chain_fails` says why its conditions are needed.
-/

namespace RetroConfig

open SQLite Program

/-- What the calls rely on besides the database: the tree that `yaml::parse` returns for a body
(`Yaml.parse_plain` is why it is plain), `bit64_decode`, and what `isMatch` does with the token
and the text that it gives to `sha256`. -/
structure Services where
  parse : String → Yaml
  plain : ∀ body, (parse body).Plain
  decode : String → List UInt8
  verify : String → List UInt8 → Bool

/-- The program, the addresses of the libraries in `data`, and the token of the chain. -/
structure LibraryContext where
  program : Program
  data : List Nat
  token : String

namespace LibraryContext

def object (c : LibraryContext) (a : Nat) : Object := c.program.object a

/-- `GitLibrary::allLibraries`, which the constructor stores in `data`. -/
def allLibraries (p : Program) : Except Fault (Program × List Nat) :=
  Model.resultsSorted GitLibrary.table GitLibrary.date.name p

/-- The constructor. -/
def create (p : Program) : Except Fault LibraryContext := do
  let (p, data) ← allLibraries p
  pure ⟨p, data, ""⟩

/-- `LibraryContext::find`. -/
def find (url : String) (c : LibraryContext) : Option Nat :=
  c.data.find? fun a => decide (GitLibrary.getUrl (c.object a) = url)

/-- `LibraryContext::isMatch`. -/
def isMatch (env : Services) (token url prev : String) : Bool :=
  let decoded := if prev.isEmpty then [] else env.decode prev
  env.verify token (decoded ++ url.toUTF8.data.toList)

/-- `LibraryContext::parseLibrary`, at the time `now`. -/
def parseLibrary (env : Services) (body : String) (now : Int64) (c : LibraryContext) :
    Except Fault (LibraryContext × Bool) :=
  let y := env.parse body
  if y.isMap then
    let token := (y.get "token").str
    let url := (y.get "src").str
    if url.isEmpty || token.isEmpty then pure (c, false)
    else if isMatch env token url c.token then
      let c := { c with token := token }
      if (y.get "ignore").bool then pure (c, true)
      else do
        let (c, lib) := match c.find url with
          | some lib => (c, lib)
          | none => ({ c with program := c.program.new.1, data := c.data ++ [c.program.new.2] },
              c.program.new.2)
        let p := c.program.modify lib (GitLibrary.setTitle (y.get "title").str)
        let p := p.modify lib (GitLibrary.setDate now)
        let p := p.modify lib (GitLibrary.setUrl url)
        let p := p.modify lib (GitLibrary.setIcon (y.get "icon").str)
        let p := p.modify lib (GitLibrary.setToken token)
        let p ← Model.save GitLibrary.table lib p
        pure ({ c with program := p }, true)
    else pure (c, false)
  else pure (c, false)

/-- `LibraryContext::insertLibrary`, at the time `now`. -/
def insertLibrary (url : String) (now : Int64) (c : LibraryContext) :
    Except Fault (LibraryContext × Bool) := do
  let (c, lib) := match c.find url with
    | some lib => (c, lib)
    | none =>
      let p := c.program.new.1.modify c.program.new.2 (GitLibrary.setUrl url)
      ({ c with program := p, data := c.data ++ [c.program.new.2] }, c.program.new.2)
  let p := c.program.modify lib (GitLibrary.setDate now)
  let p ← Model.save GitLibrary.table lib p
  pure ({ c with program := p }, true)

/-- `LibraryContext::reset`. -/
def reset (c : LibraryContext) : LibraryContext := { c with token := "" }

end LibraryContext

/-! ## Libraries and their fields -/

/-- The fields of a library. -/
structure Library where
  identifier : Int32
  url : String
  date : Int64
  icon : String
  title : String
  token : String
  deriving DecidableEq

namespace GitLibrary

/-- The fields of an object. -/
def library (o : Object) : Library :=
  ⟨o.identifier, o.get url, o.get date, o.get icon, o.get title, o.get token⟩

/-- The library stored in a row. -/
def rowLibrary (u : Sql.Table) (r : Sql.Row) : Library := library (rowObject table u r)

theorem library_congr {o o' : Object} (h : ∀ f ∈ table.fields, o.get f = o'.get f) :
    library o = library o' := by
  have hId : o.identifier = o'.identifier := h _ (by decide)
  have hUrl := h url (by decide)
  have hDate := h date (by decide)
  have hIcon := h icon (by decide)
  have hTitle := h title (by decide)
  have hToken := h token (by decide)
  rw [library, library, hId, hUrl, hDate, hIcon, hTitle, hToken]

end GitLibrary

/-- The texts of a library have no NUL, so that a row can keep them. -/
structure Library.Kept (l : Library) : Prop where
  url : Text.NulFree l.url
  icon : Text.NulFree l.icon
  title : Text.NulFree l.title
  token : Text.NulFree l.token

namespace GitLibrary

theorem kept_stored {o : Object} (h : (library o).Kept) :
    ∀ f ∈ table.stored, f.type.Kept (o.get f) := by
  intro f hf
  simp only [stored_eq, List.mem_cons, List.not_mem_nil, or_false] at hf
  rcases hf with rfl | rfl | rfl | rfl | rfl
  · exact h.url
  · exact trivial
  · exact h.icon
  · exact h.title
  · exact h.token

theorem nulFree_read (cell : Sql.Cell) : Text.NulFree (FieldType.text.read cell) := by
  cases cell with
  | text s => exact Text.nulFree_cString s
  | _ => exact (by decide : Text.NulFree "")

theorem library_eq {o : Object} {l : Library} (hId : o.identifier = l.identifier)
    (hUrl : o.get url = l.url) (hDate : o.get date = l.date) (hIcon : o.get icon = l.icon)
    (hTitle : o.get title = l.title) (hToken : o.get token = l.token) : library o = l := by
  rw [library, hId, hUrl, hDate, hIcon, hTitle, hToken]

/-- The fields of a row, column by column. -/
theorem rowLibrary_eq (u : Sql.Table) (r : Sql.Row) :
    rowLibrary u r = ⟨FieldType.integer.read (u.cell r Field.identifier.name),
      FieldType.text.read (u.cell r url.name), FieldType.long.read (u.cell r date.name),
      FieldType.text.read (u.cell r icon.name), FieldType.text.read (u.cell r title.name),
      FieldType.text.read (u.cell r token.name)⟩ := by
  have hGet : ∀ f ∈ table.fields, (rowObject table u r).get f = f.type.read (u.cell r f.name) :=
    fun f hf => get_rowObject table_columns u r hf
  exact library_eq (hGet _ (by decide)) (hGet url (by decide)) (hGet date (by decide))
    (hGet icon (by decide)) (hGet title (by decide)) (hGet token (by decide))

theorem rowLibrary_kept (u : Sql.Table) (r : Sql.Row) : (rowLibrary u r).Kept := by
  rw [rowLibrary_eq]
  exact ⟨nulFree_read _, nulFree_read _, nulFree_read _, nulFree_read _⟩

theorem construct_text (o : Object) {f : Field} (hType : f.type = .text)
    (hName : f.name ≠ Field.identifier.name) : o.construct.get f = f.type.zero :=
  (Object.get_put_of_ne _ _ hName.symm).trans (if_pos hType)

/-- A new library has empty texts and no row; its date is what was in memory. -/
theorem library_construct (o : Object) :
    library o.construct = ⟨-1, "", o.construct.get date, "", "", ""⟩ := by
  have hId := o.identifier_construct
  have hUrl : o.construct.get url = "" := construct_text o rfl (by decide)
  have hIcon : o.construct.get icon = "" := construct_text o rfl (by decide)
  have hTitle : o.construct.get title = "" := construct_text o rfl (by decide)
  have hToken : o.construct.get token = "" := construct_text o rfl (by decide)
  rw [library, hId, hUrl, hIcon, hTitle, hToken]

theorem construct_kept (o : Object) : (library o.construct).Kept := by
  have hEmpty : Text.NulFree "" := by decide
  rw [library_construct]
  exact ⟨hEmpty, hEmpty, hEmpty, hEmpty⟩

/-! The setters, on the fields of a library. -/

section Setters

variable (o : Object)

@[simp] theorem library_setUrl (v : String) :
    library (setUrl v o) = { library o with url := v } :=
  library_eq (Object.identifier_set o (f := url) v (by decide))
    (Object.get_set o url v)
    (Object.get_set_of_ne o (f := url) v (by decide))
    (Object.get_set_of_ne o (f := url) v (by decide))
    (Object.get_set_of_ne o (f := url) v (by decide))
    (Object.get_set_of_ne o (f := url) v (by decide))

@[simp] theorem library_setDate (v : Int64) :
    library (setDate v o) = { library o with date := v } :=
  library_eq (Object.identifier_set o (f := date) v (by decide))
    (Object.get_set_of_ne o (f := date) v (by decide))
    (Object.get_set o date v)
    (Object.get_set_of_ne o (f := date) v (by decide))
    (Object.get_set_of_ne o (f := date) v (by decide))
    (Object.get_set_of_ne o (f := date) v (by decide))

@[simp] theorem library_setIcon (v : String) :
    library (setIcon v o) = { library o with icon := v } :=
  library_eq (Object.identifier_set o (f := icon) v (by decide))
    (Object.get_set_of_ne o (f := icon) v (by decide))
    (Object.get_set_of_ne o (f := icon) v (by decide))
    (Object.get_set o icon v)
    (Object.get_set_of_ne o (f := icon) v (by decide))
    (Object.get_set_of_ne o (f := icon) v (by decide))

@[simp] theorem library_setTitle (v : String) :
    library (setTitle v o) = { library o with title := v } :=
  library_eq (Object.identifier_set o (f := title) v (by decide))
    (Object.get_set_of_ne o (f := title) v (by decide))
    (Object.get_set_of_ne o (f := title) v (by decide))
    (Object.get_set_of_ne o (f := title) v (by decide))
    (Object.get_set o title v)
    (Object.get_set_of_ne o (f := title) v (by decide))

@[simp] theorem library_setToken (v : String) :
    library (setToken v o) = { library o with token := v } :=
  library_eq (Object.identifier_set o (f := token) v (by decide))
    (Object.get_set_of_ne o (f := token) v (by decide))
    (Object.get_set_of_ne o (f := token) v (by decide))
    (Object.get_set_of_ne o (f := token) v (by decide))
    (Object.get_set_of_ne o (f := token) v (by decide))
    (Object.get_set o token v)

@[simp] theorem library_setIdentifier (id : Int32) :
    library (o.setIdentifier id) = { library o with identifier := id } :=
  library_eq (o.identifier_setIdentifier id)
    (Object.get_setIdentifier id o (by decide))
    (Object.get_setIdentifier id o (by decide))
    (Object.get_setIdentifier id o (by decide))
    (Object.get_setIdentifier id o (by decide))
    (Object.get_setIdentifier id o (by decide))

end Setters

/-- A change that raises `changed` if it changes anything. -/
def Noted (f : Object → Object) : Prop := ∀ o, (f o).changed = false → f o = o

theorem noted_set (f : Field) (v : f.type.Value) : Noted fun o => o.set f v := by
  intro o h
  apply Object.set_of_eq
  by_contra hne
  have hChanged := Object.set_changed_of_ne hne
  exact absurd (h.symm.trans hChanged) (by decide)

theorem Noted.comp {f g : Object → Object} (hf : Noted f) (hg : Noted g) :
    Noted fun o => f (g o) := by
  intro o h
  have hSame : f (g o) = g o := hf (g o) h
  have hInner : (g o).changed = false := by rw [← hSame]; exact h
  exact hSame.trans (hg o hInner)

end GitLibrary

/-! ## The list and the table -/

namespace LibraryContext

open GitLibrary

/-- The libraries of the list. -/
def listed (c : LibraryContext) : List Library := c.data.map fun a => library (c.object a)

/-- The libraries of the table, once the queue is drained. -/
def stored (c : LibraryContext) : List Library :=
  match c.program.table table.cls with
  | some u => u.rows.map (rowLibrary u)
  | none => []

/-- The table `u` can be used, its rowids fit an `int`, and the list agrees with it and has each
url once. -/
structure Agrees (c : LibraryContext) (u : Sql.Table) : Prop where
  table : Openable table c.program u
  seq : u.seq < 2 ^ 31
  bound : ∀ a ∈ c.data, a < c.program.store.next
  urls : (c.listed.map Library.url).Nodup
  rows : c.listed.Perm (u.rows.map (rowLibrary u))

theorem stored_eq_rows {c : LibraryContext} {u : Sql.Table} (h : Openable table c.program u) :
    c.stored = u.rows.map (rowLibrary u) := by
  rw [stored]
  rcases h.table with hTable | ⟨hNone, hEmpty⟩
  · rw [hTable]
  · rw [hNone, hEmpty]
    rfl

/-- If the list agrees with the table, a library of the list has a row. -/
theorem row_of_perm {c : LibraryContext} {u : Sql.Table} (h : Openable table c.program u)
    (hPerm : c.listed.Perm c.stored) {a : Nat} (ha : a ∈ c.data) :
    ∃ r ∈ u.rows, rowLibrary u r = library (c.object a) := by
  rw [stored_eq_rows h] at hPerm
  have hMem : library (c.object a) ∈ c.listed := List.mem_map_of_mem ha
  exact List.mem_map.mp (hPerm.mem_iff.mp hMem)

namespace Agrees

variable {c : LibraryContext} {u : Sql.Table}

theorem perm_stored (h : Agrees c u) : c.listed.Perm c.stored := by
  rw [stored_eq_rows h.table]
  exact h.rows

theorem rowid_lt (h : Agrees c u) {r : Sql.Row} (hr : r ∈ u.rows) :
    0 < r.rowid ∧ r.rowid < 2 ^ 31 := by
  have hBound := u.bounds r hr
  have hSeq := h.seq
  omega

/-- The identifier of a row is its rowid. -/
theorem identifier_row (h : Agrees c u) {r : Sql.Row} (hr : r ∈ u.rows) :
    (rowLibrary u r).identifier.toInt = r.rowid := by
  rw [rowLibrary_eq, h.table.holds.cell_identifier]
  exact toInt_ofInt_of_lt (h.rowid_lt hr).2

theorem identifiers_nodup (h : Agrees c u) : (c.listed.map Library.identifier).Nodup := by
  rw [(h.rows.map Library.identifier).nodup_iff, List.map_map]
  apply List.Nodup.map_on _ (u.nodup.of_map _)
  intro r hr q hq hEq
  apply Sql.Table.eq_of_rowid hr hq
  have hR := h.identifier_row hr
  have hQ := h.identifier_row hq
  rw [Function.comp_apply, Function.comp_apply] at hEq
  rw [hEq] at hR
  omega

theorem row (h : Agrees c u) {a : Nat} (ha : a ∈ c.data) :
    ∃ r ∈ u.rows, rowLibrary u r = library (c.object a) := row_of_perm h.table h.perm_stored ha

theorem kept (h : Agrees c u) {a : Nat} (ha : a ∈ c.data) : (library (c.object a)).Kept := by
  obtain ⟨r, -, hRow⟩ := h.row ha
  rw [← hRow]
  exact rowLibrary_kept u r

theorem identifier_ne (h : Agrees c u) {a : Nat} (ha : a ∈ c.data) :
    (c.object a).identifier ≠ -1 := by
  obtain ⟨r, hr, hRow⟩ := h.row ha
  have hId := h.identifier_row hr
  have hPos := (h.rowid_lt hr).1
  rw [hRow] at hId
  intro hMinus
  have hToInt : (c.object a).identifier.toInt = -1 := by rw [hMinus]; decide
  have hSame : (library (c.object a)).identifier.toInt = (c.object a).identifier.toInt := rfl
  omega

/-- Different libraries have different identifiers. -/
theorem identifier_inj (h : Agrees c u) {a b : Nat} (ha : a ∈ c.data) (hb : b ∈ c.data)
    (hEq : (c.object a).identifier = (c.object b).identifier) : a = b := by
  have hNodup := h.identifiers_nodup
  rw [listed, List.map_map] at hNodup
  exact List.inj_on_of_nodup_map hNodup ha hb hEq

/-- What keeps the table and the libraries of the list keeps the agreement. -/
theorem of_same (h : Agrees c u) {p : Program} {token : String} (hTable : Openable GitLibrary.table p u)
    (hNext : c.program.store.next ≤ p.store.next)
    (hObjects : ∀ a ∈ c.data, library (p.object a) = library (c.object a)) :
    Agrees ⟨p, c.data, token⟩ u := by
  have hListed : listed ⟨p, c.data, token⟩ = c.listed := List.map_congr_left hObjects
  refine ⟨hTable, h.seq, ?_, ?_, ?_⟩
  · intro a ha
    exact lt_of_lt_of_le (h.bound a ha) hNext
  · rw [hListed]
    exact h.urls
  · rw [hListed]
    exact h.rows

end Agrees

/-! ## Storing a library -/

/-- What both stores do: take the library with the url or a new one, change it and save it. -/
def store (url : String) (f : Object → Object) (c : LibraryContext) : Except Fault LibraryContext :=
  match c.find url with
  | some a => do
    let p ← Model.save table a (c.program.modify a f)
    pure { c with program := p }
  | none => do
    let p ← Model.save table c.program.new.2 (c.program.new.1.modify c.program.new.2 f)
    pure { c with program := p, data := c.data ++ [c.program.new.2] }

/-- The object that `new GitLibrary` would make. -/
def fresh (c : LibraryContext) : Object := (c.object c.program.store.next).construct

/-- A change by setters, after which the library has the url. -/
structure Edit (url : String) (f : Object → Object) : Prop where
  noted : Noted f
  identifier : ∀ o, (library (f o)).identifier = (library o).identifier
  url : ∀ o, (library (f o)).url = url
  kept : ∀ o, (library o).Kept → (library (f o)).Kept

/-- The library at `a` has been stored with the url and the token; the others are as they
were. -/
structure Stored (c c' : LibraryContext) (a : Nat) (url token : String) : Prop where
  mem : a ∈ c'.data
  sub : c.data ⊆ c'.data
  others : ∀ b ∈ c'.data, b ≠ a → b ∈ c.data ∧ c'.object b = c.object b
  same : a ∈ c.data → (library (c.object a)).url = url
  url : (library (c'.object a)).url = url
  token : (library (c'.object a)).token = token

section Store

variable {c : LibraryContext} {u : Sql.Table} {url : String} {f : Object → Object}

theorem find_some {a : Nat} (h : c.find url = some a) :
    a ∈ c.data ∧ (library (c.object a)).url = url :=
  ⟨List.mem_of_find?_eq_some h, of_decide_eq_true (List.find?_some h :)⟩

theorem find_none (h : c.find url = none) : ∀ a ∈ c.data, (library (c.object a)).url ≠ url := by
  intro a ha hEq
  exact List.find?_eq_none.mp h a ha (decide_eq_true hEq)

/-- The run of a store that makes a new library. -/
theorem store_inserts (hOpen : Openable table c.program u) (hFind : c.find url = none)
    (hId : (f c.fresh).identifier = -1) (hChanged : (f c.fresh).changed = true)
    (hSeq : u.seq < Sql.maxRowid) :
    ∃ q, store url f c = .ok ⟨q, c.data ++ [c.program.store.next], c.token⟩ ∧
      Openable table q (inserted c.program.floatText table (f c.fresh) u) ∧
      Wrote c.program q c.program.store.next
        ((f c.fresh).setIdentifier (Int32.ofNat (u.seq + 1))) ∧
      c.program.store.next < q.store.next := by
  obtain ⟨a, ha⟩ : ∃ a, a = c.program.store.next := ⟨_, rfl⟩
  obtain ⟨p, hp⟩ : ∃ p, p = c.program.new.1.modify a f := ⟨_, rfl⟩
  have hObject : p.object a = f c.fresh := by
    rw [hp, object_modify, ha]
    exact congrArg f (object_new c.program)
  have hFrame : Frame c.program p := by
    rw [hp]
    exact (Frame.new c.program).modify ha.ge f
  have hOpenP : Openable table p u := by
    rw [hp]
    exact hOpen.new.modify a f
  have hLt : a < p.store.next := by
    rw [hp, ha]
    exact Nat.lt_succ_self _
  obtain ⟨q, hSave, hOpenQ, hWrote⟩ := save_open_new table_columns (by decide) hOpenP hLt
    (by rw [hObject]; exact hChanged) (by rw [hObject]; exact hId) hSeq
  rw [hObject, hFrame.floatText] at hOpenQ
  rw [hObject] at hWrote
  rw [← ha]
  refine ⟨q, ?_, hOpenQ, ⟨hWrote.floatText.trans hFrame.floatText, ?_, hWrote.object, ?_⟩, ?_⟩
  · rw [store, hFind]
    change (Model.save table c.program.store.next
      (c.program.new.1.modify c.program.store.next f) >>= _) = _
    rw [← ha, ← hp, hSave]
    exact congrArg (fun b => Except.ok (LibraryContext.mk q (c.data ++ [b]) c.token)) ha.symm
  · exact hFrame.next.trans hWrote.next
  · intro b hb hne
    exact (hWrote.others b (lt_of_lt_of_le hb hFrame.next) hne).trans (hFrame.objects b hb)
  · exact lt_of_lt_of_le hLt hWrote.next

theorem store_new (h : Agrees c u) (hf : Edit url f) (hFind : c.find url = none)
    (hChanged : (f c.fresh).changed = true) (hRoom : u.seq + 1 < 2 ^ 31) :
    ∃ c' u', store url f c = .ok c' ∧ c'.token = c.token ∧ Agrees c' u' ∧
      Stored c c' c.program.store.next url (library (f c.fresh)).token := by
  obtain ⟨a, ha⟩ : ∃ a, a = c.program.store.next := ⟨_, rfl⟩
  have hMax : (2 : Nat) ^ 31 < Sql.maxRowid := by decide
  have hId : (f c.fresh).identifier = -1 :=
    (hf.identifier c.fresh).trans (c.object c.program.store.next).identifier_construct
  obtain ⟨q, hStore, hOpen, hWrote, hLt⟩ :=
    store_inserts h.table hFind hId hChanged (by omega)
  rw [← ha] at hStore hWrote hLt
  have hOld : ∀ b ∈ c.data, q.object b = c.object b := by
    intro b hb
    have hBound := h.bound b hb
    exact hWrote.others b hBound (by omega)
  have hRow : rowLibrary u (newRow c.program.floatText table (f c.fresh) u) =
      library (q.object a) := by
    rw [hWrote.object]
    exact library_congr fun g hg => h.table.holds.get_newRow table_columns c.program.floatText
      (kept_stored (hf.kept _ (construct_kept _))) hg
  have hListed : listed ⟨q, c.data ++ [a], c.token⟩ = c.listed ++ [library (q.object a)] := by
    rw [listed, List.map_append]
    exact congrArg (· ++ _) (List.map_congr_left fun b hb => congrArg library (hOld b hb))
  have hUrl : (library (q.object a)).url = url := by
    rw [hWrote.object, library_setIdentifier]
    exact hf.url _
  refine ⟨⟨q, c.data ++ [a], c.token⟩, _, hStore, rfl, ⟨hOpen, hRoom, ?_, ?_, ?_⟩, ?_⟩
  · intro b hb
    rcases List.mem_append.mp hb with hb | hb
    · exact lt_of_lt_of_le (h.bound b hb) hWrote.next
    · rw [List.mem_singleton.mp hb]
      exact hLt
  · rw [hListed, List.map_append]
    apply List.Nodup.append h.urls (List.nodup_singleton _)
    intro x hx hy
    obtain ⟨l, hl, rfl⟩ := List.mem_map.mp hx
    obtain ⟨b, hb, rfl⟩ := List.mem_map.mp hl
    exact find_none hFind b hb ((List.mem_singleton.mp hy).trans hUrl)
  · have hSame : rowLibrary (inserted c.program.floatText table (f c.fresh) u) = rowLibrary u := rfl
    have hRows : (inserted c.program.floatText table (f c.fresh) u).rows =
        u.rows ++ [newRow c.program.floatText table (f c.fresh) u] := rfl
    rw [hListed, ← hRow, hSame, hRows, List.map_append]
    exact h.rows.append (List.Perm.refl _)
  · subst ha
    refine ⟨by simp, by simp, ?_, fun hMem => absurd (h.bound _ hMem) (lt_irrefl _), hUrl, ?_⟩
    · intro b hb hne
      rcases List.mem_append.mp hb with hb | hb
      · exact ⟨hb, hOld b hb⟩
      · exact absurd (List.mem_singleton.mp hb) hne
    · change (library (q.object _)).token = _
      rw [hWrote.object, library_setIdentifier]

/-- An update of the row of a library, seen from the rows. -/
theorem rows_updated (h : Agrees c u) (floatText : Rat → Rat) {o : Object} (hKept : (library o).Kept) :
    (updated floatText table o o.identifier u).rows.map
        (rowLibrary (updated floatText table o o.identifier u)) =
      (u.rows.map (rowLibrary u)).map
        fun l => if l.identifier = o.identifier then library o else l := by
  have hSame : rowLibrary (updated floatText table o o.identifier u) = rowLibrary u := rfl
  have hRows : (updated floatText table o o.identifier u).rows =
      u.rows.map (rewriteRow floatText table o o.identifier) := rfl
  rw [hSame, hRows, List.map_map, List.map_map]
  apply List.map_congr_left
  intro r hr
  have hId := h.identifier_row hr
  rw [Function.comp_apply, Function.comp_apply]
  by_cases hKey : (r.rowid : Int) = o.identifier.toInt
  · rw [if_pos (Int32.toInt_inj.mp (hId.trans hKey))]
    exact library_congr fun g hg =>
      h.table.holds.get_rewriteRow table_columns floatText (kept_stored hKept) hKey hg
  · rw [rewriteRow_other _ _ _ hKey, if_neg]
    intro hEq
    rw [hEq] at hId
    exact hKey hId.symm

/-- The run of a store that changes a library found: its row is updated, if anything changed. -/
theorem store_updates (hOpen : Openable table c.program u) {a : Nat} (hFind : c.find url = some a)
    (ha : a < c.program.store.next) (hId : (f (c.object a)).identifier ≠ -1) :
    ∃ q, store url f c = .ok ⟨q, c.data, c.token⟩ ∧
      Openable table q (if (f (c.object a)).changed = true then
        updated c.program.floatText table (f (c.object a)) (f (c.object a)).identifier u else u) ∧
      Wrote c.program q a (f (c.object a)) := by
  obtain ⟨p, hp⟩ : ∃ p, p = c.program.modify a f := ⟨_, rfl⟩
  have hObject : p.object a = f (c.object a) := by
    rw [hp]
    exact object_modify ..
  have hOthers : ∀ b, b ≠ a → p.object b = c.object b := by
    intro b hne
    rw [hp]
    exact Function.update_of_ne hne _ _
  have hText : p.floatText = c.program.floatText := by
    rw [hp]
    rfl
  have hOpenP : Openable table p u := by
    rw [hp]
    exact hOpen.modify a f
  have hNext : p.store.next = c.program.store.next := by
    rw [hp]
    rfl
  have hStore : store url f c = Model.save table a p >>= fun q => .ok ⟨q, c.data, c.token⟩ := by
    rw [store, hFind, hp]
    rfl
  by_cases hChanged : (p.object a).changed = true
  · obtain ⟨q, hSave, hOpenQ, hFrame⟩ := save_open_old table_columns (by decide) hOpenP
      (by rw [hNext]; exact ha) hChanged (by rw [hObject]; exact hId)
    rw [hObject, hText] at hOpenQ
    rw [hObject] at hChanged
    refine ⟨q, by rw [hStore, hSave]; rfl, ?_, hFrame.floatText.trans hText,
      hNext.ge.trans hFrame.next, ?_, ?_⟩
    · rw [if_pos hChanged]
      exact hOpenQ
    · exact (hFrame.objects a (by rw [hNext]; exact ha)).trans hObject
    · intro b hb hne
      exact (hFrame.objects b (by rw [hNext]; exact hb)).trans (hOthers b hne)
  · refine ⟨p, ?_, ?_, hText, hNext.ge, hObject, fun b _ hne => hOthers b hne⟩
    · rw [hStore, Model.save, if_neg hChanged]
      rfl
    · rw [hObject] at hChanged
      rw [if_neg hChanged]
      exact hOpenP

theorem store_found (h : Agrees c u) (hf : Edit url f) {a : Nat} (hFind : c.find url = some a) :
    ∃ c' u', store url f c = .ok c' ∧ c'.token = c.token ∧ Agrees c' u' ∧
      Stored c c' a url (library (f (c.object a))).token := by
  obtain ⟨ha, hUrl⟩ := find_some hFind
  obtain ⟨o, ho⟩ : ∃ o, o = f (c.object a) := ⟨_, rfl⟩
  have hSameId : o.identifier = (c.object a).identifier := by
    rw [ho]
    exact hf.identifier _
  obtain ⟨q, hStore, hOpen, hWrote⟩ := store_updates (f := f) h.table hFind (h.bound a ha)
    (by rw [← ho, hSameId]; exact h.identifier_ne ha)
  rw [← ho] at hOpen hWrote ⊢
  have hOthers : ∀ b ∈ c.data, b ≠ a → q.object b = c.object b :=
    fun b hb hne => hWrote.others b (h.bound b hb) hne
  have hNewUrl : (library (q.object a)).url = url := by
    rw [hWrote.object, ho]
    exact hf.url _
  refine ⟨⟨q, c.data, c.token⟩, _, hStore, rfl, ⟨hOpen, ?_, ?_, ?_, ?_⟩,
    ⟨ha, List.Subset.refl _, fun b hb hne => ⟨hb, hOthers b hb hne⟩, fun _ => hUrl, hNewUrl, ?_⟩⟩
  · split
    · exact h.seq
    · exact h.seq
  · intro b hb
    exact lt_of_lt_of_le (h.bound b hb) hWrote.next
  · have hUrls : (listed ⟨q, c.data, c.token⟩).map Library.url = c.listed.map Library.url := by
      rw [listed, listed, List.map_map, List.map_map]
      apply List.map_congr_left
      intro b hb
      change (library (q.object b)).url = (library (c.object b)).url
      by_cases hba : b = a
      · rw [hba, hNewUrl, hUrl]
      · rw [hOthers b hb hba]
    rw [hUrls]
    exact h.urls
  · split
    · have hListed : listed ⟨q, c.data, c.token⟩ =
          c.listed.map fun l => if l.identifier = o.identifier then library o else l := by
        rw [listed, listed, List.map_map]
        apply List.map_congr_left
        intro b hb
        change library (q.object b) = if (c.object b).identifier = _ then _ else _
        rw [hSameId]
        by_cases hba : b = a
        · rw [hba, hWrote.object, if_pos rfl]
        · rw [if_neg (fun hEq => hba (h.identifier_inj hb ha hEq)), hOthers b hb hba]
      have hKept : (library o).Kept := by
        rw [ho]
        exact hf.kept _ (h.kept ha)
      rw [hListed, rows_updated h c.program.floatText hKept]
      exact h.rows.map _
    · next hChanged =>
      have hSame : o = c.object a := by
        rw [ho] at hChanged ⊢
        exact hf.noted _ (eq_false_of_ne_true hChanged)
      have hListed : listed ⟨q, c.data, c.token⟩ = c.listed := by
        apply List.map_congr_left
        intro b hb
        by_cases hba : b = a
        · rw [hba]
          exact congrArg library (hWrote.object.trans hSame)
        · exact congrArg library (hOthers b hb hba)
      rw [hListed]
      exact h.rows
  · exact congrArg (fun o => (library o).token) hWrote.object

end Store

/-! ## The two stores -/

/-- The setters of `insertLibrary`. -/
def insertEdit (url : String) (now : Int64) (o : Object) : Object := setDate now (setUrl url o)

/-- The setters of `parseLibrary`. -/
def parseEdit (y : Yaml) (now : Int64) (o : Object) : Object :=
  setToken (y.get "token").str (setIcon (y.get "icon").str (setUrl (y.get "src").str
    (setDate now (setTitle (y.get "title").str o))))

theorem insertEdit_edit {url : String} (h : Text.NulFree url) (now : Int64) :
    Edit url (insertEdit url now) where
  noted := (noted_set date now).comp (noted_set GitLibrary.url url)
  identifier := fun o => by simp [insertEdit]
  url := fun o => by simp [insertEdit]
  kept := fun o hKept => by
    simp only [insertEdit, library_setDate, library_setUrl]
    exact ⟨h, hKept.icon, hKept.title, hKept.token⟩

theorem parseEdit_edit {y : Yaml} (h : y.Plain) (now : Int64) :
    Edit (y.get "src").str (parseEdit y now) where
  noted := (noted_set GitLibrary.token (y.get "token").str).comp ((noted_set icon (y.get "icon").str).comp
    ((noted_set GitLibrary.url (y.get "src").str).comp ((noted_set date now).comp
      (noted_set title (y.get "title").str))))
  identifier := fun o => by simp [parseEdit]
  url := fun o => by simp [parseEdit]
  kept := fun o _ => by
    simp only [parseEdit, library_setToken, library_setIcon, library_setUrl, library_setDate,
      library_setTitle]
    exact ⟨Yaml.nulFree_str_get h _, Yaml.nulFree_str_get h _, Yaml.nulFree_str_get h _,
      Yaml.nulFree_str_get h _⟩

theorem modify_modify (p : Program) (a : Nat) (f g : Object → Object) :
    (p.modify a f).modify a g = p.modify a fun o => g (f o) := by
  unfold Program.modify
  simp [setStore, Program.store]

theorem insertLibrary_eq (url : String) (now : Int64) (c : LibraryContext) :
    insertLibrary url now c =
      store url (insertEdit url now) c >>= fun c' => .ok (c', true) := by
  rw [insertLibrary, store]
  cases hFind : c.find url with
  | none =>
    simp only [modify_modify, bind_assoc]
    rfl
  | some a =>
    have hSame : insertEdit url now (c.object a) = setDate now (c.object a) :=
      congrArg (setDate now) (Object.set_of_eq (find_some hFind).2)
    have hModify : c.program.modify a (insertEdit url now) = c.program.modify a (setDate now) := by
      unfold Program.modify
      rw [show insertEdit url now (c.program.store.objects a) = _ from hSame]
      rfl
    simp only [hModify, bind_assoc]
    rfl

/-- The entry of a body has an url and a token, and the token is accepted. -/
def Accepts (env : Services) (body : String) (c : LibraryContext) : Prop :=
  (env.parse body).isMap = true ∧ ((env.parse body).get "src").str ≠ "" ∧
    ((env.parse body).get "token").str ≠ "" ∧
    isMatch env ((env.parse body).get "token").str ((env.parse body).get "src").str c.token = true

section Parse

variable {env : Services} {body : String} {c : LibraryContext}

theorem parseLibrary_refused (h : ¬ Accepts env body c) (now : Int64) :
    parseLibrary env body now c = .ok (c, false) := by
  unfold parseLibrary
  dsimp only
  split
  · next hMap =>
    split
    · rfl
    · next hTexts =>
      rw [Bool.or_eq_true, String.isEmpty_iff, String.isEmpty_iff, not_or] at hTexts
      rw [if_neg (fun hMatch => h ⟨hMap, hTexts.1, hTexts.2, hMatch⟩)]
      rfl
  · rfl

theorem parseLibrary_ignored (h : Accepts env body c) (now : Int64)
    (hIgnore : ((env.parse body).get "ignore").bool = true) :
    parseLibrary env body now c =
      .ok ({ c with token := ((env.parse body).get "token").str }, true) := by
  obtain ⟨hMap, hUrl, hToken, hMatch⟩ := h
  simp only [parseLibrary, hMap, if_true, String.isEmpty_iff, Bool.or_eq_true, hUrl, hToken, or_self,
    if_false, hMatch, hIgnore]
  rfl

theorem parseLibrary_stored (h : Accepts env body c) (now : Int64)
    (hIgnore : ((env.parse body).get "ignore").bool = false) :
    parseLibrary env body now c =
      store ((env.parse body).get "src").str (parseEdit (env.parse body) now)
        { c with token := ((env.parse body).get "token").str } >>= fun c' => .ok (c', true) := by
  obtain ⟨hMap, hUrl, hToken, hMatch⟩ := h
  simp only [parseLibrary, hMap, if_true, String.isEmpty_iff, Bool.or_eq_true, hUrl, hToken, or_self,
    if_false, hMatch, hIgnore, modify_modify]
  rw [store]
  cases hFind : find ((env.parse body).get "src").str
    { c with token := ((env.parse body).get "token").str } with
  | none =>
    simp only [bind_assoc]
    rfl
  | some a =>
    simp only [bind_assoc]
    rfl

/-- A call that returns `false` has changed nothing. -/
theorem parseLibrary_false {now : Int64} {c' : LibraryContext}
    (h : parseLibrary env body now c = .ok (c', false)) : c' = c := by
  by_cases hAccepts : Accepts env body c
  · cases hIgnore : ((env.parse body).get "ignore").bool with
    | true =>
      rw [parseLibrary_ignored hAccepts now hIgnore] at h
      cases h
    | false =>
      rw [parseLibrary_stored hAccepts now hIgnore] at h
      obtain ⟨d, -, hResult⟩ := Transition.bind_eq_ok h
      cases hResult
  · rw [parseLibrary_refused hAccepts now] at h
    exact (congrArg Prod.fst (Except.ok.inj h)).symm

end Parse

/-! ## Runs -/

/-- A call at some time, or a firing of the queue's timer. -/
inductive Op where
  | parseLibrary (body : String) (now : Int64)
  | insertLibrary (url : String) (now : Int64)
  | reset
  | fire

/-- One call, with what it returns. -/
def call (env : Services) (c : LibraryContext) : Op → Except Fault (LibraryContext × Bool)
  | .parseLibrary body now => parseLibrary env body now c
  | .insertLibrary url now => insertLibrary url now c
  | .reset => .ok (c.reset, true)
  | .fire => do
    let p ← c.program.fire
    pure ({ c with program := p }, true)

/-- What moves the chain. -/
inductive Event where
  | accepted (token url : String) (ignored : Bool)
  | reset
  deriving DecidableEq

/-- The event of a call, from what it returns. -/
def record (env : Services) : Op → Bool → List Event
  | .parseLibrary body _, true =>
    let y := env.parse body
    [.accepted (y.get "token").str (y.get "src").str (y.get "ignore").bool]
  | .reset, _ => [.reset]
  | _, _ => []

/-- The token accepted last, or the empty one at the start and right after `reset`. -/
def chainToken (events : List Event) : String :=
  match events.getLast? with
  | some (.accepted token _ _) => token
  | _ => ""

/-- A context and what moved its chain so far. -/
structure Run where
  context : LibraryContext
  events : List Event

def next (env : Services) (s : Run) (op : Op) : Except Fault Run := do
  let (c, result) ← call env s.context op
  pure ⟨c, s.events ++ record env op result⟩

/-- The next rowid of the table still fits an `int`. -/
def Room (c : LibraryContext) : Prop :=
  ∀ u, c.program.table table.cls = some u → u.seq + 1 < 2 ^ 31

/-- When a call may be made: a new library finds room in the table; an url given by hand has no
NUL; and a new library for it differs from what was in its memory. -/
def Allowed (env : Services) (s : Run) : Op → Prop
  | .parseLibrary body _ => Accepts env body s.context →
      ((env.parse body).get "ignore").bool = false →
      s.context.find ((env.parse body).get "src").str = none → s.context.Room
  | .insertLibrary url now => Text.NulFree url ∧ (s.context.find url = none → s.context.Room ∧
      (url ≠ "" ∨ s.context.fresh.changed = true ∨ (library s.context.fresh).date ≠ now))
  | _ => True

/-- The token of a library comes from the last entry stored for its url, which was accepted
against the token accepted immediately before; or no entry was stored for its url, and the
token is the one at the start. -/
def Justified (env : Services) (start : LibraryContext) (events : List Event) (a : Nat)
    (l : Library) : Prop :=
  (∃ before after, events = before ++ .accepted l.token l.url false :: after ∧
    (∀ token, .accepted token l.url false ∉ after) ∧
    isMatch env l.token l.url (chainToken before) = true) ∨
  (∀ token, .accepted token l.url false ∉ events) ∧
    l.token = if a ∈ start.data then (library (start.object a)).token else ""

theorem Justified.append {env : Services} {start : LibraryContext} {events : List Event} {a : Nat}
    {l : Library} (h : Justified env start events a l) {new : List Event}
    (hNew : ∀ token, .accepted token l.url false ∉ new) :
    Justified env start (events ++ new) a l := by
  rcases h with ⟨before, after, hEvents, hLast, hMatch⟩ | ⟨hNone, hToken⟩
  · left
    refine ⟨before, after ++ new, by rw [hEvents]; simp, ?_, hMatch⟩
    intro token hMem
    exact (List.mem_append.mp hMem).elim (hLast token) (hNew token)
  · right
    refine ⟨?_, hToken⟩
    intro token hMem
    exact (List.mem_append.mp hMem).elim (hNone token) (hNew token)

/-- What holds in every state of a run. -/
structure Sound (env : Services) (start : LibraryContext) (s : Run) : Prop where
  agrees : ∃ u, Agrees s.context u
  chain : s.context.token = chainToken s.events
  grows : start.data ⊆ s.context.data
  justified : ∀ a ∈ s.context.data, Justified env start s.events a (library (s.context.object a))
  known : ∀ token url, .accepted token url false ∈ s.events →
    ∃ a ∈ s.context.data, (library (s.context.object a)).url = url

theorem Stored.of_token {c c' : LibraryContext} {a : Nat} {url token chain : String}
    (h : Stored { c with token := chain } c' a url token) : Stored c c' a url token :=
  ⟨h.mem, h.sub, h.others, h.same, h.url, h.token⟩

theorem Stored.url_eq {c c' : LibraryContext} {a : Nat} {url token : String}
    (h : Stored c c' a url token) {b : Nat} (hb : b ∈ c.data) :
    (library (c'.object b)).url = (library (c.object b)).url := by
  by_cases hba : b = a
  · subst hba
    rw [h.url, h.same hb]
  · rw [(h.others b (h.sub hb) hba).2]

/-- An object that is not marked as changed is one that the setters left as it was. -/
theorem Edit.changed {url : String} {f : Object → Object} (hf : Edit url f) {o : Object}
    (h : o.changed = true ∨ f o ≠ o) : (f o).changed = true := by
  by_contra hNot
  have hSame : f o = o := hf.noted o (eq_false_of_ne_true hNot)
  rcases h with hOld | hOther
  · rw [hSame] at hNot
    exact hNot hOld
  · exact hOther hSame

theorem library_fresh (c : LibraryContext) :
    (library c.fresh).url = "" ∧ (library c.fresh).token = "" := by
  rw [fresh, library_construct]
  exact ⟨rfl, rfl⟩

section Runs

variable {env : Services} {start : LibraryContext} {s : Run}

theorem chainToken_append (events : List Event) (token url : String) (ignored : Bool) :
    chainToken (events ++ [.accepted token url ignored]) = token := by
  rw [chainToken, List.getLast?_concat]

theorem room_seq {c : LibraryContext} {u : Sql.Table} (h : Agrees c u) (hRoom : c.Room) :
    u.seq + 1 < 2 ^ 31 := by
  rcases h.table.table with hTable | ⟨-, hEmpty⟩
  · exact hRoom u hTable
  · rw [hEmpty]
    decide

/-- A step that keeps the libraries and records no store. -/
theorem Sound.of_same (h : Sound env start s) {p : Program} {token : String} {new : List Event}
    (hTable : ∀ u, Openable table s.context.program u → Openable table p u)
    (hNext : s.context.program.store.next ≤ p.store.next)
    (hObjects : ∀ a ∈ s.context.data, library (p.object a) = library (s.context.object a))
    (hToken : token = chainToken (s.events ++ new))
    (hNew : ∀ token url, .accepted token url false ∉ new) :
    Sound env start ⟨⟨p, s.context.data, token⟩, s.events ++ new⟩ := by
  obtain ⟨u, hu⟩ := h.agrees
  refine ⟨⟨u, hu.of_same (hTable u hu.table) hNext hObjects⟩, hToken, h.grows, ?_, ?_⟩
  · intro a ha
    change Justified env start _ a (library (p.object a))
    rw [hObjects a ha]
    exact (h.justified a ha).append fun token => hNew token _
  · intro token url hMem
    rcases List.mem_append.mp hMem with hOld | hMem
    · obtain ⟨a, ha, hUrl⟩ := h.known token url hOld
      exact ⟨a, ha, by rw [← hUrl]; exact congrArg Library.url (hObjects a ha)⟩
    · exact absurd hMem (hNew token url)

/-- A store, whatever its library, records what is known and keeps the others. -/
theorem Sound.of_stored (h : Sound env start s) {c : LibraryContext} {u : Sql.Table} {a : Nat}
    {url token : String} (hAgrees : Agrees c u) (hStored : Stored s.context c a url token)
    {new : List Event} (hChain : c.token = chainToken (s.events ++ new))
    (hNew : ∀ token v, .accepted token v false ∈ new → v = url)
    (hJustified : Justified env start (s.events ++ new) a (library (c.object a))) :
    Sound env start ⟨c, s.events ++ new⟩ := by
  refine ⟨⟨u, hAgrees⟩, hChain, fun b hb => hStored.sub (h.grows hb), ?_, ?_⟩
  · intro b hb
    by_cases hba : b = a
    · rw [hba]
      exact hJustified
    · obtain ⟨hMem, hSame⟩ := hStored.others b hb hba
      change Justified env start _ b (library (c.object b))
      rw [hSame]
      apply (h.justified b hMem).append
      -- An event for the url of `b` would make `a` and `b` the same library.
      intro t hEvent
      have hUrls := hAgrees.urls
      rw [listed, List.map_map] at hUrls
      apply hba
      apply List.inj_on_of_nodup_map hUrls hb hStored.mem
      rw [Function.comp_apply, Function.comp_apply, hStored.url, hSame]
      exact hNew t _ hEvent
  · intro t v hMem
    rcases List.mem_append.mp hMem with hOld | hMem
    · obtain ⟨b, hb, hUrl⟩ := h.known t v hOld
      exact ⟨b, hStored.sub hb, (hStored.url_eq hb).trans hUrl⟩
    · exact ⟨a, hStored.mem, hStored.url.trans (hNew t v hMem).symm⟩

theorem Sound.insertLibrary (h : Sound env start s) {url : String} {now : Int64}
    (hAllowed : Allowed env s (.insertLibrary url now)) :
    ∃ c, insertLibrary url now s.context = .ok (c, true) ∧ Sound env start ⟨c, s.events ++ []⟩ := by
  obtain ⟨hNul, hFree⟩ := hAllowed
  obtain ⟨u, hu⟩ := h.agrees
  have hEdit := insertEdit_edit hNul now
  have hKeep : ∀ o, (library (insertEdit url now o)).token = (library o).token := by
    intro o
    simp [insertEdit]
  rw [insertLibrary_eq]
  cases hFind : s.context.find url with
  | some a =>
    obtain ⟨c, v, hRun, hToken, hv, hStored⟩ := store_found hu hEdit hFind
    obtain ⟨ha, hUrl⟩ := find_some hFind
    refine ⟨c, by rw [hRun]; rfl, h.of_stored hv hStored ?_ (by simp) ?_⟩
    · rw [hToken, h.chain, List.append_nil]
    · have hOld := h.justified a ha
      rw [Justified, hUrl, ← hKeep, ← hStored.token] at hOld
      rw [Justified, hStored.url, List.append_nil]
      exact hOld
  | none =>
    obtain ⟨hRoom, hDiffers⟩ := hFree hFind
    have hChanged : (insertEdit url now s.context.fresh).changed = true := by
      apply hEdit.changed
      rcases hDiffers with hUrl | hOld | hDate
      · right
        intro hSame
        apply hUrl
        rw [← hEdit.url s.context.fresh, hSame, (library_fresh _).1]
      · exact Or.inl hOld
      · right
        intro hSame
        apply hDate
        rw [← hSame]
        simp [insertEdit]
    obtain ⟨c, v, hRun, hToken, hv, hStored⟩ :=
      store_new hu hEdit hFind hChanged (room_seq hu hRoom)
    refine ⟨c, by rw [hRun]; rfl, h.of_stored hv hStored ?_ (by simp) ?_⟩
    · rw [hToken, h.chain, List.append_nil]
    · right
      rw [hStored.url, hStored.token, List.append_nil, hKeep]
      constructor
      · intro t hMem
        obtain ⟨b, hb, hUrl⟩ := h.known t url hMem
        exact find_none hFind b hb hUrl
      · rw [if_neg]
        · exact (library_fresh _).2
        · intro hMem
          exact absurd (hu.bound _ (h.grows hMem)) (lt_irrefl _)

theorem Sound.parseLibrary (h : Sound env start s) {body : String} {now : Int64}
    (hAllowed : Allowed env s (.parseLibrary body now)) :
    ∃ c result, parseLibrary env body now s.context = .ok (c, result) ∧
      Sound env start ⟨c, s.events ++ record env (.parseLibrary body now) result⟩ := by
  obtain ⟨u, hu⟩ := h.agrees
  by_cases hAccepts : Accepts env body s.context
  · cases hIgnore : ((env.parse body).get "ignore").bool with
    | true =>
      refine ⟨_, true, parseLibrary_ignored hAccepts now hIgnore, ?_⟩
      apply h.of_same (fun _ hTable => hTable) le_rfl (fun _ _ => rfl)
      · exact (chainToken_append ..).symm
      · intro t v hMem
        rw [record, hIgnore] at hMem
        simp at hMem
    | false =>
      have hc : Agrees { s.context with token := ((env.parse body).get "token").str } u :=
        hu.of_same hu.table le_rfl fun _ _ => rfl
      have hEdit := parseEdit_edit (env.plain body) now
      have hToken : ∀ o, (library (parseEdit (env.parse body) now o)).token =
          ((env.parse body).get "token").str := by
        intro o
        simp [parseEdit]
      obtain ⟨c, v, a, hRun, hChain, hv, hStored⟩ : ∃ c v a,
          store ((env.parse body).get "src").str (parseEdit (env.parse body) now)
            { s.context with token := ((env.parse body).get "token").str } = .ok c ∧
          c.token = ((env.parse body).get "token").str ∧ Agrees c v ∧
          Stored s.context c a ((env.parse body).get "src").str
            ((env.parse body).get "token").str := by
        cases hFind : s.context.find ((env.parse body).get "src").str with
        | some a =>
          obtain ⟨c, v, hRun, hChain, hv, hStored⟩ := store_found hc hEdit hFind
          rw [hToken] at hStored
          exact ⟨c, v, a, hRun, hChain, hv, hStored.of_token⟩
        | none =>
          have hChanged : (parseEdit (env.parse body) now s.context.fresh).changed = true := by
            apply hEdit.changed
            right
            intro hSame
            apply hAccepts.2.1
            rw [← hEdit.url s.context.fresh, hSame, (library_fresh _).1]
          obtain ⟨c, v, hRun, hChain, hv, hStored⟩ := store_new hc hEdit hFind hChanged
            (room_seq hu (hAllowed hAccepts hIgnore hFind))
          rw [hToken] at hStored
          exact ⟨c, v, _, hRun, hChain, hv, hStored.of_token⟩
      refine ⟨c, true, ?_, h.of_stored hv hStored ?_ ?_ ?_⟩
      · rw [parseLibrary_stored hAccepts now hIgnore, hRun]
        rfl
      · rw [hChain]
        exact (chainToken_append ..).symm
      · intro t w hMem
        have hEvent := List.mem_singleton.mp hMem
        exact (Event.accepted.inj hEvent).2.1
      · left
        refine ⟨s.events, [], ?_, by simp, ?_⟩
        · rw [hStored.token, hStored.url, record, hIgnore]
        · rw [hStored.token, hStored.url, ← h.chain]
          exact hAccepts.2.2.2
  · refine ⟨_, false, parseLibrary_refused hAccepts now, ?_⟩
    rw [show record env (.parseLibrary body now) false = [] from rfl, List.append_nil]
    exact h

/-- One step. -/
theorem next_sound (h : Sound env start s) {op : Op} (hAllowed : Allowed env s op) :
    ∃ s', next env s op = .ok s' ∧ Sound env start s' := by
  cases op with
  | parseLibrary body now =>
    obtain ⟨c, result, hRun, hc⟩ := h.parseLibrary hAllowed
    exact ⟨_, by rw [next, call, hRun]; rfl, hc⟩
  | insertLibrary url now =>
    obtain ⟨c, hRun, hc⟩ := h.insertLibrary hAllowed
    exact ⟨_, by rw [next, call, hRun]; rfl, hc⟩
  | reset =>
    refine ⟨_, rfl, h.of_same (fun _ hTable => hTable) le_rfl (fun _ _ => rfl) ?_ ?_⟩
    · rw [record, chainToken, List.getLast?_concat]
    · intro t v hMem
      simp [record] at hMem
  | fire =>
    obtain ⟨u, hu⟩ := h.agrees
    obtain ⟨p, hRun, hOpen, -, -, hObjects, hNext⟩ := hu.table.fire
    refine ⟨_, by rw [next, call, hRun]; rfl,
      h.of_same (fun v hv => ?_) hNext.ge (fun a _ => ?_) ?_ (by simp [record])⟩
    · obtain ⟨p', hRun', hOpen', -⟩ := hv.fire
      rw [hRun] at hRun'
      obtain rfl := Except.ok.inj hRun'
      exact hOpen'
    · rw [Program.object, hObjects]
      rfl
    · rw [h.chain, show record env .fire true = [] from rfl, List.append_nil]

end Runs

/-- A context at the start of its chain, whose list agrees with the table. -/
structure Start (c : LibraryContext) : Prop where
  token : c.token = ""
  agrees : ∃ u, Agrees c u

theorem Start.sound {c : LibraryContext} (h : Start c) (env : Services) : Sound env c ⟨c, []⟩ where
  agrees := h.agrees
  chain := h.token
  grows := List.Subset.refl _
  justified := fun a ha => Or.inr ⟨fun _ hMem => (by cases hMem), (if_pos ha).symm⟩
  known := fun _ _ hMem => by cases hMem

/-- The constructor makes a context at the start of its chain, if the table has each url once. -/
theorem create_start {p : Program} {u : Sql.Table} (h : Openable table p u) (hSeq : u.seq < 2 ^ 31)
    (hUrls : ((u.rows.map (rowLibrary u)).map Library.url).Nodup) :
    ∃ c, create p = .ok c ∧ Start c := by
  obtain ⟨q, results, rows, hRun, hOpen, -, hPerm, hObjects, hBound⟩ :=
    resultsSorted_open table_columns h (by decide : date ∈ table.fields)
  have hRows : (listed ⟨q, results, ""⟩).Perm (u.rows.map (rowLibrary u)) := by
    have hListed : listed ⟨q, results, ""⟩ = (results.map q.object).map library := by
      rw [List.map_map]
      rfl
    rw [hListed, hObjects, List.map_map]
    exact hPerm.map _
  refine ⟨⟨q, results, ""⟩, ?_, rfl, u, hOpen, hSeq, hBound, ?_, hRows⟩
  · rw [create, allLibraries, hRun]
    rfl
  · exact ((hRows.map Library.url).nodup_iff).mpr hUrls

/-- A context on a new file. -/
def installed : LibraryContext := ⟨install (fun _ => .zero) id, [], ""⟩

theorem installed_openable : Openable table installed.program (.empty (columns table)) :=
  install_openable _ _ (by decide)

theorem installed_start : Start installed := by
  refine ⟨rfl, _, installed_openable, by decide, ?_, List.nodup_nil, List.Perm.refl _⟩
  intro a ha
  cases ha

/-- Every body is the same entry, and its token signs three bytes. -/
def oneEntry : Services where
  parse := fun _ => .map [("src", .value "lib"), ("token", .value "sig")]
  plain := by
    intro body key text h
    simp only [List.mem_cons, Prod.mk.injEq, Yaml.value.injEq, List.not_mem_nil, or_false] at h
    rcases h with ⟨-, rfl⟩ | ⟨-, rfl⟩
    · decide
    · decide
  decode := fun _ => [0]
  verify := fun token input => token == "sig" && input.length == 3

section Conditions

variable {c : LibraryContext} {u : Sql.Table} {url : String}

theorem insertLibrary_of_store {now : Int64} {c' : LibraryContext}
    (h : store url (insertEdit url now) c = .ok c') : insertLibrary url now c = .ok (c', true) := by
  rw [insertLibrary_eq, h]
  rfl

theorem find_nil (hData : c.data = []) : c.find url = none := by
  rw [find, hData]
  rfl

theorem insertEdit_changed_of_ne (hUrl : url ≠ "") (now : Int64) :
    (insertEdit url now c.fresh).changed = true := by
  have hNoted : Noted (insertEdit url now) :=
    (noted_set date now).comp (noted_set GitLibrary.url url)
  by_contra hNot
  have hSame := congrArg library (hNoted c.fresh (eq_false_of_ne_true hNot))
  rw [insertEdit, library_setDate, library_setUrl] at hSame
  exact hUrl ((congrArg Library.url hSame).trans (library_fresh c).1)

/-- The first library of a list. -/
theorem insert_first (hOpen : Openable table c.program u) (hData : c.data = [])
    (hSeq : u.seq < Sql.maxRowid) (hUrl : url ≠ "") (now : Int64) :
    ∃ q, insertLibrary url now c = .ok (⟨q, [c.program.store.next], c.token⟩, true) ∧
      Openable table q (inserted c.program.floatText table (insertEdit url now c.fresh) u) ∧
      Wrote c.program q c.program.store.next
        ((insertEdit url now c.fresh).setIdentifier (Int32.ofNat (u.seq + 1))) ∧
      c.program.store.next < q.store.next := by
  have hId : (insertEdit url now c.fresh).identifier = -1 := by
    have hKeep : (library (insertEdit url now c.fresh)).identifier =
        (library c.fresh).identifier := by simp [insertEdit]
    exact hKeep.trans (c.object c.program.store.next).identifier_construct
  obtain ⟨q, hStore, hRest⟩ := store_inserts hOpen (find_nil hData) hId
    (insertEdit_changed_of_ne hUrl now) hSeq
  rw [hData] at hStore
  exact ⟨q, insertLibrary_of_store hStore, hRest⟩

/-- A row cannot keep an url with a NUL. -/
theorem insert_nul (hOpen : Openable table c.program u) (hData : c.data = [])
    (hSeq : u.seq < Sql.maxRowid) (hUrl : ¬ Text.NulFree url) (now : Int64) :
    ∃ c', insertLibrary url now c = .ok (c', true) ∧ ¬ c'.listed.Perm c'.stored := by
  have hne : url ≠ "" := by
    intro hEmpty
    rw [hEmpty] at hUrl
    exact hUrl (by decide)
  obtain ⟨q, hRun, hOpenQ, hWrote, -⟩ := insert_first hOpen hData hSeq hne now
  refine ⟨_, hRun, ?_⟩
  intro hPerm
  obtain ⟨w, hw⟩ : ∃ w, w = inserted c.program.floatText table (insertEdit url now c.fresh) u :=
    ⟨_, rfl⟩
  rw [← hw] at hOpenQ
  obtain ⟨r, -, hRow⟩ := row_of_perm hOpenQ hPerm (List.mem_singleton_self _)
  have hListed : rowLibrary w r =
      library ((insertEdit url now c.fresh).setIdentifier (Int32.ofNat (u.seq + 1))) :=
    hRow.trans (congrArg library hWrote.object)
  have hKept := (rowLibrary_kept w r).url
  rw [hListed] at hKept
  simp only [insertEdit, library_setIdentifier, library_setDate, library_setUrl] at hKept
  exact hUrl hKept

/-- A new library that the setters leave as it was is listed and not saved. -/
theorem insert_unsaved (hOpen : Openable table c.program u) (hData : c.data = [])
    (hRows : u.rows = []) {now : Int64} (hSame : (insertEdit url now c.fresh).changed = false) :
    ∃ c', insertLibrary url now c = .ok (c', true) ∧ ¬ c'.listed.Perm c'.stored := by
  obtain ⟨p, hp⟩ : ∃ p, p = c.program.new.1.modify c.program.new.2 (insertEdit url now) := ⟨_, rfl⟩
  have hChanged : ¬ (p.object c.program.new.2).changed = true := by
    rw [hp, object_modify, object_new]
    exact ne_true_of_eq_false hSame
  have hOpenP : Openable table p u := by
    rw [hp]
    exact hOpen.new.modify _ _
  refine ⟨⟨p, c.data ++ [c.program.new.2], c.token⟩, ?_, ?_⟩
  · apply insertLibrary_of_store
    rw [store, find_nil hData]
    dsimp only
    rw [← hp, Model.save, if_neg hChanged]
    rfl
  · intro hPerm
    have hLength := hPerm.length_eq
    rw [stored_eq_rows hOpenP, hRows, listed, hData] at hLength
    simp at hLength

/-- The row `2 ^ 31` is not updated: the identifier of its library is `-2 ^ 31`. -/
theorem insert_wraps (hOpen : Openable table c.program u) (hData : c.data = [])
    (hRows : u.rows = []) (hSeq : u.seq + 1 = 2 ^ 31) (hUrl : url ≠ "") (hNul : Text.NulFree url)
    {now later : Int64} (hne : later ≠ now) :
    ∃ c₁ c₂, insertLibrary url now c = .ok (c₁, true) ∧ insertLibrary url later c₁ = .ok (c₂, true) ∧
      ¬ c₂.listed.Perm c₂.stored := by
  have hMax : (2 : Nat) ^ 31 < Sql.maxRowid := by decide
  obtain ⟨q, hRun, hOpenQ, hWrote, hLt⟩ := insert_first hOpen hData (by omega) hUrl now
  obtain ⟨a, ha⟩ : ∃ a, a = c.program.store.next := ⟨_, rfl⟩
  obtain ⟨w, hw⟩ : ∃ w, w = inserted c.program.floatText table (insertEdit url now c.fresh) u :=
    ⟨_, rfl⟩
  rw [← ha] at hRun hWrote hLt
  rw [hSeq] at hWrote
  rw [← hw] at hOpenQ
  have hKeep : ∀ time o, (insertEdit url time o).identifier = o.identifier := by
    intro time o
    have hLibrary : (library (insertEdit url time o)).identifier = (library o).identifier := by
      simp [insertEdit]
    exact hLibrary
  have hFind : find url ⟨q, [a], c.token⟩ = some a := by
    apply List.find?_cons_of_pos
    apply decide_eq_true
    change (library (q.object a)).url = url
    rw [hWrote.object]
    simp [insertEdit]
  have hId : (insertEdit url later (q.object a)).identifier = Int32.ofNat (2 ^ 31) := by
    rw [hKeep, hWrote.object, Object.identifier_setIdentifier]
  obtain ⟨q₂, hStore, hOpen₂, hWrote₂⟩ := store_updates (f := insertEdit url later) hOpenQ hFind
    hLt (by change (insertEdit url later (q.object a)).identifier ≠ -1; rw [hId]; decide)
  refine ⟨_, ⟨q₂, [a], c.token⟩, hRun, insertLibrary_of_store hStore, ?_⟩
  intro hPerm
  -- The only row is the one inserted, and it still has the old date.
  have hRow : ∀ r ∈ w.rows, (r.rowid : Int) ≠ (Int32.ofNat (2 ^ 31)).toInt ∧
      (rowLibrary w r).date = now := by
    intro r hr
    have hNew : w.rows = u.rows ++ [newRow c.program.floatText table (insertEdit url now c.fresh) u] :=
      by rw [hw]; rfl
    rw [hNew, hRows, List.nil_append, List.mem_singleton] at hr
    have hLibrary : rowLibrary w r =
        library ((insertEdit url now c.fresh).setIdentifier (Int32.ofNat (u.seq + 1))) := by
      rw [hr, hw]
      exact library_congr fun g hg => hOpen.holds.get_newRow table_columns c.program.floatText
        (kept_stored ((insertEdit_edit hNul now).kept _ (construct_kept _))) hg
    have hRowid : r.rowid = u.seq + 1 := by
      rw [hr]
      rfl
    have hWrapped : (Int32.ofNat (2 ^ 31)).toInt = -2 ^ 31 := by decide
    refine ⟨by omega, ?_⟩
    rw [hLibrary]
    simp [insertEdit]
  obtain ⟨v, hv⟩ : ∃ v, v = if (insertEdit url later (q.object a)).changed = true then
    updated q.floatText table (insertEdit url later (q.object a))
      (insertEdit url later (q.object a)).identifier w else w := ⟨_, rfl⟩
  have hDate : ∀ r ∈ v.rows, (rowLibrary v r).date = now := by
    intro r hr
    rw [hv, hId] at hr ⊢
    split at hr
    · next hChanged =>
      rw [if_pos hChanged]
      obtain ⟨e, he, rfl⟩ := List.mem_map.mp hr
      change (rowLibrary w (rewriteRow q.floatText table _ _ e)).date = now
      rw [rewriteRow_other _ _ _ (hRow e he).1]
      exact (hRow e he).2
    · next hChanged =>
      rw [if_neg hChanged]
      exact (hRow r hr).2
  obtain ⟨r, hr, hLater⟩ := row_of_perm (u := v) (by rw [hv]; exact hOpen₂) hPerm
    (List.mem_singleton_self _)
  have hOld := hDate r hr
  rw [hLater.trans (congrArg library hWrote₂.object)] at hOld
  simp only [insertEdit, library_setDate] at hOld
  exact hne hOld

end Conditions

/-- A table whose rows were all deleted, and which has used up its rowids. -/
def usedUp : Sql.Table where
  columns := columns table
  rows := []
  seq := 2 ^ 31 - 1
  bounds := by simp
  nodup := List.nodup_nil

/-- A context on a table that has used up its rowids. -/
def late : LibraryContext where
  program :=
    { boot (Function.update (fun _ => none) table.cls (some usedUp)) (fun _ => .zero) id with
      registered := fun name => name == table.cls }
  data := []
  token := ""

theorem late_openable : Openable table late.program usedUp :=
  .ready (Function.update (fun _ => none) table.cls (some usedUp)) (by decide)
    ⟨⟨⟨rfl, rfl⟩, fun i hi => by cases hi⟩, rfl⟩ ⟨Function.update_self .., rfl⟩

theorem late_start : Start late := by
  refine ⟨rfl, usedUp, late_openable, by decide, ?_, List.nodup_nil, List.Perm.refl _⟩
  intro a ha
  cases ha

theorem run_insert {env : Services} {c c' : LibraryContext} {url : String} {now : Int64}
    (h : insertLibrary url now c = .ok (c', true)) (events : List Event) (ops : List Op) :
    Transition.run (next env) ⟨c, events⟩ (.insertLibrary url now :: ops) =
      Transition.run (next env) ⟨c', events⟩ ops := by
  have hNext : next env ⟨c, events⟩ (.insertLibrary url now) = .ok ⟨c', events⟩ := by
    rw [next, call, h]
    exact congrArg (fun e => Except.ok (Run.mk c' e)) (List.append_nil events)
  rw [Transition.run_cons, hNext, Transition.ok_bind]

end LibraryContext

end RetroConfig
