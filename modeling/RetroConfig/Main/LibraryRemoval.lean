import RetroConfig.Core.Array
import RetroConfig.Main.LibraryContext

/-!
# `LibraryContext::removeLibrary`

`removeLibrary` (`main/LibraryContext.cpp`) looks for the library with the url, takes it from the list
with `_Array::remove`, and deletes its row. The list holds each library once, so the loop of
`_Array::remove` finds it only at an even place, and meets the end of the list only if the length
is odd (`removes_iff`). The row is the right one while its rowid fits an `int`.
-/

namespace RetroConfig.LibraryContext

open SQLite Program GitLibrary VariantArray

/-- The library at `a`, as an element of `data`. -/
def element (a : Nat) : VariantArray.Variant := .object table.cls a

/-- `data->remove(lib)`. -/
def removeElement (toFloat : UInt64 → UInt32) (lib : Nat) (data : List Nat) : Option (List Nat) :=
  VariantArray.remove (fun a => (element lib).equals toFloat (element a)) data

/-- `LibraryContext::removeLibrary`. It is `none` where the removal reads behind the end of the
list. -/
def removeLibrary (toFloat : UInt64 → UInt32) (url : String) (c : LibraryContext) :
    Option (Except Fault (LibraryContext × Bool)) :=
  match c.find url with
  | some lib => do
    let data ← removeElement toFloat lib c.data
    some do
      let p ← Model.remove table lib c.program
      pure ({ c with program := p, data := data }, true)
  | none => some (pure (c, false))

/-- The table `u` can be used, and the list agrees with it and has each url once. -/
structure Lists (c : LibraryContext) (u : Sql.Table) : Prop where
  table : Openable table c.program u
  bound : ∀ a ∈ c.data, a < c.program.store.next
  urls : (c.listed.map Library.url).Nodup
  rows : c.listed.Perm (u.rows.map (rowLibrary u))

/-- The libraries with another url. -/
def without (url : String) (libraries : List Library) : List Library :=
  libraries.filter fun l => decide (l.url ≠ url)

/-- `removeLibrary` takes the library with the url, and no other, from the list and the table. -/
def Removes (toFloat : UInt64 → UInt32) (url : String) (c : LibraryContext) : Prop :=
  ∃ c', removeLibrary toFloat url c = some (.ok (c', true)) ∧
    c'.listed = without url c.listed ∧ c'.stored = without url c.stored

/-- The length of the list is odd, the library with the url is at an even place, and its rowid fits
an `int`. -/
structure CanRemove (url : String) (c : LibraryContext) (u : Sql.Table) : Prop where
  odd : c.data.length % 2 = 1
  even : ∃ p a, c.data[p]? = some a ∧ getUrl (c.object a) = url ∧ p % 2 = 0
  rowid : ∀ r ∈ u.rows, (rowLibrary u r).url = url → r.rowid < 2 ^ 31

section Removal

variable {toFloat : UInt64 → UInt32} {c : LibraryContext} {u : Sql.Table} {url : String} {lib : Nat}

@[simp] theorem element_equals (a b : Nat) :
    (element a).equals toFloat (element b) = decide (a = b) := by
  rw [element, element, VariantArray.Variant.equals, beq_self_eq_true, Bool.true_and]
  rfl

theorem Lists.data_nodup (h : Lists c u) : c.data.Nodup := by
  have hUrls := h.urls
  rw [listed, List.map_map] at hUrls
  exact hUrls.of_map _

/-- An url is the url of one library. -/
theorem Lists.eq_of_url (h : Lists c u) {a b : Nat} (ha : a ∈ c.data) (hb : b ∈ c.data)
    (hUrl : getUrl (c.object a) = getUrl (c.object b)) : a = b := by
  have hUrls := h.urls
  rw [listed, List.map_map] at hUrls
  exact List.inj_on_of_nodup_map hUrls ha hb hUrl

/-- The list without the library is the list without its url. -/
theorem without_listed (h : Lists c u) (hFind : c.find url = some lib) :
    without url c.listed = (c.data.filter fun a => !decide (lib = a)).map fun a =>
      library (c.object a) := by
  obtain ⟨hLib, hUrl⟩ := find_some hFind
  rw [without, listed, List.filter_map]
  congr 1
  apply List.filter_congr
  intro a ha
  rw [Function.comp_apply, ← decide_not]
  apply decide_eq_decide.mpr
  apply not_congr
  constructor
  · intro hEq
    exact h.eq_of_url hLib ha (hUrl.trans hEq.symm)
  · rintro rfl
    exact hUrl

/-- The row of a library that is listed. -/
theorem Lists.row (h : Lists c u) (hFind : c.find url = some lib) :
    ∃ r ∈ u.rows, (rowLibrary u r).url = url ∧
      (c.object lib).identifier = Int32.ofInt r.rowid := by
  obtain ⟨hLib, hUrl⟩ := find_some hFind
  have hPerm : c.listed.Perm c.stored := by
    rw [stored_eq_rows h.table]
    exact h.rows
  obtain ⟨r, hr, hRow⟩ := row_of_perm h.table hPerm hLib
  refine ⟨r, hr, by rw [hRow]; exact hUrl, ?_⟩
  have hId := congrArg Library.identifier hRow
  rw [rowLibrary_eq, h.table.holds.cell_identifier] at hId
  exact hId.symm

/-- An url is the url of one row. -/
theorem Lists.eq_of_row_url (h : Lists c u) {r q : Sql.Row} (hr : r ∈ u.rows) (hq : q ∈ u.rows)
    (hUrl : (rowLibrary u r).url = (rowLibrary u q).url) : r = q := by
  have hUrls := h.urls
  rw [(h.rows.map Library.url).nodup_iff, List.map_map] at hUrls
  exact List.inj_on_of_nodup_map hUrls hr hq hUrl

/-- What is stored after `lib->remove()`. -/
theorem stored_deleted {c' : LibraryContext} {id : Int32}
    (hOpen : Openable table c'.program (deleted id u)) :
    c'.stored = (u.rows.filter fun r => !decide ((r.rowid : Int) = id.toInt)).map (rowLibrary u) :=
  stored_eq_rows hOpen

/-- `lib->remove()` deletes the row with the url if its rowid fits an `int`. -/
theorem stored_eq_without_iff (h : Lists c u) (hFind : c.find url = some lib) {c' : LibraryContext}
    (hOpen : Openable table c'.program (deleted (c.object lib).identifier u)) :
    c'.stored = without url c.stored ↔
      ∀ r ∈ u.rows, (rowLibrary u r).url = url → r.rowid < 2 ^ 31 := by
  obtain ⟨q, hq, hUrl, hId⟩ := h.row hFind
  rw [stored_deleted hOpen, stored_eq_rows h.table, without, List.filter_map, hId]
  constructor
  · intro hRows r hr hRowUrl
    obtain rfl := h.eq_of_row_url hr hq (hRowUrl.trans hUrl.symm)
    by_contra hLarge
    have hKept : rowLibrary u r ∈ (u.rows.filter fun e =>
        !decide ((e.rowid : Int) = (Int32.ofInt r.rowid).toInt)).map (rowLibrary u) := by
      apply List.mem_map_of_mem
      apply List.mem_filter.mpr ⟨hr, _⟩
      have hLt := (Int32.ofInt r.rowid).toInt_lt
      rw [Bool.not_eq_true', decide_eq_false_iff_not]
      omega
    rw [hRows] at hKept
    obtain ⟨e, he, hEq⟩ := List.mem_map.mp hKept
    have hOther := (List.mem_filter.mp he).2
    rw [Function.comp_apply, decide_eq_true_eq] at hOther
    exact hOther ((congrArg Library.url hEq).trans hUrl)
  · intro hSmall
    refine congrArg (List.map (rowLibrary u)) (List.filter_congr fun r hr => ?_)
    rw [Function.comp_apply, ← decide_not]
    apply decide_eq_decide.mpr
    apply not_congr
    rw [toInt_ofInt_of_lt (hSmall q hq hUrl)]
    constructor
    · intro hEq
      obtain rfl : r = q := Sql.Table.eq_of_rowid hr hq (by omega)
      exact hUrl
    · intro hEq
      rw [h.eq_of_row_url hr hq (hEq.trans hUrl.symm)]

/-- `removeLibrary` of a library that is listed, if the removal from the list ends. -/
theorem removeLibrary_eq (h : Lists c u) (hFind : c.find url = some lib) {data : List Nat}
    (hData : removeElement toFloat lib c.data = some data) :
    ∃ p, removeLibrary toFloat url c = some (.ok (⟨p, data, c.token⟩, true)) ∧
      Openable table p (deleted (c.object lib).identifier u) ∧
      ∀ a ∈ c.data, a ≠ lib → p.object a = c.object a := by
  obtain ⟨hLib, -⟩ := find_some hFind
  obtain ⟨p, hRun, hOpen, hWrote⟩ := remove_open table_columns h.table (h.bound lib hLib)
  refine ⟨p, ?_, hOpen, fun a ha hne => hWrote.others a (h.bound a ha) hne⟩
  rw [removeLibrary, hFind]
  change (removeElement toFloat lib c.data >>= _) = _
  rw [hData]
  change some (Model.remove table lib c.program >>= _) = _
  rw [hRun]
  rfl

theorem find_of_listed (hUrl : url ∈ c.listed.map Library.url) : ∃ lib, c.find url = some lib := by
  rcases hFind : c.find url with _ | lib
  · obtain ⟨l, hl, hSame⟩ := List.mem_map.mp hUrl
    obtain ⟨a, ha, rfl⟩ := List.mem_map.mp hl
    exact absurd hSame (find_none hFind a ha)
  · exact ⟨lib, rfl⟩

/-- The list has lost a library. -/
theorem length_without (h : Lists c u) (hFind : c.find url = some lib) :
    (without url c.listed).length < c.data.length := by
  obtain ⟨hLib, -⟩ := find_some hFind
  rw [without_listed h hFind, List.length_map]
  apply List.length_filter_lt_length_iff_exists.mpr
  exact ⟨lib, hLib, by rw [decide_eq_true rfl]; decide⟩

theorem Removes.canRemove (h : Lists c u) (hFind : c.find url = some lib)
    (hRemoves : Removes toFloat url c) : CanRemove url c u := by
  obtain ⟨c', hRun, hListed, hStored⟩ := hRemoves
  rcases hData : removeElement toFloat lib c.data with _ | data
  · rw [removeLibrary, hFind] at hRun
    change (removeElement toFloat lib c.data >>= _) = _ at hRun
    rw [hData] at hRun
    cases hRun
  obtain ⟨p, hSome, hOpen, -⟩ := removeLibrary_eq h hFind hData
  obtain rfl : (⟨p, data, c.token⟩ : LibraryContext) = c' := by
    have hSame := hSome.symm.trans hRun
    injection hSame with hSame
    injection hSame with hSame
    exact congrArg Prod.fst hSame
  have hRowid := (stored_eq_without_iff h hFind hOpen).mp hStored
  rcases of_removeFrom rfl hData with ⟨-, -, -, rfl⟩ | ⟨q, hErased, -⟩
  · have hLess := length_without h hFind
    rw [← hListed, listed, List.length_map] at hLess
    exact absurd hLess (Nat.lt_irrefl _)
  · obtain ⟨a, ha, hEq⟩ := hErased.equal
    rw [element_equals] at hEq
    obtain rfl := of_decide_eq_true hEq
    have hOdd := hErased.odd
    have hEven := hErased.even
    exact ⟨by omega, ⟨q, lib, ha, (find_some hFind).2, by omega⟩, hRowid⟩

theorem CanRemove.removes (h : Lists c u) (hFind : c.find url = some lib)
    (hCan : CanRemove url c u) : Removes toFloat url c := by
  obtain ⟨hLib, hLibUrl⟩ := find_some hFind
  obtain ⟨p, a, ha, hUrl, hEven⟩ := hCan.even
  obtain rfl : lib = a := h.eq_of_url hLib (List.mem_of_getElem? ha) (hLibUrl.trans hUrl.symm)
  have hPlace := (List.getElem?_eq_some_iff.mp ha).1
  have hOnly : ∀ j b, c.data[j]? = some b → j ≠ p →
      (element lib).equals toFloat (element b) = false := by
    intro j b hb hne
    rw [element_equals]
    apply decide_eq_false
    rintro rfl
    apply hne
    exact (List.getElem?_inj (List.getElem?_eq_some_iff.mp hb).1 h.data_nodup).mp (hb.trans ha.symm)
  have hData : removeElement toFloat lib c.data = some (c.data.filter fun a => !decide (lib = a)) := by
    have hRemovable : Removable (fun b => (element lib).equals toFloat (element b)) c.data :=
      .inr ⟨hCan.odd, p, lib, ha, hEven, by simp, hOnly⟩
    have hRemove := remove_iff_removable.mpr ⟨fun _ _ _ _ => rfl, hRemovable⟩
    simp only [element_equals] at hRemove
    rw [removeElement]
    simp only [element_equals]
    exact hRemove
  obtain ⟨q, hRun, hOpen, hOthers⟩ := removeLibrary_eq h hFind hData
  refine ⟨_, hRun, ?_, (stored_eq_without_iff h hFind hOpen).mpr hCan.rowid⟩
  rw [without_listed h hFind, listed]
  apply List.map_congr_left
  intro b hb
  obtain ⟨hMem, hNe⟩ := List.mem_filter.mp hb
  rw [Bool.not_eq_true', decide_eq_false_iff_not] at hNe
  exact congrArg library (hOthers b hMem (Ne.symm hNe))

end Removal

/-- A context whose list was read from `u`. -/
def loaded (u : Sql.Table) : LibraryContext where
  program :=
    { database :=
        { queue := [], waitAction := false, mtx := false, timers := 0, db := false
          store := ⟨Function.update (fun _ => none) table.cls (some u),
            fun a => (u.rows[a]?.map (rowObject table u)).getD .zero, u.rows.length, []⟩ }
      registered := fun name => name == table.cls
      floatText := id }
  data := List.range u.rows.length
  token := ""

theorem loaded_listed (u : Sql.Table) : (loaded u).listed = u.rows.map (rowLibrary u) := by
  apply List.ext_getElem?
  intro i
  rw [listed, List.getElem?_map, List.getElem?_map]
  change Option.map _ (List.range u.rows.length)[i]? = _
  by_cases hi : i < u.rows.length
  · rw [List.getElem?_range hi, List.getElem?_eq_getElem hi]
    have hObject : (loaded u).object i = rowObject table u u.rows[i] := by
      change (u.rows[i]?.map (rowObject table u)).getD .zero = _
      rw [List.getElem?_eq_getElem hi]
      rfl
    rw [Option.map_some, Option.map_some, hObject]
    rfl
  · have hLength : (List.range u.rows.length).length ≤ i := by
      rw [List.length_range]
      omega
    rw [List.getElem?_eq_none hLength, List.getElem?_eq_none (by omega)]
    rfl

theorem loaded_lists {u : Sql.Table} (hColumns : u.columns = columns table)
    (hUrls : ((u.rows.map (rowLibrary u)).map Library.url).Nodup) : Lists (loaded u) u := by
  refine ⟨?_, fun a ha => List.mem_range.mp ha, ?_, ?_⟩
  · exact .ready (Function.update (fun _ => none) table.cls (some u)) (beq_self_eq_true _)
      ⟨⟨⟨rfl, rfl⟩, fun i hi => by cases hi⟩, rfl⟩ ⟨Function.update_self .., hColumns⟩
  · rw [loaded_listed]
    exact hUrls
  · rw [loaded_listed]

/-- The row of a library with an url, and nothing else. -/
def urlRow (rowid : Nat) (url : String) : Sql.Row where
  rowid := rowid
  cells := fun name => if name = GitLibrary.url.name then .text url else .null

def oneLibrary : Sql.Table where
  columns := columns table
  rows := [urlRow 1 "a"]
  seq := 1
  bounds := by simp [urlRow]
  nodup := by simp

def twoLibraries : Sql.Table where
  columns := columns table
  rows := [urlRow 1 "a", urlRow 2 "b"]
  seq := 2
  bounds := by simp [urlRow]
  nodup := by simp [urlRow]

end RetroConfig.LibraryContext
