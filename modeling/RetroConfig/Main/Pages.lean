import RetroConfig.Main.Context
import RetroConfig.Main.DataItem
import RetroConfig.Models.KeyValue

/-!
# The caches of different pages

The list of a Project page and its time are saved under two keys, `project:url` and
`project:url-time` (`Context::save`, `Context::saveTime`). All pages share the one table of
`KeyValue`, so a page whose url ends in `-time` has its list where another page has its time.

`save_frame_iff` says that a save of one page leaves the other alone exactly if none of its two
keys is a key of the other. `saveBoth_represents` connects the map of texts that the pages use
with the table.
-/

namespace RetroConfig.Context

/-- `DataItem::toJSON`, `DataItem::fromJSON` and `DataItem::setProjectKey`. -/
def dataItem : DataItem RetroConfig.DataItem where
  toJSON arr := some (RetroConfig.DataItem.toJSON arr)
  fromJSON := RetroConfig.DataItem.fromJSON
  setProjectKey key item := { item with projectKey := key }

/-- The list of items and the timestamp that `Context::load` obtains. -/
def obtained (page : Page) (store : Store) : Option (List RetroConfig.DataItem) × Nat :=
  (if store.get (saveKey page) ≠ "" then RetroConfig.DataItem.fromJSON (store.get (saveKey page))
    else some [],
   savedTime page store)

/-- `load` returns the list, and compares the timestamp with the clock. -/
theorem load_eq_obtained (page : Page) (now : Nat) (store : Store) :
    load dataItem page now store = (obtained page store).1.map fun data =>
      (data, decide ((expireTime : Int) < (now : Int) - ((obtained page store).2 : Int))) := by
  unfold load obtained
  dsimp only
  split
  · have hFrom : dataItem.fromJSON = RetroConfig.DataItem.fromJSON := rfl
    rw [hFrom]
    cases RetroConfig.DataItem.fromJSON (store.get (saveKey page)) <;> rfl
  · rfl

/-- A call of `Context::save`. -/
structure Save where
  page : Page
  now : Nat
  arr : List RetroConfig.DataItem

def Save.perform (s : Save) (store : Store) : Store :=
  (save dataItem s.page s.now s.arr store).getD store

/-- The store after a sequence of saves. -/
def saves (store : Store) (ss : List Save) : Store := ss.foldl (fun store s => s.perform store) store

/-! ## Keys -/

/-- The two keys of a page. -/
def keys (page : Page) : List String := [saveKey page, saveKey page ++ timeTail]

/-- No key of one page is a key of the other, as far as SQLite reads them. -/
def Apart (p q : Page) : Prop := ∀ k ∈ keys p, ∀ l ∈ keys q, Text.cString k ≠ Text.cString l

/-- The texts of a page have no NUL. -/
def Page.NulFree (page : Page) : Prop := Text.NulFree page.projectKey ∧ Text.NulFree page.url

theorem Page.NulFree.saveKey {page : Page} (h : page.NulFree) : Text.NulFree (saveKey page) := by
  have hColon : Text.NulFree ":" := by decide
  unfold Text.NulFree Context.saveKey at *
  rw [String.toList_append, String.toList_append, List.mem_append, List.mem_append]
  rintro ((hKey | hMid) | hUrl)
  · exact h.1 hKey
  · exact hColon hMid
  · exact h.2 hUrl

theorem nulFree_timeTail {text : String} (h : Text.NulFree text) :
    Text.NulFree (text ++ timeTail) := by
  have hTail : Text.NulFree timeTail := by decide
  unfold Text.NulFree at *
  rw [String.toList_append, List.mem_append]
  rintro (hText | hMem)
  · exact h hText
  · exact hTail hMem

/-- A text up to the first `:` and the text behind it are determined by the whole. -/
theorem append_colon_inj {a b c d : List Char} (ha : ':' ∉ a) (hc : ':' ∉ c)
    (h : a ++ ':' :: b = c ++ ':' :: d) : a = c ∧ b = d := by
  induction a generalizing c with
  | nil =>
    cases c with
    | nil => exact ⟨rfl, (List.cons.inj h).2⟩
    | cons y c =>
      have hHead : ':' = y := (List.cons.inj h).1
      exact absurd (hHead ▸ List.mem_cons_self) hc
  | cons x a ih =>
    cases c with
    | nil =>
      have hHead : x = ':' := (List.cons.inj h).1
      exact absurd (hHead ▸ List.mem_cons_self) ha
    | cons y c =>
      obtain ⟨hHead, hTail⟩ := List.cons.inj h
      obtain ⟨hLeft, hRight⟩ := ih (fun hMem => ha (List.mem_cons_of_mem x hMem))
        (fun hMem => hc (List.mem_cons_of_mem y hMem)) hTail
      exact ⟨by rw [hHead, hLeft], hRight⟩

/-- The key of a page with a tail is that of another page exactly if the projects are the same
and the url with the tail is the other url. -/
theorem saveKey_append_eq_iff {p q : Page} (hp : ':' ∉ p.projectKey.toList)
    (hq : ':' ∉ q.projectKey.toList) (tail : String) :
    saveKey p ++ tail = saveKey q ↔ p.projectKey = q.projectKey ∧ p.url ++ tail = q.url := by
  constructor
  · intro h
    have hList := congrArg String.toList h
    simp only [saveKey, String.toList_append, List.append_assoc] at hList
    obtain ⟨hKey, hUrl⟩ := append_colon_inj hp hq hList
    exact ⟨String.toList_inj.mp hKey,
      String.toList_inj.mp (by rw [String.toList_append]; exact hUrl)⟩
  · rintro ⟨hKey, hUrl⟩
    rw [saveKey, saveKey, ← hUrl, hKey, String.append_assoc]

/-- When two different pages without a NUL are apart. -/
theorem apart_iff {p q : Page} (hp : ':' ∉ p.projectKey.toList) (hq : ':' ∉ q.projectKey.toList)
    (hne : p ≠ q) (hNulP : p.NulFree) (hNulQ : q.NulFree) :
    Apart p q ↔ ¬ (p.projectKey = q.projectKey ∧
      (p.url = q.url ++ timeTail ∨ q.url = p.url ++ timeTail)) := by
  have hSame : saveKey p ≠ saveKey q := by
    intro h
    have hEmpty : saveKey p ++ "" = saveKey q := by rw [String.append_empty, h]
    obtain ⟨hKey, hUrl⟩ := (saveKey_append_eq_iff hp hq "").mp hEmpty
    rw [String.append_empty] at hUrl
    obtain ⟨projectKey, url⟩ := p
    cases hKey
    cases hUrl
    exact hne rfl
  have hPQ := saveKey_append_eq_iff hp hq timeTail
  have hQP := saveKey_append_eq_iff hq hp timeTail
  have hTimes : saveKey p ++ timeTail ≠ saveKey q ++ timeTail := by
    intro h
    have hList := congrArg String.toList h
    rw [String.toList_append, String.toList_append] at hList
    exact hSame (String.toList_inj.mp (List.append_cancel_right hList))
  simp only [Apart, keys, List.forall_mem_cons, List.not_mem_nil, false_imp_iff, implies_true,
    and_true, Text.cString_of_nulFree hNulP.saveKey, Text.cString_of_nulFree hNulQ.saveKey,
    Text.cString_of_nulFree (nulFree_timeTail hNulP.saveKey),
    Text.cString_of_nulFree (nulFree_timeTail hNulQ.saveKey)]
  constructor
  · rintro ⟨⟨-, hLeft⟩, hRight, -⟩ ⟨hKey, hUrl | hUrl⟩
    · exact hLeft (hQP.mpr ⟨hKey.symm, hUrl.symm⟩).symm
    · exact hRight (hPQ.mpr ⟨hKey, hUrl.symm⟩)
  · intro h
    refine ⟨⟨hSame, ?_⟩, ?_, hTimes⟩
    · intro hEq
      obtain ⟨hKey, hUrl⟩ := hQP.mp hEq.symm
      exact h ⟨hKey.symm, Or.inl hUrl.symm⟩
    · intro hEq
      obtain ⟨hKey, hUrl⟩ := hPQ.mp hEq
      exact h ⟨hKey, Or.inr hUrl.symm⟩

/-! ## Saves -/

theorem perform_eq (s : Save) (store : Store) : s.perform store =
    (store.set (saveKey s.page) (RetroConfig.DataItem.toJSON s.arr)).set (saveKey s.page ++ timeTail)
      s.now.repr := by
  simp only [Save.perform, save, dataItem, saveTime, Option.bind_eq_bind, Option.bind_some,
    Option.pure_def, Option.getD_some]

/-- A save writes its two keys, the time last, and no other. -/
theorem get_perform (s : Save) (store : Store) (key : String) :
    (s.perform store).get key =
      if Text.cString key = Text.cString (saveKey s.page ++ timeTail) then s.now.repr
      else if Text.cString key = Text.cString (saveKey s.page) then
        Text.cString (RetroConfig.DataItem.toJSON s.arr)
      else store.get key := by
  rw [perform_eq, get_set, get_set, Text.cString_of_nulFree (Text.nulFree_repr s.now)]

theorem obtained_perform {s : Save} {q : Page} (hApart : Apart s.page q) (store : Store) :
    obtained q (s.perform store) = obtained q store := by
  have hGet : ∀ l ∈ keys q, (s.perform store).get l = store.get l := by
    intro l hl
    rw [get_perform, if_neg fun h => hApart (saveKey s.page ++ timeTail) (by simp [keys]) l hl h.symm,
      if_neg fun h => hApart (saveKey s.page) (by simp [keys]) l hl h.symm]
  have hList := hGet (saveKey q) (by simp [keys])
  have hTime := hGet (saveKey q ++ timeTail) (by simp [keys])
  unfold obtained savedTime
  rw [hList, hTime]

/-- The texts that the proof below saves: a list of one item, an empty list, and a time. -/
theorem fromJSON_one : (RetroConfig.DataItem.fromJSON (RetroConfig.DataItem.toJSON [.new])).map
    List.length = some 1 := by
  have hPlain : ∀ item ∈ [RetroConfig.DataItem.new], RetroConfig.DataItem.Plain item.data := by
    intro item hItem
    obtain rfl := List.mem_singleton.mp hItem
    exact RetroConfig.DataItem.plain_leaf fun _ _ _ h => by cases h
  rw [RetroConfig.DataItem.fromJSON_toJSON hPlain, List.mapM_cons,
    RetroConfig.DataItem.readItem_itemJson]
  rfl

theorem fromJSON_empty :
    RetroConfig.DataItem.fromJSON (RetroConfig.DataItem.toJSON []) = some [] := by
  rw [RetroConfig.DataItem.fromJSON_toJSON fun item hItem => by cases hItem]
  rfl

theorem fromJSON_time : RetroConfig.DataItem.fromJSON (2 : Nat).repr = some [] := by
  have hDump : (2 : Nat).repr = Json.dump (.leaf (.unsigned 2)) := by decide
  have hParse : Json.parse (2 : Nat).repr = some (.leaf (.unsigned 2)) := by
    rw [hDump, Json.parse_dump (ValueTree.all_leaf.mpr rfl) ValueTree.wellFormed_leaf]
    rfl
  rw [RetroConfig.DataItem.fromJSON, if_neg (repr_ne_empty 2), hParse]
  rfl

theorem obtained_of_get {q : Page} {store : Store} {text : String}
    (h : store.get (saveKey q) = text) (hText : text ≠ "") :
    (obtained q store).1 = RetroConfig.DataItem.fromJSON text := by
  rw [obtained, h]
  exact if_pos hText

/-- A page with one item is saved, and then another page with none: what `load` obtains for
the first has changed if a key is shared. -/
theorem obtained_perform_ne {p q : Page} (hNot : ¬ Apart p q) (store : Store) :
    obtained q (Save.perform ⟨p, 2, []⟩ (Save.perform ⟨q, 1, [.new]⟩ store)) ≠
      obtained q (Save.perform ⟨q, 1, [.new]⟩ store) := by
  obtain ⟨old, hOld⟩ : ∃ old, old = Save.perform ⟨q, 1, [.new]⟩ store := ⟨_, rfl⟩
  obtain ⟨after, hAfter⟩ : ∃ after, after = Save.perform ⟨p, 2, []⟩ old := ⟨_, rfl⟩
  have hOne : Text.cString (RetroConfig.DataItem.toJSON [.new]) =
      RetroConfig.DataItem.toJSON [.new] := by decide
  have hEmpty : Text.cString (RetroConfig.DataItem.toJSON []) = "[]" := by decide
  rw [← hOld, ← hAfter]
  intro hSame
  have hSaved : savedTime q after = 1 := by
    refine (congrArg Prod.snd hSame).trans (savedTime_of_get ?_)
    rw [hOld, get_perform, if_pos rfl]
  by_cases hTimes : Text.cString (saveKey q ++ timeTail) = Text.cString (saveKey p ++ timeTail)
  · have hNew : savedTime q after = 2 := by
      apply savedTime_of_get
      rw [hAfter, get_perform, if_pos hTimes]
    omega
  by_cases hList : Text.cString (saveKey q ++ timeTail) = Text.cString (saveKey p)
  · have hGet : after.get (saveKey q ++ timeTail) = "[]" := by
      rw [hAfter, get_perform, if_neg hTimes, if_pos hList, hEmpty]
    have hNew : savedTime q after = atoll "[]" := by
      rw [savedTime, hGet]
      exact if_neg (by decide)
    rw [hNew] at hSaved
    exact absurd hSaved (by decide)
  -- the time of `q` is out of reach, so it is the list that is lost
  have hShared : Text.cString (saveKey q) = Text.cString (saveKey p ++ timeTail) ∨
      Text.cString (saveKey q) = Text.cString (saveKey p) := by
    simp only [Apart, keys, List.forall_mem_cons, List.not_mem_nil, false_imp_iff, implies_true,
      and_true] at hNot
    by_contra hNone
    obtain ⟨hNoTime, hNoList⟩ := not_or.mp hNone
    exact hNot ⟨⟨Ne.symm hNoList, Ne.symm hList⟩, Ne.symm hNoTime, Ne.symm hTimes⟩
  have hOwn : Text.cString (saveKey q) ≠ Text.cString (saveKey q ++ timeTail) := by
    intro hEq
    rw [hEq] at hShared
    exact hShared.elim hTimes hList
  have hBefore : (obtained q old).1.map List.length = some 1 := by
    have hGet : old.get (saveKey q) = RetroConfig.DataItem.toJSON [.new] := by
      rw [hOld, get_perform, if_neg hOwn, if_pos rfl, hOne]
    rw [obtained_of_get hGet (by decide), fromJSON_one]
  have hNow : (obtained q after).1 = some [] := by
    have hGet := get_perform ⟨p, 2, []⟩ old (saveKey q)
    rw [← hAfter] at hGet
    by_cases hKey : Text.cString (saveKey q) = Text.cString (saveKey p ++ timeTail)
    · rw [if_pos hKey] at hGet
      rw [obtained_of_get hGet (repr_ne_empty 2), fromJSON_time]
    · rw [if_neg hKey, if_pos (hShared.resolve_left hKey), hEmpty] at hGet
      rw [obtained_of_get hGet (by decide)]
      exact fromJSON_empty
  rw [← hSame, hNow] at hBefore
  exact absurd hBefore (by decide)

/-- After any saves, from any content of the store, a save of one page never changes what `load`
obtains for a different one exactly if the pages are apart; and pages without a NUL are apart
unless they are of one project and the url of one is that of the other followed by `-time`. -/
theorem save_frame_iff (store : Store) (p q : Page) (hp : ':' ∉ p.projectKey.toList)
    (hq : ':' ∉ q.projectKey.toList) (hne : p ≠ q) :
    ((∀ (ss : List Save) (now : Nat) (arr : List RetroConfig.DataItem),
      obtained q (Save.perform ⟨p, now, arr⟩ (saves store ss)) = obtained q (saves store ss)) ↔
        Apart p q) ∧
      (p.NulFree → q.NulFree → (Apart p q ↔ ¬ (p.projectKey = q.projectKey ∧
        (p.url = q.url ++ timeTail ∨ q.url = p.url ++ timeTail)))) := by
  refine ⟨⟨?_, ?_⟩, apart_iff hp hq hne⟩
  · intro h
    by_contra hNot
    have hKept := h [⟨q, 1, [.new]⟩] 2 []
    simp only [saves, List.foldl_cons, List.foldl_nil] at hKept
    exact obtained_perform_ne hNot store hKept
  · exact fun hApart ss now arr => obtained_perform (s := ⟨p, now, arr⟩) hApart _

theorem save_frame_home_news :
    (⟨"p", "home"⟩ : Page) ≠ ⟨"p", "news"⟩ ∧
      obtained ⟨"p", "news"⟩ (Save.perform ⟨⟨"p", "home"⟩, 7, [.new]⟩ fun _ => "") =
        obtained ⟨"p", "news"⟩ fun _ => "" := by
  have hne : (⟨"p", "home"⟩ : Page) ≠ ⟨"p", "news"⟩ := by simp
  have hFrame := save_frame_iff (fun _ => "") ⟨"p", "home"⟩ ⟨"p", "news"⟩ (by decide) (by decide) hne
  have hApart : Apart ⟨"p", "home"⟩ ⟨"p", "news"⟩ :=
    (hFrame.2 ⟨by decide, by decide⟩ ⟨by decide, by decide⟩).mpr (by decide)
  have hKept := hFrame.1.mpr hApart [] 7 [.new]
  simp only [saves] at hKept
  exact ⟨hne, hKept⟩

/-- A save of the page `u-time` puts its list where the page `u` has its time. -/
theorem save_frame_fails :
    (⟨"p", "u-time"⟩ : Page) ≠ ⟨"p", "u"⟩ ∧
      obtained ⟨"p", "u"⟩ (Save.perform ⟨⟨"p", "u-time"⟩, 2, []⟩
        (saves (fun _ => "") [⟨⟨"p", "u"⟩, 1, [.new]⟩])) ≠
      obtained ⟨"p", "u"⟩ (saves (fun _ => "") [⟨⟨"p", "u"⟩, 1, [.new]⟩]) := by
  refine ⟨by simp, ?_⟩
  simp only [saves]
  apply obtained_perform_ne
  intro hApart
  exact hApart (saveKey ⟨"p", "u-time"⟩) (by decide) (saveKey ⟨"p", "u"⟩ ++ timeTail) (by decide)
    (by decide)

/-! ## The table behind the store -/

/-- The two calls of `KeyValue::set` in `Context::save`. -/
def saveBoth (s : Save) (p : Program) : Except Fault Program := do
  let p ← KeyValue.set (saveKey s.page) (RetroConfig.DataItem.toJSON s.arr) p
  KeyValue.set (saveKey s.page ++ timeTail) s.now.repr p

/-- On a table that stands for a store, with room for two keys, the calls end in a table that
stands for the store after the save. -/
theorem saveBoth_represents {p : Program} {u : Sql.Table} {store : Store} {ks : List String}
    (h : Openable KeyValue.table p u) (hu : KeyValue.Represents u store ks) {s : Save}
    (hNul : s.page.NulFree)
    (hRoom : ((saveKey s.page ++ timeTail) :: saveKey s.page :: ks).toFinset.card < 2 ^ 31) :
    ∃ q w, saveBoth s p = .ok q ∧ Openable KeyValue.table q w ∧
      KeyValue.Represents w (s.perform store)
        ((saveKey s.page ++ timeTail) :: saveKey s.page :: ks) := by
  have hKey := hNul.saveKey
  have hTime := nulFree_timeTail hKey
  have hJson := RetroConfig.DataItem.nulFree_toJSON s.arr
  have hNow := Text.nulFree_repr s.now
  have hLess : (saveKey s.page :: ks).toFinset.card < 2 ^ 31 := by
    refine lt_of_le_of_lt (Finset.card_le_card ?_) hRoom
    intro x hx
    exact List.mem_toFinset.mpr (List.mem_cons_of_mem _ (List.mem_toFinset.mp hx))
  obtain ⟨q₁, w₁, hSet₁, hOpen₁, hw₁⟩ := KeyValue.set_represents h hu hKey hJson hLess
  obtain ⟨q₂, w₂, hSet₂, hOpen₂, hw₂⟩ := KeyValue.set_represents hOpen₁ hw₁ hTime hNow hRoom
  have hStore : s.perform store = Function.update (Function.update store (saveKey s.page)
      (RetroConfig.DataItem.toJSON s.arr)) (saveKey s.page ++ timeTail) s.now.repr := by
    rw [perform_eq, Store.set, Store.set, Text.cString_of_nulFree hKey, Text.cString_of_nulFree hTime,
      Text.cString_of_nulFree hJson, Text.cString_of_nulFree hNow]
  refine ⟨q₂, w₂, ?_, hOpen₂, ?_⟩
  · rw [saveBoth, hSet₁]
    exact hSet₂
  · rw [hStore]
    exact hw₂

end RetroConfig.Context
