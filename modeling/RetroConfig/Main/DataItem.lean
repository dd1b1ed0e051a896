import RetroConfig.Library.CString
import RetroConfig.Utils.Json

/-!
# `DataItem`: lists of items as JSON texts

`DataItem::toJSON` (`main/DataItem.cpp`) writes a list of items as a JSON array, one object an
item. An empty text and data that test false are left out. `DataItem::fromJSON` reads such a
text; where it finds a string for the data, it takes it for a JSON text of its own.

So data that are `false` or `0` come back as null, and data that are a string come back as what
the string is a JSON text of, if it is one at all. `fromJSON_toJSON_iff` says that all other
items are read back as they were written.

A JSON exception of nlohmann is `none`.
-/

namespace RetroConfig

structure DataItem where
  title : String
  summary : String
  picture : String
  subtitle : String
  link : String
  projectKey : String
  data : Variant
  type : Int32

namespace DataItem

/-- `new DataItem()`. -/
def new : DataItem := ⟨"", "", "", "", "", "", .leaf .null, 0⟩

/-! ## Writing -/

/-- The value that `GET` assigns, if any. -/
def getText (s : String) : Option Json := if s = "" then none else some (.leaf (.string s))

/-- The assignments to the members of `item_json`, in their order. -/
def members (item : DataItem) : List (String × Option Json) :=
  [("title", getText item.title),
   ("summary", getText item.summary),
   ("picture", getText item.picture),
   ("subtitle", getText item.subtitle),
   ("link", getText item.link),
   ("type", some (.leaf (.integer item.type.toInt64))),
   ("data", if Variant.toBool item.data then some (JSON.serialize item.data) else none)]

def itemJson (item : DataItem) : Json :=
  .object (OrderedMap.ofPairs (item.members.filterMap fun m => m.2.map (Prod.mk m.1)))

/-- `DataItem::toJSON`. -/
def toJSON (arr : List DataItem) : String := Json.dump (.array (arr.map itemJson))

/-! ## Reading -/

/-- `find` and `contains`: only an object has members. -/
def find (key : String) : Json → Option Json
  | .object members => members.lookup key
  | _ => none

/-- `SET`: a member that is there must be a string. -/
def setText (val : Json) (key : String) : Option String :=
  match find key val with
  | none => some ""
  | some (.leaf (.string s)) => some s
  | some _ => none

/-- `get<int>`: a number or a boolean, cut to an `int`. -/
def getInt : Json → Option Int32
  | .leaf (.unsigned n) => some (Int32.ofNat n.toNat)
  | .leaf (.integer n) => some (Int32.ofInt n.toInt)
  | .leaf (.boolean b) => some (if b then 1 else 0)
  | .leaf (.float negative digits exponent) =>
    let n := digits * 10 ^ exponent.toNat / 10 ^ (-exponent).toNat
    some (Int32.ofInt (if negative then -n else n))
  | _ => none

/-- The data behind a member `data`: a string is parsed once more. -/
def decodeData : Json → Option Variant
  | .leaf (.string jstr) => (Json.parse jstr).map JSON.parse
  | data => some (JSON.parse data)

/-- The data of an item. -/
def readData (val : Json) : Option Variant :=
  match find "data" val with
  | none => some new.data
  | some data => decodeData data

/-- One round of the loop of `DataItem::fromJSON`. -/
def readItem (val : Json) : Option DataItem := do
  let title ← setText val "title"
  let summary ← setText val "summary"
  let picture ← setText val "picture"
  let subtitle ← setText val "subtitle"
  let link ← setText val "link"
  let type ← (find "type" val).bind getInt
  let data ← readData val
  pure { new with title, summary, picture, subtitle, link, type, data }

/-- `DataItem::fromJSON`. -/
def fromJSON (json : String) : Option (List DataItem) :=
  if json = "" then some []
  else (Json.parse json).bind fun jarr =>
    match jarr with
    | .array vals => vals.mapM readItem
    | _ => some []

/-! ## One item -/

/-- Two items agree in what `toJSON` is to keep: everything but the project key. -/
structure Same (a b : DataItem) : Prop where
  title : a.title = b.title
  summary : a.summary = b.summary
  picture : a.picture = b.picture
  subtitle : a.subtitle = b.subtitle
  link : a.link = b.link
  type : a.type = b.type
  data : a.data = b.data

/-- Data built from null, booleans, integers, strings, arrays and maps. -/
structure Plain (d : Variant) : Prop where
  wellFormed : d.WellFormed
  noFloat : d.All fun a => ∀ negative digits exponent, a ≠ .float negative digits exponent

/-- The data that survive: neither `false` nor `0` nor a string. -/
def Kept (d : Variant) : Prop :=
  d ≠ .leaf (.boolean false) ∧ d ≠ .leaf (.long 0) ∧ ∀ s, d ≠ .leaf (.string s)

theorem parseScalar_reread (a : RetroConfig.Plain) :
    JSON.parseScalar (Json.reread (JSON.serializeScalar a)) = a := by
  cases a with
  | long n =>
    change JSON.parseScalar (if n.toInt < 0 then .integer n
      else .unsigned (UInt64.ofNat n.toInt.natAbs)) = .long n
    split
    · rfl
    · next hn =>
      have hNat : ((UInt64.ofNat n.toInt.natAbs).toInt64) = n := by
        rw [UInt64.toInt64_ofNat', ← Int64.ofInt_eq_ofNat, Int.natAbs_of_nonneg (by omega),
          Int64.ofInt_toInt]
      exact congrArg RetroConfig.Plain.long hNat
  | _ => rfl

/-- Data are read back from the tree that `parse` makes of their text. -/
theorem parse_rereadTree_serialize {d : Variant} (h : d.WellFormed) :
    JSON.parse (Json.rereadTree (JSON.serialize d)) = d := by
  rw [JSON.parse, Json.rereadTree, JSON.serialize, ValueTree.map_map _ _ h,
    ValueTree.map_map _ _ h]
  simp only [parseScalar_reread]
  exact ValueTree.map_id h

theorem members_nodup (item : DataItem) : (item.members.map Prod.fst).Nodup := by
  change ["title", "summary", "picture", "subtitle", "link", "type", "data"].Nodup
  decide

theorem wellFormed_serialize {d : Variant} (h : Plain d) : (JSON.serialize d).WellFormed :=
  ValueTree.wellFormed_map _ h.wellFormed

theorem noFloat_serialize {d : Variant} (h : Plain d) : (JSON.serialize d).NoFloat := by
  refine ValueTree.all_map h.wellFormed (h.noFloat.imp ?_)
  intro a ha
  cases a with
  | float negative digits exponent => exact absurd rfl (ha negative digits exponent)
  | _ => rfl

/-- What is assigned to a member is a text, the type or the data. -/
theorem mem_members {item : DataItem} {m : String × Option Json} {j : Json}
    (hm : m ∈ item.members) (hj : m.2 = some j) :
    (∃ a : Scalar, a.isFloat = false ∧ j = .leaf a) ∨ j = JSON.serialize item.data := by
  have hText : ∀ s, getText s = some j → ∃ a : Scalar, a.isFloat = false ∧ j = .leaf a := by
    intro s h
    rw [getText] at h
    split at h
    · cases h
    · exact ⟨.string s, rfl, (Option.some.inj h).symm⟩
  simp only [members, List.mem_cons, List.not_mem_nil, or_false] at hm
  rcases hm with rfl | rfl | rfl | rfl | rfl | rfl | rfl
  · exact Or.inl (hText _ hj)
  · exact Or.inl (hText _ hj)
  · exact Or.inl (hText _ hj)
  · exact Or.inl (hText _ hj)
  · exact Or.inl (hText _ hj)
  · exact Or.inl ⟨_, rfl, (Option.some.inj hj).symm⟩
  · dsimp only at hj
    split at hj
    · exact Or.inr (Option.some.inj hj).symm
    · cases hj

theorem mem_itemJson {item : DataItem} {m : String × Json}
    (hm : m ∈ OrderedMap.ofPairs (item.members.filterMap fun m => m.2.map (Prod.mk m.1))) :
    (∃ a : Scalar, a.isFloat = false ∧ m.2 = .leaf a) ∨ m.2 = JSON.serialize item.data := by
  obtain ⟨n, hn, hEq⟩ := List.mem_filterMap.mp (OrderedMap.mem_ofPairs hm)
  obtain ⟨j, hj, rfl⟩ := Option.map_eq_some_iff.mp hEq
  exact mem_members hn hj

theorem wellFormed_itemJson {item : DataItem} (h : Plain item.data) : item.itemJson.WellFormed := by
  refine ValueTree.wellFormed_object.mpr ⟨OrderedMap.sorted_ofPairs _, ?_⟩
  intro m hm
  rcases mem_itemJson hm with ⟨a, -, ha⟩ | hData
  · rw [ha]
    exact ValueTree.wellFormed_leaf
  · rw [hData]
    exact wellFormed_serialize h

theorem noFloat_itemJson {item : DataItem} (h : Plain item.data) : item.itemJson.NoFloat := by
  refine ValueTree.all_object.mpr ?_
  intro m hm
  rcases mem_itemJson hm with ⟨a, hFloat, ha⟩ | hData
  · rw [ha]
    exact ValueTree.all_leaf.mpr hFloat
  · rw [hData]
    exact noFloat_serialize h

/-- A member of the object that `parse` makes of the text of an item. -/
theorem find_itemJson (item : DataItem) (key : String) :
    find key (Json.rereadTree item.itemJson) =
      ((item.members.lookup key).join).map Json.rereadTree := by
  rw [Json.rereadTree, itemJson, ValueTree.map_object _ (OrderedMap.sorted_ofPairs _), find,
    OrderedMap.lookup_map, OrderedMap.lookup_ofPairs_optional item.members_nodup]
  rfl

theorem setText_itemJson {item : DataItem} {key s : String}
    (h : item.members.lookup key = some (getText s)) :
    setText (Json.rereadTree item.itemJson) key = some s := by
  rw [setText, find_itemJson, h, Option.join_some]
  by_cases hs : s = ""
  · rw [getText, if_pos hs, hs]
    rfl
  · rw [getText, if_neg hs, Option.map_some, Json.rereadTree, ValueTree.map_leaf]
    rfl

theorem getInt_itemJson (item : DataItem) :
    (find "type" (Json.rereadTree item.itemJson)).bind getInt = some item.type := by
  have hType : item.members.lookup "type" = some (some (.leaf (.integer item.type.toInt64))) := rfl
  rw [find_itemJson, hType, Option.join_some, Option.map_some, Json.rereadTree, ValueTree.map_leaf,
    Option.bind_some]
  change getInt (.leaf (if item.type.toInt64.toInt < 0 then .integer item.type.toInt64
    else .unsigned (UInt64.ofNat item.type.toInt64.toInt.natAbs))) = some item.type
  rw [Int32.toInt_toInt64]
  split
  · rw [getInt, Int32.toInt_toInt64, Int32.ofInt_toInt]
  · next hn =>
    have hLt : item.type.toInt.natAbs < 2 ^ 64 := by
      have := item.type.toInt_lt
      omega
    have hNat : (UInt64.ofNat item.type.toInt.natAbs).toNat = item.type.toInt.natAbs :=
      UInt64.toNat_ofNat_of_lt hLt
    rw [getInt, hNat, ← Int32.ofInt_eq_ofNat, Int.natAbs_of_nonneg (by omega), Int32.ofInt_toInt]

/-- The data of an item when it is read back. -/
def reread (d : Variant) : Option Variant :=
  if Variant.toBool d then decodeData (Json.rereadTree (JSON.serialize d)) else some new.data

theorem readData_itemJson (item : DataItem) :
    readData (Json.rereadTree item.itemJson) = reread item.data := by
  have hData : item.members.lookup "data" =
      some (if Variant.toBool item.data then some (JSON.serialize item.data) else none) := rfl
  rw [readData, find_itemJson, hData, Option.join_some, reread]
  by_cases hBool : Variant.toBool item.data = true
  · rw [if_pos hBool, if_pos hBool]
    rfl
  · rw [if_neg hBool, if_neg hBool]
    rfl

theorem readItem_itemJson (item : DataItem) :
    readItem (Json.rereadTree item.itemJson) =
      (reread item.data).map fun data => { item with projectKey := "", data := data } := by
  rw [readItem, setText_itemJson (s := item.title) rfl, setText_itemJson (s := item.summary) rfl,
    setText_itemJson (s := item.picture) rfl, setText_itemJson (s := item.subtitle) rfl,
    setText_itemJson (s := item.link) rfl, getInt_itemJson, readData_itemJson]
  cases reread item.data <;> rfl

theorem decodeData_of_ne {j : Json} (h : ∀ s, j ≠ .leaf (.string s)) :
    decodeData j = some (JSON.parse j) := by
  cases j with
  | leaf a =>
    cases a with
    | string s => exact absurd rfl (h s)
    | _ => rfl
  | array ts => rfl
  | object ms => rfl

/-- A string is not read back, since no text is the JSON text of itself as a string. -/
theorem decodeData_string (s : String) :
    decodeData (.leaf (.string s)) ≠ some (.leaf (.string s)) := by
  intro h
  obtain ⟨j, hParse, hj⟩ := Option.map_eq_some_iff.mp h
  have hSame : j = .leaf (.string s) := by
    cases j with
    | leaf a =>
      rw [JSON.parse, ValueTree.map_leaf] at hj
      cases a with
      | string t =>
        obtain rfl : t = s := RetroConfig.Plain.string.inj (ValueTree.leaf.inj hj)
        rfl
      | _ => cases ValueTree.leaf.inj hj
    | array ts =>
      rw [JSON.parse, ValueTree.map_array] at hj
      cases hj
    | object ms =>
      rw [JSON.parse, ValueTree.map] at hj
      cases hj
  exact Json.parse_ne_string s (hSame ▸ hParse)

/-- The data are read back exactly if they are kept. -/
theorem reread_eq_iff {d : Variant} (h : Plain d) : reread d = some d ↔ Kept d := by
  have hBack := parse_rereadTree_serialize h.wellFormed
  by_cases hString : ∃ s, d = .leaf (.string s)
  · obtain ⟨s, rfl⟩ := hString
    have hTree : Json.rereadTree (JSON.serialize (.leaf (.string s))) = .leaf (.string s) := by
      rw [JSON.serialize, Json.rereadTree, ValueTree.map_leaf, ValueTree.map_leaf]
      rfl
    have hReread : reread (.leaf (.string s)) = decodeData (.leaf (.string s)) := by
      rw [reread, hTree]
      rfl
    rw [hReread]
    exact iff_of_false (decodeData_string s) fun hKept => hKept.2.2 s rfl
  · have hNot : ∀ s, d ≠ .leaf (.string s) := fun s hs => hString ⟨s, hs⟩
    have hTree : ∀ s, Json.rereadTree (JSON.serialize d) ≠ .leaf (.string s) := by
      intro s hs
      rw [hs, JSON.parse, ValueTree.map_leaf] at hBack
      exact hNot s hBack.symm
    have hKept : Kept d ↔ (Variant.toBool d = true ∨ d = .leaf .null) := by
      cases d with
      | leaf a =>
        cases a with
        | string s => exact absurd rfl (hNot s)
        | float negative digits exponent =>
          exact absurd rfl (ValueTree.all_leaf.mp h.noFloat negative digits exponent)
        | null => simp [Kept]
        | boolean b => cases b <;> simp [Kept, Variant.toBool]
        | long n => simp [Kept, Variant.toBool]
      | array ts => simp [Kept, Variant.toBool]
      | object ms => simp [Kept, Variant.toBool]
    rw [hKept, reread]
    by_cases hBool : Variant.toBool d = true
    · rw [if_pos hBool, decodeData_of_ne hTree, hBack]
      exact iff_of_true rfl (Or.inl hBool)
    · rw [if_neg hBool]
      constructor
      · exact fun hNull => Or.inr (Option.some.inj hNull).symm
      · exact fun hNull => congrArg some (hNull.resolve_left hBool).symm

theorem same_readItem_iff {item : DataItem} (h : Plain item.data) :
    (∃ item', readItem (Json.rereadTree item.itemJson) = some item' ∧ Same item item') ↔
      Kept item.data := by
  rw [← reread_eq_iff h, readItem_itemJson]
  constructor
  · rintro ⟨item', hRead, hSame⟩
    obtain ⟨data, hData, rfl⟩ := Option.map_eq_some_iff.mp hRead
    rw [hData]
    exact congrArg some hSame.data.symm
  · intro hData
    rw [hData]
    exact ⟨_, rfl, ⟨rfl, rfl, rfl, rfl, rfl, rfl, rfl⟩⟩

/-! ## Lists -/

theorem dump_ne_empty (j : Json) (hFloat : j.NoFloat) : j.dump ≠ "" := by
  obtain ⟨c, cs, hDump, -⟩ := Json.dumpTree_head j hFloat
  intro h
  have hNil : (Json.dump j).toList = [] := by rw [h]; rfl
  rw [Json.dump, String.toList_ofList, hDump] at hNil
  cases hNil

theorem nulFree_toJSON (items : List DataItem) : Text.NulFree (toJSON items) := by
  rw [Text.NulFree, toJSON, Json.dump, String.toList_ofList]
  exact Json.nul_notMem_dumpTree _

theorem fromJSON_toJSON {items : List DataItem} (h : ∀ item ∈ items, Plain item.data) :
    fromJSON (toJSON items) = items.mapM fun item => readItem (Json.rereadTree item.itemJson) := by
  have hFloat : Json.NoFloat (.array (items.map itemJson)) := by
    refine ValueTree.all_array.mpr ?_
    intro j hj
    obtain ⟨item, hItem, rfl⟩ := List.mem_map.mp hj
    exact noFloat_itemJson (h item hItem)
  have hWf : ValueTree.WellFormed (.array (items.map itemJson)) := by
    refine ValueTree.wellFormed_array.mpr ?_
    intro j hj
    obtain ⟨item, hItem, rfl⟩ := List.mem_map.mp hj
    exact wellFormed_itemJson (h item hItem)
  rw [fromJSON, toJSON, if_neg (dump_ne_empty _ hFloat), Json.parse_dump hFloat hWf,
    Json.rereadTree, ValueTree.map_array, Option.bind_some]
  simp only [List.map_map, List.mapM_map]
  rfl

/-- A list of items is read back from its text, item by item, exactly if no item has data
that are `false`, `0` or a string. -/
theorem fromJSON_toJSON_iff (items : List DataItem) (h : ∀ item ∈ items, Plain item.data) :
    (∃ items', fromJSON (toJSON items) = some items' ∧ List.Forall₂ Same items items') ↔
      ∀ item ∈ items, Kept item.data := by
  rw [fromJSON_toJSON h]
  induction items with
  | nil => simp
  | cons item items ih =>
    have hHead := same_readItem_iff (h item List.mem_cons_self)
    have hTail := ih fun item hItem => h item (List.mem_cons_of_mem _ hItem)
    rw [List.forall_mem_cons, ← hHead, ← hTail, List.mapM_cons]
    constructor
    · rintro ⟨items', hRead, hSame⟩
      obtain ⟨item', hItem, hRead⟩ := Option.bind_eq_some_iff.mp hRead
      obtain ⟨rest', hRest, hRead⟩ := Option.bind_eq_some_iff.mp hRead
      obtain rfl : item' :: rest' = items' := Option.some.inj hRead
      obtain ⟨hFirst, hOthers⟩ := List.forall₂_cons.mp hSame
      exact ⟨⟨item', hItem, hFirst⟩, rest', hRest, hOthers⟩
    · rintro ⟨⟨item', hItem, hFirst⟩, rest', hRest, hOthers⟩
      exact ⟨item' :: rest', by rw [hItem, hRest]; rfl, .cons hFirst hOthers⟩

theorem plain_leaf {a : RetroConfig.Plain}
    (h : ∀ negative digits exponent, a ≠ .float negative digits exponent) : Plain (.leaf a) :=
  ⟨ValueTree.wellFormed_leaf, ValueTree.all_leaf.mpr h⟩

/-- An item whose data are an array is read back. -/
theorem fromJSON_toJSON_array :
    ∃ items', fromJSON (toJSON [{ new with title := "a", data := .array [.leaf (.long 1)] }]) =
      some items' ∧
      List.Forall₂ Same [{ new with title := "a", data := .array [.leaf (.long 1)] }] items' := by
  refine (fromJSON_toJSON_iff _ ?_).mpr ?_
  · intro item hItem
    obtain rfl := List.mem_singleton.mp hItem
    exact ⟨by simp, by simp⟩
  · intro item hItem
    obtain rfl := List.mem_singleton.mp hItem
    exact ⟨by simp, by simp, by simp⟩

/-- An item whose data are a text, and one whose data are `false`, are not: the first stops
`fromJSON` with an exception, the second is read back without data. -/
theorem fromJSON_toJSON_fails :
    fromJSON (toJSON [{ new with data := .leaf (.string "x") }]) = none ∧
      fromJSON (toJSON [{ new with data := .leaf (.boolean false) }]) = some [new] ∧
      ¬ ∃ items', fromJSON (toJSON [{ new with data := .leaf (.boolean false) }]) = some items' ∧
        List.Forall₂ Same [{ new with data := .leaf (.boolean false) }] items' := by
  have hText : Json.parse "x" = none := by
    have hScan : Json.scan (Json.scanSign '\ufeff' "x".toList).2 = (.parseError, []) := by decide
    rw [Json.parse, Json.tokens, hScan]
    rfl
  have hTree : Json.rereadTree (JSON.serialize (.leaf (.string "x"))) = .leaf (.string "x") := by
    rw [JSON.serialize, Json.rereadTree, ValueTree.map_leaf, ValueTree.map_leaf]
    rfl
  have hString : reread (.leaf (.string "x")) = none := by
    have hBool : Variant.toBool (.leaf (.string "x")) = true := rfl
    rw [reread, if_pos hBool, hTree, decodeData, hText]
    rfl
  have hSingle : ∀ d : Variant, Plain d → fromJSON (toJSON [{ new with data := d }]) =
      ((reread d).map fun data => { new with data := data }).map fun item => [item] := by
    intro d hd
    rw [fromJSON_toJSON (by intro item hItem; obtain rfl := List.mem_singleton.mp hItem; exact hd),
      List.mapM_cons, readItem_itemJson]
    cases reread d <;> rfl
  have hFalse : fromJSON (toJSON [{ new with data := .leaf (.boolean false) }]) = some [new] :=
    hSingle _ (plain_leaf fun _ _ _ h => by cases h)
  refine ⟨?_, hFalse, ?_⟩
  · rw [hSingle _ (plain_leaf fun _ _ _ h => by cases h), hString]
    rfl
  · rintro ⟨items', hRead, hSame⟩
    rw [hFalse] at hRead
    obtain rfl := Option.some.inj hRead
    cases (List.forall₂_cons.mp hSame).1.data

end DataItem

end RetroConfig
