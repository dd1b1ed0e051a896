import RetroConfig.Dart.Bridge
import RetroConfig.Database.Mirror
import RetroConfig.Library.Recent
import RetroConfig.Main.CollectionItems

/-!
# `HistoryManager`: the items that were opened last

The history (`lib/utils/history_manager.dart`) is a collection of its own. Dart keeps a list of it with
the most recent item first, and for each item the row of `CollectionData` in memory and the time,
which is also in the data of the row. `insert` moves an item to the head or adds it, and removes the
rows of what is left over when there are more than 60.

The list finds an item by its link alone, the table by project and link.

A failure is a lock that is taken twice, or an exception: of the JSON library, or of Dart on a null.
-/

namespace RetroConfig.HistoryManager

open SQLite Program

/-- `history_key` (`lib/configs.dart`). -/
def historyKey : String := "history"

def ITEM_COUNT : Nat := 60

inductive Failure where
  | fault (f : Fault)
  | exception

def lift {α : Type} (x : Except Fault α) : Except Failure α := x.mapError .fault

@[simp] theorem lift_ok {α : Type} (a : α) : lift (.ok a) = .ok a := rfl

/-- `HistoryItem`: the address of the row, the item, and the time in microseconds since the epoch. -/
structure HistoryItem where
  data : Nat
  item : Option DataItem
  date : Int

/-- The program with the member `_items`. -/
structure State where
  program : Program
  items : Option (List HistoryItem)

/-! ## `HistoryItem` -/

/-- The times that a `DateTime` can have. -/
def maxMicroseconds : Int := 8640000000000000000

def fromMicroseconds (n : Int) : Int := if n.natAbs ≤ maxMicroseconds then n else 0

/-- The time in the data of a row: `jsonDecode(data)["time"]` if that is an integer. Whatever fails ends
in the epoch. -/
def readDate (text : String) : Int :=
  match (Json.parse text).bind (DataItem.find "time") with
  | some (.leaf (.unsigned n)) => fromMicroseconds n.toNat
  | some (.leaf (.integer n)) => fromMicroseconds n.toInt
  | _ => 0

/-- `DataItem::fromCollectionData`. -/
def fromCollectionData (data : Object) (p : Program) : Except Failure (Program × Option DataItem) := do
  let (p, bdata) ← lift (Model.find BookData.table (CollectionData.getTargetID data) p)
  match bdata with
  | some a =>
    match DataItem.fromData (some (p.object a)) with
    | some item => pure (p, some item)
    | none => throw .exception
  | none => pure (p, none)

/-- The constructor of `HistoryItem`. -/
def HistoryItem.new (data : Nat) (item : Option DataItem) (p : Program) :
    Except Failure (Program × HistoryItem) := do
  let (p, item) ← match item with
    | some item => pure (p, some item)
    | none => fromCollectionData (p.object data) p
  pure (p, ⟨data, item, readDate (CollectionData.getData (p.object data))⟩)

/-- The map that `update` stores. -/
def timeMap (now : Int) : Variant := .object [("time", .leaf (.long (Int64.ofInt now)))]

/-- `HistoryItem.update`. `now` is `DateTime.now()`. -/
def HistoryItem.update (now : Int) (i : HistoryItem) (p : Program) :
    Except Failure (Program × HistoryItem) := do
  let p ← lift (Model.save CollectionData.table i.data
    (p.modify i.data (CollectionData.setJSONData (timeMap now))))
  pure (p, { i with date := now })

/-! ## `HistoryManager` -/

/-- The comparison that the list is sorted with: the seconds of the difference, cut towards zero. -/
def compare (item1 item2 : HistoryItem) : Int := (item2.date - item1.date).tdiv 1000000

/-- The signs of a comparison are those of a total preorder on the elements of the list. -/
structure Consistent {α : Type} (cmp : α → α → Int) (l : List α) : Prop where
  antisymm : ∀ a ∈ l, ∀ b ∈ l, (cmp a b).sign = -(cmp b a).sign
  trans : ∀ a ∈ l, ∀ b ∈ l, ∀ c ∈ l, cmp a b ≤ 0 → cmp b c ≤ 0 → cmp a c ≤ 0

/-- `List.sort`. It sorts if the comparison is one of a total preorder; where it puts equal elements is
not said. -/
structure Sorting where
  sort : {α : Type} → (α → α → Int) → List α → List α
  perm : ∀ {α : Type} (cmp : α → α → Int) (l : List α), (sort cmp l).Perm l
  sorted : ∀ {α : Type} (cmp : α → α → Int) (l : List α), Consistent cmp l →
    (sort cmp l).Pairwise fun a b => cmp a b ≤ 0

/-- The loop of `items` over the rows. -/
def load : List Nat → Program → Except Failure (Program × List HistoryItem)
  | [], p => pure (p, [])
  | data :: rest, p => do
    let (p, i) ← HistoryItem.new data none p
    let (p, l) ← load rest p
    pure (p, i :: l)

/-- `HistoryManager.items`. -/
def items (S : Sorting) (s : State) : Except Failure (State × List HistoryItem) :=
  match s.items with
  | some l => pure (s, l)
  | none => do
    let (p, cols) ← lift (CollectionData.all historyKey s.program)
    let (p, l) ← load cols p
    pure (⟨p, some (S.sort compare l)⟩, S.sort compare l)

/-- `item.data.remove()` for all items. -/
def removeAll : List HistoryItem → Program → Except Failure Program
  | [], p => pure p
  | i :: rest, p => do
    let p ← lift (Model.remove CollectionData.table i.data p)
    removeAll rest p

/-- `HistoryManager.clear`. -/
def clear (S : Sorting) (s : State) : Except Failure State := do
  let (s, l) ← items S s
  let p ← removeAll l s.program
  pure ⟨p, some []⟩

/-- The link of an item as Dart gets it. -/
def dartLink (item : DataItem) : Bridge.DartString := Bridge.toDartString item.link

/-- The loop of `insert` that looks for the item: the last one with the link. -/
def findItem (link : Bridge.DartString) (found : Option HistoryItem) :
    List HistoryItem → Except Failure (Option HistoryItem)
  | [] => pure found
  | i :: rest =>
    match i.item with
    | none => throw .exception
    | some item => findItem link (if dartLink item = link then some i else found) rest

/-- The loop of `insert` that takes the last item away while there are more than `ITEM_COUNT`. -/
def trim (l : List HistoryItem) (p : Program) : Except Failure (Program × List HistoryItem) := do
  let p ← removeAll (l.drop ITEM_COUNT).reverse p
  pure (p, l.take ITEM_COUNT)

/-- `HistoryManager.insert`. The item that is updated lies in the list. -/
def insert (S : Sorting) (memory entryMemory : Object) (dataItem : DataItem) (now : Int) (s : State) :
    Except Failure State := do
  let (s, l) ← items S s
  let foundItem ← findItem (dartLink dataItem) none l
  let (p, i, l) ← match foundItem with
    | none => do
      let (p, cData) ←
        lift (dataItem.saveToCollection memory entryMemory historyKey (.leaf .null) s.program)
      let (p, i) ← HistoryItem.new cData (some dataItem) p
      let (p, l) ← trim (i :: l) p
      pure (p, i, l)
    | some i => pure (s.program, i, i :: l.eraseP (·.data = i.data))
  let (p, i') ← i.update now p
  pure ⟨p, some (l.map fun j => if j.data = i.data then i' else j)⟩

end RetroConfig.HistoryManager
