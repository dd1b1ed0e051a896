import RetroConfig.Database.SQLite

/-!
# `BookData`

The fields of the record of an item (`models/BookData.h`) with the getters and setters that
`DataItem` uses, and the table that `BookData::registerFields` describes.
-/

namespace RetroConfig.BookData

def title : Field := makeField "title" .text false

def summary : Field := makeField "summary" .text false

def picture : Field := makeField "picture" .text false

def subtitle : Field := makeField "subtitle" .text false

def link : Field := makeField "link" .text false

def data : Field := makeField "data" .text false

def projectKey : Field := makeField "project_key" .text true

def subItems : Field := makeField "subitems" .text false

def type : Field := makeField "type" .integer false

def flag : Field := makeField "flag" .integer false

def date : Field := makeField "date" .long false

/-- The constructor `BookData::BookData`, in memory that held `o`. -/
def construct (o : Object) : Object :=
  ((o.construct.put date (0 : Int64)).put type (0 : Int32)).put flag (0 : Int32)

def table : Table where
  cls := "BookData"
  fresh := construct .zero
  fields := [.identifier, title, summary, picture, subtitle, link, data, projectKey, subItems, type,
    flag, date]
  version := 1
  nodup := by decide
  identifier_mem := by decide
  primary := by decide

def getTitle (o : Object) : String := o.get title

def getSummary (o : Object) : String := o.get summary

def getPicture (o : Object) : String := o.get picture

def getSubtitle (o : Object) : String := o.get subtitle

def getLink (o : Object) : String := o.get link

def getData (o : Object) : String := o.get data

def getProjectKey (o : Object) : String := o.get projectKey

def getType (o : Object) : Int32 := o.get type

def setTitle (v : String) (o : Object) : Object := o.set title v

def setSummary (v : String) (o : Object) : Object := o.set summary v

def setPicture (v : String) (o : Object) : Object := o.set picture v

def setSubtitle (v : String) (o : Object) : Object := o.set subtitle v

def setLink (v : String) (o : Object) : Object := o.set link v

def setData (v : String) (o : Object) : Object := o.set data v

def setProjectKey (v : String) (o : Object) : Object := o.set projectKey v

def setType (v : Int32) (o : Object) : Object := o.set type v

/-- `new BookData()`, with the address of the record. The constructor does not set `changed`, so
it is what `memory` held. -/
def new (memory : Object) (p : Program) : Program × Nat :=
  (p.setStore (p.store.alloc (construct memory)), p.store.next)

theorem object_new (memory : Object) (p : Program) :
    (new memory p).1.object p.store.next = construct memory := Function.update_self ..

theorem table_columns : table.Columns := by decide

theorem stored_eq : table.stored =
    [title, summary, picture, subtitle, link, data, projectKey, subItems, type, flag, date] := by
  decide

theorem changed_construct (memory : Object) : (construct memory).changed = memory.changed := rfl

theorem get_construct_of_ne (memory : Object) {f : Field} (hDate : f.name ≠ date.name)
    (hType : f.name ≠ type.name) (hFlag : f.name ≠ flag.name) :
    (construct memory).get f = memory.construct.get f :=
  ((Object.get_put_of_ne _ _ hFlag.symm).trans (Object.get_put_of_ne _ _ hType.symm)).trans
    (Object.get_put_of_ne _ _ hDate.symm)

theorem identifier_construct (memory : Object) : (construct memory).identifier = -1 :=
  (get_construct_of_ne memory (by decide) (by decide) (by decide)).trans
    (Object.identifier_construct memory)

/-- A new record holds nothing. -/
theorem get_construct (memory : Object) {f : Field} (hf : f ∈ table.stored) :
    (construct memory).get f = f.type.zero := by
  have hText : ∀ g : Field, g.type = .text → g.name ≠ Field.identifier.name → g.name ≠ date.name →
      g.name ≠ type.name → g.name ≠ flag.name → (construct memory).get g = g.type.zero := by
    intro g hText hId hDate hType hFlag
    rw [get_construct_of_ne memory hDate hType hFlag]
    exact (Object.get_put_of_ne _ _ hId.symm).trans (if_pos hText)
  rw [stored_eq] at hf
  simp only [List.mem_cons, List.not_mem_nil, or_false] at hf
  rcases hf with rfl | rfl | rfl | rfl | rfl | rfl | rfl | rfl | rfl | rfl | rfl
  iterate 8 exact hText _ rfl (by decide) (by decide) (by decide) (by decide)
  · exact (Object.get_put_of_ne _ _ (by decide)).trans (Object.get_put ..)
  · exact Object.get_put ..
  · exact ((Object.get_put_of_ne _ _ (by decide)).trans (Object.get_put_of_ne _ _ (by decide))).trans
      (Object.get_put ..)

end RetroConfig.BookData
