import RetroConfig.Database.Model

/-!
# `GitLibrary`

The fields of a library of plugins (`models/GitLibrary.h`) with their getters and setters, and
the table that `GitLibrary::registerFields` describes.
-/

namespace RetroConfig.GitLibrary

def url : Field := makeField "url" .text false

def date : Field := makeField "date" .long false

def icon : Field := makeField "icon" .text false

def title : Field := makeField "title" .text false

def token : Field := makeField "token" .text false

def table : Table where
  cls := "GitLibrary"
  fresh := .zero
  fields := [.identifier, url, date, icon, title, token]
  version := 2
  nodup := by decide
  identifier_mem := by decide
  primary := by decide

def getUrl (o : Object) : String := o.get url

def getToken (o : Object) : String := o.get token

def setUrl (v : String) (o : Object) : Object := o.set url v

def setDate (v : Int64) (o : Object) : Object := o.set date v

def setIcon (v : String) (o : Object) : Object := o.set icon v

def setTitle (v : String) (o : Object) : Object := o.set title v

def setToken (v : String) (o : Object) : Object := o.set token v

theorem table_columns : table.Columns := by decide

theorem stored_eq : table.stored = [url, date, icon, title, token] := by decide

end RetroConfig.GitLibrary
