import RetroConfig.Library.CString
import RetroConfig.Library.Sql
import Mathlib.Tactic.Common

/-!
# Model objects and their fields

`Model<T>` (`utils/database/Model.h`) describes the class `T` by a `Table`: the name of the
class, its version and a `Field` for each member that is stored, with a getter and a setter.
A member has one of six types, and an object is what its members hold, by type and name,
together with the flag `changed` that the setters raise.

`table->fields` is a `std::map` ordered by the addresses of the interned names, so nothing may
depend on its order: every result about a `Table` holds for every order of its fields.

The values of a field take three ways: into the text of a statement (`expr`), into its
parameters (`param`), and back from a column (`read`). `read_stored` says that they fit
together.
-/

namespace RetroConfig

/-- `Field::Type`. -/
inductive FieldType where
  | integer
  | long
  | real
  | text
  | blob
  | none
  deriving DecidableEq, Repr

namespace FieldType

/-- The C++ type behind a field type. A `float` is the number it stands for. The getters and
setters of a `blob` or `none` field do not exist, so such a member carries nothing. -/
def Value : FieldType → Type
  | integer => Int32
  | long => Int64
  | real => Rat
  | text => String
  | blob => Unit
  | none => Unit

instance decidableEqValue : (τ : FieldType) → DecidableEq τ.Value
  | integer => inferInstanceAs (DecidableEq Int32)
  | long => inferInstanceAs (DecidableEq Int64)
  | real => inferInstanceAs (DecidableEq Rat)
  | text => inferInstanceAs (DecidableEq String)
  | blob => inferInstanceAs (DecidableEq Unit)
  | none => inferInstanceAs (DecidableEq Unit)

/-- What a member holds after zero-initialisation. -/
def zero : (τ : FieldType) → τ.Value
  | integer => (0 : Int32)
  | long => (0 : Int64)
  | real => (0 : Rat)
  | text => ""
  | blob => ()
  | none => ()

/-- Does a `switch` over the field types have a case for it? -/
def isColumn : FieldType → Bool
  | blob => false
  | none => false
  | _ => true

/-- The affinity of the column: `INT`, `REAL` or `TEXT`. The others are no columns. -/
def affinity : FieldType → Sql.Affinity
  | text => .text
  | real => .real
  | _ => .integer

/-- The value as `SQLite::update` writes it into the statement. `floatText` is what is left
of a `float` that `%f` prints and SQLite reads back. -/
def expr (floatText : Rat → Rat) : (τ : FieldType) → τ.Value → Sql.Expr
  | integer, v => .int (Int32.toInt v)
  | long, v => .int (Int64.toInt v)
  | real, v => .real (floatText v)
  | text, _ => .param
  | blob, _ => .blank
  | none, _ => .blank

/-- The value as `SQLite::update` passes it in the parameters. -/
def param : (τ : FieldType) → τ.Value → Option String
  | text, v => some v
  | _, _ => Option.none

/-- The value of a column, by `sqlite3_column_int`, `_int64`, `_double` or `_text`. A column holds
a value of its own class or `NULL`. -/
def read : (τ : FieldType) → Sql.Cell → τ.Value
  | integer, .int n => Int32.ofInt n
  | long, .int n => Int64.ofInt n
  | real, .real q => q
  | text, .text s => Text.cString s
  | τ, _ => τ.zero

/-- The cell that a value becomes. -/
def stored (floatText : Rat → Rat) : (τ : FieldType) → τ.Value → Sql.Cell
  | integer, v => .int (Int32.toInt v)
  | long, v => .int (Int64.toInt v)
  | real, v => .real (floatText v)
  | text, v => .text (Text.cString v)
  | blob, _ => .null
  | none, _ => .null

/-- The values that a column keeps exactly: every integer, and every text without a NUL. -/
def Kept : (τ : FieldType) → τ.Value → Prop
  | integer, _ => True
  | long, _ => True
  | text, v => Text.NulFree v
  | _, _ => False

theorem read_stored (floatText : Rat → Rat) {τ : FieldType} {v : τ.Value} (h : τ.Kept v) :
    τ.read (τ.stored floatText v) = v := by
  cases τ with
  | integer => exact Int32.ofInt_toInt v
  | long => exact Int64.ofInt_toInt v
  | real => cases h
  | text =>
    change Text.cString (Text.cString v) = v
    rw [Text.cString_of_nulFree h, Text.cString_of_nulFree h]
  | blob => cases h
  | none => cases h

theorem stored_ne_null (floatText : Rat → Rat) {τ : FieldType} (h : τ.isColumn = true)
    (v : τ.Value) : τ.stored floatText v ≠ .null := by
  cases τ with
  | blob => cases h
  | none => cases h
  | _ => exact fun hNull => by cases hNull

end FieldType

/-- `Field`. Its member `limit` is never read. -/
structure Field where
  name : String
  index : Bool
  primary : Bool
  nullable : Bool
  type : FieldType
  deriving DecidableEq

/-- `makeField`, with the default values of its last two parameters. -/
def makeField (name : String) (type : FieldType) (index : Bool) : Field :=
  ⟨name, index, false, true, type⟩

/-- The field that `Model<T>::registerFields` adds first. -/
def Field.identifier : Field := ⟨"identifier", true, true, true, .integer⟩

/-! ## Objects -/

/-- An object of a model class: the flag `changed` and its members. -/
structure Object where
  changed : Bool
  members : (τ : FieldType) → String → τ.Value

namespace Object

/-- `Field::get`. -/
def get (o : Object) (f : Field) : f.type.Value := o.members f.type f.name

/-- Store a value in a member. -/
def put (o : Object) (f : Field) (v : f.type.Value) : Object :=
  { o with
    members := fun τ name =>
      if h : f.type = τ ∧ f.name = name then h.1 ▸ v else o.members τ name }

/-- `Field::set`: the setters of `DEFINE_FIELD` and `DEFINE_STRING` raise `changed` only when the
value differs. -/
def set (o : Object) (f : Field) (v : f.type.Value) : Object :=
  if o.get f = v then o else { o.put f v with changed := true }

/-- `BaseModel::done`. -/
def done (o : Object) : Object := { o with changed := false }

/-- The object that `new T` leaves in memory that held `o`: strings are empty, the identifier
is `-1`, and the other members, `changed` among them, keep what was there. -/
def construct (o : Object) : Object :=
  put { o with members := fun τ name => if τ = .text then τ.zero else o.members τ name }
    .identifier (-1 : Int32)

/-- The object that `new T()` makes for a class without a constructor of its own. -/
def zero : Object := put ⟨false, fun τ _ => τ.zero⟩ .identifier (-1 : Int32)

theorem get_put (o : Object) (f : Field) (v : f.type.Value) : (o.put f v).get f = v := by
  simp [get, put]

theorem get_put_of_ne (o : Object) {f g : Field} (v : f.type.Value) (h : f.name ≠ g.name) :
    (o.put f v).get g = o.get g := by
  simp [get, put, h]

theorem get_zero {f : Field} (h : f.name ≠ Field.identifier.name) : zero.get f = f.type.zero :=
  get_put_of_ne _ _ h.symm

@[simp] theorem get_set (o : Object) (f : Field) (v : f.type.Value) : (o.set f v).get f = v := by
  unfold set
  split
  · assumption
  · exact get_put o f v

theorem get_set_of_ne (o : Object) {f g : Field} (v : f.type.Value) (h : f.name ≠ g.name) :
    (o.set f v).get g = o.get g := by
  unfold set
  split
  · rfl
  · exact get_put_of_ne o v h

theorem set_changed (o : Object) (f : Field) (v : f.type.Value) :
    (o.set f v).changed = (o.changed || decide (o.get f ≠ v)) := by
  unfold set
  split
  · next h => simp [h]
  · next h => simp [h]

theorem set_changed_of_ne {o : Object} {f : Field} {v : f.type.Value} (h : o.get f ≠ v) :
    (o.set f v).changed = true := by
  rw [set_changed, decide_eq_true h, Bool.or_true]

theorem set_of_eq {o : Object} {f : Field} {v : f.type.Value} (h : o.get f = v) :
    o.set f v = o := if_pos h

/-- A run of setters. -/
def setAll (values : List (Σ f : Field, f.type.Value)) (o : Object) : Object :=
  values.foldl (fun o a => o.set a.1 a.2) o

theorem get_setAll_of_ne {values : List (Σ f : Field, f.type.Value)} {g : Field}
    (h : ∀ a ∈ values, a.1.name ≠ g.name) (o : Object) : (setAll values o).get g = o.get g := by
  induction values generalizing o with
  | nil => rfl
  | cons a values ih =>
    obtain ⟨hHead, hTail⟩ := List.forall_mem_cons.mp h
    exact (ih hTail _).trans (get_set_of_ne o _ hHead)

theorem get_setAll {values : List (Σ f : Field, f.type.Value)}
    (hNodup : (values.map (·.1.name)).Nodup) (o : Object) :
    ∀ a ∈ values, (setAll values o).get a.1 = a.2 := by
  induction values generalizing o with
  | nil => exact fun a ha => by cases ha
  | cons a values ih =>
    rw [List.map_cons, List.nodup_cons] at hNodup
    refine List.forall_mem_cons.mpr ⟨?_, ih hNodup.2 _⟩
    have hOther : ∀ b ∈ values, b.1.name ≠ a.1.name :=
      fun b hb hName => hNodup.1 (hName ▸ List.mem_map_of_mem hb)
    exact (get_setAll_of_ne hOther _).trans (get_set o a.1 a.2)

/-- A run of setters raises `changed` exactly if one of the values is new. -/
theorem setAll_changed {values : List (Σ f : Field, f.type.Value)}
    (hNodup : (values.map (·.1.name)).Nodup) (o : Object) :
    (setAll values o).changed = true ↔ o.changed = true ∨ ∃ a ∈ values, o.get a.1 ≠ a.2 := by
  induction values generalizing o with
  | nil => simp [setAll]
  | cons a values ih =>
    rw [List.map_cons, List.nodup_cons] at hNodup
    have hKeep : ∀ b ∈ values, (o.set a.1 a.2).get b.1 = o.get b.1 := fun b hb =>
      get_set_of_ne o _ fun hName => hNodup.1 (hName ▸ List.mem_map_of_mem hb)
    have hRest : (∃ b ∈ values, (o.set a.1 a.2).get b.1 ≠ b.2) ↔ ∃ b ∈ values, o.get b.1 ≠ b.2 :=
      exists_congr fun b => and_congr_right fun hb => by rw [hKeep b hb]
    have hStep : setAll (a :: values) o = setAll values (o.set a.1 a.2) := rfl
    rw [hStep, ih hNodup.2, hRest, set_changed, Bool.or_eq_true, decide_eq_true_eq, or_assoc]
    simp

/-- A run of setters that sets nothing new does nothing. -/
theorem setAll_of_eq {values : List (Σ f : Field, f.type.Value)} {o : Object}
    (h : ∀ a ∈ values, o.get a.1 = a.2) : setAll values o = o := by
  induction values with
  | nil => rfl
  | cons a values ih =>
    obtain ⟨hHead, hTail⟩ := List.forall_mem_cons.mp h
    have hStep : setAll (a :: values) o = setAll values (o.set a.1 a.2) := rfl
    rw [hStep, set_of_eq hHead]
    exact ih hTail

@[simp] theorem get_done (o : Object) (f : Field) : o.done.get f = o.get f := rfl

/-- The member `identifier`. -/
def identifier (o : Object) : Int32 := o.get .identifier

theorem identifier_set (o : Object) {f : Field} (v : f.type.Value)
    (h : f.name ≠ Field.identifier.name) : (o.set f v).identifier = o.identifier :=
  get_set_of_ne o v h

/-- The setter `setIdentifier`. -/
def setIdentifier (id : Int32) (o : Object) : Object := o.set .identifier id

@[simp] theorem identifier_setIdentifier (id : Int32) (o : Object) :
    (o.setIdentifier id).identifier = id := get_set o .identifier id

theorem get_setIdentifier (id : Int32) (o : Object) {f : Field}
    (h : f.name ≠ Field.identifier.name) : (o.setIdentifier id).get f = o.get f :=
  get_set_of_ne o _ h.symm

theorem changed_setIdentifier {id : Int32} {o : Object} (h : o.changed = true) :
    (o.setIdentifier id).changed = true := by
  have hSet := set_changed o .identifier id
  rw [h, Bool.true_or] at hSet
  exact hSet

@[simp] theorem identifier_construct (o : Object) : o.construct.identifier = -1 := get_put ..

end Object

/-! ## Tables -/

/-- `Table`. `fresh` is the object that `cls->instance()` makes. -/
structure Table where
  cls : String
  fresh : Object
  fields : List Field
  version : Rat
  nodup : (fields.map Field.name).Nodup
  identifier_mem : Field.identifier ∈ fields
  primary : ∀ f ∈ fields, f.primary = true → f = .identifier

namespace Table

theorem eq_of_name {t : Table} {f g : Field} (hf : f ∈ t.fields) (hg : g ∈ t.fields)
    (h : f.name = g.name) : f = g := List.inj_on_of_nodup_map t.nodup hf hg h

/-- The field of a name. -/
theorem find?_name (t : Table) {f : Field} (hf : f ∈ t.fields) :
    t.fields.find? (fun g => g.name == f.name) = some f := by
  cases hFind : t.fields.find? (fun g => g.name == f.name) with
  | none => exact absurd (List.find?_eq_none.mp hFind f hf) (by simp)
  | some g =>
    have hName : g.name = f.name := by simpa using List.find?_some hFind
    rw [eq_of_name (List.mem_of_find?_eq_some hFind) hf hName]

/-- The fields that `SQLite::update` writes. -/
def stored (t : Table) : List Field := t.fields.filter (fun f => !f.primary)

theorem mem_stored {t : Table} {f : Field} : f ∈ t.stored ↔ f ∈ t.fields ∧ f ≠ .identifier := by
  simp only [stored, List.mem_filter, Bool.not_eq_true']
  constructor
  · intro h
    refine ⟨h.1, ?_⟩
    intro hId
    rw [hId] at h
    exact Bool.noConfusion h.2
  · intro h
    refine ⟨h.1, ?_⟩
    cases hPrimary : f.primary with
    | false => rfl
    | true => exact absurd (t.primary f h.1 hPrimary) h.2

theorem stored_name_ne {t : Table} {f : Field} (h : f ∈ t.stored) :
    f.name ≠ Field.identifier.name := by
  intro hName
  obtain ⟨hf, hne⟩ := mem_stored.mp h
  exact hne (eq_of_name hf t.identifier_mem hName)

/-- Every field has a type that the statements of `SQLite` handle. -/
def Columns (t : Table) : Prop := ∀ f ∈ t.fields, f.type.isColumn = true

instance (t : Table) : Decidable t.Columns :=
  inferInstanceAs (Decidable (∀ f ∈ t.fields, f.type.isColumn = true))

end Table

end RetroConfig
