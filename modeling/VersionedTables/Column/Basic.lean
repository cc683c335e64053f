import VersionedTables.Column.Naming
import VersionedTables.Sha256

/-!
# Column definitions

A column is specified by its name, its type and what its cells may hold. A specification that passes
the checks is brought into a normal form, and the hash of the normal form's text names the column:
equal columns have equal names.

* **`ColumnSpec`** — what a caller submits.
* **`Column`** — a named specification.
* **`ColumnSpec.checkCell`** — whether a cell may hold a value.
* **`ColumnSpec.normalize`**, **`ColumnSpec.define`** — the normal form, and the column.
-/

namespace VersionedTables

/-- What a column is called and what its cells may hold. -/
structure ColumnSpec where
  name : String
  type : ColumnType
  /-- The most characters that a cell may hold. -/
  maxSize : Option UInt64 := none
  defaultValue : Option String := none
  choices : Option (List String) := none
deriving DecidableEq

/-- A column: a specification under a name of its own. -/
structure Column where
  id : ColumnId
  spec : ColumnSpec
deriving DecidableEq

/-! ### Documents -/

instance : JsonFormat ColumnType where
  write t := .text t.name
  read? := Json.named ColumnType.name ColumnType.all

namespace ColumnSpec

def fieldNames : List String := ["name", "type", "max_size", "default_value", "enum_values"]

/-- A field with a value, or no field. -/
def optionalField {α : Type} [JsonFormat α] (name : String) : Option α → List (String × Json)
  | some a => [(name, JsonFormat.write a)]
  | none => []

/-- The fields of a specification; what is absent is left out. -/
def fields (s : ColumnSpec) : List (String × Json) :=
  [("name", .text s.name), ("type", JsonFormat.write s.type)]
    ++ optionalField "max_size" s.maxSize
    ++ optionalField "default_value" s.defaultValue
    ++ optionalField "enum_values" s.choices

def ofSlots? : List Slot → Option ColumnSpec
  | [name, type, maxSize, defaultValue, choices] => do
      return {
        name := ← name.required?
        type := ← type.required?
        maxSize := ← maxSize.orElse? none
        defaultValue := ← defaultValue.orElse? none
        choices := ← choices.orElse? none }
  | _ => none

instance : JsonFormat ColumnSpec where
  write s := .record s.fields
  read? v := (v.slots? fieldNames).bind ofSlots?

/-! ### Cells -/

/-- The most bytes that a cell takes in a row. -/
def maxBytes (s : ColumnSpec) : UInt64 := s.type.maxBytes s.maxSize

/-- Refuses a text that is no value of the type or that is too long. -/
def checkText (s : ColumnSpec) (value : String) : Except Error Unit :=
  if !s.type.admits value then .error (.malformedValue s.name value s.type)
  else
    match s.maxSize with
    | some limit =>
        if limit.toNat < value.length then .error (.valueTooLong s.name value.length limit)
        else .ok ()
    | none => .ok ()

/-- Refuses a text that is not among the choices, if there are choices. -/
def checkChoice (s : ColumnSpec) (value : String) : Except Error Unit :=
  match s.choices with
  | some choices => if value ∈ choices then .ok () else .error (.valueNotAllowed s.name value)
  | none => .ok ()

/-- Refuses what a cell may not hold. An empty cell is always allowed. -/
def checkCell (s : ColumnSpec) : Option String → Except Error Unit
  | none => .ok ()
  | some value => do
      s.checkText value
      s.checkChoice value

/-! ### Definition -/

/-- The normal form: the name without blank ends, and a size bound exactly where the type is
sized. -/
def normalize (settings : Settings) (s : ColumnSpec) : ColumnSpec :=
  { s with
    name := Blank.trim s.name
    maxSize :=
      if s.type.isSized then some (s.maxSize.getD settings.defaultStringMaxSize) else none }

/-- The text whose hash names the column. -/
def canonicalText (s : ColumnSpec) : String := JsonFormat.encode s

/-- What names the column of a specification in normal form. -/
def id (s : ColumnSpec) : ColumnId := ⟨Sha256.hexDigest s.canonicalText⟩

/-- The column of a specification. The choices have to be values of the type, and the default has to
be allowed in a cell. -/
def define (settings : Settings) (s : ColumnSpec) : Except Error Column := do
  ColumnName.check settings s.name
  let n := s.normalize settings
  if n.maxSize = some 0 then throw (.zeroMaxSize n.name)
  (n.choices.getD []).forM n.checkText
  n.checkCell n.defaultValue
  return ⟨n.id, n⟩

end ColumnSpec

namespace Column

def fieldNames : List String := "id" :: ColumnSpec.fieldNames

instance : JsonFormat Column where
  write c := .record (("id", JsonFormat.write c.id) :: c.spec.fields)
  read? v := do
    let id :: slots ← v.slots? fieldNames | none
    return ⟨← id.required?, ← ColumnSpec.ofSlots? slots⟩

def maxRowBytes (schema : List Column) : UInt64 :=
  schema.foldl (fun n c => Bounded.addSat n c.spec.maxBytes) 0

end Column

end VersionedTables
