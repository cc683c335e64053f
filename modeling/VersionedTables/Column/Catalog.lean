import VersionedTables.Column.Basic
import VersionedTables.Page
import VersionedTables.SortedMap.Basic

/-!
# The catalog of columns

The catalog holds every column that was ever defined, under the name of its content. It only grows,
until all of it is removed.

* **`Catalog`** — the type.
* **`Catalog.add`** — adds a column unless one of its name is there.
* **`Catalog.resolve`** — the columns of a list of names, in its order or sorted.
* **`Catalog.page`** — a page of the columns by name.
-/

namespace VersionedTables

/-- The columns that are defined, by what names them. -/
abbrev Catalog := SortedMap ColumnId Column

namespace Catalog

/-- The catalog with a column, unless one of its name is there already. -/
def add (c : Catalog) (column : Column) : Catalog :=
  if c.contains column.id then c else c.insert column.id column

def find (c : Catalog) (id : ColumnId) : Except Error Column :=
  match c.get? id with
  | some column => .ok column
  | none => .error (.unknownColumn id)

/-- The members of a list of names, ascending and each once. -/
def distinct (ids : List ColumnId) : List ColumnId :=
  (SortedMap.ofList (ids.map (·, ()))).keys

/-- The columns of a list of names: one for one with `keepOrder`, else ascending by name and each
once. The least name that no column has is refused. -/
def resolve (c : Catalog) (ids : List ColumnId) (keepOrder : Bool) :
    Except Error (List Column) := do
  let columns ← (distinct ids).mapM c.find
  if keepOrder then ids.mapM c.find else return columns

/-- Whether the name that people see begins with a text. -/
def startsWith (beginning : Option String) (column : Column) : Bool :=
  match beginning with
  | some b => b.toList.isPrefixOf column.spec.name.toList
  | none => true

/-- Whether one column is listed before another, or they are the same: by the name that people see,
then by the name of the content. -/
def listedBefore (a b : Column) : Bool :=
  ((compare a.spec.name b.spec.name).then (compare a.id b.id)).isLE

/-- The columns whose name begins with a text, in the order of the listing. -/
def list (c : Catalog) (beginning : Option String) : List Column :=
  (c.values.filter (startsWith beginning)).mergeSort listedBefore

def page (c : Catalog) (beginning : Option String) (limit offset : UInt64) : Page Column :=
  .cut (c.list beginning) limit offset

end Catalog

end VersionedTables
