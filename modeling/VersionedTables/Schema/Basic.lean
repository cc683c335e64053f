import VersionedTables.Repeats
import VersionedTables.Schema.Binding
import VersionedTables.Schema.Capacity
import VersionedTables.Schema.Change

/-!
# Schemas of tables

Giving a table a schema checks the schema first, then the stamp that the caller expects; a schema
that the table has already is left as it is, stamp included.

* **`Schema.bind`** — gives a table a schema.
* **`Schema.applyChanges`** — gives a table the schema that a list of changes makes of its own.
* **`Schema.columns`**, **`Schema.selected`** — the columns of a table, all of them or some.
* **`Schema.details`** — the columns that changes name.
* **`Schema.boundObjects`** — a page of the tables that have some columns.
-/

namespace VersionedTables

namespace Schema

/-- Refuses a schema that names a column twice. -/
def checkDistinct (ids : List ColumnId) : Except Error Unit :=
  match Repeats.first? ids with
  | some id => .error (.repeatedColumn id)
  | none => .ok ()

/-- Gives a table the schema `ids` under the stamp `fresh`. Answers whether that is a change; if it
is none, the binding stays as it is. -/
def bind (settings : Settings) (catalog : Catalog) (fresh : Etag) (bindings : Bindings)
    (table : TableId) (ids : List ColumnId) (expected : Option Etag) :
    Except Error (Bool × Bindings) := do
  checkDistinct ids
  let _ ← Capacity.resolve settings catalog ids
  bindings.checkEtag table expected
  if (bindings.current table).columns = ids then return (false, bindings)
  else
    let (_, bindings) ← bindings.replace fresh table ids expected
    return (true, bindings)

/-- The schema that a list of changes makes of a table's own. -/
def calculate (bindings : Bindings) (table : TableId) (changes : List SchemaChange) :
    Except Error (List ColumnId) :=
  SchemaChange.applyAll (bindings.current table).columns changes

/-- Gives a table the schema that a list of changes makes of its own. Answers the binding that the
table has then. -/
def applyChanges (settings : Settings) (catalog : Catalog) (fresh : Etag) (bindings : Bindings)
    (table : TableId) (changes : List SchemaChange) (expected : Option Etag) :
    Except Error (Binding × Bindings) := do
  bindings.checkEtag table expected
  let current := bindings.current table
  let ids ← SchemaChange.applyAll current.columns changes
  let (_, bindings) ← bind settings catalog fresh bindings table ids (some current.etag)
  return (bindings.current table, bindings)

/-! ### Columns of a table -/

/-- The columns of a table, in order. -/
def columns (catalog : Catalog) (bindings : Bindings) (table : TableId) :
    Except Error (List Column) :=
  catalog.resolve (bindings.current table).columns true

/-- Those columns of a table that are asked for, one for one. -/
def selected (catalog : Catalog) (bindings : Bindings) (table : TableId) (ids : List ColumnId) :
    Except Error (List Column) := do
  let bound ← columns catalog bindings table
  ids.mapM fun id =>
    match bound.find? (·.id = id) with
    | some column => .ok column
    | none => .error (.columnNotBound id table)

/-! ### Queries -/

/-- The columns that a list of changes names, the new one of each change before the old one. -/
def named (changes : List SchemaChange) : List ColumnId :=
  changes.flatMap (fun c => c.new.toList ++ c.old.toList)

def details (catalog : Catalog) (changes : List SchemaChange) :
    Except Error (List ChangeDetails) := do
  let columns ← catalog.resolve (named changes) false
  let lookup (id : ColumnId) : Option Column := columns.find? (·.id = id)
  return changes.map (fun c => ⟨c.old.bind lookup, c.new.bind lookup⟩)

def boundObjects (settings : Settings) (bindings : Bindings) (ids : List ColumnId)
    (currentOnly : Bool) (limit offset : UInt64) : Except Error (Page TableId) := do
  Page.checkLimit settings.maxPageSize limit
  return .cut (bindings.boundTo ids currentOnly) limit offset

end Schema

end VersionedTables
