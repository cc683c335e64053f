import VersionedTables.Identifiers

/-!
# Rows

A row set is a batch of rows under one list of headers. What a row does to the table is told by what
it carries: without an id it is new, with an id and values it updates the row of that id, and with
an id and no values it deletes that row.

* **`Row`** — one row, **`Row.isDeletion`** — whether it deletes.
* **`RowSet`** — a batch of rows.
* **`RowSet.newRows`** — how many of them are new.
-/

namespace VersionedTables

structure Row where
  /-- The row of the table that is meant; a new row has none. -/
  rowId : Option RowId := none
  version : Option Version := none
  /-- The cells, one for each header. -/
  values : List (Option String) := []
deriving DecidableEq, Inhabited

namespace Row

def new (values : List (Option String)) : Row := { values }

/-- The cells that an existing row is to have. -/
def update (id : RowId) (values : List (Option String)) : Row := { rowId := some id, values }

def delete (id : RowId) : Row := { rowId := some id }

def isDeletion (r : Row) : Bool := r.rowId.isSome && r.values.isEmpty

def fieldNames : List String := ["row_id", "version", "values"]

/-- Rows are written in full; a field that is missing from a document is empty. -/
instance : JsonFormat Row where
  write r := .record (fieldNames.zip
    [JsonFormat.write r.rowId, JsonFormat.write r.version, JsonFormat.write r.values])
  read? v := do
    let [rowId, version, values] ← v.slots? fieldNames | none
    return ⟨← rowId.orElse? none, ← version.orElse? none, ← values.orElse? []⟩

end Row

/-- A batch of rows under one list of headers. -/
structure RowSet where
  table : TableId
  headers : List ColumnId
  rows : List Row
deriving DecidableEq, Inhabited

namespace RowSet

def newRows (s : RowSet) : Nat := s.rows.countP (·.rowId.isNone)

def rowIds (s : RowSet) : List RowId := s.rows.filterMap (·.rowId)

def fieldNames : List String := ["table_id", "headers", "rows"]

instance : JsonFormat RowSet where
  write s := .record (fieldNames.zip
    [JsonFormat.write s.table, JsonFormat.write s.headers, JsonFormat.write s.rows])
  read? v := do
    let [table, headers, rows] ← v.slots? fieldNames | none
    return ⟨← table.required?, ← headers.required?, ← rows.required?⟩

end RowSet

end VersionedTables
