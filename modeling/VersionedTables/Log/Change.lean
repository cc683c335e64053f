import VersionedTables.Log.Row

/-!
# Changes

Every committed row set has a record, its change: who committed it, when, what it holds, and where
its rows are kept.

* **`Change`** — the record of a committed row set.
* **`ContentKey`** — where the rows of a change are kept.
* **`RowReferences`** — what the writer is told of a commit.
-/

namespace VersionedTables

structure ContentKey where
  table : TableId
  version : Version
deriving DecidableEq, Inhabited

namespace ContentKey

def text (k : ContentKey) : String := s!"{k.table.text}/{k.version}"

def fieldNames : List String := ["table_id", "version"]

instance : JsonFormat ContentKey where
  write k := .record (fieldNames.zip [JsonFormat.write k.table, .word k.version])
  read? v := do
    let [table, version] ← v.slots? fieldNames | none
    return ⟨← table.required?, ← version.required?⟩

end ContentKey

/-- The record of a committed row set. -/
structure Change where
  table : TableId
  version : Version
  rowCount : UInt64
  /-- The least id that a new row was given. -/
  minRowId : Option RowId
  /-- The greatest id that a new row was given. -/
  maxRowId : Option RowId
  columns : List ColumnId
  createdBy : UserId
  createdOnMillis : UInt64
  contentKey : ContentKey
deriving DecidableEq, Inhabited

namespace Change

def fieldNames : List String :=
  ["table_id", "version", "row_count", "min_row_id", "max_row_id", "column_ids", "created_by",
   "created_on_millis", "content_key"]

instance : JsonFormat Change where
  write c := .record (fieldNames.zip
    [JsonFormat.write c.table, .word c.version, .word c.rowCount, JsonFormat.write c.minRowId,
     JsonFormat.write c.maxRowId, JsonFormat.write c.columns, .word c.createdBy,
     .word c.createdOnMillis, JsonFormat.write c.contentKey])
  read? v := do
    let [table, version, rowCount, least, greatest, columns, createdBy, createdOn, key] ←
      v.slots? fieldNames | none
    return {
      table := ← table.required?
      version := ← version.required?
      rowCount := ← rowCount.required?
      minRowId := ← least.nullable?
      maxRowId := ← greatest.nullable?
      columns := ← columns.required?
      createdBy := ← createdBy.required?
      createdOnMillis := ← createdOn.required?
      contentKey := ← key.required? }

end Change

/-- What the writer is told of a commit. -/
structure RowReferences where
  table : TableId
  version : Version
  headers : List ColumnId
  /-- The ids of the rows, new ones included, in the order of the rows. -/
  rowIds : List RowId
deriving DecidableEq, Inhabited

namespace RowReferences

def fieldNames : List String := ["table_id", "version", "headers", "row_ids"]

instance : JsonFormat RowReferences where
  write r := .record (fieldNames.zip
    [JsonFormat.write r.table, .word r.version, JsonFormat.write r.headers,
     JsonFormat.write r.rowIds])
  read? v := do
    let [table, version, headers, rowIds] ← v.slots? fieldNames | none
    return ⟨← table.required?, ← version.required?, ← headers.required?, ← rowIds.required?⟩

end RowReferences

end VersionedTables
