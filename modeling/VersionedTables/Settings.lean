import VersionedTables.Error
import VersionedTables.Json.Format

/-!
# Settings

The limits and the first numbers that an engine works with. A settings document may leave any of
them out.

* **`Settings`** — the settings, with their defaults.
* **`Settings.read`** — the settings that a text holds.
-/

namespace VersionedTables

/-- The limits and the first numbers of an engine. -/
structure Settings where
  /-- A table has fewer columns than this. -/
  maxColumnsPerTable : UInt64 := 4095
  maxBytesPerRow : UInt64 := 64000
  firstRowId : RowId := 1
  firstVersion : Version := 1
  maxPageSize : UInt64 := 100
  defaultStringMaxSize : UInt64 := 50
  maxColumnNameLength : UInt64 := 256
deriving DecidableEq

namespace Settings

def fieldNames : List String :=
  ["max_columns_per_table", "max_bytes_per_row", "first_row_id", "first_version",
   "max_page_size", "default_string_max_size", "max_column_name_length"]

/-- Settings are written in full; a setting that is missing from a document has its default. -/
instance : JsonFormat Settings where
  write s := .record (fieldNames.zip
    [.word s.maxColumnsPerTable, .word s.maxBytesPerRow, .word s.firstRowId,
     .word s.firstVersion, .word s.maxPageSize, .word s.defaultStringMaxSize,
     .word s.maxColumnNameLength])
  read? v := do
    let [columns, bytes, rowId, version, page, size, name] ← v.slots? fieldNames | none
    let d : Settings := {}
    return {
      maxColumnsPerTable := ← columns.orElse? d.maxColumnsPerTable
      maxBytesPerRow := ← bytes.orElse? d.maxBytesPerRow
      firstRowId := ← rowId.orElse? d.firstRowId
      firstVersion := ← version.orElse? d.firstVersion
      maxPageSize := ← page.orElse? d.maxPageSize
      defaultStringMaxSize := ← size.orElse? d.defaultStringMaxSize
      maxColumnNameLength := ← name.orElse? d.maxColumnNameLength }

def read (text : String) : Except Error Settings :=
  match JsonFormat.decode? text with
  | some s => .ok s
  | none => .error .unreadable

end Settings

end VersionedTables
