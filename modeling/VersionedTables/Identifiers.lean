import VersionedTables.Json.Format
import VersionedTables.Uuid

/-!
# Names of tables, columns, rows and revisions

* **`TableId`**, **`ColumnId`**, **`Etag`** — what names a table, a column and a revision of a
schema.
* **`RowId`**, **`Version`** — the numbers of a table's rows and of its committed row sets.
-/

namespace VersionedTables

structure TableId where
  uuid : Uuid
deriving DecidableEq, Inhabited

namespace TableId

instance : Ord TableId where
  compare := compareOn (·.uuid)

instance : Std.TransOrd TableId := inferInstanceAs (Std.TransCmp (compareOn _))

instance : Std.LawfulEqOrd TableId where
  eq_of_compare {a b} h := by
    cases a
    cases b
    have e := Std.LawfulEqOrd.eq_of_compare (α := Uuid) h
    simpa using e

def text (t : TableId) : String := t.uuid.text

instance : JsonFormat TableId where
  write t := .text t.text
  read? v := (JsonFormat.read? v).bind (fun s => (Uuid.read? s).map TableId.mk)

end TableId

/-- The name of a column definition. -/
structure ColumnId where
  /-- The name itself: for a defined column, the hash of its content. -/
  text : String
deriving DecidableEq, Inhabited

namespace ColumnId

/-- Column ids are ordered as their texts, character by character. -/
instance : Ord ColumnId where
  compare := compareOn (·.text)

instance : Std.TransOrd ColumnId := inferInstanceAs (Std.TransCmp (compareOn _))

instance : Std.LawfulEqOrd ColumnId where
  eq_of_compare {a b} h := by
    cases a
    cases b
    have e := Std.LawfulEqOrd.eq_of_compare (α := String) h
    simpa using e

instance : JsonFormat ColumnId where
  write c := .text c.text
  read? v := (JsonFormat.read? v).map ColumnId.mk

end ColumnId

/-- The stamp of one revision of a table's schema. Every change of the schema stamps it anew. -/
structure Etag where
  uuid : Uuid
deriving DecidableEq, Inhabited

namespace Etag

/-- The stamp of a table that has no schema. -/
def unbound : Etag := ⟨.zero⟩

def text (e : Etag) : String := e.uuid.text

instance : JsonFormat Etag where
  write e := .text e.text
  read? v := (JsonFormat.read? v).bind (fun s => (Uuid.read? s).map Etag.mk)

end Etag

/-- The number of a row within its table. -/
abbrev RowId := UInt64

/-- The number of a committed row set within its table. -/
abbrev Version := UInt64

abbrev UserId := UInt64

end VersionedTables
