import VersionedTables.SortedMap.Basic
import VersionedTables.Error

/-!
# Bindings

A binding is the schema that a table has, with the stamp of its revision. Together with it the table
remembers every column that it ever had since it was last unbound.

* **`Binding`** — the schema of a table.
* **`Bindings`** — the bindings of all tables.
* **`Bindings.current`** — the binding of a table, empty if it has none.
* **`Bindings.replace`** — a new schema under a new stamp.
* **`Bindings.boundTo`** — the tables that have, or ever had, one of some columns.
-/

namespace VersionedTables

structure Binding where
  table : TableId
  columns : List ColumnId
  etag : Etag
deriving DecidableEq

namespace Binding

def empty (table : TableId) : Binding := ⟨table, [], .unbound⟩

end Binding

/-- What is kept of a table that has a schema. -/
structure BindingRecord where
  binding : Binding
  /-- The columns that the table has or had. -/
  everBound : SortedMap ColumnId Unit
deriving DecidableEq

/-- The columns that count for a query about columns: those that the table has, or those that it
ever had. -/
def BindingRecord.columns (r : BindingRecord) (currentOnly : Bool) : List ColumnId :=
  if currentOnly then r.binding.columns else r.everBound.keys

abbrev Bindings := SortedMap TableId BindingRecord

namespace Bindings

def find? (b : Bindings) (table : TableId) : Option Binding := (b.get? table).map (·.binding)

/-- The binding of a table, empty if it has none. -/
def current (b : Bindings) (table : TableId) : Binding :=
  (b.find? table).getD (.empty table)

/-- Refuses a stamp that is expected but not current. -/
def checkEtag (b : Bindings) (table : TableId) : Option Etag → Except Error Unit
  | none => .ok ()
  | some expected =>
      if expected = (b.current table).etag then .ok ()
      else .error (.staleEtag table expected (b.current table).etag)

/-- The columns that a table has or had. -/
def everBound (b : Bindings) (table : TableId) : SortedMap ColumnId Unit :=
  ((b.get? table).map (·.everBound)).getD ∅

def replace (b : Bindings) (fresh : Etag) (table : TableId) (ids : List ColumnId)
    (expected : Option Etag) : Except Error (Binding × Bindings) := do
  b.checkEtag table expected
  let binding : Binding := ⟨table, ids, fresh⟩
  let ever := ids.foldl (fun s id => s.insert id ()) (b.everBound table)
  return (binding, b.insert table ⟨binding, ever⟩)

/-- The tables that have one of `ids`, or ever had one, in the order of their names. -/
def boundTo (b : Bindings) (ids : List ColumnId) (currentOnly : Bool) : List TableId :=
  (b.toList.filter (fun e => (e.2.columns currentOnly).any (ids.contains ·))).map (·.1)

end Bindings

namespace Binding

def fieldNames : List String := ["object_id", "column_ids", "etag"]

instance : JsonFormat Binding where
  write b := .record (fieldNames.zip
    [JsonFormat.write b.table, JsonFormat.write b.columns, JsonFormat.write b.etag])
  read? v := do
    let [table, columns, etag] ← v.slots? fieldNames | none
    return ⟨← table.required?, ← columns.required?, ← etag.required?⟩

end Binding

end VersionedTables
