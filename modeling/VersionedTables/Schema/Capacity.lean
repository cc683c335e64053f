import VersionedTables.Column.Catalog

/-!
# Capacity

A schema must keep below the ceilings of the settings: a table has fewer columns than the one
ceiling, and a row takes at most as many bytes as the other.

* **`CapacityRule`** — the rules, **`CapacityRule.check`** — whether a schema keeps one.
* **`Capacity.checkAll`** — the first rule that a schema breaks.
* **`Capacity.resolve`** — the columns of a schema that keeps the rules of the settings.
-/

namespace VersionedTables

/-- A ceiling on schemas. -/
inductive CapacityRule where
  /-- The number of columns lies below `max`. -/
  | columnsBelow (max : UInt64)
  /-- A row takes at most `max` bytes. -/
  | bytesAtMost (max : UInt64)
deriving DecidableEq

namespace CapacityRule

def name : CapacityRule → String
  | columnsBelow _ => "max-column-count"
  | bytesAtMost _ => "max-row-bytes"

/-- Refuses a number of columns that does not lie below `max`. -/
def checkCount (max : UInt64) (count : Nat) : Except Error Unit :=
  if max.toNat ≤ count then .error (.tooLarge .columnCount (Bounded.ofNatSat count) max)
  else .ok ()

def check (schema : List Column) : CapacityRule → Except Error Unit
  | columnsBelow max => checkCount max schema.length
  | bytesAtMost max =>
      if max < Column.maxRowBytes schema then
        .error (.tooLarge .rowBytes (Column.maxRowBytes schema) max)
      else .ok ()

end CapacityRule

namespace Capacity

def rules (settings : Settings) : List CapacityRule :=
  [.columnsBelow settings.maxColumnsPerTable, .bytesAtMost settings.maxBytesPerRow]

/-- Refuses a schema by the first of the rules that it breaks. -/
def checkAll (rules : List CapacityRule) (schema : List Column) : Except Error Unit :=
  rules.forM (CapacityRule.check schema)

/-- The columns of a schema, in its order. The number of columns is checked before they are looked
up. A schema without columns keeps every rule. -/
def resolve (settings : Settings) (catalog : Catalog) (ids : List ColumnId) :
    Except Error (List Column) :=
  if ids.isEmpty then .ok []
  else do
    CapacityRule.checkCount settings.maxColumnsPerTable ids.length
    let schema ← catalog.resolve ids true
    checkAll (rules settings) schema
    return schema

end Capacity

end VersionedTables
