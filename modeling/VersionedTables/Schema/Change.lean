import VersionedTables.Column.Basic

/-!
# Changes of a schema

A schema is the ordered list of the columns of a table. A change adds a column, removes one or puts
one in the place of another.

* **`SchemaChange`** — one instruction.
* **`SchemaChange.apply`**, **`SchemaChange.applyAll`** — the schema after one change, and after a
  list of them.
-/

namespace VersionedTables

/-- One instruction: both columns put `new` in the place of `old`, `old` alone removes it, and `new`
alone adds it at the end. -/
structure SchemaChange where
  old : Option ColumnId := none
  new : Option ColumnId := none
deriving DecidableEq

structure ChangeDetails where
  old : Option Column
  new : Option Column
deriving DecidableEq

namespace SchemaChange

def add (id : ColumnId) : SchemaChange := { new := some id }

def remove (id : ColumnId) : SchemaChange := { old := some id }

def update (old new : ColumnId) : SchemaChange := { old := some old, new := some new }

/-- The schema after a change. Only the first place of a column counts; removing a column that is
not there changes nothing, and replacing one is refused. A column is replaced by putting the new one
in front of it and then removing it. -/
def apply (ids : List ColumnId) (change : SchemaChange) : Except Error (List ColumnId) :=
  match change.old, change.new with
  | some old, some new =>
      if old ∈ ids then .ok ((ids.insertIdx (ids.idxOf old) new).erase old)
      else .error (.replacedColumnMissing old)
  | some old, none => .ok (ids.erase old)
  | none, some new => .ok (ids ++ [new])
  | none, none => .error .emptyChange

/-- The schema after a list of changes, each applied to what the ones before it leave. -/
def applyAll (ids : List ColumnId) (changes : List SchemaChange) : Except Error (List ColumnId) :=
  changes.foldlM apply ids

def fieldNames : List String := ["old_column_id", "new_column_id"]

instance : JsonFormat SchemaChange where
  write c := .record (fieldNames.zip [JsonFormat.write c.old, JsonFormat.write c.new])
  read? v := do
    let [old, new] ← v.slots? fieldNames | none
    return ⟨← old.orElse? none, ← new.orElse? none⟩

end SchemaChange

namespace ChangeDetails

def fieldNames : List String := ["old", "new"]

instance : JsonFormat ChangeDetails where
  write d := .record (fieldNames.zip [JsonFormat.write d.old, JsonFormat.write d.new])
  read? v := do
    let [old, new] ← v.slots? fieldNames | none
    return ⟨← old.nullable?, ← new.nullable?⟩

end ChangeDetails

end VersionedTables
