import VersionedTables.Error
import VersionedTables.Log.Change
import VersionedTables.SortedMap.Basic

/-!
# The log

The log keeps every change of every table together with the text of its rows. It only grows: what is
committed under a version is never replaced.

* **`RowLog`** — the changes of all tables.
* **`RowLog.commit`** — adds a change.
* **`RowLog.history`** — the changes of a table, in the order of their versions.
* **`RowLog.rowSet`** — the rows of a change.
-/

namespace VersionedTables

/-- A change and the text of its rows. -/
structure LogEntry where
  change : Change
  payload : String
deriving DecidableEq, Inhabited

/-- The changes of all tables, by table and version. -/
abbrev RowLog := SortedMap TableId (SortedMap Version LogEntry)

namespace RowLog

/-- What the log keeps of a table. -/
def ofTable (l : RowLog) (table : TableId) : SortedMap Version LogEntry :=
  (l.get? table).getD ∅

def entry? (l : RowLog) (table : TableId) (version : Version) : Option LogEntry :=
  (l.ofTable table).get? version

/-- Adds a change with the text of its rows, unless there is one of its version. -/
def commit (l : RowLog) (change : Change) (payload : String) : Except Error RowLog :=
  if (l.entry? change.table change.version).isSome then
    .error (.changeExists change.contentKey)
  else
    .ok (l.insert change.table
      ((l.ofTable change.table).insert change.version ⟨change, payload⟩))

/-! ### Queries -/

def change? (l : RowLog) (table : TableId) (version : Version) : Option Change :=
  (l.entry? table version).map (·.change)

/-- The text that is kept under a key, if there is one. -/
def payload? (l : RowLog) (key : ContentKey) : Option String :=
  (l.entry? key.table key.version).map (·.payload)

/-- The changes of a table, in the order of their versions. -/
def history (l : RowLog) (table : TableId) : List Change :=
  (l.ofTable table).values.map (·.change)

def latest? (l : RowLog) (table : TableId) : Option Version :=
  (l.ofTable table).keys.getLast?

def change (l : RowLog) (table : TableId) (version : Version) : Except Error Change :=
  match l.change? table version with
  | some change => .ok change
  | none => .error (.unknownVersion version table)

def rowsAt (l : RowLog) (key : ContentKey) : Except Error RowSet :=
  match l.payload? key with
  | none => .error (.payloadMissing key)
  | some payload =>
      match JsonFormat.decode? payload with
      | some rows => .ok rows
      | none => .error .unreadable

/-- The rows that were committed under a version. -/
def rowSet (l : RowLog) (table : TableId) (version : Version) : Except Error RowSet := do
  let change ← l.change table version
  l.rowsAt change.contentKey

end RowLog

end VersionedTables
