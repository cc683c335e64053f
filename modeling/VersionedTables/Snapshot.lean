import VersionedTables.Log.Basic

/-!
# Snapshots

What a table holds at a version, which is what its changes up to the version leave behind: a row set
writes the cells it names, and leaves all others as they are.

* **`Snapshot`** — the content of a table.
* **`Snapshot.apply`** — the content after one more row set.
* **`Snapshot.replay`** — the content that a log leaves.
* **`Snapshot.project`** — the content under given headers.
-/

namespace VersionedTables

/-- What a table holds of one row. -/
structure SnapshotRow where
  /-- The last version that wrote the row. -/
  version : Version
  values : SortedMap ColumnId (Option String)
deriving DecidableEq

/-- The content of a table. -/
structure Snapshot where
  table : TableId
  version : Option Version
  rows : SortedMap RowId SnapshotRow
deriving DecidableEq

namespace Snapshot

def empty (table : TableId) : Snapshot := ⟨table, none, ∅⟩

/-! ### Applying row sets -/

/-- Cells with the given values written over them; values beyond the last header count for
nothing. -/
def write (headers : List ColumnId) (values : List (Option String))
    (cells : SortedMap ColumnId (Option String)) : SortedMap ColumnId (Option String) :=
  (headers.zip values).foldl (fun m c => m.insert c.1 c.2) cells

/-- Rows after one row of a row set: a deletion removes its row, any other row writes its cells, and
a row without an id is passed over. -/
def applyRow (version : Version) (headers : List ColumnId) (rows : SortedMap RowId SnapshotRow)
    (r : Row) : SortedMap RowId SnapshotRow :=
  match r.rowId with
  | none => rows
  | some id =>
      if r.isDeletion then rows.erase id
      else
        let cells := ((rows.get? id).map (·.values)).getD ∅
        rows.insert id ⟨version, write headers r.values cells⟩

/-- Whether a version was applied already. -/
def covers (s : Snapshot) (version : Version) : Bool := s.version.any (version ≤ ·)

/-- The content after the row set of a version. A version that is not above the last one applied
changes nothing. -/
def apply (s : Snapshot) (version : Version) (rows : RowSet) : Snapshot :=
  if s.covers version then s
  else
    { s with
      version := some version
      rows := rows.rows.foldl (applyRow version rows.headers) s.rows }

def applyChange (log : RowLog) (s : Snapshot) (c : Change) : Except Error Snapshot := do
  let rows ← log.rowSet s.table c.version
  return s.apply c.version rows

/-- The content that the changes of a table leave, those up to version `upTo` if it is given. -/
def replay (log : RowLog) (table : TableId) (upTo : Option Version) : Except Error Snapshot :=
  ((log.history table).takeWhile (fun c => upTo.all (c.version ≤ ·))).foldlM (applyChange log)
    (.empty table)

/-! ### Views -/

/-- The rows under the given headers, ascending by id; a cell that was never written is empty. -/
def project (s : Snapshot) (headers : List ColumnId) : List (RowId × List (Option String)) :=
  s.rows.toList.map (fun r => (r.1, headers.map (fun h => (r.2.values.get? h).join)))

end Snapshot

/-! ### Documents -/

namespace SnapshotRow

/-- The document of cells: their values under the names of their columns. -/
def writeCells (cells : SortedMap ColumnId (Option String)) : Json :=
  .record (cells.toList.map (fun c => (c.1.text, JsonFormat.write c.2)))

/-- Reads a cell under the name of its column. -/
def readCell? (m : List Char × Json) : Option (ColumnId × Option String) := do
  return (⟨← Quoted.decode? m.1⟩, ← JsonFormat.read? m.2)

/-- Reads cells; of several under one name the last one counts. -/
def readCells? : Json → Option (SortedMap ColumnId (Option String))
  | .object ms => (ms.mapM readCell?).map .ofList
  | _ => none

def fieldNames : List String := ["version", "values"]

instance : JsonFormat SnapshotRow where
  write r := .record (fieldNames.zip [.word r.version, writeCells r.values])
  read? v := do
    let [version, values] ← v.slots? fieldNames | none
    let .present cells := values | none
    return ⟨← version.required?, ← readCells? cells⟩

end SnapshotRow

namespace Snapshot

/-- The document of rows: each under its id. -/
def writeRows (rows : SortedMap RowId SnapshotRow) : Json :=
  .object (rows.toList.map (fun r => (Numeral.ofWord r.1, JsonFormat.write r.2)))

/-- Reads a row under its id, which is written as a number between the quotes. -/
def readRow? (m : List Char × Json) : Option (RowId × SnapshotRow) := do
  return (← Json.wordOfToken? m.1, ← JsonFormat.read? m.2)

/-- Reads rows; of several under one id the last one counts. -/
def readRows? : Json → Option (SortedMap RowId SnapshotRow)
  | .object ms => (ms.mapM readRow?).map .ofList
  | _ => none

def fieldNames : List String := ["table_id", "version", "rows"]

instance : JsonFormat Snapshot where
  write s := .record (fieldNames.zip
    [JsonFormat.write s.table, JsonFormat.write s.version, writeRows s.rows])
  read? v := do
    let [table, version, rows] ← v.slots? fieldNames | none
    let .present rows := rows | none
    return ⟨← table.required?, ← version.nullable?, ← readRows? rows⟩

end Snapshot

end VersionedTables
