import VersionedTables.Column.Basic
import VersionedTables.Repeats

/-!
# What may be committed

A row set that a writer submits is checked against the schema and against the row ids that were
handed out. A row set that comes from another log was checked there; here it is checked against its
change only. Either check reports the first thing that is wrong.

* **`RowSet.check`** — the check of a submitted row set.
* **`Change.checkRows`** — the check of a row set against its change.
-/

namespace VersionedTables

namespace Row

/-- Refuses a row that has not one value for each header. The refusal calls the row by `label`. -/
def checkWidth (r : Row) (label headers : Nat) : Except Error Unit :=
  if headers = 0 then .error .missingHeaders
  else if r.values.length ≠ headers then .error (.rowWidth label r.values.length headers)
  else .ok ()

/-- Refuses a row whose values are not, one for one, values of the columns. -/
def checkCells (r : Row) (label : Nat) (columns : List Column) : Except Error Unit := do
  r.checkWidth label columns.length
  (columns.zip r.values).forM (fun c => c.1.spec.checkCell c.2)

end Row

namespace RowSet

/-! ### Submitted row sets -/

/-- The columns of a schema that headers name, one for one. A header may stand once only, and not
after one of `seen`. -/
def columnsFor (table : TableId) (schema : List Column) (seen : List ColumnId) :
    List ColumnId → Except Error (List Column)
  | [] => .ok []
  | header :: headers =>
      if header ∈ seen then .error (.repeatedHeader header)
      else
        match schema.find? (·.id = header) with
        | none => .error (.unknownHeader header table)
        | some column => (columnsFor table schema (header :: seen) headers).map (column :: ·)

/-- Refuses a row id above `last`, the greatest one that was handed out, and one of `touched`. -/
def checkRowId (table : TableId) (last : Option RowId) (touched : List RowId) (id : RowId) :
    Except Error Unit :=
  if !last.any (id ≤ ·) then .error (.unallocatedRow id table)
  else if id ∈ touched then .error (.repeatedRow id)
  else .ok ()

/-- Refuses a row that cannot be committed: a deletion needs nothing but its row id, any other row
needs its values too. -/
def checkRow (table : TableId) (columns : List Column) (last : Option RowId)
    (touched : List RowId) (index : Nat) (r : Row) : Except Error Unit :=
  match r.rowId with
  | none => r.checkCells index columns
  | some id => do
      checkRowId table last touched id
      if r.isDeletion then .ok () else r.checkCells index columns

/-- Refuses rows by the first that cannot be committed. The rows before them carry the ids
`touched`, and `index` is their number. -/
def checkRows (table : TableId) (columns : List Column) (last : Option RowId) :
    List RowId → Nat → List Row → Except Error Unit
  | _, _, [] => .ok ()
  | touched, index, r :: rows => do
      checkRow table columns last touched index r
      checkRows table columns last (r.rowId.toList ++ touched) (index + 1) rows

/-- Refuses a row set that cannot be committed to a table of the given schema, of which row ids up
to `last` were handed out. -/
def check (s : RowSet) (table : TableId) (schema : List Column) (last : Option RowId) :
    Except Error Unit := do
  if s.table ≠ table then throw (.foreignRowSet s.table table)
  if s.rows.isEmpty then throw .emptyRowSet
  let columns ← columnsFor table schema [] s.headers
  checkRows table columns last [] 0 s.rows

end RowSet

/-! ### Row sets of another log -/

namespace Row

/-- Refuses a row that no commit of `version` could have stamped. -/
def checkStamp (r : Row) (id : RowId) (version : Version) : Except Error Unit :=
  if r.version = some version then .ok () else .error (.restoredStamp id r.version version)

/-- Refuses a row that could not have been committed under `version`, after rows of the ids
`touched`. -/
def checkCommitted (r : Row) (version : Version) (headers : Nat) (touched : List RowId)
    (index : Nat) : Except Error Unit :=
  match r.rowId with
  | none => .error (.restoredWithoutId index)
  | some id => do
      if id ∈ touched then throw (.repeatedRow id)
      r.checkStamp id version
      if r.isDeletion then .ok () else r.checkWidth id.toNat headers

end Row

/-- Refuses rows by the first that could not have been committed under `version`. -/
def RowSet.checkCommitted (version : Version) (headers : Nat) :
    List RowId → Nat → List Row → Except Error Unit
  | _, _, [] => .ok ()
  | touched, index, r :: rows => do
      r.checkCommitted version headers touched index
      RowSet.checkCommitted version headers (r.rowId.toList ++ touched) (index + 1) rows

namespace Change

/-- Refuses row id bounds that are the wrong way round. -/
def checkBounds (c : Change) : Except Error Unit :=
  match c.minRowId, c.maxRowId with
  | some least, some greatest =>
      if greatest < least then .error (.restoredBounds c.version least greatest) else .ok ()
  | _, _ => .ok ()

/-- Refuses a row set that the change does not describe, or that no commit could have made. -/
def checkRows (c : Change) (s : RowSet) : Except Error Unit := do
  if s.table ≠ c.table then throw .restoredElsewhere
  if s.rows.isEmpty then throw (.restoredEmpty c.version)
  if c.rowCount.toNat ≠ s.rows.length then
    throw (.restoredRowCount c.version c.rowCount s.rows.length)
  if c.columns ≠ s.headers then throw (.restoredColumns c.version)
  c.checkBounds
  match Repeats.first? s.headers with
  | some header => throw (.repeatedHeader header)
  | none => RowSet.checkCommitted c.version s.headers.length [] 0 s.rows

end Change

end VersionedTables
